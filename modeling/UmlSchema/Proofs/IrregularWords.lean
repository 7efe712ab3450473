import UmlSchema.Proofs.Inflection
import Mathlib.Data.List.Infix

/-!
# Irregular words

A word with a plural of its own is looked up at the end of a longer word and without regard to case,
before any rule is tried. No entry of the table ends another entry or an uncountable word, so that
each entry is found whatever stands before it, and its plural leads back to it.
-/
namespace UmlSchema

namespace CodePoint

theorem toNat_ofNat {n : Nat} (h : n < 0x110000) : (ofNat n).toNat = n := by
  by_cases hrange : 0xD800 ≤ n ∧ n < 0xE000
  · rw [ofNat, dif_pos hrange]
    simp only [toNat]
    omega
  · have hvalid : n.isValidChar := by
      unfold Nat.isValidChar
      omega
    rw [ofNat, dif_neg hrange, if_pos h, toNat, Char.ofNat, dif_pos hvalid]
    rfl

/-- A small letter of the Latin alphabet. -/
def IsSmall (c : CodePoint) : Prop := 0x61 ≤ c.toNat ∧ c.toNat ≤ 0x7A

instance (c : CodePoint) : Decidable c.IsSmall := inferInstanceAs (Decidable (_ ∧ _))

theorem small_of_ofNat {n : Nat} (h : (ofNat n).IsSmall) : 0x61 ≤ n ∧ n ≤ 0x7A := by
  by_cases hn : n < 0x110000
  · rwa [IsSmall, toNat_ofNat hn] at h
  · have hspace : ofNat n = .scalar ' ' := by
      rw [ofNat, dif_neg (by omega), if_neg hn]
    rw [hspace] at h
    exact absurd h (by decide)

theorem caseRanges_small : ∀ r ∈ caseRanges,
    (r.first = 0x41 ∧ r.last = 0x5A ∧ r.shift = 32) ∨
    (r.first = 0x212A ∧ r.last = 0x212A ∧ r.shift = -8383) ∨ 0x7A < (r.first : Int) + r.shift := by
  decide +kernel

theorem caseless_of_capital {c : CodePoint} (h : 0x41 ≤ c.toNat ∧ c.toNat ≤ 0x5A) :
    c.caseless = ofNat (c.toNat + 32) := if_pos h

theorem caseless_of_kelvin {c : CodePoint} (h : c.toNat = 0x212A) : c.caseless = .scalar 'k' := by
  simp [caseless, h]

theorem caseless_of_small {c : CodePoint} (h : c.IsSmall) : c.caseless = c := by
  unfold IsSmall at h
  unfold caseless
  simp only [show ¬(0x41 ≤ c.toNat ∧ c.toNat ≤ 0x5A) by omega, show c.toNat ≠ 0x17F by omega,
    show c.toNat ≠ 0x212A by omega, show ¬(c.toNat = 0x130 ∨ c.toNat = 0x131) by omega, if_false]

/-- A lower case of small letters is the form that patterns compare. Long s and dotless i, which
patterns take for an s and an i, are their own lower case and no small letters. -/
theorem lower_of_small {c : CodePoint} (h : ∀ x ∈ c.lower, x.IsSmall) : c.lower = [c.caseless] := by
  unfold lower at h ⊢
  split at h
  · exact absurd (h (ofNat 0x307) (by simp)) (by decide)
  · rename_i hdotted
    rw [if_neg hdotted]
    split at h
    · rename_i r hr
      have hrange := List.find?_some hr
      have hmem := List.mem_of_find?_eq_some hr
      simp only [Bool.and_eq_true, decide_eq_true_eq] at hrange
      have hsmall := small_of_ofNat (h _ List.mem_cons_self)
      rcases caseRanges_small r hmem with ⟨hfirst, hlast, hshift⟩ | ⟨hfirst, hlast, hshift⟩ | hhigh
      · have hsum : ((c.toNat : Int) + r.shift).toNat = c.toNat + 32 := by omega
        rw [hsum, caseless_of_capital (by omega)]
      · have hsum : ((c.toNat : Int) + r.shift).toNat = 0x6B := by omega
        rw [hsum, caseless_of_kelvin (by omega)]
        rfl
      · omega
    · rw [caseless_of_small (h c List.mem_cons_self)]

end CodePoint

theorem Text.lower_of_small {t : Text} (h : ∀ x ∈ t.lower, x.IsSmall) :
    t.lower = t.map CodePoint.caseless := by
  have hletters : ∀ c ∈ t, c.lower = [c.caseless] := by
    intro c hc
    apply CodePoint.lower_of_small
    intro x hx
    exact h x (List.mem_flatMap.mpr ⟨c, hc, hx⟩)
  rw [lower, List.flatMap_congr hletters, List.map_eq_flatMap]

namespace Inflection

theorem acceptsAll_word {s : String} {t : Text} :
    acceptsAll (Letter.word s) t = true ↔ t.map CodePoint.caseless = Text.ofString s := by
  unfold Letter.word Text.ofString
  induction s.toList generalizing t with
  | nil => cases t <;> simp [acceptsAll]
  | cons l ls ih => cases t <;> simp [acceptsAll, Letter.accepts, ih]

theorem splitFinalFeed_of_last {t : Text}
    (h : (t.map CodePoint.caseless).getLast? ≠ some (.scalar '\n')) :
    splitFinalFeed t = (t, []) := by
  unfold splitFinalFeed
  split
  · rename_i hlast
    refine absurd ?_ h
    rw [List.getLast?_map, hlast]
    rfl
  · rfl

def irregular (w : String × String) : Rule := ending [""] w.1 w.2

variable {w : String × String} {t u : Text}

theorem apply_irregular (h : (t.map CodePoint.caseless).getLast? ≠ some (.scalar '\n')) :
    Rule.apply? (irregular w) t = some u ↔ ∃ p found, p ++ found = t ∧
      found.map CodePoint.caseless = Text.ofString w.1 ∧ u = p ++ Text.ofString w.2 := by
  have hrule : Rule.apply? (irregular w) t =
      (⟨[], Letter.word w.1, 0⟩ : Branch).applyAtEnd? (Text.ofString w.2) t := by
    unfold Rule.apply?
    rw [splitFinalFeed_of_last h]
    simp [irregular, ending, stemmed, Letter.word]
  simp only [hrule, Branch.applyAtEnd_eq_some, Branch.fits, Branch.replaced, List.nil_append,
    List.length_nil, List.take_zero, acceptsAll_word]

/-- No word of a table ends another one or an uncountable word, and none ends in a line feed. -/
structure Separate (words : List (String × String)) : Prop where
  others : ∀ v ∈ words, ∀ w ∈ words, Text.ofString v.1 <:+ Text.ofString w.1 → v = w
  uncountable : ∀ w ∈ words, ∀ s ∈ uncountableWords, ¬Text.ofString w.1 <:+ Text.ofString s
  feed : ∀ w ∈ words, (Text.ofString w.1).getLast?.any (· ≠ .scalar '\n')

theorem uncountable_small : ∀ s ∈ uncountableWords, ∀ c ∈ Text.ofString s, c.IsSmall := by
  decide

theorem exists_of_uncountable (h : isUncountable t = true) :
    ∃ s ∈ uncountableWords, t.map CodePoint.caseless = Text.ofString s := by
  obtain ⟨s, hs, hlower⟩ := List.any_eq_true.mp h
  have hlower : t.lower = Text.ofString s := of_decide_eq_true hlower
  refine ⟨s, hs, ?_⟩
  rw [← Text.lower_of_small, hlower]
  rw [hlower]
  exact uncountable_small s hs

theorem not_uncountable {words : List (String × String)} (h : Separate words) (hw : w ∈ words)
    (hend : Text.ofString w.1 <:+ t.map CodePoint.caseless) : isUncountable t = false := by
  rw [Bool.eq_false_iff]
  intro huncountable
  obtain ⟨s, hs, hcaseless⟩ := exists_of_uncountable huncountable
  rw [hcaseless] at hend
  exact h.uncountable w hw s hs hend

theorem inflectBy_irregular {words : List (String × String)} (h : Separate words) (hw : w ∈ words)
    (more : List Rule) (p : Text) {found : Text}
    (hfound : found.map CodePoint.caseless = Text.ofString w.1) :
    inflectBy (words.map irregular ++ more) (p ++ found) = p ++ Text.ofString w.2 := by
  have hend : Text.ofString w.1 <:+ (p ++ found).map CodePoint.caseless := by
    rw [List.map_append, hfound]
    exact List.suffix_append _ _
  have hfeed : ((p ++ found).map CodePoint.caseless).getLast? ≠ some (.scalar '\n') := by
    have hlast := h.feed w hw
    rw [List.map_append, hfound, List.getLast?_append]
    intro hnewline
    cases hword : (Text.ofString w.1).getLast? with
    | none => simp [hword] at hlast
    | some c =>
      rw [hword, Option.some_or] at hnewline
      rw [hword, hnewline] at hlast
      simp at hlast
  -- Whichever rule of the table is the first to fit, it is the one for the word.
  have hrule : (words.map irregular).findSome? (fun r => r.apply? (p ++ found)) =
      some (p ++ Text.ofString w.2) := by
    cases hsome : (words.map irregular).findSome? fun r => r.apply? (p ++ found) with
    | none =>
      have hnone := List.findSome?_eq_none_iff.mp hsome _ (List.mem_map_of_mem hw)
      rw [(apply_irregular hfeed).mpr ⟨p, found, rfl, hfound, rfl⟩] at hnone
      cases hnone
    | some u =>
      obtain ⟨r, hr, hu⟩ := List.exists_of_findSome?_eq_some hsome
      obtain ⟨v, hv, rfl⟩ := List.mem_map.mp hr
      obtain ⟨p', found', hsplit, hfound', rfl⟩ := (apply_irregular hfeed).mp hu
      have hend' : Text.ofString v.1 <:+ (p ++ found).map CodePoint.caseless := by
        rw [← hsplit, List.map_append, hfound']
        exact List.suffix_append _ _
      obtain rfl : v = w := by
        rcases List.suffix_or_suffix_of_suffix hend' hend with hsuffix | hsuffix
        · exact h.others v hv w hw hsuffix
        · exact (h.others w hw v hv hsuffix).symm
      have hlength : found'.length = found.length := by
        rw [← List.length_map, hfound', ← hfound, List.length_map]
      rw [(List.append_inj' hsplit hlength).1]
  rw [inflectBy, not_uncountable h hw hend, List.findSome?_append, hrule]
  rfl

theorem separate_plurals : Separate irregularWords := by
  constructor <;> decide

theorem separate_singulars : Separate (irregularWords.map Prod.swap) := by
  constructor <;> decide

end Inflection

open Inflection

/-- A word with a plural of its own, in any case and after any beginning, has that plural after the
same beginning, and each of the two forms leads back to the other. -/
theorem irregular_round_trip (p : Text) {s q : String} (h : (s, q) ∈ irregularWords)
    {S Q : Text} (hS : S.map CodePoint.caseless = Text.ofString s)
    (hQ : Q.map CodePoint.caseless = Text.ofString q) :
    pluralize (p ++ S) = p ++ Text.ofString q ∧ singularize (p ++ Q) = p ++ Text.ofString s ∧
      singularize (pluralize (p ++ S)) = p ++ Text.ofString s ∧
      pluralize (singularize (p ++ Q)) = p ++ Text.ofString q := by
  have hplural {S : Text} (hS : S.map CodePoint.caseless = Text.ofString s) :
      pluralize (p ++ S) = p ++ Text.ofString q :=
    inflectBy_irregular separate_plurals h pluralRules p hS
  have hsingular {Q : Text} (hQ : Q.map CodePoint.caseless = Text.ofString q) :
      singularize (p ++ Q) = p ++ Text.ofString s :=
    inflectBy_irregular separate_singulars (List.mem_map_of_mem h) singularRules p hQ
  have hwords : ∀ w ∈ irregularWords,
      (Text.ofString w.1).map CodePoint.caseless = Text.ofString w.1 ∧
      (Text.ofString w.2).map CodePoint.caseless = Text.ofString w.2 := by decide
  obtain ⟨hs, hq⟩ := hwords _ h
  refine ⟨hplural hS, hsingular hQ, ?_, ?_⟩
  · rw [hplural hS, hsingular hq]
  · rw [hsingular hQ, hplural hs]

theorem dottedChild_round_trip :
    ("child", "children") ∈ irregularWords ∧
    (Text.ofString "CH\u0130LD").map CodePoint.caseless = Text.ofString "child" ∧
    (Text.ofString "Children").map CodePoint.caseless = Text.ofString "children" ∧
    pluralize (Text.ofString "men\n" ++ Text.ofString "CH\u0130LD") =
      Text.ofString "men\n" ++ Text.ofString "children" ∧
    singularize (Text.ofString "men\n" ++ Text.ofString "Children") =
      Text.ofString "men\n" ++ Text.ofString "child" ∧
    singularize (pluralize (Text.ofString "men\n" ++ Text.ofString "CH\u0130LD")) =
      Text.ofString "men\n" ++ Text.ofString "child" ∧
    pluralize (singularize (Text.ofString "men\n" ++ Text.ofString "Children")) =
      Text.ofString "men\n" ++ Text.ofString "children" := by
  have hpair : ("child", "children") ∈ irregularWords := by decide
  have hS : (Text.ofString "CH\u0130LD").map CodePoint.caseless = Text.ofString "child" := by decide
  have hQ : (Text.ofString "Children").map CodePoint.caseless = Text.ofString "children" := by
    decide
  exact ⟨hpair, hS, hQ, irregular_round_trip (Text.ofString "men\n") hpair hS hQ⟩

end UmlSchema
