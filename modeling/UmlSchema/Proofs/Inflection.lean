import UmlSchema.Inflection.Noun
import Mathlib.Data.List.Basic

/-!
# Words that inflection leaves empty

A rule cannot use up a word of which it keeps a letter, or to which it adds one. All rules but one
do either, so plurals of words are words, and only the letter s on its own has an empty singular.
-/
namespace UmlSchema

namespace Inflection

def Rule.leavesLetter (r : Rule) : Bool :=
  r.branches.all fun b => !r.insert.isEmpty || !b.kept.isEmpty

theorem length_of_acceptsAll {ls : List Letter} {t : Text} (h : acceptsAll ls t = true) :
    t.length = ls.length := by
  induction ls generalizing t with
  | nil =>
    cases t with
    | nil => rfl
    | cons c cs => simp [acceptsAll] at h
  | cons l ls ih =>
    cases t with
    | nil => simp [acceptsAll] at h
    | cons c cs =>
      simp only [acceptsAll, Bool.and_eq_true] at h
      simp [ih h.2]

theorem replaced_ne_nil {b : Branch} {insert found : Text} (hfits : b.fits found = true)
    (h : (!insert.isEmpty || !b.kept.isEmpty) = true) : b.replaced insert found ≠ [] := by
  have hlength := length_of_acceptsAll hfits
  simp only [List.length_append] at hlength
  simp only [Bool.or_eq_true, Bool.not_eq_true', List.isEmpty_eq_false_iff] at h
  intro hnil
  simp only [Branch.replaced, List.append_eq_nil_iff, List.take_eq_nil_iff] at hnil
  obtain ⟨⟨hkept, -⟩, hinsert⟩ := hnil
  rcases h with h | h
  · exact h hinsert
  · have := List.length_pos_iff.mpr h
    rcases hkept with hkept | rfl
    · omega
    · simp at hlength
      omega

theorem splitFinalFeed_append (t : Text) : (splitFinalFeed t).1 ++ (splitFinalFeed t).2 = t := by
  unfold splitFinalFeed
  split
  · rename_i hlast
    exact List.dropLast_append_getLast? _ hlast
  · exact List.append_nil t

/-- The text at whose end a rule looks for its pattern, and what stands after it. -/
def Place.parts (t : Text) : Place → Text × Text
  | .whole | .ending => splitFinalFeed t
  | .last | .anywhere => (t, [])

theorem Place.parts_append (place : Place) (t : Text) :
    (place.parts t).1 ++ (place.parts t).2 = t := by
  cases place with
  | whole | ending => exact splitFinalFeed_append t
  | last | anywhere => exact List.append_nil t

/-- A branch of a rule fits at the end of a text. -/
structure Rule.FitsEnd (r : Rule) (t : Text) (b : Branch) (before found : Text) : Prop where
  branch : b ∈ r.branches
  split : before ++ found = (r.place.parts t).1
  fits : b.fits found = true
  whole : r.place = .whole → before = []

variable {r : Rule} {b : Branch} {insert t u before found : Text}

theorem Branch.applyAtEnd_eq_some : b.applyAtEnd? insert t = some u ↔
    ∃ before found, before ++ found = t ∧ b.fits found = true ∧
      u = before ++ b.replaced insert found := by
  simp only [applyAtEnd?, Option.ite_none_right_eq_some, Option.some.injEq]
  constructor
  · rintro ⟨hfits, rfl⟩
    exact ⟨_, _, List.take_append_drop _ t, hfits, rfl⟩
  · rintro ⟨before, found, rfl, hfits, rfl⟩
    have hlength : (before ++ found).length - b.size = before.length := by
      have hfound := length_of_acceptsAll hfits
      simp only [List.length_append] at hfound ⊢
      unfold size
      omega
    rw [hlength, List.drop_left, List.take_left]
    exact ⟨hfits, rfl⟩

/-- What a rule for the end of a text has done: the pattern is replaced, all else stays. -/
theorem Rule.apply_cases (hplace : r.place ≠ .anywhere) (hu : r.apply? t = some u) :
    ∃ b before found, r.FitsEnd t b before found ∧
      u = before ++ b.replaced r.insert found ++ (r.place.parts t).2 := by
  unfold Rule.apply? at hu
  cases hp : r.place with
  | whole =>
    simp only [hp, Option.map_eq_some_iff] at hu
    obtain ⟨v, hv, rfl⟩ := hu
    obtain ⟨b, hb, hv⟩ := List.exists_of_findSome?_eq_some hv
    simp only [Branch.applyToWhole?, Option.ite_none_right_eq_some, Option.some.injEq] at hv
    obtain ⟨hfits, rfl⟩ := hv
    exact ⟨b, [], _, ⟨hb, by rw [hp]; rfl, hfits, fun _ => rfl⟩, rfl⟩
  | ending =>
    simp only [hp, Option.map_eq_some_iff] at hu
    obtain ⟨v, hv, rfl⟩ := hu
    obtain ⟨b, hb, hv⟩ := List.exists_of_findSome?_eq_some hv
    obtain ⟨before, found, hsplit, hfits, rfl⟩ := Branch.applyAtEnd_eq_some.mp hv
    exact ⟨b, before, found, ⟨hb, by rw [hp]; exact hsplit, hfits, by simp [hp]⟩, rfl⟩
  | last =>
    simp only [hp] at hu
    obtain ⟨b, hb, hv⟩ := List.exists_of_findSome?_eq_some hu
    obtain ⟨before, found, hsplit, hfits, rfl⟩ := Branch.applyAtEnd_eq_some.mp hv
    exact ⟨b, before, found, ⟨hb, by rw [hp]; exact hsplit, hfits, by simp [hp]⟩,
      (List.append_nil _).symm⟩
  | anywhere => exact absurd hp hplace

theorem Rule.FitsEnd.apply (h : r.FitsEnd t b before found) (hplace : r.place ≠ .anywhere) :
    ∃ u, r.apply? t = some u := by
  have hend : b.applyAtEnd? r.insert (r.place.parts t).1 =
      some (before ++ b.replaced r.insert found) :=
    Branch.applyAtEnd_eq_some.mpr ⟨before, found, h.split, h.fits, rfl⟩
  rw [← Option.isSome_iff_exists]
  unfold Rule.apply?
  cases hp : r.place with
  | whole =>
    have hfound : found = (splitFinalFeed t).1 := by
      simpa [h.whole hp, hp, Place.parts] using h.split
    simp only [Option.isSome_map, List.findSome?_isSome_iff]
    exact ⟨b, h.branch, by simp [Branch.applyToWhole?, ← hfound, h.fits]⟩
  | ending =>
    rw [hp] at hend
    simp only [Option.isSome_map, List.findSome?_isSome_iff]
    exact ⟨b, h.branch, Option.isSome_iff_exists.mpr ⟨_, hend⟩⟩
  | last =>
    rw [hp] at hend
    simp only [List.findSome?_isSome_iff]
    exact ⟨b, h.branch, Option.isSome_iff_exists.mpr ⟨_, hend⟩⟩
  | anywhere => exact absurd hp hplace

theorem applyAnywhere_ne_nil {branches : List Branch} {insert t u : Text}
    (h : (branches.all fun b => !insert.isEmpty || !b.kept.isEmpty) = true)
    (hu : applyAnywhere? branches insert t = some u) : u ≠ [] := by
  cases t with
  | nil => simp [applyAnywhere?] at hu
  | cons c cs =>
    rw [applyAnywhere?] at hu
    split at hu
    · rename_i b hb
      cases hu
      have hfits := List.find?_some hb
      have hkeeps := List.all_eq_true.mp h b (List.mem_of_find?_eq_some hb)
      simp [replaced_ne_nil hfits hkeeps]
    · obtain ⟨v, -, rfl⟩ := Option.map_eq_some_iff.mp hu
      simp

theorem Rule.apply_ne_nil {r : Rule} (h : r.leavesLetter = true) {t u : Text}
    (hu : r.apply? t = some u) : u ≠ [] := by
  by_cases hplace : r.place = .anywhere
  · unfold Rule.apply? at hu
    simp only [hplace] at hu
    exact applyAnywhere_ne_nil h hu
  · obtain ⟨b, before, found, hfits, rfl⟩ := Rule.apply_cases hplace hu
    simp [replaced_ne_nil hfits.fits (List.all_eq_true.mp h b hfits.branch)]

theorem inflectBy_ne_nil {rules : List Rule} (h : rules.all Rule.leavesLetter = true) {word : Text}
    (hword : word ≠ []) : inflectBy rules word ≠ [] := by
  unfold inflectBy
  split
  · exact hword
  · cases hfound : rules.findSome? fun r => r.apply? word with
    | none => exact hword
    | some u =>
      obtain ⟨r, hr, hu⟩ := List.exists_of_findSome?_eq_some hfound
      exact Rule.apply_ne_nil (List.all_eq_true.mp h r hr) hu

end Inflection

open Inflection

theorem pluralize_ne_nil {word : Text} (h : word ≠ []) : pluralize word ≠ [] :=
  inflectBy_ne_nil (by decide) h

theorem dropFinalS_eq_nil {t : Text} (h : Rule.apply? (ending [""] "s" "") t = some []) :
    ∃ c, t = [c] ∧ c.caseless = .scalar 's' := by
  obtain ⟨b, before, found, hfits, hnil⟩ := Rule.apply_cases (by decide) h
  obtain ⟨hfront, hfeed⟩ := List.append_eq_nil_iff.mp hnil.symm
  obtain ⟨rfl, -⟩ := List.append_eq_nil_iff.mp hfront
  obtain rfl := List.mem_singleton.mp hfits.branch
  -- Nothing stands before or after the match, so that the match is the text.
  have htext : found = t := by
    rw [← Place.parts_append (ending [""] "s" "").place t, ← hfits.split, hfeed]
    simp
  subst htext
  have hs : acceptsAll [.oneOf ['s']] found = true := hfits.fits
  obtain ⟨c, rfl⟩ := List.length_eq_one_iff.mp (length_of_acceptsAll hs)
  exact ⟨c, rfl, by simpa [acceptsAll, Letter.accepts] using hs⟩

/-- The code points that count as an s in a pattern: s, S and long s. -/
theorem caseless_eq_s {c : CodePoint} (h : c.caseless = .scalar 's') :
    c = .scalar 's' ∨ c = .scalar 'S' ∨ c = .scalar '\u017f' := by
  have same {d : Char} (hd : c.toNat = d.toNat) (hsmall : d.toNat < 0xD800) : c = .scalar d := by
    cases c with
    | scalar c => exact congrArg _ (Char.toNat_inj.mp hd)
    | surrogate u =>
      simp only [CodePoint.toNat] at hd
      omega
  have capital : ∀ n : Fin 26, CodePoint.ofNat (n.val + 97) = .scalar 's' → n.val = 18 := by decide
  unfold CodePoint.caseless at h
  simp only at h
  split at h
  · rename_i hrange
    have hn := capital ⟨c.toNat - 65, by omega⟩
    simp only [show c.toNat - 65 + 97 = c.toNat + 32 by omega] at hn
    have : c.toNat = 83 := by
      have := hn h
      omega
    exact .inr (.inl (same this (by decide)))
  · split at h
    · rename_i hlong
      exact .inr (.inr (same hlong (by decide)))
    · split at h
      · cases h
      · split at h
        · cases h
        · exact .inl h

/-- The rule that drops a final s is the only one that can leave nothing. -/
theorem singularize_eq_nil_iff (t : Text) : singularize t = [] ↔
    t = [] ∨ t = Text.ofString "s" ∨ t = Text.ofString "S" ∨ t = Text.ofString "\u017f" := by
  constructor
  · intro h
    unfold singularize inflectBy at h
    split at h
    · exact .inl h
    have hsplit : irregularSingulars ++ singularRules =
        (irregularSingulars ++ singularRules.dropLast) ++ [ending [""] "s" ""] := by decide
    have hleaves : (irregularSingulars ++ singularRules.dropLast).all Rule.leavesLetter = true := by
      decide
    rw [hsplit, List.findSome?_append] at h
    cases hfound : (irregularSingulars ++ singularRules.dropLast).findSome? fun r => r.apply? t with
    | some u =>
      obtain ⟨r, hr, hu⟩ := List.exists_of_findSome?_eq_some hfound
      rw [hfound] at h
      exact absurd h (Rule.apply_ne_nil (List.all_eq_true.mp hleaves r hr) hu)
    | none =>
      rw [hfound, Option.none_or, List.findSome?_singleton] at h
      cases hlast : Rule.apply? (ending [""] "s" "") t with
      | none =>
        rw [hlast] at h
        exact .inl h
      | some u =>
        rw [hlast] at h
        cases h
        obtain ⟨c, rfl, hc⟩ := dropFinalS_eq_nil hlast
        rcases caseless_eq_s hc with rfl | rfl | rfl
        · exact .inr (.inl rfl)
        · exact .inr (.inr (.inl rfl))
        · exact .inr (.inr (.inr rfl))
  · rintro (rfl | rfl | rfl | rfl) <;> decide

end UmlSchema
