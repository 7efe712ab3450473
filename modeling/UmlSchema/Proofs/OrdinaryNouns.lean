import UmlSchema.Proofs.WordEndings

/-!
# Ordinary nouns

A noun with a last letter that no rule asks for, and that is neither uncountable nor irregular, has
a plural in s and is the singular of both. All rules but the last of each table are apart from its
ending, with or without the s.
-/
namespace UmlSchema

namespace Inflection

open Letter

/-- The last letters of ordinary nouns. -/
def ordinaryLetters : List Char :=
  ['b', 'c', 'd', 'g', 'j', 'k', 'l', 'n', 'p', 'q', 'r', 't', 'v']

structure IsOrdinary (w : Text) : Prop where
  last : EndsIn [oneOf ordinaryLetters] w
  countable : isUncountable w = false
  regular : ∀ pair ∈ irregularWords, ¬EndsIn (word pair.1) w ∧ ¬EndsIn (word pair.2) w
  notOxen : acceptsAll (word "oxen") w = false
  noIx : ∀ stem ∈ ixStems, ¬Contains (word stem ++ word "ix") w

def addS : Rule := ⟨.last, [⟨[noneOf ['s']], [], 0⟩], Text.ofString "s"⟩

variable {w : Text}

theorem IsOrdinary.parts (h : IsOrdinary w) (place : Place) : place.parts w = (w, []) :=
  parts_of_endsIn h.last (by decide) place

theorem pluralRules_ordinary : ∀ r ∈ pluralRules, r = addS ∨
    (r.place = .anywhere ∧ ∀ b ∈ r.branches, ∃ stem ∈ ixStems, b.letters = word stem ++ word "ix") ∨
    r.place ≠ .anywhere ∧ ∀ b ∈ r.branches, apart b.letters [oneOf ordinaryLetters] = true := by
  decide

theorem singularRules_ordinary : ∀ r ∈ singularRules, r.place ≠ .anywhere ∧
    ((r.place = .whole ∧ ∀ b ∈ r.branches, b.letters = word "oxen") ∨
      ∀ b ∈ r.branches, apart b.letters [oneOf ordinaryLetters] = true) := by
  decide

theorem singularRules_ordinaryPlural : ∀ r ∈ singularTable, r = dropS ∨
    r.place ≠ .anywhere ∧
      ∀ b ∈ r.branches, apart b.letters ([oneOf ordinaryLetters] ++ word "s") = true := by
  decide

theorem noneOf_s_of_ordinary {c : CodePoint} (h : (oneOf ordinaryLetters).accepts c = true) :
    (noneOf ['s']).accepts c = true := by
  have hs : (oneOf ['s']).accepts c = false := by
    rw [Bool.eq_false_iff]
    intro hs
    exact absurd (not_apart h hs) (by decide)
  exact congrArg (!·) hs

theorem IsOrdinary.not_irregular (h : IsOrdinary w) {pair : String × String}
    (hpair : ¬EndsIn (word pair.1) w) : Rule.apply? (irregular pair) w = none := by
  rw [Option.eq_none_iff_forall_ne_some]
  intro u hu
  have hend := endsIn_of_irregular hu
  rw [show (splitFinalFeed w).1 = w from congrArg Prod.fst (h.parts .ending)] at hend
  exact hpair hend

theorem IsOrdinary.addS_eq (h : IsOrdinary w) : addS.apply? w = some (w ++ Text.ofString "s") := by
  obtain ⟨before, found, rfl, hfound⟩ := h.last
  obtain ⟨c, rfl⟩ := List.length_eq_one_iff.mp (length_of_acceptsAll hfound)
  have hc : (noneOf ['s']).accepts c = true := by
    apply noneOf_s_of_ordinary
    simpa [acceptsAll] using hfound
  have hfits : addS.FitsEnd (before ++ [c]) ⟨[noneOf ['s']], [], 0⟩ before [c] :=
    ⟨List.mem_singleton.mpr rfl, rfl, by simp [Branch.fits, acceptsAll, hc], by simp [addS]⟩
  rw [hfits.apply_single (by simp [addS]) rfl]
  simp [Branch.replaced, addS, Place.parts]

theorem IsOrdinary.pluralize_eq (h : IsOrdinary w) : pluralize w = w ++ Text.ofString "s" := by
  refine inflectBy_of_only (by decide) h.addS_eq h.countable fun r hr => ?_
  rcases List.mem_append.mp hr with hr | hr
  · obtain ⟨pair, hpair, rfl⟩ := List.mem_map.mp hr
    exact .inr (h.not_irregular (h.regular pair hpair).1)
  · rcases pluralRules_ordinary r hr with rfl | ⟨hplace, hstems⟩ | ⟨hplace, hapart⟩
    · exact .inl rfl
    · right
      rw [Option.eq_none_iff_forall_ne_some]
      intro u hu
      obtain ⟨b, hb, hcontains⟩ := contains_of_anywhere hplace hu
      obtain ⟨stem, hstem, hletters⟩ := hstems b hb
      rw [hletters] at hcontains
      exact h.noIx stem hstem hcontains
    · right
      apply Rule.apply_eq_none hplace _ hapart
      rw [h.parts]
      exact h.last

theorem IsOrdinary.singularize_plural (h : IsOrdinary w) :
    singularize (w ++ Text.ofString "s") = w := by
  have hend : EndsIn ([oneOf ordinaryLetters] ++ word "s") (w ++ Text.ofString "s") :=
    h.last.append (by decide)
  have hparts := parts_of_endsIn hend (by decide)
  have hs : dropS.apply? (w ++ Text.ofString "s") = some w := by
    rw [dropS_eq (p := w) (by decide) (hparts .ending), List.append_nil]
  have hcountable : isUncountable (w ++ Text.ofString "s") = false := by
    have hsplit : (splitFinalFeed (w ++ Text.ofString "s")).1 = w ++ Text.ofString "s" :=
      congrArg Prod.fst (hparts .ending)
    exact countable_of_endsIn (hsplit.symm ▸ hend) (by decide)
  refine inflectBy_of_only (by decide) hs hcountable fun r hr => ?_
  rcases singularRules_ordinaryPlural r hr with rfl | ⟨hplace, hapart⟩
  · exact .inl rfl
  · right
    apply Rule.apply_eq_none hplace _ hapart
    rw [hparts]
    exact hend

theorem IsOrdinary.singularize_self (h : IsOrdinary w) : singularize w = w := by
  rcases inflectBy_cases singularTable w with ⟨hself, -⟩ | ⟨r, hr, hu, -⟩
  · exact hself
  · exfalso
    rcases List.mem_append.mp hr with hr | hr
    · obtain ⟨pair, hpair, rfl⟩ := List.mem_map.mp hr
      have hnone : Rule.apply? (irregular pair.swap) w = none :=
        h.not_irregular (h.regular pair hpair).2
      exact absurd (hnone.symm.trans hu) (by simp)
    · obtain ⟨hplace, ⟨hwhole, hoxen⟩ | hapart⟩ := singularRules_ordinary r hr
      · obtain ⟨b, before, found, hfits, -⟩ := Rule.apply_cases hplace hu
        have hfound : found = w := by
          have hsplit := hfits.split
          rwa [hfits.whole hwhole, h.parts, List.nil_append] at hsplit
        have haccepts : acceptsAll b.letters found = true := hfits.fits
        rw [hoxen b hfits.branch, hfound, h.notOxen] at haccepts
        cases haccepts
      · have hend : EndsIn [oneOf ordinaryLetters] (r.place.parts w).1 := by
          rw [h.parts]
          exact h.last
        rw [Rule.apply_eq_none hplace hend hapart] at hu
        cases hu

end Inflection

open Inflection Letter

/-- An ordinary noun has a plural in s, and is the singular of its plural and of itself. -/
theorem ordinary_noun_round_trip {w : Text} (h : IsOrdinary w) :
    pluralize w = w ++ Text.ofString "s" ∧ singularize (w ++ Text.ofString "s") = w ∧
      singularize w = w :=
  ⟨h.pluralize_eq, h.singularize_plural, h.singularize_self⟩

/-- An irregular plural and a stem of a word in -ix stand inside, and the last letter is a Kelvin
sign. -/
theorem childrensIndexBook_round_trip :
    IsOrdinary (Text.ofString "Children\nIndexBoo\u212a") ∧
    pluralize (Text.ofString "Children\nIndexBoo\u212a") =
      Text.ofString "Children\nIndexBoo\u212a" ++ Text.ofString "s" ∧
    singularize (Text.ofString "Children\nIndexBoo\u212a" ++ Text.ofString "s") =
      Text.ofString "Children\nIndexBoo\u212a" ∧
    singularize (Text.ofString "Children\nIndexBoo\u212a") =
      Text.ofString "Children\nIndexBoo\u212a" := by
  have hordinary : IsOrdinary (Text.ofString "Children\nIndexBoo\u212a") :=
    ⟨by decide, by decide, by decide, by decide, by decide⟩
  exact ⟨hordinary, ordinary_noun_round_trip hordinary⟩

end UmlSchema
