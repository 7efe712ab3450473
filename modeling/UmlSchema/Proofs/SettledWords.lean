import UmlSchema.Proofs.WordEndings

/-!
# Settled words

A word is settled if singularizing leaves it as it is. Apart from uncountable words and two endings
that are put back, these are the words with none of the endings that the rules ask for. Most rules
have settled results. Those for sibilants leave a word in s, which the last rule shortens once more,
and the last rule itself leaves whatever stood before the s.
-/
namespace UmlSchema

namespace Inflection

open Letter

/-- The endings that singularizing changes. -/
def pluralEndings : List (List Letter) :=
  ["s", "feet", "geese", "children", "men", "teeth", "people", "octopi", "viri"].map word ++
    [oneOf ['m', '|', 'l'] :: word "ice", oneOf ['t', 'i'] :: word "a"]

/-- Endings that are put back: a letter in either case, and the letters that go and come back. -/
def keptEndings : List (String × String) := [("s", "eries"), ("n", "ews")]

/-- The plurals whose singular ends in s. -/
def sibilantPlurals : List String :=
  ["aliases", "octopi", "viri", "crises", "axes", "testes", "buses", "sses", "analyses", "bases",
   "diagnoses", "parentheses", "prognoses", "synopses", "theses", "uses"]

def housePlurals : List String := ["houses", "blouses"]

/-- The text has no ending that singularizing changes, or one that is put back in small letters. -/
inductive Settled (t : Text) : Prop
  | uncountable (h : isUncountable t = true)
  | singular (hend : ∀ ls ∈ pluralEndings, ¬EndsIn ls (splitFinalFeed t).1)
      (hoxen : acceptsAll (word "oxen") (splitFinalFeed t).1 = false)
  | kept (k : String × String) (hk : k ∈ keptEndings) (p : Text) (hp : EndsIn (word k.1) p)
      (hsplit : p ++ Text.ofString k.2 = (splitFinalFeed t).1)

/-- The singular is changed once more by singularizing it. -/
inductive Relapses (w : Text) : Prop
  | sibilant (s : String) (hs : s ∈ sibilantPlurals) (hend : EndsIn (word s) (splitFinalFeed w).1)
      (hhouse : ∀ h ∈ housePlurals, ¬EndsIn (word h) (splitFinalFeed w).1)
  | extraS (p : Text) (c : CodePoint) (hc : c.caseless = .scalar 's')
      (hsplit : p ++ [c] = (splitFinalFeed w).1) (hrest : ¬Settled (p ++ (splitFinalFeed w).2))

def restore (k : String × String) : Rule := ending [k.1] k.2 k.2

def houseRule : Rule := ending ["h", "bl"] "ouses" "ouse"

end Inflection

def CodePoint.letter : CodePoint → Inflection.Letter
  | .scalar c => .oneOf [c]
  | .surrogate _ => .noneOf []

namespace Inflection

open Letter

def Branch.outcome (b : Branch) (insert : Text) : List Letter :=
  b.kept ++ b.kept.take b.echo ++ insert.map CodePoint.letter

theorem acceptsAll_letters {t : Text} (h : ∀ c ∈ t, c.caseless = c) :
    acceptsAll (t.map CodePoint.letter) t = true := by
  induction t with
  | nil => rfl
  | cons c cs ih =>
    obtain ⟨hc, hcs⟩ := List.forall_mem_cons.mp h
    have haccepts : c.letter.accepts c = true := by
      cases c with
      | scalar c => simpa [CodePoint.letter, accepts] using hc
      | surrogate u => rfl
    simp [acceptsAll, haccepts, ih hcs]

variable {r : Rule} {b : Branch} {t u w insert before found : Text}

theorem Branch.accepts_replaced (h : b.fits found = true) (hinsert : ∀ c ∈ insert, c.caseless = c) :
    acceptsAll (b.outcome insert) (b.replaced insert found) = true := by
  obtain ⟨hkept, -⟩ := Branch.accepts_parts h
  have hecho : acceptsAll (b.kept.take b.echo) ((found.take b.kept.length).take b.echo) = true :=
    acceptsAll_iff.mpr (List.forall₂_take b.echo (acceptsAll_iff.mp hkept))
  exact acceptsAll_append (acceptsAll_append hkept hecho) (acceptsAll_letters hinsert)

theorem Branch.replaced_ne (h : b.fits found = true)
    (hother : (b.kept.take b.echo).length + insert.length ≠ b.dropped.length ∨
      b.echo = 0 ∧ acceptsAll b.dropped insert = false) : b.replaced insert found ≠ found := by
  obtain ⟨hkept, hdropped⟩ := Branch.accepts_parts h
  intro hsame
  have htail : (found.take b.kept.length).take b.echo ++ insert = found.drop b.kept.length := by
    have hsplit := hsame.trans (List.take_append_drop b.kept.length found).symm
    rw [Branch.replaced, List.append_assoc] at hsplit
    exact List.append_cancel_left hsplit
  rcases hother with hlength | ⟨hecho, hinsert⟩
  · have hsum := congrArg List.length htail
    have hechoed := acceptsAll_iff.mpr (List.forall₂_take b.echo (acceptsAll_iff.mp hkept))
    rw [List.length_append, length_of_acceptsAll hechoed, length_of_acceptsAll hdropped] at hsum
    exact hlength hsum
  · rw [hecho, List.take_zero, List.nil_append] at htail
    rw [htail, hdropped] at hinsert
    cases hinsert

/-! ## The table -/

theorem singularTable_place : ∀ r ∈ singularTable, r.place = .whole ∨ r.place = .ending := by
  decide

theorem singularTable_insert : ∀ r ∈ singularTable, ∀ c ∈ r.insert, c.caseless = c := by
  decide

/-- Every rule asks for a plural ending, except for the one for oxen. -/
theorem singularTable_asks : ∀ r ∈ singularTable, ∀ b ∈ r.branches,
    (∃ ls ∈ pluralEndings, ls <:+ b.letters) ∨
      (r.place = .whole ∧ b.letters = word "oxen") := by
  decide +kernel

theorem singularTable_has : ∀ ls ∈ pluralEndings,
    ∃ r ∈ singularTable, r.place = .ending ∧ ∃ b ∈ r.branches, b.letters = ls := by
  decide +kernel

theorem singularTable_changes : ∀ r ∈ singularTable, (∃ k ∈ keptEndings, r = restore k) ∨
    ∀ b ∈ r.branches, (b.kept.take b.echo).length + r.insert.length ≠ b.dropped.length ∨
      b.echo = 0 ∧ acceptsAll b.dropped r.insert = false := by
  decide +kernel

theorem before_restore : ∀ k ∈ keptEndings, restore k ∈ singularTable ∧
    ∀ r ∈ singularTable.takeWhile (· ≠ restore k), ∀ b ∈ r.branches,
      apart b.letters (word k.1 ++ word k.2) = true := by
  decide +kernel

/-- The results of the rules other than the last: they are settled, or end in s. -/
theorem singularTable_results : ∀ r ∈ singularTable, r = dropS ∨
    (∃ k ∈ keptEndings, r = restore k) ∨ ∀ b ∈ r.branches,
      (∀ ls ∈ pluralEndings ++ [word "oxen", word "\n"], apart (b.outcome r.insert) ls = true) ∨
      ∃ s ∈ sibilantPlurals, word s <:+ b.letters ∧
        ((∀ h ∈ housePlurals, apart b.letters (word h) = true) ∨
          r ∉ singularTable.takeWhile (· ≠ houseRule) ++ [houseRule]) := by
  decide +kernel

/-- Up to the rule for a sibilant, all rules that its ending fits leave an s, except for houses. -/
theorem up_to_sibilant : ∀ s ∈ sibilantPlurals, ∃ x ∈ singularTable, x.place = .ending ∧
    (∃ b ∈ x.branches, b.letters = word s) ∧
    (∀ s' ∈ uncountableWords, apart (word s') (word s) = true) ∧
    ∀ r ∈ singularTable.takeWhile (· ≠ x) ++ [x], ∀ b ∈ r.branches,
      apart b.letters (word s) = true ∨ (∃ h ∈ housePlurals, b.letters = word h) ∨
      (word "s" <:+ b.outcome r.insert ∧
        (∀ k ∈ keptEndings, apart (b.outcome r.insert) (word k.1 ++ word k.2) = true) ∧
        ∀ s' ∈ uncountableWords, apart (word s') (b.outcome r.insert) = true) := by
  decide +kernel

/-- With another s after it, no ending that is changed fits a rule other than the last. -/
theorem before_extraS : ∀ ls ∈ pluralEndings ++ [word "oxen", word "\n"],
    (∀ r ∈ singularTable, r = dropS ∨ ∀ b ∈ r.branches, apart b.letters (ls ++ word "s") = true) ∧
      ∀ s ∈ uncountableWords, apart (word s) (ls ++ word "s") = true := by
  decide +kernel

theorem singularTable_ne_anywhere (hr : r ∈ singularTable) : r.place ≠ .anywhere := by
  rcases singularTable_place r hr with h | h <;> simp [h]

theorem singularTable_parts (hr : r ∈ singularTable) (t : Text) :
    r.place.parts t = splitFinalFeed t := by
  rcases singularTable_place r hr with h | h <;> simp [h, Place.parts]

structure SingularBy (w : Text) (r : Rule) (b : Branch) (before found : Text) : Prop where
  rule : r ∈ singularTable
  fit : r.FitsEnd w b before found
  first : ∀ x u, x.apply? w = some u → r ∈ singularTable.takeWhile (· ≠ x) ++ [x]
  applied : r.apply? w = some (singularize w)
  result : singularize w = before ++ b.replaced r.insert found ++ (splitFinalFeed w).2

theorem SingularBy.endsIn (h : SingularBy w r b before found) :
    EndsIn b.letters (splitFinalFeed w).1 := by
  rw [← singularTable_parts h.rule]
  exact h.fit.endsIn

theorem SingularBy.endsIn_result (h : SingularBy w r b before found) :
    EndsIn (b.outcome r.insert) (before ++ b.replaced r.insert found) :=
  ⟨before, _, rfl, Branch.accepts_replaced h.fit.fits (singularTable_insert r h.rule)⟩

theorem singularize_cases (w : Text) :
    (singularize w = w ∧ (isUncountable w = true ∨ ∀ r ∈ singularTable, r.apply? w = none)) ∨
      ∃ r b before found, SingularBy w r b before found := by
  rcases inflectBy_cases singularTable w with hself | ⟨r, hmem, hr, hfirst⟩
  · exact .inl hself
  · obtain ⟨b, before, found, hfits, hresult⟩ :=
      Rule.apply_cases (singularTable_ne_anywhere hmem) hr
    rw [singularTable_parts hmem] at hresult
    exact .inr ⟨r, b, before, found, hmem, hfits, hfirst, hr, hresult⟩

theorem keptEndings_small : ∀ k ∈ keptEndings,
    (Text.ofString k.2).map CodePoint.caseless = Text.ofString k.2 := by
  decide

variable {k : String × String} {p : Text}

theorem endsIn_kept (hk : k ∈ keptEndings) (hp : EndsIn (word k.1) p)
    (hsplit : p ++ Text.ofString k.2 = (splitFinalFeed t).1) :
    EndsIn (word k.1 ++ word k.2) (splitFinalFeed t).1 := by
  rw [← hsplit]
  exact hp.append (acceptsAll_word.mpr (keptEndings_small k hk))

theorem restore_apply (hk : k ∈ keptEndings) (hp : EndsIn (word k.1) p)
    (hsplit : p ++ Text.ofString k.2 = (splitFinalFeed t).1) :
    Rule.apply? (restore k) t = some t := by
  obtain ⟨q, c, rfl, hc⟩ := hp
  have hfits : (restore k).FitsEnd t ⟨word k.1, word k.2, 0⟩ q (c ++ Text.ofString k.2) := by
    refine ⟨List.mem_singleton.mpr rfl, ?_, ?_, by simp [restore, ending]⟩
    · rw [← List.append_assoc]
      exact hsplit
    · exact acceptsAll_append hc (acceptsAll_word.mpr (keptEndings_small k hk))
  have hkept : (c ++ Text.ofString k.2).take (word k.1).length = c := by
    rw [← length_of_acceptsAll hc, List.take_left]
  rw [hfits.apply_single (by simp [restore, ending]) rfl]
  refine congrArg some ?_
  calc
    _ = q ++ c ++ Text.ofString k.2 ++ (splitFinalFeed t).2 := by
      simp [Branch.replaced, hkept, restore, ending, Place.parts]
    _ = t := by rw [hsplit, splitFinalFeed_append]

theorem Settled.singularize_eq (h : Settled t) : singularize t = t := by
  rcases singularize_cases t with ⟨hself, -⟩ | ⟨r, b, before, found, hby⟩
  · exact hself
  · cases h with
    | uncountable h => exact if_pos h
    | singular hend hoxen =>
      rcases singularTable_asks r hby.rule b hby.fit.branch with
        ⟨ls, hls, hsuffix⟩ | ⟨hwhole, hletters⟩
      · exact absurd (hby.endsIn.of_suffix hsuffix) (hend ls hls)
      · have hsplit := hby.fit.split
        rw [hby.fit.whole hwhole, List.nil_append, singularTable_parts hby.rule] at hsplit
        have hfits : acceptsAll b.letters found = true := hby.fit.fits
        rw [hletters, hsplit, hoxen] at hfits
        cases hfits
    | kept k hk p hp hsplit =>
      have hrestore := restore_apply hk hp hsplit
      rcases List.mem_append.mp (hby.first _ _ hrestore) with hearlier | hlast
      · have hapart := (before_restore k hk).2 r hearlier b hby.fit.branch
        exact absurd (endsIn_kept hk hp hsplit) (hby.endsIn.not_of_apart hapart)
      · obtain rfl := List.mem_singleton.mp hlast
        exact Option.some.inj (hby.applied.symm.trans hrestore)

theorem settled_of_singularize_eq (h : singularize t = t) : Settled t := by
  rcases singularize_cases t with ⟨-, huncountable | hnone⟩ | ⟨r, b, before, found, hby⟩
  · exact .uncountable huncountable
  · refine .singular ?_ ?_
    · intro ls hls hend
      obtain ⟨r, hr, hplace, b, hb, rfl⟩ := singularTable_has ls hls
      obtain ⟨u, hu⟩ := apply_of_endsIn hplace hb hend
      rw [hnone r hr] at hu
      cases hu
    · rw [Bool.eq_false_iff]
      intro hoxen
      have hfits : (⟨.whole, [⟨word "ox", word "en", 0⟩], []⟩ : Rule).FitsEnd t
          ⟨word "ox", word "en", 0⟩ [] (splitFinalFeed t).1 :=
        ⟨List.mem_singleton.mpr rfl, rfl, hoxen, fun _ => rfl⟩
      obtain ⟨u, hu⟩ := hfits.apply (by simp)
      rw [hnone _ (by decide)] at hu
      cases hu
  · -- The first rule that fits has put back what it took.
    have hsame : b.replaced r.insert found = found := by
      have hresult := hby.result.symm.trans h
      have htext := splitFinalFeed_append t
      rw [← singularTable_parts hby.rule, ← hby.fit.split, singularTable_parts hby.rule] at htext
      exact List.append_cancel_left (List.append_cancel_right (hresult.trans htext.symm))
    rcases singularTable_changes r hby.rule with ⟨k, hk, rfl⟩ | hchanges
    · obtain rfl := List.mem_singleton.mp hby.fit.branch
      refine .kept k hk (before ++ found.take (word k.1).length) ?_ ?_
      · exact ⟨before, _, rfl, (Branch.accepts_parts hby.fit.fits).1⟩
      · rw [← singularTable_parts hby.rule, ← hby.fit.split]
        nth_rewrite 2 [← hsame]
        simp [Branch.replaced, restore, ending]
    · exact absurd hsame (Branch.replaced_ne hby.fit.fits (hchanges b hby.fit.branch))

theorem settled_of_not_endsIn (w : Text)
    (h : ∀ ls ∈ pluralEndings ++ [word "oxen", word "\n"], ¬EndsIn ls p) :
    Settled (p ++ (splitFinalFeed w).2) := by
  have hsplit := splitFinalFeed_append_snd (h (word "\n") (by simp)) w
  refine .singular ?_ ?_
  · intro ls hls
    rw [hsplit]
    exact h ls (List.mem_append_left _ hls)
  · rw [hsplit, Bool.eq_false_iff]
    intro hoxen
    exact h (word "oxen") (by simp) ⟨[], p, rfl, hoxen⟩

theorem SingularBy.dropped (h : SingularBy w dropS b before found) :
    ∃ c, c.caseless = .scalar 's' ∧ before ++ [c] = (splitFinalFeed w).1 ∧
      singularize w = before ++ (splitFinalFeed w).2 := by
  have hsplit := h.fit.split
  rw [singularTable_parts h.rule] at hsplit
  obtain rfl := List.mem_singleton.mp h.fit.branch
  have hs : acceptsAll (word "s") found = true := h.fit.fits
  obtain ⟨c, rfl⟩ := List.length_eq_one_iff.mp (length_of_acceptsAll hs)
  refine ⟨c, by simpa [acceptsAll, accepts, word] using hs, hsplit, ?_⟩
  rw [h.result]
  simp [Branch.replaced, dropS, ending, word, Text.ofString]

theorem SingularBy.settled_restore (h : SingularBy w (restore k) b before found)
    (hk : k ∈ keptEndings) : Settled (singularize w) := by
  have hfeed : ∀ k ∈ keptEndings,
      ∀ b ∈ (restore k).branches, apart (b.outcome (restore k).insert) (word "\n") = true := by
    decide
  have hsplit := splitFinalFeed_append_snd
    (h.endsIn_result.not_of_apart (hfeed k hk b h.fit.branch)) w
  obtain rfl := List.mem_singleton.mp h.fit.branch
  refine .kept k hk (before ++ found.take (word k.1).length) ?_ ?_
  · exact ⟨before, _, rfl, (Branch.accepts_parts h.fit.fits).1⟩
  · rw [h.result, hsplit]
    simp [Branch.replaced, restore, ending]

theorem settled_or_relapses (w : Text) : Settled (singularize w) ∨ Relapses w := by
  rcases singularize_cases w with ⟨hself, -⟩ | ⟨r, b, before, found, hby⟩
  · rw [hself]
    exact .inl (settled_of_singularize_eq hself)
  · rcases singularTable_results r hby.rule with rfl | ⟨k, hk, rfl⟩ | hresults
    · obtain ⟨c, hc, hsplit, hresult⟩ := hby.dropped
      by_cases hsettled : Settled (singularize w)
      · exact .inl hsettled
      · rw [hresult] at hsettled
        exact .inr (.extraS before c hc hsplit hsettled)
    · exact .inl (hby.settled_restore hk)
    · rcases hresults b hby.fit.branch with hapart | ⟨s, hs, hsuffix, hhouse⟩
      · left
        rw [hby.result]
        apply settled_of_not_endsIn
        intro ls hls
        exact hby.endsIn_result.not_of_apart (hapart ls hls)
      · refine .inr (.sibilant s hs (hby.endsIn.of_suffix hsuffix) ?_)
        intro h hh hend
        rcases hhouse with hapart | hlater
        · exact hby.endsIn.not_of_apart (hapart h hh) hend
        · -- The rule for houses would have been the first.
          have hbranches : ∀ h ∈ housePlurals, ∃ b ∈ houseRule.branches, b.letters = word h := by
            decide
          obtain ⟨b', hb', hletters⟩ := hbranches h hh
          rw [← hletters] at hend
          obtain ⟨u, hu⟩ := apply_of_endsIn (r := houseRule) rfl hb' hend
          exact hlater (hby.first houseRule u hu)

theorem singularize_extraS {c : CodePoint} {ls : List Letter} (hc : c.caseless = .scalar 's')
    (hsplit : p ++ [c] = (splitFinalFeed w).1)
    (hls : ls ∈ pluralEndings ++ [word "oxen", word "\n"]) (hp : EndsIn ls p) :
    singularize w = p ++ (splitFinalFeed w).2 := by
  have hs : acceptsAll (word "s") [c] = true := acceptsAll_word.mpr (congrArg (fun x => [x]) hc)
  have hend : EndsIn (ls ++ word "s") (splitFinalFeed w).1 := by
    rw [← hsplit]
    exact hp.append hs
  have hparts : splitFinalFeed w = (p ++ [c], (splitFinalFeed w).2) := by rw [hsplit]
  obtain ⟨hrules, hwords⟩ := before_extraS ls hls
  refine inflectBy_of_only (r := dropS) (by decide) (dropS_eq hc hparts)
    (countable_of_endsIn hend hwords) ?_
  intro r hr
  refine (hrules r hr).imp_right fun hapart => ?_
  apply Rule.apply_eq_none (singularTable_ne_anywhere hr) _ hapart
  rw [singularTable_parts hr]
  exact hend

/-- A result that ends in an s is not settled, unless it is uncountable or its s was put back. -/
theorem SingularBy.not_settled (h : SingularBy w r b before found)
    (hsuffix : word "s" <:+ b.outcome r.insert)
    (hkept : ∀ k ∈ keptEndings, apart (b.outcome r.insert) (word k.1 ++ word k.2) = true)
    (hwords : ∀ s ∈ uncountableWords, apart (word s) (b.outcome r.insert) = true) :
    ¬Settled (singularize w) := by
  have hs := h.endsIn_result.of_suffix hsuffix
  have hsplit := splitFinalFeed_append_snd
    (hs.not_of_apart (by decide : apart (word "s") (word "\n") = true)) w
  have hend : EndsIn (b.outcome r.insert) (splitFinalFeed (singularize w)).1 := by
    rw [h.result, hsplit]
    exact h.endsIn_result
  intro hsettled
  cases hsettled with
  | uncountable huncountable =>
    rw [countable_of_endsIn hend hwords] at huncountable
    cases huncountable
  | singular hnone _ => exact hnone (word "s") (by decide) (hend.of_suffix hsuffix)
  | kept k hk p hp hsplit' => exact hend.not_of_apart (hkept k hk) (endsIn_kept hk hp hsplit')

theorem Relapses.not_settled (h : Relapses w) : ¬Settled (singularize w) := by
  cases h with
  | extraS p c hc hsplit hrest =>
    obtain ⟨ls, hls, hend⟩ : ∃ ls ∈ pluralEndings ++ [word "oxen", word "\n"], EndsIn ls p := by
      by_contra hnone
      exact hrest (settled_of_not_endsIn w fun ls hls hend => hnone ⟨ls, hls, hend⟩)
    rwa [singularize_extraS hc hsplit hls hend]
  | sibilant s hs hend hhouse =>
    obtain ⟨x, hx, hplace, ⟨bx, hbx, hletters⟩, hwords, hup⟩ := up_to_sibilant s hs
    obtain ⟨u, hu⟩ := apply_of_endsIn hplace hbx (hletters ▸ hend)
    rcases singularize_cases w with ⟨-, huncountable | hnone⟩ | ⟨r, b, before, found, hby⟩
    · rw [countable_of_endsIn hend hwords] at huncountable
      cases huncountable
    · rw [hnone x hx] at hu
      cases hu
    · rcases hup r (hby.first x u hu) b hby.fit.branch with
        hapart | ⟨h, hh, hhouses⟩ | ⟨hsuffix, hkept, hother⟩
      · exact absurd hend (hby.endsIn.not_of_apart hapart)
      · exact absurd (hhouses ▸ hby.endsIn) (hhouse h hh)
      · exact hby.not_settled hsuffix hkept hother

end Inflection

open Inflection

/-- Singularizing twice is singularizing once, unless the word relapses: its ending is one of a
sibilant, which leaves an s, or an s after a word that is changed itself. -/
theorem singularize_twice_iff (w : Text) :
    singularize (singularize w) = singularize w ↔ ¬Relapses w := by
  constructor
  · intro hself hrelapses
    exact hrelapses.not_settled (settled_of_singularize_eq hself)
  · intro hnot
    exact ((settled_or_relapses w).resolve_right hnot).singularize_eq

/-- A bus among several loses its s, and so does a class. -/
theorem buses_lose_their_s :
    singularize (Text.ofString "buses") = Text.ofString "bus" ∧
    singularize (singularize (Text.ofString "buses")) = Text.ofString "bu" ∧
    singularize (singularize (Text.ofString "classes")) = Text.ofString "clas" ∧
    singularize (singularize (Text.ofString "buses")) ≠ singularize (Text.ofString "buses") := by
  decide +kernel

end UmlSchema
