import UmlSchema.Proofs.IrregularWords
import Mathlib.Data.List.Forall2

/-!
# Endings of words

A rule looks at the end of a word. Two patterns cannot both end a word if at some place, counted
from the end, no letter is accepted by both. Whether this is so can be decided for whole tables, and
tells which rule is the first to fit a word with a given ending.
-/
namespace UmlSchema.Inflection

namespace Letter

def apart : Letter → Letter → Bool
  | oneOf ls, oneOf ms => ls.all fun l => l ∉ ms
  | oneOf ls, noneOf ms => ls.all fun l => l ∈ ms
  | noneOf ls, oneOf ms => ms.all fun m => m ∈ ls
  | noneOf _, noneOf _ => false

theorem not_apart {l m : Letter} {c : CodePoint} (hl : l.accepts c = true)
    (hm : m.accepts c = true) : l.apart m = false := by
  rw [Bool.eq_false_iff]
  intro hapart
  cases l with
  | oneOf ls =>
    obtain ⟨x, hx, hcx⟩ := List.any_eq_true.mp hl
    have hcx : c.caseless = .scalar x := of_decide_eq_true hcx
    cases m with
    | oneOf ms =>
      obtain ⟨y, hy, hcy⟩ := List.any_eq_true.mp hm
      have hcy : c.caseless = .scalar y := of_decide_eq_true hcy
      obtain rfl : x = y := CodePoint.scalar.inj (hcx.symm.trans hcy)
      exact of_decide_eq_true (List.all_eq_true.mp hapart x hx) hy
    | noneOf ms =>
      have hmem : x ∈ ms := of_decide_eq_true (List.all_eq_true.mp hapart x hx)
      simp only [accepts, Bool.not_eq_true', List.any_eq_false, decide_eq_true_eq] at hm
      exact hm x hmem hcx
  | noneOf ls =>
    cases m with
    | oneOf ms =>
      obtain ⟨y, hy, hcy⟩ := List.any_eq_true.mp hm
      have hmem : y ∈ ls := of_decide_eq_true (List.all_eq_true.mp hapart y hy)
      simp only [accepts, Bool.not_eq_true', List.any_eq_false, decide_eq_true_eq] at hl
      exact hl y hmem (of_decide_eq_true hcy)
    | noneOf ms => exact Bool.false_ne_true hapart

end Letter

theorem acceptsAll_iff {ls : List Letter} {t : Text} :
    acceptsAll ls t = true ↔ List.Forall₂ (fun l c => l.accepts c = true) ls t := by
  induction ls generalizing t with
  | nil => cases t <;> simp [acceptsAll]
  | cons l ls ih => cases t <;> simp [acceptsAll, ih]

theorem acceptsAll_append {ls ms : List Letter} {t u : Text} (h : acceptsAll ls t = true)
    (h' : acceptsAll ms u = true) : acceptsAll (ls ++ ms) (t ++ u) = true :=
  acceptsAll_iff.mpr (List.rel_append (acceptsAll_iff.mp h) (acceptsAll_iff.mp h'))

/-- A text ends in letters that a pattern accepts. -/
def EndsIn (ls : List Letter) (t : Text) : Prop :=
  ∃ before found, before ++ found = t ∧ acceptsAll ls found = true

theorem endsIn_iff {ls : List Letter} {t : Text} :
    EndsIn ls t ↔ acceptsAll ls (t.drop (t.length - ls.length)) = true := by
  constructor
  · rintro ⟨before, found, rfl, hfound⟩
    have hlength := length_of_acceptsAll hfound
    have hcut : (before ++ found).length - ls.length = before.length := by
      rw [List.length_append]
      omega
    rwa [hcut, List.drop_left]
  · intro h
    exact ⟨_, _, List.take_append_drop _ t, h⟩

instance (ls : List Letter) (t : Text) : Decidable (EndsIn ls t) :=
  decidable_of_iff _ endsIn_iff.symm

def Contains (ls : List Letter) (t : Text) : Prop :=
  ∃ before found after, before ++ (found ++ after) = t ∧ acceptsAll ls found = true

theorem contains_iff {ls : List Letter} {t : Text} :
    Contains ls t ↔ ∃ u ∈ t.tails, acceptsAll ls (u.take ls.length) = true := by
  simp only [List.mem_tails]
  constructor
  · rintro ⟨before, found, after, rfl, hfound⟩
    refine ⟨found ++ after, List.suffix_append _ _, ?_⟩
    rwa [← length_of_acceptsAll hfound, List.take_left]
  · rintro ⟨u, ⟨before, rfl⟩, hfound⟩
    exact ⟨before, _, _, congrArg (before ++ ·) (List.take_append_drop ls.length u), hfound⟩

instance (ls : List Letter) (t : Text) : Decidable (Contains ls t) :=
  decidable_of_iff _ contains_iff.symm

/-- At some place, counted from the end, no letter is accepted by both patterns. -/
def apart (ls ms : List Letter) : Bool := (ls.reverse.zip ms.reverse).any fun x => x.1.apart x.2

theorem zip_not_apart {ls ms : List Letter} {a b t : Text} (ha : a <+: t) (hb : b <+: t)
    (hls : List.Forall₂ (fun l c => l.accepts c = true) ls a)
    (hms : List.Forall₂ (fun l c => l.accepts c = true) ms b) :
    ((ls.zip ms).any fun x => x.1.apart x.2) = false := by
  induction hls generalizing ms b t with
  | nil => rfl
  | @cons l c ls a hl _ ih =>
    cases hms with
    | nil => simp
    | @cons m d ms b hm hms =>
      obtain ⟨rest, rfl⟩ := ha
      rw [List.cons_append, List.cons_prefix_cons] at hb
      obtain ⟨rfl, hb⟩ := hb
      rw [List.zip_cons_cons, List.any_cons, Letter.not_apart hl hm, Bool.false_or]
      exact ih (List.prefix_append a rest) hb hms

variable {ls ms : List Letter} {t u : Text}

theorem EndsIn.not_of_apart (h : EndsIn ls t) (hapart : apart ls ms = true) : ¬EndsIn ms t := by
  rintro ⟨before', found', rfl, hfound'⟩
  obtain ⟨before, found, htext, hfound⟩ := h
  have hprefix : found.reverse <+: (before' ++ found').reverse := by
    rw [← htext, List.reverse_append]
    exact List.prefix_append _ _
  have hprefix' : found'.reverse <+: (before' ++ found').reverse := by
    rw [List.reverse_append]
    exact List.prefix_append _ _
  have hzip := zip_not_apart hprefix hprefix'
    (List.forall₂_reverse_iff.mpr (acceptsAll_iff.mp hfound))
    (List.forall₂_reverse_iff.mpr (acceptsAll_iff.mp hfound'))
  rw [apart, hzip] at hapart
  cases hapart

theorem EndsIn.of_suffix (h : EndsIn ls t) (hsuffix : ms <:+ ls) : EndsIn ms t := by
  obtain ⟨start, rfl⟩ := hsuffix
  obtain ⟨before, found, rfl, hfound⟩ := h
  have hdrop := List.forall₂_drop_append _ _ _ (acceptsAll_iff.mp hfound).flip
  refine ⟨before ++ found.take start.length, found.drop start.length, ?_, ?_⟩
  · rw [List.append_assoc, List.take_append_drop]
  · exact acceptsAll_iff.mpr hdrop.flip

theorem EndsIn.append (h : EndsIn ls t) (hu : acceptsAll ms u = true) :
    EndsIn (ls ++ ms) (t ++ u) := by
  obtain ⟨before, found, rfl, hfound⟩ := h
  exact ⟨before, found ++ u, (List.append_assoc _ _ _).symm, acceptsAll_append hfound hu⟩

theorem splitFinalFeed_of_not_endsIn (h : ¬EndsIn (Letter.word "\n") t) :
    splitFinalFeed t = (t, []) := by
  unfold splitFinalFeed
  split
  · rename_i hlast
    exact absurd ⟨_, _, List.dropLast_append_getLast? _ hlast, by decide⟩ h
  · rfl

theorem parts_of_endsIn (h : EndsIn ls t) (hfeed : apart ls (Letter.word "\n") = true)
    (place : Place) : place.parts t = (t, []) := by
  cases place with
  | whole | ending => exact splitFinalFeed_of_not_endsIn (h.not_of_apart hfeed)
  | last | anywhere => rfl

theorem splitFinalFeed_snd (t : Text) :
    (splitFinalFeed t).2 = [] ∨ (splitFinalFeed t).2 = [.scalar '\n'] := by
  unfold splitFinalFeed
  split
  · exact .inr rfl
  · exact .inl rfl

theorem splitFinalFeed_append_snd (h : ¬EndsIn (Letter.word "\n") t) (w : Text) :
    splitFinalFeed (t ++ (splitFinalFeed w).2) = (t, (splitFinalFeed w).2) := by
  rcases splitFinalFeed_snd w with hfeed | hfeed
  · rw [hfeed, List.append_nil]
    exact splitFinalFeed_of_not_endsIn h
  · rw [hfeed]
    simp [splitFinalFeed]

theorem endsIn_of_uncountable (h : isUncountable t = true) :
    ∃ s ∈ uncountableWords, EndsIn (Letter.word s) (splitFinalFeed t).1 := by
  obtain ⟨s, hs, hcaseless⟩ := exists_of_uncountable h
  have hend : EndsIn (Letter.word s) t := ⟨[], t, rfl, acceptsAll_word.mpr hcaseless⟩
  have hfeed : ∀ s ∈ uncountableWords, apart (Letter.word s) (Letter.word "\n") = true := by decide
  refine ⟨s, hs, ?_⟩
  rwa [splitFinalFeed_of_not_endsIn (hend.not_of_apart (hfeed s hs))]

theorem countable_of_endsIn (hend : EndsIn ls (splitFinalFeed t).1)
    (hapart : ∀ s ∈ uncountableWords, apart (Letter.word s) ls = true) :
    isUncountable t = false := by
  rw [Bool.eq_false_iff]
  intro huncountable
  obtain ⟨s, hs, hword⟩ := endsIn_of_uncountable huncountable
  exact hword.not_of_apart (hapart s hs) hend

def Branch.letters (b : Branch) : List Letter := b.kept ++ b.dropped

variable {r : Rule} {b : Branch} {before found : Text}

theorem Branch.accepts_parts (h : b.fits found = true) :
    acceptsAll b.kept (found.take b.kept.length) = true ∧
      acceptsAll b.dropped (found.drop b.kept.length) = true := by
  have hparts := acceptsAll_iff.mp h
  have hkept := List.forall₂_take b.kept.length hparts
  have hdropped := List.forall₂_drop b.kept.length hparts
  rw [List.take_left] at hkept
  rw [List.drop_left] at hdropped
  exact ⟨acceptsAll_iff.mpr hkept, acceptsAll_iff.mpr hdropped⟩

theorem Rule.FitsEnd.endsIn (h : r.FitsEnd t b before found) :
    EndsIn b.letters (r.place.parts t).1 := ⟨before, found, h.split, h.fits⟩

theorem apply_of_endsIn (hplace : r.place = .ending) (hb : b ∈ r.branches)
    (hend : EndsIn b.letters (splitFinalFeed t).1) : ∃ u, r.apply? t = some u := by
  obtain ⟨before, found, hsplit, hfound⟩ := hend
  have hfits : r.FitsEnd t b before found :=
    ⟨hb, by rw [hplace]; exact hsplit, hfound, by simp [hplace]⟩
  exact hfits.apply (by simp [hplace])

theorem Rule.apply_eq_none (hplace : r.place ≠ .anywhere) (hend : EndsIn ms (r.place.parts t).1)
    (hapart : ∀ b ∈ r.branches, apart b.letters ms = true) : r.apply? t = none := by
  rw [Option.eq_none_iff_forall_ne_some]
  intro u hu
  obtain ⟨b, before, found, hfits, -⟩ := Rule.apply_cases hplace hu
  exact hfits.endsIn.not_of_apart (hapart b hfits.branch) hend

theorem Rule.FitsEnd.apply_single (h : r.FitsEnd t b before found) (hplace : r.place ≠ .anywhere)
    (hsingle : r.branches = [b]) :
    r.apply? t = some (before ++ b.replaced r.insert found ++ (r.place.parts t).2) := by
  obtain ⟨u, hu⟩ := h.apply hplace
  obtain ⟨b', before', found', hfits, rfl⟩ := Rule.apply_cases hplace hu
  obtain rfl : b' = b := by simpa [hsingle] using hfits.branch
  have hlength : before.length = before'.length := by
    have hsplit := congrArg List.length (h.split.trans hfits.split.symm)
    have hfound := length_of_acceptsAll h.fits
    have hfound' := length_of_acceptsAll hfits.fits
    simp only [List.length_append] at hsplit
    omega
  obtain ⟨rfl, rfl⟩ := List.append_inj (h.split.trans hfits.split.symm) hlength
  exact hu

/-- The first rule that fits stands no later in the table than any other rule that fits. -/
theorem first_up_to {rules earlier later : List Rule} {x : Rule}
    (hrules : rules = earlier ++ r :: later) (hearlier : ∀ y ∈ earlier, y.apply? t = none)
    (hx : x.apply? t = some u) : r ∈ rules.takeWhile (· ≠ x) ++ [x] := by
  by_cases hr : r = x
  · simp [hr]
  · have hothers : ∀ y ∈ earlier, decide (y ≠ x) = true := by
      intro y hy
      rw [decide_eq_true_eq]
      rintro rfl
      rw [hearlier y hy] at hx
      cases hx
    rw [hrules, List.takeWhile_append_of_pos hothers,
      List.takeWhile_cons_of_pos (by simpa using hr)]
    simp

theorem inflectBy_cases (rules : List Rule) (word : Text) :
    (inflectBy rules word = word ∧
      (isUncountable word = true ∨ ∀ r ∈ rules, r.apply? word = none)) ∨
    ∃ r ∈ rules, r.apply? word = some (inflectBy rules word) ∧
      ∀ x u, x.apply? word = some u → r ∈ rules.takeWhile (· ≠ x) ++ [x] := by
  unfold inflectBy
  cases huncountable : isUncountable word with
  | true => exact .inl ⟨rfl, .inl rfl⟩
  | false =>
    rw [if_neg Bool.false_ne_true]
    cases hfound : rules.findSome? fun r => r.apply? word with
    | none => exact .inl ⟨rfl, .inr (List.findSome?_eq_none_iff.mp hfound)⟩
    | some v =>
      obtain ⟨earlier, r, later, hrules, hr, hearlier⟩ := List.findSome?_eq_some_iff.mp hfound
      have hmem : r ∈ rules := by
        rw [hrules]
        exact List.mem_append_cons_self
      exact .inr ⟨r, hmem, hr, fun x u hx => first_up_to hrules hearlier hx⟩

theorem inflectBy_of_only {rules : List Rule} (hr : r ∈ rules) (hu : r.apply? t = some u)
    (hcountable : isUncountable t = false)
    (hothers : ∀ x ∈ rules, x = r ∨ x.apply? t = none) : inflectBy rules t = u := by
  rcases inflectBy_cases rules t with ⟨-, huncountable | hnone⟩ | ⟨x, hmem, hx, -⟩
  · rw [hcountable] at huncountable
    cases huncountable
  · rw [hnone r hr] at hu
    cases hu
  · rcases hothers x hmem with rfl | hnone
    · exact Option.some.inj (hx.symm.trans hu)
    · rw [hnone] at hx
      cases hx

/-- The first place where a branch fits. -/
structure FirstFit (branches : List Branch) (t : Text) (b : Branch) (before found after : Text) :
    Prop where
  branch : b ∈ branches
  split : before ++ (found ++ after) = t
  fits : b.fits found = true
  first : ∀ b' ∈ branches, ∀ before' found' after', before' ++ (found' ++ after') = t →
    b'.fits found' = true → before.length ≤ before'.length

theorem take_of_fits {after : Text} (h : b.fits found = true) :
    (found ++ after).take b.size = found := by
  have hlength : found.length = b.size := by
    rw [length_of_acceptsAll h, List.length_append]
    rfl
  rw [← hlength, List.take_left]

theorem applyAnywhere_cases {branches : List Branch} {insert : Text}
    (hu : applyAnywhere? branches insert t = some u) :
    ∃ b before found after, FirstFit branches t b before found after ∧
      u = before ++ (b.replaced insert found ++ after) := by
  induction t generalizing u with
  | nil => simp [applyAnywhere?] at hu
  | cons c cs ih =>
    rw [applyAnywhere?] at hu
    split at hu
    · rename_i b hb
      cases hu
      have hfits := List.find?_some hb
      refine ⟨b, [], _, _, ⟨List.mem_of_find?_eq_some hb, List.take_append_drop b.size _, hfits,
        ?_⟩, rfl⟩
      intro _ _ _ _ _ _ _
      exact Nat.zero_le _
    · rename_i hnone
      obtain ⟨v, hv, rfl⟩ := Option.map_eq_some_iff.mp hu
      obtain ⟨b, before, found, after, hfirst, rfl⟩ := ih hv
      refine ⟨b, c :: before, found, after, ⟨hfirst.branch, ?_, hfirst.fits, ?_⟩, rfl⟩
      · rw [List.cons_append, hfirst.split]
      · intro b' hb' before' found' after' hsplit hfits
        cases before' with
        | nil =>
          -- Nothing fits at the first letter.
          have hno := List.find?_eq_none.mp hnone b' hb'
          rw [← hsplit, List.nil_append, take_of_fits hfits] at hno
          exact absurd hfits hno
        | cons d before' =>
          rw [List.cons_append, List.cons.injEq] at hsplit
          have hle := hfirst.first b' hb' before' found' after' hsplit.2 hfits
          simp only [List.length_cons]
          omega

theorem applyAnywhere_of_fits {branches : List Branch} {insert after : Text} (hb : b ∈ branches)
    (hfits : b.fits found = true) (hfound : found ≠ []) :
    ∃ u, applyAnywhere? branches insert (before ++ (found ++ after)) = some u := by
  have hhere : ∀ c cs, c :: cs = found ++ after →
      ∃ u, applyAnywhere? branches insert (c :: cs) = some u := by
    intro c cs htext
    rw [applyAnywhere?]
    split
    · exact ⟨_, rfl⟩
    · rename_i hnone
      have hno := List.find?_eq_none.mp hnone b hb
      rw [htext, take_of_fits hfits] at hno
      exact absurd hfits hno
  induction before with
  | nil =>
    cases found with
    | nil => exact absurd rfl hfound
    | cons c cs => exact hhere c _ rfl
  | cons c before ih =>
    obtain ⟨u, hu⟩ := ih
    rw [List.cons_append, applyAnywhere?]
    split
    · exact ⟨_, rfl⟩
    · exact ⟨c :: u, by rw [hu]; rfl⟩

theorem endsIn_of_irregular {pair : String × String}
    (h : Rule.apply? (irregular pair) t = some u) :
    EndsIn (Letter.word pair.1) (splitFinalFeed t).1 := by
  have hplace : (irregular pair).place ≠ .anywhere := by simp [irregular, ending]
  obtain ⟨b, before, found, hfits, -⟩ := Rule.apply_cases hplace h
  obtain rfl := List.mem_singleton.mp hfits.branch
  exact hfits.endsIn

theorem contains_of_anywhere {r : Rule} (hplace : r.place = .anywhere)
    (h : r.apply? t = some u) : ∃ b ∈ r.branches, Contains b.letters t := by
  unfold Rule.apply? at h
  simp only [hplace] at h
  obtain ⟨b, before, found, after, hfirst, -⟩ := applyAnywhere_cases h
  exact ⟨b, hfirst.branch, before, found, after, hfirst.split, hfirst.fits⟩

def pluralTable : List Rule := irregularPlurals ++ pluralRules

def singularTable : List Rule := irregularSingulars ++ singularRules

/-- The stems of words in -ix that are changed wherever they stand. -/
def ixStems : List String := ["matr", "vert", "ind"]

def ixRule : Rule := ⟨.anywhere, stemmed ixStems "ix", Text.ofString "ices"⟩

def dropS : Rule := ending [""] "s" ""

theorem dropS_eq {p : Text} {c : CodePoint} (hc : c.caseless = .scalar 's')
    (hparts : splitFinalFeed t = (p ++ [c], u)) : dropS.apply? t = some (p ++ u) := by
  have hfits : dropS.FitsEnd t ⟨[], Letter.word "s", 0⟩ p [c] := by
    refine ⟨List.mem_singleton.mpr rfl, (congrArg Prod.fst hparts).symm, ?_,
      by simp [dropS, ending]⟩
    exact acceptsAll_word.mpr (congrArg (fun x => [x]) hc)
  rw [hfits.apply_single (by decide) rfl]
  have hfeed : (dropS.place.parts t).2 = u := congrArg Prod.snd hparts
  rw [hfeed]
  simp [Branch.replaced, dropS, ending, Text.ofString]

end UmlSchema.Inflection
