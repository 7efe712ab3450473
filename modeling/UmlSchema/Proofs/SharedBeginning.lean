import UmlSchema.Proofs.WordEndings

/-!
# What inflection keeps of a word

All rules but one look at the end of a word and take at most a few letters from there. The one for
words in -ix fits anywhere, so that a name with such a word in front is changed at its beginning.
-/
namespace UmlSchema

/-- Two texts share a beginning that leaves out at most `n` letters of the first. -/
def KeepsAllBut (n : Nat) (w u : Text) : Prop :=
  ∃ p, p <+: w ∧ p <+: u ∧ w.length ≤ p.length + n

variable {n : Nat} {w u common : Text}

theorem keepsAllBut_self (w : Text) : KeepsAllBut n w w :=
  ⟨w, List.prefix_rfl, List.prefix_rfl, Nat.le_add_right _ _⟩

theorem keepsAllBut_of_differ {a c : CodePoint} {x y : Text} (hw : common ++ a :: x = w)
    (hu : common ++ c :: y = u) (hne : a ≠ c) :
    KeepsAllBut n w u ↔ w.length ≤ common.length + n := by
  subst hw hu
  constructor
  · rintro ⟨p, hp, hp', hlength⟩
    have hshort : p.length ≤ common.length := by
      by_contra hlong
      have hat : common.length < p.length := by omega
      have ha := List.IsPrefix.getElem hp hat
      have hc := List.IsPrefix.getElem hp' hat
      rw [List.getElem_append_right (Nat.le_refl _)] at ha hc
      simp only [Nat.sub_self, List.getElem_cons_zero] at ha hc
      exact hne (ha.symm.trans hc)
    omega
  · intro hlength
    exact ⟨common, List.prefix_append _ _, List.prefix_append _ _, hlength⟩

namespace Inflection

open Letter

/-- The endings for which there is a rule before the one for words in -ix. -/
def precedingEndings : List (List Letter) :=
  irregularWords.map (fun pair => word pair.1) ++
    [word "quiz", oneOf ['m', '|', 'l'] :: word "ouse"]

theorem pluralTable_dropped : ∀ r ∈ pluralTable,
    r = ixRule ∨ (r.place ≠ .anywhere ∧ ∀ b ∈ r.branches, b.dropped.length ≤ 9) := by
  decide

theorem singularTable_dropped : ∀ r ∈ singularTable,
    r.place ≠ .anywhere ∧ ∀ b ∈ r.branches, b.dropped.length ≤ 9 := by
  decide

theorem pluralTable_preceding : ∀ ls ∈ precedingEndings, ∃ r ∈ pluralTable, r.place = .ending ∧
    (∃ b ∈ r.branches, b.letters = ls) ∧ ixRule ∉ pluralTable.takeWhile (· ≠ r) ++ [r] := by
  decide

theorem before_ixRule : ∀ r ∈ pluralTable.takeWhile (· ≠ ixRule),
    (r.place = .ending ∧ ∀ b ∈ r.branches, b.letters ∈ precedingEndings) ∨
      r.place = .whole ∧ ∀ b ∈ r.branches, b.size = 2 := by
  decide

theorem ix_branches_apart : ∀ b ∈ ixRule.branches, ∀ b' ∈ ixRule.branches,
    b = b' ∨ ((b.letters.zip b'.letters).any fun x => x.1.apart x.2) = true := by
  decide

variable {r : Rule} {b : Branch} {t before found after : Text}

theorem length_parts_snd (place : Place) (t : Text) : (place.parts t).2.length ≤ 1 := by
  cases place with
  | whole | ending =>
    rcases splitFinalFeed_snd t with h | h <;> simp [Place.parts, h]
  | last | anywhere => simp [Place.parts]

theorem Rule.keepsAllBut (hplace : r.place ≠ .anywhere)
    (hdropped : ∀ b ∈ r.branches, b.dropped.length ≤ n) (hu : r.apply? w = some u) :
    KeepsAllBut (n + 1) w u := by
  obtain ⟨b, before, found, hfits, rfl⟩ := Rule.apply_cases hplace hu
  have hw : before ++ found ++ (r.place.parts w).2 = w := by
    rw [hfits.split, Place.parts_append]
  refine ⟨before ++ found.take b.kept.length, ?_, ?_, ?_⟩
  · rw [← hw, List.append_assoc]
    exact (List.prefix_append_right_inj _).mpr
      ((List.take_prefix _ _).trans (List.prefix_append _ _))
  · unfold Branch.replaced
    simp only [List.append_assoc]
    exact (List.prefix_append_right_inj _).mpr (List.prefix_append _ _)
  · have hfound := length_of_acceptsAll hfits.fits
    have hfeed := length_parts_snd r.place w
    have hle := hdropped b hfits.branch
    have hlength := congrArg List.length hw
    simp only [List.length_append, List.length_take] at hfound hlength ⊢
    omega

theorem exists_ix (hb : b ∈ ixRule.branches) (hfits : b.fits found = true) :
    ∃ stem i x, found = stem ++ [i, x] ∧ x.caseless = .scalar 'x' ∧
      b.replaced ixRule.insert found = stem ++ Text.ofString "ices" := by
  obtain ⟨s, -, rfl⟩ := List.mem_map.mp hb
  have hix := (Branch.accepts_parts hfits).2
  obtain ⟨i, x, hdrop⟩ := List.length_eq_two.mp (length_of_acceptsAll hix)
  refine ⟨found.take (word s).length, i, x, ?_, ?_, ?_⟩
  · rw [← hdrop]
    exact (List.take_append_drop _ _).symm
  · rw [hdrop] at hix
    have hletters : [i.caseless, x.caseless] = [.scalar 'i', .scalar 'x'] := acceptsAll_word.mp hix
    simp only [List.cons.injEq] at hletters
    exact hletters.2.1
  · simp [Branch.replaced, ixRule]

theorem ix_spelling : ∀ b ∈ ixRule.branches, 5 ≤ b.size ∧
    ∃ e ∈ ["matrix", "vertix", "indix"], b.letters = word e ∧
      ∀ s ∈ uncountableWords, ¬Text.ofString e <:+: Text.ofString s := by
  decide

theorem FirstFit.unique {b' : Branch} {before' found' after' : Text}
    (h : FirstFit ixRule.branches w b before found after)
    (h' : FirstFit ixRule.branches w b' before' found' after') :
    b = b' ∧ before = before' ∧ found = found' ∧ after = after' := by
  have hlength : before.length = before'.length :=
    Nat.le_antisymm (h.first b' h'.branch _ _ _ h'.split h'.fits)
      (h'.first b h.branch _ _ _ h.split h.fits)
  obtain ⟨rfl, hrest⟩ := List.append_inj (h.split.trans h'.split.symm) hlength
  have hprefix : found' <+: found ++ after := by
    rw [hrest]
    exact List.prefix_append _ _
  obtain rfl : b = b' := by
    have hzip := zip_not_apart (List.prefix_append found after) hprefix
      (acceptsAll_iff.mp h.fits) (acceptsAll_iff.mp h'.fits)
    exact (ix_branches_apart b h.branch b' h'.branch).resolve_right (Bool.eq_false_iff.mp hzip)
  have hfound : found.length = found'.length := by
    rw [length_of_acceptsAll h.fits, length_of_acceptsAll h'.fits]
  obtain ⟨rfl, rfl⟩ := List.append_inj hrest hfound
  exact ⟨rfl, rfl, rfl, rfl⟩

theorem FirstFit.length_found (h : FirstFit ixRule.branches w b before found after) :
    5 ≤ found.length := by
  rw [length_of_acceptsAll h.fits, List.length_append]
  exact (ix_spelling b h.branch).1

theorem FirstFit.countable (h : FirstFit ixRule.branches w b before found after) :
    isUncountable w = false := by
  rw [Bool.eq_false_iff]
  intro huncountable
  obtain ⟨s, hs, hcaseless⟩ := exists_of_uncountable huncountable
  obtain ⟨-, e, -, hletters, hnot⟩ := ix_spelling b h.branch
  have hfits : acceptsAll b.letters found = true := h.fits
  rw [hletters, acceptsAll_word] at hfits
  apply hnot s hs
  rw [← hcaseless, ← hfits, ← h.split]
  exact (List.infix_append' before found after).map _

/-- A rule before the one for words in -ix fits only the endings that precede it. The rule for a
whole word of two letters does not fit, since the word is longer. -/
theorem FirstFit.not_before (h : FirstFit ixRule.branches w b before found after)
    (hends : ∀ ls ∈ precedingEndings, ¬EndsIn ls (splitFinalFeed w).1)
    (hr : r ∈ pluralTable.takeWhile (· ≠ ixRule)) : r.apply? w = none := by
  rw [Option.eq_none_iff_forall_ne_some]
  intro u hu
  rcases before_ixRule r hr with ⟨hplace, hbranches⟩ | ⟨hplace, hbranches⟩
  · obtain ⟨b', before', found', hfits, -⟩ := Rule.apply_cases (by simp [hplace]) hu
    have hend := hfits.endsIn
    rw [hplace] at hend
    exact hends _ (hbranches b' hfits.branch) hend
  · obtain ⟨b', before', found', hfits, -⟩ := Rule.apply_cases (by simp [hplace]) hu
    have hsize := hbranches b' hfits.branch
    have hfound := h.length_found
    have hfound' := length_of_acceptsAll hfits.fits
    have hfeed := length_parts_snd r.place w
    have hw := congrArg List.length (r.place.parts_append w)
    rw [← hfits.split, hfits.whole hplace] at hw
    have hsplit := congrArg List.length h.split
    unfold Branch.size at hsize
    simp only [List.length_append, List.length_nil] at hfound' hw hsplit
    omega

theorem FirstFit.pluralize_eq (h : FirstFit ixRule.branches w b before found after)
    (hends : ∀ ls ∈ precedingEndings, ¬EndsIn ls (splitFinalFeed w).1) :
    pluralize w = before ++ (b.replaced ixRule.insert found ++ after) := by
  have hfound := h.length_found
  obtain ⟨v, hv⟩ : ∃ v, Rule.apply? ixRule w = some v := by
    rw [← h.split]
    exact applyAnywhere_of_fits h.branch h.fits (List.ne_nil_of_length_pos (by omega))
  rcases inflectBy_cases pluralTable w with ⟨-, huncountable | hnone⟩ | ⟨r, -, hr, hfirst⟩
  · rw [h.countable] at huncountable
    cases huncountable
  · rw [hnone ixRule (by decide)] at hv
    cases hv
  · rcases List.mem_append.mp (hfirst ixRule v hv) with hbefore | hlast
    · rw [h.not_before hends hbefore] at hr
      cases hr
    · obtain rfl := List.mem_singleton.mp hlast
      obtain ⟨b', before', found', after', hfirst, hresult⟩ := applyAnywhere_cases hr
      obtain ⟨rfl, rfl, rfl, rfl⟩ := h.unique hfirst
      exact hresult

theorem pluralize_keeps_or_ix (w : Text) : KeepsAllBut 10 w (pluralize w) ∨
    ∃ b before found after, FirstFit ixRule.branches w b before found after ∧
      ∀ ls ∈ precedingEndings, ¬EndsIn ls (splitFinalFeed w).1 := by
  rcases inflectBy_cases pluralTable w with ⟨hself, -⟩ | ⟨r, hmem, hr, hup⟩
  · left
    rw [show pluralize w = w from hself]
    exact keepsAllBut_self w
  · rcases pluralTable_dropped r hmem with rfl | ⟨hplace, hdropped⟩
    · right
      obtain ⟨b, before, found, after, hfirst, -⟩ := applyAnywhere_cases hr
      refine ⟨b, before, found, after, hfirst, ?_⟩
      intro ls hls hend
      obtain ⟨x, -, hplace, ⟨b', hb', rfl⟩, hlater⟩ := pluralTable_preceding ls hls
      obtain ⟨v, hv⟩ := apply_of_endsIn hplace hb' hend
      exact hlater (hup x v hv)
    · exact .inl (Rule.keepsAllBut hplace hdropped hr)

theorem keepsAllBut_ix {stem : Text} {i x : CodePoint} (hx : x.caseless = .scalar 'x') :
    KeepsAllBut 10 (before ++ (stem ++ [i, x] ++ after))
        (before ++ (stem ++ Text.ofString "ices" ++ after)) ↔
      after.length ≤ 8 ∨ after.length = 9 ∧ i = .scalar 'i' := by
  have hxc : x ≠ .scalar 'c' := by
    rintro rfl
    revert hx
    decide
  have hices : Text.ofString "ices" = .scalar 'i' :: .scalar 'c' :: Text.ofString "es" := rfl
  by_cases hi : i = .scalar 'i'
  · subst hi
    have hw : before ++ stem ++ [.scalar 'i'] ++ x :: after =
        before ++ (stem ++ [.scalar 'i', x] ++ after) := by simp
    have hu : before ++ stem ++ [.scalar 'i'] ++ .scalar 'c' :: (Text.ofString "es" ++ after) =
        before ++ (stem ++ Text.ofString "ices" ++ after) := by simp [hices]
    rw [keepsAllBut_of_differ hw hu hxc]
    simp only [List.length_append, List.length_cons, List.length_nil, and_true]
    omega
  · have hw : before ++ stem ++ i :: x :: after = before ++ (stem ++ [i, x] ++ after) := by simp
    have hu : before ++ stem ++ .scalar 'i' :: .scalar 'c' :: (Text.ofString "es" ++ after) =
        before ++ (stem ++ Text.ofString "ices" ++ after) := by simp [hices]
    rw [keepsAllBut_of_differ hw hu hi]
    simp only [List.length_append, List.length_cons, List.length_nil, hi, and_false, or_false]
    omega

end Inflection

open Inflection

/-- Singulars keep all but the last ten letters of a word. So do plurals, unless a word in -ix
stands further from the end and no ending has a rule before it. -/
theorem inflection_keeps_beginning (w : Text) :
    KeepsAllBut 10 w (singularize w) ∧
    (KeepsAllBut 10 w (pluralize w) ↔
      ∀ b before stem i x after, FirstFit ixRule.branches w b before (stem ++ [i, x]) after →
        (∃ ls ∈ precedingEndings, EndsIn ls (splitFinalFeed w).1) ∨ after.length ≤ 8 ∨
          after.length = 9 ∧ i = .scalar 'i') := by
  refine ⟨?_, ?_, ?_⟩
  · rcases inflectBy_cases singularTable w with ⟨hself, -⟩ | ⟨r, hmem, hr, -⟩
    · rw [show singularize w = w from hself]
      exact keepsAllBut_self w
    · obtain ⟨hplace, hdropped⟩ := singularTable_dropped r hmem
      exact Rule.keepsAllBut hplace hdropped hr
  · intro hkeeps b before stem i x after hfirst
    by_cases hends : ∃ ls ∈ precedingEndings, EndsIn ls (splitFinalFeed w).1
    · exact .inl hends
    · right
      obtain ⟨stem', i', x', hfound, hx, hreplaced⟩ := exists_ix hfirst.branch hfirst.fits
      obtain ⟨rfl, htail⟩ := List.append_inj' hfound rfl
      simp only [List.cons.injEq, and_true] at htail
      obtain ⟨rfl, rfl⟩ := htail
      rw [hfirst.pluralize_eq fun ls hls hend => hends ⟨ls, hls, hend⟩, hreplaced,
        ← hfirst.split] at hkeeps
      exact (keepsAllBut_ix hx).mp hkeeps
  · intro hall
    rcases pluralize_keeps_or_ix w with hkeeps | ⟨b, before, found, after, hfirst, hends⟩
    · exact hkeeps
    · obtain ⟨stem, i, x, rfl, hx, hreplaced⟩ := exists_ix hfirst.branch hfirst.fits
      rw [hfirst.pluralize_eq hends, hreplaced, ← hfirst.split]
      apply (keepsAllBut_ix hx).mpr
      refine (hall b before stem i x after hfirst).resolve_left ?_
      rintro ⟨ls, hls, hend⟩
      exact hends ls hls hend

/-- A name that begins with a word in -ix is changed there and not at its end. -/
theorem matrix_changed_in_front :
    pluralize (Text.ofString "MatrixRepositoryFactory") =
      Text.ofString "MatricesRepositoryFactory" ∧
    ¬KeepsAllBut 10 (Text.ofString "MatrixRepositoryFactory")
      (pluralize (Text.ofString "MatrixRepositoryFactory")) := by
  have hresult : pluralize (Text.ofString "MatrixRepositoryFactory") =
      Text.ofString "MatricesRepositoryFactory" := by decide +kernel
  have hw : Text.ofString "Matri" ++ .scalar 'x' :: Text.ofString "RepositoryFactory" =
      Text.ofString "MatrixRepositoryFactory" := by decide
  have hu : Text.ofString "Matri" ++ .scalar 'c' :: Text.ofString "esRepositoryFactory" =
      Text.ofString "MatricesRepositoryFactory" := by decide
  rw [hresult, keepsAllBut_of_differ hw hu (by decide)]
  decide

end UmlSchema
