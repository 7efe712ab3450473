import UmlSchema.Text.Blank
import UmlSchema.Text.Lines
import Mathlib.Data.List.DropRight

/-!
# Cutting and trimming texts

Cutting at a mark is the library's `List.splitOn`, so that its laws about joining the parts again
can be used. Trimming and cutting lose nothing but blanks and marks. A text that has been trimmed
has the same ends as its first and its last line.
-/
namespace UmlSchema

theorem CodePoint.ne_lineFeed_of_not_blank {c : CodePoint} (h : c.isBlank = false) :
    c ≠ .lineFeed := by
  rintro rfl
  cases h

namespace Text

theorem splitOn_eq (mark : CodePoint) (t : Text) : t.splitOn mark = List.splitOn mark t := by
  induction t with
  | nil => rfl
  | cons c t ih =>
    rw [splitOn, ih, List.splitOn, List.splitOn, List.splitOnP_cons_eq_if_modifyHead]
    by_cases hc : c = mark
    · simp [hc]
    · rw [if_neg hc, if_neg (by simpa using hc)]
      cases hsplit : List.splitOnP (· == mark) t with
      | nil => exact absurd hsplit (List.splitOnP_ne_nil _ t)
      | cons first others => rfl

theorem joinWith_splitOn (mark : CodePoint) (t : Text) :
    joinWith [mark] (t.splitOn mark) = t := by
  rw [splitOn_eq, joinWith, List.intercalate_splitOn]

theorem splitOn_joinWith {mark : CodePoint} {parts : List Text} (hne : parts ≠ [])
    (hmark : ∀ p ∈ parts, mark ∉ p) : (joinWith [mark] parts).splitOn mark = parts := by
  rw [splitOn_eq, joinWith, List.splitOn_intercalate mark hmark hne]

theorem mark_not_mem_part {mark : CodePoint} {t part : Text} (h : part ∈ t.splitOn mark) :
    mark ∉ part := by
  induction t generalizing part with
  | nil =>
    rw [List.mem_singleton.mp h]
    exact List.not_mem_nil
  | cons c t ih =>
    rw [splitOn] at h
    by_cases hc : c = mark
    · rw [if_pos hc] at h
      rcases List.mem_cons.mp h with rfl | h
      · exact List.not_mem_nil
      · exact ih h
    · rw [if_neg hc] at h
      cases hsplit : splitOn mark t with
      | nil =>
        rw [hsplit] at h
        rw [List.mem_singleton.mp h]
        simpa using Ne.symm hc
      | cons first others =>
        rw [hsplit] at h ih
        rcases List.mem_cons.mp h with rfl | h
        · have hfirst := ih List.mem_cons_self
          simpa [Ne.symm hc] using hfirst
        · exact ih (List.mem_cons_of_mem _ h)

theorem joinWith_concat (sep : Text) {parts : List Text} (hne : parts ≠ []) (p : Text) :
    joinWith sep (parts ++ [p]) = joinWith sep parts ++ sep ++ p := by
  simp only [joinWith]
  induction parts with
  | nil => exact absurd rfl hne
  | cons q parts ih =>
    cases parts with
    | nil => simp
    | cons r parts =>
      rw [List.cons_append, List.cons_append, List.intercalate_cons_cons, ← List.cons_append,
        ih (List.cons_ne_nil r parts), List.intercalate_cons_cons]
      simp only [List.append_assoc]

theorem getLast_suffix_joinWith (sep : Text) {parts : List Text} (hne : parts ≠ []) :
    parts.getLast hne <:+ joinWith sep parts := by
  obtain ⟨init, p, rfl⟩ := (List.eq_nil_or_concat' parts).resolve_left hne
  rw [List.getLast_concat]
  by_cases hinit : init = []
  · refine ⟨[], ?_⟩
    rw [hinit, List.nil_append, List.nil_append, joinWith, List.intercalate_singleton]
  · rw [joinWith_concat sep hinit]
    exact List.suffix_append _ _

theorem trim_of_blank {t : Text} (h : t.isBlank = true) : t.trim = [] := by
  have hstart : t.trimStart = [] := List.dropWhile_eq_nil_iff.mpr (List.all_eq_true.mp h)
  rw [trim, hstart]
  rfl

theorem trim_eq_rdropWhile (t : Text) : t.trim = t.trimStart.rdropWhile CodePoint.isBlank := rfl

theorem exists_trim (t : Text) :
    ∃ before after : Text, t = before ++ t.trim ++ after ∧ before.isBlank = true ∧
      after.isBlank = true := by
  refine ⟨t.takeWhile (·.isBlank), t.trimStart.rtakeWhile (·.isBlank), ?_, List.all_takeWhile, ?_⟩
  · rw [List.append_assoc]
    have hend : t.trim ++ t.trimStart.rtakeWhile (·.isBlank) = t.trimStart :=
      List.rdropWhile_append_rtakeWhile
    rw [hend]
    exact List.takeWhile_append_dropWhile.symm
  · exact List.all_eq_true.mpr fun c hc => List.mem_rtakeWhile_imp hc

theorem trim_eq_nil_iff {t : Text} : t.trim = [] ↔ t.isBlank = true := by
  refine ⟨fun h => ?_, trim_of_blank⟩
  obtain ⟨before, after, ht, hbefore, hafter⟩ := exists_trim t
  rw [ht, h, List.append_nil, isBlank, List.all_append, Bool.and_eq_true]
  exact ⟨hbefore, hafter⟩

structure Trimmed (t : Text) : Prop where
  head : ∀ c ∈ t.head?, c.isBlank = false
  last : ∀ c ∈ t.getLast?, c.isBlank = false

theorem getLast?_rdropWhile {p : CodePoint → Bool} {t : Text} {c : CodePoint}
    (h : (t.rdropWhile p).getLast? = some c) : p c = false := by
  have hne : t.rdropWhile p ≠ [] := by
    intro hnil
    rw [hnil] at h
    cases h
  have hlast := List.rdropWhile_last_not p t hne
  rw [List.getLast?_eq_some_getLast hne] at h
  cases h
  exact eq_false_of_ne_true hlast

theorem trimmed_trim (t : Text) : Trimmed t.trim := by
  constructor
  · intro c hc
    obtain ⟨rest, hrest⟩ := List.head?_eq_some_iff.mp hc
    obtain ⟨after, hafter⟩ := List.rdropWhile_prefix CodePoint.isBlank t.trimStart
    rw [← trim_eq_rdropWhile, hrest, List.cons_append] at hafter
    have hhead := List.head?_dropWhile_not CodePoint.isBlank t
    rwa [show t.dropWhile CodePoint.isBlank = c :: (rest ++ after) from hafter.symm] at hhead
  · intro c hc
    rw [trim_eq_rdropWhile] at hc
    exact getLast?_rdropWhile hc

theorem Trimmed.trim_eq {t : Text} (h : Trimmed t) : t.trim = t := by
  have hstart : t.trimStart = t := by
    cases t with
    | nil => rfl
    | cons c t => exact List.dropWhile_cons_of_neg (by simp [h.head c rfl])
  rw [trim, hstart]
  refine List.rdropWhile_eq_self_iff.mpr fun hne => ?_
  simp [h.last _ (List.getLast?_eq_some_getLast hne)]

theorem lines_ne_nil (t : Text) : t.lines ≠ [] := by
  rw [lines, splitOn_eq]
  exact List.splitOn_ne_nil _ _

theorem exists_first_line {t : Text} {c : CodePoint} (h : t.head? = some c)
    (hc : c ≠ .lineFeed) : ∃ l others, t.lines = (c :: l) :: others := by
  obtain ⟨rest, rfl⟩ := List.head?_eq_some_iff.mp h
  obtain ⟨l, others, hrest⟩ := List.exists_cons_of_ne_nil (lines_ne_nil rest)
  refine ⟨l, others, ?_⟩
  rw [lines, splitOn, if_neg hc]
  rw [lines] at hrest
  rw [hrest]

theorem head?_unlines (c : CodePoint) (l : Text) (ls : List Text) :
    (unlines ((c :: l) :: ls)).head? = some c := by
  cases ls with
  | nil => rw [unlines, joinWith, List.intercalate_singleton, List.head?_cons]
  | cons l' ls =>
    rw [unlines, joinWith, List.intercalate_cons_cons, List.cons_append, List.cons_append,
      List.head?_cons]

theorem getLast?_unlines {ls : List Text} {l : Text} (h : ls.getLast? = some l) (hl : l ≠ []) :
    (unlines ls).getLast? = l.getLast? := by
  obtain ⟨init, rfl⟩ := List.getLast?_eq_some_iff.mp h
  obtain ⟨before, hbefore⟩ := getLast_suffix_joinWith [.lineFeed] (List.concat_ne_nil l init)
  rw [List.getLast_concat] at hbefore
  rw [unlines, ← hbefore, List.getLast?_append_of_ne_nil _ hl]

theorem getLast?_last_line {t l : Text} (h : t.lines.getLast? = some l)
    (hfeed : t.getLast? ≠ some .lineFeed) : l.getLast? = t.getLast? := by
  have hjoin : unlines t.lines = t := joinWith_splitOn .lineFeed t
  by_cases hl : l = []
  · subst hl
    obtain ⟨init, hinit⟩ := List.getLast?_eq_some_iff.mp h
    by_cases hone : init = []
    · rw [← hjoin, hinit, hone]
      rfl
    · rw [hinit, unlines, joinWith_concat _ hone, List.append_nil] at hjoin
      rw [← hjoin, List.getLast?_concat] at hfeed
      exact absurd rfl hfeed
  · rw [← getLast?_unlines h hl, hjoin]

theorem not_blank_of_head {c : CodePoint} {t : Text} (hc : c.isBlank = false) :
    isBlank (c :: t) = false := by
  rw [isBlank, List.all_cons, hc, Bool.false_and]

theorem not_blank_of_getLast? {c : CodePoint} {t : Text} (h : t.getLast? = some c)
    (hc : c.isBlank = false) : t.isBlank = false := by
  rw [isBlank, List.all_eq_false]
  exact ⟨c, List.mem_of_getLast? h, by simp [hc]⟩

/-- A trimmed text begins with a code point that is not blank, and so with a line that is not: one
look at the first line tells whether the whole text is blank. -/
theorem isBlank_first_line (t : Text) : (t.trim.lines.headD []).isBlank = t.isBlank := by
  cases hstart : t.trim.head? with
  | none =>
    have hnil : t.trim = [] := List.head?_eq_none_iff.mp hstart
    rw [hnil, trim_eq_nil_iff.mp hnil]
    rfl
  | some c =>
    have hc := (trimmed_trim t).head c hstart
    obtain ⟨l, others, hlines⟩ := exists_first_line hstart (CodePoint.ne_lineFeed_of_not_blank hc)
    have hfull : t.isBlank = false := by
      refine eq_false_of_ne_true fun hblank => ?_
      rw [trim_of_blank hblank] at hstart
      cases hstart
    rw [hlines, List.headD_cons, not_blank_of_head hc, hfull]

end Text

end UmlSchema
