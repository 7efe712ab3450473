import UmlSchema.Proofs.Splitting
import UmlSchema.Banner
import Mathlib.Data.List.Forall2

/-!
# Banners as comments

Banners are put in front of a document one after the other, each as a block of comment lines. A
block has the lines of its banner, and making a block of a block changes nothing.
-/
namespace UmlSchema

/-- What becomes of a line: blank lines and comments stay as they are. -/
inductive Commented : Text → Text → Prop where
  | blank {l : Text} : l.isBlank = true → Commented l l
  | comment {l : Text} : Text.ofString "#" <+: l → Commented l l
  | plain {l : Text} : l.isBlank = false → ¬Text.ofString "#" <+: l → Commented l ("# " ++ l)

theorem Text.startsWith_iff {t start : Text} : t.startsWith start = true ↔ start <+: t :=
  List.isPrefixOf_iff_prefix

theorem commentLine_eq_self {l : Text} (h : l.isBlank = true ∨ Text.ofString "#" <+: l) :
    commentLine l = l := by
  have htest : (l.startsWith "#" || l.isBlank) = true := by
    rw [Bool.or_eq_true, Text.startsWith_iff]
    exact h.symm
  rw [commentLine, if_pos htest]

theorem commented_commentLine (l : Text) : Commented l (commentLine l) := by
  by_cases hblank : l.isBlank = true
  · rw [commentLine_eq_self (.inl hblank)]
    exact .blank hblank
  · by_cases hcomment : Text.ofString "#" <+: l
    · rw [commentLine_eq_self (.inr hcomment)]
      exact .comment hcomment
    · have htest : ¬(l.startsWith "#" || l.isBlank) = true := by
        rw [Bool.or_eq_true, Text.startsWith_iff]
        exact not_or.mpr ⟨hcomment, hblank⟩
      rw [commentLine, if_neg htest]
      exact .plain (eq_false_of_ne_true hblank) hcomment

namespace Commented

variable {l l' : Text}

theorem blank_or_comment (h : Commented l l') : l'.isBlank = true ∨ Text.ofString "#" <+: l' := by
  cases h with
  | blank hblank => exact .inl hblank
  | comment hcomment => exact .inr hcomment
  | plain => exact .inr ⟨_, rfl⟩

theorem feed_not_mem (h : Commented l l') (hl : .lineFeed ∉ l) : .lineFeed ∉ l' := by
  cases h with
  | blank | comment => exact hl
  | plain =>
    intro hmem
    rcases List.mem_append.mp hmem with hmem | hmem
    · exact absurd hmem (by decide)
    · exact hl hmem

theorem ne_nil (h : Commented l l') (hl : l ≠ []) : l' ≠ [] := by
  cases h with
  | blank | comment => exact hl
  | plain => exact List.append_ne_nil_of_right_ne_nil _ hl

end Commented

theorem trimFeeds_eq_rdropWhile (t : Text) : trimFeeds t = t.rdropWhile (· = .lineFeed) := rfl

theorem trimFeeds_eq_self {t : Text} (h : t.getLast? ≠ some .lineFeed) : trimFeeds t = t := by
  refine List.rdropWhile_eq_self_iff.mpr fun hne hlast => h ?_
  rw [List.getLast?_eq_some_getLast hne, of_decide_eq_true hlast]

theorem getLast?_trimFeeds (t : Text) : (trimFeeds t).getLast? ≠ some .lineFeed := by
  intro hlast
  rw [trimFeeds_eq_rdropWhile] at hlast
  exact of_decide_eq_false (Text.getLast?_rdropWhile hlast) rfl

theorem exists_trimFeeds (t : Text) :
    ∃ feeds, t = trimFeeds t ++ List.replicate feeds .lineFeed := by
  have hfeeds : t.rtakeWhile (· = .lineFeed) =
      List.replicate (t.rtakeWhile (· = .lineFeed)).length .lineFeed := by
    refine List.eq_replicate_iff.mpr ⟨rfl, ?_⟩
    intro c hc
    have hfeed := List.mem_rtakeWhile_imp hc
    exact of_decide_eq_true hfeed
  refine ⟨(t.rtakeWhile (· = .lineFeed)).length, ?_⟩
  rw [← hfeeds, trimFeeds_eq_rdropWhile]
  exact List.rdropWhile_append_rtakeWhile.symm

theorem lines_bannerBlock (banner : Text) :
    (bannerBlock banner).lines = (trimFeeds banner).lines.map commentLine := by
  apply Text.splitOn_joinWith
  · simpa using Text.lines_ne_nil _
  · intro l hl
    obtain ⟨k, hk, rfl⟩ := List.mem_map.mp hl
    exact (commented_commentLine k).feed_not_mem (Text.mark_not_mem_part hk)

theorem getLast?_bannerBlock (banner : Text) : (bannerBlock banner).getLast? ≠ some .lineFeed := by
  intro hfeed
  have hbody := getLast?_trimFeeds banner
  generalize hb : trimFeeds banner = body at hbody
  rw [bannerBlock, hb] at hfeed
  cases hend : body.getLast? with
  | none =>
    rw [List.getLast?_eq_none_iff.mp hend] at hfeed
    cases hfeed
  | some c =>
    obtain ⟨l, hl⟩ : ∃ l, body.lines.getLast? = some l :=
      ⟨_, List.getLast?_eq_some_getLast (Text.lines_ne_nil body)⟩
    have hlast : l.getLast? = some c := by rw [Text.getLast?_last_line hl hbody, hend]
    have hne : l ≠ [] := by
      rintro rfl
      cases hlast
    have hcomment := commented_commentLine l
    have hmapped : (body.lines.map commentLine).getLast? = some (commentLine l) := by
      rw [List.getLast?_map, hl]
      rfl
    rw [Text.getLast?_unlines hmapped (hcomment.ne_nil hne)] at hfeed
    apply hcomment.feed_not_mem (Text.mark_not_mem_part (List.mem_of_getLast? hl))
    exact List.mem_of_getLast? hfeed

theorem bannerBlock_bannerBlock (banner : Text) :
    bannerBlock (bannerBlock banner) = bannerBlock banner := by
  have hlines : ((trimFeeds banner).lines.map commentLine).map commentLine =
      (trimFeeds banner).lines.map commentLine := by
    rw [List.map_map]
    apply List.map_congr_left
    intro l _
    exact commentLine_eq_self (commented_commentLine l).blank_or_comment
  rw [bannerBlock, trimFeeds_eq_self (getLast?_bannerBlock banner), lines_bannerBlock, hlines,
    bannerBlock]

theorem addBanners_eq (banners : List Text) (document : Text) :
    addBanners banners document =
      (banners.reverse.map fun b => bannerBlock b ++ "\n\n").flatten ++ document := by
  induction banners generalizing document with
  | nil => rfl
  | cons b banners ih =>
    have hstep : addBanners (b :: banners) document =
        addBanners banners (addBanner b document) := rfl
    rw [hstep, ih, addBanner, List.reverse_cons, List.map_append, List.flatten_append]
    simp only [List.map_cons, List.map_nil, List.flatten_cons, List.flatten_nil, List.append_nil,
      List.append_assoc]

/-- Banners put nothing but comments and empty lines in front of a document, the last one first. The
block of a banner has the lines of the banner without the line feeds at its end, and is a block of
its own. -/
theorem banners_prepend_comments (banners : List Text) (document : Text) :
    addBanners banners document =
      (banners.reverse.map fun b => bannerBlock b ++ "\n\n").flatten ++ document ∧
    ∀ banner : Text,
      (∃ (body : Text) (feeds : Nat), banner = body ++ List.replicate feeds .lineFeed ∧
        body.getLast? ≠ some .lineFeed ∧
        List.Forall₂ Commented body.lines (bannerBlock banner).lines) ∧
      (∀ l ∈ (bannerBlock banner).lines, l.isBlank = true ∨ Text.ofString "#" <+: l) ∧
      bannerBlock (bannerBlock banner) = bannerBlock banner := by
  refine ⟨addBanners_eq banners document, ?_⟩
  intro banner
  obtain ⟨feeds, hfeeds⟩ := exists_trimFeeds banner
  refine ⟨⟨trimFeeds banner, feeds, hfeeds, getLast?_trimFeeds banner, ?_⟩, ?_,
    bannerBlock_bannerBlock banner⟩
  · rw [lines_bannerBlock, List.forall₂_map_right_iff, List.forall₂_same]
    intro l _
    exact commented_commentLine l
  · intro l hl
    rw [lines_bannerBlock] at hl
    obtain ⟨k, -, rfl⟩ := List.mem_map.mp hl
    exact (commented_commentLine k).blank_or_comment

theorem twoBanners_prepended :
    addBanners [Text.ofString "Shop\n\n", Text.ofString "#a\n\u2003\nb\n"] "type A" =
      Text.ofString "#a\n\u2003\n# b\n\n# Shop\n\ntype A" ∧
    (Text.ofString "# b" ∈ (bannerBlock "#a\n\u2003\nb\n").lines ∧
      ((Text.ofString "# b").isBlank = true ∨ Text.ofString "#" <+: Text.ofString "# b")) ∧
    bannerBlock (bannerBlock "#a\n\u2003\nb\n") = bannerBlock "#a\n\u2003\nb\n" := by
  obtain ⟨hall, hblocks⟩ := banners_prepend_comments
    [Text.ofString "Shop\n\n", Text.ofString "#a\n\u2003\nb\n"] "type A"
  obtain ⟨-, hlines, htwice⟩ := hblocks "#a\n\u2003\nb\n"
  have hmem : Text.ofString "# b" ∈ (bannerBlock "#a\n\u2003\nb\n").lines := by decide
  exact ⟨hall.trans (by decide), ⟨hmem, hlines _ hmem⟩, htwice⟩

end UmlSchema
