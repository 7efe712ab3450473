import UmlSchema.Proofs.Documentation

/-!
# Doc blocks

A doc block is written where the writer stands and leaves it there. It holds the lines of the
trimmed text that are not blank. The first and the last of these have the ends of the text, so that
their join is trimmed as it is and has the same block.
-/
namespace UmlSchema

def writtenLines (indent : Text) (events : List Event) : List Text :=
  (placedLines 0 events).map (PlacedLine.render indent)

section Content

variable {t : Text}

theorem trimmed_docContent (h : t.isBlank = false) :
    Text.Trimmed (Text.unlines (docContent t)) := by
  have htrimmed := Text.trimmed_trim t
  have hne : t.trim ≠ [] := by
    rw [Ne, Text.trim_eq_nil_iff, h]
    exact Bool.false_ne_true
  constructor
  · -- The first line begins like the trimmed text and stays.
    obtain ⟨c, hstart⟩ : ∃ c, t.trim.head? = some c := ⟨_, List.head?_eq_some_head hne⟩
    have hc := htrimmed.head c hstart
    obtain ⟨l, others, hlines⟩ :=
      Text.exists_first_line hstart (CodePoint.ne_lineFeed_of_not_blank hc)
    rw [docContent, hlines, List.filter_cons_of_pos (by simp [Text.not_blank_of_head hc]),
      Text.head?_unlines]
    rintro c ⟨⟩
    exact hc
  · -- The last line ends like it and stays.
    obtain ⟨c, hend⟩ : ∃ c, t.trim.getLast? = some c := ⟨_, List.getLast?_eq_some_getLast hne⟩
    have hc := htrimmed.last c hend
    have hfeed : t.trim.getLast? ≠ some .lineFeed := by
      rw [hend]
      intro heq
      exact CodePoint.ne_lineFeed_of_not_blank hc (Option.some.inj heq)
    obtain ⟨init, l, hlines⟩ := (List.eq_nil_or_concat' t.trim.lines).resolve_left
      (Text.lines_ne_nil t.trim)
    have hl : l.getLast? = some c := by
      rw [Text.getLast?_last_line (by rw [hlines, List.getLast?_concat]) hfeed, hend]
    have hne' : l ≠ [] := by
      rintro rfl
      cases hl
    have hkept : (docContent t).getLast? = some l := by
      have hfull := Text.not_blank_of_getLast? hl hc
      rw [docContent, hlines, List.filter_append, List.filter_cons_of_pos (by simp [hfull]),
        List.filter_nil, List.getLast?_concat]
    rw [Text.getLast?_unlines hkept hne', hl]
    rintro c ⟨⟩
    exact hc

theorem docContent_unlines (h : t.isBlank = false) :
    docContent (Text.unlines (docContent t)) = docContent t := by
  have hlines : (Text.unlines (docContent t)).lines = docContent t := by
    apply Text.splitOn_joinWith (docContent_ne_nil h)
    intro l hl
    exact Text.mark_not_mem_part (List.mem_filter.mp hl).1
  rw [docContent, (trimmed_docContent h).trim_eq, hlines, List.filter_eq_self]
  intro l hl
  simp [not_blank_of_mem_docContent hl]

end Content

theorem docBlock_unlines {t : Text} (h : t.isBlank = false) :
    docBlock (Text.unlines (docContent t)) = docBlock t := by
  have hcontent := docContent_unlines h
  have hfull : (Text.unlines (docContent t)).isBlank = false := by
    refine eq_false_of_ne_true fun hblank => docContent_ne_nil h ?_
    rw [← hcontent, docContent, Text.trim_of_blank hblank]
    rfl
  rw [docBlock_of_not_blank hfull, hcontent, docBlock_of_not_blank h]

theorem writtenLines_lines (indent : Text) (before : List Event) (ls : List Text) :
    writtenLines indent (before ++ ls.map .line) = writtenLines indent before ++
      ls.map (PlacedLine.render indent ∘ PlacedLine.mk (depthAfter 0 before)) := by
  have hlines := placedLines_lines (depthAfter 0 before) ls []
  rw [List.append_nil, placedLines, List.append_nil] at hlines
  rw [writtenLines, placedLines_append, hlines, List.map_append, List.map_map, writtenLines]

namespace Declarer

variable {d : Declarer}

theorem docOf_text (hdoc : d.options.idlDoc = true) (t : Text) :
    d.docOf (.text t) = Emission.emitAll ((docBlock t).map .line) := by
  rw [docOf, doc, Emission.doc, hdoc, if_pos rfl]

theorem docOf_events_of_blank (hdoc : d.options.idlDoc = true) {v : Value}
    (h : ∀ t, v = .text t → t.isBlank = true) : (d.docOf v).events = [] := by
  cases v with
  | text t =>
    rw [docOf_text hdoc, docBlock_of_blank (h t rfl)]
    rfl
  | absent | flag _ | ref _ | refs _ => rfl

theorem writtenLines_docOf (hdoc : d.options.idlDoc = true) (indent : Text) (before : List Event)
    {t : Text} (h : t.isBlank = false) :
    writtenLines indent (before ++ (d.docOf (.text t)).events) = writtenLines indent before ++
      (docMark :: docContent t ++ [docMark]).map (indent.repeated (depthAfter 0 before) ++ ·) := by
  rw [docOf_text hdoc, Emission.emitAll, writtenLines_lines, render_docBlock _ _ h]

/-- A doc block is written where the writer stands, which stays there. Nothing is written exactly if
there is no text or a blank one. Otherwise the lines between the marks are those of the trimmed text
that are not blank, at least one, and the join of these lines has the same block. -/
theorem doc_block_exact (hdoc : d.options.idlDoc = true) (indent : Text) (before : List Event)
    (v : Value) :
    (d.docOf v).result = .ok () ∧
    depthAfter 0 (before ++ (d.docOf v).events) = depthAfter 0 before ∧
    (writtenLines indent (before ++ (d.docOf v).events) = writtenLines indent before ↔
      ∀ t, v = .text t → t.isBlank = true) ∧
    ∀ t, v = .text t → t.isBlank = false →
      (∃ lead tail : Text, t = lead ++ t.trim ++ tail ∧ lead.isBlank = true ∧
        tail.isBlank = true ∧ t.trim.Trimmed) ∧
      docContent t = t.trim.lines.filter (!·.isBlank) ∧ docContent t ≠ [] ∧
      writtenLines indent (before ++ (d.docOf v).events) = writtenLines indent before ++
        (docMark :: docContent t ++ [docMark]).map (indent.repeated (depthAfter 0 before) ++ ·) ∧
      d.docOf (.text (Text.unlines (docContent t))) = d.docOf v := by
  refine ⟨?_, ?_, ⟨?_, ?_⟩, ?_⟩
  · cases v with
    | text t => rw [docOf_text hdoc, Emission.emitAll]
    | absent | flag _ | ref _ | refs _ => rfl
  · rw [depthAfter_append]
    exact depthAfter_of_flat _ (d.plain_docOf v).flat
  · rintro hsame t rfl
    by_contra hfull
    rw [writtenLines_docOf hdoc _ _ (eq_false_of_ne_true hfull)] at hsame
    simpa using List.append_right_eq_self.mp hsame
  · intro hblank
    rw [docOf_events_of_blank hdoc hblank, List.append_nil]
  · rintro t rfl h
    obtain ⟨lead, tail, ht, hlead, htail⟩ := Text.exists_trim t
    refine ⟨⟨lead, tail, ht, hlead, htail, Text.trimmed_trim t⟩, rfl, docContent_ne_nil h,
      writtenLines_docOf hdoc indent before h, ?_⟩
    rw [docOf_text hdoc, docOf_text hdoc, docBlock_unlines h]

end Declarer

def spacedText : Text := "\u2003One\n\u00a0\n  two \n"

def openedType : List Event := [.line "type A \x7b", .indent]

def emptyDeclarer : Declarer := ⟨⟨{}, []⟩, {}⟩

theorem spacedText_doc_block :
    depthAfter 0 (openedType ++ (emptyDeclarer.docOf (.text spacedText)).events) = 1 ∧
    writtenLines "\t" (openedType ++ (emptyDeclarer.docOf .absent).events) =
      [Text.ofString "type A \x7b"] ∧
    writtenLines "\t" (openedType ++ (emptyDeclarer.docOf (.text spacedText)).events) =
      [Text.ofString "type A \x7b", Text.ofString "\t\x22\x22\x22", Text.ofString "\tOne",
        Text.ofString "\t  two", Text.ofString "\t\x22\x22\x22"] ∧
    emptyDeclarer.docOf (.text "One\n  two") = emptyDeclarer.docOf (.text spacedText) := by
  obtain ⟨-, -, hnothing, -⟩ :=
    Declarer.doc_block_exact (d := emptyDeclarer) rfl "\t" openedType .absent
  obtain ⟨-, hdepth, -, hblock⟩ :=
    Declarer.doc_block_exact (d := emptyDeclarer) rfl "\t" openedType (.text spacedText)
  obtain ⟨-, -, -, hwritten, hstable⟩ := hblock spacedText rfl (by decide)
  have hcontent : docContent spacedText = [Text.ofString "One", Text.ofString "  two"] := by decide
  rw [hcontent] at hwritten hstable
  refine ⟨hdepth, hnothing.mpr ?_, hwritten, hstable⟩
  rintro t ⟨⟩

end UmlSchema
