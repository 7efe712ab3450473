import UmlSchema.Proofs.Preview
import UmlSchema.Proofs.Splitting

/-!
# What documentation changes

A document with doc blocks and the same document without them come from two runs over one model.
Both runs meet the same faults and give the same warnings, and the lines of the first are those of
the second with whole doc blocks put in between.
-/
namespace UmlSchema

open Emission

/-- The second list of lines is the first one with doc blocks put in. A block stands at one depth
and has a line between its marks. -/
inductive WithDocs (indent : Text) : List Text → List Text → Prop where
  | nil : WithDocs indent [] []
  | line (l : Text) {a b : List Text} : WithDocs indent a b → WithDocs indent (l :: a) (l :: b)
  | block (depth : Nat) {body a b : List Text} : body ≠ [] → (∀ l ∈ body, l.isBlank = false) →
      WithDocs indent a b →
      WithDocs indent a ((docMark :: body ++ [docMark]).map (indent.repeated depth ++ ·) ++ b)

def docContent (t : Text) : List Text := t.trim.lines.filter (!·.isBlank)

theorem docBlock_of_blank {t : Text} (h : t.isBlank = true) : docBlock t = [] := by
  rw [docBlock, Text.isBlank_first_line, if_pos h]

theorem docBlock_of_not_blank {t : Text} (h : t.isBlank = false) :
    docBlock t = docMark :: docContent t ++ [docMark] := by
  rw [docBlock, Text.isBlank_first_line, if_neg (by simp [h]), docContent]

theorem not_blank_of_mem_docContent {t l : Text} (h : l ∈ docContent t) : l.isBlank = false := by
  simpa using (List.mem_filter.mp h).2

theorem docContent_ne_nil {t : Text} (h : t.isBlank = false) : docContent t ≠ [] := by
  rw [← Text.isBlank_first_line] at h
  obtain ⟨l, others, hlines⟩ := List.exists_cons_of_ne_nil (Text.lines_ne_nil t.trim)
  rw [hlines, List.headD_cons] at h
  rw [docContent, hlines, List.filter_cons_of_pos (by simp [h])]
  exact List.cons_ne_nil _ _

/-- The second list of events is the first one with the lines of doc blocks put in. -/
inductive DocsAdded : List Event → List Event → Prop where
  | nil : DocsAdded [] []
  | keep (v : Event) {a b : List Event} : DocsAdded a b → DocsAdded (v :: a) (v :: b)
  | block {t : Text} {a b : List Event} : t.isBlank = false → DocsAdded a b →
      DocsAdded a ((docBlock t).map .line ++ b)

namespace DocsAdded

theorem refl (a : List Event) : DocsAdded a a := by
  induction a with
  | nil => exact .nil
  | cons v a ih => exact .keep v ih

theorem append {a b a' b' : List Event} (h : DocsAdded a b) (h' : DocsAdded a' b') :
    DocsAdded (a ++ a') (b ++ b') := by
  induction h with
  | nil => exact h'
  | keep v _ ih => exact .keep v ih
  | block ht _ ih =>
    rw [List.append_assoc]
    exact .block ht ih

theorem warnings {a b : List Event} (h : DocsAdded a b) : warningsOf b = warningsOf a := by
  induction h with
  | nil => rfl
  | keep v _ ih =>
    rw [← List.singleton_append, warningsOf_append, ih, ← warningsOf_append]
    rfl
  | @block t a b _ _ ih =>
    have hnone := (doc_lines true t).2.2
    rw [warningsOf_append, ih]
    exact congrArg (· ++ warningsOf a) hnone

end DocsAdded

theorem placedLines_lines (depth : Nat) (ls : List Text) (rest : List Event) :
    placedLines depth (ls.map .line ++ rest) =
      ls.map (PlacedLine.mk depth) ++ placedLines depth rest := by
  induction ls with
  | nil => rfl
  | cons l ls ih => exact congrArg (PlacedLine.mk depth l :: ·) ih

theorem render_filled (indent : Text) (depth : Nat) {l : Text} (h : l ≠ []) :
    PlacedLine.render indent ⟨depth, l⟩ = indent.repeated depth ++ l := by
  simp [PlacedLine.render, h]

theorem render_docBlock (indent : Text) (depth : Nat) {t : Text} (h : t.isBlank = false) :
    (docBlock t).map (PlacedLine.render indent ∘ PlacedLine.mk depth) =
      (docMark :: docContent t ++ [docMark]).map (indent.repeated depth ++ ·) := by
  rw [docBlock_of_not_blank h]
  apply List.map_congr_left
  intro l hl
  apply render_filled
  rintro rfl
  rcases List.mem_append.mp hl with hl | hl
  · rcases List.mem_cons.mp hl with hl | hl
    · cases hl
    · cases not_blank_of_mem_docContent hl
  · cases List.mem_singleton.mp hl

theorem DocsAdded.lines {a b : List Event} (h : DocsAdded a b) (indent : Text) (depth : Nat) :
    WithDocs indent ((placedLines depth a).map (PlacedLine.render indent))
      ((placedLines depth b).map (PlacedLine.render indent)) := by
  induction h generalizing depth with
  | nil => exact .nil
  | keep v _ ih =>
    cases v with
    | line l => exact .line _ (ih depth)
    | indent => exact ih (depth + 1)
    | outdent => exact ih (depth - 1)
    | warn _ | log _ => exact ih depth
  | @block t a b ht _ ih =>
    rw [placedLines_lines, List.map_append, List.map_map, render_docBlock indent depth ht]
    exact .block depth (docContent_ne_nil ht) (fun _ => not_blank_of_mem_docContent) (ih depth)

namespace Emission

variable {α β : Type}

/-- Two emissions with one result, the second of which has doc blocks that the first has not. -/
structure SameButDocs (x y : Emission α) : Prop where
  result : y.result = x.result
  events : DocsAdded x.events y.events

namespace SameButDocs

theorem refl (x : Emission α) : SameButDocs x x := ⟨rfl, .refl _⟩

theorem bind {x y : Emission α} {f g : α → Emission β} (hx : SameButDocs x y)
    (hf : ∀ a, SameButDocs (f a) (g a)) : SameButDocs (x >>= f) (y >>= g) := by
  cases hr : x.result with
  | error fault =>
    have hr' := hx.result.trans hr
    have hresult {z : Emission α} {k : α → Emission β} (hz : z.result = .error fault) :
        (z >>= k).result = .error fault := by
      change (z.bind k).result = _
      simp [Emission.bind, hz]
    refine ⟨(hresult hr').trans (hresult hr).symm, ?_⟩
    rw [bind_events_fault hr, bind_events_fault hr']
    exact hx.events
  | ok a =>
    have hr' := hx.result.trans hr
    have hresult {z : Emission α} {k : α → Emission β} (hz : z.result = .ok a) :
        (z >>= k).result = (k a).result := by
      change (z.bind k).result = _
      simp [Emission.bind, hz]
    refine ⟨?_, ?_⟩
    · rw [hresult hr', hresult hr]
      exact (hf a).result
    · rw [bind_events hr, bind_events hr']
      exact hx.events.append (hf a).events

theorem after (x : Emission α) {f g : α → Emission β} (hf : ∀ a, SameButDocs (f a) (g a)) :
    SameButDocs (x >>= f) (x >>= g) :=
  (refl x).bind hf

theorem guarded {c : Prop} [Decidable c] {x y : Emission Unit} {f g : Unit → Emission β}
    (hx : SameButDocs x y) (hf : ∀ u, SameButDocs (f u) (g u)) :
    SameButDocs (if c then x >>= f else f ()) (if c then y >>= g else g ()) := by
  by_cases hc : c
  · rw [if_pos hc, if_pos hc]
    exact hx.bind hf
  · rw [if_neg hc, if_neg hc]
    exact hf ()

theorem each {xs : List α} {f g : α → Emission Unit} (hf : ∀ x, SameButDocs (f x) (g x)) :
    SameButDocs (Emission.each xs f) (Emission.each xs g) := by
  induction xs with
  | nil => exact refl _
  | cons x xs ih => exact (hf x).bind fun _ => ih

end SameButDocs

end Emission

namespace Declarer

def quiet (d : Declarer) : Declarer := { d with options := { d.options with idlDoc := false } }

variable (d : Declarer)

theorem quiet_doc (t : Text) : SameButDocs (d.quiet.doc t) (d.doc t) := by
  refine ⟨rfl, ?_⟩
  change DocsAdded [] (if d.options.idlDoc then (docBlock t).map Event.line else [])
  cases d.options.idlDoc with
  | false => exact .nil
  | true =>
    cases ht : t.isBlank with
    | true =>
      rw [if_pos rfl, docBlock_of_blank ht]
      exact .nil
    | false =>
      rw [if_pos rfl, ← List.append_nil ((docBlock t).map _)]
      exact .block ht .nil

theorem quiet_docOf (v : Value) : SameButDocs (d.quiet.docOf v) (d.docOf v) := by
  cases v with
  | text t => exact d.quiet_doc t
  | absent | flag _ | ref _ | refs _ => exact .refl _

theorem quiet_warnInText (k : WarningKind) (message : Text) (e : ElementId) :
    SameButDocs (d.quiet.warnInText k message e) (d.warnInText k message e) :=
  .after _ fun _ => d.quiet_doc _

theorem quiet_fields (table : FieldTable) :
    SameButDocs (d.quiet.fields table) (d.fields table) :=
  .each fun _ => (d.quiet_docOf _).bind fun _ => .refl _

theorem quiet_firstReturn (ps : List Value) : d.quiet.firstReturn ps = d.firstReturn ps := by
  induction ps with
  | nil => rfl
  | cons p ps ih =>
    simp only [firstReturn, ih]
    rfl

theorem quiet_returnParameter (e : ElementId) :
    d.quiet.returnParameter e = d.returnParameter e := by
  simp only [returnParameter, quiet_firstReturn]
  rfl

theorem quiet_operation [Platform] (v : Value) :
    SameButDocs (d.quiet.operation v) (d.operation v) := by
  refine .after _ fun name => ?_
  cases v with
  | ref e =>
    dsimp only
    rw [quiet_returnParameter]
    split
    · exact .refl _
    · -- The text of the doc block is worked out in both runs, so that a fault in it shows in both.
      exact .after _ fun inputs => .after _ fun result => .after _ fun documentation =>
        (d.quiet_doc documentation).bind fun _ => .refl _
  | absent | flag _ | text _ | refs _ => exact .refl _

theorem quiet_operations [Platform] (e : ElementId) :
    SameButDocs (d.quiet.operations e) (d.operations e) :=
  .after _ fun _ => .after _ fun _ => .each fun o =>
    (d.quiet_operation o).bind fun _ => .refl _

theorem quiet_block [Platform] (header : Text) (table : Emission FieldTable) (e : ElementId) :
    SameButDocs (d.quiet.block header table e) (d.block header table e) :=
  .after _ fun _ => .after _ fun _ => .after _ fun _ => .after _ fun fields =>
    (d.quiet_fields fields).bind fun _ => (d.quiet_operations e).bind fun _ => .refl _

theorem quiet_enumeration [Platform] (e : ElementId) :
    SameButDocs (d.quiet.enumeration e) (d.enumeration e) :=
  .after _ fun _ => (d.quiet_docOf _).bind fun _ => .refl _

theorem quiet_scalar [Platform] (e : ElementId) : SameButDocs (d.quiet.scalar e) (d.scalar e) :=
  .after _ fun _ => (d.quiet_docOf _).bind fun _ => .refl _

theorem quiet_interface [Platform] (e : ElementId) :
    SameButDocs (d.quiet.interface e) (d.interface e) :=
  .after _ fun _ => (d.quiet_docOf _).bind fun _ => .after _ fun _ => .after _ fun _ =>
    .after _ fun _ => .after _ fun _ => d.quiet_block _ _ e

theorem quiet_nearestConcrete (n : Nat) (seen : List Value) (ignored : Bool) (v : Value) :
    d.quiet.nearestConcrete n seen ignored v = d.nearestConcrete n seen ignored v := by
  induction n generalizing seen ignored v with
  | zero => rfl
  | succ n ih =>
    simp only [nearestConcrete, ih]
    rfl

theorem quiet_extendsTarget (e : ElementId) :
    SameButDocs (d.quiet.extendsTarget e) (d.extendsTarget e) := by
  unfold extendsTarget
  rw [quiet_nearestConcrete]
  exact .after _ fun _ => (d.quiet_warnInText _ _ e).guarded fun _ => .refl _

theorem quiet_ancestry (e : ElementId) : SameButDocs (d.quiet.ancestry e) (d.ancestry e) :=
  .after _ fun _ => .after _ fun _ => (d.quiet_extendsTarget e).bind fun _ => .refl _

theorem quiet_object [Platform] (keyword : Text) (e : ElementId) :
    SameButDocs (d.quiet.object keyword e) (d.object keyword e) := by
  refine (SameButDocs.refl (d.checkName e)).guarded fun _ => (d.quiet_docOf _).bind fun _ => ?_
  have rest (ancestry : Text) := d.quiet_block
    ((if keyword = "schema" then keyword else keyword ++ " " ++ (d.nameOf e).text) ++ ancestry)
    (d.repository.classTable e) e
  by_cases htype : keyword = "type"
  · rw [if_pos htype, if_pos htype]
    exact (d.quiet_ancestry e).bind rest
  · rw [if_neg htype, if_neg htype]
    exact .after _ rest

theorem quiet_union [Platform] (e : ElementId) : SameButDocs (d.quiet.union e) (d.union e) := by
  refine .after _ fun _ => .after _ fun _ => (d.quiet_warnInText _ _ e).guarded fun _ =>
    .after _ fun _ => (d.quiet_warnInText _ _ e).guarded fun _ =>
    .after _ fun _ => (d.quiet_warnInText _ _ e).guarded fun _ =>
    .after _ fun _ => (d.quiet_warnInText _ _ e).guarded fun _ =>
    .after _ fun members => (SameButDocs.refl _).guarded fun _ => ?_
  by_cases hmembers : (!members.isEmpty) = true
  · rw [if_pos hmembers, if_pos hmembers]
    exact (d.quiet_docOf _).bind fun _ => .refl _
  · rw [if_neg hmembers, if_neg hmembers]
    exact .refl _

theorem quiet_klass [Platform] (e : ElementId) : SameButDocs (d.quiet.klass e) (d.klass e) := by
  refine .after _ fun form => ?_
  cases form with
  | union => exact d.quiet_union e
  | input | schema | type => exact d.quiet_object _ e

theorem quiet_single [Platform] (e : ElementId) : SameButDocs (d.quiet.single e) (d.single e) := by
  unfold single
  rw [show d.quiet.element e = d.element e from rfl]
  cases (d.element e).kind with
  | klass =>
    dsimp only
    rw [show d.quiet.isAbstract (.ref e) = d.isAbstract (.ref e) from rfl]
    split
    · exact .after _ fun _ => (d.quiet_klass e).bind fun _ => .refl _
    · exact .refl _
  | primitiveType => exact .after _ fun _ => (d.quiet_scalar e).bind fun _ => .refl _
  | interface => exact .after _ fun _ => (d.quiet_interface e).bind fun _ => .refl _
  | enumeration => exact .after _ fun _ => (d.quiet_enumeration e).bind fun _ => .refl _
  | _ => exact .refl _

theorem quiet_declareWithin [Platform] (n : Nat) (v : Value) :
    SameButDocs (d.quiet.declareWithin n v) (d.declareWithin n v) := by
  induction n generalizing v with
  | zero => exact .refl _
  | succ n ih =>
    cases v with
    | ref e =>
      simp only [declareWithin]
      rw [show d.quiet.element e = d.element e from rfl]
      by_cases hc : isContainer (d.element e) = true
      · rw [if_pos hc, if_pos hc]
        exact .after _ fun _ => .each ih
      · rw [if_neg hc, if_neg hc]
        exact d.quiet_single e
    | absent | flag _ | text _ | refs _ => exact .refl _

theorem quiet_header (text : Text) : SameButDocs (d.quiet.header text) (d.header text) :=
  (d.quiet_doc _).bind fun _ => .refl _

end Declarer

variable [Platform]

theorem documentEvents_quiet (d : Declarer) (header : Option Text) (e : ElementId) :
    SameButDocs (documentEvents d.quiet header e) (documentEvents d header e) := by
  cases header with
  | none => exact d.quiet_declareWithin _ _
  | some text => exact (d.quiet_header text).bind fun _ => d.quiet_declareWithin _ _

/-- Two runs that differ in documentation alone: they fail with one fault, or both come to a result
with the same warnings, and the second has the lines of the first with doc blocks put in. -/
def RenderRun.DocsOnly (o : Options) (plain documented : RenderRun) : Prop :=
  (∃ fault, plain.result = .error fault ∧ documented.result = .error fault) ∨
  ∃ indent warnings, o.indentString = .ok indent ∧
    plain.result = .ok ⟨Text.unlines (plain.lines indent), warnings⟩ ∧
    documented.result = .ok ⟨Text.unlines (documented.lines indent), warnings⟩ ∧
    WithDocs indent (plain.lines indent) (documented.lines indent)

theorem renderWith_docsOnly (r : Repository) (o : Options) (header : Option (Option Template))
    (e : ElementId) :
    RenderRun.DocsOnly o (renderWith r { o with idlDoc := false } header e)
      (renderWith r { o with idlDoc := true } header e) := by
  -- The indentation and the header are the same in both runs.
  cases hl : layoutOf r.model o header e with
  | error fault => exact .inl ⟨_, renderWith_noLayout hl, renderWith_noLayout hl⟩
  | ok layout =>
    obtain ⟨indent, text⟩ := layout
    have hsame : SameButDocs (documentEvents ⟨r, { o with idlDoc := false }⟩ text e)
        (documentEvents ⟨r, { o with idlDoc := true }⟩ text e) :=
      documentEvents_quiet ⟨r, { o with idlDoc := true }⟩ text e
    cases hresult : (documentEvents ⟨r, { o with idlDoc := false }⟩ text e).result with
    | error fault =>
      have hresult' := hsame.result.trans hresult
      exact .inl ⟨_, renderWith_fault hl hresult, renderWith_fault hl hresult'⟩
    | ok u =>
      have hresult' := hsame.result.trans hresult
      rw [renderWith_ok (o := { o with idlDoc := false }) hl hresult,
        renderWith_ok (o := { o with idlDoc := true }) hl hresult']
      refine .inr ⟨indent, _, (layoutOf_ok.mp hl).1, rfl, ?_, hsame.events.lines indent 0⟩
      rw [renderingOf, hsame.events.warnings]
      rfl

/-- Documentation is all that its option controls, over the relationships of the model as well as
over any others. -/
theorem documentation_adds_blocks (o : Options) (header : Option (Option Template))
    (e : ElementId) :
    (∀ r, RenderRun.DocsOnly o (renderWith r { o with idlDoc := false } header e)
      (renderWith r { o with idlDoc := true } header e)) ∧
    ∀ m, RenderRun.DocsOnly o (render m { o with idlDoc := false } header e)
      (render m { o with idlDoc := true } header e) := by
  refine ⟨fun r => renderWith_docsOnly r o header e, fun m => ?_⟩
  unfold render
  cases Repository.around m e with
  | error fault => exact .inl ⟨_, rfl, rfl⟩
  | ok r => exact renderWith_docsOnly r o header e

end UmlSchema
