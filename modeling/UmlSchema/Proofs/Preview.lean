import UmlSchema.Platform.Usual
import UmlSchema.Proofs.Declared

/-!
# Documents and previews

A preview renders one element with a repository, a writer and a collector of warnings of its own; a
document renders all that a package holds with shared ones. Both agree: no declaration leaves
anything behind that the next one could see.
-/
namespace UmlSchema

def RenderRun.lines (indent : Text) (run : RenderRun) : List Text :=
  (placedLines 0 run.events).map (PlacedLine.render indent)

def RenderRun.warnings (run : RenderRun) : List Warning := warningsOf run.events

def headerBlock (o : Options) (text : Text) : List Text := if o.idlDoc then docBlock text else []

theorem around_model {m : Model} {e : ElementId} {r : Repository}
    (h : Repository.around m e = .ok r) : r.model = m := by
  obtain ⟨root, _, h⟩ := except_bind_ok.mp h
  obtain ⟨walked, _, h⟩ := except_bind_ok.mp h
  cases h
  rfl

theorem headerOf_some {m : Model} {e root : ElementId} (hroot : m.root e = .ok root)
    (template : Option Template) :
    headerOf m e (some template) = ((headerText template m root).map some).mapError .header := by
  simp only [headerOf, hroot, Except.mapError, except_ok_bind]
  cases headerText template m root with
  | error fault => rfl
  | ok text => rfl

theorem headerOf_some_ok {m : Model} {e root : ElementId} (hroot : m.root e = .ok root)
    {template : Option Template} {text : Option Text} :
    headerOf m e (some template) = .ok text ↔
      ∃ made, headerText template m root = .ok made ∧ text = some made := by
  rw [headerOf_some hroot]
  cases headerText template m root with
  | error fault => simp [Except.map, Except.mapError]
  | ok made => simp [Except.map, Except.mapError, eq_comm]

section

variable [Platform] {m : Model} {o : Options} {header : Option (Option Template)} {e : ElementId}

theorem layoutOf_ok {indent : Text} {text : Option Text} :
    layoutOf m o header e = .ok (indent, text) ↔
      o.indentString = .ok indent ∧ headerOf m e header = .ok text := by
  unfold layoutOf
  cases o.indentString with
  | error fault => simp only [Except.mapError, except_error_bind, reduceCtorEq, false_and]
  | ok indent' =>
    simp only [Except.mapError, except_ok_bind]
    cases headerOf m e header with
    | error fault => simp only [except_error_bind, reduceCtorEq, and_false]
    | ok text' => simp [except_ok_bind, pure, Except.pure]

theorem layoutOf_noIndent {fault : IndentFault} (hi : o.indentString = .error fault) :
    layoutOf m o header e = .error (.indentation fault) := by
  rw [layoutOf, hi]
  rfl

theorem layoutOf_noHeader {indent : Text} {fault : RenderFault}
    (hi : o.indentString = .ok indent) (hh : headerOf m e header = .error fault) :
    layoutOf m o header e = .error fault := by
  rw [layoutOf, hi, hh]
  rfl

theorem renderWith_noLayout {r : Repository} {fault : RenderFault}
    (hl : layoutOf r.model o header e = .error fault) :
    (renderWith r o header e).result = .error fault := by
  rw [renderWith, hl]

theorem renderWith_fault {r : Repository} {indent : Text} {text : Option Text} {fault : ModelFault}
    (hl : layoutOf r.model o header e = .ok (indent, text))
    (hd : (documentEvents ⟨r, o⟩ text e).result = .error fault) :
    (renderWith r o header e).result = .error (.model fault) := by
  simp [renderWith, hl, hd]

theorem renderWith_ok {r : Repository} {indent : Text} {text : Option Text}
    (hl : layoutOf r.model o header e = .ok (indent, text))
    (hd : (documentEvents ⟨r, o⟩ text e).result = .ok ()) :
    renderWith r o header e = ⟨(documentEvents ⟨r, o⟩ text e).events,
      .ok (renderingOf indent (documentEvents ⟨r, o⟩ text e).events)⟩ := by
  simp [renderWith, hl, hd]

theorem renderWith_result {r : Repository} {R : Rendering} :
    (renderWith r o header e).result = .ok R ↔
      ∃ indent text, layoutOf r.model o header e = .ok (indent, text) ∧
        (documentEvents ⟨r, o⟩ text e).result = .ok () ∧
        R = renderingOf indent (documentEvents ⟨r, o⟩ text e).events := by
  constructor
  · intro h
    cases hl : layoutOf r.model o header e with
    | error fault =>
      rw [renderWith_noLayout hl] at h
      cases h
    | ok layout =>
      obtain ⟨indent, text⟩ := layout
      cases hd : (documentEvents ⟨r, o⟩ text e).result with
      | error fault =>
        rw [renderWith_fault hl hd] at h
        cases h
      | ok u =>
        rw [renderWith_ok hl hd] at h
        exact ⟨indent, text, rfl, hd, (Except.ok.inj h).symm⟩
  · rintro ⟨indent, text, hl, hd, rfl⟩
    rw [renderWith_ok hl hd]

theorem render_ok {R : Rendering} : (render m o header e).result = .ok R ↔
    ∃ r indent text, Repository.around m e = .ok r ∧ layoutOf m o header e = .ok (indent, text) ∧
      (documentEvents ⟨r, o⟩ text e).result = .ok () ∧
      R = renderingOf indent (documentEvents ⟨r, o⟩ text e).events := by
  unfold render
  cases hr : Repository.around m e with
  | error fault => simp
  | ok r =>
    dsimp only
    rw [renderWith_result, around_model hr]
    constructor
    · rintro ⟨indent, text, h⟩
      exact ⟨r, indent, text, rfl, h⟩
    · rintro ⟨r', indent, text, hr', h⟩
      cases hr'
      exact ⟨indent, text, h⟩

theorem render_events {r : Repository} {indent : Text} {text : Option Text}
    (hr : Repository.around m e = .ok r) (hl : layoutOf m o header e = .ok (indent, text)) :
    (render m o header e).events = (documentEvents ⟨r, o⟩ text e).events := by
  simp [render, renderWith, hr, around_model hr, hl]

theorem render_result {r : Repository} {indent : Text} {text : Option Text}
    (hr : Repository.around m e = .ok r) (hl : layoutOf m o header e = .ok (indent, text))
    (hok : (documentEvents ⟨r, o⟩ text e).result = .ok ()) :
    (render m o header e).result =
      .ok ⟨Text.unlines ((render m o header e).lines indent), (render m o header e).warnings⟩ := by
  rw [render_ok]
  refine ⟨r, indent, text, hr, hl, hok, ?_⟩
  rw [RenderRun.lines, RenderRun.warnings, render_events hr hl]
  rfl

end

theorem placedLines_flatMap {α : Type} {f : α → List Event} {xs : List α}
    (h : ∀ x ∈ xs, depthAfter 0 (f x) = 0) :
    placedLines 0 (xs.flatMap f) = xs.flatMap fun x => placedLines 0 (f x) := by
  induction xs with
  | nil => rfl
  | cons x xs ih =>
    have hx := h x List.mem_cons_self
    have hxs := ih fun y hy => h y (List.mem_cons_of_mem _ hy)
    rw [List.flatMap_cons, placedLines_append, hx, hxs, List.flatMap_cons]

theorem render_top (indent : Text) (c : Text) : PlacedLine.render indent ⟨0, c⟩ = c := by
  cases c <;> rfl

theorem declare_lines [Platform] {d : Declarer} (h : d.model.OwnedLists) {e : ElementId}
    (hok : (d.declare e).result = .ok ()) :
    placedLines 0 (d.declare e).events =
      (d.model.declaredBelow e).flatMap (fun x => placedLines 0 (d.single x).events) ∧
    warningsOf (d.declare e).events =
      (d.model.declaredBelow e).flatMap (fun x => warningsOf (d.single x).events) := by
  have hsingle := (d.declareWithin_ok h _ e).mp hok
  rw [Declarer.declare, d.declareWithin_events h hok, Model.declaredBelow]
  constructor
  · rw [placedLines_flatMap fun x hx => (d.confined_single x 0).takes () (hsingle x hx)]
    exact flatMap_filter_of_nil fun x _ hx => (d.single_undeclared hx).2.1
  · rw [warningsOf, List.filterMap_flatMap]
    exact flatMap_filter_of_nil fun x _ hx => (d.single_undeclared hx).2.2

theorem declare_single [Platform] {d : Declarer} {e : ElementId}
    (hc : Declarer.isContainer (d.model.element e) = false) : d.declare e = d.single e :=
  d.declareWithin_other hc

theorem documentEvents_none [Platform] (d : Declarer) (e : ElementId) :
    documentEvents d none e = d.declare e := rfl

theorem documentEvents_header [Platform] (d : Declarer) (text : Text) (e : ElementId) :
    (documentEvents d (some text) e).result = (d.declare e).result ∧
    (documentEvents d (some text) e).events =
      (Emission.doc d.options.idlDoc text).events ++ .line [] :: (d.declare e).events := by
  have hheader : d.header text =
      ⟨(Emission.doc d.options.idlDoc text).events ++ [.line []], .ok ()⟩ := rfl
  have hsplit : documentEvents d (some text) e = d.header text >>= fun _ => d.declare e := rfl
  rw [hsplit, hheader]
  constructor
  · rfl
  · rw [Emission.bind_events rfl]
    simp

theorem doc_lines (enabled : Bool) (t : Text) :
    placedLines 0 (Emission.doc enabled t).events =
      (if enabled then docBlock t else []).map (PlacedLine.mk 0) ∧
    depthAfter 0 (Emission.doc enabled t).events = 0 ∧
    warningsOf (Emission.doc enabled t).events = [] := by
  have lines (ls : List Text) : placedLines 0 (ls.map Event.line) = ls.map (PlacedLine.mk 0) ∧
      depthAfter 0 (ls.map Event.line) = 0 ∧ warningsOf (ls.map Event.line) = [] := by
    induction ls with
    | nil => exact ⟨rfl, rfl, rfl⟩
    | cons l ls ih => simpa [placedLines, depthAfter, warningsOf, Event.warning?] using ih
  cases enabled with
  | true => exact lines (docBlock t)
  | false => exact lines []

/-- The lines and the warnings of a document are those of the previews of its declared elements, in
document order. Declared are exactly the concrete classes, interfaces, enumerations and primitive
types that are held through containers alone. A header comes before the lines with one empty line,
and changes no warning; a template that makes no header is a fault. -/
theorem document_joins_previews [Platform] {j : Json} {doc : Document} {o : Options} {p : ElementId}
    {R : Rendering} (hread : Document.ofJson j = .ok doc) (hp : p < doc.model.size)
    (hR : (render doc.model o none p).result = .ok R) :
    ∃ indent, o.indentString = .ok indent ∧
      (∀ d, d ∈ doc.model.declaredBelow p ↔
        doc.model.Holds p d ∧ (doc.model.element d).isDeclared = true) ∧
      (∀ d ∈ doc.model.declaredBelow p, (render doc.model o none d).result =
        .ok ⟨Text.unlines ((render doc.model o none d).lines indent),
          (render doc.model o none d).warnings⟩) ∧
      R.text = Text.unlines ((render doc.model o none p).lines indent) ∧
      (render doc.model o none p).lines indent =
        (doc.model.declaredBelow p).flatMap (fun d => (render doc.model o none d).lines indent) ∧
      R.warnings =
        (doc.model.declaredBelow p).flatMap (fun d => (render doc.model o none d).warnings) ∧
      ∀ template,
        (∀ text, headerText template doc.model doc.root = .ok text →
          (render doc.model o (some template) p).lines indent =
            headerBlock o text ++ [] :: (render doc.model o none p).lines indent ∧
          (render doc.model o (some template) p).result =
            .ok ⟨Text.unlines ((render doc.model o (some template) p).lines indent),
              R.warnings⟩) ∧
        ∀ fault, headerText template doc.model doc.root = .error fault →
          (render doc.model o (some template) p).result = .error (.header fault) := by
  have hnested := Document.nested_of_ofJson hread
  obtain ⟨hzero, -⟩ := Document.ofJson_parts hread
  obtain ⟨r, indent, text, hr, hl, hok, rfl⟩ := render_ok.mp hR
  obtain ⟨hi, hnone⟩ := layoutOf_ok.mp hl
  cases hnone
  have hmodel := around_model hr
  generalize hm : doc.model = m at *
  subst hmodel
  have hlists := hnested.ownedLists
  -- Every element has the root zero, and so the same relationships around it.
  have haround {x : Nat} (hx : x < r.model.size) : Repository.around r.model x = .ok r := by
    rw [← hr]
    simp only [Repository.around, hnested.root_eq hx, hnested.root_eq hp]
  rw [documentEvents_none] at hok
  have hmem (x : Nat) := hnested.mem_declaredBelow (e := p) (x := x) hp
  have hpreview : ∀ x ∈ r.model.declaredBelow p, Repository.around r.model x = .ok r ∧
      documentEvents ⟨r, o⟩ none x = (⟨r, o⟩ : Declarer).single x := by
    intro x hx
    have hlt := hnested.holds_lt hp ((hmem x).mp hx).1
    have hnot := Model.not_container_of_mem_found (List.mem_of_mem_filter hx)
    exact ⟨haround hlt, declare_single hnot⟩
  have hevents : ∀ x ∈ r.model.declaredBelow p,
      (render r.model o none x).events = ((⟨r, o⟩ : Declarer).single x).events := by
    intro x hx
    obtain ⟨hx, hsingle⟩ := hpreview x hx
    rw [render_events hx (layoutOf_ok.mpr ⟨hi, rfl⟩), hsingle]
  obtain ⟨hlines, hwarnings⟩ := declare_lines (d := ⟨r, o⟩) hlists hok
  have hself : (render r.model o none p).events = ((⟨r, o⟩ : Declarer).declare p).events :=
    render_events hr hl
  refine ⟨indent, hi, hmem, fun x hx => ?_, ?_, ?_, ?_, fun template => ?_⟩
  · obtain ⟨hx', hsingle⟩ := hpreview x hx
    refine render_result hx' (layoutOf_ok.mpr ⟨hi, rfl⟩) ?_
    rw [hsingle]
    exact ((⟨r, o⟩ : Declarer).declare_ok hlists p).mp hok x hx
  · rw [RenderRun.lines, hself]
    rfl
  · rw [RenderRun.lines, hself, hlines, List.map_flatMap]
    apply List.flatMap_congr
    intro x hx
    rw [RenderRun.lines, hevents x hx]
  · rw [show (renderingOf indent (documentEvents ⟨r, o⟩ none p).events).warnings =
      warningsOf ((⟨r, o⟩ : Declarer).declare p).events from rfl, hwarnings]
    apply List.flatMap_congr
    intro x hx
    rw [RenderRun.warnings, hevents x hx]
  · have hroot : r.model.root p = .ok doc.root := by
      rw [hzero]
      exact hnested.root_eq hp
    have hof := headerOf_some hroot template
    refine ⟨fun text htext => ?_, fun fault hfault => ?_⟩
    · rw [htext] at hof
      have hl' := layoutOf_ok.mpr ⟨hi, hof⟩
      obtain ⟨hresult, hheader⟩ := documentEvents_header ⟨r, o⟩ text p
      obtain ⟨hdoc, hdepth, hnone⟩ := doc_lines o.idlDoc text
      have hrun : (render r.model o (some template) p).events =
          (Emission.doc o.idlDoc text).events ++ .line [] :: (render r.model o none p).events := by
        rw [render_events hr hl', hself]
        exact hheader
      constructor
      · rw [RenderRun.lines, hrun, placedLines_append, hdepth, hdoc]
        simp [placedLines, headerBlock, RenderRun.lines, render_top, Function.comp_def]
      · rw [render_result hr hl' (hresult.trans hok), RenderRun.warnings, hrun, warningsOf_append,
          hnone, hself]
        rfl
    · rw [hfault] at hof
      rw [render, hr]
      exact renderWith_noLayout (layoutOf_noHeader hi hof)

def plainNode (kind name : String) (owned : List Json) (more : List (Text × Json)) : Json :=
  .obj ([(Text.ofString "_type", .str kind), (Text.ofString "name", .str name),
    (Text.ofString "ownedElements", .arr owned)] ++ more)

/-- A package in a project, with an abstract class, a class inside of another one and a
generalization between no elements; an enumeration after it. -/
def nestedShop : Json :=
  plainNode "Project" "Shop"
    [plainNode "UMLPackage" "core"
      [plainNode "UMLClass" "Base" [] [(Text.ofString "isAbstract", .bool true)],
       plainNode "UMLClass" "Item" [plainNode "UMLClass" "Hidden" [] []] [],
       plainNode "UMLGeneralization" "" [] []] [],
     plainNode "UMLEnumeration" "Color" [] []] []

attribute [local instance] Platform.usual

theorem nestedShop_joins_previews :
    ∃ doc R indent, Document.ofJson nestedShop = .ok doc ∧ doc.root < doc.model.size ∧
      (render doc.model {} none doc.root).result = .ok R ∧
      doc.model.declaredBelow doc.root = [3, 6] ∧
      (render doc.model {} none doc.root).lines indent =
        [3, 6].flatMap (fun d => (render doc.model {} none d).lines indent) := by
  have h : (match Document.ofJson nestedShop with
      | .ok doc => decide (doc.root < doc.model.size ∧ doc.model.declaredBelow doc.root = [3, 6]) &&
          (render doc.model {} none doc.root).result.toOption.isSome
      | .error _ => false) = true := by decide +kernel
  cases hread : Document.ofJson nestedShop with
  | error fault => simp [hread] at h
  | ok doc =>
    simp only [hread, Bool.and_eq_true, decide_eq_true_eq] at h
    obtain ⟨⟨hroot, hdeclared⟩, hresult⟩ := h
    cases hR : (render doc.model {} none doc.root).result with
    | error fault => simp [hR, Except.toOption] at hresult
    | ok R =>
      obtain ⟨indent, _, _, _, _, hlines, _⟩ := document_joins_previews hread hroot hR
      rw [hdeclared] at hlines
      exact ⟨doc, R, indent, rfl, hroot, hR, hdeclared, hlines⟩

end UmlSchema
