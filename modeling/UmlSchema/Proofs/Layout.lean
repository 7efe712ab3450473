import UmlSchema.Platform.Usual
import UmlSchema.Proofs.Reproduction

/-!
# What layout options change

Indentation and tracing are settled after all lines are known. One list of lines, each at depth zero
or one, gives the text under every choice of these options. Every declaration starts and ends at
depth zero, because no call of a declarer that ends well moves the depth.
-/
namespace UmlSchema

open Emission

namespace Emission

theorem Confined.each {α : Type} {n i : Nat} {xs : List α} {f : α → Emission Unit} (hi : i ≤ n)
    (hf : ∀ x, Confined n i i (f x)) : Confined n i i (each xs f) := by
  induction xs with
  | nil => exact (flat_pure ()).confined hi
  | cons x xs ih => exact (hf x).bind fun _ => ih

end Emission

theorem depthAfter_unlogged (n : Nat) (events : List Event) :
    depthAfter n (unlogged events) = depthAfter n events := by
  induction events generalizing n with
  | nil => rfl
  | cons v events ih => cases v <;> exact ih _

namespace Declarer

inductive Call where
  | doc (v : Value)
  | warn (k : WarningKind) (message : Text) (e : ElementId)
  | checkName (e : ElementId)
  | fields (table : FieldTable)
  | operation (v : Value)
  | operations (e : ElementId)
  | enumeration (e : ElementId)
  | scalar (e : ElementId)
  | interface (e : ElementId)
  | klass (e : ElementId)
  | object (keyword : Text) (e : ElementId)
  | union (e : ElementId)
  | extendsTarget (e : ElementId)

def perform [Platform] (d : Declarer) : Call → Emission Unit
  | .doc v => d.docOf v
  | .warn k message e => d.warnInText k message e
  | .checkName e => d.checkName e
  | .fields table => d.fields table
  | .operation v => d.operation v
  | .operations e => d.operations e
  | .enumeration e => d.enumeration e
  | .scalar e => d.scalar e
  | .interface e => d.interface e
  | .klass e => d.klass e
  | .object keyword e => d.object keyword e
  | .union e => d.union e
  | .extendsTarget e => do let _ ← d.extendsTarget e

variable (d : Declarer)

theorem confined_perform [Platform] (call : Call) (i : Nat) :
    Confined (i + 1) i i (d.perform call) := by
  cases call with
  | doc v => exact (d.plain_docOf v).outside i
  | warn k message e => exact (d.plain_warnInText k message e).outside i
  | checkName e => exact (d.plain_checkName e).outside i
  | fields table => exact (d.plain_fields table).outside i
  | operation v => exact (d.plain_operation v).outside i
  | operations e => exact (d.plain_operations e).outside i
  | enumeration e => exact d.confined_enumeration e i
  | scalar e => exact (d.plain_scalar e).outside i
  | interface e => exact d.confined_interface e i
  | klass e => exact d.confined_klass e i
  | object keyword e => exact d.confined_object keyword e i
  | union e => exact (d.plain_union e).outside i
  | extendsTarget e => exact Plain.outside ((d.plain_extendsTarget e).bind fun _ => emits_pure _) i

theorem confined_declareWithin [Platform] (n : Nat) (v : Value) :
    Confined 1 0 0 (d.declareWithin n v) := by
  induction n generalizing v with
  | zero => exact (flat_pure _).outside 0
  | succ n ih =>
    cases v with
    | ref e =>
      rw [declareWithin]
      split
      · exact ((flat_lift _).outside 0).bind fun _ => Confined.each (Nat.zero_le 1) ih
      · exact d.confined_single e 0
    | absent | flag _ | text _ | refs _ => exact (d.plain_traceNothing _).outside 0

theorem confined_header (text : Text) : Confined 1 0 0 (d.header text) :=
  ((plain_doc _ _).outside 0).bind fun _ => flat_emptyLine.outside 0

theorem unlogged_letter [Platform] (n : Nat) (t : Text) :
    unlogged (d.declareWithin n (.text t)).events = [] := by
  cases n with
  | zero => rfl
  | succ n => exact (d.traceNothing_silent _).2

theorem declareWithin_unlogged [Platform] {n : Nat} {e : ElementId}
    (h : (d.declareWithin n (.ref e)).result = .ok ()) :
    (∀ x ∈ d.model.foundWithin n e, (d.single x).result = .ok ()) ∧
      unlogged (d.declareWithin n (.ref e)).events =
        (d.model.foundWithin n e).flatMap fun x => unlogged (d.single x).events := by
  induction n generalizing e with
  | zero => exact ⟨by simp [Model.foundWithin], rfl⟩
  | succ n ih =>
    cases hc : isContainer (d.model.element e) with
    | false =>
      rw [d.declareWithin_other hc] at h ⊢
      simp [Model.foundWithin, hc, h]
    | true =>
      have hcontainer : isContainer (d.element e) = true := hc
      rw [declareWithin, if_pos hcontainer] at h ⊢
      obtain ⟨vs, hvs, h⟩ := bind_ok.mp h
      have hall := each_ok.mp h
      rw [lift_result] at hvs
      rw [hvs, lift_ok_bind, each_events hall, unlogged, List.filter_flatMap, Model.foundWithin,
        if_pos hc, Model.ownedIds]
      cases howned : (d.model.element e).owned with
      | refs es =>
        have hes : vs = es.map .ref := by
          rw [show (d.element e).owned = .refs es from howned] at hvs
          exact (Except.ok.inj hvs).symm
        subst hes
        rw [List.flatMap_map, List.flatMap_assoc]
        have hmem {c : ElementId} (hc : c ∈ es) := ih (hall _ (List.mem_map_of_mem hc))
        constructor
        · intro x hx
          obtain ⟨c, hc, hx⟩ := List.mem_flatMap.mp hx
          exact (hmem hc).1 x hx
        · exact List.flatMap_congr fun c hc => (hmem hc).2
      | text t =>
        have hletters : vs = t.map fun c => .text [c] := by
          rw [show (d.element e).owned = .text t from howned] at hvs
          exact (Except.ok.inj hvs).symm
        have hnothing (c : CodePoint) := d.unlogged_letter n [c]
        subst hletters
        unfold unlogged at hnothing
        simp [List.flatMap_map, hnothing]
      | absent | flag _ | ref _ =>
        rw [show (d.element e).owned = _ from howned] at hvs
        cases hvs

theorem declareWithin_lines [Platform] {n : Nat} {e : ElementId}
    (h : (d.declareWithin n (.ref e)).result = .ok ()) :
    (∀ x ∈ d.model.foundWithin n e, (d.single x).result = .ok ()) ∧
      placedLines 0 (d.declareWithin n (.ref e)).events =
        (d.model.foundWithin n e).flatMap fun x => placedLines 0 (d.single x).events := by
  obtain ⟨hsingle, hevents⟩ := d.declareWithin_unlogged h
  refine ⟨hsingle, ?_⟩
  rw [← placedLines_unlogged, hevents, placedLines_flatMap]
  · simp only [placedLines_unlogged]
  · intro x hx
    rw [depthAfter_unlogged]
    exact (d.confined_single x 0).takes () (hsingle x hx)

end Declarer

/-- The lines of a header, and the empty line after it. -/
def headerLines (o : Options) (m : Model) (root : ElementId)
    (header : Option (Option Template)) : List Text :=
  match header.bind fun template => (headerText template m root).toOption with
  | none => []
  | some text => headerBlock o text ++ [[]]

theorem document_lines [Platform] {d : Declarer} {header : Option (Option Template)}
    {e root : ElementId} {text : Option Text} (hroot : d.model.root e = .ok root)
    (htext : headerOf d.model e header = .ok text)
    (h : (documentEvents d text e).result = .ok ()) :
    (∀ x ∈ d.model.foundWithin (d.model.size + 1) e, (d.single x).result = .ok ()) ∧
      placedLines 0 (documentEvents d text e).events =
        (headerLines d.options d.model root header).map (PlacedLine.mk 0) ++
          (d.model.foundWithin (d.model.size + 1) e).flatMap fun x =>
            placedLines 0 (d.single x).events := by
  cases header with
  | none =>
    cases htext
    exact d.declareWithin_lines h
  | some template =>
    obtain ⟨made, hmade, rfl⟩ := (headerOf_some_ok hroot).mp htext
    obtain ⟨hresult, hevents⟩ := documentEvents_header d made e
    obtain ⟨hdoc, hdepth, -⟩ := doc_lines d.options.idlDoc made
    rw [hresult] at h
    obtain ⟨hsingle, hlines⟩ := d.declareWithin_lines h
    have hheader : headerLines d.options d.model root (some template) =
        headerBlock d.options made ++ [[]] := by
      rw [headerLines, Option.bind_some, hmade]
      rfl
    refine ⟨hsingle, ?_⟩
    rw [hevents, placedLines_append, hdepth, hdoc, placedLines, ← hlines, hheader, headerBlock,
      List.map_append, List.append_assoc]
    rfl

theorem documentEvents_confined [Platform] (d : Declarer) (header : Option Text) (e : ElementId) :
    Confined 1 0 0 (documentEvents d header e) := by
  cases header with
  | none => exact d.confined_declareWithin _ _
  | some text => exact (d.confined_header text).bind fun _ => d.confined_declareWithin _ _

theorem Declarer.mirrors_of_idlDoc [Platform] {r : Repository} {o o' : Options}
    (h : o'.idlDoc = o.idlDoc) : Mirrors ⟨r, o⟩ ⟨r, o'⟩ :=
  ⟨⟨.refl _, fun _ _ _ _ h => h, fun _ => .refl _⟩, h⟩

theorem renderLines_eq (indent : Text) (lines : List PlacedLine) :
    renderLines indent lines = Text.unlines (lines.map fun l =>
      if l.content = [] then [] else indent.repeated l.depth ++ l.content) := by
  refine congrArg Text.unlines (List.map_congr_left fun l _ => ?_)
  simp only [PlacedLine.render, List.isEmpty_iff]

/-- A rendering that comes to a result is one list of lines and one of warnings, whatever the
indentation and the tracing are; only an indentation that no text can have is a fault. The lines
stand at depth zero or one, and those of a declaration start and end at depth zero, as all that a
declarer is asked to do. -/
theorem layout_options_only [Platform] {m : Model} {o₀ : Options}
    {header : Option (Option Template)} {e : ElementId} {R : Rendering}
    (h : (render m o₀ header e).result = .ok R) :
    ∃ r root lines warnings, Repository.around m e = .ok r ∧ m.root e = .ok root ∧
      (∀ l ∈ lines, l.depth ≤ 1) ∧
      (∀ o : Options, o.idlDoc = o₀.idlDoc → (render m o header e).result =
        (o.indentString.map fun indent => Rendering.mk (Text.unlines (lines.map fun l =>
          if l.content = [] then [] else indent.repeated l.depth ++ l.content)) warnings).mapError
            RenderFault.indentation) ∧
      lines = (headerLines o₀ m root header).map (PlacedLine.mk 0) ++
        (m.foundWithin (m.size + 1) e).flatMap (fun x =>
          placedLines 0 (Declarer.single ⟨r, o₀⟩ x).events) ∧
      (∀ x ∈ m.foundWithin (m.size + 1) e, (Declarer.single ⟨r, o₀⟩ x).result = .ok () ∧
        depthAfter 0 (Declarer.single ⟨r, o₀⟩ x).events = 0) ∧
      ∀ (d : Declarer) (call : Declarer.Call) (i : Nat), Takes i i (d.perform call) := by
  obtain ⟨r, indent₀, text, hr, hl, hok, -⟩ := render_ok.mp h
  have htext := (layoutOf_ok.mp hl).2
  obtain ⟨root, hroot, -⟩ := except_bind_ok.mp hr
  have hmodel := around_model hr
  subst hmodel
  obtain ⟨hsingle, hlines⟩ := document_lines (d := ⟨r, o₀⟩) hroot htext hok
  refine ⟨r, root, _, warningsOf (documentEvents ⟨r, o₀⟩ text e).events, hr, hroot,
    (documentEvents_confined ⟨r, o₀⟩ text e).lines, ?_, hlines, ?_, ?_⟩
  · intro o ho
    rw [render, hr]
    cases hi : o.indentString with
    | error fault => exact renderWith_noLayout (layoutOf_noIndent hi)
    | ok indent =>
      obtain ⟨hok', hevents⟩ := documentEvents_mirrors (Declarer.mirrors_of_idlDoc ho) text e () hok
      dsimp only
      rw [renderWith_ok (layoutOf_ok.mpr ⟨hi, htext⟩) hok', renderingOf_congr indent hevents,
        renderingOf, renderLines_eq]
      rfl
  · intro x hx
    exact ⟨hsingle x hx, (Declarer.confined_single ⟨r, o₀⟩ x 0).takes () (hsingle x hx)⟩
  · exact fun d call i => (d.confined_perform call i).takes

/-- A class with one attribute and a name that is not accepted. -/
def plainItem : Model where
  elements := #[.given .klass [(.name, .text "1Item"), (.attributes, .refs [1]),
      (.documentation, .text "An item.")],
    .given .property [(.name, .text "id"), (.type, .text "Int")]]

attribute [local instance] Platform.usual

theorem plainItem_layout :
    ∃ lines warnings, (∀ l ∈ lines, l.depth ≤ 1) ∧ warnings.length = 1 ∧
      (render plainItem { useTab := true, debug := true } (some none) 0).result =
        .ok ⟨renderLines [.scalar '\t'] lines, warnings⟩ ∧
      (render plainItem { indentSpaces := 0 } (some none) 0).result =
        .ok ⟨renderLines [] lines, warnings⟩ := by
  have hlength : (render plainItem {} (some none) 0).result.toOption.map
      (·.warnings.length) = some 1 := by decide +kernel
  obtain ⟨R, hR, hone⟩ := Option.map_eq_some_iff.mp hlength
  obtain ⟨r, root, lines, warnings, -, -, hdepth, hall, -⟩ :=
    layout_options_only (ok_of_toOption hR)
  have hself := hall {} rfl
  rw [ok_of_toOption hR] at hself
  cases hself
  refine ⟨lines, warnings, hdepth, hone, ?_, ?_⟩
  · rw [hall { useTab := true, debug := true } rfl, renderLines_eq]
    rfl
  · rw [hall { indentSpaces := 0 } rfl, renderLines_eq]
    rfl

end UmlSchema
