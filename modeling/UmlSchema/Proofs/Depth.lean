import UmlSchema.Proofs.Emission
import UmlSchema.Schema.Document

/-!
# Depth and warnings of declarations

Fields, operations, literals and warnings never move the depth of the writer, and each of them warns
about one matter only. A block moves the depth in and out again, so that every declaration that ends
well leaves the writer at the depth where it found it, and no line is more than one step further in.
A fault inside of a block does not go out again.
-/
namespace UmlSchema

open Emission

theorem plain_doc (enabled : Bool) (t : Text) : Plain [] (Emission.doc enabled t) := by
  intro v hv
  cases enabled with
  | false => cases hv
  | true =>
    obtain ⟨c, _, rfl⟩ := List.mem_map.mp hv
    simp

theorem plain_typeExpr (reporting : Reporting) (t m : Text) (s : Shown) :
    Plain [.unknownMultiplicity] (typeExpr reporting t m s) := by
  unfold typeExpr
  split
  · exact emits_pure _
  · cases reporting with
    | collected => exact (plain_warn _ _ _).bind fun _ => emits_pure _
    | logged => exact (emits_emit (by simp)).bind fun _ => emits_pure _

namespace Model

variable [Platform]

theorem plain_typeOf (m : Model) (reporting : Reporting) (e : ElementId) :
    Plain [.unknownMultiplicity] (m.typeOf reporting e) :=
  (emits_lift _).bind fun _ => (plain_typeExpr _ _ _ _).bind fun _ => emits_pure _

theorem plain_fieldText (m : Model) (e : ElementId) :
    Plain [.unknownMultiplicity] (m.fieldText e) :=
  (m.plain_typeOf _ e).bind fun _ => (emits_lift _).bind fun _ => (emits_lift _).bind fun _ =>
    (emits_lift _).bind fun _ => emits_pure _

theorem plain_fieldWrite (m : Model) (v : Value) :
    Plain [.unknownMultiplicity] (m.fieldWrite v) := by
  refine (emits_lift _).bind fun name => ?_
  split
  · split
    · exact emits_pure _
    · exact (m.plain_fieldText _).bind fun _ => Emits.guarded (emits_fail _) fun _ => emits_pure _
  · exact emits_pure _

end Model

namespace Repository

variable [Platform]

theorem plain_endWrite (r : Repository) (v : Value) (a : ElementId) (near far : Field) :
    Plain [.unknownMultiplicity] (r.endWrite v a near far) := by
  refine (emits_lift _).bind fun reference => ?_
  split
  · refine (emits_lift _).bind fun navigable => ?_
    split
    · exact (emits_lift _).bind fun _ => r.model.plain_fieldWrite _
    · exact emits_pure _
  · exact emits_pure _

theorem plain_associationWrites (r : Repository) (v : Value) (a : ElementId) :
    Plain [.unknownMultiplicity] (r.associationWrites v a) :=
  (r.plain_endWrite v a _ _).bind fun _ => (r.plain_endWrite v a _ _).bind fun _ => emits_pure _

theorem plain_ownWrites (r : Repository) (v : Value) :
    Plain [.unknownMultiplicity] (r.ownWrites v) :=
  Emits.guarded (emits_fail _) fun _ => (emits_lift _).bind fun _ =>
    (Emits.collect r.model.plain_fieldWrite).bind fun _ => (emits_lift _).bind fun _ =>
    (emits_lift _).bind fun _ => (plain_debug _ _).bind fun _ =>
    (Emits.collect (r.plain_associationWrites v)).bind fun _ => emits_pure _

theorem plain_writesOf (r : Repository) (order : List Value) :
    Plain [.unknownMultiplicity] (r.writesOf order) :=
  (Emits.collect r.plain_ownWrites).bind fun _ => emits_pure _

theorem plain_interfaceWrites (r : Repository) (v : Value) :
    Plain [.unknownMultiplicity] (r.interfaceWrites v) :=
  (emits_lift _).bind fun _ => r.plain_writesOf _

theorem plain_classWrites (r : Repository) (v : Value) :
    Plain [.unknownMultiplicity] (r.classWrites v) :=
  (emits_lift _).bind fun _ => (Emits.collect r.plain_interfaceWrites).bind fun _ =>
    (emits_lift _).bind fun _ => (r.plain_writesOf _).bind fun _ => emits_pure _

theorem plain_interfaceTable (r : Repository) (e : ElementId) :
    Plain [.unknownMultiplicity] (r.interfaceTable e) :=
  (r.plain_interfaceWrites _).bind fun _ => emits_pure _

theorem plain_classTable (r : Repository) (e : ElementId) :
    Plain [.unknownMultiplicity] (r.classTable e) :=
  (r.plain_classWrites _).bind fun _ => emits_pure _

end Repository

namespace Declarer

variable (d : Declarer)

theorem plain_docOf (v : Value) : Plain [] (d.docOf v) := by
  cases v with
  | text t => exact plain_doc _ t
  | absent | flag _ | ref _ | refs _ => exact emits_pure _

theorem plain_warnInText (k : WarningKind) (t : Text) (e : ElementId) :
    Plain [k] (d.warnInText k t e) :=
  (plain_warn _ _ _).bind fun _ => (plain_doc _ _).silent

theorem plain_checkName [Platform] (e : ElementId) : Plain [.invalidName] (d.checkName e) := by
  unfold checkName
  dsimp only
  split
  · exact emits_pure _
  · exact plain_warn _ _ _

theorem plain_fields (table : FieldTable) : Plain [] (d.fields table) :=
  Emits.each fun _ => (d.plain_docOf _).bind fun _ => (emits_lift _).bind fun _ => plain_line _

theorem plain_parameterTerm [Platform] (p : ElementId) :
    Plain [.unknownMultiplicity] (d.parameterTerm p) :=
  (d.model.plain_typeOf _ p).bind fun _ => (emits_lift _).bind fun _ => (emits_lift _).bind fun _ =>
    emits_pure _

theorem plain_resultClause [Platform] (p : Option ElementId) :
    Plain [.unknownMultiplicity] (d.resultClause p) := by
  cases p with
  | none => exact emits_pure _
  | some p =>
    exact (d.model.plain_typeOf _ p).bind fun _ => (emits_lift _).bind fun _ => emits_pure _

theorem plain_operation [Platform] (v : Value) : Plain [.unknownMultiplicity] (d.operation v) := by
  refine (emits_lift _).bind fun name => ?_
  split
  · split
    · exact emits_pure _
    · exact (emits_lift _).bind fun _ => (emits_lift _).bind fun _ => (emits_lift _).bind fun _ =>
        (plain_doc _ _).silent.bind fun _ => (Emits.collect d.plain_parameterTerm).bind fun _ =>
        (d.plain_resultClause _).bind fun _ => (emits_lift _).bind fun _ => plain_line _
  · exact emits_pure _

theorem plain_operations [Platform] (e : ElementId) :
    Plain [.unknownMultiplicity] (d.operations e) :=
  (emits_lift _).bind fun _ => (emits_lift _).bind fun _ =>
    Emits.each fun o => (d.plain_operation o).bind fun _ => plain_emptyLine

theorem plain_literal (v : Value) : Plain [] (d.literal v) := by
  refine (emits_lift _).bind fun _ => (emits_lift _).bind fun documentation =>
    Emits.bind ?_ fun _ => (emits_lift _).bind fun name => ?_
  · intro w hw
    obtain ⟨c, _, rfl⟩ := List.mem_map.mp hw
    simp
  · split
    · exact (emits_lift _).bind fun _ => plain_line _
    · exact plain_emptyLine

theorem plain_extendsTarget (e : ElementId) : Plain [.multipleInheritance] (d.extendsTarget e) :=
  (emits_lift _).bind fun _ => Emits.guarded (d.plain_warnInText _ _ _) fun _ => emits_pure _

theorem plain_ancestry (e : ElementId) : Plain [.multipleInheritance] (d.ancestry e) := by
  refine (emits_lift _).bind fun _ => (emits_lift _).bind fun _ =>
    (d.plain_extendsTarget e).bind fun parent => ?_
  split
  · exact emits_lift _
  · exact (emits_lift _).bind fun _ => emits_lift _

theorem plain_scalar [Platform] (e : ElementId) : Plain [.invalidName] (d.scalar e) :=
  (d.plain_checkName e).bind fun _ => (d.plain_docOf _).silent.bind fun _ => plain_line _

theorem plain_union [Platform] (e : ElementId) :
    Plain [.invalidName, .unionInheritance, .unionRealization, .unionOperations, .unionAttributes]
      (d.union e) := by
  refine ((d.plain_checkName e).mono (by simp)).bind fun _ => (emits_lift _).bind fun _ =>
    Emits.guarded ((d.plain_warnInText _ _ _).mono (by simp)) fun _ => (emits_lift _).bind fun _ =>
    Emits.guarded ((d.plain_warnInText _ _ _).mono (by simp)) fun _ => (emits_lift _).bind fun _ =>
    Emits.guarded ((d.plain_warnInText _ _ _).mono (by simp)) fun _ => (emits_lift _).bind fun _ =>
    Emits.guarded ((d.plain_warnInText _ _ _).mono (by simp)) fun _ =>
    (emits_lift _).bind fun members => Emits.guarded (plain_debug _ _) fun _ => ?_
  split
  · exact (d.plain_docOf _).silent.bind fun _ => (emits_lift _).bind fun _ =>
      (emits_lift _).bind fun _ => plain_line _
  · exact emits_pure _

theorem confined_block [Platform] (header : Text) {table : Emission FieldTable} (ht : Flat table)
    (e : ElementId) (i : Nat) : Confined (i + 1) i i (d.block header table e) :=
  ((flat_line _).outside i).bind fun _ =>
    (flat_emptyLine.outside i).bind fun _ => (confined_indent _ i).bind fun _ =>
    (ht.inside i).bind fun _ => ((d.plain_fields _).inside i).bind fun _ =>
    ((d.plain_operations e).inside i).bind fun _ => (confined_outdent _ i).bind fun _ =>
    (flat_line _).outside i

theorem warnsOf_block [Platform] (header : Text) {table : Emission FieldTable}
    (ht : WarnsOf [.unknownMultiplicity] table) (e : ElementId) :
    WarnsOf [.unknownMultiplicity] (d.block header table e) :=
  (plain_line _).warnsOf.bind fun _ => plain_emptyLine.warnsOf.bind fun _ =>
    (emits_emit (by simp)).bind fun _ => ht.bind fun _ =>
    (d.plain_fields _).silent.warnsOf.bind fun _ => (d.plain_operations e).warnsOf.bind fun _ =>
    (emits_emit (by simp)).bind fun _ => (plain_line _).warnsOf

theorem confined_enumeration [Platform] (e : ElementId) (i : Nat) :
    Confined (i + 1) i i (d.enumeration e) :=
  ((d.plain_checkName e).outside i).bind fun _ =>
    ((d.plain_docOf _).outside i).bind fun _ =>
    ((flat_line _).outside i).bind fun _ => (confined_indent _ i).bind fun _ =>
    ((flat_lift _).inside i).bind fun _ => ((flat_lift _).inside i).bind fun _ =>
    (Plain.inside (Emits.each d.plain_literal) i).bind fun _ =>
    (confined_outdent _ i).bind fun _ => (flat_line _).outside i

theorem confined_interface [Platform] (e : ElementId) (i : Nat) :
    Confined (i + 1) i i (d.interface e) := by
  have lift {α : Type} (x : Except ModelFault α) : Confined (i + 1) i i (liftM x : Emission α) :=
    (flat_lift x).outside i
  exact ((d.plain_checkName e).outside i).bind fun _ =>
    ((d.plain_docOf _).outside i).bind fun _ => (lift _).bind fun _ =>
    (lift _).bind fun _ => (lift _).bind fun _ => (lift _).bind fun _ =>
    d.confined_block _ (d.repository.plain_interfaceTable e).flat e i

theorem object_eq [Platform] (keyword : Text) (e : ElementId) : d.object keyword e = (do
    (if keyword ≠ "schema" then d.checkName e else pure ())
    d.docOf (d.element e).documentation
    let ancestry ← (if keyword = "type" then d.ancestry e else pure [] : Emission Text)
    d.block ((if keyword = "schema" then keyword else keyword ++ " " ++ (d.nameOf e).text) ++
      ancestry)
      (d.repository.classTable e) e) := by
  unfold object
  dsimp only
  split <;> split <;> rfl

theorem plain_nameCheck [Platform] (keyword : Text) (e : ElementId) :
    Plain [.invalidName] (if keyword ≠ "schema" then d.checkName e else pure ()) := by
  split
  · exact d.plain_checkName e
  · exact emits_pure _

theorem plain_head (keyword : Text) (e : ElementId) : Plain [.multipleInheritance]
    (if keyword = "type" then d.ancestry e else pure [] : Emission Text) := by
  split
  · exact d.plain_ancestry e
  · exact emits_pure _

theorem confined_object [Platform] (keyword : Text) (e : ElementId) (i : Nat) :
    Confined (i + 1) i i (d.object keyword e) := by
  rw [object_eq]
  exact ((d.plain_nameCheck keyword e).outside i).bind fun _ =>
    ((d.plain_docOf _).outside i).bind fun _ => ((d.plain_head keyword e).outside i).bind fun _ =>
    d.confined_block _ (d.repository.plain_classTable e).flat e i

theorem confined_klass [Platform] (e : ElementId) (i : Nat) : Confined (i + 1) i i (d.klass e) := by
  refine ((flat_lift _).outside i).bind fun form => ?_
  split
  · exact (d.plain_union e).outside i
  · exact d.confined_object _ e i

theorem plain_trace (what : String) (e : ElementId) : Plain [] (d.trace what e) := by
  unfold trace
  split
  · exact plain_debug _ _
  · exact emits_pure _

theorem plain_traceNothing (what : Text) : Plain [] (d.traceNothing what) := by
  unfold traceNothing
  split
  · exact plain_debug _ _
  · exact emits_pure _

/-- A declaration writes at its own depth and one step further in. If it ends well, it leaves the
depth as it was. -/
theorem confined_single [Platform] (e : ElementId) (i : Nat) :
    Confined (i + 1) i i (d.single e) := by
  have trace (what : String) : Confined (i + 1) i i (d.trace what e) :=
    (d.plain_trace what e).outside i
  have last : Confined (i + 1) i i emptyLine := flat_emptyLine.outside i
  unfold single
  split
  · split
    · exact (trace _).bind fun _ => (d.confined_klass e i).bind fun _ => last
    · exact (flat_pure _).outside i
  · exact (trace _).bind fun _ => ((d.plain_scalar e).outside i).bind fun _ => last
  · exact (trace _).bind fun _ => (d.confined_interface e i).bind fun _ => last
  · exact (trace _).bind fun _ => (d.confined_enumeration e i).bind fun _ => last
  · exact (d.plain_traceNothing _).outside i

end Declarer

end UmlSchema
