import UmlSchema.Proofs.Inflection
import UmlSchema.Proofs.Queries
import UmlSchema.Schema.FieldTable

/-!
# Well-kinded models

Models whose fields hold what they are declared to hold. A source, a target or a reference may be
absent. In such a model all queries have answers, and all texts of fields can be written; only the
name of a field may be missing.
-/
namespace UmlSchema

/-- What a field is declared to hold. -/
inductive FieldSort where
  | text
  | flag
  | list (kind : Kind)
  | single (kind : Kind)
  | optional
  /-- An element, a text or nothing. -/
  | typeName
  deriving DecidableEq, Repr

def Field.sort : Field → FieldSort
  | .name | .documentation | .value | .specification | .version | .author | .copyright
  | .multiplicity | .defaultValue | .direction | .stereotype => .text
  | .isAbstract | .navigable => .flag
  | .tags => .list .tag
  | .owned => .list .element
  | .literals => .list .enumerationLiteral
  | .parameters => .list .parameter
  | .attributes => .list .property
  | .operations => .list .operation
  | .end1 | .end2 => .single .associationEnd
  | .parent | .source | .target | .reference => .optional
  | .type => .typeName

theorem Field.mem_all (f : Field) : f ∈ Field.all := by cases f <;> decide

theorem Kind.mem_all (k : Kind) : k ∈ Kind.all := by cases k <;> decide

theorem Kind.fields_of_isA {k l : Kind} (h : k.isA l = true) {f : Field} (hf : f ∈ l.fields) :
    f ∈ k.fields := by
  have table : ∀ k ∈ Kind.all, ∀ l ∈ Kind.all, k.isA l = true → ∀ f ∈ l.fields, f ∈ k.fields := by
    decide +kernel
  exact table k k.mem_all l l.mem_all h f hf

theorem CodePoint.lower_ne_nil (c : CodePoint) : c.lower ≠ [] := by
  unfold CodePoint.lower
  split
  · simp
  · split <;> simp

def Value.IsEnd (v : Value) : Prop := v = .absent ∨ ∃ e, v = .ref e

namespace Model

variable {m : Model}

def isOf (m : Model) : FieldSort → Value → Bool
  | .text, .text _ => true
  | .flag, .flag _ => true
  | .list k, .refs es => es.all fun e => (m.element e).isA k
  | .single k, .ref e => (m.element e).isA k
  | .optional, .absent | .optional, .ref _ => true
  | .typeName, .absent | .typeName, .text _ | .typeName, .ref _ => true
  | _, _ => false

/-- Whether an element has the fields of its kind, and in each of its fields what belongs there. -/
def isWellKinded (m : Model) (x : Element) : Bool :=
  x.kind.fields.all x.has && Field.all.all fun f => (x.get? f).all (m.isOf f.sort)

def WellKinded (m : Model) : Prop := ∀ x ∈ m.elements.toList, m.isWellKinded x = true

instance (m : Model) : Decidable m.WellKinded :=
  inferInstanceAs (Decidable (∀ x ∈ m.elements.toList, _))

theorem WellKinded.element (h : m.WellKinded) (e : ElementId) :
    m.isWellKinded (m.element e) = true := by
  by_cases he : e < m.elements.size
  · rw [Model.element, Array.getD_eq_getD_getElem?, Array.getElem?_eq_getElem he]
    exact h _ (by simp)
  · rw [Model.element, Array.getD_eq_getD_getElem?,
      Array.getElem?_eq_none (Nat.le_of_not_lt he)]
    rfl

theorem WellKinded.isOf (h : m.WellKinded) {e : ElementId} {f : Field} {v : Value}
    (hv : (m.element e).get? f = some v) : m.isOf f.sort v = true := by
  have helement := h.element e
  simp only [isWellKinded, Bool.and_eq_true, List.all_eq_true] at helement
  have hf := helement.2 f f.mem_all
  rw [hv] at hf
  exact hf

theorem WellKinded.get (h : m.WellKinded) {e : ElementId} {f : Field}
    (hf : f ∈ (m.element e).kind.fields) :
    ∃ v, (m.element e).get? f = some v ∧ m.isOf f.sort v = true := by
  have helement := h.element e
  simp only [isWellKinded, Bool.and_eq_true, List.all_eq_true] at helement
  obtain ⟨v, hv⟩ := Option.isSome_iff_exists.mp (helement.1 f hf)
  exact ⟨v, hv, h.isOf hv⟩

theorem text_of_isOf {v : Value} (h : m.isOf .text v = true) : ∃ t, v = .text t := by
  cases v <;> simp_all [Model.isOf]

theorem refs_of_isOf {k : Kind} {v : Value} (h : m.isOf (.list k) v = true) :
    ∃ es, v = .refs es ∧ ∀ e ∈ es, (m.element e).isA k = true := by
  cases v <;> simp_all [Model.isOf]

theorem ref_of_isOf {k : Kind} {v : Value} (h : m.isOf (.single k) v = true) :
    ∃ e, v = .ref e ∧ (m.element e).isA k = true := by
  cases v <;> simp_all [Model.isOf]

theorem isEnd_of_isOf {v : Value} (h : m.isOf .optional v = true) : v.IsEnd := by
  cases v <;> simp_all [Model.isOf, Value.IsEnd]

theorem WellKinded.read (h : m.WellKinded) {e : ElementId} {f : Field}
    (hf : f ∈ (m.element e).kind.fields) :
    Settles (m.read (.ref e) f) fun v => m.isOf f.sort v = true := by
  obtain ⟨v, hv, hsort⟩ := h.get hf
  exact ⟨v, Repository.read_ok.mpr hv, hsort⟩

theorem WellKinded.readAs (h : m.WellKinded) {e : ElementId} {k : Kind} {f : Field}
    (hk : (m.element e).isA k = true) (hf : f ∈ k.fields) :
    Settles (m.read (.ref e) f) fun v => m.isOf f.sort v = true :=
  h.read (Kind.fields_of_isA hk hf)

theorem WellKinded.name (h : m.WellKinded) (e : ElementId) : ∃ t, (m.element e).name = .text t :=
  text_of_isOf (h.isOf (e := e) (f := .name) rfl)

theorem WellKinded.documentation (h : m.WellKinded) (e : ElementId) :
    ∃ t, (m.element e).documentation = .text t :=
  text_of_isOf (h.isOf (e := e) (f := .documentation) rfl)

theorem WellKinded.owned (h : m.WellKinded) (e : ElementId) :
    ∃ es, (m.element e).owned = .refs es := by
  obtain ⟨es, hes, -⟩ := refs_of_isOf (h.isOf (e := e) (f := .owned) rfl)
  exact ⟨es, hes⟩

theorem WellKinded.parent (h : m.WellKinded) (e : ElementId) : (m.element e).parent.IsEnd :=
  isEnd_of_isOf (h.isOf (e := e) (f := .parent) rfl)

end Model

namespace Repository

variable {r : Repository}

theorem reference_settles (h : r.model.WellKinded) {a : ElementId} {f : Field}
    (ha : (r.model.element a).kind = .association) (hf : f = .end1 ∨ f = .end2) :
    Settles (r.reference a f) Value.IsEnd := by
  have hfield : f ∈ (r.model.element a).kind.fields := by
    rw [ha]
    rcases hf with rfl | rfl <;> decide
  refine (h.read hfield).bind fun v hv => ?_
  obtain ⟨e, rfl, he⟩ : ∃ e, v = .ref e ∧ (r.model.element e).isA .associationEnd = true := by
    rcases hf with rfl | rfl <;> exact Model.ref_of_isOf hv
  obtain ⟨x, hx, hsort⟩ := h.readAs (f := .reference) he (by decide)
  exact ⟨x, hx, Model.isEnd_of_isOf hsort⟩

theorem touches_settles (h : r.model.WellKinded) (v : Value) (rel : ElementId) :
    Settles (r.touches v rel) fun _ => True := by
  unfold touches
  split
  · rename_i hdirected
    refine (h.readAs hdirected (by decide)).bind fun s _ => ?_
    split
    · exact settles_ok trivial
    · exact (h.readAs hdirected (by decide)).bind fun _ _ => settles_ok trivial
  · split
    · rename_i hassociation
      refine (reference_settles h hassociation (.inl rfl)).bind fun s _ => ?_
      split
      · exact settles_ok trivial
      · exact (reference_settles h hassociation (.inr rfl)).bind fun _ _ => settles_ok trivial
    · exact settles_ok trivial

theorem select_settles {α : Type} {test : α → Except ModelFault Bool} {xs : List α}
    (h : ∀ x ∈ xs, Settles (test x) fun _ => True) : Settles (select test xs) fun _ => True := by
  induction xs with
  | nil => exact settles_ok trivial
  | cons x xs ih =>
    obtain ⟨hx, hxs⟩ := List.forall_mem_cons.mp h
    exact hx.bind fun _ _ => (ih hxs).bind fun _ _ => settles_ok trivial

theorem relationshipsOf_settles (h : r.model.WellKinded) (v : Value) :
    Settles (r.relationshipsOf v) fun _ => True :=
  select_settles fun rel _ => touches_settles h v rel

theorem targets_settles (h : r.model.WellKinded) {k : Kind}
    (hk : k.isA .directedRelationship = true) (v : Value) :
    Settles (r.targets k v) fun ws => ∀ w ∈ ws, w.IsEnd := by
  refine (relationshipsOf_settles h v).bind fun rels _ => Settles.mapM fun rel hrel => ?_
  have hkind : (r.model.element rel).kind = k := by
    have hstart := (List.mem_filter.mp hrel).2
    simp only [startsAt, Bool.and_eq_true, decide_eq_true_eq] at hstart
    exact hstart.1
  obtain ⟨x, hx, hsort⟩ :=
    h.readAs (f := .target) (Element.isA_of_kind hkind hk) (by decide)
  exact ⟨x, hx, Model.isEnd_of_isOf hsort⟩

theorem associationsOf_settles (h : r.model.WellKinded) (v : Value) :
    Settles (r.associationsOf v) fun _ => True :=
  (relationshipsOf_settles h v).bind fun _ _ => settles_ok trivial

end Repository

namespace Model

variable {m : Model}

theorem WellKinded.readName (h : m.WellKinded) (e : ElementId) :
    Settles (m.read (.ref e) .name) fun v => ∃ t, v = .text t := ⟨_, rfl, h.name e⟩

theorem shown_settles {v : Value} {f : Field} {P : Value → Prop} (h : Settles (m.read v f) P) :
    Settles (m.shown v f) fun _ => True := h.bind fun _ _ => settles_ok trivial

theorem members_refs (es : List ElementId) : m.members (.refs es) = .ok (es.map Value.ref) := rfl

theorem directive_settles (h : m.WellKinded) {e : ElementId} {k : Kind} {f : Field}
    (hk : (m.element e).isA k = true) (hf : f ∈ k.fields) :
    Settles (m.directive f (.ref e)) fun _ => True :=
  (shown_settles (h.readName e)).bind fun _ _ =>
    (shown_settles (h.readAs hk hf)).bind fun _ _ => settles_ok trivial

theorem directives_settle (h : m.WellKinded) (e : ElementId) :
    Settles (m.directives e) fun _ => True := by
  obtain ⟨tags, htags, hkinds⟩ := refs_of_isOf (h.isOf (e := e) (f := .tags) rfl)
  obtain ⟨owned, howned⟩ := h.owned e
  have ofTags : Settles ((tags.map Value.ref).mapM (m.directive .value)) fun _ => True := by
    refine (Settles.mapM (P := fun _ => True) ?_).imp fun _ _ => trivial
    intro v hv
    obtain ⟨t, ht, rfl⟩ := List.mem_map.mp hv
    exact directive_settles h (hkinds t ht) (by decide)
  have ofConstraints : Settles (((owned.map Value.ref).filter m.isConstraint).mapM
      (m.directive .specification)) fun _ => True := by
    refine (Settles.mapM (P := fun _ => True) ?_).imp fun _ _ => trivial
    intro v hv
    obtain ⟨hv, hconstraint⟩ := List.mem_filter.mp hv
    obtain ⟨c, -, rfl⟩ := List.mem_map.mp hv
    have hkind : (m.element c).kind = .constraint := by
      simpa [isConstraint, shape] using hconstraint
    exact directive_settles h (Element.isA_of_kind (l := .constraint) hkind rfl) (by decide)
  unfold directives
  rw [show (m.element e).tags = .refs tags from htags, howned]
  refine Settles.after (members_refs tags) (ofTags.bind fun _ _ => ?_)
  exact Settles.after (members_refs owned) (ofConstraints.bind fun _ _ => settles_ok trivial)

theorem baseTypeName_text [Platform] (h : m.WellKinded) (e : ElementId) :
    ∃ t, (m.baseTypeName e).value = .text t := by
  have ofElement (v : Value) : ∃ t, (m.elementTypeName v).value = .text t := by
    unfold elementTypeName
    split
    · split
      · exact h.name _
      · exact ⟨_, rfl⟩
    · exact ⟨_, rfl⟩
  unfold baseTypeName
  dsimp only
  split
  · exact ofElement _
  · split
    · exact ⟨_, rfl⟩
    · exact ofElement _

theorem textOrEmpty_settles (h : m.WellKinded) {e : ElementId} {f : Field} (hf : f.sort = .text)
    (use : TextUse) :
    Settles (m.textOrEmpty (((m.element e).get? f).getD .absent) use) fun _ => True := by
  cases hv : (m.element e).get? f with
  | none => exact settles_ok trivial
  | some v =>
    have hsort := h.isOf hv
    rw [hf] at hsort
    obtain ⟨t, rfl⟩ := text_of_isOf hsort
    simp only [Option.getD_some, textOrEmpty]
    split <;> exact settles_ok trivial

open Emission

theorem typeOf_yields [Platform] (h : m.WellKinded) (reporting : Reporting) (e : ElementId) :
    Yields (m.typeOf reporting e) fun s => ∃ t, s.value = .text t := by
  refine Yields.bind (textOrEmpty_settles h (f := .multiplicity) rfl _) fun multiplicity _ => ?_
  refine Yields.bind (P := fun _ => True) ?_ fun text _ => yields_pure ?_
  · unfold typeExpr
    split
    · exact yields_pure trivial
    · cases reporting <;> exact (yields_emit _).bind fun _ _ => yields_pure trivial
  · split
    · exact baseTypeName_text h e
    · exact ⟨_, rfl⟩

theorem fieldText_yields [Platform] (h : m.WellKinded) (e : ElementId) :
    Yields (m.fieldText e) fun _ => True := by
  refine (typeOf_yields h .collected e).bind fun type htype => ?_
  obtain ⟨t, ht⟩ := htype
  rw [ht]
  refine Yields.bind (P := fun _ => True) (settles_ok trivial) fun _ _ => ?_
  refine Yields.bind (P := fun _ => True) ?_ fun _ _ => ?_
  · cases hv : (m.element e).get? .defaultValue with
    | none => exact settles_ok trivial
    | some v =>
      obtain ⟨t, rfl⟩ := text_of_isOf (h.isOf hv)
      unfold defaultClause
      dsimp only [Option.getD_some]
      split <;> exact settles_ok trivial
  · exact Yields.bind (directives_settle h e) fun _ _ => yields_pure trivial

/-- Nothing, or an element without a name. -/
def Nameless (m : Model) (v : Value) : Prop :=
  v = .absent ∨ ∃ e, v = .ref e ∧ (m.element e).name = .text []

def emptySingulars : List Text := ["s", "S", "\u017f"]

theorem ne_nil_of_emptySingular {name : Text} (h : name ∈ emptySingulars) : name ≠ [] := by
  rintro rfl
  revert h
  decide

/-- An end of an association that no name can be found for: neither the end nor its association
has one, and the name of the single object that it refers to has an empty singular. -/
def Unnamable (m : Model) (e : ElementId) : Prop :=
  (m.element e).kind = .associationEnd ∧ (m.element e).name = .text [] ∧
    m.Nameless (m.element e).parent ∧ ∃ t name multiplicity,
      (m.element e).get? .reference = some (.ref t) ∧ (m.element t).name = .text name ∧
      name ∈ emptySingulars ∧ (m.element e).get? .multiplicity = some (.text multiplicity) ∧
      isSingle multiplicity = true

theorem textOrEmpty_text (t : Text) (use : TextUse) : m.textOrEmpty (.text t) use = .ok t := by
  cases t <;> rfl

theorem textOrEmpty_elim (multiplicity : Option Text) (use : TextUse) :
    m.textOrEmpty (multiplicity.elim .absent .text) use = .ok (multiplicity.getD []) := by
  cases multiplicity with
  | none => rfl
  | some t => exact textOrEmpty_text t use

theorem isTrue_text {t : Text} (h : t ≠ []) : (Value.text t).isTrue = true := by
  cases t with
  | nil => exact absurd rfl h
  | cons c cs => rfl

/-- The name of what a value stands for. Nothing has the empty name, and so has an element whose
name is absent or empty. -/
def Named (m : Model) (v : Value) (name : Text) : Prop :=
  (name = [] ∧ (v = .absent ∨ ∃ e, v = .ref e ∧ (m.element e).name.isTrue = false)) ∨
    name ≠ [] ∧ ∃ e, v = .ref e ∧ (m.element e).name = .text name

theorem Named.nameless {v : Value} (h : m.Named v []) :
    ∃ x, m.nameIfAny v = .ok x ∧ x.isTrue = false := by
  rcases h with ⟨-, rfl | ⟨e, rfl, hname⟩⟩ | ⟨hne, -⟩
  · exact ⟨.absent, rfl, rfl⟩
  · exact ⟨(m.element e).name, rfl, hname⟩
  · exact absurd rfl hne

theorem Named.name {v : Value} {name : Text} (h : m.Named v name) (hne : name ≠ []) :
    m.nameIfAny v = .ok (.text name) := by
  rcases h with ⟨hnil, -⟩ | ⟨-, e, rfl, hname⟩
  · exact absurd hnil hne
  · exact congrArg Except.ok hname

theorem Named.unique {v : Value} {name name' : Text} (h : m.Named v name)
    (h' : m.Named v name') : name = name' := by
  by_cases hne : name = [] <;> by_cases hne' : name' = []
  · rw [hne, hne']
  · subst hne
    obtain ⟨x, hx, hfalse⟩ := h.nameless
    rw [h'.name hne', Except.ok.injEq] at hx
    rw [← hx, isTrue_text hne'] at hfalse
    cases hfalse
  · subst hne'
    obtain ⟨x, hx, hfalse⟩ := h'.nameless
    rw [h.name hne, Except.ok.injEq] at hx
    rw [← hx, isTrue_text hne] at hfalse
    cases hfalse
  · have hname := (h.name hne).symm.trans (h'.name hne')
    exact Value.text.inj (Except.ok.inj hname)

/-- What the name of an end is found by: the name of its association, the name of the type that it
refers to, and its multiplicity, which may be left out. -/
structure DescribesEnd (m : Model) (e : ElementId) (association typeName : Text)
    (multiplicity : Option Text) : Prop where
  association : m.Named (m.element e).parent association
  reference : ∃ v, (m.element e).get? .reference = some v ∧ m.Named v typeName
  multiplicity : (m.element e).get? .multiplicity = some (multiplicity.elim .absent .text)

theorem inferredName_cases {typeName : Text} (hne : typeName ≠ []) (multiplicity : Text) :
    (inferredName typeName multiplicity = .error .emptyName ∧ typeName ∈ emptySingulars ∧
      isSingle multiplicity = true) ∨
    ((∃ name, name ≠ [] ∧ inferredName typeName multiplicity = .ok name) ∧
      ¬(typeName ∈ emptySingulars ∧ isSingle multiplicity = true)) := by
  have empty : typeName ∈ emptySingulars ↔ singularize typeName = [] := by
    rw [singularize_eq_nil_iff]
    simp [emptySingulars, hne]
  have lower {t : Text} (ht : t ≠ []) : ∃ name, name ≠ [] ∧ lowerFirst t = .ok name := by
    cases t with
    | nil => exact absurd rfl ht
    | cons c cs => exact ⟨_, List.append_ne_nil_of_left_ne_nil c.lower_ne_nil cs, rfl⟩
  unfold inferredName
  cases hsingle : isSingle multiplicity with
  | false => exact .inr ⟨lower (pluralize_ne_nil hne), by simp⟩
  | true =>
    by_cases hnil : singularize typeName = []
    · refine .inl ⟨?_, empty.mpr hnil, rfl⟩
      rw [if_pos rfl, hnil]
      rfl
    · exact .inr ⟨lower hnil, fun hmem => hnil (empty.mp hmem.1)⟩

namespace DescribesEnd

variable {e : ElementId} {association typeName : Text} {multiplicity : Option Text}

theorem endName_association (h : m.DescribesEnd e association typeName multiplicity)
    (hne : association ≠ []) : m.endName e = .ok (.text association) := by
  unfold endName
  rw [h.association.name hne, except_ok_bind, if_pos (isTrue_text hne)]
  rfl

theorem endName_nameless (h : m.DescribesEnd e [] [] multiplicity) :
    m.endName e = .ok (.text []) := by
  obtain ⟨a, ha, hafalse⟩ := h.association.nameless
  obtain ⟨v, hv, htype⟩ := h.reference
  obtain ⟨t, ht, htfalse⟩ := htype.nameless
  have hread : m.read (.ref e) .reference = .ok v := Repository.read_ok.mpr hv
  simp only [endName, ha, hread, ht, hafalse, htfalse, except_ok_bind, Bool.false_eq_true, if_false,
    Bool.not_false, if_true]
  rfl

theorem endName_inferred (h : m.DescribesEnd e [] typeName multiplicity) (hne : typeName ≠ []) :
    m.endName e = (inferredName typeName (multiplicity.getD [])).map .text := by
  obtain ⟨a, ha, hafalse⟩ := h.association.nameless
  obtain ⟨v, hv, htype⟩ := h.reference
  have hread : m.read (.ref e) .reference = .ok v := Repository.read_ok.mpr hv
  have hmultiplicity : m.read (.ref e) .multiplicity = .ok (multiplicity.elim .absent .text) :=
    Repository.read_ok.mpr h.multiplicity
  simp only [endName, ha, hread, hmultiplicity, htype.name hne, hafalse, isTrue_text hne,
    textOrEmpty_elim, textOrEmpty_text, except_ok_bind, Bool.false_eq_true, if_false, Bool.not_true]
  cases inferredName typeName (multiplicity.getD []) <;> rfl

theorem endName_cases (h : m.DescribesEnd e association typeName multiplicity) :
    (m.endName e = .error .emptyName ∧ association = [] ∧ typeName ∈ emptySingulars ∧
      isSingle (multiplicity.getD []) = true) ∨
    (m.endName e = .ok (.text []) ∧ association = [] ∧ typeName = []) ∨
    (∃ name, name ≠ [] ∧ m.endName e = .ok (.text name)) ∧ ¬(association = [] ∧ typeName = []) ∧
      ¬(association = [] ∧ typeName ∈ emptySingulars ∧
        isSingle (multiplicity.getD []) = true) := by
  by_cases hassociation : association = []
  · subst hassociation
    by_cases htype : typeName = []
    · subst htype
      exact .inr (.inl ⟨h.endName_nameless, rfl, rfl⟩)
    · rw [h.endName_inferred htype]
      rcases inferredName_cases htype (multiplicity.getD []) with
        ⟨hfault, hmem, hsingle⟩ | ⟨⟨name, hname, hok⟩, hnot⟩
      · rw [hfault]
        exact .inl ⟨rfl, rfl, hmem, hsingle⟩
      · rw [hok]
        exact .inr (.inr ⟨⟨name, hname, rfl⟩, fun hnil => htype hnil.2,
          fun hempty => hnot hempty.2⟩)
  · exact .inr (.inr ⟨⟨association, hassociation, h.endName_association hassociation⟩,
      fun hnil => hassociation hnil.1, fun hempty => hassociation hempty.1⟩)

end DescribesEnd

theorem WellKinded.named (h : m.WellKinded) {v : Value} (hv : v.IsEnd) :
    ∃ name, m.Named v name := by
  rcases hv with rfl | ⟨e, rfl⟩
  · exact ⟨[], .inl ⟨rfl, .inl rfl⟩⟩
  · obtain ⟨t, ht⟩ := h.name e
    by_cases hnil : t = []
    · subst hnil
      exact ⟨[], .inl ⟨rfl, .inr ⟨e, rfl, by rw [ht]; rfl⟩⟩⟩
    · exact ⟨t, .inr ⟨hnil, e, rfl, ht⟩⟩

theorem WellKinded.describesEnd (h : m.WellKinded) {e : ElementId}
    (hkind : (m.element e).kind = .associationEnd) :
    ∃ association typeName multiplicity,
      m.DescribesEnd e association typeName (some multiplicity) := by
  obtain ⟨association, hassociation⟩ := h.named (h.parent e)
  obtain ⟨v, hv, hsort⟩ := h.get (e := e) (f := .reference) (by rw [hkind]; decide)
  obtain ⟨typeName, htype⟩ := h.named (isEnd_of_isOf hsort)
  obtain ⟨w, hw, hsort'⟩ := h.get (e := e) (f := .multiplicity) (by rw [hkind]; decide)
  obtain ⟨multiplicity, rfl⟩ := text_of_isOf hsort'
  exact ⟨association, typeName, multiplicity, hassociation, ⟨v, hv, htype⟩, hw⟩

theorem WellKinded.named_nil (h : m.WellKinded) {v : Value} : m.Named v [] ↔ m.Nameless v := by
  have empty (e : ElementId) :
      (m.element e).name.isTrue = false ↔ (m.element e).name = .text [] := by
    obtain ⟨t, ht⟩ := h.name e
    cases t <;> simp [ht, Value.isTrue]
  simp [Named, Nameless, empty]

theorem WellKinded.unnamable_iff (h : m.WellKinded) {e : ElementId} {association typeName t : Text}
    (hkind : (m.element e).kind = .associationEnd) (hname : (m.element e).name = .text [])
    (hend : m.DescribesEnd e association typeName (some t)) :
    m.Unnamable e ↔ association = [] ∧ typeName ∈ emptySingulars ∧ isSingle t = true := by
  obtain ⟨v, hv, htype⟩ := hend.reference
  constructor
  · rintro ⟨-, -, hnameless, t', name, multiplicity, href, hname', hmem, hmultiplicity, hsingle⟩
    rw [hv, Option.some.injEq] at href
    subst href
    obtain rfl := htype.unique (.inr ⟨ne_nil_of_emptySingular hmem, t', rfl, hname'⟩)
    rw [hend.multiplicity, Option.elim_some, Option.some.injEq, Value.text.injEq] at hmultiplicity
    subst hmultiplicity
    exact ⟨hend.association.unique (h.named_nil.mpr hnameless), hmem, hsingle⟩
  · rintro ⟨rfl, hmem, hsingle⟩
    rcases htype with ⟨hnil, -⟩ | ⟨-, t', rfl, hname'⟩
    · exact absurd hnil (ne_nil_of_emptySingular hmem)
    · exact ⟨hkind, hname, h.named_nil.mp hend.association, t', typeName, t, hv, hname', hmem,
        hend.multiplicity, hsingle⟩

theorem endName_cases (h : m.WellKinded) {e : ElementId}
    (hkind : (m.element e).kind = .associationEnd) (hname : (m.element e).name = .text []) :
    (m.endName e = .error .emptyName ∧ m.Unnamable e) ∨
      (Settles (m.endName e) (fun v => ∃ t, v = .text t) ∧ ¬m.Unnamable e) := by
  obtain ⟨association, typeName, t, hend⟩ := h.describesEnd hkind
  rw [h.unnamable_iff hkind hname hend]
  rcases hend.endName_cases with ⟨hfault, hempty⟩ | ⟨hok, -, htype⟩ |
    ⟨⟨name, -, hok⟩, -, hnot⟩
  · exact .inl ⟨hfault, hempty⟩
  · exact .inr ⟨⟨_, hok, [], rfl⟩, fun hempty => ne_nil_of_emptySingular hempty.2.1 htype⟩
  · exact .inr ⟨⟨_, hok, name, rfl⟩, hnot⟩

theorem fieldName_cases (h : m.WellKinded) (e : ElementId) :
    (m.fieldName (.ref e) = .error .emptyName ∧ m.Unnamable e) ∨
      (Settles (m.fieldName (.ref e)) (fun v => ∃ t, v = .text t) ∧ ¬m.Unnamable e) := by
  obtain ⟨name, hname⟩ := h.name e
  have hread : m.read (.ref e) .name = .ok (.text name) := congrArg Except.ok hname
  unfold fieldName
  simp only [hread, except_ok_bind]
  by_cases hend : name = [] ∧ (m.element e).kind = .associationEnd
  · obtain ⟨rfl, hkind⟩ := hend
    have hguard :
        (!(Value.text []).isTrue && decide ((m.element e).kind = .associationEnd)) = true := by
      simp [hkind, Value.isTrue]
    rw [if_pos hguard]
    exact endName_cases h hkind hname
  · have hguard :
        ¬(!(Value.text name).isTrue && decide ((m.element e).kind = .associationEnd)) = true := by
      simpa [Value.isTrue] using hend
    rw [if_neg hguard]
    refine .inr ⟨settles_ok ⟨_, rfl⟩, ?_⟩
    rintro ⟨hkind, hnil, -⟩
    rw [hname] at hnil
    exact hend ⟨Value.text.inj hnil, hkind⟩

theorem fieldWrite_ok [Platform] (h : m.WellKinded) (e : ElementId) :
    (∃ ws, (m.fieldWrite (.ref e)).result = .ok ws) ↔ ¬m.Unnamable e := by
  rcases fieldName_cases h e with ⟨hfault, hunnamable⟩ | ⟨⟨name, hname, t, rfl⟩, hnot⟩
  · constructor
    · rintro ⟨ws, hws⟩
      obtain ⟨name, hname, -⟩ := bind_ok.mp hws
      rw [lift_result, hfault] at hname
      cases hname
    · exact fun hnot => absurd hunnamable hnot
  · refine ⟨fun _ => hnot, fun _ => ?_⟩
    obtain ⟨ws, hws, -⟩ : Yields (m.fieldWrite (.ref e)) fun _ => True := by
      refine Yields.after hname ?_
      dsimp only
      split
      · exact yields_pure trivial
      · refine (fieldText_yields h e).bind fun _ _ => ?_
        exact yields_pure trivial
    exact ⟨ws, hws⟩

theorem text_of_fieldWrite [Platform] (h : m.WellKinded) {v n : Value} {ws : List FieldWrite}
    (hws : (m.fieldWrite v).result = .ok ws) (hn : n ∈ ws.map Prod.fst) : ∃ t, n = .text t := by
  obtain ⟨name, hname, hws⟩ := bind_ok.mp hws
  cases v with
  | ref e =>
    rcases fieldName_cases h e with ⟨hfault, -⟩ | ⟨⟨name', hname', ht⟩, -⟩
    · rw [lift_result, hfault] at hname
      cases hname
    · rw [lift_result, hname'] at hname
      cases hname
      obtain ⟨t, rfl⟩ := ht
      dsimp only at hws
      split at hws
      · cases hws
        cases hn
      · obtain ⟨text, -, hws⟩ := bind_ok.mp hws
        cases hws
        exact ⟨t, List.mem_singleton.mp hn⟩
  | absent | flag _ | text _ | refs _ =>
    cases hws
    cases hn

end Model

end UmlSchema
