import UmlSchema.Platform.Usual
import UmlSchema.Proofs.IgnoredParents
import UmlSchema.Proofs.Layout
import UmlSchema.Proofs.Multiplicity
import UmlSchema.Proofs.WriteSequence

/-!
# Warnings about unknown multiplicities

A declaration asks for the types of its fields while it is flattened, also of those that a later
field replaces, and then for the types of the parameters of its operations. Every question about an
element with an unknown multiplicity gives one warning under the name of that element. Nothing else
gives such a warning, so that the list of all questions settles the list of warnings.
-/
namespace UmlSchema

open Emission

namespace Emission

variable {α β : Type} {k : WarningKind} {ks : List WarningKind} {us ws : List Warning}

def WarnsExactly (k : WarningKind) (ws : List Warning) (x : Emission α) : Prop :=
  ∀ a, x.result = .ok a → x.warned k = ws

theorem warnsExactly_nil {x : Emission α} (hx : WarnsOf ks x) (hk : k ∉ ks) :
    WarnsExactly k [] x := fun _ _ => warned_of_warnsOf hx hk

theorem warnsExactly_pure (a : α) : WarnsExactly k [] (pure a) := fun _ _ => rfl

theorem WarnsExactly.bind {x : Emission α} {f : α → Emission β} (hx : WarnsExactly k us x)
    (hf : ∀ a, x.result = .ok a → WarnsExactly k ws (f a)) :
    WarnsExactly k (us ++ ws) (x >>= f) := by
  intro b hb
  obtain ⟨a, ha, hb⟩ := bind_ok.mp hb
  rw [warned_bind ha, hx a ha, hf a ha b hb]

theorem WarnsExactly.lifted {x : Except ModelFault α} {f : α → Emission β}
    (hf : ∀ a, x = .ok a → WarnsExactly k ws (f a)) : WarnsExactly k ws (liftM x >>= f) :=
  WarnsExactly.bind (warnsExactly_nil (emits_lift x) List.not_mem_nil) hf

theorem WarnsExactly.after {x : Emission α} {f : α → Emission β} (hx : WarnsOf ks x) (hk : k ∉ ks)
    (hf : ∀ a, WarnsExactly k ws (f a)) : WarnsExactly k ws (x >>= f) :=
  WarnsExactly.bind (warnsExactly_nil hx hk) fun a _ => hf a

theorem WarnsExactly.before {x : Emission α} {f : α → Emission β} (hx : WarnsExactly k ws x)
    (hf : ∀ a, WarnsOf ks (f a)) (hk : k ∉ ks) : WarnsExactly k ws (x >>= f) := by
  rw [← List.append_nil ws]
  exact hx.bind fun a _ => warnsExactly_nil (hf a) hk

theorem WarnsExactly.each {xs : List α} {f : α → Emission Unit} {g : α → List Warning}
    (h : ∀ x ∈ xs, WarnsExactly k (g x) (f x)) : WarnsExactly k (xs.flatMap g) (each xs f) := by
  induction xs with
  | nil => exact warnsExactly_pure ()
  | cons x xs ih =>
    obtain ⟨hx, hxs⟩ := List.forall_mem_cons.mp h
    exact hx.bind fun _ _ => ih hxs

theorem WarnsExactly.collect {xs : List α} {f : α → Emission β} {g : α → List Warning}
    (h : ∀ x ∈ xs, WarnsExactly k (g x) (f x)) :
    WarnsExactly k (xs.flatMap g) (collect xs f) := by
  induction xs with
  | nil => exact warnsExactly_pure []
  | cons x xs ih =>
    obtain ⟨hx, hxs⟩ := List.forall_mem_cons.mp h
    exact hx.bind fun _ _ => (ih hxs).before (fun _ => emits_pure _) List.not_mem_nil

end Emission

namespace Model

variable (m : Model)

def multiplicityOf (e : ElementId) : Text :=
  match (m.element e).get? .multiplicity with
  | some (.text t) => t
  | _ => []

/-- The warning about the type of an element with an unknown multiplicity. -/
def unknownWarning? [Platform] (e : ElementId) : Option Warning :=
  if IsUnknown (m.multiplicityOf e) then
    some ⟨.unknownMultiplicity,
      unknownMultiplicity (m.multiplicityOf e) (m.baseTypeName e).text, m.shownName e⟩
  else none

theorem textOrEmpty_multiplicity {m : Model} {e : ElementId} {t : Text} {use : TextUse}
    (h : m.textOrEmpty (((m.element e).get? .multiplicity).getD .absent) use = .ok t) :
    t = m.multiplicityOf e := by
  unfold multiplicityOf
  cases hv : (m.element e).get? .multiplicity with
  | none =>
    rw [hv] at h
    exact (Except.ok.inj h).symm
  | some v =>
    rw [hv, Option.getD_some] at h
    cases v with
    | text u =>
      rw [textOrEmpty_text] at h
      exact (Except.ok.inj h).symm
    | absent => exact (Except.ok.inj h).symm
    | flag b =>
      cases b with
      | false => exact (Except.ok.inj h).symm
      | true => cases h
    | ref x => cases h
    | refs xs =>
      cases xs with
      | nil => exact (Except.ok.inj h).symm
      | cons x xs => cases h

theorem warns_typeOf [Platform] (e : ElementId) : WarnsExactly .unknownMultiplicity
    (m.unknownWarning? e).toList (m.typeOf .collected e) := by
  refine WarnsExactly.lifted fun multiplicity hmultiplicity => ?_
  obtain rfl := textOrEmpty_multiplicity hmultiplicity
  refine WarnsExactly.before (fun _ _ => ?_) (fun _ => emits_pure _) List.not_mem_nil
  unfold unknownWarning?
  by_cases hunknown : IsUnknown (m.multiplicityOf e)
  · rw [typeExpr_unknown hunknown, if_pos hunknown]
    rfl
  · obtain ⟨c, hc⟩ := Option.ne_none_iff_exists'.mp
      (mt Cardinality.ofMultiplicity_eq_none.mp hunknown)
    rw [typeExpr_known _ hc, if_neg hunknown]
    rfl

theorem warns_fieldText [Platform] (e : ElementId) : WarnsExactly .unknownMultiplicity
    (m.unknownWarning? e).toList (m.fieldText e) := by
  refine WarnsExactly.before (m.warns_typeOf e) (fun type => ?_) List.not_mem_nil
  exact (emits_lift _).bind fun _ => (emits_lift _).bind fun _ => (emits_lift _).bind fun _ =>
    emits_pure _

def fieldWarning? [Platform] (e : ElementId) : Option Warning :=
  if (m.label? e).isSome then m.unknownWarning? e else none

theorem warns_fieldWrite [Platform] (v : Value) : WarnsExactly .unknownMultiplicity
    (v.element?.elim [] fun e => (m.fieldWarning? e).toList) (m.fieldWrite v) := by
  refine WarnsExactly.lifted fun name hname => ?_
  cases v with
  | absent | flag _ | text _ | refs _ => exact warnsExactly_pure []
  | ref e =>
    have hlabel : m.label? e = if name.isTrue then some name else none := by
      rw [label?, hname]
      rfl
    simp only [Value.element?, Option.elim_some, fieldWarning?, hlabel]
    by_cases htrue : name.isTrue = true
    · simp only [htrue, Bool.not_true, Bool.false_eq_true, if_false, if_true, Option.isSome_some]
      refine WarnsExactly.before (m.warns_fieldText e) (fun text => ?_) List.not_mem_nil
      exact Emits.guarded (emits_fail _) fun _ => emits_pure _
    · simp only [htrue, Bool.not_false, if_true]
      exact warnsExactly_pure []

theorem warns_fieldWrites [Platform] (es : List ElementId) : WarnsExactly .unknownMultiplicity
    (es.filterMap m.fieldWarning?) (m.fieldWrites es) := by
  rw [List.filterMap_eq_flatMap_toList]
  refine WarnsExactly.before (WarnsExactly.collect fun e _ => ?_) (fun _ => emits_pure _)
    List.not_mem_nil
  exact m.warns_fieldWrite (.ref e)

end Model

theorem Model.flatMap_elements {γ : Type} {m : Model} {v : Value} {vs : List Value}
    (h : m.members v = .ok vs) (g : ElementId → List γ) :
    v.elements.flatMap g = vs.flatMap fun x => x.element?.elim [] g := by
  cases v with
  | refs es =>
    cases h
    rw [List.flatMap_map]
    rfl
  | text t =>
    cases h
    simp [Value.elements, Value.element?, List.flatMap_map]
  | absent | flag _ | ref _ => cases h

theorem flatMap_of_forall₂ {α β γ : Type} {f : α → List γ} {g : β → List γ} {xs : List α}
    {ys : List β} (h : List.Forall₂ (fun x y => f x = g y) xs ys) :
    xs.flatMap f = ys.flatMap g := by
  induction h with
  | nil => rfl
  | cons hxy _ ih => rw [List.flatMap_cons, List.flatMap_cons, hxy, ih]

namespace Repository

variable [Platform] {r : Repository}

theorem warnings_own (r : Repository) (x : ElementId) :
    (r.own x).filterMap r.model.unknownWarning? =
      (r.ownMembers x).filterMap r.model.fieldWarning? := by
  rw [own, List.filterMap_filter]
  rfl

theorem warns_associationWrites (x a : ElementId) : WarnsExactly .unknownMultiplicity
    ((r.model.seenEnds x a).filterMap r.model.fieldWarning?) (r.associationWrites (.ref x) a) := by
  intro ws hws
  -- The ends answer because the run ends well; without that the far ends need not be seen.
  have hseen := associationWrites_seen (answers_of_associationWrites hws)
  rw [hseen] at hws ⊢
  exact r.model.warns_fieldWrites _ ws hws

theorem warns_ownWrites (x : ElementId) : WarnsExactly .unknownMultiplicity
    ((r.own x).filterMap r.model.unknownWarning?) (r.ownWrites (.ref x)) := by
  have hshape : r.model.shape (.ref x) ≠ .list := by simp [Model.shape]
  rw [warnings_own, ownMembers, List.filterMap_append, ownWrites, if_neg hshape]
  refine WarnsExactly.lifted fun vs hvs => WarnsExactly.bind ?_ fun _ _ => ?_
  · rw [attributesOf_eq, List.filterMap_eq_flatMap_toList, Model.flatMap_elements hvs]
    exact WarnsExactly.collect fun v _ => r.model.warns_fieldWrite v
  · refine WarnsExactly.lifted fun as has => WarnsExactly.lifted fun name _ => ?_
    refine WarnsExactly.after (plain_debug _ _).warnsOf List.not_mem_nil fun _ => ?_
    rw [← associationsOf_seen has, List.filterMap_flatMap]
    refine WarnsExactly.before (WarnsExactly.collect fun a _ => ?_) (fun _ => emits_pure _)
      List.not_mem_nil
    exact warns_associationWrites x a

theorem warns_writesOf (es : List ElementId) : WarnsExactly .unknownMultiplicity
    ((es.flatMap r.own).filterMap r.model.unknownWarning?) (r.writesOf (es.map .ref)) := by
  have hvalues : (es.flatMap r.own).filterMap r.model.unknownWarning? =
      (es.map Value.ref).flatMap fun v => v.element?.elim [] fun e =>
        (r.own e).filterMap r.model.unknownWarning? := by
    rw [List.filterMap_flatMap, List.flatMap_map]
    rfl
  rw [hvalues]
  refine WarnsExactly.before (WarnsExactly.collect fun v hv => ?_) (fun _ => emits_pure _)
    List.not_mem_nil
  obtain ⟨e, -, rfl⟩ := List.mem_map.mp hv
  exact warns_ownWrites e

theorem warned_interfaceWrites {v : Value} {ws : List FieldWrite}
    (h : (r.interfaceWrites v).result = .ok ws) :
    ∃ order : List ElementId, (∃ met, r.Walk [] [v] met (order.map .ref)) ∧
      (r.interfaceWrites v).warned .unknownMultiplicity =
        (order.flatMap r.own).filterMap r.model.unknownWarning? := by
  obtain ⟨met, order, hwalk, horder, hws⟩ := interfaceWrites_ok.mp h
  obtain ⟨es, rfl, -⟩ := writesOf_members hws
  refine ⟨es, ⟨met, hwalk⟩, ?_⟩
  rw [interfaceWrites, horder, lift_ok_bind]
  exact warns_writesOf es ws hws

theorem warned_classWrites {c : ElementId} {ws : List FieldWrite}
    (h : (r.classWrites (.ref c)).result = .ok ws) :
    ∃ orders line, r.WalkOrders (r.leading .interfaceRealization (.ref c)) orders ∧
      r.FirstLine c line ∧ (r.classWrites (.ref c)).warned .unknownMultiplicity =
        ((orders.flatten ++ line.reverse).flatMap r.own).filterMap r.model.unknownWarning? := by
  obtain ⟨interfaces, parts, chain, last, hi, hparts, hchain, hlast, rfl⟩ := classWrites_ok.mp h
  obtain ⟨es, rfl, -⟩ := writesOf_members hlast
  obtain ⟨orders, horders⟩ := exists_forall₂ fun i hmem => by
    obtain ⟨_, _, hw⟩ := forall₂_mem_left hparts hmem
    exact warned_interfaceWrites hw
  have hcollected : (collect interfaces r.interfaceWrites).warned .unknownMultiplicity =
      (orders.flatten.flatMap r.own).filterMap r.model.unknownWarning? := by
    rw [WarnsExactly.collect (fun _ _ _ _ => rfl) _ (collect_ok.mpr hparts),
      flatMap_of_forall₂ (horders.imp fun _ _ h => h.2)]
    simp only [List.flatten_eq_flatMap, List.flatMap_assoc, List.filterMap_flatMap, id]
  refine ⟨orders, es.reverse, ?_, firstLine_of_classChain hchain, ?_⟩
  · rw [targets_leading rfl hi]
    exact horders.imp fun _ _ h => h.1
  · rw [classWrites, hi, lift_ok_bind, warned_bind (collect_ok.mpr hparts), hcollected, hchain,
      lift_ok_bind, warned_bind hlast, warns_writesOf es _ hlast, List.reverse_reverse,
      List.flatMap_append, List.filterMap_append]
    exact congrArg _ (List.append_nil _)

end Repository

namespace Model

variable (m : Model)

def operationsOf (c : ElementId) : List ElementId :=
  (((m.element c).get? .operations).getD .absent).elements

def parametersOf (operation : ElementId) : List ElementId :=
  (((m.element operation).get? .parameters).getD .absent).elements

def isResult (p : ElementId) : Bool := (m.element p).get? .direction = some (.text "return")

/-- The parameters that an operation is written with: all that are no results, and then the first
result. An operation without a name is not written. -/
def writtenParameters (operation : ElementId) : List ElementId :=
  if (m.element operation).name.isTrue then
    (m.parametersOf operation).filter (!m.isResult ·) ++
      ((m.parametersOf operation).find? m.isResult).toList
  else []

end Model

namespace Declarer

variable {d : Declarer} {c operation : ElementId}

theorem isReturn_ok {v : Value} {b : Bool} (h : d.isReturn v = .ok b) :
    ∃ p, v = .ref p ∧ b = d.model.isResult p := by
  obtain ⟨w, hw, hb⟩ := except_bind_ok.mp h
  have hget := Repository.read_ok.mp hw
  cases v with
  | ref p =>
    have hdirection : (d.model.element p).get? .direction = some w := hget
    cases hb
    exact ⟨p, rfl, by simp [Model.isResult, hdirection]⟩
  | absent | flag _ | text _ | refs _ => cases hget

theorem parametersOf_refs {vs : List Value} (h : d.parametersOf operation = .ok vs)
    (hvs : ∀ v ∈ vs, ∃ b, d.isReturn v = .ok b) :
    vs = (d.model.parametersOf operation).map .ref := by
  have hkind : (d.element operation).kind = .operation := by
    by_contra hkind
    rw [parametersOf, if_pos hkind] at h
    cases h
  rw [parametersOf, if_neg (not_not.mpr hkind)] at h
  obtain ⟨v, hv, hmembers⟩ := except_bind_ok.mp h
  have hget : (d.model.element operation).get? .parameters = some v := Repository.read_ok.mp hv
  rw [Model.parametersOf, hget, Option.getD_some]
  refine Model.members_elements hmembers fun x hx => ?_
  obtain ⟨b, hb⟩ := hvs x hx
  obtain ⟨p, rfl, -⟩ := isReturn_ok hb
  exact ⟨p, rfl⟩

theorem inputParameters_ok {inputs : List ElementId}
    (h : d.inputParameters operation = .ok inputs) :
    d.parametersOf operation = .ok ((d.model.parametersOf operation).map .ref) ∧
      inputs = (d.model.parametersOf operation).filter (!d.model.isResult ·) := by
  obtain ⟨vs, hvs, h⟩ := except_bind_ok.mp h
  obtain ⟨kept, hkept, h⟩ := except_bind_ok.mp h
  cases h
  obtain ⟨htests, rfl⟩ := Repository.select_ok hkept
  have hreturns : ∀ v ∈ vs, ∃ b, d.isReturn v = .ok b := by
    intro v hv
    obtain ⟨b, hb⟩ := htests v hv
    obtain ⟨b', hb', -⟩ := except_bind_ok.mp hb
    exact ⟨b', hb'⟩
  obtain rfl := parametersOf_refs hvs hreturns
  refine ⟨hvs, ?_⟩
  rw [List.filter_map, List.filterMap_map, show Value.element? ∘ Value.ref = some from rfl,
    List.filterMap_some]
  refine List.filter_congr fun p hp => ?_
  obtain ⟨b, hb⟩ := hreturns _ (List.mem_map_of_mem hp)
  obtain ⟨q, hq, rfl⟩ := isReturn_ok hb
  cases hq
  simp [hb]

theorem firstReturn_ok {es : List ElementId} {result : Option ElementId}
    (h : d.firstReturn (es.map .ref) = .ok result) : result = es.find? d.model.isResult := by
  induction es with
  | nil =>
    cases h
    rfl
  | cons p es ih =>
    obtain ⟨b, hb, h⟩ := except_bind_ok.mp h
    obtain ⟨q, hq, rfl⟩ := isReturn_ok hb
    cases hq
    cases hp : d.model.isResult p with
    | true =>
      rw [hp] at h
      cases h
      simp [hp, Value.element?]
    | false =>
      rw [hp] at h
      simp [hp, ih h]

theorem warns_parameterTerm [Platform] (p : ElementId) : WarnsExactly .unknownMultiplicity
    (d.model.unknownWarning? p).toList (d.parameterTerm p) := by
  refine WarnsExactly.before (d.model.warns_typeOf p) (fun type => ?_) List.not_mem_nil
  exact (emits_lift _).bind fun _ => (emits_lift _).bind fun _ => emits_pure _

theorem warns_resultClause [Platform] (result : Option ElementId) :
    WarnsExactly .unknownMultiplicity (result.toList.filterMap d.model.unknownWarning?)
      (d.resultClause result) := by
  rw [List.filterMap_eq_flatMap_toList]
  cases result with
  | none => exact warnsExactly_pure []
  | some p =>
    rw [Option.toList_some, List.flatMap_singleton]
    refine WarnsExactly.before (d.model.warns_typeOf p) (fun type => ?_) List.not_mem_nil
    exact (emits_lift _).bind fun _ => emits_pure _

theorem warns_operation [Platform] (operation : ElementId) : WarnsExactly .unknownMultiplicity
    ((d.model.writtenParameters operation).filterMap d.model.unknownWarning?)
    (d.operation (.ref operation)) := by
  refine WarnsExactly.lifted fun name hname => ?_
  have hvalue : name.value = (d.model.element operation).name := by
    obtain ⟨v, hv, hname⟩ := except_bind_ok.mp hname
    cases hv
    cases hname
    rfl
  rw [Model.writtenParameters, ← hvalue]
  by_cases htrue : name.value.isTrue = true
  · simp only [htrue, Bool.not_true, Bool.false_eq_true, if_false, if_true]
    refine WarnsExactly.lifted fun inputs hinputs => WarnsExactly.lifted fun result hresult => ?_
    obtain ⟨hparameters, rfl⟩ := inputParameters_ok hinputs
    rw [returnParameter, hparameters] at hresult
    obtain rfl := firstReturn_ok hresult
    refine WarnsExactly.lifted fun documentation _ =>
      WarnsExactly.after (plain_doc _ _).warnsOf List.not_mem_nil fun _ => ?_
    rw [List.filterMap_append, List.filterMap_eq_flatMap_toList]
    refine WarnsExactly.bind (WarnsExactly.collect fun p _ => warns_parameterTerm p) fun _ _ =>
      WarnsExactly.before (warns_resultClause _) (fun _ => ?_) List.not_mem_nil
    exact (emits_lift _).bind fun _ => (plain_line _).warnsOf
  · simp only [htrue, Bool.not_false, if_true]
    exact warnsExactly_pure ()

theorem warns_operations [Platform] (c : ElementId) : WarnsExactly .unknownMultiplicity
    (((d.model.operationsOf c).flatMap d.model.writtenParameters).filterMap
      d.model.unknownWarning?) (d.operations c) := by
  refine WarnsExactly.lifted fun v hv => WarnsExactly.lifted fun vs hvs => ?_
  have hget : (d.model.element c).get? .operations = some v := Repository.read_ok.mp hv
  rw [Model.operationsOf, hget, Option.getD_some, List.filterMap_flatMap,
    Model.flatMap_elements hvs]
  refine WarnsExactly.each fun o _ => WarnsExactly.before ?_
    (fun _ => plain_emptyLine.warnsOf) List.not_mem_nil
  cases o with
  | ref o => exact warns_operation o
  | absent | flag _ | text _ | refs _ =>
    -- Only elements have names, so that the run ends with a fault before it warns.
    refine WarnsExactly.lifted fun _ hname => ?_
    cases hname

end Declarer

namespace Declarer

variable {d : Declarer} {c p : ElementId}

/-- The elements that a declaration asks for the types of, in order: the fields of what is walked
for it, and then the parameters of its own operations. Unions, enumerations and primitive types ask
for none. -/
inductive Typed (d : Declarer) (c : ElementId) : List ElementId → Prop where
  | interface {met : List Value} {order : List ElementId} :
      (d.element c).kind = .interface → d.repository.Walk [] [.ref c] met (order.map .ref) →
      Typed d c (order.flatMap d.repository.own ++
        (d.model.operationsOf c).flatMap d.model.writtenParameters)
  | object {form : ClassForm} {orders : List (List ElementId)} {line : List ElementId} :
      (d.element c).kind = .klass → d.formOf c = .ok form → form ≠ .union →
      d.repository.WalkOrders (d.repository.leading .interfaceRealization (.ref c)) orders →
      d.repository.FirstLine c line →
      Typed d c ((orders.flatten ++ line.reverse).flatMap d.repository.own ++
        (d.model.operationsOf c).flatMap d.model.writtenParameters)
  | union : (d.element c).kind = .klass → d.formOf c = .ok .union → Typed d c []
  | plain : (d.element c).kind = .enumeration ∨ (d.element c).kind = .primitiveType → Typed d c []

/-- What a declaration does gives one warning for each element that it asks for the type of, if the
multiplicity of that element is unknown. -/
def WarnsTyped [Platform] (d : Declarer) (c : ElementId) (x : Emission Unit) : Prop :=
  x.result = .ok () → ∃ es, d.Typed c es ∧
    x.warned .unknownMultiplicity = es.filterMap d.model.unknownWarning?

namespace WarnsTyped

variable [Platform] {α : Type} {ks : List WarningKind}

theorem after {x : Emission α} {f : α → Emission Unit} (hx : WarnsOf ks x)
    (hk : .unknownMultiplicity ∉ ks) (hf : ∀ a, d.WarnsTyped c (f a)) :
    d.WarnsTyped c (x >>= f) := by
  intro h
  obtain ⟨a, -, ha, hwarned⟩ := warned_after hx hk h
  rw [hwarned]
  exact hf a ha

theorem lifted {x : Except ModelFault α} {f : α → Emission Unit}
    (hf : ∀ a, x = .ok a → d.WarnsTyped c (f a)) : d.WarnsTyped c (liftM x >>= f) := by
  intro h
  obtain ⟨a, ha, h⟩ := bind_ok.mp h
  rw [lift_result] at ha
  rw [ha, lift_ok_bind]
  exact hf a ha h

theorem silent {x : Emission Unit} (hx : WarnsOf ks x) (hk : .unknownMultiplicity ∉ ks)
    (hc : d.Typed c []) : d.WarnsTyped c x := fun _ => ⟨[], hc, warned_of_warnsOf hx hk⟩

theorem wrapped {x : Emission Unit} (hx : d.WarnsTyped c x) (what : String) :
    d.WarnsTyped c (do d.trace what c; x; Emission.emptyLine) := by
  intro h
  obtain ⟨hok, hwarned⟩ := warned_wrapped h
  rw [hwarned]
  exact hx hok

theorem block {table : Emission FieldTable} (title : Text)
    (ht : ∀ t, table.result = .ok t → ∃ es,
      d.Typed c (es ++ (d.model.operationsOf c).flatMap d.model.writtenParameters) ∧
      table.warned .unknownMultiplicity = es.filterMap d.model.unknownWarning?) :
    d.WarnsTyped c (d.block title table c) := by
  have hindent : WarnsOf [] Emission.indent := emits_emit (by simp)
  have houtdent : WarnsOf [] Emission.outdent := emits_emit (by simp)
  refine after (plain_line _).warnsOf List.not_mem_nil fun _ =>
    after plain_emptyLine.warnsOf List.not_mem_nil fun _ =>
    after hindent List.not_mem_nil fun _ h => ?_
  obtain ⟨t, hok, h⟩ := bind_ok.mp h
  obtain ⟨es, htyped, hfields⟩ := ht t hok
  refine ⟨_, htyped, ?_⟩
  rw [warned_bind hok, hfields, List.filterMap_append]
  refine congrArg _ (WarnsExactly.after (d.plain_fields t).warnsOf List.not_mem_nil
    (fun _ => WarnsExactly.before (warns_operations c) (fun _ => ?_) List.not_mem_nil) () h)
  exact houtdent.bind fun _ => (plain_line _).warnsOf

theorem interface (hkind : (d.element c).kind = .interface) :
    d.WarnsTyped c (d.interface c) := by
  refine after (d.plain_checkName c).warnsOf (by decide) fun _ =>
    after (d.plain_docOf _).warnsOf List.not_mem_nil fun _ => lifted fun parents _ =>
    lifted fun names _ => lifted fun extending _ => lifted fun title _ => block _ fun t ht => ?_
  obtain ⟨ws, hws, -⟩ := Repository.interfaceTable_ok.mp ht
  obtain ⟨order, ⟨met, hwalk⟩, hwarned⟩ := Repository.warned_interfaceWrites hws
  refine ⟨order.flatMap d.repository.own, .interface hkind hwalk, ?_⟩
  rw [Repository.interfaceTable, warned_bind hws, hwarned]
  exact List.append_nil _

theorem object {form : ClassForm} (hkind : (d.element c).kind = .klass)
    (hform : d.formOf c = .ok form) (hunion : form ≠ .union) :
    d.WarnsTyped c (d.object form.keyword c) := by
  rw [object_eq]
  refine after (d.plain_nameCheck _ c).warnsOf (by decide) fun _ =>
    after (d.plain_docOf _).warnsOf List.not_mem_nil fun _ =>
    after (d.plain_head _ c).warnsOf (by decide) fun ancestry => block _ fun t ht => ?_
  obtain ⟨ws, hws, -⟩ := Repository.classTable_ok.mp ht
  obtain ⟨orders, line, horders, hline, hwarned⟩ := Repository.warned_classWrites hws
  refine ⟨_, .object hkind hform hunion horders hline, ?_⟩
  rw [Repository.classTable, warned_bind hws, hwarned]
  exact List.append_nil _

theorem klass (hkind : (d.element c).kind = .klass) : d.WarnsTyped c (d.klass c) := by
  refine lifted fun form hform => ?_
  cases form with
  | union => exact silent (d.plain_union c).warnsOf (by decide) (.union hkind hform)
  | input | schema | type => exact object hkind hform nofun

theorem enumeration (hkind : (d.element c).kind = .enumeration) :
    d.WarnsTyped c (d.enumeration c) := by
  have hwarns : WarnsOf [.invalidName] (d.enumeration c) :=
    (d.plain_checkName c).warnsOf.bind fun _ => (d.plain_docOf _).silent.warnsOf.bind fun _ =>
    (plain_line _).warnsOf.bind fun _ => (emits_emit (by simp)).bind fun _ =>
    (emits_lift _).bind fun _ => (emits_lift _).bind fun _ =>
    (Emits.each fun l => (d.plain_literal l).silent.warnsOf).bind fun _ =>
    (emits_emit (by simp)).bind fun _ => (plain_line _).warnsOf
  exact silent hwarns (by decide) (.plain (.inl hkind))

theorem single (hdeclared : (d.element c).isDeclared = true) : d.WarnsTyped c (d.single c) := by
  unfold Element.isDeclared at hdeclared
  unfold Declarer.single
  split at hdeclared
  next hkind =>
    have hconcrete : (!d.isAbstract (.ref c)) = true := hdeclared
    rw [hkind]
    dsimp only
    rw [if_pos hconcrete]
    exact (klass hkind).wrapped _
  next hkind =>
    rw [hkind]
    exact (interface hkind).wrapped _
  next hkind =>
    rw [hkind]
    exact (enumeration hkind).wrapped _
  next hkind =>
    rw [hkind]
    exact (silent (d.plain_scalar c).warnsOf (by decide) (.plain (.inr hkind))).wrapped _
  next => cases hdeclared

end WarnsTyped

theorem warned_declare [Platform] {k : WarningKind} (h : (d.declare p).result = .ok ()) :
    (∀ c ∈ d.model.declaredBelow p, (d.single c).result = .ok ()) ∧
      (d.declare p).warned k =
        (d.model.declaredBelow p).flatMap fun c => (d.single c).warned k := by
  obtain ⟨hsingle, hevents⟩ := d.declareWithin_unlogged h
  have hwarnings : warningsOf (d.declare p).events =
      (d.model.foundWithin (d.model.size + 1) p).flatMap
        fun c => warningsOf (d.single c).events := by
    rw [← warningsOf_unlogged, declare, hevents, warningsOf, List.filterMap_flatMap]
    exact List.flatMap_congr fun c _ => warningsOf_unlogged _
  refine ⟨fun c hc => hsingle c (List.mem_of_mem_filter hc), ?_⟩
  -- What is found and not declared has no warning of any kind.
  rw [warned, hwarnings, flatMap_filter_of_nil fun c _ hc => (d.single_undeclared hc).2.2]
  exact List.filter_flatMap ..

end Declarer

/-- Every declaration of a rendering has one warning for each element whose type it asks for and
whose multiplicity is given and unknown, in the order of the questions and under the name of that
element, and the rendering has no other warnings of this kind. -/
theorem unknown_multiplicities_warned [Platform] {m : Model} {o : Options}
    {header : Option (Option Template)} {p : ElementId} {R : Rendering}
    (h : (render m o header p).result = .ok R) :
    ∃ (r : Repository) (parts : List (List ElementId)), Repository.around m p = .ok r ∧
      List.Forall₂ (fun c es => Declarer.Typed ⟨r, o⟩ c es ∧
          (Declarer.single ⟨r, o⟩ c).warned .unknownMultiplicity = es.filterMap m.unknownWarning?)
        (m.declaredBelow p) parts ∧
      warningsOfKind R.warnings .unknownMultiplicity =
        parts.flatten.filterMap m.unknownWarning? := by
  obtain ⟨r, indent, text, hr, -, hok, rfl⟩ := render_ok.mp h
  have hmodel := around_model hr
  subst hmodel
  obtain ⟨hdeclare, hheader⟩ :=
    Declarer.warned_afterHeader (d := ⟨r, o⟩) (k := .unknownMultiplicity) hok
  obtain ⟨hsingle, hwarned⟩ :=
    Declarer.warned_declare (d := ⟨r, o⟩) (k := .unknownMultiplicity) hdeclare
  have hdeclared : ∀ c ∈ r.model.declaredBelow p, (r.model.element c).isDeclared = true :=
    fun c hc => (List.mem_filter.mp hc).2
  obtain ⟨parts, hparts⟩ := exists_forall₂ fun c hc =>
    Declarer.WarnsTyped.single (d := ⟨r, o⟩) (hdeclared c hc) (hsingle c hc)
  refine ⟨r, parts, hr, hparts, ?_⟩
  rw [List.flatten_eq_flatMap, List.filterMap_flatMap]
  exact (hheader.trans hwarned).trans (flatMap_of_forall₂ (hparts.imp fun _ _ h => h.2))

/-- A class that replaces an attribute of its interface, extends another class and is associated
with it, and has two operations, of which one has no name. Most multiplicities are unknown. -/
def vagueShop : Model where
  elements := #[.given .project [(.name, .text "Shop"), (.owned, .refs [1, 2, 3, 4, 5, 6])],
    .given .interface [(.name, .text "Labeled"), (.attributes, .refs [9]), (.parent, .ref 0)],
    .given .klass [(.name, .text "Item"), (.attributes, .refs [10]), (.parent, .ref 0)],
    .given .klass [(.name, .text "Book"), (.attributes, .refs [11]), (.operations, .refs [12, 16]),
      (.parent, .ref 0)],
    .given .interfaceRealization [(.source, .ref 3), (.target, .ref 1), (.parent, .ref 0)],
    .given .generalization [(.source, .ref 3), (.target, .ref 2), (.parent, .ref 0)],
    .given .association [(.end1, .ref 7), (.end2, .ref 8), (.parent, .ref 0)],
    .given .associationEnd [(.reference, .ref 2), (.multiplicity, .text "few"), (.parent, .ref 6)],
    .given .associationEnd [(.name, .text "book"), (.reference, .ref 3), (.parent, .ref 6)],
    .given .property [(.name, .text "label"), (.multiplicity, .text "some"), (.parent, .ref 1)],
    .given .property [(.name, .text "code"), (.multiplicity, .text "2..1"), (.parent, .ref 2)],
    .given .property [(.name, .text "label"), (.multiplicity, .text "1"), (.parent, .ref 3)],
    .given .operation [(.name, .text "find"), (.parameters, .refs [13, 14, 15]), (.parent, .ref 3)],
    .given .parameter [(.name, .text "found"), (.multiplicity, .text "?"),
      (.direction, .text "return"), (.parent, .ref 12)],
    .given .parameter [(.name, .text "key"), (.multiplicity, .text " "), (.parent, .ref 12)],
    .given .parameter [(.name, .text "more"), (.multiplicity, .text "?"),
      (.direction, .text "return"), (.parent, .ref 12)],
    .given .operation [(.parameters, .refs [14]), (.parent, .ref 3)]]

attribute [local instance] Platform.usual

theorem vagueShop_warned :
    ∃ R r parts, (render vagueShop {} (some none) 0).result = .ok R ∧
      Repository.around vagueShop 0 = .ok r ∧
      List.Forall₂ (fun c es => Declarer.Typed ⟨r, {}⟩ c es ∧
          (Declarer.single ⟨r, {}⟩ c).warned .unknownMultiplicity =
            es.filterMap vagueShop.unknownWarning?) [1, 2, 3] parts ∧
      warningsOfKind R.warnings .unknownMultiplicity =
        parts.flatten.filterMap vagueShop.unknownWarning? ∧
      (warningsOfKind R.warnings .unknownMultiplicity).map (·.element) =
        [.ofText "label", .ofText "code", .ofText "label", .ofText "code", .ofText [],
          .ofText "key", .ofText "found"] := by
  have hdeclared : vagueShop.declaredBelow 0 = [1, 2, 3] := by decide +kernel
  have hsome : (render vagueShop {} (some none) 0).result.toOption.map
      (fun R => (warningsOfKind R.warnings .unknownMultiplicity).map (·.element)) =
        some [.ofText "label", .ofText "code", .ofText "label", .ofText "code", .ofText [],
          .ofText "key", .ofText "found"] := by decide +kernel
  obtain ⟨R, hR, hnames⟩ := Option.map_eq_some_iff.mp hsome
  obtain ⟨r, parts, hr, hparts, hwarned⟩ := unknown_multiplicities_warned (ok_of_toOption hR)
  rw [hdeclared] at hparts
  exact ⟨R, r, parts, ok_of_toOption hR, hr, hparts, hwarned, hnames⟩

end UmlSchema
