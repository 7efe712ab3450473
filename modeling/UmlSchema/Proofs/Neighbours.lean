import UmlSchema.Proofs.FieldNames

/-!
# What an element sees of its relationships

A query goes through all relationships of the repository and may fail at any of them. Where it does
not fail, its answer is a plain list in document order: the targets of what starts at an element,
and the far ends of its associations. The fields that an element writes are those of its attributes
and of the far ends that it sees.
-/
namespace UmlSchema

open Emission

theorem filterMap_of_forall₂ {α β : Type} {f : α → Option β} {xs : List α} {ys : List β}
    (h : List.Forall₂ (fun x y => f x = some y) xs ys) : xs.filterMap f = ys := by
  induction h with
  | nil => rfl
  | cons hy _ ih => rw [List.filterMap_cons_some hy, ih]

/-- The elements of a list. Nothing else has any. -/
def Value.elements : Value → List ElementId
  | .refs es => es
  | _ => []

theorem Model.members_elements {m : Model} {v : Value} {vs : List Value}
    (h : m.members v = .ok vs) (hvs : ∀ x ∈ vs, ∃ e, x = .ref e) : vs = v.elements.map .ref := by
  cases v with
  | refs es => exact (Except.ok.inj h).symm
  | text t =>
    obtain rfl := Except.ok.inj h
    cases t with
    | nil => rfl
    | cons c t =>
      obtain ⟨e, he⟩ := hvs _ List.mem_cons_self
      cases he
  | absent | flag _ | ref _ => cases h

namespace Model

/-- The writes of some attributes and association ends, one after the other. -/
def fieldWrites [Platform] (m : Model) (es : List ElementId) : Emission (List FieldWrite) := do
  let writes ← collect es fun e => m.fieldWrite (.ref e)
  return writes.flatten

theorem fieldWrites_singleton [Platform] (m : Model) (e : ElementId) :
    m.fieldWrites [e] = m.fieldWrite (.ref e) := by
  simp [fieldWrites, collect]

theorem fieldWrites_append [Platform] (m : Model) (es fs : List ElementId) :
    m.fieldWrites (es ++ fs) = (do
      let first ← m.fieldWrites es
      let second ← m.fieldWrites fs
      return first ++ second) := by
  simp [fieldWrites, collect_append]

theorem fieldWrites_ok [Platform] {m : Model} {es : List ElementId} {ws : List FieldWrite} :
    (m.fieldWrites es).result = .ok ws ↔ ∃ parts,
      List.Forall₂ (fun e w => (m.fieldWrite (.ref e)).result = .ok w) es parts ∧
        parts.flatten = ws := by
  simp only [fieldWrites, bind_ok, collect_ok, pure_result, Except.ok.injEq]

theorem fieldWrites_append_ok [Platform] {m : Model} {es fs : List ElementId}
    {ws vs : List FieldWrite} (hes : (m.fieldWrites es).result = .ok ws)
    (hfs : (m.fieldWrites fs).result = .ok vs) :
    (m.fieldWrites (es ++ fs)).result = .ok (ws ++ vs) := by
  rw [fieldWrites_append]
  exact bind_ok.mpr ⟨ws, hes, bind_ok.mpr ⟨vs, hfs, rfl⟩⟩

theorem fieldWrites_flatMap [Platform] {α : Type} (m : Model) (f : α → List ElementId)
    (xs : List α) :
    m.fieldWrites (xs.flatMap f) = (do
      let parts ← collect xs fun x => m.fieldWrites (f x)
      return parts.flatten) := by
  induction xs with
  | nil => rfl
  | cons x xs ih => simp [collect, fieldWrites_append, ih]

def endField (m : Model) (a : ElementId) (f g : Field) : Option Value :=
  ((m.element a).get? f).bind fun v => m.get? v g

theorem ref_of_endField {m : Model} {a : ElementId} {f g : Field} {w : Value}
    (h : m.endField a f g = some w) : ∃ e, (m.element a).get? f = some (.ref e) := by
  obtain ⟨v, hv, h⟩ := Option.bind_eq_some_iff.mp h
  cases v with
  | ref e => exact ⟨e, hv⟩
  | absent | flag _ | text _ | refs _ => cases h

/-- The far end of an association, if the near one refers to the element and the far one can be
followed. -/
def seenEnd (m : Model) (x a : ElementId) (near far : Field) : Option ElementId :=
  if m.endField a near .reference = some (.ref x) ∧
      (m.endField a far .navigable).any Value.isTrue = true then
    ((m.element a).get? far).bind Value.element?
  else none

def seenEnds (m : Model) (x a : ElementId) : List ElementId :=
  (m.seenEnd x a .end2 .end1).toList ++ (m.seenEnd x a .end1 .end2).toList

end Model

namespace Repository

variable {r : Repository}

/-- The targets of the relationships of a kind that start at a value, in document order. -/
def leading (r : Repository) (k : Kind) (v : Value) : List Value :=
  (r.relationships.filter (r.startsAt k v)).filterMap fun rel => (r.model.element rel).get? .target

theorem filter_startsAt {k : Kind} (hk : k.isA .directedRelationship = true) (v : Value) :
    (r.relationships.filter fun rel => decide (r.touches v rel = .ok true)).filter
      (r.startsAt k v) = r.relationships.filter (r.startsAt k v) := by
  rw [List.filter_filter]
  congr 1
  funext rel
  by_cases h : r.startsAt k v rel = true
  · simp [h, touches_of_startsAt hk h]
  · simp [h]

theorem targets_leading {k : Kind} (hk : k.isA .directedRelationship = true) {v : Value}
    {ws : List Value} (h : r.targets k v = .ok ws) : r.leading k v = ws := by
  obtain ⟨rels, hrels, h⟩ := except_bind_ok.mp h
  obtain ⟨-, rfl⟩ := select_ok hrels
  rw [filter_startsAt hk] at h
  exact filterMap_of_forall₂ ((except_mapM_ok.mp h).imp fun _ _ => readOf_ok.mp)

theorem readEnd_ok {a : ElementId} {f g : Field} {w : Value} :
    (r.readOf a f >>= fun v => r.model.read v g) = .ok w ↔ r.model.endField a f g = some w := by
  simp only [except_bind_ok, readOf_ok, read_ok, Model.endField, Option.bind_eq_some_iff]

theorem reference_ok {a : ElementId} {f : Field} {w : Value} :
    r.reference a f = .ok w ↔ r.model.endField a f .reference = some w := readEnd_ok

theorem navigable_ok {a : ElementId} {f : Field} {b : Bool} :
    r.navigable a f = .ok b ↔ ∃ x, r.model.endField a f .navigable = some x ∧ x.isTrue = b := by
  unfold navigable
  constructor
  · intro h
    obtain ⟨v, hv, h⟩ := except_bind_ok.mp h
    obtain ⟨x, hx, h⟩ := except_bind_ok.mp h
    cases h
    exact ⟨x, readEnd_ok.mp (except_bind_ok.mpr ⟨v, hv, hx⟩), rfl⟩
  · rintro ⟨x, hx, rfl⟩
    obtain ⟨v, hv, hx⟩ := except_bind_ok.mp (readEnd_ok.mpr hx)
    exact except_bind_ok.mpr ⟨v, hv, except_bind_ok.mpr ⟨x, hx, rfl⟩⟩

/-- The far ends of associations that an element sees, in document order. -/
def farEnds (r : Repository) (x : ElementId) : List ElementId :=
  (r.relationships.filter fun a => (r.model.element a).kind = .association).flatMap
    (r.model.seenEnds x)

/-- The near end refers to something, and the far one says whether it can be followed if it is
asked. -/
def Asked (r : Repository) (x a : ElementId) (near far : Field) : Prop :=
  ∃ w, r.reference a near = .ok w ∧ (w = .ref x → ∃ b, r.navigable a far = .ok b)

theorem asked_of_endWrite [Platform] {x a : ElementId} {near far : Field} {ws : List FieldWrite}
    (h : (r.endWrite (.ref x) a near far).result = .ok ws) : r.Asked x a near far := by
  obtain ⟨w, hw, h⟩ := bind_ok.mp h
  refine ⟨w, hw, fun hx => ?_⟩
  rw [if_pos (by simpa using hx)] at h
  obtain ⟨b, hb, -⟩ := bind_ok.mp h
  exact ⟨b, hb⟩

theorem endWrite_seen [Platform] {x a : ElementId} {near far : Field} (h : r.Asked x a near far) :
    r.endWrite (.ref x) a near far = r.model.fieldWrites (r.model.seenEnd x a near far).toList := by
  obtain ⟨w, hw, hfar⟩ := h
  have hnear := reference_ok.mp hw
  by_cases hx : w = .ref x
  · obtain ⟨b, hb⟩ := hfar hx
    obtain ⟨y, hy, hyb⟩ := navigable_ok.mp hb
    obtain ⟨e, he⟩ := Model.ref_of_endField hy
    subst hx
    simp only [endWrite, Model.seenEnd, hw, hb, readOf_ok.mpr he, lift_ok_bind, hnear, hy, he, hyb,
      Option.any_some, Value.isSame_ref]
    cases b with
    | true => exact (r.model.fieldWrites_singleton e).symm
    | false => rfl
  · have hnone : r.model.seenEnd x a near far = none := by
      rw [Model.seenEnd, if_neg]
      simp [hnear, hx]
    simp only [endWrite, hw, hnone, lift_ok_bind, Value.isSame_ref, hx]
    rfl

def Answers (r : Repository) (x a : ElementId) : Prop :=
  r.Asked x a .end2 .end1 ∧ r.Asked x a .end1 .end2

theorem answers_of_associationWrites [Platform] {x a : ElementId} {ws : List FieldWrite}
    (h : (r.associationWrites (.ref x) a).result = .ok ws) : r.Answers x a := by
  obtain ⟨first, hfirst, h⟩ := bind_ok.mp h
  obtain ⟨second, hsecond, -⟩ := bind_ok.mp h
  exact ⟨asked_of_endWrite hfirst, asked_of_endWrite hsecond⟩

theorem associationWrites_seen [Platform] {x a : ElementId} (h : r.Answers x a) :
    r.associationWrites (.ref x) a = r.model.fieldWrites (r.model.seenEnds x a) := by
  rw [associationWrites, endWrite_seen h.1, endWrite_seen h.2, Model.seenEnds,
    Model.fieldWrites_append]

theorem touches_association {v : Value} {a : ElementId} {b : Bool}
    (hkind : (r.model.element a).kind = .association) (h : r.touches v a = .ok b) :
    ∃ w, r.reference a .end1 = .ok w ∧ if v.isSame w then b = true else
      ∃ w', r.reference a .end2 = .ok w' ∧ v.isSame w' = b := by
  have hdirected : ¬(r.model.element a).isA .directedRelationship = true := by
    rw [Element.isA, hkind]
    decide
  rw [touches, if_neg hdirected, if_pos hkind] at h
  obtain ⟨w, hw, h⟩ := except_bind_ok.mp h
  refine ⟨w, hw, ?_⟩
  split
  · rename_i hsame
    rw [if_pos hsame] at h
    exact (Except.ok.inj h).symm
  · rename_i hsame
    rw [if_neg hsame] at h
    obtain ⟨w', hw', h⟩ := except_bind_ok.mp h
    exact ⟨w', hw', Except.ok.inj h⟩

theorem seenEnds_of_untouched {x a : ElementId}
    (hkind : (r.model.element a).kind = .association)
    (h : r.touches (.ref x) a = .ok false) : r.model.seenEnds x a = [] := by
  obtain ⟨w, hw, h⟩ := touches_association hkind h
  have hfirst := reference_ok.mp hw
  by_cases hx : w = .ref x
  · rw [if_pos (by simpa using hx)] at h
    cases h
  · rw [if_neg (by simpa using hx)] at h
    obtain ⟨w', hw', hx'⟩ := h
    have hsecond := reference_ok.mp hw'
    simp only [Value.isSame_ref, decide_eq_false_iff_not] at hx'
    simp [Model.seenEnds, Model.seenEnd, hfirst, hsecond, hx, hx']

theorem associationsOf_seen {x : ElementId} {as : List ElementId}
    (h : r.associationsOf (.ref x) = .ok as) : as.flatMap (r.model.seenEnds x) = r.farEnds x := by
  have kind : ∀ k : Kind, k.isA .association = decide (k = .association) := by
    intro k
    cases k <;> decide
  obtain ⟨rels, hrels, h⟩ := except_bind_ok.mp h
  cases h
  obtain ⟨hanswer, rfl⟩ := select_ok hrels
  simp only [Element.isA, kind]
  rw [List.filter_comm, ← flatMap_filter_of_nil, farEnds]
  intro a ha hmiss
  obtain ⟨ha, hkind⟩ := List.mem_filter.mp ha
  obtain ⟨b, hb⟩ := hanswer a ha
  cases b with
  | true => simp [hb] at hmiss
  | false => exact seenEnds_of_untouched (of_decide_eq_true hkind) hb

def attributesOf (r : Repository) (x : ElementId) : List ElementId :=
  match (r.model.element x).get? .attributes with
  | some (.refs es) => es
  | _ => []

/-- What an element has fields for: its attributes, then the far ends that it sees. -/
def ownMembers (r : Repository) (x : ElementId) : List ElementId :=
  r.attributesOf x ++ r.farEnds x

theorem attributesOf_eq (x : ElementId) : r.attributesOf x =
    ((r.model.get? (.ref x) .attributes).getD (.refs [])).elements := by
  have hget : r.model.get? (.ref x) .attributes = (r.model.element x).get? .attributes := rfl
  rw [attributesOf, hget]
  cases (r.model.element x).get? .attributes with
  | none => rfl
  | some v => cases v <;> rfl

theorem attributes_ok [Platform] {x : ElementId} {vs : List Value} {parts : List (List FieldWrite)}
    (hvs : r.model.members ((r.model.get? (.ref x) .attributes).getD (.refs [])) = .ok vs)
    (hparts : List.Forall₂ (fun v w => (r.model.fieldWrite v).result = .ok w) vs parts) :
    (r.model.fieldWrites (r.attributesOf x)).result = .ok parts.flatten := by
  have hrefs : ∀ v ∈ vs, ∃ e, v = .ref e := by
    intro v hv
    obtain ⟨w, -, hw⟩ := forall₂_mem_left hparts hv
    obtain ⟨name, hname, -⟩ := bind_ok.mp hw
    -- Only elements have names.
    cases v with
    | ref e => exact ⟨e, rfl⟩
    | absent | flag _ | text _ | refs _ => cases hname
  obtain rfl := Model.members_elements hvs hrefs
  rw [attributesOf_eq]
  exact Model.fieldWrites_ok.mpr ⟨parts, List.forall₂_map_left_iff.mp hparts, rfl⟩

theorem ownWrites_members [Platform] {x : ElementId} {ws : List FieldWrite}
    (h : (r.ownWrites (.ref x)).result = .ok ws) :
    (r.model.fieldWrites (r.ownMembers x)).result = .ok ws := by
  obtain ⟨-, vs, fromAttributes, as, -, fromAssociations, hvs, hattributes, has, -, hparts, rfl⟩ :=
    ownWrites_ok.mp h
  refine Model.fieldWrites_append_ok (attributes_ok hvs hattributes) ?_
  rw [← associationsOf_seen has]
  rw [Model.fieldWrites_flatMap]
  refine bind_ok.mpr ⟨_, collect_ok.mpr (hparts.imp fun a w hw => ?_), rfl⟩
  rw [← associationWrites_seen (answers_of_associationWrites hw)]
  exact hw

end Repository

end UmlSchema
