import UmlSchema.Proofs.BuildOrder

/-!
# References between elements

Identifiers are collected over the whole document before the first reference is resolved. So a
reference leads to the last element that carries its identifier, wherever that element stands, and
reading fails at the first reference, in build order, that leads nowhere.
-/
namespace UmlSchema

namespace Model

theorem get?_set_self (m : Model) {e : ElementId} (he : e < m.size) (f : Field) (v : Value) :
    ((m.set e f v).element e).get? f = some v := by
  have helement : (m.set e f v).element e = (m.element e).set f v := by
    have he : e < m.elements.size := he
    simp only [set, update, element, Array.getD_eq_getD_getElem?, Array.getElem?_modify]
    rw [if_pos trivial, Array.getElem?_eq_getElem he]
    rfl
  rw [helement, Element.get?_set_self]

theorem get?_set_of_ne (m : Model) {e x : ElementId} {f g : Field} (v : Value)
    (h : (x, g) ≠ (e, f)) : ((m.set e f v).element x).get? g = (m.element x).get? g := by
  by_cases hx : x = e
  · subst hx
    have hfield : f ≠ g := fun heq => h (by rw [heq])
    rcases m.element_set x x f v with hsame | hset
    · rw [hsame]
    · rw [hset, Element.get?_set_of_ne _ _ hfield]
  · have helement : (m.set e f v).element x = m.element x := by
      simp [set, update, element, Array.getD_eq_getD_getElem?, Array.getElem?_modify, Ne.symm hx]
    rw [helement]

end Model

namespace Origin

/-- No element carries the identifier of a reference. -/
def Dangling (os : List Origin) (r : Node.OpenReference) : Prop :=
  ∀ o ∈ os, ∀ k, o.id? = some k → Key.ofJson? r.id ≠ some k

/-- The last element that carries an identifier. -/
def LastCarrier (os : List Origin) (k : Key) (t : Nat) : Prop :=
  ∃ before o after, os = before ++ o :: after ∧ before.length = t ∧ o.id? = some k ∧
    ∀ x ∈ after, x.id? ≠ some k

theorem carried_cons (start : Nat) (o : Origin) (os : List Origin) :
    carried start (o :: os) = (o.id?.map (·, start)).toList ++ carried (start + 1) os := by
  unfold carried
  rw [List.zipIdx_cons, List.filterMap_cons]
  dsimp only
  cases o.id? <;> rfl

theorem recorded_cons (start : Nat) (o : Origin) (os : List Origin) :
    recorded start (o :: os) =
      (o.references.map fun (f, id) => ⟨start, f, id⟩) ++ recorded (start + 1) os := by
  unfold recorded
  rw [List.zipIdx_cons, List.flatMap_cons]

end Origin

namespace Document

open Origin

theorem lookup_append (a b : List (Key × ElementId)) (k : Key) :
    lookup (a ++ b) k = (lookup b k).or (lookup a k) := by
  unfold lookup
  rw [List.reverse_append, List.find?_append]
  cases (b.reverse.find? fun i => decide (i.1 = k)) <;> rfl

theorem lookup_carried_cons (start : Nat) (o : Origin) (os : List Origin) (k : Key) :
    lookup (carried start (o :: os)) k =
      (lookup (carried (start + 1) os) k).or (if o.id? = some k then some start else none) := by
  rw [carried_cons, lookup_append]
  congr 1
  unfold lookup
  cases o.id? with
  | none => rfl
  | some k' => by_cases hk : k' = k <;> simp [hk]

theorem lookup_none {start : Nat} {os : List Origin} {k : Key} :
    lookup (carried start os) k = none ↔ ∀ o ∈ os, o.id? ≠ some k := by
  induction os generalizing start with
  | nil => simp [carried, lookup]
  | cons o os ih =>
    rw [lookup_carried_cons, Option.or_eq_none_iff, ih, List.forall_mem_cons, and_comm]
    by_cases hk : o.id? = some k <;> simp [hk]

theorem lookup_some {start t : Nat} {os : List Origin} {k : Key}
    (h : lookup (carried start os) k = some t) : ∃ i, LastCarrier os k i ∧ start + i = t := by
  induction os generalizing start with
  | nil => simp [carried, lookup] at h
  | cons o os ih =>
    rw [lookup_carried_cons] at h
    cases hrest : lookup (carried (start + 1) os) k with
    | some t' =>
      rw [hrest] at h
      cases h
      obtain ⟨i, ⟨before, x, after, rfl, rfl, hx, hafter⟩, hi⟩ := ih hrest
      refine ⟨before.length + 1, ⟨o :: before, x, after, rfl, rfl, hx, hafter⟩, ?_⟩
      omega
    | none =>
      rw [hrest, Option.none_or] at h
      split at h
      · rename_i hk
        cases h
        exact ⟨0, ⟨[], o, os, rfl, rfl, hk, lookup_none.mp hrest⟩, rfl⟩
      · cases h

/-- What a reference becomes. -/
def referenceValue (m : Model) (f : Field) (target : ElementId) : Value :=
  if f = .stereotype then (m.element target).name else .ref target

theorem resolved_eq (m : Model) (o : Node.OpenReference) (target : ElementId) :
    resolved m o target = m.set o.element o.field (referenceValue m o.field target) := by
  unfold resolved referenceValue
  split
  · rename_i hf
    rw [if_pos hf, hf]
  · rename_i hf
    rw [if_neg hf]

def Answered (ids : List (Key × ElementId)) (r : Node.OpenReference) (t : ElementId) : Prop :=
  ∃ k, Key.ofJson? r.id = some k ∧ lookup ids k = some t

theorem resolve_cons (ids : List (Key × ElementId)) (m : Model) {r : Node.OpenReference}
    (rs : List Node.OpenReference) (hkey : (Key.ofJson? r.id).isSome = true) :
    ((∀ t, ¬Answered ids r t) ∧ resolve ids m (r :: rs) = .error (.unresolved r.id.plainText)) ∨
    ∃ t, Answered ids r t ∧ resolve ids m (r :: rs) =
      resolve ids (m.set r.element r.field (referenceValue m r.field t)) rs := by
  obtain ⟨k, hk⟩ := Option.isSome_iff_exists.mp hkey
  rw [resolve, hk]
  cases hlookup : lookup ids k with
  | none =>
    refine .inl ⟨fun t ⟨k', hk', ht⟩ => ?_, by simp only [hlookup]⟩
    rw [hk] at hk'
    cases hk'
    rw [hlookup] at ht
    cases ht
  | some t =>
    refine .inr ⟨t, ⟨k, hk, hlookup⟩, ?_⟩
    simp only [hlookup, resolved_eq]

theorem resolve_step {ids : List (Key × ElementId)} {m m' : Model} {r : Node.OpenReference}
    {rs : List Node.OpenReference} (h : resolve ids m (r :: rs) = .ok m') :
    ∃ t, Answered ids r t ∧
      resolve ids (m.set r.element r.field (referenceValue m r.field t)) rs = .ok m' := by
  obtain ⟨k, t, hk, ht, h⟩ := resolve_cons_ok h
  rw [resolved_eq] at h
  exact ⟨t, ⟨k, hk, ht⟩, h⟩

theorem resolve_error {ids : List (Key × ElementId)} {m : Model} {rs : List Node.OpenReference}
    (hkeys : ∀ r ∈ rs, (Key.ofJson? r.id).isSome = true) {fault : ReadFault} :
    resolve ids m rs = .error fault ↔ ∃ before r after, rs = before ++ r :: after ∧
      (∀ b ∈ before, ∃ t, Answered ids b t) ∧ (∀ t, ¬Answered ids r t) ∧
      fault = .unresolved r.id.plainText := by
  induction rs generalizing m with
  | nil => simp [resolve]
  | cons r rs ih =>
    obtain ⟨hkey, hrest⟩ := List.forall_mem_cons.mp hkeys
    rcases resolve_cons ids m rs hkey with ⟨hnone, hfail⟩ | ⟨t, ht, hstep⟩
    · rw [hfail]
      constructor
      · intro h
        cases h
        exact ⟨[], r, rs, rfl, fun _ hb => (nomatch hb), hnone, rfl⟩
      · rintro ⟨before, x, after, heq, hbefore, -, rfl⟩
        cases before with
        | nil =>
          cases heq
          rfl
        | cons b before =>
          cases heq
          obtain ⟨t, ht⟩ := hbefore r List.mem_cons_self
          exact absurd ht (hnone t)
    · rw [hstep, ih hrest]
      constructor
      · rintro ⟨before, x, after, rfl, hbefore, hx⟩
        exact ⟨r :: before, x, after, rfl, List.forall_mem_cons.mpr ⟨⟨t, ht⟩, hbefore⟩, hx⟩
      · rintro ⟨before, x, after, heq, hbefore, hx⟩
        cases before with
        | nil =>
          cases heq
          exact absurd ht (hx.1 t)
        | cons b before =>
          cases heq
          exact ⟨before, x, after, rfl, (List.forall_mem_cons.mp hbefore).2, hx⟩

theorem resolve_other {ids : List (Key × ElementId)} {m m' : Model}
    {rs : List Node.OpenReference} (h : resolve ids m rs = .ok m') {e : ElementId} {f : Field}
    (hnot : (e, f) ∉ rs.map fun r => (r.element, r.field)) :
    (m'.element e).get? f = (m.element e).get? f := by
  induction rs generalizing m with
  | nil =>
    cases h
    rfl
  | cons r rs ih =>
    rw [List.map_cons, List.mem_cons, not_or] at hnot
    obtain ⟨t, -, h⟩ := resolve_step h
    rw [ih h hnot.2]
    exact m.get?_set_of_ne _ hnot.1

theorem resolve_value {ids : List (Key × ElementId)} {m m' : Model}
    {rs : List Node.OpenReference} (h : resolve ids m rs = .ok m')
    (hfields : ∀ r ∈ rs, r.field ∈ referenceFields) (hrange : ∀ r ∈ rs, r.element < m.size)
    (hnodup : (rs.map fun r => (r.element, r.field)).Nodup) {r : Node.OpenReference} (hr : r ∈ rs) :
    ∃ t, Answered ids r t ∧
      (m'.element r.element).get? r.field = some (referenceValue m' r.field t) := by
  induction rs generalizing m with
  | nil => cases hr
  | cons x rs ih =>
    obtain ⟨hx, hxs⟩ := List.nodup_cons.mp hnodup
    have hname (t : ElementId) : (m'.element t).name = (m.element t).name :=
      Option.some.inj ((sameTree_resolve hfields h).field t .name (by decide))
    obtain ⟨t, ht, h⟩ := resolve_step h
    rcases List.mem_cons.mp hr with rfl | hr
    · -- The references after it go elsewhere, and none of them changes a name.
      refine ⟨t, ht, ?_⟩
      rw [resolve_other h hx, m.get?_set_self (hrange r List.mem_cons_self)]
      simp only [referenceValue, hname]
    · refine ih h (List.forall_mem_cons.mp hfields).2 (fun y hy => ?_) hxs hr
      rw [m.size_set]
      exact hrange y (List.mem_cons_of_mem _ hy)

end Document

namespace Origin

theorem fields_sublist (o : Origin) :
    (o.references.map (·.1)).Sublist Document.referenceFields := by
  unfold references Document.referenceFields
  rw [referring_eq]
  induction Node.referenceMembers with
  | nil => exact .slnil
  | cons nf rest ih =>
    obtain ⟨name, f⟩ := nf
    rw [List.map_cons, List.filterMap_cons]
    split
    · exact ih.cons _
    · rename_i r hr
      dsimp only at hr
      split at hr
      · obtain ⟨id, -, rfl⟩ := Option.map_eq_some_iff.mp hr
        exact ih.cons_cons _
      · cases hr

theorem mem_recorded {start : Nat} {os : List Origin} {r : Node.OpenReference}
    (h : r ∈ recorded start os) : start ≤ r.element ∧ r.element < start + os.length := by
  induction os generalizing start with
  | nil => cases h
  | cons o os ih =>
    rw [recorded_cons, List.mem_append] at h
    rw [List.length_cons]
    rcases h with h | h
    · obtain ⟨x, -, rfl⟩ := List.mem_map.mp h
      exact ⟨Nat.le_refl _, Nat.lt_add_of_pos_right (Nat.succ_pos _)⟩
    · obtain ⟨hlo, hhi⟩ := ih h
      constructor
      · exact Nat.le_of_succ_le hlo
      · rwa [Nat.add_right_comm] at hhi

theorem nodup_recorded (start : Nat) (os : List Origin) :
    ((recorded start os).map fun r => (r.element, r.field)).Nodup := by
  induction os generalizing start with
  | nil => exact .nil
  | cons o os ih =>
    rw [recorded_cons, List.map_append, List.map_map]
    refine List.Nodup.append ?_ (ih (start + 1)) fun p hp hq => ?_
    · have hfields : (o.references.map (·.1)).Nodup :=
        List.Nodup.sublist o.fields_sublist (by decide)
      have hpairs := hfields.map (f := fun g => (start, g)) fun f g hfg => congrArg Prod.snd hfg
      rwa [List.map_map] at hpairs
    · obtain ⟨x, -, rfl⟩ := List.mem_map.mp hp
      obtain ⟨r, hr, heq⟩ := List.mem_map.mp hq
      have hlo := (mem_recorded hr).1
      have helement : r.element = start := congrArg Prod.fst heq
      rw [helement] at hlo
      exact absurd hlo (Nat.not_succ_le_self _)

end Origin

namespace Document

open Origin

theorem not_answered_iff {os : List Origin} {r : Node.OpenReference}
    (hkey : (Key.ofJson? r.id).isSome = true) :
    (∀ t, ¬Answered (carried 0 os) r t) ↔ Dangling os r := by
  obtain ⟨k, hk⟩ := Option.isSome_iff_exists.mp hkey
  have hdangling : Dangling os r ↔ lookup (carried 0 os) k = none := by
    rw [lookup_none, Dangling, hk]
    constructor
    · intro h o ho hid
      exact h o ho k hid rfl
    · intro h o ho k' hid hsame
      exact h o ho (hid.trans hsame.symm)
  rw [hdangling]
  constructor
  · intro h
    refine Option.eq_none_iff_forall_ne_some.mpr fun t ht => h t ⟨k, hk, ht⟩
  · rintro h t ⟨k', hk', ht⟩
    rw [hk] at hk'
    cases hk'
    rw [h] at ht
    cases ht

theorem agrees_of_build {j : Json} {n : Node} (htype : (j.get? "_type").isSome = true)
    (hn : Node.ofJson j = .ok n) : Agrees (built (some j)) 0 n.size (n.identifiers 0)
      (n.openReferences 0) (n.elements .absent 0) := by
  have hobject : j.isObject = true := by
    cases j with
    | obj members => rfl
    | _ => cases htype
  exact Node.agrees .absent 0 n (some j) ⟨hobject, hn⟩

/-- Reading in terms of the build order: references are resolved in a model of new elements. -/
theorem ofJson_eq {j : Json} {n : Node} (htype : (j.get? "_type").isSome = true)
    (hn : Node.ofJson j = .ok n) : ∃ count, ofJson j =
      (resolve (carried 0 (built (some j))) n.place (recorded 0 (built (some j)))).map
        fun m => ⟨m, 0, count⟩ := by
  obtain ⟨value, hvalue⟩ := Option.isSome_iff_exists.mp htype
  have hagrees := agrees_of_build htype hn
  refine ⟨(distinct ((n.identifiers 0).map (·.1))).length, ?_⟩
  rw [ofJson, hvalue, hn, ← hagrees.identifiers, ← hagrees.references]
  unfold ofNode
  dsimp only
  cases resolve (n.identifiers 0) n.place (n.openReferences 0) <;> rfl

theorem element_place {os : List Origin} {n : Node} {start size : Nat}
    {ids : List (Key × ElementId)} {rs : List Node.OpenReference}
    (h : Agrees os start size ids rs (n.elements .absent 0)) {i : Nat} {o : Origin}
    (ho : os[i]? = some o) :
    (n.place.element i).kind = o.kind ∧ (n.place.element i).name = .text o.name := by
  obtain ⟨hi, rfl⟩ := List.getElem?_eq_some_iff.mp ho
  obtain ⟨hlength, hall⟩ := List.forall₂_iff_get.mp h.elements
  have hx : i < (n.elements .absent 0).length := hlength ▸ hi
  have helement : n.place.element i = (n.elements .absent 0)[i] := by
    simp [Node.place, Model.element, Array.getD_eq_getD_getElem?, List.getElem?_eq_getElem hx]
  rw [helement]
  exact hall i hx hi

section Build

variable {j : Json} {n : Node}

theorem field_of_recorded (htype : (j.get? "_type").isSome = true) (hn : Node.ofJson j = .ok n)
    {r : Node.OpenReference} (hr : r ∈ recorded 0 (built (some j))) :
    r.field ∈ referenceFields := by
  rw [← (agrees_of_build htype hn).references] at hr
  exact Node.openReferences_field (Node.ofJson_each hn) 0 r hr

theorem size_place_eq (htype : (j.get? "_type").isSome = true) (hn : Node.ofJson j = .ok n) :
    n.place.size = (built (some j)).length :=
  n.size_place.trans (agrees_of_build htype hn).size

theorem value_of_recorded (htype : (j.get? "_type").isSome = true) (hn : Node.ofJson j = .ok n)
    {m : Model}
    (hm : resolve (carried 0 (built (some j))) n.place (recorded 0 (built (some j))) = .ok m)
    {r : Node.OpenReference} (hr : r ∈ recorded 0 (built (some j))) :
    ∃ t, Answered (carried 0 (built (some j))) r t ∧
      (m.element r.element).get? r.field = some (referenceValue m r.field t) := by
  refine resolve_value hm (fun x hx => field_of_recorded htype hn hx) (fun x hx => ?_)
    (nodup_recorded 0 _) hr
  have hlt := (mem_recorded hx).2
  rwa [Nat.zero_add, ← size_place_eq htype hn] at hlt

end Build

end Document

/-- Once the nodes of a document are built, reading it fails exactly if a reference leads nowhere,
and it fails with the first such reference in build order. Otherwise each reference leads to the
last element that carries its identifier, before or behind it, and a stereotype takes over the name
of that element. -/
theorem references_resolved {j : Json} (htype : (j.get? "_type").isSome = true)
    (hbuild : (Node.ofJson j).isOk = true)
    (hkeys : ∀ r ∈ Origin.recorded 0 (Origin.built (some j)), (Key.ofJson? r.id).isSome = true) :
    let os := Origin.built (some j)
    let rs := Origin.recorded 0 os
    (∀ fault, Document.ofJson j = .error fault ↔ ∃ before r after, rs = before ++ r :: after ∧
      (∀ b ∈ before, ¬Origin.Dangling os b) ∧ Origin.Dangling os r ∧
      fault = .unresolved r.id.plainText ∧
      ∀ path, fault.message? path = some (path ++ ": unresolved reference " ++ r.id.plainText)) ∧
    ((∃ doc, Document.ofJson j = .ok doc) ↔ ∀ r ∈ rs, ¬Origin.Dangling os r) ∧
    ∀ doc, Document.ofJson j = .ok doc → doc.model.size = os.length ∧
      (∀ i o, os[i]? = some o → (doc.model.element i).kind = o.kind ∧
        (doc.model.element i).name = .text o.name) ∧
      ∀ r ∈ rs, ∃ k t, Key.ofJson? r.id = some k ∧ Origin.LastCarrier os k t ∧
        (doc.model.element r.element).get? r.field =
          some (if r.field = .stereotype then (doc.model.element t).name else .ref t) := by
  intro os rs
  have hkeys : ∀ r ∈ rs, (Key.ofJson? r.id).isSome = true := hkeys
  obtain ⟨n, hn⟩ := exists_ok hbuild
  obtain ⟨count, hread⟩ := Document.ofJson_eq htype hn
  have hanswered {r : Node.OpenReference} (hr : r ∈ rs) :
      (∃ t, Document.Answered (Origin.carried 0 os) r t) ↔ ¬Origin.Dangling os r := by
    rw [← Document.not_answered_iff (hkeys r hr), not_forall_not]
  have hsplit {before after : List Node.OpenReference} {r : Node.OpenReference}
      (heq : rs = before ++ r :: after) : r ∈ rs := by
    rw [heq]
    exact List.mem_append_right _ List.mem_cons_self
  refine ⟨fun fault => ?_, ⟨?_, fun hnone => ?_⟩, fun doc hdoc => ?_⟩
  · have herror : Document.ofJson j = .error fault ↔
        Document.resolve (Origin.carried 0 os) n.place rs = .error fault := by
      rw [hread]
      cases Document.resolve (Origin.carried 0 os) n.place rs <;> simp [Except.map]
    rw [herror, Document.resolve_error hkeys]
    constructor
    · rintro ⟨before, r, after, heq, hbefore, hr, rfl⟩
      refine ⟨before, r, after, heq, fun b hb => ?_, ?_, rfl, fun _ => rfl⟩
      · exact (hanswered (heq ▸ List.mem_append_left _ hb)).mp (hbefore b hb)
      · exact (Document.not_answered_iff (hkeys r (hsplit heq))).mp hr
    · rintro ⟨before, r, after, heq, hbefore, hr, rfl, -⟩
      refine ⟨before, r, after, heq, fun b hb => ?_, ?_, rfl⟩
      · exact (hanswered (heq ▸ List.mem_append_left _ hb)).mpr (hbefore b hb)
      · exact (Document.not_answered_iff (hkeys r (hsplit heq))).mpr hr
  · rintro ⟨doc, hdoc⟩ r hr
    rw [hread] at hdoc
    obtain ⟨m, hm, -⟩ := except_map_ok.mp hdoc
    obtain ⟨t, ht, -⟩ := Document.value_of_recorded htype hn hm hr
    exact (hanswered hr).mp ⟨t, ht⟩
  · cases hresolve : Document.resolve (Origin.carried 0 os) n.place rs with
    | ok m => exact ⟨_, hread.trans (except_map_ok.mpr ⟨m, hresolve, rfl⟩)⟩
    | error fault =>
      obtain ⟨before, r, after, heq, -, hr, -⟩ := (Document.resolve_error hkeys).mp hresolve
      obtain ⟨t, ht⟩ := (hanswered (hsplit heq)).mpr (hnone r (hsplit heq))
      exact absurd ht (hr t)
  · rw [hread] at hdoc
    obtain ⟨m, hm, rfl⟩ := except_map_ok.mp hdoc
    have hsame := Document.sameTree_resolve (fun r => Document.field_of_recorded htype hn) hm
    refine ⟨hsame.size.trans (Document.size_place_eq htype hn), fun i o ho => ?_, fun r hr => ?_⟩
    · obtain ⟨hkind, hname⟩ := Document.element_place (Document.agrees_of_build htype hn) ho
      refine ⟨(hsame.kind i).trans hkind, ?_⟩
      exact (Option.some.inj (hsame.field i .name (by decide))).trans hname
    · obtain ⟨t, ⟨k, hk, hlookup⟩, hget⟩ := Document.value_of_recorded htype hn hm hr
      obtain ⟨i, hlast, rfl⟩ := Document.lookup_some hlookup
      rw [Nat.zero_add] at hget
      exact ⟨k, i, hk, hlast, hget⟩

/-- A class whose stereotype stands behind it and whose attribute refers to an identifier that two
interfaces and a diagram carry. -/
def forwardShop : Json :=
  plainNode "Project" "Shop"
    [plainNode "UMLClass" "Item" []
      [(Text.ofString "stereotype", .obj [(Text.ofString "$ref", .str "later")]),
       (Text.ofString "attributes", .arr [.obj [(Text.ofString "_type", .str "UMLAttribute"),
        (Text.ofString "type", .obj [(Text.ofString "$ref", .bool true)])]])],
     plainNode "UMLInterface" "First" [] [(Text.ofString "_id", .int 1)],
     plainNode "UMLInterface" "Second" [] [(Text.ofString "_id", .int 1)],
     plainNode "UMLClassDiagram" "Main" [] [(Text.ofString "_id", .int 1)],
     plainNode "UMLPackage" "entity" [] [(Text.ofString "_id", .str "later")]] []

/-- The attribute is of the second interface's type, and the stereotype is the package's name. -/
theorem forwardShop_resolved :
    ∃ doc, Document.ofJson forwardShop = .ok doc ∧ doc.model.size = 6 ∧
      (doc.model.element 1).get? .stereotype = some (.text "entity") ∧
      (doc.model.element 2).get? .type = some (.ref 4) ∧
      Origin.LastCarrier (Origin.built (some forwardShop)) (.int 1) 4 := by
  have h : (match Node.ofJson forwardShop, Document.ofJson forwardShop with
      | .ok n, .ok doc => decide (((n.openReferences 0).map fun r =>
            (r.element, r.field, Key.ofJson? r.id)) =
              [(1, .stereotype, some (.text "later")), (2, .type, some (.int 1))] ∧
          doc.model.size = 6 ∧ (doc.model.element 1).get? .stereotype = some (.text "entity") ∧
          (doc.model.element 2).get? .type = some (.ref 4))
      | _, _ => false) = true := by decide +kernel
  cases hn : Node.ofJson forwardShop with
  | error fault => simp [hn] at h
  | ok n =>
    cases hread : Document.ofJson forwardShop with
    | error fault => simp [hn, hread] at h
    | ok doc =>
      simp only [hn, hread, decide_eq_true_eq] at h
      obtain ⟨hrecorded, hsize, hstereotype, htypeOf⟩ := h
      have htype : (forwardShop.get? "_type").isSome = true := rfl
      rw [(Document.agrees_of_build htype hn).references] at hrecorded
      have hkeys : ∀ r ∈ Origin.recorded 0 (Origin.built (some forwardShop)),
          (Key.ofJson? r.id).isSome = true := by
        intro r hr
        have hin := List.mem_map_of_mem (f := fun r => (r.element, r.field, Key.ofJson? r.id)) hr
        rw [hrecorded] at hin
        simp only [List.mem_cons, Prod.mk.injEq, List.not_mem_nil, or_false] at hin
        rcases hin with ⟨-, -, hkey⟩ | ⟨-, -, hkey⟩ <;> rw [hkey] <;> rfl
      obtain ⟨-, -, hall⟩ := references_resolved htype (by rw [hn]; rfl) hkeys
      obtain ⟨-, -, hvalues⟩ := hall doc hread
      obtain ⟨r, hr, heq⟩ : ∃ r ∈ Origin.recorded 0 (Origin.built (some forwardShop)),
          (r.element, r.field, Key.ofJson? r.id) = (2, .type, some (.int 1)) := by
        refine List.mem_map.mp ?_
        rw [hrecorded]
        exact List.mem_cons_of_mem _ List.mem_cons_self
      simp only [Prod.mk.injEq] at heq
      obtain ⟨helement, hfield, hkey⟩ := heq
      obtain ⟨k, t, hk, hlast, hget⟩ := hvalues r hr
      rw [helement, hfield, htypeOf] at hget
      rw [hkey] at hk
      cases hk
      cases hget
      exact ⟨doc, rfl, hsize, hstereotype, htypeOf, hlast⟩

end UmlSchema
