import UmlSchema.Platform.Usual
import UmlSchema.Proofs.InterfaceWalk

/-!
# Field names of flattened elements

Which names a flattened element has: those that one of the elements walked for it writes. Later
writes replace what a name stands for, and never the name itself. So whoever realizes or extends an
interface has all of its names, whatever the shape of the inheritance graph.
-/
namespace UmlSchema

namespace Table

variable {κ α : Type} [DecidableEq κ]

theorem mem_keys_put (t : Table κ α) (k : κ) (a : α) (l : κ) :
    l ∈ (t.put k a).keys ↔ l ∈ t.keys ∨ l = k := by
  induction t with
  | nil => simp [put, keys]
  | cons x xs ih =>
    by_cases h : x.1 = k
    · subst h
      simp only [put, if_pos, keys, List.map_cons, List.mem_cons]
      tauto
    · simp only [keys] at ih
      simp only [put, h, if_false, keys, List.map_cons, List.mem_cons, ih]
      tauto

theorem mem_keys_ofWrites (ws : List (κ × α)) (l : κ) :
    l ∈ (ofWrites ws).keys ↔ l ∈ ws.map Prod.fst := by
  have fold : ∀ t : Table κ α, l ∈ (ws.foldl (fun t w => t.put w.1 w.2) t).keys ↔
      l ∈ t.keys ∨ l ∈ ws.map Prod.fst := by
    induction ws with
    | nil => simp
    | cons w ws ih =>
      intro t
      rw [List.foldl_cons, ih, mem_keys_put, List.map_cons, List.mem_cons, or_assoc]
  rw [ofWrites, fold]
  simp [keys]

end Table

def Element.given (k : Kind) (fields : List (Field × Value)) : Element :=
  fields.foldl (fun x f => x.set f.1 f.2) (.blank k)

namespace Repository

section

variable [Platform] {r : Repository}

/-- An element's own attributes and associations write a name. -/
def WritesName (r : Repository) (v n : Value) : Prop :=
  ∃ ws, (r.ownWrites v).result = .ok ws ∧ n ∈ ws.map Prod.fst

instance (r : Repository) (v n : Value) : Decidable (r.WritesName v n) :=
  match h : (r.ownWrites v).result with
  | .ok ws => decidable_of_iff (n ∈ ws.map Prod.fst)
      ⟨fun hn => ⟨ws, h, hn⟩, fun ⟨_, h', hn⟩ => Except.ok.inj (h.symm.trans h') ▸ hn⟩
  | .error _ => isFalse fun ⟨_, h', _⟩ => nomatch h.symm.trans h'

theorem ownWrites_ok {v : Value} {ws : List FieldWrite} :
    (r.ownWrites v).result = .ok ws ↔ r.model.shape v ≠ .list ∧
      ∃ attributes fromAttributes associations name fromAssociations,
        r.model.members ((r.model.get? v .attributes).getD (.refs [])) = .ok attributes ∧
        List.Forall₂ (fun a w => (r.model.fieldWrite a).result = .ok w)
          attributes fromAttributes ∧
        r.associationsOf v = .ok associations ∧ r.model.shown v .name = .ok name ∧
        List.Forall₂ (fun a w => (r.associationWrites v a).result = .ok w)
          associations fromAssociations ∧
        ws = fromAttributes.flatten ++ fromAssociations.flatten := by
  unfold ownWrites
  by_cases hlist : r.model.shape v = .list
  · simp only [hlist, if_true, Emission.bind_ok, Emission.fail_result]
    simp
  · simp only [hlist, if_false, Emission.bind_ok, Emission.lift_result, Emission.collect_ok,
      Emission.pure_result]
    constructor
    · rintro ⟨attributes, ha, fa, hfa, associations, hb, name, hname, -, -, fb, hfb, hws⟩
      cases hws
      exact ⟨hlist, attributes, fa, associations, name, fb, ha, hfa, hb, hname, hfb, rfl⟩
    · rintro ⟨-, attributes, fa, associations, name, fb, ha, hfa, hb, hname, hfb, rfl⟩
      exact ⟨attributes, ha, fa, hfa, associations, hb, name, hname, (), rfl, fb, hfb, rfl⟩

theorem ref_of_ownWrites {v : Value} {ws : List FieldWrite}
    (h : (r.ownWrites v).result = .ok ws) : ∃ e, v = .ref e := by
  obtain ⟨-, -, -, -, name, -, -, -, -, hname, -⟩ := ownWrites_ok.mp h
  obtain ⟨x, hread, -⟩ := except_bind_ok.mp hname
  cases v with
  | ref e => exact ⟨e, rfl⟩
  | absent | flag _ | text _ | refs _ => cases hread

theorem writesOf_ok {order : List Value} {ws : List FieldWrite} :
    (r.writesOf order).result = .ok ws ↔ ∃ parts,
      List.Forall₂ (fun v w => (r.ownWrites v).result = .ok w) order parts ∧
        parts.flatten = ws := by
  simp only [writesOf, Emission.bind_ok, Emission.collect_ok, Emission.pure_result,
    Except.ok.injEq]

theorem names_writesOf {order : List Value} {ws : List FieldWrite}
    (h : (r.writesOf order).result = .ok ws) (n : Value) :
    n ∈ ws.map Prod.fst ↔ ∃ v ∈ order, r.WritesName v n := by
  obtain ⟨parts, hparts, rfl⟩ := writesOf_ok.mp h
  simp only [List.map_flatten, List.mem_flatten, List.mem_map, exists_exists_and_eq_and]
  constructor
  · rintro ⟨part, hpart, hn⟩
    obtain ⟨v, hv, hown⟩ := forall₂_mem_right hparts hpart
    exact ⟨v, hv, part, hown, List.mem_map.mpr hn⟩
  · rintro ⟨v, hv, ws, hown, hn⟩
    obtain ⟨part, hpart, hown'⟩ := forall₂_mem_left hparts hv
    rw [hown] at hown'
    cases hown'
    exact ⟨ws, hpart, List.mem_map.mp hn⟩

/-- An element can be walked: it has parents to ask for and writes of its own. -/
def Walkable (r : Repository) (v : Value) : Prop :=
  (∃ parents, r.superClasses v = .ok parents) ∧ ∃ ws, (r.ownWrites v).result = .ok ws

theorem interfaceWrites_ok {v : Value} {ws : List FieldWrite} :
    (r.interfaceWrites v).result = .ok ws ↔
      ∃ met order, r.Walk [] [v] met order ∧ r.interfaceOrder v = .ok order ∧
        (r.writesOf order).result = .ok ws := by
  simp only [interfaceWrites, Emission.bind_ok, Emission.lift_result]
  constructor
  · rintro ⟨order, horder, hws⟩
    obtain ⟨parts, hparts, -⟩ := writesOf_ok.mp hws
    obtain ⟨met, hwalk⟩ := interfaceOrder_walk horder fun x hx => by
      obtain ⟨part, -, hown⟩ := forall₂_mem_left hparts hx
      exact (ownWrites_ok.mp hown).1
    exact ⟨met, order, hwalk, horder, hws⟩
  · rintro ⟨-, order, -, horder, hws⟩
    exact ⟨order, horder, hws⟩

theorem interfaceWrites_total {v : Value} :
    (∃ ws, (r.interfaceWrites v).result = .ok ws) ↔ ∀ x, r.Reaches v x → r.Walkable x := by
  constructor
  · rintro ⟨ws, hws⟩ x hx
    obtain ⟨met, order, hwalk, -, hws⟩ := interfaceWrites_ok.mp hws
    obtain ⟨parts, hparts, -⟩ := writesOf_ok.mp hws
    have hmem := (hwalk.mem_order x).mpr hx
    obtain ⟨parents, hparents, -⟩ := hwalk.closed x hmem
    obtain ⟨part, -, hown⟩ := forall₂_mem_left hparts hmem
    exact ⟨⟨parents, hparents⟩, part, hown⟩
  · intro h
    obtain ⟨order, horder, hreach⟩ := interfaceOrder_ok fun x hx => (h x hx).1
    obtain ⟨parts, hparts⟩ := exists_forall₂ fun x hx => (h x (hreach x hx)).2
    refine ⟨parts.flatten, ?_⟩
    simp only [interfaceWrites, Emission.bind_ok, Emission.lift_result]
    exact ⟨order, horder, writesOf_ok.mpr ⟨parts, hparts, rfl⟩⟩

theorem names_interfaceWrites {v : Value} {ws : List FieldWrite}
    (h : (r.interfaceWrites v).result = .ok ws) (n : Value) :
    n ∈ ws.map Prod.fst ↔ ∃ x, r.Reaches v x ∧ r.WritesName x n := by
  obtain ⟨met, order, hwalk, -, hws⟩ := interfaceWrites_ok.mp h
  simp only [names_writesOf hws, hwalk.mem_order]

theorem interfaceTable_ok {e : ElementId} {t : FieldTable} :
    (r.interfaceTable e).result = .ok t ↔
      ∃ ws, (r.interfaceWrites (.ref e)).result = .ok ws ∧ Table.ofWrites ws = t := by
  simp only [interfaceTable, Emission.bind_ok, Emission.pure_result, Except.ok.injEq]

theorem classWrites_ok {v : Value} {ws : List FieldWrite} :
    (r.classWrites v).result = .ok ws ↔ ∃ interfaces parts chain last,
      r.superInterfaces v = .ok interfaces ∧
      List.Forall₂ (fun i w => (r.interfaceWrites i).result = .ok w) interfaces parts ∧
      r.classChain v = .ok chain ∧ (r.writesOf chain).result = .ok last ∧
      ws = parts.flatten ++ last := by
  simp only [classWrites, Emission.bind_ok, Emission.lift_result, Emission.collect_ok,
    Emission.pure_result]
  constructor
  · rintro ⟨interfaces, hi, parts, hparts, chain, hchain, last, hlast, hws⟩
    cases hws
    exact ⟨interfaces, parts, chain, last, hi, hparts, hchain, hlast, rfl⟩
  · rintro ⟨interfaces, parts, chain, last, hi, hparts, hchain, hlast, rfl⟩
    exact ⟨interfaces, hi, parts, hparts, chain, hchain, last, hlast, rfl⟩

theorem classTable_ok {e : ElementId} {t : FieldTable} :
    (r.classTable e).result = .ok t ↔
      ∃ ws, (r.classWrites (.ref e)).result = .ok ws ∧ Table.ofWrites ws = t := by
  simp only [classTable, Emission.bind_ok, Emission.pure_result, Except.ok.injEq]

theorem interfaceTable_of_reaches {v : Value} {ws : List FieldWrite}
    (h : (r.interfaceWrites v).result = .ok ws) {x : Value} (hx : r.Reaches v x) :
    ∃ e t, x = .ref e ∧ (r.interfaceTable e).result = .ok t ∧
      ∀ n ∈ t.keys, n ∈ ws.map Prod.fst := by
  have hwalkable := interfaceWrites_total.mp ⟨ws, h⟩
  obtain ⟨own, hown⟩ := (hwalkable x hx).2
  obtain ⟨e, rfl⟩ := ref_of_ownWrites hown
  obtain ⟨ws', hws'⟩ := interfaceWrites_total.mpr fun y hy => hwalkable y (hx.trans hy)
  refine ⟨e, Table.ofWrites ws', rfl, interfaceTable_ok.mpr ⟨ws', hws', rfl⟩, fun n hn => ?_⟩
  rw [Table.mem_keys_ofWrites, names_interfaceWrites hws'] at hn
  obtain ⟨y, hy, hn⟩ := hn
  exact (names_interfaceWrites h n).mpr ⟨y, hx.trans hy, hn⟩

/-- A class that can be flattened has all field names of the interfaces that it realizes, and an
interface those of the interfaces that it extends. These can be flattened too. The generalizations
may form cycles, and may meet or repeat. -/
theorem interface_contract (r : Repository) :
    (∀ c tc, (r.classTable c).result = .ok tc →
      ∃ interfaces, r.superInterfaces (.ref c) = .ok interfaces ∧
        ∀ v ∈ interfaces, ∃ i ti, v = .ref i ∧ (r.interfaceTable i).result = .ok ti ∧
          ∀ n ∈ ti.keys, n ∈ tc.keys) ∧
    (∀ j tj, (r.interfaceTable j).result = .ok tj →
      ∃ parents, r.superClasses (.ref j) = .ok parents ∧
        ∀ v ∈ parents, ∃ i ti, v = .ref i ∧ (r.interfaceTable i).result = .ok ti ∧
          ∀ n ∈ ti.keys, n ∈ tj.keys) := by
  constructor
  · intro c tc hc
    obtain ⟨ws, hws, rfl⟩ := classTable_ok.mp hc
    obtain ⟨interfaces, parts, -, last, hi, hparts, -, -, rfl⟩ := classWrites_ok.mp hws
    refine ⟨interfaces, hi, fun v hv => ?_⟩
    obtain ⟨part, hpart, hwrites⟩ := forall₂_mem_left hparts hv
    obtain ⟨i, ti, hvi, hti, hkeys⟩ := interfaceTable_of_reaches hwrites .refl
    refine ⟨i, ti, hvi, hti, fun n hn => ?_⟩
    obtain ⟨w, hw, rfl⟩ := List.mem_map.mp (hkeys n hn)
    rw [Table.mem_keys_ofWrites]
    exact List.mem_map_of_mem (List.mem_append_left last (List.mem_flatten_of_mem hpart hw))
  · intro j tj hj
    obtain ⟨ws, hws, rfl⟩ := interfaceTable_ok.mp hj
    obtain ⟨parents, hparents⟩ := (interfaceWrites_total.mp ⟨ws, hws⟩ _ .refl).1
    refine ⟨parents, hparents, fun v hv => ?_⟩
    have hparent := (mem_superClasses hparents).mp hv
    obtain ⟨i, ti, hvi, hti, hkeys⟩ := interfaceTable_of_reaches hws (.single hparent)
    exact ⟨i, ti, hvi, hti, fun n hn => (Table.mem_keys_ofWrites ws n).mpr (hkeys n hn)⟩

end

/-- Two interfaces that extend each other, one of them twice, and a class that realizes the
first. -/
def mutualInterfaces : Repository where
  model := ⟨#[.given .interface [(.name, .text "Node"), (.attributes, .refs [7])],
    .given .interface [(.name, .text "Edge"), (.attributes, .refs [8])],
    .given .klass [(.name, .text "Graph")],
    .given .generalization [(.source, .ref 0), (.target, .ref 1)],
    .given .generalization [(.source, .ref 1), (.target, .ref 0)],
    .given .generalization [(.source, .ref 0), (.target, .ref 1)],
    .given .interfaceRealization [(.source, .ref 2), (.target, .ref 0)],
    .given .property [(.name, .text "id")],
    .given .property [(.name, .text "weight")]]⟩
  relationships := [3, 4, 5, 6]

attribute [local instance] Platform.usual

theorem mutualInterfaces_contract :
    ∃ tc tj ti, (mutualInterfaces.classTable 2).result = .ok tc ∧
      (mutualInterfaces.interfaceTable 1).result = .ok tj ∧
      (mutualInterfaces.interfaceTable 0).result = .ok ti ∧
      ti.keys = [.text "weight", .text "id"] ∧
      ∀ n ∈ ti.keys, n ∈ tc.keys ∧ n ∈ tj.keys := by
  obtain ⟨hclass, hinterface⟩ := interface_contract mutualInterfaces
  obtain ⟨tc, htc⟩ : ∃ tc, (mutualInterfaces.classTable 2).result = .ok tc :=
    exists_ok (by decide +kernel)
  obtain ⟨tj, htj⟩ : ∃ tj, (mutualInterfaces.interfaceTable 1).result = .ok tj :=
    exists_ok (by decide +kernel)
  have hkeys : (mutualInterfaces.interfaceTable 0).result.toOption.map Table.keys =
      some [.text "weight", .text "id"] := by decide +kernel
  obtain ⟨interfaces, hinterfaces, hall⟩ := hclass 2 tc htc
  obtain ⟨parents, hparents, hall'⟩ := hinterface 1 tj htj
  have hrealized : mutualInterfaces.Realizes (.ref 2) (.ref 0) := by decide +kernel
  have hextended : mutualInterfaces.Parent (.ref 1) (.ref 0) := by decide +kernel
  obtain ⟨i, ti, hi, hti, hnames⟩ := hall _ ((mem_superInterfaces hinterfaces).mpr hrealized)
  obtain ⟨i', ti', hi', hti', hnames'⟩ := hall' _ ((mem_superClasses hparents).mpr hextended)
  cases hi
  cases hi'
  rw [hti] at hti' hkeys
  cases hti'
  refine ⟨tc, tj, ti, htc, htj, hti, Option.some.inj hkeys, fun n hn => ?_⟩
  exact ⟨hnames n hn, hnames' n hn⟩

end Repository

end UmlSchema
