import UmlSchema.Platform.Usual
import UmlSchema.Proofs.Overriding

/-!
# The walk over an interface

One walk collects the fields of an interface and of all that it extends. It ends whatever the shape
of the generalizations, visits everything that can be reached exactly once, and leaves an element
after its ancestors unless they form a cycle.
-/
namespace UmlSchema.Repository

variable {r : Repository}

theorem exists_lastWriter [Platform] {order : List Value} {ws : List FieldWrite}
    (h : (r.writesOf order).result = .ok ws) {n : Value} (hn : n ∈ (Table.ofWrites ws).keys) :
    ∃ before x after own, order = before ++ x :: after ∧ (r.ownWrites x).result = .ok own ∧
      n ∈ own.map Prod.fst ∧ (Table.ofWrites ws).get? n = (Table.ofWrites own).get? n ∧
      ∀ y ∈ after, ¬r.WritesName y n := by
  rw [← List.flatten_singleton (l := order)] at h
  obtain ⟨earlier, last, x, own, hlast, hown, hentry⟩ := exists_lastWrite h hn
  obtain ⟨before, after, later, hwalks, rfl, ⟨own', hown', hname⟩, hnone⟩ := hlast
  obtain rfl : own = own' := Except.ok.inj (hown.symm.trans hown')
  have horder : order = before ++ x :: after := by
    cases earlier with
    | nil => exact (List.cons.inj hwalks).1
    | cons walk earlier => simp at hwalks
  exact ⟨before, x, after, own, horder, hown, hname, hentry, fun y hy =>
    hnone y (List.mem_append_left _ hy)⟩

theorem AncestorsFirst.around {before after : List Value} {x y : Value}
    (h : r.AncestorsFirst (before ++ x :: after)) (hy : y ∈ before ++ x :: after) (hne : y ≠ x) :
    (r.Reaches x y → y ∈ before) ∧ (r.Reaches y x → y ∈ after) := by
  obtain ⟨-, hafter, hbefore⟩ := List.pairwise_append.mp h
  rcases List.mem_append.mp hy with hy | hy
  · refine ⟨fun _ => hy, fun hyx => ?_⟩
    exact absurd hyx (hbefore y hy x List.mem_cons_self)
  · have hy : y ∈ after := (List.mem_cons.mp hy).resolve_left hne
    refine ⟨fun hxy => ?_, fun _ => hy⟩
    exact absurd hxy ((List.pairwise_cons.mp hafter).1 y hy)

/-- An interface can be flattened exactly if all that it reaches by generalizations can be walked,
whatever cycles these form. The walk then meets what can be reached, each once, under every bound
from the one it has on, and the table comes from the writes of these elements in the order in which
they are left. If nothing that is reached is above itself, every element is left after all of its
ancestors, and the entry of a name comes from an element below which no walked one writes it. -/
theorem interface_traversal [Platform] (r : Repository) (i : ElementId) :
    ((∃ t, (r.interfaceTable i).result = .ok t) ↔ ∀ x, r.Reaches (.ref i) x → r.Walkable x) ∧
    ∀ t, (r.interfaceTable i).result = .ok t → ∃ met order parts,
      r.Walk [] [.ref i] met order ∧
      (∀ bound, r.model.size + 2 ≤ bound →
        r.interfaceOrderWithin bound [] (.ref i) = .ok (met, order)) ∧
      order.Nodup ∧ (∀ x, x ∈ order ↔ r.Reaches (.ref i) x) ∧
      List.Forall₂ (fun x ws => (r.ownWrites x).result = .ok ws) order parts ∧
      t = Table.ofWrites parts.flatten ∧
      ((∀ x ∈ order, ¬Relation.TransGen r.Parent x x) →
        (∀ before x after, order = before ++ x :: after →
          ∀ a, Relation.TransGen r.Parent x a → a ∈ before) ∧
        ∀ n ∈ t.keys, ∃ x ∈ order, ∃ own, (r.ownWrites x).result = .ok own ∧
          n ∈ own.map Prod.fst ∧ t.get? n = (Table.ofWrites own).get? n ∧
          ∀ y ∈ order, Relation.TransGen r.Parent y x → ¬r.WritesName y n) := by
  constructor
  · rw [← interfaceWrites_total]
    constructor
    · rintro ⟨t, ht⟩
      obtain ⟨ws, hws, -⟩ := interfaceTable_ok.mp ht
      exact ⟨ws, hws⟩
    · rintro ⟨ws, hws⟩
      exact ⟨_, interfaceTable_ok.mpr ⟨ws, hws, rfl⟩⟩
  · intro t ht
    obtain ⟨ws, hws, rfl⟩ := interfaceTable_ok.mp ht
    obtain ⟨met, order, hwalk, -, hwrites⟩ := interfaceWrites_ok.mp hws
    obtain ⟨parts, hparts, rfl⟩ := writesOf_ok.mp hwrites
    have hlist : ∀ x ∈ order, r.model.shape x ≠ .list := by
      intro x hx
      obtain ⟨part, -, hown⟩ := forall₂_mem_left hparts hx
      exact (ownWrites_ok.mp hown).1
    have hmem := hwalk.mem_order
    refine ⟨met, order, parts, hwalk, fun bound hbound =>
      interfaceOrderWithin_of_walk hwalk hlist hbound, hwalk.fresh.2, hmem, hparts, rfl, ?_⟩
    intro hacyclic
    have hfirst : r.AncestorsFirst order := (hwalk.ancestors_first hacyclic (by simp)).2
    have hne {x a : Value} (hx : x ∈ order) (ha : Relation.TransGen r.Parent x a) : x ≠ a := by
      rintro rfl
      exact hacyclic x hx ha
    constructor
    · intro before x after hsplit a ha
      have hx : x ∈ order := by simp [hsplit]
      have horder : a ∈ order := (hmem a).mpr (((hmem x).mp hx).trans ha.to_reflTransGen)
      rw [hsplit] at hfirst horder
      exact (hfirst.around horder (hne hx ha).symm).1 ha.to_reflTransGen
    · intro n hn
      obtain ⟨before, x, after, own, hsplit, hown, hname, hentry, hnone⟩ :=
        exists_lastWriter hwrites hn
      refine ⟨x, by simp [hsplit], own, hown, hname, hentry, ?_⟩
      intro y hy hyx
      apply hnone
      rw [hsplit] at hfirst
      exact (hfirst.around (hsplit ▸ hy) (hne hy hyx)).2 hyx.to_reflTransGen

/-- Interfaces with a common ancestor, one of them extended twice. The middle two write the same
name, as do the first and the last. -/
def crossedNodes : Repository where
  model := ⟨#[.given .interface [(.name, .text "Node"), (.attributes, .refs [9])],
    .given .interface [(.name, .text "Named"), (.attributes, .refs [10])],
    .given .interface [(.name, .text "Dated"), (.attributes, .refs [11])],
    .given .interface [(.name, .text "Entity"), (.attributes, .refs [12])],
    .given .generalization [(.source, .ref 3), (.target, .ref 1)],
    .given .generalization [(.source, .ref 3), (.target, .ref 2)],
    .given .generalization [(.source, .ref 3), (.target, .ref 1)],
    .given .generalization [(.source, .ref 1), (.target, .ref 0)],
    .given .generalization [(.source, .ref 2), (.target, .ref 0)],
    .given .property [(.name, .text "id"), (.type, .text "ID")],
    .given .property [(.name, .text "label"), (.type, .text "String")],
    .given .property [(.name, .text "label"), (.type, .text "Int")],
    .given .property [(.name, .text "id"), (.type, .text "Int")]]⟩
  relationships := [4, 5, 6, 7, 8]

attribute [local instance] Platform.usual

theorem crossedNodes_traversal :
    ∃ t met order, (crossedNodes.interfaceTable 3).result = .ok t ∧
      crossedNodes.Walk [] [.ref 3] met order ∧ order = [.ref 0, .ref 1, .ref 2, .ref 3] ∧
      (∀ x, x ∈ order ↔ crossedNodes.Reaches (.ref 3) x) ∧
      (∀ before x after, order = before ++ x :: after →
        ∀ a, Relation.TransGen crossedNodes.Parent x a → a ∈ before) ∧
      t.keys = [.text "id", .text "label"] ∧
      ∃ x ∈ order, ∃ own, (crossedNodes.ownWrites x).result = .ok own ∧
        t.get? (.text "label") = (Table.ofWrites own).get? (.text "label") ∧
        ∀ y ∈ order, Relation.TransGen crossedNodes.Parent y x →
          ¬crossedNodes.WritesName y (.text "label") := by
  have hacyclic : crossedNodes.Acyclic :=
    acyclic_of_rank (fun v => v.element?.getD 0) (by decide +kernel)
  have hkeys : (crossedNodes.interfaceTable 3).result.toOption.map Table.keys =
      some [.text "id", .text "label"] := by decide +kernel
  obtain ⟨t, ht, hkeys⟩ := Option.map_eq_some_iff.mp hkeys
  have htable := ok_of_toOption ht
  obtain ⟨met, order, parts, hwalk, hbound, -, hmem, -, -, hcomes⟩ :=
    (interface_traversal crossedNodes 3).2 t htable
  obtain ⟨hancestors, hentries⟩ := hcomes fun x _ => hacyclic x
  have horder : (crossedNodes.interfaceOrderWithin 15 [] (.ref 3)).toOption.map Prod.snd =
      some [.ref 0, .ref 1, .ref 2, .ref 3] := by decide +kernel
  rw [hbound 15 (by decide)] at horder
  obtain ⟨x, hx, own, hown, -, hentry, hnone⟩ := hentries (.text "label") (by simp [hkeys])
  exact ⟨t, met, order, htable, hwalk, Option.some.inj horder, hmem, hancestors, hkeys, x, hx, own,
    hown, hentry, hnone⟩

end UmlSchema.Repository
