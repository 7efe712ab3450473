import UmlSchema.Platform.Usual
import UmlSchema.Proofs.FieldNames
import Mathlib.Data.List.Basic

/-!
# Which definition of a field survives

A field table keeps the last write of each name. Within one walk that is the write of the most
derived element. A class is flattened in several walks, one for each interface it realizes and one
along its parents, and a later walk does not know what an earlier one has written. So a shared
ancestor that is walked again replaces the definition of a descendant that is not.
-/
namespace UmlSchema

namespace Table

variable {κ α : Type} [DecidableEq κ]

theorem ofWrites_concat (ws : List (κ × α)) (w : κ × α) :
    ofWrites (ws ++ [w]) = (ofWrites ws).put w.1 w.2 := by
  simp [ofWrites]

theorem get?_ofWrites_append_of_not_mem {ws more : List (κ × α)} {k : κ}
    (h : k ∉ more.map Prod.fst) : (ofWrites (ws ++ more)).get? k = (ofWrites ws).get? k := by
  induction more using List.reverseRecOn with
  | nil => rw [List.append_nil]
  | append_singleton more w ih =>
    simp only [List.map_append, List.map_cons, List.map_nil, List.mem_append, List.mem_singleton,
      not_or] at h
    rw [← List.append_assoc, ofWrites_concat, get?_put_of_ne _ _ (Ne.symm h.2), ih h.1]

theorem get?_ofWrites_append_of_mem {ws more : List (κ × α)} {k : κ}
    (h : k ∈ more.map Prod.fst) : (ofWrites (ws ++ more)).get? k = (ofWrites more).get? k := by
  induction more using List.reverseRecOn with
  | nil => simp at h
  | append_singleton more w ih =>
    rw [← List.append_assoc, ofWrites_concat, ofWrites_concat]
    by_cases hw : w.1 = k
    · subst hw
      rw [get?_put_self, get?_put_self]
    · have hmore : k ∈ more.map Prod.fst := by
        simpa [Ne.symm hw] using h
      rw [get?_put_of_ne _ _ hw, get?_put_of_ne _ _ hw, ih hmore]

end Table

theorem exists_last_of_mem {α : Type} {p : α → Prop} {xs : List α} (h : ∃ x ∈ xs, p x) :
    ∃ before x after, xs = before ++ x :: after ∧ p x ∧ ∀ y ∈ after, ¬p y := by
  induction xs with
  | nil => simp at h
  | cons a xs ih =>
    by_cases hxs : ∃ x ∈ xs, p x
    · obtain ⟨before, x, after, rfl, hx, hafter⟩ := ih hxs
      exact ⟨a :: before, x, after, rfl, hx, hafter⟩
    · obtain ⟨x, hx, hpx⟩ := h
      rcases List.mem_cons.mp hx with rfl | hx
      · exact ⟨[], x, xs, rfl, hpx, fun y hy hpy => hxs ⟨y, hy, hpy⟩⟩
      · exact absurd ⟨x, hx, hpx⟩ hxs

namespace Repository

variable {r : Repository}

/-- No element of an order comes before one of its ancestors. -/
def AncestorsFirst (r : Repository) (order : List Value) : Prop :=
  order.Pairwise fun y x => ¬r.Reaches y x

/-- The walks that flatten a class, in order. -/
def classWalks (r : Repository) (v : Value) : Except ModelFault (List (List Value)) := do
  let interfaces ← r.superInterfaces v
  let orders ← interfaces.mapM r.interfaceOrder
  let chain ← r.classChain v
  return orders ++ [chain]

theorem interfaceOrder_ancestorsFirst [Platform] (hacyclic : r.Acyclic) {v : Value}
    {ws : List FieldWrite} (h : (r.interfaceWrites v).result = .ok ws) :
    ∃ order, r.interfaceOrder v = .ok order ∧ (r.writesOf order).result = .ok ws ∧
      (∀ x, x ∈ order ↔ r.Reaches v x) ∧ r.AncestorsFirst order := by
  obtain ⟨met, order, hwalk, horder, hws⟩ := interfaceWrites_ok.mp h
  have hfirst := hwalk.ancestors_first (fun x _ => hacyclic x) (by simp)
  exact ⟨order, horder, hws, hwalk.mem_order, hfirst.2⟩

theorem classChainWithin_ancestorsFirst (hacyclic : r.Acyclic) {n : Nat} :
    ∀ {met chain : List Value} {v : Value}, r.classChainWithin n met v = .ok chain →
      (∀ x ∈ chain, r.Reaches v x) ∧ r.AncestorsFirst chain := by
  induction n with
  | zero =>
    intro met chain v h
    cases h
    exact ⟨by simp, .nil⟩
  | succ n ih =>
    intro met chain v h
    rw [classChainWithin] at h
    have hsingle : (∀ x ∈ [v], r.Reaches v x) ∧ r.AncestorsFirst [v] :=
      ⟨by simpa using .refl, List.pairwise_singleton _ _⟩
    split at h
    · cases h
      exact ⟨by simp, .nil⟩
    split at h
    · cases h
      exact hsingle
    obtain ⟨parents, hparents, h⟩ := except_bind_ok.mp h
    cases parents with
    | nil =>
      cases h
      exact hsingle
    | cons p ps =>
      obtain ⟨above, habove, h⟩ := except_bind_ok.mp h
      cases h
      obtain ⟨hreach, hfirst⟩ := ih habove
      have hp : r.Parent v p := (mem_superClasses hparents).mp List.mem_cons_self
      constructor
      · exact List.forall_mem_append.mpr ⟨fun x hx => .head hp (hreach x hx), hsingle.1⟩
      · refine List.pairwise_append.mpr ⟨hfirst, hsingle.2, fun y hy x hx hyx => ?_⟩
        rw [List.mem_singleton.mp hx] at hyx
        exact hacyclic v (.head' hp ((hreach y hy).trans hyx))

theorem writesOf_cons [Platform] {v : Value} {order : List Value} {ws : List FieldWrite} :
    (r.writesOf (v :: order)).result = .ok ws ↔ ∃ own rest, (r.ownWrites v).result = .ok own ∧
      (r.writesOf order).result = .ok rest ∧ own ++ rest = ws := by
  simp only [writesOf_ok, List.forall₂_cons_left_iff]
  constructor
  · rintro ⟨-, ⟨own, parts, hown, hparts, rfl⟩, rfl⟩
    exact ⟨own, parts.flatten, hown, ⟨parts, hparts, rfl⟩, rfl⟩
  · rintro ⟨own, -, hown, ⟨parts, hparts, rfl⟩, rfl⟩
    exact ⟨own :: parts, ⟨own, parts, hown, hparts, rfl⟩, rfl⟩

theorem writesOf_append [Platform] {a b : List Value} {ws : List FieldWrite} :
    (r.writesOf (a ++ b)).result = .ok ws ↔ ∃ wa wb, (r.writesOf a).result = .ok wa ∧
      (r.writesOf b).result = .ok wb ∧ wa ++ wb = ws := by
  induction a generalizing ws with
  | nil =>
    constructor
    · exact fun h => ⟨[], ws, rfl, h, rfl⟩
    · rintro ⟨wa, wb, ha, hb, rfl⟩
      cases ha
      exact hb
  | cons v a ih =>
    simp only [List.cons_append, writesOf_cons, ih]
    constructor
    · rintro ⟨own, -, hown, ⟨wa, wb, ha, hb, rfl⟩, rfl⟩
      exact ⟨own ++ wa, wb, ⟨own, wa, hown, ha, rfl⟩, hb, by simp⟩
    · rintro ⟨-, wb, ⟨own, wa, hown, ha, rfl⟩, hb, rfl⟩
      exact ⟨own, wa ++ wb, hown, ⟨wa, wb, ha, hb, rfl⟩, by simp⟩

theorem classWrites_walks [Platform] (hacyclic : r.Acyclic) {v : Value} {ws : List FieldWrite}
    (h : (r.classWrites v).result = .ok ws) :
    ∃ walks, r.classWalks v = .ok walks ∧ (r.writesOf walks.flatten).result = .ok ws ∧
      ∀ walk ∈ walks, r.AncestorsFirst walk := by
  obtain ⟨interfaces, parts, chain, last, hinterfaces, hparts, hchain, hlast, rfl⟩ :=
    classWrites_ok.mp h
  obtain ⟨orders, horders, hwrites, hfirst⟩ : ∃ orders,
      interfaces.mapM r.interfaceOrder = .ok orders ∧
      (r.writesOf orders.flatten).result = .ok parts.flatten ∧
      ∀ walk ∈ orders, r.AncestorsFirst walk := by
    simp only [except_mapM_ok]
    clear hinterfaces h
    induction hparts with
    | nil => exact ⟨[], .nil, rfl, by simp⟩
    | cons hpart _ ih =>
      obtain ⟨order, horder, hws, -, hfirst⟩ := interfaceOrder_ancestorsFirst hacyclic hpart
      obtain ⟨orders, horders, hwrites, hall⟩ := ih
      refine ⟨order :: orders, .cons horder horders, ?_, List.forall_mem_cons.mpr ⟨hfirst, hall⟩⟩
      exact writesOf_append.mpr ⟨_, _, hws, hwrites, rfl⟩
  refine ⟨orders ++ [chain], ?_, ?_, ?_⟩
  · exact except_bind_ok.mpr ⟨interfaces, hinterfaces, except_bind_ok.mpr ⟨orders, horders,
      except_bind_ok.mpr ⟨chain, hchain, rfl⟩⟩⟩
  · rw [List.flatten_append, List.flatten_singleton]
    exact writesOf_append.mpr ⟨_, _, hwrites, hlast, rfl⟩
  · refine List.forall_mem_append.mpr ⟨hfirst, ?_⟩
    simpa using (classChainWithin_ancestorsFirst hacyclic hchain).2

/-- The last write of a name over some walks comes from an element, in the walk `last` that follows
the `earlier` ones. -/
def LastWrite [Platform] (r : Repository) (walks : List (List Value)) (n : Value)
    (earlier : List (List Value)) (last : List Value) (x : Value) : Prop :=
  ∃ before after later, walks = earlier ++ last :: later ∧ last = before ++ x :: after ∧
    r.WritesName x n ∧ ∀ y ∈ after ++ later.flatten, ¬r.WritesName y n

theorem exists_lastWrite [Platform] {walks : List (List Value)} {ws : List FieldWrite}
    (h : (r.writesOf walks.flatten).result = .ok ws) {n : Value}
    (hn : n ∈ (Table.ofWrites ws).keys) :
    ∃ earlier last x own, r.LastWrite walks n earlier last x ∧
      (r.ownWrites x).result = .ok own ∧
      (Table.ofWrites ws).get? n = (Table.ofWrites own).get? n := by
  rw [Table.mem_keys_ofWrites, names_writesOf h] at hn
  obtain ⟨v, hv, hvn⟩ := hn
  obtain ⟨walk, hwalk, hv⟩ := List.mem_flatten.mp hv
  obtain ⟨earlier, last, later, rfl, hlast, hlater⟩ :=
    exists_last_of_mem (p := fun walk => ∃ y ∈ walk, r.WritesName y n) ⟨walk, hwalk, v, hv, hvn⟩
  obtain ⟨before, x, after, rfl, hx, hafter⟩ := exists_last_of_mem hlast
  have hnone : ∀ y ∈ after ++ later.flatten, ¬r.WritesName y n := by
    intro y hy hyn
    rcases List.mem_append.mp hy with hy | hy
    · exact hafter y hy hyn
    · obtain ⟨walk, hwalk, hy⟩ := List.mem_flatten.mp hy
      exact hlater walk hwalk ⟨y, hy, hyn⟩
  have hsplit : (earlier ++ (before ++ x :: after) :: later).flatten =
      (earlier.flatten ++ before) ++ x :: (after ++ later.flatten) := by simp
  rw [hsplit] at h
  obtain ⟨wsBefore, wsRest, -, hrest, rfl⟩ := writesOf_append.mp h
  obtain ⟨own, wsAfter, hown, hafter, rfl⟩ := writesOf_cons.mp hrest
  refine ⟨earlier, _, x, own, ⟨before, after, later, rfl, rfl, hx, hnone⟩, hown, ?_⟩
  have hown_n : n ∈ own.map Prod.fst := by
    obtain ⟨own', hown', hn⟩ := hx
    rw [hown] at hown'
    cases hown'
    exact hn
  have hafter_n : n ∉ wsAfter.map Prod.fst := by
    rw [names_writesOf hafter]
    rintro ⟨y, hy, hyn⟩
    exact hnone y hy hyn
  rw [← List.append_assoc, Table.get?_ofWrites_append_of_not_mem hafter_n,
    Table.get?_ofWrites_append_of_mem hown_n]

theorem LastWrite.not_derived [Platform] {walks earlier : List (List Value)} {last : List Value}
    {n x y : Value} (h : r.LastWrite walks n earlier last x) (hfirst : r.AncestorsFirst last)
    (hy : y ∈ last) (hyx : r.Reaches y x) (hn : r.WritesName y n) : y = x := by
  obtain ⟨before, after, later, rfl, rfl, -, hnone⟩ := h
  rcases List.mem_append.mp hy with hy | hy
  · exact absurd hyx ((List.pairwise_append.mp hfirst).2.2 y hy x List.mem_cons_self)
  · rcases List.mem_cons.mp hy with rfl | hy
    · rfl
    · exact absurd hn (hnone y (List.mem_append_left _ hy))

/-- Without cycles, the entry that an interface has for a name is that of an element whose
descendants on the walk do not write the name. For a class this holds of a name exactly if all
descendants that write it in an earlier walk are walked again in the last walk that writes it. -/
theorem descendant_overrides [Platform] (hacyclic : r.Acyclic) :
    (∀ i t, (r.interfaceTable i).result = .ok t → ∀ n ∈ t.keys, ∃ x own,
      r.Reaches (.ref i) x ∧ (r.ownWrites x).result = .ok own ∧
      t.get? n = (Table.ofWrites own).get? n ∧
      ∀ y, r.Reaches (.ref i) y → y ≠ x → r.Reaches y x → ¬r.WritesName y n) ∧
    (∀ c t, (r.classTable c).result = .ok t →
      ∃ walks, r.classWalks (.ref c) = .ok walks ∧ ∀ n ∈ t.keys, ∃ earlier last x own,
        r.LastWrite walks n earlier last x ∧ (r.ownWrites x).result = .ok own ∧
        t.get? n = (Table.ofWrites own).get? n ∧
        ((∀ y ∈ walks.flatten, y ≠ x → r.Reaches y x → ¬r.WritesName y n) ↔
          ∀ y ∈ earlier.flatten, r.Reaches y x → r.WritesName y n → y ∈ last)) := by
  constructor
  · intro i t ht n hn
    obtain ⟨ws, hws, rfl⟩ := interfaceTable_ok.mp ht
    obtain ⟨order, -, hwrites, hmem, hfirst⟩ := interfaceOrder_ancestorsFirst hacyclic hws
    rw [← List.flatten_singleton (l := order)] at hwrites
    obtain ⟨earlier, last, x, own, hlast, hown, hentry⟩ := exists_lastWrite hwrites hn
    -- There is only one walk to be the last one.
    have horder : last = order := by
      obtain ⟨before, after, later, hsplit, -⟩ := hlast
      rcases earlier with _ | ⟨walk, earlier⟩
      · exact (List.cons.inj hsplit).1.symm
      · simp at hsplit
    subst horder
    have hx : x ∈ last := by
      obtain ⟨before, after, later, -, rfl, -⟩ := hlast
      simp
    refine ⟨x, own, (hmem x).mp hx, hown, hentry, fun y hy hne hyx hyn => hne ?_⟩
    exact hlast.not_derived hfirst ((hmem y).mpr hy) hyx hyn
  · intro c t ht
    obtain ⟨ws, hws, rfl⟩ := classTable_ok.mp ht
    obtain ⟨walks, hwalks, hwrites, hfirst⟩ := classWrites_walks hacyclic hws
    refine ⟨walks, hwalks, fun n hn => ?_⟩
    obtain ⟨earlier, last, x, own, hlast, hown, hentry⟩ := exists_lastWrite hwrites hn
    refine ⟨earlier, last, x, own, hlast, hown, hentry, ?_⟩
    obtain ⟨before, after, later, rfl, hsplit, -, hnone⟩ := id hlast
    constructor
    · intro h y hy hyx hyn
      by_cases hne : y = x
      · rw [hne, hsplit]
        simp
      · have hwalked : y ∈ (earlier ++ last :: later).flatten := by
          rw [List.flatten_append]
          exact List.mem_append_left _ hy
        exact absurd hyn (h y hwalked hne hyx)
    · intro h y hy hne hyx hyn
      have hderived (hmem : y ∈ last) : y = x :=
        hlast.not_derived (hfirst last (by simp)) hmem hyx hyn
      simp only [List.flatten_append, List.flatten_cons, List.mem_append] at hy
      rcases hy with hy | hy | hy
      · exact hne (hderived (h y hy hyx hyn))
      · exact hne (hderived hy)
      · exact hnone y (List.mem_append_right _ hy) hyn

/-- A class that realizes two interfaces with a common parent. The parent and the first of the two
write the same name. -/
def sharedParent : Repository where
  model := ⟨#[.given .interface [(.name, .text "Named"), (.attributes, .refs [8])],
    .given .interface [(.name, .text "Titled"), (.attributes, .refs [9])],
    .given .interface [(.name, .text "Tagged")],
    .given .klass [(.name, .text "Book")],
    .given .generalization [(.source, .ref 1), (.target, .ref 0)],
    .given .generalization [(.source, .ref 2), (.target, .ref 0)],
    .given .interfaceRealization [(.source, .ref 3), (.target, .ref 1)],
    .given .interfaceRealization [(.source, .ref 3), (.target, .ref 2)],
    .given .property [(.name, .text "label"), (.type, .text "Int")],
    .given .property [(.name, .text "label"), (.type, .text "String")]]⟩
  relationships := [4, 5, 6, 7]

theorem sharedParent_acyclic : sharedParent.Acyclic :=
  acyclic_of_rank (fun v => v.element?.getD 0) (by decide +kernel)

attribute [local instance] Platform.usual

/-- The walk over the second interface writes the parent's definition over that of the first one. -/
theorem sharedParent_replaces_descendant : sharedParent.Acyclic ∧
    ∃ t walks earlier last, (sharedParent.classTable 3).result = .ok t ∧
      sharedParent.classWalks (.ref 3) = .ok walks ∧
      t = [(.text "label", ⟨": Int", .text []⟩)] ∧
      sharedParent.LastWrite walks (.text "label") earlier last (.ref 0) ∧
      .ref 1 ∈ walks.flatten ∧ sharedParent.Reaches (.ref 1) (.ref 0) ∧
      sharedParent.WritesName (.ref 1) (.text "label") := by
  have htable : (sharedParent.classTable 3).result.toOption =
      some [(.text "label", ⟨": Int", .text []⟩)] := by decide +kernel
  have hwalks : (sharedParent.classWalks (.ref 3)).toOption =
      some [[.ref 0, .ref 1], [.ref 0, .ref 2], [.ref 3]] := by decide +kernel
  refine ⟨sharedParent_acyclic, _, _, [[.ref 0, .ref 1]], [.ref 0, .ref 2],
    ok_of_toOption htable, ok_of_toOption hwalks, rfl, ?_, by simp, .single ?_, ?_⟩
  · refine ⟨[], [.ref 2], [[.ref 3]], rfl, rfl, ?_, ?_⟩ <;> decide +kernel
  · decide +kernel
  · decide +kernel

theorem sharedParent_overrides :
    ∃ t walks earlier last x own, (sharedParent.classTable 3).result = .ok t ∧
      sharedParent.classWalks (.ref 3) = .ok walks ∧
      sharedParent.LastWrite walks (.text "label") earlier last x ∧
      (sharedParent.ownWrites x).result = .ok own ∧
      t.get? (.text "label") = (Table.ofWrites own).get? (.text "label") ∧
      ((∀ y ∈ walks.flatten, y ≠ x → sharedParent.Reaches y x →
          ¬sharedParent.WritesName y (.text "label")) ↔
        ∀ y ∈ earlier.flatten, sharedParent.Reaches y x →
          sharedParent.WritesName y (.text "label") → y ∈ last) := by
  have htable : (sharedParent.classTable 3).result.toOption =
      some [(.text "label", ⟨": Int", .text []⟩)] := by decide +kernel
  have ht := ok_of_toOption htable
  obtain ⟨walks, hwalks, hall⟩ := (descendant_overrides sharedParent_acyclic).2 3 _ ht
  obtain ⟨earlier, last, x, own, h⟩ := hall (.text "label") (by decide)
  exact ⟨_, walks, earlier, last, x, own, ht, hwalks, h⟩

end Repository

end UmlSchema
