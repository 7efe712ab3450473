import UmlSchema.Platform.Usual
import UmlSchema.Proofs.ClassChain
import UmlSchema.Proofs.Neighbours
import UmlSchema.Proofs.Overriding
import Mathlib.Data.List.Chain

/-!
# Field tables as sequences of writes

The table of a class is made by a fixed sequence of attributes and association ends, each of which
writes its name. The names stand in the order in which they come first, and the last member of the
sequence with a name decides what the name stands for.
-/
namespace UmlSchema

open Emission

theorem forall₂_append_right {α β : Type} {R : α → β → Prop} {xs : List α} {ys zs : List β}
    (h : List.Forall₂ R xs (ys ++ zs)) :
    ∃ before after, xs = before ++ after ∧ List.Forall₂ R before ys ∧
      List.Forall₂ R after zs := by
  induction ys generalizing xs with
  | nil => exact ⟨[], xs, rfl, .nil, h⟩
  | cons y ys ih =>
    obtain ⟨x, xs, hxy, hxs, rfl⟩ := List.forall₂_cons_right_iff.mp h
    obtain ⟨before, after, rfl, hbefore, hafter⟩ := ih hxs
    exact ⟨x :: before, after, rfl, .cons hxy hbefore, hafter⟩

namespace Table

variable {κ α : Type} [DecidableEq κ]

theorem keys_put (t : Table κ α) (k : κ) (a : α) :
    (t.put k a).keys = if k ∈ t.keys then t.keys else t.keys ++ [k] := by
  induction t with
  | nil => rfl
  | cons x xs ih =>
    by_cases h : x.1 = k
    · simp [put, keys, h]
    · have hput : (put (x :: xs) k a).keys = x.1 :: (put xs k a).keys := by simp [put, keys, h]
      have hmem : k ∈ keys (x :: xs) ↔ k ∈ keys xs := by simp [keys, Ne.symm h]
      rw [hput, ih, if_congr hmem rfl rfl]
      split <;> rfl

theorem keys_ofWrites (ws : List (κ × α)) :
    (ofWrites ws).keys = (ws.map Prod.fst).eraseDups := by
  induction ws using List.reverseRecOn with
  | nil => rfl
  | append_singleton ws w ih =>
    rw [ofWrites_concat, keys_put, ih, List.map_append, List.eraseDups_append]
    simp only [List.mem_eraseDups]
    by_cases h : w.1 ∈ ws.map Prod.fst
    · simp [h, List.removeAll]
    · simp [h, List.removeAll, List.eraseDups_cons]

theorem get?_ofWrites {ws : List (κ × α)} {k : κ} {a : α} :
    (ofWrites ws).get? k = some a ↔
      ∃ before after, ws = before ++ (k, a) :: after ∧ k ∉ after.map Prod.fst := by
  have hlast (before : List (κ × α)) {after : List (κ × α)} (b : α) (h : k ∉ after.map Prod.fst) :
      (ofWrites (before ++ (k, b) :: after)).get? k = some b := by
    rw [List.append_cons, get?_ofWrites_append_of_not_mem h, ofWrites_concat, get?_put_self]
  constructor
  · intro hget
    by_cases hk : ∃ w ∈ ws, w.1 = k
    · obtain ⟨before, w, after, rfl, rfl, hafter⟩ := exists_last_of_mem hk
      have hnew : w.1 ∉ after.map Prod.fst := by
        intro hmem
        obtain ⟨y, hy, hyw⟩ := List.mem_map.mp hmem
        exact hafter y hy hyw
      have hw := hlast before w.2 hnew
      rw [hget] at hw
      cases hw
      exact ⟨before, after, rfl, hnew⟩
    · have hnew : k ∉ ws.map Prod.fst := by
        intro hmem
        exact hk (List.mem_map.mp hmem)
      rw [← List.nil_append ws, get?_ofWrites_append_of_not_mem hnew] at hget
      cases hget
  · rintro ⟨before, after, rfl, hafter⟩
    exact hlast before a hafter

end Table

namespace Model

variable [Platform]

/-- The name of the field of an attribute or association end, unless it is empty. -/
def label? (m : Model) (e : ElementId) : Option Value :=
  (m.fieldName (.ref e)).toOption.filter Value.isTrue

/-- The name, text and documentation that an attribute or association end writes. -/
structure Writes (m : Model) (e : ElementId) (w : FieldWrite) : Prop where
  label : m.label? e = some w.1
  text : (m.fieldText e).result = .ok w.2.text
  documentation : w.2.documentation = (m.element e).documentation

theorem fieldWrite_writes {m : Model} {e : ElementId} {ws : List FieldWrite}
    (h : (m.fieldWrite (.ref e)).result = .ok ws) :
    List.Forall₂ m.Writes ([e].filter fun e => (m.label? e).isSome) ws := by
  obtain ⟨name, hname, h⟩ := bind_ok.mp h
  have hlabel : m.label? e = if name.isTrue then some name else none := by
    rw [lift_result] at hname
    rw [label?, hname]
    rfl
  by_cases htrue : name.isTrue = true
  · rw [if_pos htrue] at hlabel
    simp only [htrue, Bool.not_true, Bool.false_eq_true, if_false] at h
    obtain ⟨text, htext, h⟩ := bind_ok.mp h
    split at h
    · cases h
    · cases h
      simpa [hlabel] using Writes.mk hlabel htext rfl
  · rw [if_neg htrue] at hlabel
    simp only [htrue, Bool.not_false, if_true] at h
    cases h
    simp [hlabel]

theorem fieldWrites_writes {m : Model} {es : List ElementId} {ws : List FieldWrite}
    (h : (m.fieldWrites es).result = .ok ws) :
    List.Forall₂ m.Writes (es.filter fun e => (m.label? e).isSome) ws := by
  obtain ⟨parts, hparts, rfl⟩ := fieldWrites_ok.mp h
  clear h
  induction hparts with
  | nil => exact .nil
  | @cons e w es parts hw _ ih =>
    rw [← List.singleton_append, List.filter_append, List.flatten_cons]
    exact List.rel_append (fieldWrite_writes hw) ih

theorem names_of_writes {m : Model} {es : List ElementId} {ws : List FieldWrite}
    (h : List.Forall₂ m.Writes es ws) : ws.map Prod.fst = es.filterMap m.label? := by
  induction h with
  | nil => rfl
  | cons hw _ ih => rw [List.map_cons, ih, List.filterMap_cons_some hw.label]

theorem get?_of_writes {m : Model} {es : List ElementId} {ws : List FieldWrite}
    (h : List.Forall₂ m.Writes es ws) (n : Value) (line : FieldLine) :
    (Table.ofWrites ws).get? n = some line ↔ ∃ before e after, es = before ++ e :: after ∧
      (∀ y ∈ after, m.label? y ≠ some n) ∧ m.Writes e (n, line) := by
  have hnew {after : List ElementId} {later : List FieldWrite}
      (h : List.Forall₂ m.Writes after later) :
      n ∉ later.map Prod.fst ↔ ∀ y ∈ after, m.label? y ≠ some n := by
    rw [names_of_writes h, List.mem_filterMap]
    push Not
    rfl
  rw [Table.get?_ofWrites]
  constructor
  · rintro ⟨earlier, later, rfl, hlater⟩
    obtain ⟨before, rest, rfl, -, hrest⟩ := forall₂_append_right h
    obtain ⟨e, after, he, hafter, rfl⟩ := List.forall₂_cons_right_iff.mp hrest
    exact ⟨before, e, after, rfl, (hnew hafter).mp hlater, he⟩
  · rintro ⟨before, e, after, rfl, hafter, he⟩
    obtain ⟨earlier, rest, rfl, -, hrest⟩ := forall₂_append_right h.flip
    obtain ⟨w, later, hw, hlater, rfl⟩ := List.forall₂_cons_right_iff.mp hrest
    have hsame : w = (n, line) := by
      have hname : w.1 = n := Option.some.inj (hw.label.symm.trans he.label)
      have htext : w.2.text = line.text := Except.ok.inj (hw.text.symm.trans he.text)
      have hdoc : w.2.documentation = line.documentation :=
        hw.documentation.trans he.documentation.symm
      obtain ⟨_, _, _⟩ := w
      cases line
      simp_all
    exact ⟨earlier, later, hsame ▸ rfl, (hnew hlater.flip).mpr hafter⟩

end Model

namespace Repository

variable {r : Repository}

/-- The line of first parents of a class: the class, its first parent in document order, that one's
first parent, and so on, up to where there is none or the next one has come before. -/
structure FirstLine (r : Repository) (c : ElementId) (line : List ElementId) : Prop where
  starts : line.head? = some c
  follows : line.IsChain fun x p => (r.leading .generalization (.ref x)).head? = some (.ref p)
  nodup : line.Nodup
  ends : ∀ x ∈ line.getLast?, ∀ p ∈ (r.leading .generalization (.ref x)).head?,
    p ∈ line.map Value.ref

/-- A chain of elements is the line of first parents from its far end, as far as nothing is met that
was met before. -/
theorem Chain.line {met chain : List Value} {v : Value} (h : r.Chain met v chain)
    {line : List ElementId} (hline : (line.map Value.ref).reverse = chain) :
    (v ∈ met ∧ line = []) ∨ ∃ c, v = .ref c ∧ line.head? = some c ∧
      (line.IsChain fun x p => (r.leading .generalization (.ref x)).head? = some (.ref p)) ∧
      line.Nodup ∧ (∀ x ∈ line, Value.ref x ∉ met) ∧
      ∀ x ∈ line.getLast?, ∀ p ∈ (r.leading .generalization (.ref x)).head?,
        p ∈ met ∨ p ∈ line.map Value.ref := by
  induction h generalizing line with
  | again hv => exact .inl ⟨hv, by simpa using hline⟩
  | @top met v hv hparents =>
    obtain ⟨c, rfl, rfl⟩ : ∃ c, line = [c] ∧ Value.ref c = v := by
      rw [List.reverse_eq_iff] at hline
      simpa [List.map_eq_singleton_iff] using hline
    have hnone : r.leading .generalization (.ref c) = [] := targets_leading rfl hparents
    exact .inr ⟨c, rfl, rfl, .singleton c, by simp, by simpa using hv, by simp [hnone]⟩
  | @step met others chain v p hv hparents _ ih =>
    obtain ⟨c, rest, rfl, rfl, hrest⟩ : ∃ c rest, line = c :: rest ∧ Value.ref c = v ∧
        (rest.map Value.ref).reverse = chain := by
      rw [List.reverse_eq_iff, List.reverse_append, List.reverse_singleton, List.singleton_append,
        List.map_eq_cons_iff] at hline
      obtain ⟨c, rest, hline, hc, hrest⟩ := hline
      exact ⟨c, rest, hline, hc, List.reverse_eq_iff.mpr hrest⟩
    have hfirst : (r.leading .generalization (.ref c)).head? = some p := by
      rw [targets_leading rfl hparents]
      rfl
    refine .inr ⟨c, rfl, rfl, ?_⟩
    rcases ih hrest with ⟨hmet, rfl⟩ | ⟨q, rfl, hhead, hchain, hnodup, hnew, hends⟩
    · -- The next parent has been met, so that the line ends here.
      refine ⟨.singleton c, by simp, by simpa using hv, ?_⟩
      intro x hx p' hp'
      obtain rfl : c = x := by simpa using hx
      obtain rfl : p = p' := Option.some.inj (hfirst.symm.trans hp')
      rcases List.mem_cons.mp hmet with rfl | hmet
      · exact .inr (by simp)
      · exact .inl hmet
    · have hc : c ∉ rest := fun hc => hnew c hc List.mem_cons_self
      refine ⟨List.isChain_cons.mpr ⟨?_, hchain⟩, List.nodup_cons.mpr ⟨hc, hnodup⟩, ?_, ?_⟩
      · intro y hy
        obtain rfl : q = y := Option.some.inj (hhead.symm.trans hy)
        exact hfirst
      · refine List.forall_mem_cons.mpr ⟨hv, fun x hx hmet => ?_⟩
        exact hnew x hx (List.mem_cons_of_mem _ hmet)
      · intro x hx p' hp'
        have hlast : x ∈ rest.getLast? := by
          cases rest with
          | nil => cases hhead
          | cons y ys => simpa using hx
        rcases hends x hlast p' hp' with hmet | hmem
        · rcases List.mem_cons.mp hmet with rfl | hmet
          · exact .inr (by simp)
          · exact .inl hmet
        · exact .inr (List.mem_cons_of_mem _ hmem)

theorem firstLine_of_chain {c : ElementId} {chain : List ElementId}
    (h : r.Chain [] (.ref c) (chain.map Value.ref)) : r.FirstLine c chain.reverse := by
  have hline : (chain.reverse.map Value.ref).reverse = chain.map Value.ref := by simp
  rcases h.line hline with ⟨hmet, -⟩ | ⟨c', hc, hhead, hchain, hnodup, -, hends⟩
  · cases hmet
  · cases hc
    refine ⟨hhead, hchain, hnodup, fun x hx p hp => ?_⟩
    exact (hends x hx p hp).resolve_left List.not_mem_nil

theorem firstLine_of_classChain {c : ElementId} {es : List ElementId}
    (h : r.classChain (.ref c) = .ok (es.map .ref)) : r.FirstLine c es.reverse := by
  refine firstLine_of_chain (classChain_chain h fun x hx => ?_)
  obtain ⟨e, -, rfl⟩ := List.mem_map.mp hx
  simp [Model.shape]

theorem writesOf_members [Platform] {order : List Value} {ws : List FieldWrite}
    (h : (r.writesOf order).result = .ok ws) : ∃ es : List ElementId, order = es.map .ref ∧
      (r.model.fieldWrites (es.flatMap r.ownMembers)).result = .ok ws := by
  obtain ⟨parts, hparts, rfl⟩ := writesOf_ok.mp h
  clear h
  induction hparts with
  | nil => exact ⟨[], rfl, rfl⟩
  | cons hw _ ih =>
    obtain ⟨e, rfl⟩ := ref_of_ownWrites hw
    obtain ⟨es, rfl, hes⟩ := ih
    exact ⟨e :: es, rfl, Model.fieldWrites_append_ok (ownWrites_members hw) hes⟩

/-- The orders in which the interfaces of a list are walked, each walk on its own. -/
def WalkOrders (r : Repository) (interfaces : List Value) (orders : List (List ElementId)) :
    Prop :=
  List.Forall₂ (fun i order => ∃ met, r.Walk [] [i] met (order.map .ref)) interfaces orders

theorem interfaces_members [Platform] {interfaces : List Value} {parts : List (List FieldWrite)}
    (h : List.Forall₂ (fun i w => (r.interfaceWrites i).result = .ok w) interfaces parts) :
    ∃ orders, r.WalkOrders interfaces orders ∧
      (r.model.fieldWrites (orders.flatten.flatMap r.ownMembers)).result = .ok parts.flatten := by
  induction h with
  | nil => exact ⟨[], .nil, rfl⟩
  | cons hw _ ih =>
    obtain ⟨met, order, hwalk, -, hw⟩ := interfaceWrites_ok.mp hw
    obtain ⟨es, rfl, hes⟩ := writesOf_members hw
    obtain ⟨orders, horders, hrest⟩ := ih
    refine ⟨es :: orders, .cons ⟨met, hwalk⟩ horders, ?_⟩
    rw [List.flatten_cons, List.flatMap_append]
    exact Model.fieldWrites_append_ok hes hrest

theorem classWrites_members [Platform] {c : ElementId} {ws : List FieldWrite}
    (h : (r.classWrites (.ref c)).result = .ok ws) :
    ∃ orders line, r.WalkOrders (r.leading .interfaceRealization (.ref c)) orders ∧
      r.FirstLine c line ∧
      (r.model.fieldWrites ((orders.flatten ++ line.reverse).flatMap r.ownMembers)).result =
        .ok ws := by
  obtain ⟨interfaces, parts, chain, last, hi, hparts, hchain, hlast, rfl⟩ := classWrites_ok.mp h
  obtain ⟨orders, horders, hfirst⟩ := interfaces_members hparts
  obtain ⟨es, rfl, hsecond⟩ := writesOf_members hlast
  rw [← targets_leading rfl hi] at horders
  refine ⟨orders, es.reverse, horders, firstLine_of_classChain hchain, ?_⟩
  rw [List.reverse_reverse, List.flatMap_append]
  exact Model.fieldWrites_append_ok hfirst hsecond

/-- The attributes and far ends of an element that have a name. -/
def own (r : Repository) (x : ElementId) : List ElementId :=
  (r.ownMembers x).filter fun e => (r.model.label? e).isSome

/-- A class table comes from the members of the interfaces that the class realizes, each walked on
its own, and then of its line of first parents from the far end. Its keys are the names of these in
the order in which they come first, and an entry is what the last member with its name writes. -/
theorem classTable_last_writes [Platform] {r : Repository} {c : ElementId} {t : FieldTable}
    (h : (r.classTable c).result = .ok t) :
    ∃ orders line, r.WalkOrders (r.leading .interfaceRealization (.ref c)) orders ∧
      r.FirstLine c line ∧
      t.keys = (((orders.flatten ++ line.reverse).flatMap r.own).filterMap
        r.model.label?).eraseDups ∧
      ∀ n value, t.get? n = some value ↔ ∃ before e after,
        (orders.flatten ++ line.reverse).flatMap r.own = before ++ e :: after ∧
        (∀ y ∈ after, r.model.label? y ≠ some n) ∧ r.model.Writes e (n, value) := by
  obtain ⟨ws, hws, rfl⟩ := classTable_ok.mp h
  obtain ⟨orders, line, horders, hline, hws⟩ := classWrites_members hws
  have hwrites := Model.fieldWrites_writes hws
  rw [List.filter_flatMap] at hwrites
  refine ⟨orders, line, horders, hline, ?_, Model.get?_of_writes hwrites⟩
  rw [Table.keys_ofWrites, Model.names_of_writes hwrites]
  rfl

/-- Two classes that extend each other. The first one realizes an interface and, after it, the
interface above it, and is associated with itself. One attribute of the second class has no name. -/
def loopedBook : Repository where
  model := ⟨#[.given .interface [(.name, .text "Named"), (.attributes, .refs [11])],
    .given .interface [(.name, .text "Titled"), (.attributes, .refs [12])],
    .given .klass [(.name, .text "Book"), (.attributes, .refs [13])],
    .given .klass [(.name, .text "Item"), (.attributes, .refs [14, 15])],
    .given .generalization [(.source, .ref 1), (.target, .ref 0)],
    .given .interfaceRealization [(.source, .ref 2), (.target, .ref 1)],
    .given .generalization [(.source, .ref 2), (.target, .ref 3)],
    .given .association [(.end1, .ref 9), (.end2, .ref 10)],
    .given .generalization [(.source, .ref 3), (.target, .ref 2)],
    .given .associationEnd [(.name, .text "sequel"), (.reference, .ref 2)],
    .given .associationEnd [(.name, .text "prequel"), (.reference, .ref 2)],
    .given .property [(.name, .text "label"), (.type, .text "Int")],
    .given .property [(.name, .text "label"), (.type, .text "String")],
    .given .property [(.name, .text "pages"), (.type, .text "Int")],
    .given .property [(.name, .text "pages"), (.type, .text "String")],
    .given .property [(.type, .text "String")],
    .given .interfaceRealization [(.source, .ref 2), (.target, .ref 0)]]⟩
  relationships := [4, 5, 6, 7, 8, 16]

attribute [local instance] Platform.usual

theorem loopedBook_last_writes :
    ∃ t orders line, (loopedBook.classTable 2).result = .ok t ∧
      loopedBook.WalkOrders [.ref 1, .ref 0] orders ∧ loopedBook.FirstLine 2 line ∧
      t.keys = [.text "label", .text "pages", .text "sequel", .text "prequel"] ∧
      t.keys = (((orders.flatten ++ line.reverse).flatMap loopedBook.own).filterMap
        loopedBook.model.label?).eraseDups ∧
      t.get? (.text "label") = some ⟨": Int", .text []⟩ ∧
      ∃ before e after,
        (orders.flatten ++ line.reverse).flatMap loopedBook.own = before ++ e :: after ∧
        (∀ y ∈ after, loopedBook.model.label? y ≠ some (.text "label")) ∧
        loopedBook.model.Writes e (.text "label", ⟨": Int", .text []⟩) := by
  have hsome : (loopedBook.classTable 2).result.toOption.map (fun t =>
      (t.keys, t.get? (.text "label"))) =
        some ([.text "label", .text "pages", .text "sequel", .text "prequel"],
          some ⟨": Int", .text []⟩) := by decide +kernel
  obtain ⟨t, ht, hfacts⟩ := Option.map_eq_some_iff.mp hsome
  obtain ⟨hkeys, hlabel⟩ := Prod.mk.inj hfacts
  have htable := ok_of_toOption ht
  obtain ⟨orders, line, horders, hline, hnames, hlast⟩ := classTable_last_writes htable
  have hinterfaces : loopedBook.leading .interfaceRealization (.ref 2) = [.ref 1, .ref 0] := by
    decide +kernel
  rw [hinterfaces] at horders
  exact ⟨t, orders, line, htable, horders, hline, hkeys, hnames, hlabel, (hlast _ _).mp hlabel⟩

end Repository

end UmlSchema
