import UmlSchema.Proofs.Containment
import UmlSchema.Proofs.Depth

/-!
# What a document declares

A document declares the classes, interfaces, enumerations and primitive types that are found by
going down through projects and packages only. Rendering is described through this list: it ends
well exactly if every declaration does, and its events are theirs, one after the other.
-/
namespace UmlSchema

/-- Elements with a declaration of their own: concrete classes, interfaces, enumerations and
primitive types. -/
def Element.isDeclared (x : Element) : Bool :=
  match x.kind with
  | .klass => !((x.get? .isAbstract).getD .absent).isTrue
  | .interface | .enumeration | .primitiveType => true
  | _ => false

namespace Model

def ownedIds (m : Model) (e : ElementId) : List ElementId :=
  match (m.element e).owned with
  | .refs es => es
  | _ => []

/-- What is found by going down through containers, in document order. -/
def foundWithin (m : Model) : Nat → ElementId → List ElementId
  | 0, _ => []
  | n + 1, e =>
    if Declarer.isContainer (m.element e) then (m.ownedIds e).flatMap (m.foundWithin n) else [e]

def declaredBelow (m : Model) (e : ElementId) : List ElementId :=
  (m.foundWithin (m.size + 1) e).filter fun x => (m.element x).isDeclared

/-- An element is reached from another one, or is it, with containers all the way. -/
inductive Holds (m : Model) : ElementId → ElementId → Prop where
  | self {e} : Declarer.isContainer (m.element e) = false → Holds m e e
  | step {e c x} : Declarer.isContainer (m.element e) = true → c ∈ m.ownedIds e → Holds m c x →
      Holds m e x

/-- The owned elements of every element are a list, as they are in all models that were read. -/
def OwnedLists (m : Model) : Prop := ∀ e, ∃ es, (m.element e).owned = .refs es

theorem Nested.ownedLists {m : Model} (h : m.Nested) : m.OwnedLists := fun e =>
  let ⟨es, hes, _⟩ := h.owned e
  ⟨es, hes⟩

theorem Nested.ownedIds_range {m : Model} (h : m.Nested) {e c : Nat} (hc : c ∈ m.ownedIds e) :
    e < c ∧ c < m.size := by
  obtain ⟨es, hes, hrange⟩ := h.owned e
  rw [ownedIds, hes] at hc
  obtain ⟨hlo, hhi, _⟩ := hrange c hc
  exact ⟨hlo, hhi⟩

theorem Nested.holds_lt {m : Model} (h : m.Nested) {e x : Nat} (he : e < m.size)
    (hx : m.Holds e x) : x < m.size := by
  induction hx with
  | self => exact he
  | step _ hc _ ih => exact ih (h.ownedIds_range hc).2

/-- Children have greater numbers, so that the search never runs into its cut-off. -/
theorem Nested.mem_foundWithin {m : Model} (h : m.Nested) {n e x : Nat} (he : e < m.size)
    (hn : m.size ≤ n + e) : x ∈ m.foundWithin n e ↔ m.Holds e x := by
  induction n generalizing e with
  | zero => omega
  | succ n ih =>
    rw [foundWithin]
    cases hc : Declarer.isContainer (m.element e) with
    | false =>
      simp only [Bool.false_eq_true, if_false, List.mem_singleton]
      constructor
      · rintro rfl
        exact .self hc
      · intro hx
        cases hx with
        | self => rfl
        | step hc' => rw [hc] at hc'; cases hc'
    | true =>
      simp only [if_true, List.mem_flatMap]
      constructor
      · rintro ⟨c, hmem, hx⟩
        obtain ⟨hlo, hhi⟩ := h.ownedIds_range hmem
        exact .step hc hmem ((ih hhi (by omega)).mp hx)
      · intro hx
        cases hx with
        | self hc' => rw [hc] at hc'; cases hc'
        | @step _ c _ _ hmem hx =>
          obtain ⟨hlo, hhi⟩ := h.ownedIds_range hmem
          exact ⟨c, hmem, (ih hhi (by omega)).mpr hx⟩

theorem Nested.mem_declaredBelow {m : Model} (h : m.Nested) {e x : Nat} (he : e < m.size) :
    x ∈ m.declaredBelow e ↔ m.Holds e x ∧ (m.element x).isDeclared = true := by
  rw [declaredBelow, List.mem_filter, h.mem_foundWithin he (by omega)]

theorem not_container_of_mem_found {m : Model} {n : Nat} {e x : ElementId}
    (hx : x ∈ m.foundWithin n e) : Declarer.isContainer (m.element x) = false := by
  induction n generalizing e with
  | zero => cases hx
  | succ n ih =>
    rw [foundWithin] at hx
    split at hx
    · obtain ⟨c, _, hx⟩ := List.mem_flatMap.mp hx
      exact ih hx
    · rw [List.mem_singleton.mp hx]
      exact Bool.eq_false_iff.mpr ‹_›

end Model

namespace Declarer

open Emission

variable [Platform] (d : Declarer)

theorem declareWithin_container {n : Nat} {e : ElementId} (h : d.model.OwnedLists)
    (hc : isContainer (d.element e) = true) : d.declareWithin (n + 1) (.ref e) =
      each ((d.model.ownedIds e).map Value.ref) (d.declareWithin n) := by
  obtain ⟨es, hes⟩ := h e
  have howned : (d.element e).owned = .refs es := hes
  simp only [declareWithin, hc, if_true, Model.ownedIds, hes, howned]
  rfl

theorem declareWithin_other {n : Nat} {e : ElementId}
    (hc : isContainer (d.element e) = false) : d.declareWithin (n + 1) (.ref e) = d.single e := by
  simp [declareWithin, hc]

theorem declareWithin_ok (h : d.model.OwnedLists) (n : Nat) (e : ElementId) :
    (d.declareWithin n (.ref e)).result = .ok () ↔
      ∀ x ∈ d.model.foundWithin n e, (d.single x).result = .ok () := by
  induction n generalizing e with
  | zero => simp [declareWithin, Model.foundWithin]
  | succ n ih =>
    rw [Model.foundWithin]
    cases hc : isContainer (d.model.element e) with
    | true =>
      simp only [d.declareWithin_container h hc, each_ok, List.forall_mem_map, ih, if_true,
        List.mem_flatMap]
      constructor
      · rintro hall x ⟨c, hmem, hx⟩
        exact hall c hmem x hx
      · intro hall c hmem x hx
        exact hall x ⟨c, hmem, hx⟩
    | false =>
      rw [d.declareWithin_other hc]
      simp

theorem declareWithin_events (h : d.model.OwnedLists) {n : Nat} {e : ElementId}
    (hok : (d.declareWithin n (.ref e)).result = .ok ()) :
    (d.declareWithin n (.ref e)).events =
      (d.model.foundWithin n e).flatMap fun x => (d.single x).events := by
  induction n generalizing e with
  | zero => rfl
  | succ n ih =>
    rw [Model.foundWithin]
    cases hc : isContainer (d.model.element e) with
    | true =>
      rw [d.declareWithin_container h hc, each_ok] at hok
      rw [d.declareWithin_container h hc, each_events hok, List.flatMap_map, if_pos rfl,
        List.flatMap_assoc]
      apply List.flatMap_congr
      intro c hmem
      exact ih (hok _ (List.mem_map_of_mem hmem))
    | false => simp [d.declareWithin_other hc]

theorem single_undeclared {e : ElementId} (h : (d.element e).isDeclared = false) :
    (d.single e).result = .ok () ∧ placedLines 0 (d.single e).events = [] ∧
      warningsOf (d.single e).events = [] := by
  have nothing (what : Text) : (d.traceNothing what).result = .ok () ∧
      placedLines 0 (d.traceNothing what).events = [] ∧
      warningsOf (d.traceNothing what).events = [] := by
    unfold traceNothing
    split <;> exact ⟨rfl, rfl, rfl⟩
  unfold Element.isDeclared at h
  unfold single
  split
  · rename_i hk
    have habstract : d.isAbstract (.ref e) = true := by
      rw [hk, Bool.not_eq_eq_eq_not] at h
      exact h
    simp only [habstract]
    exact ⟨rfl, rfl, rfl⟩
  · simp_all
  · simp_all
  · simp_all
  · exact nothing _

theorem declare_ok (h : d.model.OwnedLists) (e : ElementId) :
    (d.declare e).result = .ok () ↔
      ∀ x ∈ d.model.declaredBelow e, (d.single x).result = .ok () := by
  rw [declare, d.declareWithin_ok h]
  constructor
  · intro hall x hx
    exact hall x (List.mem_of_mem_filter hx)
  · intro hall x hx
    cases hd : (d.model.element x).isDeclared with
    | true => exact hall x (List.mem_filter.mpr ⟨hx, hd⟩)
    | false => exact (d.single_undeclared hd).1

end Declarer

end UmlSchema
