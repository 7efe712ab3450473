import UmlSchema.Proofs.Emission
import UmlSchema.Model.Repository
import Mathlib.Data.Finset.Card
import Mathlib.Data.Finset.Image
import Mathlib.Logic.Relation

/-!
# Relationship queries as relations

A query that does not fail answers with exactly the targets of the relationships that start at the
value it is asked about. The order and the number of times a target occurs are not part of the
relation.
-/
namespace UmlSchema

theorem Element.isA_of_kind {x : Element} {k l : Kind} (hx : x.kind = k) (hk : k.isA l = true) :
    x.isA l = true := by
  rw [Element.isA, hx]
  exact hk

namespace Repository

variable {r : Repository}

def Leads (r : Repository) (k : Kind) (v w : Value) : Prop :=
  ∃ rel ∈ r.relationships, r.startsAt k v rel = true ∧
    (r.model.element rel).get? .target = some w

instance (r : Repository) (k : Kind) (v w : Value) : Decidable (r.Leads k v w) :=
  inferInstanceAs (Decidable (∃ rel ∈ r.relationships, _ ∧ _))

def Parent (r : Repository) (v w : Value) : Prop := r.Leads .generalization v w

def Realizes (r : Repository) (v w : Value) : Prop := r.Leads .interfaceRealization v w

instance (r : Repository) (v w : Value) : Decidable (r.Parent v w) :=
  inferInstanceAs (Decidable (r.Leads _ v w))

instance (r : Repository) (v w : Value) : Decidable (r.Realizes v w) :=
  inferInstanceAs (Decidable (r.Leads _ v w))

/-- Generalizations lead from the first value to the second one, in any number of steps. -/
def Reaches (r : Repository) : Value → Value → Prop := Relation.ReflTransGen r.Parent

def Acyclic (r : Repository) : Prop := ∀ v, ¬Relation.TransGen r.Parent v v

theorem select_ok {α : Type} {test : α → Except ModelFault Bool} {xs ys : List α}
    (h : select test xs = .ok ys) :
    (∀ x ∈ xs, ∃ b, test x = .ok b) ∧ ys = xs.filter fun x => decide (test x = .ok true) := by
  induction xs generalizing ys with
  | nil =>
    cases h
    exact ⟨by simp, rfl⟩
  | cons x xs ih =>
    obtain ⟨keep, hkeep, h⟩ := except_bind_ok.mp h
    obtain ⟨rest, hrest, h⟩ := except_bind_ok.mp h
    obtain ⟨hall, rfl⟩ := ih hrest
    cases h
    refine ⟨?_, by cases keep <;> simp [hkeep]⟩
    intro y hy
    rcases List.mem_cons.mp hy with rfl | hy
    · exact ⟨keep, hkeep⟩
    · exact hall y hy

theorem read_ok {m : Model} {v x : Value} {f : Field} :
    m.read v f = .ok x ↔ m.get? v f = some x := by
  unfold Model.read
  cases m.get? v f <;> simp

theorem readOf_ok {rel : ElementId} {f : Field} {x : Value} :
    r.readOf rel f = .ok x ↔ (r.model.element rel).get? f = some x := read_ok

theorem touches_of_startsAt {k : Kind} (hk : k.isA .directedRelationship = true) {v : Value}
    {rel : ElementId} (h : r.startsAt k v rel = true) : r.touches v rel = .ok true := by
  simp only [startsAt, Bool.and_eq_true, decide_eq_true_eq, Option.any_eq_true] at h
  obtain ⟨hkind, s, hs, hsame⟩ := h
  rw [touches, if_pos (Element.isA_of_kind hkind hk), readOf_ok.mpr hs]
  simp [bind, Except.bind, hsame, pure, Except.pure]

theorem mem_targets {k : Kind} (hk : k.isA .directedRelationship = true) {v w : Value}
    {ws : List Value} (h : r.targets k v = .ok ws) : w ∈ ws ↔ r.Leads k v w := by
  obtain ⟨rels, hrels, h⟩ := except_bind_ok.mp h
  obtain ⟨-, rfl⟩ := select_ok hrels
  have hmap := except_mapM_ok.mp h
  constructor
  · intro hw
    obtain ⟨rel, hrel, hread⟩ := forall₂_mem_right hmap hw
    simp only [List.mem_filter] at hrel
    exact ⟨rel, hrel.1.1, hrel.2, readOf_ok.mp hread⟩
  · rintro ⟨rel, hrel, hstart, htarget⟩
    have hmem : rel ∈ (r.relationships.filter fun x => decide (r.touches v x = .ok true)).filter
        (r.startsAt k v) := by
      simp [hrel, hstart, touches_of_startsAt hk hstart]
    obtain ⟨w', hw', hread⟩ := forall₂_mem_left hmap hmem
    rw [readOf_ok, htarget] at hread
    cases hread
    exact hw'

theorem mem_superClasses {v w : Value} {ws : List Value} (h : r.superClasses v = .ok ws) :
    w ∈ ws ↔ r.Parent v w := mem_targets rfl h

theorem mem_superInterfaces {v w : Value} {ws : List Value} (h : r.superInterfaces v = .ok ws) :
    w ∈ ws ↔ r.Realizes v w := mem_targets rfl h

theorem acyclic_of_rank (rank : Value → Nat)
    (h : ∀ rel ∈ r.relationships, (r.model.element rel).kind = .generalization →
      rank (((r.model.element rel).get? .target).getD .absent) <
        rank (((r.model.element rel).get? .source).getD .absent)) : r.Acyclic := by
  have parent {v w : Value} (hvw : r.Parent v w) : rank w < rank v := by
    obtain ⟨rel, hrel, hstart, htarget⟩ := hvw
    simp only [startsAt, Bool.and_eq_true, decide_eq_true_eq, Option.any_eq_true] at hstart
    obtain ⟨hkind, s, hs, hsame⟩ := hstart
    have hlt := h rel hrel hkind
    rw [htarget, hs, Value.eq_of_isSame hsame] at hlt
    exact hlt
  have path {v w : Value} (hvw : Relation.TransGen r.Parent v w) : rank w < rank v := by
    induction hvw with
    | single hvw => exact parent hvw
    | tail _ hvw ih => exact lt_trans (parent hvw) ih
  exact fun v hv => lt_irrefl _ (path hv)

def targetValues (r : Repository) : Finset Value :=
  (Finset.range r.model.size).image fun rel =>
    ((r.model.element rel).get? .target).getD .absent

theorem card_targetValues_le (r : Repository) : r.targetValues.card ≤ r.model.size := by
  calc r.targetValues.card ≤ (Finset.range r.model.size).card := Finset.card_image_le
    _ = r.model.size := Finset.card_range _

theorem parent_mem_targetValues {v w : Value} (h : r.Parent v w) : w ∈ r.targetValues := by
  obtain ⟨rel, _, hstart, htarget⟩ := h
  have hlt : rel < r.model.size := by
    by_contra hge
    -- A number without an element stands for a blank one, which is no relationship.
    have hblank : r.model.element rel = {} := by
      simp [Model.element, Array.getD_eq_getD_getElem?,
        Array.getElem?_eq_none (Nat.le_of_not_lt hge)]
    simp [startsAt, hblank] at hstart
  refine Finset.mem_image.mpr ⟨rel, Finset.mem_range.mpr hlt, ?_⟩
  rw [htarget]
  rfl

theorem parent_mem_insert (v x w : Value) (h : r.Parent x w) : w ∈ insert v r.targetValues :=
  Finset.mem_insert_of_mem (parent_mem_targetValues h)

theorem card_unmet_lt {U : Finset Value} {met : List Value} {v : Value} (hv : v ∈ U)
    (hmet : v ∉ met) {n : Nat} (hn : (U \ met.toFinset).card < n + 1) :
    (U \ (v :: met).toFinset).card < n := by
  have hless : U \ (v :: met).toFinset ⊂ U \ met.toFinset := by
    refine Finset.ssubset_iff_subset_ne.mpr ⟨?_, fun heq => ?_⟩
    · exact Finset.sdiff_subset_sdiff subset_rfl (by simp)
    · have hmem : v ∈ U \ met.toFinset := by simp [hv, hmet]
      simp [← heq] at hmem
  have hcard := Finset.card_lt_card hless
  omega

/-- The bound of the walks exceeds the number of values that can be met. -/
theorem card_unmet_start (v : Value) :
    (insert v r.targetValues \ ([] : List Value).toFinset).card < r.model.size + 2 := by
  have hcard := Finset.card_insert_le v r.targetValues
  have hsize := card_targetValues_le r
  simp only [List.toFinset_nil, Finset.sdiff_empty]
  omega

end Repository

end UmlSchema
