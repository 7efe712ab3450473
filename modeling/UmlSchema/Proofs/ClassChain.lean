import UmlSchema.Proofs.FieldNames

/-!
# The chain of first parents

A class is flattened along first parents only. The chain holds exactly the values that are reached
that way, also where the first parents lead in a circle.
-/
namespace UmlSchema.Repository

variable {r : Repository}

def FirstParent (r : Repository) (v p : Value) : Prop :=
  ∃ others, r.superClasses v = .ok (p :: others)

/-- First parents lead from the first value to the second one, in any number of steps. -/
def Climbs (r : Repository) : Value → Value → Prop := Relation.ReflTransGen r.FirstParent

/-- From some elements met before, a value has this chain of first parents, the value itself
last. -/
inductive Chain (r : Repository) : List Value → Value → List Value → Prop where
  | again {met : List Value} {v : Value} : v ∈ met → Chain r met v []
  | top {met : List Value} {v : Value} : v ∉ met → r.superClasses v = .ok [] → Chain r met v [v]
  | step {met others chain : List Value} {v p : Value} : v ∉ met →
    r.superClasses v = .ok (p :: others) → Chain r (v :: met) p chain →
    Chain r met v (chain ++ [v])

namespace Chain

variable {met chain : List Value} {v : Value}

theorem reached (h : r.Chain met v chain) : ∀ x ∈ chain, r.Climbs v x := by
  induction h with
  | again _ => simp
  | top _ _ => simpa using .refl
  | step _ hparents _ ih =>
    refine List.forall_mem_append.mpr ⟨fun x hx => .head ⟨_, hparents⟩ (ih x hx), ?_⟩
    simpa using .refl

theorem unique {chain' : List Value} (h : r.Chain met v chain) (h' : r.Chain met v chain') :
    chain = chain' := by
  induction h generalizing chain' with
  | again hv =>
    cases h' with
    | again _ => rfl
    | top hnew _ => exact absurd hv hnew
    | step hnew _ _ => exact absurd hv hnew
  | top hnew hparents =>
    cases h' with
    | again hv => exact absurd hv hnew
    | top _ _ => rfl
    | step _ hparents' _ => cases hparents.symm.trans hparents'
  | step hnew hparents _ ih =>
    cases h' with
    | again hv => exact absurd hv hnew
    | top _ hparents' => cases hparents.symm.trans hparents'
    | step _ hparents' hchain =>
      obtain ⟨rfl, -⟩ := List.cons.inj (Except.ok.inj (hparents.symm.trans hparents'))
      rw [ih hchain]

theorem self (h : r.Chain met v chain) : v ∈ met ∨ v ∈ chain := by
  cases h with
  | again hv => exact .inl hv
  | top _ _ => simp
  | step _ _ _ => simp

theorem closed (h : r.Chain met v chain) : ∀ x ∈ chain,
    (∃ parents, r.superClasses x = .ok parents) ∧
      ∀ p, r.FirstParent x p → p ∈ met ∨ p ∈ chain := by
  induction h with
  | again _ => simp
  | top _ hparents =>
    intro x hx
    rw [List.mem_singleton.mp hx]
    refine ⟨⟨_, hparents⟩, ?_⟩
    rintro p ⟨others, hp⟩
    rw [hparents] at hp
    cases hp
  | @step met others chain v q _ hparents hchain ih =>
    intro x hx
    rcases List.mem_append.mp hx with hx | hx
    · obtain ⟨hasked, hfirst⟩ := ih x hx
      refine ⟨hasked, fun p hp => ?_⟩
      rcases hfirst p hp with hmet | hmem
      · rcases List.mem_cons.mp hmet with rfl | hmet
        · exact .inr (by simp)
        · exact .inl hmet
      · exact .inr (List.mem_append_left _ hmem)
    · rw [List.mem_singleton.mp hx]
      refine ⟨⟨_, hparents⟩, ?_⟩
      rintro p ⟨others', hp⟩
      rw [hparents] at hp
      cases hp
      rcases hchain.self with hmet | hmem
      · rcases List.mem_cons.mp hmet with rfl | hmet
        · exact .inr (by simp)
        · exact .inl hmet
      · exact .inr (List.mem_append_left _ hmem)

theorem mem_chain (h : r.Chain [] v chain) (x : Value) : x ∈ chain ↔ r.Climbs v x := by
  constructor
  · exact h.reached x
  · intro hclimb
    induction hclimb with
    | refl => simpa using h.self
    | tail _ hfirst ih => simpa using (h.closed _ ih).2 _ hfirst

end Chain

private theorem chain_of_within {U : Finset Value} (hU : ∀ v w, r.Parent v w → w ∈ U) {n : Nat} :
    ∀ {met chain : List Value} {v : Value}, v ∈ U → (U \ met.toFinset).card < n →
      r.classChainWithin n met v = .ok chain → (∀ x ∈ chain, r.model.shape x ≠ .list) →
      r.Chain met v chain := by
  induction n with
  | zero => exact fun _ hn => absurd hn (Nat.not_lt_zero _)
  | succ n ih =>
    intro met chain v hv hn h hlist
    rw [classChainWithin] at h
    split at h
    · rename_i hmet
      cases h
      exact .again hmet
    rename_i hmet
    split at h
    · rename_i hshape
      cases h
      exact absurd hshape (hlist v (by simp))
    obtain ⟨parents, hparents, h⟩ := except_bind_ok.mp h
    cases parents with
    | nil =>
      cases h
      exact .top hmet hparents
    | cons p others =>
      obtain ⟨above, habove, h⟩ := except_bind_ok.mp h
      cases h
      have hp : p ∈ U := hU v p ((mem_superClasses hparents).mp List.mem_cons_self)
      exact .step hmet hparents (ih hp (card_unmet_lt hv hmet hn) habove fun x hx =>
        hlist x (List.mem_append_left _ hx))

theorem classChain_chain {v : Value} {chain : List Value} (h : r.classChain v = .ok chain)
    (hlist : ∀ x ∈ chain, r.model.shape x ≠ .list) : r.Chain [] v chain := by
  exact chain_of_within (parent_mem_insert v) (by simp) (card_unmet_start v) h hlist

theorem classChain_ok {v : Value}
    (h : ∀ x, r.Climbs v x → ∃ parents, r.superClasses x = .ok parents) :
    ∃ chain, r.classChain v = .ok chain ∧ ∀ x ∈ chain, r.Climbs v x := by
  have within (n : Nat) : ∀ (met : List Value) (x : Value), r.Climbs v x →
      ∃ chain, r.classChainWithin n met x = .ok chain ∧ ∀ y ∈ chain, r.Climbs v y := by
    induction n with
    | zero => exact fun _ _ _ => ⟨[], rfl, by simp⟩
    | succ n ih =>
      intro met x hx
      rw [classChainWithin]
      split
      · exact ⟨[], rfl, by simp⟩
      split
      · exact ⟨[x], rfl, by simpa⟩
      obtain ⟨parents, hparents⟩ := h x hx
      cases parents with
      | nil => exact ⟨[x], except_bind_ok.mpr ⟨[], hparents, rfl⟩, by simpa⟩
      | cons p others =>
        obtain ⟨above, habove, hall⟩ := ih (x :: met) p (hx.tail ⟨others, hparents⟩)
        refine ⟨above ++ [x], ?_, List.forall_mem_append.mpr ⟨hall, by simpa⟩⟩
        exact except_bind_ok.mpr ⟨_, hparents, except_bind_ok.mpr ⟨above, habove, rfl⟩⟩
  exact within _ [] v .refl

theorem classChain_of_chain {v : Value} {chain : List Value} (h : r.Chain [] v chain)
    (hlist : ∀ x ∈ chain, r.model.shape x ≠ .list) : r.classChain v = .ok chain := by
  obtain ⟨chain', hchain', hclimb⟩ := classChain_ok fun x hx =>
    (h.closed x ((h.mem_chain x).mpr hx)).1
  have h' := classChain_chain hchain' fun x hx => hlist x ((h.mem_chain x).mpr (hclimb x hx))
  rw [hchain', h.unique h']

theorem chain_of_writesOf [Platform] {v : Value} {chain : List Value} {ws : List FieldWrite}
    (h : r.classChain v = .ok chain) (hws : (r.writesOf chain).result = .ok ws) :
    r.Chain [] v chain := by
  obtain ⟨owns, howns, -⟩ := writesOf_ok.mp hws
  apply classChain_chain h
  intro y hy
  obtain ⟨own, -, hown⟩ := forall₂_mem_left howns hy
  exact (ownWrites_ok.mp hown).1

theorem names_classWrites [Platform] {v : Value} {ws : List FieldWrite}
    (h : (r.classWrites v).result = .ok ws) (n : Value) :
    n ∈ ws.map Prod.fst ↔
      (∃ i, r.Realizes v i ∧ ∃ x, r.Reaches i x ∧ r.WritesName x n) ∨
      ∃ x, r.Climbs v x ∧ r.WritesName x n := by
  obtain ⟨interfaces, parts, chain, last, hi, hparts, hchain, hlast, rfl⟩ := classWrites_ok.mp h
  have hspec := chain_of_writesOf hchain hlast
  rw [List.map_append, List.mem_append, names_writesOf hlast]
  refine or_congr ?_ (exists_congr fun x => and_congr (hspec.mem_chain x) Iff.rfl)
  simp only [List.map_flatten, List.mem_flatten, List.mem_map, exists_exists_and_eq_and]
  constructor
  · rintro ⟨part, hpart, hn⟩
    obtain ⟨i, hmem, hwrites⟩ := forall₂_mem_right hparts hpart
    refine ⟨i, (mem_superInterfaces hi).mp hmem, ?_⟩
    exact (names_interfaceWrites hwrites n).mp (List.mem_map.mpr hn)
  · rintro ⟨i, hreal, hx⟩
    obtain ⟨part, hpart, hwrites⟩ := forall₂_mem_left hparts ((mem_superInterfaces hi).mpr hreal)
    exact ⟨part, hpart, List.mem_map.mp ((names_interfaceWrites hwrites n).mpr hx)⟩

theorem classWrites_total [Platform] {v : Value} :
    (∃ ws, (r.classWrites v).result = .ok ws) ↔
      (∃ interfaces, r.superInterfaces v = .ok interfaces) ∧
      (∀ i, r.Realizes v i → ∀ x, r.Reaches i x → r.Walkable x) ∧
      ∀ x, r.Climbs v x → r.Walkable x := by
  constructor
  · rintro ⟨ws, hws⟩
    obtain ⟨interfaces, parts, chain, last, hi, hparts, hchain, hlast, -⟩ := classWrites_ok.mp hws
    obtain ⟨owns, howns, -⟩ := writesOf_ok.mp hlast
    refine ⟨⟨interfaces, hi⟩, fun i hri => ?_, fun x hx => ?_⟩
    · obtain ⟨part, -, hpart⟩ := forall₂_mem_left hparts ((mem_superInterfaces hi).mpr hri)
      exact interfaceWrites_total.mp ⟨part, hpart⟩
    · have hspec := chain_of_writesOf hchain hlast
      have hmem := (hspec.mem_chain x).mpr hx
      obtain ⟨own, -, hown⟩ := forall₂_mem_left howns hmem
      exact ⟨(hspec.closed x hmem).1, own, hown⟩
  · rintro ⟨⟨interfaces, hi⟩, hinterfaces, hclimb⟩
    obtain ⟨parts, hparts⟩ : ∃ parts,
        List.Forall₂ (fun i w => (r.interfaceWrites i).result = .ok w) interfaces parts :=
      exists_forall₂ fun i hmem =>
        interfaceWrites_total.mpr (hinterfaces i ((mem_superInterfaces hi).mp hmem))
    obtain ⟨chain, hchain, hmem⟩ := classChain_ok fun x hx => (hclimb x hx).1
    obtain ⟨owns, howns⟩ := exists_forall₂ fun x hx => (hclimb x (hmem x hx)).2
    have hlast := writesOf_ok.mpr ⟨owns, howns, rfl⟩
    exact ⟨_, classWrites_ok.mpr ⟨interfaces, parts, chain, _, hi, hparts, hchain, hlast, rfl⟩⟩

end UmlSchema.Repository
