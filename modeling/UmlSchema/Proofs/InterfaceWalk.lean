import UmlSchema.Proofs.Queries
import UmlSchema.Schema.Lineage

/-!
# Walks over generalizations

The walk over an interface and its ancestors as a relation: what has been met, what is still to be
visited, and the order in which elements are left. The relation has no bound on its depth; the bound
of the walk that runs is never felt, because each step down meets a new target of a relationship.
-/
namespace UmlSchema.Repository

variable {r : Repository}

/-- From some elements met before, visiting a list of values leaves these elements met, and puts
the new ones in this order, each after its parents. -/
inductive Walk (r : Repository) : List Value → List Value → List Value → List Value → Prop where
  | nil (met : List Value) : Walk r met [] met []
  | again {met met' vs order : List Value} {v : Value} :
    v ∈ met → Walk r met vs met' order → Walk r met (v :: vs) met' order
  | enter {met met₁ met₂ parents vs above order : List Value} {v : Value} :
    v ∉ met → r.superClasses v = .ok parents → Walk r (v :: met) parents met₁ above →
    Walk r met₁ vs met₂ order → Walk r met (v :: vs) met₂ (above ++ v :: order)

namespace Walk

variable {met met' vs order : List Value}

theorem append {met'' ws order' : List Value} (h : r.Walk met vs met' order)
    (h' : r.Walk met' ws met'' order') : r.Walk met (vs ++ ws) met'' (order ++ order') := by
  induction h with
  | nil met => exact h'
  | again hv _ ih => exact again hv (ih h')
  | enter hv hparents habove _ _ ih =>
    rw [List.append_assoc]
    exact enter hv hparents habove (ih h')

theorem mem_met (h : r.Walk met vs met' order) (x : Value) :
    x ∈ met' ↔ x ∈ met ∨ x ∈ order := by
  induction h with
  | nil met => simp
  | again _ _ ih => exact ih
  | enter _ _ _ _ ih₁ ih₂ =>
    rw [ih₂, ih₁]
    simp only [List.mem_cons, List.mem_append]
    tauto

theorem unique {met₁ met₂ order₁ order₂ : List Value} (h : r.Walk met vs met₁ order₁)
    (h' : r.Walk met vs met₂ order₂) : met₁ = met₂ ∧ order₁ = order₂ := by
  induction h generalizing met₂ order₂ with
  | nil met =>
    cases h'
    exact ⟨rfl, rfl⟩
  | again hv _ ih =>
    cases h' with
    | again _ hrest => exact ih hrest
    | enter hnew _ _ _ => exact absurd hv hnew
  | enter hnew hparents _ _ ih₁ ih₂ =>
    cases h' with
    | again hv _ => exact absurd hv hnew
    | enter _ hparents' habove hrest =>
      obtain rfl := Except.ok.inj (hparents.symm.trans hparents')
      obtain ⟨rfl, rfl⟩ := ih₁ habove
      obtain ⟨rfl, rfl⟩ := ih₂ hrest
      exact ⟨rfl, rfl⟩

theorem visited (h : r.Walk met vs met' order) : ∀ v ∈ vs, v ∈ met' := by
  induction h with
  | nil met => simp
  | again hv hrest ih => exact List.forall_mem_cons.mpr ⟨(hrest.mem_met _).mpr (.inl hv), ih⟩
  | enter _ _ habove hrest _ ih =>
    have hv := (habove.mem_met _).mpr (.inl List.mem_cons_self)
    exact List.forall_mem_cons.mpr ⟨(hrest.mem_met _).mpr (.inl hv), ih⟩

theorem fresh (h : r.Walk met vs met' order) : (∀ x ∈ order, x ∉ met) ∧ order.Nodup := by
  induction h with
  | nil met => simp
  | again _ _ ih => exact ih
  | enter hv _ habove _ ih₁ ih₂ =>
    obtain ⟨hnew₁, hnodup₁⟩ := ih₁
    obtain ⟨hnew₂, hnodup₂⟩ := ih₂
    have hnew (x : Value) (hx : x ∈ _) := mt (habove.mem_met x).mpr (hnew₂ x hx)
    simp only [List.mem_cons, not_or] at hnew hnew₁
    constructor
    · intro x hx
      rcases List.mem_append.mp hx with hx | hx
      · exact (hnew₁ x hx).2
      · rcases List.mem_cons.mp hx with rfl | hx
        · exact hv
        · exact (hnew x hx).1.2
    · refine List.nodup_append.mpr ⟨hnodup₁, List.nodup_cons.mpr ⟨?_, hnodup₂⟩, ?_⟩
      · exact fun hmem => (hnew _ hmem).1.1 rfl
      · rintro x hx y hy rfl
        rcases List.mem_cons.mp hy with rfl | hy
        · exact (hnew₁ x hx).1 rfl
        · exact (hnew x hy).2 hx

theorem closed (h : r.Walk met vs met' order) : ∀ x ∈ order,
    ∃ parents, r.superClasses x = .ok parents ∧ ∀ p ∈ parents, p ∈ met' := by
  induction h with
  | nil met => simp
  | again _ _ ih => exact ih
  | enter _ hparents habove hrest ih₁ ih₂ =>
    intro x hx
    have later (p : Value) (hp : p ∈ _) := (hrest.mem_met p).mpr (.inl hp)
    rcases List.mem_append.mp hx with hx | hx
    · obtain ⟨ps, hps, hmet⟩ := ih₁ x hx
      exact ⟨ps, hps, fun p hp => later p (hmet p hp)⟩
    · rcases List.mem_cons.mp hx with rfl | hx
      · exact ⟨_, hparents, fun p hp => later p (habove.visited p hp)⟩
      · exact ih₂ x hx

theorem reached (h : r.Walk met vs met' order) : ∀ x ∈ order, ∃ v ∈ vs, r.Reaches v x := by
  induction h with
  | nil met => simp
  | again _ _ ih =>
    intro x hx
    obtain ⟨v, hv, hreach⟩ := ih x hx
    exact ⟨v, List.mem_cons_of_mem _ hv, hreach⟩
  | enter _ hparents _ _ ih₁ ih₂ =>
    intro x hx
    rcases List.mem_append.mp hx with hx | hx
    · obtain ⟨p, hp, hreach⟩ := ih₁ x hx
      exact ⟨_, List.mem_cons_self, .head ((mem_superClasses hparents).mp hp) hreach⟩
    · rcases List.mem_cons.mp hx with rfl | hx
      · exact ⟨x, List.mem_cons_self, .refl⟩
      · obtain ⟨v, hv, hreach⟩ := ih₂ x hx
        exact ⟨v, List.mem_cons_of_mem _ hv, hreach⟩

theorem mem_order {v : Value} (h : r.Walk [] [v] met' order) (x : Value) :
    x ∈ order ↔ r.Reaches v x := by
  have hmet (y : Value) : y ∈ met' ↔ y ∈ order := by simpa using h.mem_met y
  constructor
  · intro hx
    obtain ⟨w, hw, hreach⟩ := h.reached x hx
    rw [List.mem_singleton.mp hw] at hreach
    exact hreach
  · intro hreach
    induction hreach with
    | refl => exact (hmet v).mp (h.visited v (by simp))
    | tail _ hparent ih =>
      obtain ⟨parents, hparents, hall⟩ := h.closed _ ih
      exact (hmet _).mp (hall _ ((mem_superClasses hparents).mpr hparent))

/-- Without a cycle through what is left, no element comes before one of its ancestors, and the
ancestors of all that is visited have been met in the end. -/
theorem ancestors_first (h : r.Walk met vs met' order)
    (hacyclic : ∀ x ∈ order, ¬Relation.TransGen r.Parent x x)
    -- What is met above a pending value is met with all of its own ancestors.
    (hmet : ∀ v ∈ vs, ∀ g ∈ met, r.Reaches v g → ∀ p, r.Reaches g p → p ∈ met) :
    (∀ v ∈ vs, ∀ p, r.Reaches v p → p ∈ met') ∧ order.Pairwise fun y x => ¬r.Reaches y x := by
  induction h with
  | nil met => simp
  | @again met met' vs order v hv hrest ih =>
    obtain ⟨hself, hothers⟩ := List.forall_mem_cons.mp hmet
    obtain ⟨hcomplete, hpairs⟩ := ih hacyclic hothers
    refine ⟨List.forall_mem_cons.mpr ⟨fun p hp => ?_, hcomplete⟩, hpairs⟩
    exact (hrest.mem_met p).mpr (.inl (hself v hv .refl p hp))
  | @enter met met₁ met₂ parents vs above order v hv hparents habove hrest ih₁ ih₂ =>
    obtain ⟨hself, hothers⟩ := List.forall_mem_cons.mp hmet
    obtain ⟨hacyclic₁, hacyclic⟩ := List.forall_mem_append.mp hacyclic
    obtain ⟨hacyclic_v, hacyclic₂⟩ := List.forall_mem_cons.mp hacyclic
    have hup (p : Value) (hp : p ∈ parents) : r.Parent v p := (mem_superClasses hparents).mp hp
    have hno {x : Value} (p : Value) (hp : p ∈ parents) (hpx : r.Reaches p x) :
        ¬r.Reaches x v := fun hxv => hacyclic_v (.head' (hup p hp) (hpx.trans hxv))
    obtain ⟨habove_all, habove_pairs⟩ := ih₁ hacyclic₁ fun p hp g hg hpg q hgq => by
      rcases List.mem_cons.mp hg with rfl | hg
      · exact absurd .refl (hno p hp hpg)
      · exact List.mem_cons_of_mem _ (hself g hg (.head (hup p hp) hpg) q hgq)
    have hv_all (p : Value) (hp : r.Reaches v p) : p ∈ met₁ := by
      rcases hp.cases_head with rfl | ⟨q, hq, hqp⟩
      · exact (habove.mem_met v).mpr (.inl List.mem_cons_self)
      · exact habove_all q ((mem_superClasses hparents).mpr hq) p hqp
    have habove_of_v (y : Value) (hy : y ∈ above) : r.Reaches v y := by
      obtain ⟨p, hp, hpy⟩ := habove.reached y hy
      exact .head (hup p hp) hpy
    obtain ⟨hcomplete, hpairs⟩ := ih₂ hacyclic₂ fun w hw g hg hwg p hgp => by
      rcases (habove.mem_met g).mp hg with hg | hg
      · rcases List.mem_cons.mp hg with rfl | hg
        · exact hv_all p hgp
        · have := hothers w hw g hg hwg p hgp
          exact (habove.mem_met p).mpr (.inl (List.mem_cons_of_mem _ this))
      · exact hv_all p ((habove_of_v g hg).trans hgp)
    have hlater (y x : Value) (hy : r.Reaches v y) (hx : x ∈ order) : ¬r.Reaches y x :=
      fun hyx => hrest.fresh.1 x hx (hv_all x (hy.trans hyx))
    constructor
    · refine List.forall_mem_cons.mpr ⟨fun p hp => ?_, hcomplete⟩
      exact (hrest.mem_met p).mpr (.inl (hv_all p hp))
    · refine List.pairwise_append.mpr ⟨habove_pairs, List.pairwise_cons.mpr ⟨?_, hpairs⟩, ?_⟩
      · exact fun x hx => hlater v x .refl hx
      · intro y hy x hx
        rcases List.mem_cons.mp hx with rfl | hx
        · obtain ⟨p, hp, hpy⟩ := habove.reached y hy
          exact hno p hp hpy
        · exact hlater y x (habove_of_v y hy) hx

end Walk

private def visitParent (r : Repository) (n : Nat) (last : List Value × List Value)
    (parent : Value) : Except ModelFault (List Value × List Value) := do
  let next ← r.interfaceOrderWithin n last.1 parent
  return (next.1, last.2 ++ next.2)

private theorem interfaceOrderWithin_enter {n : Nat} {met : List Value} {v : Value}
    (hv : v ∉ met) (hlist : r.model.shape v ≠ .list) :
    r.interfaceOrderWithin (n + 1) met v = (do
      let parents ← r.superClasses v
      let last ← parents.foldlM (r.visitParent n) (v :: met, [])
      return (last.1, last.2 ++ [v])) := by
  rw [interfaceOrderWithin, if_neg hv, if_neg hlist]
  rfl

private theorem visitParents_cons {n : Nat} {p : Value} {ps : List Value}
    {first last : List Value × List Value}
    (h : (p :: ps).foldlM (r.visitParent n) first = .ok last) :
    ∃ met above, r.interfaceOrderWithin n first.1 p = .ok (met, above) ∧
      ps.foldlM (r.visitParent n) (met, first.2 ++ above) = .ok last := by
  rw [List.foldlM_cons] at h
  obtain ⟨_, hstep, h⟩ := except_bind_ok.mp h
  obtain ⟨⟨met, above⟩, hnext, hstep⟩ := except_bind_ok.mp hstep
  cases hstep
  exact ⟨met, above, hnext, h⟩

private theorem visitParents_grows {n : Nat} {ps : List Value}
    {first last : List Value × List Value}
    (h : ps.foldlM (r.visitParent n) first = .ok last) : first.2 ⊆ last.2 := by
  induction ps generalizing first with
  | nil =>
    cases h
    exact List.Subset.refl _
  | cons p ps ih =>
    obtain ⟨met, above, -, h⟩ := visitParents_cons h
    exact fun x hx => ih h (List.mem_append_left above hx)

private theorem walk_of_parents {n : Nat} {U : Finset Value}
    (hwalk : ∀ {met met' order : List Value} {v : Value}, v ∈ U → (U \ met.toFinset).card < n →
      r.interfaceOrderWithin n met v = .ok (met', order) →
      (∀ x ∈ order, r.model.shape x ≠ .list) → r.Walk met [v] met' order)
    {parents met met' before after : List Value} (hU : ∀ p ∈ parents, p ∈ U)
    (hn : (U \ met.toFinset).card < n)
    (h : parents.foldlM (r.visitParent n) (met, before) = .ok (met', after))
    (hlist : ∀ x ∈ after, r.model.shape x ≠ .list) :
    ∃ more, after = before ++ more ∧ r.Walk met parents met' more := by
  induction parents generalizing met before with
  | nil =>
    cases h
    exact ⟨[], by simp, .nil _⟩
  | cons p ps ih =>
    obtain ⟨hp, hps⟩ := List.forall_mem_cons.mp hU
    obtain ⟨met₁, above, hfirst, hrest⟩ := visitParents_cons h
    have hgrows := visitParents_grows hrest
    have habove : r.Walk met [p] met₁ above :=
      hwalk hp hn hfirst fun x hx => hlist x (hgrows (List.mem_append_right before hx))
    have hn₁ : (U \ met₁.toFinset).card < n := by
      refine lt_of_le_of_lt (Finset.card_le_card (Finset.sdiff_subset_sdiff subset_rfl ?_)) hn
      intro x hx
      rw [List.mem_toFinset] at hx ⊢
      exact (habove.mem_met x).mpr (.inl hx)
    obtain ⟨more, rfl, hmore⟩ := ih hps hn₁ hrest
    exact ⟨above ++ more, by simp, habove.append hmore⟩

/-- With one more step than there are new values to meet, the bound is not felt. -/
private theorem walk_of_within {U : Finset Value} (hU : ∀ v w, r.Parent v w → w ∈ U) {n : Nat} :
    ∀ {met met' order : List Value} {v : Value}, v ∈ U → (U \ met.toFinset).card < n →
      r.interfaceOrderWithin n met v = .ok (met', order) →
      (∀ x ∈ order, r.model.shape x ≠ .list) → r.Walk met [v] met' order := by
  induction n with
  | zero => exact fun _ hn => absurd hn (Nat.not_lt_zero _)
  | succ n ih =>
    intro met met' order v hv hn h hlist
    by_cases hmet : v ∈ met
    · rw [interfaceOrderWithin, if_pos hmet] at h
      cases h
      exact .again hmet (.nil _)
    by_cases hshape : r.model.shape v = .list
    · rw [interfaceOrderWithin, if_neg hmet, if_pos hshape] at h
      cases h
      exact absurd hshape (hlist v (by simp))
    rw [interfaceOrderWithin_enter hmet hshape] at h
    obtain ⟨parents, hparents, h⟩ := except_bind_ok.mp h
    obtain ⟨⟨met₁, above⟩, hfold, h⟩ := except_bind_ok.mp h
    cases h
    obtain ⟨more, hmore, hwalk⟩ := walk_of_parents ih
      (fun p hp => hU v p ((mem_superClasses hparents).mp hp)) (card_unmet_lt hv hmet hn) hfold
      (fun x hx => hlist x (List.mem_append_left _ hx))
    rw [List.nil_append] at hmore
    subst hmore
    exact .enter hmet hparents hwalk (.nil _)

theorem interfaceOrder_walk {v : Value} {order : List Value} (h : r.interfaceOrder v = .ok order)
    (hlist : ∀ x ∈ order, r.model.shape x ≠ .list) : ∃ met, r.Walk [] [v] met order := by
  obtain ⟨⟨met, order⟩, hwithin, h⟩ := except_bind_ok.mp h
  cases h
  exact ⟨met, walk_of_within (parent_mem_insert v) (by simp) (card_unmet_start v) hwithin hlist⟩

theorem interfaceOrder_ok {v : Value}
    (h : ∀ x, r.Reaches v x → ∃ parents, r.superClasses x = .ok parents) :
    ∃ order, r.interfaceOrder v = .ok order ∧ ∀ x ∈ order, r.Reaches v x := by
  have within (n : Nat) : ∀ (met : List Value) (x : Value), r.Reaches v x →
      ∃ last, r.interfaceOrderWithin n met x = .ok last ∧ ∀ y ∈ last.2, r.Reaches v y := by
    induction n with
    | zero => exact fun met _ _ => ⟨(met, []), rfl, by simp⟩
    | succ n ih =>
      intro met x hx
      by_cases hmet : x ∈ met
      · exact ⟨(met, []), by rw [interfaceOrderWithin, if_pos hmet], by simp⟩
      by_cases hshape : r.model.shape x = .list
      · exact ⟨(met, [x]), by rw [interfaceOrderWithin, if_neg hmet, if_pos hshape], by simpa⟩
      obtain ⟨parents, hparents⟩ := h x hx
      have fold : ∀ (ps : List Value) (first : List Value × List Value),
          (∀ p ∈ ps, r.Reaches v p) → (∀ y ∈ first.2, r.Reaches v y) →
          ∃ last, ps.foldlM (r.visitParent n) first = .ok last ∧ ∀ y ∈ last.2, r.Reaches v y := by
        intro ps
        induction ps with
        | nil => exact fun first _ hfirst => ⟨first, rfl, hfirst⟩
        | cons p ps ihps =>
          intro first hps hfirst
          obtain ⟨hp, hps⟩ := List.forall_mem_cons.mp hps
          obtain ⟨next, hnext, hnew⟩ := ih first.1 p hp
          obtain ⟨last, hlast, hall⟩ := ihps (next.1, first.2 ++ next.2) hps
            (List.forall_mem_append.mpr ⟨hfirst, hnew⟩)
          refine ⟨last, ?_, hall⟩
          rw [List.foldlM_cons, visitParent, hnext]
          exact hlast
      obtain ⟨last, hlast, hall⟩ := fold parents (x :: met, [])
        (fun p hp => hx.tail ((mem_superClasses hparents).mp hp)) (by simp)
      refine ⟨(last.1, last.2 ++ [x]), ?_, List.forall_mem_append.mpr ⟨hall, by simpa⟩⟩
      rw [interfaceOrderWithin_enter hmet hshape]
      exact except_bind_ok.mpr ⟨parents, hparents, except_bind_ok.mpr ⟨last, hlast, rfl⟩⟩
  obtain ⟨last, hlast, hall⟩ := within (r.model.size + 2) [] v .refl
  exact ⟨last.2, except_bind_ok.mpr ⟨last, hlast, rfl⟩, hall⟩

private theorem visitParents_of_walk {U : Finset Value} (hU : ∀ v w, r.Parent v w → w ∈ U)
    {met vs met' order : List Value} (h : r.Walk met vs met' order) :
    ∀ {n : Nat} {before : List Value}, (∀ v ∈ vs, v ∈ U) → (U \ met.toFinset).card < n →
      (∀ x ∈ order, r.model.shape x ≠ .list) →
      vs.foldlM (r.visitParent n) (met, before) = .ok (met', before ++ order) := by
  induction h with
  | nil met =>
    intro n before _ _ _
    rw [List.append_nil]
    rfl
  | @again met met' vs order v hv _ ih =>
    intro n before hvs hn hlist
    cases n with
    | zero => omega
    | succ n =>
      have hstep : r.visitParent (n + 1) (met, before) v = .ok (met, before ++ []) := by
        rw [visitParent, interfaceOrderWithin, if_pos hv]
        rfl
      rw [List.foldlM_cons, hstep, List.append_nil]
      exact ih (List.forall_mem_cons.mp hvs).2 hn hlist
  | @enter met met₁ met₂ parents vs above order v hv hparents habove _ ih₁ ih₂ =>
    intro n before hvs hn hlist
    obtain ⟨hvU, hvs⟩ := List.forall_mem_cons.mp hvs
    obtain ⟨hlist₁, hlist⟩ := List.forall_mem_append.mp hlist
    obtain ⟨hlist_v, hlist₂⟩ := List.forall_mem_cons.mp hlist
    cases n with
    | zero => omega
    | succ n =>
      have hup : parents.foldlM (r.visitParent n) (v :: met, []) = .ok (met₁, above) :=
        ih₁ (fun p hp => hU v p ((mem_superClasses hparents).mp hp)) (card_unmet_lt hvU hv hn)
          hlist₁
      have hstep : r.visitParent (n + 1) (met, before) v =
          .ok (met₁, before ++ (above ++ [v])) := by
        rw [visitParent, interfaceOrderWithin_enter hv hlist_v, hparents, except_ok_bind, hup]
        rfl
      have hn₁ : (U \ met₁.toFinset).card < n + 1 := by
        refine lt_of_le_of_lt (Finset.card_le_card (Finset.sdiff_subset_sdiff subset_rfl ?_)) hn
        intro x hx
        rw [List.mem_toFinset] at hx ⊢
        exact (habove.mem_met x).mpr (.inl (List.mem_cons_of_mem v hx))
      rw [List.foldlM_cons, hstep, except_ok_bind, ih₂ hvs hn₁ hlist₂]
      simp

theorem interfaceOrderWithin_of_walk {v : Value} {met order : List Value}
    (h : r.Walk [] [v] met order) (hlist : ∀ x ∈ order, r.model.shape x ≠ .list) {n : Nat}
    (hn : r.model.size + 2 ≤ n) : r.interfaceOrderWithin n [] v = .ok (met, order) := by
  have hbound := lt_of_lt_of_le (card_unmet_start (r := r) v) hn
  have hfold : [v].foldlM (r.visitParent n) ([], []) = .ok (met, [] ++ order) :=
    visitParents_of_walk (parent_mem_insert v) h (by simp) hbound hlist
  rw [List.foldlM_cons] at hfold
  obtain ⟨_, hstep, hlast⟩ := except_bind_ok.mp hfold
  obtain ⟨last, hwithin, hstep⟩ := except_bind_ok.mp hstep
  cases hstep
  cases hlast
  exact hwithin

theorem interfaceOrder_of_walk {v : Value} {met order : List Value}
    (h : r.Walk [] [v] met order) (hlist : ∀ x ∈ order, r.model.shape x ≠ .list) :
    r.interfaceOrder v = .ok order :=
  except_bind_ok.mpr ⟨_, interfaceOrderWithin_of_walk h hlist (Nat.le_refl _), rfl⟩

end UmlSchema.Repository
