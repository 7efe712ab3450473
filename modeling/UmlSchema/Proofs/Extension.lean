import UmlSchema.Proofs.Neighbours
import UmlSchema.Proofs.Renderable

/-!
# What a class extends

A class extends the first class above it along first parents that is not abstract. The search goes
up the line of first parents, and stops where it would meet an abstract class again. It does not
stop where it meets the class itself again, because that one is not abstract.
-/
namespace UmlSchema

open Emission

namespace Repository

variable {r : Repository}

theorem mem_leading {k : Kind} {v w : Value} : w ∈ r.leading k v ↔ r.Leads k v w := by
  simp only [leading, List.mem_filterMap, List.mem_filter, Leads, and_assoc]

/-- The first parent of a value in document order. -/
def firstParent? (r : Repository) (v : Value) : Option Value :=
  (r.leading .generalization v).head?

theorem parent_of_firstParent {v p : Value} (h : r.firstParent? v = some p) : r.Parent v p :=
  mem_leading.mp (List.mem_of_mem_head? h)

/-- The line of first parents above a value, if some values came before. Each member is the first
parent of the one below it, none came before or comes twice, and the line ends where there is no
parent or the next one came before. -/
structure Ascent (r : Repository) (met : List Value) (v : Value) (above : List Value) : Prop where
  follows : (v :: above).IsChain fun x p => r.firstParent? x = some p
  nodup : above.Nodup
  fresh : ∀ x ∈ above, x ∉ met
  ends : ∀ p ∈ r.firstParent? (above.getLast?.getD v), p ∈ met ∨ p ∈ above

theorem ascent_nil {met : List Value} {v : Value} :
    r.Ascent met v [] ↔ ∀ p ∈ r.firstParent? v, p ∈ met := by
  constructor
  · intro h p hp
    exact (h.ends p hp).resolve_right List.not_mem_nil
  · intro h
    exact ⟨.singleton v, .nil, by simp, fun p hp => .inl (h p hp)⟩

theorem ascent_cons {met above : List Value} {v p : Value} :
    r.Ascent met v (p :: above) ↔
      r.firstParent? v = some p ∧ p ∉ met ∧ r.Ascent (p :: met) p above := by
  have hlast : (p :: above).getLast?.getD v = above.getLast?.getD p := by
    rw [List.getLast?_cons, Option.getD_some]
  constructor
  · rintro ⟨hfollows, hnodup, hfresh, hends⟩
    obtain ⟨hp, hfollows⟩ := List.isChain_cons_cons.mp hfollows
    obtain ⟨hnew, hnodup⟩ := List.nodup_cons.mp hnodup
    obtain ⟨hpmet, hfresh⟩ := List.forall_mem_cons.mp hfresh
    rw [hlast] at hends
    refine ⟨hp, hpmet, hfollows, hnodup, ?_, ?_⟩
    · intro x hx hmem
      rcases List.mem_cons.mp hmem with rfl | hmem
      · exact hnew hx
      · exact hfresh x hx hmem
    · intro q hq
      have := hends q hq
      simp only [List.mem_cons] at this ⊢
      tauto
  · rintro ⟨hp, hpmet, hfollows, hnodup, hfresh, hends⟩
    refine ⟨List.isChain_cons_cons.mpr ⟨hp, hfollows⟩, List.nodup_cons.mpr ⟨?_, hnodup⟩, ?_, ?_⟩
    · intro hmem
      exact hfresh p hmem List.mem_cons_self
    · exact List.forall_mem_cons.mpr ⟨hpmet, fun x hx hmem =>
        hfresh x hx (List.mem_cons_of_mem p hmem)⟩
    · rw [hlast]
      intro q hq
      have := hends q hq
      simp only [List.mem_cons] at this ⊢
      tauto

theorem exists_ascent (r : Repository) (met : List Value) (v : Value) :
    ∃ above, ∀ line, r.Ascent met v line ↔ line = above := by
  -- Each step meets a new target of a relationship, and there are only so many of these.
  have within (n : Nat) : ∀ (met : List Value) (v : Value),
      (r.targetValues \ met.toFinset).card < n →
      ∃ above, ∀ line, r.Ascent met v line ↔ line = above := by
    induction n with
    | zero => exact fun _ _ hn => absurd hn (Nat.not_lt_zero _)
    | succ n ih =>
      intro met v hn
      have hstop (h : ∀ p ∈ r.firstParent? v, p ∈ met) (line : List Value) :
          r.Ascent met v line ↔ line = [] := by
        cases line with
        | nil => simpa [ascent_nil] using h
        | cons q line =>
          simp only [ascent_cons, reduceCtorEq, iff_false]
          rintro ⟨hq, hnew, -⟩
          exact hnew (h q hq)
      cases hp : r.firstParent? v with
      | none => exact ⟨[], hstop (by simp [hp])⟩
      | some p =>
        by_cases hmet : p ∈ met
        · exact ⟨[], hstop (by simpa [hp] using hmet)⟩
        · have hU := parent_mem_targetValues (parent_of_firstParent hp)
          obtain ⟨above, habove⟩ := ih (p :: met) p (card_unmet_lt hU hmet hn)
          refine ⟨p :: above, fun line => ?_⟩
          cases line with
          | nil => simp [ascent_nil, hp, hmet]
          | cons q line =>
            rw [ascent_cons, List.cons.injEq, hp, Option.some.injEq]
            constructor
            · rintro ⟨rfl, -, hline⟩
              exact ⟨rfl, (habove line).mp hline⟩
            · rintro ⟨rfl, rfl⟩
              exact ⟨rfl, hmet, (habove line).mpr rfl⟩
  exact within _ met v (Nat.lt_succ_self _)

end Repository

namespace Declarer

variable {d : Declarer}

/-- Where the search ends on a line of first parents: at the first value that is not abstract, or
else at the one that the line would go on with, if that one is not abstract. -/
def firstConcrete (d : Declarer) (v : Value) (above : List Value) : Value :=
  let next := d.repository.firstParent? (above.getLast?.getD v)
  ((above.find? fun x => !d.isAbstract x).or (next.filter fun x => !d.isAbstract x)).getD .absent

theorem firstConcrete_cons {v p : Value} {above : List Value} :
    d.firstConcrete v (p :: above) = if d.isAbstract p then d.firstConcrete p above else p := by
  by_cases hp : d.isAbstract p = true
  · simp [firstConcrete, hp, List.getLast?_cons]
  · simp [firstConcrete, hp]

def anyIgnored (d : Declarer) (vs : List Value) : Bool :=
  vs.any fun x => decide (2 ≤ (d.repository.leading .generalization x).length)

theorem nearestConcrete_succ {met parents : List Value} {v : Value} {n : Nat} {ignored : Bool}
    (h : d.repository.superClasses v = .ok parents) :
    d.nearestConcrete (n + 1) met ignored v =
      (d.repository.firstParent? v).elim (.ok (.absent, ignored)) fun p =>
        if !d.isAbstract p then .ok (p, ignored || d.anyIgnored [v])
        else if p ∈ met then .ok (.absent, ignored || d.anyIgnored [v])
        else d.nearestConcrete n (p :: met) (ignored || d.anyIgnored [v]) p := by
  have hleading : d.repository.leading .generalization v = parents :=
    Repository.targets_leading rfl h
  rw [nearestConcrete, h, except_ok_bind, Repository.firstParent?, hleading]
  cases parents with
  | nil => rfl
  | cons p others =>
    have hothers : (!others.isEmpty) = d.anyIgnored [v] := by
      cases others <;> simp [anyIgnored, hleading]
    rw [← hothers]
    rfl

/-- The values that the search passes: where it starts, and the abstract ones before any other. -/
def passed (d : Declarer) (v : Value) (above : List Value) : List Value :=
  v :: above.takeWhile d.isAbstract

theorem passed_cons {v p : Value} {above : List Value} :
    d.passed v (p :: above) = v :: if d.isAbstract p then d.passed p above else [] := by
  by_cases hp : d.isAbstract p = true <;> simp [passed, hp]

theorem asked_of_nearestConcrete {met above : List Value} {v : Value} {n : Nat} {ignored : Bool}
    {found : Value × Bool} (h : d.repository.Ascent met v above)
    (hn : (d.repository.targetValues \ met.toFinset).card < n)
    (hfound : d.nearestConcrete n met ignored v = .ok found) :
    ∀ x ∈ d.passed v above, ∃ parents, d.repository.superClasses x = .ok parents := by
  induction above generalizing met v n ignored with
  | nil =>
    cases n with
    | zero => omega
    | succ n =>
      obtain ⟨parents, hparents, -⟩ := except_bind_ok.mp hfound
      simpa [passed] using ⟨parents, hparents⟩
  | cons p above ih =>
    cases n with
    | zero => omega
    | succ n =>
      obtain ⟨hp, hmet, habove⟩ := Repository.ascent_cons.mp h
      obtain ⟨parents, hparents, -⟩ := except_bind_ok.mp hfound
      rw [nearestConcrete_succ hparents, hp, Option.elim_some] at hfound
      rw [passed_cons]
      refine List.forall_mem_cons.mpr ⟨⟨parents, hparents⟩, ?_⟩
      by_cases habstract : d.isAbstract p = true
      · have hU := Repository.parent_mem_targetValues (Repository.parent_of_firstParent hp)
        simp only [habstract, Bool.not_true, Bool.false_eq_true, if_false, hmet] at hfound
        rw [if_pos habstract]
        exact ih habove (Repository.card_unmet_lt hU hmet hn) hfound
      · simp [habstract]

/-- If all that the search passes can be asked for its parents, the bound of the search is not
felt. -/
theorem nearestConcrete_of_asked {met above : List Value} {v : Value} {n : Nat} {ignored : Bool}
    (h : d.repository.Ascent met v above)
    (hn : (d.repository.targetValues \ met.toFinset).card < n)
    (hasked : ∀ x ∈ d.passed v above, ∃ parents, d.repository.superClasses x = .ok parents) :
    d.nearestConcrete n met ignored v =
      .ok (d.firstConcrete v above, ignored || d.anyIgnored (d.passed v above)) := by
  induction above generalizing met v n ignored with
  | nil =>
    cases n with
    | zero => omega
    | succ n =>
      obtain ⟨parents, hparents⟩ := hasked v (by simp [passed])
      rw [nearestConcrete_succ hparents]
      cases hp : d.repository.firstParent? v with
      | none =>
        have hnone : d.anyIgnored [v] = false := by
          have := List.head?_eq_none_iff.mp hp
          simp [anyIgnored, this]
        simp [firstConcrete, passed, hp, hnone]
      | some p =>
        have hmet := Repository.ascent_nil.mp h p hp
        by_cases habstract : d.isAbstract p = true
        · simp [firstConcrete, passed, hp, Option.filter, habstract, hmet]
        · simp [firstConcrete, passed, hp, Option.filter, habstract]
  | cons p above ih =>
    cases n with
    | zero => omega
    | succ n =>
      obtain ⟨hp, hmet, habove⟩ := Repository.ascent_cons.mp h
      rw [passed_cons] at hasked ⊢
      obtain ⟨⟨parents, hparents⟩, hasked⟩ := List.forall_mem_cons.mp hasked
      rw [nearestConcrete_succ hparents, hp, Option.elim_some, firstConcrete_cons]
      by_cases habstract : d.isAbstract p = true
      · have hU := Repository.parent_mem_targetValues (Repository.parent_of_firstParent hp)
        rw [if_pos habstract] at hasked
        simp only [habstract, Bool.not_true, Bool.false_eq_true, if_false, hmet, if_true]
        rw [ih habove (Repository.card_unmet_lt hU hmet hn) hasked]
        simp [anyIgnored, Bool.or_assoc]
      · simp [habstract, anyIgnored]

abbrev ClassLine (d : Declarer) (e : ElementId) (above : List Value) : Prop :=
  d.repository.Ascent [.ref e] (.ref e) above

theorem card_unmet_class (d : Declarer) (e : ElementId) :
    (d.repository.targetValues \ [Value.ref e].toFinset).card < d.model.size + 2 := by
  have hsome : (d.repository.targetValues \ [Value.ref e].toFinset).card ≤
      d.repository.targetValues.card := Finset.card_le_card Finset.sdiff_subset
  have hall : d.repository.targetValues.card ≤ d.model.size :=
    Repository.card_targetValues_le d.repository
  omega

theorem asked_of_extendsTarget {e : ElementId} {above : List Value} {t : Value}
    (h : d.ClassLine e above) (ht : (d.extendsTarget e).result = .ok t) :
    ∀ x ∈ d.passed (.ref e) above, ∃ parents, d.repository.superClasses x = .ok parents := by
  obtain ⟨found, hfound, -⟩ := bind_ok.mp ht
  exact asked_of_nearestConcrete h (d.card_unmet_class e) hfound

theorem extendsTarget_of_asked {e : ElementId} {above : List Value} (h : d.ClassLine e above)
    (hasked : ∀ x ∈ d.passed (.ref e) above,
      ∃ parents, d.repository.superClasses x = .ok parents) :
    d.extendsTarget e = (do
      if d.anyIgnored (d.passed (.ref e) above) then
        d.warnInText .multipleInheritance "you can only extend one class, ignoring others" e
      return d.firstConcrete (.ref e) above) := by
  rw [extendsTarget, nearestConcrete_of_asked h (d.card_unmet_class e) hasked, Bool.false_or]
  rfl

theorem extendsTarget_ok {e : ElementId} {above : List Value} (h : d.ClassLine e above)
    {t : Value} : (d.extendsTarget e).result = .ok t ↔
      (∀ x ∈ d.passed (.ref e) above, ∃ parents, d.repository.superClasses x = .ok parents) ∧
        t = d.firstConcrete (.ref e) above := by
  have hresult (hasked : ∀ x ∈ d.passed (.ref e) above,
      ∃ parents, d.repository.superClasses x = .ok parents) :
      (d.extendsTarget e).result = .ok (d.firstConcrete (.ref e) above) := by
    rw [extendsTarget_of_asked h hasked]
    split <;> rfl
  constructor
  · intro ht
    have hasked := asked_of_extendsTarget h ht
    exact ⟨hasked, Except.ok.inj (ht.symm.trans (hresult hasked))⟩
  · rintro ⟨hasked, rfl⟩
    exact hresult hasked

/-- All that stands above a class is abstract, and leads back to the class. -/
def LeadsBack (d : Declarer) (e : ElementId) (above : List Value) : Prop :=
  (∀ x ∈ above, d.isAbstract x = true) ∧
    d.repository.firstParent? (above.getLast?.getD (.ref e)) = some (.ref e)

theorem firstConcrete_leadsBack {e : ElementId} {above : List Value}
    (hconcrete : d.isAbstract (.ref e) = false) (h : d.LeadsBack e above) :
    d.firstConcrete (.ref e) above = .ref e := by
  obtain ⟨habstract, hnext⟩ := h
  have hnone : (above.find? fun x => !d.isAbstract x) = none := by
    simpa [List.find?_eq_none] using habstract
  simp [firstConcrete, hnone, hnext, Option.filter, hconcrete]

theorem firstConcrete_of_not_leadsBack {e : ElementId} {above : List Value}
    (h : d.ClassLine e above) (hback : ¬d.LeadsBack e above) :
    d.firstConcrete (.ref e) above = (above.find? fun x => !d.isAbstract x).getD .absent := by
  cases hfind : above.find? fun x => !d.isAbstract x with
  | some x => simp [firstConcrete, hfind]
  | none =>
    have habstract : ∀ x ∈ above, d.isAbstract x = true := by
      simpa [List.find?_eq_none] using hfind
    cases hnext : d.repository.firstParent? (above.getLast?.getD (.ref e)) with
    | none => simp [firstConcrete, hfind, hnext]
    | some p =>
      have hp : d.isAbstract p = true := by
        rcases h.ends p hnext with hself | hmem
        · rw [List.mem_singleton.mp hself] at hnext
          exact absurd ⟨habstract, hnext⟩ hback
        · exact habstract p hmem
      simp [firstConcrete, hfind, hnext, Option.filter, hp]

/-- The search for what a class extends goes through exactly if all that it passes can be asked for
its parents, and always does in a well-kinded model. It finds the first member of the line of first
parents that is not abstract, unless the whole line is abstract and leads back to the class. Then,
and only then, the class extends itself. -/
theorem extends_first_concrete {d : Declarer} {e : ElementId}
    (hconcrete : d.isAbstract (.ref e) = false) :
    ∃ above, (∀ line, d.ClassLine e line ↔ line = above) ∧
      (d.model.WellKinded → ∃ t, (d.extendsTarget e).result = .ok t) ∧
      ((∃ t, (d.extendsTarget e).result = .ok t) ↔ ∀ x ∈ d.passed (.ref e) above,
        ∃ parents, d.repository.superClasses x = .ok parents) ∧
      ∀ t, (d.extendsTarget e).result = .ok t →
        (t = .ref e ↔ d.LeadsBack e above) ∧
        (t = (above.find? fun x => !d.isAbstract x).getD .absent ↔ ¬d.LeadsBack e above) := by
  obtain ⟨above, hline⟩ := d.repository.exists_ascent [.ref e] (.ref e)
  have h : d.ClassLine e above := (hline above).mpr rfl
  have htotal : (∃ t, (d.extendsTarget e).result = .ok t) ↔ ∀ x ∈ d.passed (.ref e) above,
      ∃ parents, d.repository.superClasses x = .ok parents := by
    simp [extendsTarget_ok h]
  refine ⟨above, hline, ?_, htotal, ?_⟩
  · intro hkinded
    apply htotal.mpr
    intro x _
    obtain ⟨parents, hparents, -⟩ :=
      Repository.targets_settles hkinded (k := .generalization) rfl x
    exact ⟨parents, hparents⟩
  · intro t ht
    obtain ⟨-, rfl⟩ := (extendsTarget_ok h).mp ht
    have hself : (above.find? fun x => !d.isAbstract x).getD .absent ≠ .ref e := by
      cases hfind : above.find? fun x => !d.isAbstract x with
      | none => simp
      | some x =>
        have hfresh := h.fresh x (List.mem_of_find?_eq_some hfind)
        simpa using hfresh
    by_cases hback : d.LeadsBack e above
    · rw [firstConcrete_leadsBack hconcrete hback]
      simp [hback, hself.symm]
    · rw [firstConcrete_of_not_leadsBack h hback]
      simp [hback, hself]

/-- A class below an abstract one whose first parent is that class again; a second class below the
abstract one; and a class that is its own parent. -/
def roundabout : Declarer where
  repository :=
    { model := ⟨#[.given .klass [(.name, .text "Item")],
        .given .klass [(.name, .text "Base"), (.isAbstract, .flag true)],
        .given .klass [(.name, .text "Book")],
        .given .klass [(.name, .text "Node")],
        .given .generalization [(.source, .ref 0), (.target, .ref 1)],
        .given .generalization [(.source, .ref 1), (.target, .ref 0)],
        .given .generalization [(.source, .ref 2), (.target, .ref 1)],
        .given .generalization [(.source, .ref 3), (.target, .ref 3)]]⟩
      relationships := [4, 5, 6, 7] }

theorem roundabout_book_extends_item :
    ∃ above t, roundabout.isAbstract (.ref 2) = false ∧ roundabout.ClassLine 2 above ∧
      (roundabout.extendsTarget 2).result = .ok t ∧ t = .ref 0 ∧ ¬roundabout.LeadsBack 2 above ∧
      t = (above.find? fun x => !roundabout.isAbstract x).getD .absent := by
  have hconcrete : roundabout.isAbstract (.ref 2) = false := by decide +kernel
  have ht : (roundabout.extendsTarget 2).result.toOption = some (.ref 0) := by decide +kernel
  obtain ⟨above, hline, -, -, hfound⟩ := extends_first_concrete hconcrete
  obtain ⟨hself, hfirst⟩ := hfound _ (ok_of_toOption ht)
  have hback : ¬roundabout.LeadsBack 2 above := fun h => absurd (hself.mpr h) (by decide)
  exact ⟨above, _, hconcrete, (hline above).mpr rfl, ok_of_toOption ht, rfl, hback,
    hfirst.mpr hback⟩

/-- The class on the circle and the class that is its own parent both extend themselves, although
no other member of their lines is left to be found. -/
theorem roundabout_extends_itself :
    (roundabout.isAbstract (.ref 0) = false ∧ roundabout.ClassLine 0 [.ref 1] ∧
      ([Value.ref 1].find? fun x => !roundabout.isAbstract x) = none ∧
      (roundabout.extendsTarget 0).result = .ok (.ref 0)) ∧
    (roundabout.isAbstract (.ref 3) = false ∧ roundabout.ClassLine 3 [] ∧
      (roundabout.extendsTarget 3).result = .ok (.ref 3) ∧
      (roundabout.ancestry 3).result = .ok " extends Node") := by
  have hup : roundabout.repository.firstParent? (.ref 0) = some (.ref 1) ∧
      roundabout.repository.firstParent? (.ref 1) = some (.ref 0) ∧
      roundabout.repository.firstParent? (.ref 3) = some (.ref 3) := by decide +kernel
  obtain ⟨hitem, hbase, hnode⟩ := hup
  refine ⟨⟨by decide +kernel, ?_, by decide +kernel, ok_of_toOption (by decide +kernel)⟩,
    by decide +kernel, ?_, ok_of_toOption (by decide +kernel), ok_of_toOption (by decide +kernel)⟩
  · exact Repository.ascent_cons.mpr ⟨hitem, by decide, Repository.ascent_nil.mpr (by simp [hbase])⟩
  · exact Repository.ascent_nil.mpr (by simp [hnode])

end Declarer

end UmlSchema
