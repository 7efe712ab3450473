import UmlSchema.Schema.Layout
import Mathlib.Data.List.Forall2

/-!
# Laws of emissions

How the events and the result of a composed emission come from its parts, and what a part does to
the depth of the writer. Faults keep the events before them, so most laws are about runs that end
well.
-/
namespace UmlSchema

theorem except_bind_ok {ε α β : Type} {x : Except ε α} {f : α → Except ε β} {b : β} :
    (x >>= f) = .ok b ↔ ∃ a, x = .ok a ∧ f a = .ok b := by
  cases x with
  | error e => simp [bind, Except.bind]
  | ok a => simp [bind, Except.bind]

theorem except_map_ok {ε α β : Type} {x : Except ε α} {f : α → β} {b : β} :
    x.map f = .ok b ↔ ∃ a, x = .ok a ∧ f a = b := by
  cases x <;> simp [Except.map]

theorem except_ok_bind {ε α β : Type} (a : α) (f : α → Except ε β) :
    (Except.ok a >>= f) = f a := rfl

theorem except_error_bind {ε α β : Type} (e : ε) (f : α → Except ε β) :
    (Except.error e >>= f) = .error e := rfl

theorem exists_ok {ε α : Type} {x : Except ε α} (h : x.isOk = true) : ∃ a, x = .ok a := by
  cases x with
  | error e => cases h
  | ok a => exact ⟨a, rfl⟩

theorem ok_of_toOption {ε α : Type} {x : Except ε α} {a : α} (h : x.toOption = some a) :
    x = .ok a := by
  cases x with
  | error e => cases h
  | ok b => exact congrArg Except.ok (Option.some.inj h)

theorem except_mapM_ok {ε α β : Type} {f : α → Except ε β} {xs : List α} {ys : List β} :
    xs.mapM f = .ok ys ↔ List.Forall₂ (fun x y => f x = .ok y) xs ys := by
  induction xs generalizing ys with
  | nil => cases ys <;> simp [pure, Except.pure]
  | cons x xs ih =>
    simp only [List.mapM_cons, except_bind_ok, pure, Except.pure, Except.ok.injEq, ih]
    constructor
    · rintro ⟨y, hy, zs, hzs, rfl⟩
      exact .cons hy hzs
    · intro h
      cases h with
      | cons hy hzs => exact ⟨_, hy, _, hzs, rfl⟩

theorem except_mapM_congr {ε α β : Type} {f g : α → Except ε β} {xs : List α}
    (h : ∀ x ∈ xs, f x = g x) : xs.mapM f = xs.mapM g := by
  induction xs with
  | nil => rfl
  | cons x xs ih =>
    obtain ⟨hx, hxs⟩ := List.forall_mem_cons.mp h
    rw [List.mapM_cons, List.mapM_cons, hx, ih hxs]

theorem forall₂_mem_right {α β : Type} {R : α → β → Prop} {xs : List α} {ys : List β}
    (h : List.Forall₂ R xs ys) {y : β} (hy : y ∈ ys) : ∃ x ∈ xs, R x y := by
  induction h with
  | nil => cases hy
  | cons hr _ ih =>
    rcases List.mem_cons.mp hy with rfl | hy
    · exact ⟨_, List.mem_cons_self, hr⟩
    · obtain ⟨x, hx, hr⟩ := ih hy
      exact ⟨x, List.mem_cons_of_mem _ hx, hr⟩

theorem forall₂_mem_left {α β : Type} {R : α → β → Prop} {xs : List α} {ys : List β}
    (h : List.Forall₂ R xs ys) {x : α} (hx : x ∈ xs) : ∃ y ∈ ys, R x y :=
  forall₂_mem_right h.flip hx

theorem exists_forall₂ {α β : Type} {R : α → β → Prop} {xs : List α}
    (h : ∀ x ∈ xs, ∃ y, R x y) : ∃ ys, List.Forall₂ R xs ys := by
  induction xs with
  | nil => exact ⟨[], .nil⟩
  | cons x xs ih =>
    obtain ⟨⟨y, hy⟩, hxs⟩ := List.forall_mem_cons.mp h
    obtain ⟨ys, hys⟩ := ih hxs
    exact ⟨y :: ys, .cons hy hys⟩

theorem flatMap_filter_of_nil {α β : Type} {p : α → Bool} {f : α → List β} {xs : List α}
    (h : ∀ x ∈ xs, p x = false → f x = []) : xs.flatMap f = (xs.filter p).flatMap f := by
  induction xs with
  | nil => rfl
  | cons x xs ih =>
    have hxs := ih fun y hy => h y (List.mem_cons_of_mem _ hy)
    cases hp : p x with
    | true => rw [List.filter_cons_of_pos hp, List.flatMap_cons, List.flatMap_cons, hxs]
    | false =>
      rw [List.filter_cons_of_neg (by simp [hp]), List.flatMap_cons,
        h x List.mem_cons_self hp, List.nil_append, hxs]

namespace Emission

variable {α β : Type}

@[simp] theorem pure_result (a : α) : (pure a : Emission α).result = .ok a := rfl
@[simp] theorem lift_result (x : Except ModelFault α) : (liftM x : Emission α).result = x := rfl
@[simp] theorem fail_result (fault : ModelFault) :
    (fail fault : Emission α).result = .error fault := rfl

theorem lift_ok_bind (a : α) (f : α → Emission β) :
    ((liftM (Except.ok a : Except ModelFault α) : Emission α) >>= f) = f a := rfl

theorem bind_ok {x : Emission α} {f : α → Emission β} {b : β} :
    (x >>= f).result = .ok b ↔ ∃ a, x.result = .ok a ∧ (f a).result = .ok b := by
  change (x.bind f).result = .ok b ↔ _
  unfold Emission.bind
  split <;> simp_all

private theorem bind_bind {γ : Type} (x : Emission α) (f : α → Emission β)
    (g : β → Emission γ) : (x.bind f).bind g = x.bind fun a => (f a).bind g := by
  simp only [Emission.bind]
  cases x.result with
  | error fault => rfl
  | ok a => cases hfa : (f a).result <;> simp [hfa]

private theorem map_identity (x : Emission α) : id <$> x = x := by
  obtain ⟨events, result⟩ := x
  cases result with
  | error fault => rfl
  | ok a => exact congrArg (Emission.mk · _) (List.append_nil events)

instance : LawfulMonad Emission :=
  LawfulMonad.mk' Emission map_identity (fun _ _ => rfl) bind_bind

theorem guarded_ok {c : Prop} [Decidable c] {x : Emission Unit} {k : Unit → Emission β} {b : β}
    (h : (if c then x >>= k else k ()).result = .ok b) : (k ()).result = .ok b := by
  split at h
  · obtain ⟨⟨⟩, -, h⟩ := bind_ok.mp h
    exact h
  · exact h

theorem bind_events {x : Emission α} {f : α → Emission β} {a : α} (h : x.result = .ok a) :
    (x >>= f).events = x.events ++ (f a).events := by
  change (x.bind f).events = _
  simp [Emission.bind, h]

theorem bind_events_fault {x : Emission α} {f : α → Emission β} {fault : ModelFault}
    (h : x.result = .error fault) : (x >>= f).events = x.events := by
  change (x.bind f).events = _
  simp [Emission.bind, h]

theorem each_ok {xs : List α} {f : α → Emission Unit} :
    (each xs f).result = .ok () ↔ ∀ x ∈ xs, (f x).result = .ok () := by
  induction xs with
  | nil => simp [each]
  | cons x xs ih =>
    simp only [each, bind_ok, ih, List.forall_mem_cons]
    constructor
    · rintro ⟨⟨⟩, hx, hxs⟩
      exact ⟨hx, hxs⟩
    · rintro ⟨hx, hxs⟩
      exact ⟨(), hx, hxs⟩

theorem each_events {xs : List α} {f : α → Emission Unit}
    (h : ∀ x ∈ xs, (f x).result = .ok ()) :
    (each xs f).events = xs.flatMap fun x => (f x).events := by
  induction xs with
  | nil => rfl
  | cons x xs ih =>
    have hx := h x List.mem_cons_self
    have hxs := ih fun y hy => h y (List.mem_cons_of_mem _ hy)
    rw [each, bind_events hx, hxs, List.flatMap_cons]

theorem collect_ok {xs : List α} {f : α → Emission β} {ys : List β} :
    (collect xs f).result = .ok ys ↔ List.Forall₂ (fun x y => (f x).result = .ok y) xs ys := by
  induction xs generalizing ys with
  | nil => cases ys <;> simp [collect]
  | cons x xs ih =>
    simp only [collect, bind_ok, pure_result, Except.ok.injEq, ih]
    constructor
    · rintro ⟨y, hy, zs, hzs, rfl⟩
      exact .cons hy hzs
    · intro h
      cases h with
      | cons hy hzs => exact ⟨_, hy, _, hzs, rfl⟩

theorem collect_congr {xs : List α} {f g : α → Emission β} (h : ∀ x ∈ xs, f x = g x) :
    collect xs f = collect xs g := by
  induction xs with
  | nil => rfl
  | cons x xs ih =>
    obtain ⟨hx, hxs⟩ := List.forall_mem_cons.mp h
    rw [collect, collect, hx, ih hxs]

theorem collect_append (xs ys : List α) (f : α → Emission β) :
    collect (xs ++ ys) f = (do
      let first ← collect xs f
      let second ← collect ys f
      return first ++ second) := by
  induction xs with
  | nil => simp [collect]
  | cons x xs ih => simp [collect, ih]

/-- All events of the emission have a property, whether or not it ends well. -/
def Emits (p : Event → Prop) (x : Emission α) : Prop := ∀ v ∈ x.events, p v

section Emits

variable {p q : Event → Prop}

theorem emits_pure (a : α) : Emits p (pure a) := by
  intro v hv
  cases hv

theorem emits_lift (x : Except ModelFault α) : Emits p (liftM x : Emission α) := by
  intro v hv
  cases hv

theorem emits_fail (fault : ModelFault) : Emits p (fail fault : Emission α) := by
  intro v hv
  cases hv

theorem emits_emit {v : Event} (h : p v) : Emits p (emit v) := by
  intro w hw
  rw [List.mem_singleton.mp hw]
  exact h

theorem Emits.imp {x : Emission α} (h : Emits p x) (hpq : ∀ v, p v → q v) : Emits q x :=
  fun v hv => hpq v (h v hv)

theorem Emits.bind {x : Emission α} {f : α → Emission β} (hx : Emits p x)
    (hf : ∀ a, Emits p (f a)) : Emits p (x >>= f) := by
  intro v hv
  cases hr : x.result with
  | error fault =>
    rw [bind_events_fault hr] at hv
    exact hx v hv
  | ok a =>
    rw [bind_events hr] at hv
    exact (List.mem_append.mp hv).elim (hx v) (hf a v)

theorem Emits.guarded {c : Prop} [Decidable c] {x : Emission Unit} {k : Unit → Emission β}
    (hx : Emits p x) (hk : ∀ u, Emits p (k u)) : Emits p (if c then x >>= k else k ()) := by
  split
  · exact hx.bind hk
  · exact hk ()

theorem Emits.each {xs : List α} {f : α → Emission Unit} (hf : ∀ x, Emits p (f x)) :
    Emits p (each xs f) := by
  induction xs with
  | nil => exact emits_pure ()
  | cons x xs ih => exact (hf x).bind fun _ => ih

theorem Emits.collect {xs : List α} {f : α → Emission β} (hf : ∀ x, Emits p (f x)) :
    Emits p (collect xs f) := by
  induction xs with
  | nil => exact emits_pure []
  | cons x xs ih => exact (hf x).bind fun _ => ih.bind fun _ => emits_pure _

end Emits

abbrev Flat (x : Emission α) : Prop := Emits (fun v => v ≠ .indent ∧ v ≠ .outdent) x

theorem flat_pure (a : α) : Flat (pure a) := emits_pure a
theorem flat_lift (x : Except ModelFault α) : Flat (liftM x : Emission α) := emits_lift x
theorem flat_line (t : Text) : Flat (line t) := emits_emit (by simp)
theorem flat_emptyLine : Flat emptyLine := emits_emit (by simp)

abbrev WarnsOf (ks : List WarningKind) (x : Emission α) : Prop :=
  Emits (fun v => ∀ w, v = .warn w → w.kind ∈ ks) x

abbrev Plain (ks : List WarningKind) (x : Emission α) : Prop :=
  Emits (fun v => (v ≠ .indent ∧ v ≠ .outdent) ∧ ∀ w, v = .warn w → w.kind ∈ ks) x

section Plain

variable {ks ls : List WarningKind}

theorem plain_line (t : Text) : Plain ks (line t) := emits_emit (by simp)
theorem plain_emptyLine : Plain ks emptyLine := emits_emit (by simp)
theorem plain_debug (s : LogSource) (t : Text) : Plain ks (debug s t) := emits_emit (by simp)

theorem plain_warn (k : WarningKind) (t : Text) (s : Shown) : Plain [k] (warn k t s) :=
  emits_emit (by simp)

theorem Plain.flat {x : Emission α} (h : Plain ks x) : Flat x := h.imp fun _ hv => hv.1

theorem Plain.warnsOf {x : Emission α} (h : Plain ks x) : WarnsOf ks x := h.imp fun _ hv => hv.2

theorem Plain.mono {x : Emission α} (h : Plain ks x) (hks : ks ⊆ ls) : Plain ls x :=
  h.imp fun _ hv => ⟨hv.1, fun w hw => hks (hv.2 w hw)⟩

theorem Plain.silent {x : Emission α} (h : Plain [] x) : Plain ks x := h.mono (List.nil_subset _)

end Plain

end Emission

theorem depthAfter_append (n : Nat) (a b : List Event) :
    depthAfter n (a ++ b) = depthAfter (depthAfter n a) b := by
  induction a generalizing n with
  | nil => rfl
  | cons v a ih => cases v <;> exact ih _

theorem depthAfter_of_flat (n : Nat) {events : List Event}
    (h : ∀ v ∈ events, v ≠ .indent ∧ v ≠ .outdent) : depthAfter n events = n := by
  induction events with
  | nil => rfl
  | cons v events ih =>
    have hv := h v List.mem_cons_self
    have hrest := ih fun w hw => h w (List.mem_cons_of_mem _ hw)
    cases v <;> simp_all [depthAfter]

theorem depth_of_flat {n : Nat} {events : List Event}
    (h : ∀ v ∈ events, v ≠ .indent ∧ v ≠ .outdent) : ∀ l ∈ placedLines n events, l.depth = n := by
  induction events with
  | nil => simp [placedLines]
  | cons v events ih =>
    have hv := h v List.mem_cons_self
    have hrest := ih fun w hw => h w (List.mem_cons_of_mem _ hw)
    cases v <;> simp_all [placedLines]

theorem placedLines_append (n : Nat) (a b : List Event) :
    placedLines n (a ++ b) = placedLines n a ++ placedLines (depthAfter n a) b := by
  induction a generalizing n with
  | nil => rfl
  | cons v a ih => cases v <;> simp [placedLines, depthAfter, ih]

theorem warningsOf_append (a b : List Event) :
    warningsOf (a ++ b) = warningsOf a ++ warningsOf b := List.filterMap_append

namespace Emission

variable {α β : Type}

/-- If the emission ends well, it takes the writer from one depth to another. -/
def Takes (i j : Nat) (x : Emission α) : Prop := ∀ a, x.result = .ok a → depthAfter i x.events = j

theorem Takes.bind {i j k : Nat} {x : Emission α} {f : α → Emission β} (hx : Takes i j x)
    (hf : ∀ a, Takes j k (f a)) : Takes i k (x >>= f) := by
  intro b hb
  obtain ⟨a, ha, hb⟩ := bind_ok.mp hb
  rw [bind_events ha, depthAfter_append, hx a ha]
  exact hf a b hb

/-- The emission takes the writer from one depth to another, and writes no line that is deeper than
a bound. The lines before a fault keep to the bound too. -/
structure Confined (n i j : Nat) (x : Emission α) : Prop where
  takes : Takes i j x
  lines : ∀ l ∈ placedLines i x.events, l.depth ≤ n

theorem confined_indent (n i : Nat) : Confined n i (i + 1) indent :=
  ⟨fun _ _ => rfl, by simp [indent, emit, placedLines]⟩

theorem confined_outdent (n i : Nat) : Confined n (i + 1) i outdent :=
  ⟨fun _ _ => rfl, by simp [outdent, emit, placedLines]⟩

theorem Flat.confined {x : Emission α} (h : Flat x) {n i : Nat} (hi : i ≤ n) :
    Confined n i i x := by
  refine ⟨fun _ _ => depthAfter_of_flat i h, ?_⟩
  intro l hl
  rw [depth_of_flat h l hl]
  exact hi

theorem Flat.outside {x : Emission α} (h : Flat x) (i : Nat) : Confined (i + 1) i i x :=
  Flat.confined h (Nat.le_succ i)

theorem Flat.inside {x : Emission α} (h : Flat x) (i : Nat) : Confined (i + 1) (i + 1) (i + 1) x :=
  Flat.confined h (Nat.le_refl _)

theorem Plain.outside {ks : List WarningKind} {x : Emission α} (h : Plain ks x) (i : Nat) :
    Confined (i + 1) i i x :=
  Flat.outside (Plain.flat h) i

theorem Plain.inside {ks : List WarningKind} {x : Emission α} (h : Plain ks x) (i : Nat) :
    Confined (i + 1) (i + 1) (i + 1) x :=
  Flat.inside (Plain.flat h) i

theorem Confined.bind {n i j k : Nat} {x : Emission α} {f : α → Emission β}
    (hx : Confined n i j x) (hf : ∀ a, Confined n j k (f a)) : Confined n i k (x >>= f) := by
  refine ⟨hx.takes.bind fun a => (hf a).takes, ?_⟩
  cases hr : x.result with
  | error fault =>
    rw [bind_events_fault hr]
    exact hx.lines
  | ok a =>
    rw [bind_events hr, placedLines_append, hx.takes a hr]
    exact List.forall_mem_append.mpr ⟨hx.lines, (hf a).lines⟩

end Emission

def Settles {ε α : Type} (x : Except ε α) (P : α → Prop) : Prop := ∃ a, x = .ok a ∧ P a

theorem Settles.bind {ε α β : Type} {x : Except ε α} {f : α → Except ε β} {P : α → Prop}
    {Q : β → Prop} (hx : Settles x P) (hf : ∀ a, P a → Settles (f a) Q) : Settles (x >>= f) Q := by
  obtain ⟨a, ha, hP⟩ := hx
  obtain ⟨b, hb, hQ⟩ := hf a hP
  exact ⟨b, except_bind_ok.mpr ⟨a, ha, hb⟩, hQ⟩

theorem Settles.after {ε α β : Type} {x : Except ε α} {f : α → Except ε β} {a : α} {Q : β → Prop}
    (hx : x = .ok a) (hf : Settles (f a) Q) : Settles (x >>= f) Q := by
  rw [hx]
  exact hf

theorem settles_ok {ε α : Type} {a : α} {P : α → Prop} (h : P a) :
    Settles (.ok a : Except ε α) P := ⟨a, rfl, h⟩

theorem Settles.imp {ε α : Type} {x : Except ε α} {P Q : α → Prop} (hx : Settles x P)
    (h : ∀ a, P a → Q a) : Settles x Q := by
  obtain ⟨a, ha, hP⟩ := hx
  exact ⟨a, ha, h a hP⟩

theorem Settles.mapM {ε α β : Type} {f : α → Except ε β} {xs : List α} {P : β → Prop}
    (h : ∀ x ∈ xs, Settles (f x) P) : Settles (xs.mapM f) fun ys => ∀ y ∈ ys, P y := by
  induction xs with
  | nil => exact settles_ok (by simp)
  | cons x xs ih =>
    obtain ⟨hx, hxs⟩ := List.forall_mem_cons.mp h
    rw [List.mapM_cons]
    exact hx.bind fun y hy => (ih hxs).bind fun ys hys =>
      settles_ok (List.forall_mem_cons.mpr ⟨hy, hys⟩)

namespace Emission

def Yields {α : Type} (x : Emission α) (P : α → Prop) : Prop := Settles x.result P

variable {α β : Type} {P : α → Prop} {Q : β → Prop}

theorem Yields.bind {x : Emission α} {f : α → Emission β} (hx : Yields x P)
    (hf : ∀ a, P a → Yields (f a) Q) : Yields (x >>= f) Q := by
  obtain ⟨a, ha, hP⟩ := hx
  obtain ⟨b, hb, hQ⟩ := hf a hP
  exact ⟨b, bind_ok.mpr ⟨a, ha, hb⟩, hQ⟩

theorem Yields.after {x : Emission α} {f : α → Emission β} {a : α} (hx : x.result = .ok a)
    (hf : Yields (f a) Q) : Yields (x >>= f) Q := by
  obtain ⟨b, hb, hQ⟩ := hf
  exact ⟨b, bind_ok.mpr ⟨a, hx, hb⟩, hQ⟩

theorem Yields.ok {x : Emission Unit} (h : Yields x fun _ => True) : x.result = .ok () := by
  obtain ⟨⟨⟩, hx, -⟩ := h
  exact hx

theorem yields_pure {a : α} (h : P a) : Yields (pure a) P := ⟨a, rfl, h⟩

theorem yields_emit (v : Event) : Yields (emit v) fun _ => True := ⟨(), rfl, trivial⟩

theorem Yields.guarded {c : Prop} [Decidable c] {x : Emission Unit} {k : Unit → Emission β}
    (hx : c → Yields x fun _ => True) (hk : ∀ u, Yields (k u) Q) :
    Yields (if c then x >>= k else k ()) Q := by
  split
  · exact (hx ‹c›).bind fun u _ => hk u
  · exact hk ()

theorem Yields.each {xs : List α} {f : α → Emission Unit}
    (h : ∀ x ∈ xs, Yields (f x) fun _ => True) : Yields (each xs f) fun _ => True := by
  refine ⟨(), each_ok.mpr fun x hx => ?_, trivial⟩
  obtain ⟨u, hu, -⟩ := h x hx
  exact hu

theorem Yields.collect {xs : List α} {f : α → Emission β} (h : ∀ x ∈ xs, Yields (f x) Q) :
    Yields (collect xs f) fun ys => ∀ y ∈ ys, Q y := by
  obtain ⟨ys, hys⟩ := exists_forall₂ h
  refine ⟨ys, collect_ok.mpr (hys.imp fun _ _ h => h.1), fun y hy => ?_⟩
  obtain ⟨x, -, -, hQ⟩ := forall₂_mem_right hys hy
  exact hQ

end Emission

end UmlSchema
