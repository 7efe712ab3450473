import UmlSchema.Platform.Usual
import UmlSchema.Proofs.Extension

/-!
# Warnings about ignored parents

A type extends one class, and warns about the parents that its search passes over. The search is
made once for each type, so that the warning comes once. Inputs, schemas and unions extend nothing,
and no other part of a declaration warns about parents.
-/
namespace UmlSchema

open Emission

namespace Emission

variable {α β : Type} {k : WarningKind} {ks : List WarningKind}

def warned (k : WarningKind) (x : Emission α) : List Warning :=
  warningsOfKind (warningsOf x.events) k

theorem warned_bind {x : Emission α} {f : α → Emission β} {a : α} (h : x.result = .ok a) :
    (x >>= f).warned k = x.warned k ++ (f a).warned k := by
  rw [warned, bind_events h, warningsOf_append]
  exact List.filter_append ..

theorem warned_of_warnsOf {x : Emission α} (h : WarnsOf ks x) (hk : k ∉ ks) : x.warned k = [] := by
  apply List.filter_eq_nil_iff.mpr
  intro w hw hkind
  obtain ⟨v, hv, hvw⟩ := List.mem_filterMap.mp hw
  cases v with
  | warn u =>
    cases hvw
    rw [← of_decide_eq_true hkind] at hk
    exact hk (h _ hv _ rfl)
  | line _ | log _ | indent | outdent => cases hvw

theorem warned_after {x : Emission α} {f : α → Emission β} {b : β} (hx : WarnsOf ks x)
    (hk : k ∉ ks) (h : (x >>= f).result = .ok b) :
    ∃ a, x.result = .ok a ∧ (f a).result = .ok b ∧ (x >>= f).warned k = (f a).warned k := by
  obtain ⟨a, ha, hb⟩ := bind_ok.mp h
  refine ⟨a, ha, hb, ?_⟩
  rw [warned_bind ha, warned_of_warnsOf hx hk, List.nil_append]

theorem warned_before {x : Emission α} {f : α → Emission β} {b : β} (hf : ∀ a, WarnsOf ks (f a))
    (hk : k ∉ ks) (h : (x >>= f).result = .ok b) :
    ∃ a, x.result = .ok a ∧ (x >>= f).warned k = x.warned k := by
  obtain ⟨a, ha, -⟩ := bind_ok.mp h
  refine ⟨a, ha, ?_⟩
  rw [warned_bind ha, warned_of_warnsOf (hf a) hk, List.append_nil]

end Emission

theorem ClassForm.keyword_eq_type {form : ClassForm} : form.keyword = "type" ↔ form = .type := by
  cases form <;> decide

namespace Declarer

variable {d : Declarer} {e : ElementId} {above : List Value}

/-- The warning that a class has more parents than it can extend. -/
def parentsIgnored (d : Declarer) (e : ElementId) : Warning :=
  ⟨.multipleInheritance, "you can only extend one class, ignoring others", d.nameOf e⟩

/-- Whether a class, or an abstract class that its search passes, has more parents than one. -/
def IgnoresParents (d : Declarer) (e : ElementId) (above : List Value) : Prop :=
  ∃ x ∈ d.passed (.ref e) above, 2 ≤ (d.repository.leading .generalization x).length

instance : Decidable (d.IgnoresParents e above) :=
  inferInstanceAs (Decidable (∃ x ∈ d.passed (.ref e) above, _))

theorem anyIgnored_iff : d.anyIgnored (d.passed (.ref e) above) = true ↔
    d.IgnoresParents e above := by
  simp [anyIgnored, IgnoresParents]

theorem warned_warnInText (k : WarningKind) (t : Text) (e : ElementId) :
    (d.warnInText k t e).warned k = [⟨k, t, d.nameOf e⟩] := by
  have hdoc := (doc_lines d.options.idlDoc ("WARNING: " ++ t)).2.2
  have hevents : warningsOf (d.warnInText k t e).events =
      ⟨k, t, d.nameOf e⟩ :: warningsOf (d.doc ("WARNING: " ++ t)).events := rfl
  rw [warned, hevents, doc, hdoc]
  simp [warningsOfKind]

theorem warned_extendsTarget {t : Value} (hline : d.ClassLine e above)
    (h : (d.extendsTarget e).result = .ok t) :
    (d.extendsTarget e).warned .multipleInheritance =
      if d.IgnoresParents e above then [d.parentsIgnored e] else [] := by
  rw [extendsTarget_of_asked hline (asked_of_extendsTarget hline h)]
  by_cases hignored : d.IgnoresParents e above
  · rw [if_pos (anyIgnored_iff.mpr hignored), if_pos hignored, warned_bind rfl, warned_warnInText]
    rfl
  · rw [if_neg (mt anyIgnored_iff.mp hignored), if_neg hignored]
    rfl

theorem warned_ancestry {t : Text} (hline : d.ClassLine e above)
    (h : (d.ancestry e).result = .ok t) :
    (d.ancestry e).warned .multipleInheritance =
      if d.IgnoresParents e above then [d.parentsIgnored e] else [] := by
  have hnames (interfaces : List Value) (parent : Value) : WarnsOf []
      (if parent = .absent then liftM (d.clause " implements " interfaces)
      else do
        let name ← d.model.read parent .name
        d.clause " extends " (name :: interfaces) : Emission Text) := by
    split
    · exact emits_lift _
    · exact (emits_lift _).bind fun _ => emits_lift _
  obtain ⟨interfaces, -, h, hfirst⟩ := warned_after (emits_lift _) List.not_mem_nil h
  obtain ⟨names, -, h, hsecond⟩ := warned_after (emits_lift _) List.not_mem_nil h
  obtain ⟨parent, hparent, hthird⟩ := warned_before (hnames names) List.not_mem_nil h
  rw [ancestry, hfirst, hsecond, hthird]
  exact warned_extendsTarget hline hparent

theorem warned_object [Platform] {keyword : Text} (hline : d.ClassLine e above)
    (h : (d.object keyword e).result = .ok ()) :
    (d.object keyword e).warned .multipleInheritance =
      if keyword = "type" ∧ d.IgnoresParents e above then [d.parentsIgnored e] else [] := by
  have hblock (title ancestry : Text) : WarnsOf [.unknownMultiplicity]
      (d.block (title ++ ancestry) (d.repository.classTable e) e) :=
    d.warnsOf_block _ (d.repository.plain_classTable e).warnsOf e
  rw [object_eq] at h ⊢
  obtain ⟨-, -, h, hfirst⟩ := warned_after (k := .multipleInheritance)
    (d.plain_nameCheck keyword e).warnsOf (by decide) h
  obtain ⟨-, -, h, hsecond⟩ :=
    warned_after (k := .multipleInheritance) (d.plain_docOf _).warnsOf List.not_mem_nil h
  obtain ⟨head, hhead, hthird⟩ :=
    warned_before (k := .multipleInheritance) (hblock _) (by decide) h
  rw [hfirst, hsecond, hthird]
  by_cases htype : keyword = "type"
  · simp only [htype, if_true, true_and] at hhead ⊢
    exact warned_ancestry hline hhead
  · simp only [htype, if_false, false_and]
    rfl

theorem warned_klass [Platform] (hline : d.ClassLine e above) (h : (d.klass e).result = .ok ()) :
    ∃ form, d.formOf e = .ok form ∧ (d.klass e).warned .multipleInheritance =
      if form = .type ∧ d.IgnoresParents e above then [d.parentsIgnored e] else [] := by
  obtain ⟨form, hform, h, hklass⟩ := warned_after (emits_lift _) List.not_mem_nil h
  refine ⟨form, hform, ?_⟩
  rw [klass, hklass]
  cases form with
  | union => exact warned_of_warnsOf (d.plain_union e).warnsOf (by decide)
  | input | schema | type =>
    have hobject := warned_object hline h
    simpa only [ClassForm.keyword_eq_type] using hobject

theorem warned_wrapped {what : String} {x : Emission Unit} {k : WarningKind}
    (h : (do d.trace what e; x; Emission.emptyLine : Emission Unit).result = .ok ()) :
    x.result = .ok () ∧
      (do d.trace what e; x; Emission.emptyLine : Emission Unit).warned k = x.warned k := by
  have hlast : WarnsOf [] emptyLine := plain_emptyLine.warnsOf
  obtain ⟨-, -, h, htrace⟩ :=
    warned_after (k := k) (d.plain_trace what e).warnsOf List.not_mem_nil h
  obtain ⟨⟨⟩, hx, hempty⟩ := warned_before (k := k) (fun _ => hlast) List.not_mem_nil h
  exact ⟨hx, htrace.trans hempty⟩

theorem warned_single [Platform] (hkind : (d.element e).kind = .klass)
    (hdeclared : (d.element e).isDeclared = true) (hline : d.ClassLine e above)
    (h : (d.single e).result = .ok ()) :
    ∃ form, d.formOf e = .ok form ∧ (d.single e).warned .multipleInheritance =
      if form = .type ∧ d.IgnoresParents e above then [d.parentsIgnored e] else [] := by
  have hconcrete : (!d.isAbstract (.ref e)) = true := by
    rw [Element.isDeclared, hkind] at hdeclared
    exact hdeclared
  have hsingle : d.single e = (do d.trace "Class generate " e; d.klass e; Emission.emptyLine) := by
    rw [single, hkind]
    exact if_pos hconcrete
  rw [hsingle] at h ⊢
  obtain ⟨hklass, hwarned⟩ := warned_wrapped (k := .multipleInheritance) h
  rw [hwarned]
  exact warned_klass hline hklass

theorem warned_afterHeader [Platform] {header : Option Text} {k : WarningKind}
    (h : (documentEvents d header e).result = .ok ()) :
    (d.declare e).result = .ok () ∧
      (documentEvents d header e).warned k = (d.declare e).warned k := by
  cases header with
  | none => exact ⟨h, rfl⟩
  | some text =>
    have hheader : WarnsOf [] (d.header text) :=
      (plain_doc _ _).warnsOf.bind fun _ => plain_emptyLine.warnsOf
    obtain ⟨⟨⟩, -, hdeclare, hwarned⟩ := warned_after (k := k) hheader List.not_mem_nil h
    exact ⟨hdeclare, hwarned⟩

theorem warned_documentEvents [Platform] {header : Option Text} {k : WarningKind}
    (hc : isContainer (d.model.element e) = false)
    (h : (documentEvents d header e).result = .ok ()) :
    (d.single e).result = .ok () ∧
      (documentEvents d header e).warned k = (d.single e).warned k := by
  rw [← declare_single hc]
  exact warned_afterHeader h

end Declarer

/-- A class that is rendered as a type warns once about ignored parents if the class, or an abstract
class that is passed on its line of first parents before any other, has more parents than one.
Otherwise it does not, and a class that is rendered in another form never does. -/
theorem ignored_parents_warned_once [Platform] {m : Model} {o : Options}
    {header : Option (Option Template)} {c : ElementId} {R : Rendering} (hkind : (m.element c).kind = .klass)
    (hdeclared : (m.element c).isDeclared = true) (h : (render m o header c).result = .ok R) :
    ∃ (d : Declarer) (form : ClassForm) (above : List Value),
      Repository.around m c = .ok d.repository ∧ d.options = o ∧ d.formOf c = .ok form ∧
      (∀ line, d.ClassLine c line ↔ line = above) ∧
      warningsOfKind R.warnings .multipleInheritance =
        if form = .type ∧ ∃ x ∈ Value.ref c :: above.takeWhile d.isAbstract,
            2 ≤ (d.repository.leading .generalization x).length then
          [⟨.multipleInheritance, "you can only extend one class, ignoring others", m.shownName c⟩]
        else [] := by
  obtain ⟨r, indent, text, hr, -, hok, rfl⟩ := render_ok.mp h
  have hmodel := around_model hr
  subst hmodel
  obtain ⟨above, hline⟩ := r.exists_ascent [.ref c] (.ref c)
  have hc : Declarer.isContainer (r.model.element c) = false := by
    rw [Declarer.isContainer, Element.isA, Element.isA, hkind]
    decide
  obtain ⟨hsingle, hwarned⟩ :=
    Declarer.warned_documentEvents (d := ⟨r, o⟩) (k := .multipleInheritance) hc hok
  obtain ⟨form, hform, hsame⟩ :=
    Declarer.warned_single (d := ⟨r, o⟩) hkind hdeclared ((hline above).mpr rfl) hsingle
  exact ⟨⟨r, o⟩, form, above, hr, rfl, hform, hline, hwarned.trans hsame⟩

/-- A type below an abstract class with two parents, and an input and a schema with two parents of
their own. -/
def twoParents : Model where
  elements := #[.given .project [(.name, .text "Shop"), (.owned, .refs [1, 2, 3, 4, 5, 6])],
    .given .klass [(.name, .text "Left"), (.parent, .ref 0)],
    .given .klass [(.name, .text "Right"), (.parent, .ref 0)],
    .given .klass [(.name, .text "Base"), (.isAbstract, .flag true), (.parent, .ref 0),
      (.owned, .refs [7, 8])],
    .given .klass [(.name, .text "Order"), (.parent, .ref 0), (.owned, .refs [9])],
    .given .klass [(.name, .text "Filter"), (.stereotype, .text "input"), (.parent, .ref 0),
      (.owned, .refs [10, 11])],
    .given .klass [(.name, .text "Queries"), (.stereotype, .text "schema"), (.parent, .ref 0),
      (.owned, .refs [12, 13])],
    .given .generalization [(.source, .ref 3), (.target, .ref 1), (.parent, .ref 3)],
    .given .generalization [(.source, .ref 3), (.target, .ref 2), (.parent, .ref 3)],
    .given .generalization [(.source, .ref 4), (.target, .ref 3), (.parent, .ref 4)],
    .given .generalization [(.source, .ref 5), (.target, .ref 1), (.parent, .ref 5)],
    .given .generalization [(.source, .ref 5), (.target, .ref 2), (.parent, .ref 5)],
    .given .generalization [(.source, .ref 6), (.target, .ref 1), (.parent, .ref 6)],
    .given .generalization [(.source, .ref 6), (.target, .ref 2), (.parent, .ref 6)]]

attribute [local instance] Platform.usual

theorem twoParents_order_warned :
    (twoParents.element 4).kind = .klass ∧ (twoParents.element 4).isDeclared = true ∧
    ∃ (R : Rendering) (d : Declarer) (form : ClassForm) (above : List Value),
      (render twoParents {} (some none) 4).result = .ok R ∧
      Repository.around twoParents 4 = .ok d.repository ∧ d.formOf 4 = .ok form ∧
      d.ClassLine 4 above ∧ form = .type ∧
      (∃ x ∈ Value.ref 4 :: above.takeWhile d.isAbstract,
        2 ≤ (d.repository.leading .generalization x).length) ∧
      warningsOfKind R.warnings .multipleInheritance = [⟨.multipleInheritance,
        "you can only extend one class, ignoring others", .ofText "Order"⟩] := by
  have hkind : (twoParents.element 4).kind = .klass := by decide +kernel
  have hdeclared : (twoParents.element 4).isDeclared = true := by decide +kernel
  have hsome : (render twoParents {} (some none) 4).result.toOption.map
      (fun R => warningsOfKind R.warnings .multipleInheritance) =
        some [⟨.multipleInheritance, "you can only extend one class, ignoring others",
          .ofText "Order"⟩] := by decide +kernel
  obtain ⟨R, hR, hwarned⟩ := Option.map_eq_some_iff.mp hsome
  obtain ⟨d, form, above, hr, -, hform, hline, hcases⟩ :=
    ignored_parents_warned_once hkind hdeclared (ok_of_toOption hR)
  -- A warning is there, so that the class is a type and has passed over a parent.
  split at hcases
  · rename_i hboth
    exact ⟨hkind, hdeclared, R, d, form, above, ok_of_toOption hR, hr, hform,
      (hline above).mpr rfl, hboth.1, hboth.2, hwarned⟩
  · rw [hwarned] at hcases
    cases hcases

theorem exists_unwarned [Platform] {m : Model} {c : ElementId} {form : ClassForm} {n : Nat}
    (hr : (Repository.around m c).toOption.map (fun r =>
      (((⟨r, {}⟩ : Declarer).formOf c).toOption, (r.leading .generalization (.ref c)).length)) =
        some (some form, n))
    (hR : (render m {} none c).result.toOption.map (·.warnings) = some []) :
    ∃ r R, Repository.around m c = .ok r ∧ (⟨r, {}⟩ : Declarer).formOf c = .ok form ∧
      (r.leading .generalization (.ref c)).length = n ∧
      (render m {} none c).result = .ok R ∧ R.warnings = [] := by
  obtain ⟨r, hr, hpair⟩ := Option.map_eq_some_iff.mp hr
  obtain ⟨hform, hlength⟩ := Prod.mk.inj hpair
  obtain ⟨R, hR, hwarnings⟩ := Option.map_eq_some_iff.mp hR
  exact ⟨r, R, ok_of_toOption hr, ok_of_toOption hform, hlength, ok_of_toOption hR, hwarnings⟩

theorem twoParents_input_not_warned :
    ((twoParents.element 5).isDeclared = true ∧ ∃ r R, Repository.around twoParents 5 = .ok r ∧
      (⟨r, {}⟩ : Declarer).formOf 5 = .ok .input ∧
      (r.leading .generalization (.ref 5)).length = 2 ∧
      (render twoParents {} none 5).result = .ok R ∧ R.warnings = []) ∧
    ((twoParents.element 6).isDeclared = true ∧ ∃ r R, Repository.around twoParents 6 = .ok r ∧
      (⟨r, {}⟩ : Declarer).formOf 6 = .ok .schema ∧
      (r.leading .generalization (.ref 6)).length = 2 ∧
      (render twoParents {} none 6).result = .ok R ∧ R.warnings = []) := by
  constructor
  · exact ⟨by decide +kernel, exists_unwarned (by decide +kernel) (by decide +kernel)⟩
  · exact ⟨by decide +kernel, exists_unwarned (by decide +kernel) (by decide +kernel)⟩

end UmlSchema
