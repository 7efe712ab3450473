import UmlSchema.Platform.Usual
import UmlSchema.Proofs.Legible
import UmlSchema.Proofs.Preview

/-!
# When rendering comes to a result

In a well-kinded model two things stop a rendering: a relationship without a target that is walked
or named, and an end of an association that no name can be found for. Nothing else does, apart from
an indentation that no text can have.
-/
namespace UmlSchema

open Emission

theorem Model.joined_settles {m : Model} {names : List Value} (h : ∀ n ∈ names, ∃ t, n = .text t)
    (mark : Text) : Settles (m.joined mark names) fun _ => True := by
  have texts : ∀ (position : Nat) (names : List Value), (∀ n ∈ names, ∃ t, n = .text t) →
      Settles (m.textsFrom position names) fun _ => True := by
    intro position names
    induction names generalizing position with
    | nil => exact fun _ => settles_ok trivial
    | cons n names ih =>
      intro h
      obtain ⟨⟨t, rfl⟩, hrest⟩ := List.forall_mem_cons.mp h
      exact (ih (position + 1) hrest).bind fun _ _ => settles_ok trivial
  exact (texts 0 names h).bind fun _ _ => settles_ok trivial

namespace Declarer

variable {d : Declarer}

theorem docOf_yields (v : Value) : Yields (d.docOf v) fun _ => True := by
  cases v <;> exact ⟨(), rfl, trivial⟩

theorem warnInText_yields (k : WarningKind) (message : Text) (e : ElementId) :
    Yields (d.warnInText k message e) fun _ => True :=
  (yields_emit _).bind fun _ _ => ⟨(), rfl, trivial⟩

theorem checkName_yields [Platform] (e : ElementId) : Yields (d.checkName e) fun _ => True := by
  unfold checkName
  dsimp only
  split
  · exact yields_pure trivial
  · exact yields_emit _

theorem trace_yields (what : String) (e : ElementId) :
    Yields (d.trace what e) fun _ => True := by
  unfold trace
  split
  · exact yields_emit _
  · exact yields_pure trivial

theorem namesOf_ok (h : d.model.WellKinded) {vs : List Value} :
    (∃ names, d.namesOf vs = .ok names) ↔ ∀ v ∈ vs, ∃ e, v = .ref e := by
  constructor
  · rintro ⟨names, hnames⟩ v hv
    obtain ⟨name, -, hname⟩ := forall₂_mem_left (except_mapM_ok.mp hnames) hv
    cases v with
    | ref e => exact ⟨e, rfl⟩
    | absent | flag _ | text _ | refs _ => cases hname
  · intro hrefs
    obtain ⟨names, hnames, -⟩ :
        Settles (d.namesOf vs) fun names => ∀ n ∈ names, ∃ t, n = .text t := by
      refine Settles.mapM fun v hv => ?_
      obtain ⟨e, rfl⟩ := hrefs v hv
      exact h.readName e
    exact ⟨names, hnames⟩

theorem namesOf_text (h : d.model.WellKinded) {vs names : List Value}
    (hnames : d.namesOf vs = .ok names) : ∀ n ∈ names, ∃ t, n = .text t := by
  intro n hn
  obtain ⟨v, hv, hread⟩ := forall₂_mem_right (except_mapM_ok.mp hnames) hn
  obtain ⟨e, rfl⟩ := (namesOf_ok h).mp ⟨names, hnames⟩ v hv
  cases hread
  exact h.name e

theorem clause_settles {names : List Value} (h : ∀ n ∈ names, ∃ t, n = .text t) (word : Text) :
    Settles (d.clause word names) fun _ => True := by
  unfold clause
  split
  · exact settles_ok trivial
  · exact (Model.joined_settles h _).bind fun _ _ => settles_ok trivial

theorem fields_yields {table : FieldTable} (h : ∀ entry ∈ table, ∃ t, entry.1 = .text t) :
    Yields (d.fields table) fun _ => True := by
  refine Yields.each fun entry hentry => ?_
  obtain ⟨t, ht⟩ := h entry hentry
  refine (docOf_yields _).bind fun _ _ => ?_
  rw [ht]
  exact yields_emit _

theorem parametersOf_settles (h : d.model.WellKinded) {e : ElementId}
    (he : (d.element e).isA .operation = true) : Settles (d.parametersOf e) fun vs =>
      ∀ v ∈ vs, ∃ p, v = .ref p ∧ (d.element p).isA .parameter = true := by
  have kind : ∀ k : Kind, k.isA .operation = true → k = .operation := by
    intro k
    cases k <;> decide
  unfold parametersOf
  dsimp only
  rw [if_neg (not_not_intro (kind _ he))]
  refine (h.readAs (f := .parameters) he (by decide)).bind fun v hv => ?_
  obtain ⟨es, rfl, hes⟩ := Model.refs_of_isOf hv
  refine settles_ok fun v hv => ?_
  obtain ⟨p, hp, rfl⟩ := List.mem_map.mp hv
  exact ⟨p, rfl, hes p hp⟩

theorem isReturn_settles (h : d.model.WellKinded) {p : ElementId}
    (hp : (d.element p).isA .parameter = true) : Settles (d.isReturn (.ref p)) fun _ => True :=
  (h.readAs (f := .direction) hp (by decide)).bind fun _ _ => settles_ok trivial

theorem inputParameters_settles (h : d.model.WellKinded) {e : ElementId}
    (he : (d.element e).isA .operation = true) : Settles (d.inputParameters e) fun inputs =>
      ∀ p ∈ inputs, (d.element p).isA .parameter = true := by
  refine (parametersOf_settles h he).bind fun vs hvs => ?_
  have htest : ∀ v ∈ vs, Settles (do return !(← d.isReturn v)) fun _ => True := by
    intro v hv
    obtain ⟨p, rfl, hp⟩ := hvs v hv
    exact (isReturn_settles h hp).bind fun _ _ => settles_ok trivial
  obtain ⟨inputs, hinputs, -⟩ := Repository.select_settles htest
  refine Settles.after hinputs ?_
  obtain ⟨-, hfilter⟩ := Repository.select_ok hinputs
  refine settles_ok fun p hp => ?_
  obtain ⟨v, hv, hvp⟩ := List.mem_filterMap.mp hp
  rw [hfilter] at hv
  obtain ⟨q, rfl, hq⟩ := hvs v (List.mem_filter.mp hv).1
  cases hvp
  exact hq

theorem returnParameter_settles (h : d.model.WellKinded) {e : ElementId}
    (he : (d.element e).isA .operation = true) :
    Settles (d.returnParameter e) fun _ => True := by
  refine (parametersOf_settles h he).bind fun vs hvs => ?_
  induction vs with
  | nil => exact settles_ok trivial
  | cons v vs ih =>
    obtain ⟨⟨p, rfl, hp⟩, hrest⟩ := List.forall_mem_cons.mp hvs
    refine (isReturn_settles h hp).bind fun isReturn _ => ?_
    split
    · exact settles_ok trivial
    · exact ih hrest

theorem parameterTerm_yields [Platform] (h : d.model.WellKinded) {p : ElementId}
    (hp : (d.element p).isA .parameter = true) : Yields (d.parameterTerm p) fun _ => True := by
  refine (Model.typeOf_yields h _ p).bind fun _ _ => ?_
  refine Yields.bind (h.readAs (f := .defaultValue) hp (by decide)) fun v hv => ?_
  obtain ⟨t, rfl⟩ := Model.text_of_isOf hv
  refine Yields.bind (P := fun _ => True) ?_ fun _ _ => yields_pure trivial
  unfold Model.defaultClause
  split <;> exact settles_ok trivial

theorem resultClause_yields [Platform] (h : d.model.WellKinded) (p : Option ElementId) :
    Yields (d.resultClause p) fun _ => True := by
  cases p with
  | none => exact yields_pure trivial
  | some p =>
    refine (Model.typeOf_yields h _ p).bind fun type htype => ?_
    obtain ⟨t, ht⟩ := htype
    rw [ht]
    exact yields_pure trivial

theorem operation_yields [Platform] (h : d.model.WellKinded) {e : ElementId}
    (he : (d.element e).isA .operation = true) : Yields (d.operation (.ref e)) fun _ => True := by
  refine Yields.bind (Model.shown_settles (h.readName e)) fun name _ => ?_
  dsimp only
  split
  · exact yields_pure trivial
  · refine Yields.bind (inputParameters_settles h he) fun inputs hinputs => ?_
    refine Yields.bind (returnParameter_settles h he) fun result _ => ?_
    refine Yields.bind (P := fun _ => True) ?_ fun documentation _ => ?_
    · obtain ⟨t, ht⟩ := h.documentation e
      unfold operationDoc
      rw [show (d.element e).documentation = .text t from ht, Model.textOrEmpty_text]
      exact settles_ok trivial
    refine Yields.after rfl ?_
    refine (Yields.collect fun p hp => parameterTerm_yields h (hinputs p hp)).bind fun _ _ => ?_
    refine (resultClause_yields h result).bind fun _ _ => ?_
    exact Yields.bind (Model.directives_settle h e) fun _ _ => yields_emit _

theorem operations_yields [Platform] (h : d.model.WellKinded) {e : ElementId}
    (he : (d.element e).isA .classifier = true) : Yields (d.operations e) fun _ => True := by
  refine Yields.bind (h.readAs (f := .operations) he (by decide)) fun v hv => ?_
  obtain ⟨es, rfl, hes⟩ := Model.refs_of_isOf hv
  refine Yields.after (d.model.members_refs es) ?_
  refine Yields.each fun o ho => ?_
  obtain ⟨x, hx, rfl⟩ := List.mem_map.mp ho
  exact (operation_yields h (hes x hx)).bind fun _ _ => yields_emit _

theorem block_ok [Platform] (h : d.model.WellKinded) {e : ElementId}
    (he : (d.element e).isA .classifier = true) {header : Text} {table : Emission FieldTable}
    (htext : ∀ t, table.result = .ok t → ∀ entry ∈ t, ∃ name, entry.1 = .text name) :
    (d.block header table e).result = .ok () ↔ ∃ t, table.result = .ok t := by
  constructor
  · intro hok
    obtain ⟨-, -, hok⟩ := bind_ok.mp hok
    obtain ⟨-, -, hok⟩ := bind_ok.mp hok
    obtain ⟨-, -, hok⟩ := bind_ok.mp hok
    obtain ⟨t, ht, -⟩ := bind_ok.mp hok
    exact ⟨t, ht⟩
  · rintro ⟨t, ht⟩
    refine Yields.ok ?_
    refine (yields_emit _).bind fun _ _ => (yields_emit _).bind fun _ _ =>
      (yields_emit _).bind fun _ _ => Yields.after ht ?_
    exact (fields_yields (htext _ ht)).bind fun _ _ => (operations_yields h he).bind fun _ _ =>
      (yields_emit _).bind fun _ _ => yields_emit _

theorem interface_ok [Platform] (h : d.model.WellKinded) {e : ElementId}
    (he : (d.element e).kind = .interface) :
    (d.interface e).result = .ok () ↔
      ∀ x, d.repository.Reaches (.ref e) x → d.repository.Legible x := by
  have hblock (header : Text) : (d.block header (d.repository.interfaceTable e) e).result = .ok () ↔
      ∃ t, (d.repository.interfaceTable e).result = .ok t :=
    block_ok h (Element.isA_of_kind he rfl) fun _ => Repository.interfaceTable_text h
  rw [← Repository.interfaceTable_total h]
  constructor
  · intro hok
    obtain ⟨-, -, hok⟩ := bind_ok.mp hok
    obtain ⟨-, -, hok⟩ := bind_ok.mp hok
    obtain ⟨parents, -, hok⟩ := bind_ok.mp hok
    obtain ⟨names, -, hok⟩ := bind_ok.mp hok
    obtain ⟨extending, -, hok⟩ := bind_ok.mp hok
    obtain ⟨title, -, hok⟩ := bind_ok.mp hok
    exact (hblock _).mp hok
  · intro htable
    have hlegible := (Repository.interfaceTable_total h).mp htable
    obtain ⟨parents, hparents, -⟩ :=
      Repository.targets_settles h (k := .generalization) rfl (.ref e)
    have hrefs : ∀ v ∈ parents, ∃ x, v = .ref x := fun v hv =>
      (hlegible v (.single ((Repository.mem_superClasses hparents).mp hv))).1
    obtain ⟨names, hnames⟩ := (namesOf_ok h).mpr hrefs
    obtain ⟨name, hname⟩ := h.name e
    refine Yields.ok ?_
    refine (checkName_yields e).bind fun _ _ => (docOf_yields _).bind fun _ _ => ?_
    refine Yields.after hparents ?_
    refine Yields.after hnames ?_
    refine Yields.bind (clause_settles (namesOf_text h hnames) _) fun _ _ => ?_
    refine Yields.bind (Model.joined_settles (m := d.model) ?_ _) fun _ _ => ?_
    · simp [show (d.element e).name = .text name from hname]
    · exact ⟨(), (hblock _).mpr htable, trivial⟩

theorem nearestConcrete_settles (h : d.model.WellKinded) (n : Nat) :
    ∀ (seen : List Value) (ignored : Bool) (v : Value),
      Settles (d.nearestConcrete n seen ignored v) fun found => found.1.IsEnd := by
  induction n with
  | zero => exact fun _ _ _ => settles_ok (.inl rfl)
  | succ n ih =>
    intro seen ignored v
    refine (Repository.targets_settles h (k := .generalization) rfl v).bind fun parents hends => ?_
    cases parents with
    | nil => exact settles_ok (.inl rfl)
    | cons parent others =>
      dsimp only
      split
      · exact settles_ok (hends parent List.mem_cons_self)
      · split
        · exact settles_ok (.inl rfl)
        · exact ih _ _ _

theorem ancestry_yields (h : d.model.WellKinded) {e : ElementId}
    (hrefs : ∀ i, d.repository.Realizes (.ref e) i → ∃ x, i = .ref x) :
    Yields (d.ancestry e) fun _ => True := by
  obtain ⟨interfaces, hinterfaces, -⟩ :=
    Repository.targets_settles h (k := .interfaceRealization) rfl (.ref e)
  obtain ⟨names, hnames⟩ : ∃ names, d.namesOf interfaces = .ok names :=
    (namesOf_ok h).mpr fun v hv => hrefs v ((Repository.mem_superInterfaces hinterfaces).mp hv)
  have htext := namesOf_text h hnames
  refine Yields.after hinterfaces ?_
  refine Yields.after hnames ?_
  refine Yields.bind (P := Value.IsEnd) ?_ fun parent hparent => ?_
  · refine Yields.bind (nearestConcrete_settles h _ _ _ _) fun found hfound => ?_
    exact Yields.guarded (fun _ => warnInText_yields _ _ _) fun _ => yields_pure hfound
  · split
    · exact clause_settles htext _
    · rcases hparent with rfl | ⟨p, rfl⟩
      · contradiction
      · refine Yields.bind (h.readName p) fun name hname => ?_
        exact clause_settles (List.forall_mem_cons.mpr ⟨hname, htext⟩) _

theorem object_ok [Platform] (h : d.model.WellKinded) {e : ElementId}
    (he : (d.element e).kind = .klass) (keyword : Text) : (d.object keyword e).result = .ok () ↔
      (∀ i, d.repository.Realizes (.ref e) i →
        ∀ x, d.repository.Reaches i x → d.repository.Legible x) ∧
      ∀ x, d.repository.Climbs (.ref e) x → d.repository.Legible x := by
  have hblock (header : Text) : (d.block header (d.repository.classTable e) e).result = .ok () ↔
      ∃ t, (d.repository.classTable e).result = .ok t :=
    block_ok h (Element.isA_of_kind he rfl) fun _ => Repository.classTable_text h
  rw [← Repository.classTable_total h]
  constructor
  · intro hok
    obtain ⟨-, -, hok⟩ := bind_ok.mp (guarded_ok hok)
    dsimp only at hok
    split at hok <;>
    · obtain ⟨ancestry, -, hok⟩ := bind_ok.mp hok
      exact (hblock _).mp hok
  · intro htable
    have hlegible := (Repository.classTable_total h).mp htable
    refine Yields.ok ?_
    refine Yields.guarded (fun _ => checkName_yields e) fun _ => ?_
    refine (docOf_yields _).bind fun _ _ => ?_
    have rest (header : Text) : Yields (d.block header (d.repository.classTable e) e)
        fun _ => True := ⟨(), (hblock header).mpr htable, trivial⟩
    dsimp only
    split
    · have hancestry := ancestry_yields h fun i hi => (hlegible.1 i hi i .refl).1
      exact hancestry.bind fun _ _ => rest _
    · exact (yields_pure (P := fun _ => True) trivial).bind fun _ _ => rest _

theorem union_ok [Platform] (h : d.model.WellKinded) {e : ElementId}
    (he : (d.element e).kind = .klass) :
    (d.union e).result = .ok () ↔ ¬d.repository.Leads .dependency (.ref e) .absent := by
  obtain ⟨members, hmembers, hends⟩ :=
    Repository.targets_settles h (k := .dependency) rfl (.ref e)
  have hrefs : (∀ v ∈ members, ∃ x, v = .ref x) ↔
      ¬d.repository.Leads .dependency (.ref e) .absent := by
    rw [← Repository.mem_targets rfl hmembers]
    constructor
    · intro hall habsent
      obtain ⟨x, hx⟩ := hall _ habsent
      cases hx
    · intro hnot v hv
      rcases hends v hv with rfl | href
      · exact absurd hv hnot
      · exact href
  rw [← hrefs, ← namesOf_ok h]
  constructor
  · intro hok
    obtain ⟨-, -, hok⟩ := bind_ok.mp hok
    obtain ⟨parents, -, hok⟩ := bind_ok.mp hok
    obtain ⟨interfaces, -, hok⟩ := bind_ok.mp (guarded_ok hok)
    obtain ⟨operations, -, hok⟩ := bind_ok.mp (guarded_ok hok)
    obtain ⟨attributes, -, hok⟩ := bind_ok.mp (guarded_ok hok)
    obtain ⟨found, hfound, hok⟩ := bind_ok.mp (guarded_ok hok)
    have hok := guarded_ok hok
    have hsame : found = members := Except.ok.inj (hfound.symm.trans hmembers)
    subst hsame
    split at hok
    · obtain ⟨-, -, hok⟩ := bind_ok.mp hok
      obtain ⟨names, hnames, -⟩ := bind_ok.mp hok
      exact ⟨names, hnames⟩
    · rename_i hempty
      have hnil : found = [] := by simpa using hempty
      exact ⟨[], by rw [hnil]; rfl⟩
  · rintro ⟨names, hnames⟩
    refine Yields.ok ?_
    have hwarn (k : WarningKind) (message : Text) := warnInText_yields (d := d) k message e
    have hclassifier : (d.element e).isA .classifier = true := Element.isA_of_kind he rfl
    refine (checkName_yields e).bind fun _ _ => ?_
    refine Yields.bind (Repository.targets_settles h rfl _) fun _ _ => ?_
    refine Yields.guarded (fun _ => hwarn _ _) fun _ => ?_
    refine Yields.bind (Repository.targets_settles h rfl _) fun _ _ => ?_
    refine Yields.guarded (fun _ => hwarn _ _) fun _ => ?_
    refine Yields.bind (h.readAs hclassifier (by decide)) fun _ _ => ?_
    refine Yields.guarded (fun _ => hwarn _ _) fun _ => ?_
    refine Yields.bind (h.readAs hclassifier (by decide)) fun _ _ => ?_
    refine Yields.guarded (fun _ => hwarn _ _) fun _ => ?_
    refine Yields.after hmembers ?_
    refine Yields.guarded (fun _ => yields_emit _) fun _ => ?_
    dsimp only
    split
    · refine (docOf_yields _).bind fun _ _ => ?_
      refine Yields.after hnames ?_
      refine Yields.bind (Model.joined_settles (namesOf_text h hnames) _) fun _ _ => ?_
      exact yields_emit _
    · exact yields_pure trivial

theorem literal_yields (h : d.model.WellKinded) (x : ElementId) :
    Yields (d.literal (.ref x)) fun _ => True := by
  obtain ⟨name, hname⟩ := h.name x
  obtain ⟨text, htext⟩ := h.documentation x
  refine Yields.after (congrArg Except.ok htext) ?_
  refine Yields.after (d.model.textOrEmpty_text text .splitting) (Yields.after rfl ?_)
  refine Yields.after (congrArg Except.ok hname) ?_
  split
  · exact yields_emit _
  · exact yields_emit _

theorem enumeration_yields [Platform] (h : d.model.WellKinded) {e : ElementId}
    (he : (d.element e).kind = .enumeration) : Yields (d.enumeration e) fun _ => True := by
  refine (checkName_yields e).bind fun _ _ => (docOf_yields _).bind fun _ _ =>
    (yields_emit _).bind fun _ _ => (yields_emit _).bind fun _ _ => ?_
  have henumeration : (d.element e).isA .enumeration = true := Element.isA_of_kind he rfl
  refine Yields.bind (h.readAs (f := .literals) henumeration (by decide)) fun v hv => ?_
  obtain ⟨es, rfl, -⟩ := Model.refs_of_isOf hv
  refine Yields.after (d.model.members_refs es) ?_
  refine Yields.bind (Yields.each fun v hv => ?_) fun _ _ =>
    (yields_emit _).bind fun _ _ => yields_emit _
  obtain ⟨x, -, rfl⟩ := List.mem_map.mp hv
  exact literal_yields h x

end Declarer

def Model.classForm (m : Model) (e : ElementId) : ClassForm :=
  match (m.element e).get? .stereotype with
  | some (.text t) => .ofStereotype t
  | _ => .type

/-- Nothing that the declaration of an element names or walks is absent or has an end that cannot
be named. -/
def Repository.Declarable (r : Repository) (e : ElementId) : Prop :=
  match (r.model.element e).kind with
  | .klass =>
    match r.model.classForm e with
    | .union => ¬r.Leads .dependency (.ref e) .absent
    | _ => (∀ i, r.Realizes (.ref e) i → ∀ x, r.Reaches i x → r.Legible x) ∧
        ∀ x, r.Climbs (.ref e) x → r.Legible x
  | .interface => ∀ x, r.Reaches (.ref e) x → r.Legible x
  | _ => True

namespace Declarer

variable {d : Declarer}

theorem formOf_eq (h : d.model.WellKinded) {e : ElementId} (he : (d.element e).kind = .klass) :
    d.formOf e = .ok (d.model.classForm e) := by
  obtain ⟨v, hv, hsort⟩ := h.get (e := e) (f := .stereotype) (by
    rw [show (d.model.element e).kind = .klass from he]
    decide)
  obtain ⟨t, rfl⟩ := Model.text_of_isOf hsort
  have hread : d.model.read (.ref e) .stereotype = .ok (.text t) := Repository.read_ok.mpr hv
  rw [formOf, hread, except_ok_bind, Model.textOrEmpty_text, except_ok_bind, Model.classForm, hv]
  rfl

theorem klass_ok [Platform] (h : d.model.WellKinded) {e : ElementId}
    (he : (d.element e).kind = .klass) :
    (d.klass e).result = .ok () ↔ d.repository.Declarable e := by
  have hkind : (d.repository.model.element e).kind = .klass := he
  unfold klass Repository.Declarable
  have hform : d.repository.model.classForm e = d.model.classForm e := rfl
  rw [formOf_eq h he, lift_ok_bind, hkind, hform]
  dsimp only
  cases d.model.classForm e with
  | union => exact union_ok h he
  | input | schema | type => exact object_ok h he _

theorem wrapped_ok {x : Emission Unit} (what : String) (e : ElementId) :
    (do d.trace what e; x; Emission.emptyLine : Emission Unit).result = .ok () ↔
      x.result = .ok () := by
  constructor
  · intro hok
    obtain ⟨-, -, hok⟩ := bind_ok.mp hok
    obtain ⟨⟨⟩, hx, -⟩ := bind_ok.mp hok
    exact hx
  · intro hx
    exact bind_ok.mpr ⟨(), (trace_yields what e).ok, bind_ok.mpr ⟨(), hx, rfl⟩⟩

theorem single_ok [Platform] (h : d.model.WellKinded) {e : ElementId}
    (he : (d.model.element e).isDeclared = true) :
    (d.single e).result = .ok () ↔ d.repository.Declarable e := by
  have hother {k : Kind} (hk : (d.element e).kind = k) (hne : k ≠ .klass) (hne' : k ≠ .interface) :
      d.repository.Declarable e := by
    unfold Repository.Declarable
    rw [show (d.repository.model.element e).kind = k from hk]
    cases k <;> trivial
  unfold Element.isDeclared at he
  unfold single
  split
  · rename_i hkind
    have hconcrete : (!d.isAbstract (.ref e)) = true := by
      rw [show (d.model.element e).kind = .klass from hkind] at he
      exact he
    rw [if_pos hconcrete, wrapped_ok]
    exact klass_ok h hkind
  · rename_i hkind
    rw [wrapped_ok]
    refine iff_of_true ?_ (hother hkind (by decide) (by decide))
    exact Yields.ok ((checkName_yields e).bind fun _ _ => (docOf_yields _).bind fun _ _ =>
      yields_emit _)
  · rename_i hkind
    rw [wrapped_ok, interface_ok h hkind]
    unfold Repository.Declarable
    rw [show (d.repository.model.element e).kind = .interface from hkind]
  · rename_i hkind
    rw [wrapped_ok]
    exact iff_of_true (enumeration_yields h hkind).ok (hother hkind (by decide) (by decide))
  · rename_i hklass hprimitive hinterface henumeration
    simp only [element] at hklass hprimitive hinterface henumeration
    split at he <;> simp_all

end Declarer

namespace Model

variable {m : Model}

theorem climb_settles (h : m.WellKinded) (n : Nat) (e : ElementId) :
    Settles (m.climb n e) fun _ => True := by
  induction n generalizing e with
  | zero => exact settles_ok trivial
  | succ n ih =>
    rw [climb]
    rcases h.parent e with hparent | ⟨p, hparent⟩
    · rw [hparent]
      exact settles_ok trivial
    · rw [hparent]
      exact ih p

theorem walkWithin_settles (h : m.WellKinded) (n : Nat) (e : ElementId) :
    Settles (m.walkWithin n (.ref e)) fun _ => True := by
  induction n generalizing e with
  | zero => exact settles_ok trivial
  | succ n ih =>
    obtain ⟨es, hes⟩ := h.owned e
    rw [walkWithin, hes]
    refine Settles.after (members_refs es) ?_
    refine (Settles.mapM (P := fun _ => True) fun v hv => ?_).bind fun _ _ => settles_ok trivial
    obtain ⟨c, -, rfl⟩ := List.mem_map.mp hv
    exact ih c

end Model

theorem headerOf_total {m : Model} {header : Option (Option Template)} {e root : ElementId}
    (hroot : m.root e = .ok root) :
    (∃ text, headerOf m e header = .ok text) ↔ ∀ template, header = some (some template) →
      ∃ root text, m.root e = .ok root ∧ template m root = .ok text := by
  cases header with
  | none => exact iff_of_true ⟨none, rfl⟩ (by simp)
  | some choice =>
    cases choice with
    | none => exact iff_of_true ⟨_, (headerOf_some_ok hroot).mpr ⟨_, rfl, rfl⟩⟩ (by simp)
    | some template =>
      constructor
      · rintro ⟨text, htext⟩ template' ⟨⟩
        obtain ⟨made, hmade, -⟩ := (headerOf_some_ok hroot).mp htext
        exact ⟨root, made, hroot, hmade⟩
      · intro h
        obtain ⟨root', text, hroot', hmade⟩ := h template rfl
        rw [hroot] at hroot'
        cases hroot'
        exact ⟨_, (headerOf_some_ok hroot).mpr ⟨text, hmade, rfl⟩⟩

/-- A rendering of a well-kinded model comes to a result exactly if the indentation is a text, a
template makes a header and every element that it declares is declarable. -/
theorem render_result_iff [Platform] {m : Model} (h : m.WellKinded) (o : Options)
    (header : Option (Option Template)) (e : ElementId) :
    (∃ R, (render m o header e).result = .ok R) ↔
      (∃ indent, o.indentString = .ok indent) ∧
      (∀ template, header = some (some template) →
        ∃ root text, m.root e = .ok root ∧ template m root = .ok text) ∧
      ∃ r, Repository.around m e = .ok r ∧ ∀ x ∈ m.declaredBelow e, r.Declarable x := by
  obtain ⟨root, hroot, -⟩ := Model.climb_settles h m.size e
  obtain ⟨walked, hwalked, -⟩ := Model.walkWithin_settles h (m.size + 1) root
  obtain ⟨r, hr⟩ : ∃ r, Repository.around m e = .ok r :=
    ⟨_, except_bind_ok.mpr ⟨root, hroot, except_bind_ok.mpr ⟨walked, hwalked, rfl⟩⟩⟩
  have hmodel := around_model hr
  subst hmodel
  have hdocument (text : Option Text) : (documentEvents ⟨r, o⟩ text e).result = .ok () ↔
      ∀ x ∈ r.model.declaredBelow e, r.Declarable x := by
    have hsame : (documentEvents ⟨r, o⟩ text e).result =
        ((⟨r, o⟩ : Declarer).declare e).result := by
      cases text with
      | none => rfl
      | some text => exact (documentEvents_header ⟨r, o⟩ text e).1
    rw [hsame, Declarer.declare_ok ⟨r, o⟩ h.owned e]
    refine forall₂_congr fun x hx => ?_
    exact Declarer.single_ok (d := ⟨r, o⟩) h (List.mem_filter.mp hx).2
  simp only [render_ok, layoutOf_ok]
  rw [← headerOf_total hroot]
  constructor
  · rintro ⟨R, r', indent, text, hr', ⟨hindent, htext⟩, hok, -⟩
    rw [hr] at hr'
    cases hr'
    exact ⟨⟨indent, hindent⟩, ⟨text, htext⟩, r, hr, (hdocument text).mp hok⟩
  · rintro ⟨⟨indent, hindent⟩, ⟨text, htext⟩, r', hr', hall⟩
    rw [hr] at hr'
    cases hr'
    exact ⟨_, r, indent, text, hr, ⟨hindent, htext⟩, (hdocument text).mpr hall, rfl⟩

attribute [local instance] Platform.usual

theorem nestedShop_declarable :
    ∃ doc r, Document.ofJson nestedShop = .ok doc ∧ doc.model.WellKinded ∧
      Repository.around doc.model doc.root = .ok r ∧
      doc.model.declaredBelow doc.root = [3, 6] ∧ ∀ x ∈ [3, 6], r.Declarable x := by
  have h : (match Document.ofJson nestedShop with
      | .ok doc => decide (doc.model.WellKinded ∧ doc.model.declaredBelow doc.root = [3, 6]) &&
          (render doc.model {} none doc.root).result.isOk
      | .error _ => false) = true := by decide +kernel
  cases hread : Document.ofJson nestedShop with
  | error fault => simp [hread] at h
  | ok doc =>
    simp only [hread, Bool.and_eq_true, decide_eq_true_eq] at h
    obtain ⟨⟨hkinded, hdeclared⟩, hresult⟩ := h
    obtain ⟨-, -, r, hr, hall⟩ :=
      (render_result_iff hkinded {} none doc.root).mp (exists_ok hresult)
    rw [hdeclared] at hall
    exact ⟨doc, r, rfl, hkinded, hr, hdeclared, hall⟩

def markedNode (id kind name : String) (owned : List Json) (more : List (Text × Json)) : Json :=
  plainNode kind name owned ((Text.ofString "_id", .str id) :: more)

def referenceTo (id : String) : Json := .obj [(Text.ofString "$ref", .str id)]

def missingParent : Json :=
  markedNode "book" "UMLClass" "Book"
    [plainNode "UMLGeneralization" "" [] [(Text.ofString "source", referenceTo "book")]] []

/-- A class with an association to a class whose name is a single letter, without any names. -/
def oneLetterType : Json :=
  markedNode "book" "UMLClass" "Book"
    [markedNode "s" "UMLClass" "S" [] [],
     plainNode "UMLAssociation" "" []
      [(Text.ofString "end1", plainNode "UMLAssociationEnd" "" []
        [(Text.ofString "reference", referenceTo "book")]),
       (Text.ofString "end2", plainNode "UMLAssociationEnd" "" []
        [(Text.ofString "reference", referenceTo "s")])]] []

def wellKindedFault? [Platform] (j : Json) : Option ModelFault :=
  match Document.ofJson j with
  | .error _ => none
  | .ok doc =>
    if doc.model.WellKinded then
      match (render doc.model {} none doc.root).result with
      | .error (.model fault) => some fault
      | _ => none
    else none

theorem wellKindedFault_some [Platform] {j : Json} {fault : ModelFault}
    (h : wellKindedFault? j = some fault) :
    ∃ doc, Document.ofJson j = .ok doc ∧ doc.model.WellKinded ∧ doc.model.Nested ∧
      (render doc.model {} none doc.root).result = .error (.model fault) := by
  unfold wellKindedFault? at h
  split at h
  · cases h
  rename_i doc hread
  split at h
  · rename_i hkinded
    split at h
    · rename_i hresult
      cases h
      exact ⟨doc, hread, hkinded, Document.nested_of_ofJson hread, hresult⟩
    · cases h
  · cases h

/-- A target that is missing and a name that has no singular both stop the rendering of a document
that is a tree of well-kinded elements. -/
theorem missing_target_and_name_fault :
    (∃ doc, Document.ofJson missingParent = .ok doc ∧ doc.model.WellKinded ∧ doc.model.Nested ∧
      (render doc.model {} none doc.root).result = .error (.model (.lacks .absent .name))) ∧
    (∃ doc, Document.ofJson oneLetterType = .ok doc ∧ doc.model.WellKinded ∧ doc.model.Nested ∧
      (render doc.model {} none doc.root).result = .error (.model .emptyName)) := by
  constructor
  · exact wellKindedFault_some (by decide +kernel)
  · exact wellKindedFault_some (by decide +kernel)

end UmlSchema
