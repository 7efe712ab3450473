import UmlSchema.Proofs.Alike
import UmlSchema.Proofs.ClassChain
import UmlSchema.Proofs.Preview

/-!
# Declarers that mirror each other

A declarer asks its repository two things: where relationships lead from an element, and which
fields the element writes. Another declarer that gets the same answers writes the same document.
Only the log may differ. Answers are compared for elements alone, because a run that asks about
anything else does not end well.
-/
namespace UmlSchema

open Emission

def Event.isLog : Event → Bool
  | log _ => true
  | _ => false

def unlogged (events : List Event) : List Event := events.filter (!·.isLog)

theorem unlogged_append (a b : List Event) : unlogged (a ++ b) = unlogged a ++ unlogged b :=
  List.filter_append a b

theorem placedLines_unlogged (n : Nat) (events : List Event) :
    placedLines n (unlogged events) = placedLines n events := by
  induction events generalizing n with
  | nil => rfl
  | cons v events ih =>
    cases v with
    | line c => exact congrArg (PlacedLine.mk n c :: ·) (ih n)
    | indent => exact ih (n + 1)
    | outdent => exact ih (n - 1)
    | warn _ | log _ => exact ih n

theorem warningsOf_unlogged (events : List Event) :
    warningsOf (unlogged events) = warningsOf events := by
  induction events with
  | nil => rfl
  | cons v events ih =>
    cases v with
    | warn w => exact congrArg (w :: ·) ih
    | line _ | indent | outdent | log _ => exact ih

theorem renderingOf_congr (indent : Text) {a b : List Event} (h : unlogged a = unlogged b) :
    renderingOf indent a = renderingOf indent b := by
  rw [renderingOf, renderingOf, ← placedLines_unlogged 0 a, ← placedLines_unlogged 0 b,
    ← warningsOf_unlogged a, ← warningsOf_unlogged b, h]

namespace Emission

variable {α β : Type}

/-- If the first emission ends well, the second one ends with the same result and with the same
events apart from the log. -/
def Reproduced (x y : Emission α) : Prop :=
  ∀ a, x.result = .ok a → y.result = .ok a ∧ unlogged y.events = unlogged x.events

namespace Reproduced

theorem refl (x : Emission α) : Reproduced x x := fun _ h => ⟨h, rfl⟩

theorem of_eq {x y : Emission α} (h : y = x) : Reproduced x y := h ▸ refl x

theorem lift {x y : Except ModelFault α} (h : ∀ a, x = .ok a → y = .ok a) :
    Reproduced (liftM x) (liftM y) := fun a hx => ⟨h a hx, rfl⟩

theorem debug (source source' : LogSource) (message message' : Text) :
    Reproduced (Emission.debug source message) (Emission.debug source' message') :=
  fun _ h => ⟨h, rfl⟩

theorem bind {x y : Emission α} {f g : α → Emission β} (hx : Reproduced x y)
    (hf : ∀ a, x.result = .ok a → Reproduced (f a) (g a)) :
    Reproduced (x >>= f) (y >>= g) := by
  intro b hb
  obtain ⟨a, ha, hb⟩ := bind_ok.mp hb
  obtain ⟨hya, hevents⟩ := hx a ha
  obtain ⟨hgb, hrest⟩ := hf a ha b hb
  refine ⟨bind_ok.mpr ⟨a, hya, hgb⟩, ?_⟩
  rw [bind_events ha, bind_events hya, unlogged_append, unlogged_append, hevents, hrest]

theorem after (x : Emission α) {f g : α → Emission β} (hf : ∀ a, Reproduced (f a) (g a)) :
    Reproduced (x >>= f) (x >>= g) :=
  (refl x).bind fun a _ => hf a

theorem guarded {c c' : Prop} [Decidable c] [Decidable c'] {x y : Emission Unit}
    {f g : Unit → Emission β} (hc : c ↔ c') (hx : Reproduced x y)
    (hf : ∀ u, Reproduced (f u) (g u)) :
    Reproduced (if c then x >>= f else f ()) (if c' then y >>= g else g ()) := by
  by_cases h : c
  · rw [if_pos h, if_pos (hc.mp h)]
    exact hx.bind fun u _ => hf u
  · rw [if_neg h, if_neg (mt hc.mpr h)]
    exact hf ()

theorem logged {c c' : Prop} [Decidable c] [Decidable c'] {source source' : LogSource}
    {message message' : Text} {f g : Unit → Emission β} (hf : ∀ u, Reproduced (f u) (g u)) :
    Reproduced (if c then Emission.debug source message >>= f else f ())
      (if c' then Emission.debug source' message' >>= g else g ()) := by
  have hleft : Reproduced (if c then Emission.debug source message >>= f else f ()) (f ()) := by
    split
    · exact fun b hb => ⟨hb, rfl⟩
    · exact refl _
  have hright : Reproduced (g ())
      (if c' then Emission.debug source' message' >>= g else g ()) := by
    split
    · exact fun b hb => ⟨hb, rfl⟩
    · exact refl _
  intro b hb
  obtain ⟨hf₁, hevents₁⟩ := hleft b hb
  obtain ⟨hg, hevents₂⟩ := hf () b hf₁
  obtain ⟨hb', hevents₃⟩ := hright b hg
  exact ⟨hb', hevents₃.trans (hevents₂.trans hevents₁)⟩

theorem each {xs : List α} {f g : α → Emission Unit} (hf : ∀ x, Reproduced (f x) (g x)) :
    Reproduced (Emission.each xs f) (Emission.each xs g) := by
  induction xs with
  | nil => exact refl _
  | cons x xs ih => exact (hf x).bind fun _ _ => ih

theorem collect {xs : List α} {f g : α → Emission β} (hf : ∀ x, Reproduced (f x) (g x)) :
    Reproduced (Emission.collect xs f) (Emission.collect xs g) := by
  induction xs with
  | nil => exact refl _
  | cons x xs ih => exact (hf x).bind fun _ _ => ih.bind fun _ _ => refl _

end Reproduced

def Silent (x : Emission Unit) : Prop := x.result = .ok () ∧ unlogged x.events = []

theorem Silent.reproduced {x y : Emission Unit} (hx : Silent x) (hy : Silent y) :
    Reproduced x y := fun _ _ => ⟨hy.1, hy.2.trans hx.2.symm⟩

end Emission

theorem Declarer.trace_silent (d : Declarer) (what : String) (e : ElementId) :
    Silent (d.trace what e) := by
  unfold trace
  split <;> exact ⟨rfl, rfl⟩

theorem Declarer.traceNothing_silent (d : Declarer) (what : Text) :
    Silent (d.traceNothing what) := by
  unfold traceNothing
  split <;> exact ⟨rfl, rfl⟩

def Kind.followed : List Kind := [.generalization, .interfaceRealization, .dependency]

namespace Repository

/-- The second repository answers about elements as the first one does. -/
structure Mirrors [Platform] (r r' : Repository) : Prop where
  alike : r.model.Alike r'.model
  targets : ∀ k ∈ Kind.followed, ∀ x ws,
    r.targets k (.ref x) = .ok ws → r'.targets k (.ref x) = .ok ws
  ownWrites : ∀ x, Reproduced (r.ownWrites (.ref x)) (r'.ownWrites (.ref x))

variable {r r' : Repository}

theorem not_list_of_ref {v : Value} (h : ∃ e, v = .ref e) : r.model.shape v ≠ .list := by
  obtain ⟨e, rfl⟩ := h
  simp [Model.shape]

theorem refs_of_writesOf [Platform] {order : List Value} {ws : List FieldWrite}
    (h : (r.writesOf order).result = .ok ws) : ∀ v ∈ order, ∃ e, v = .ref e := by
  intro v hv
  obtain ⟨parts, hparts, -⟩ := writesOf_ok.mp h
  obtain ⟨own, -, hown⟩ := forall₂_mem_left hparts hv
  exact ref_of_ownWrites hown

namespace Mirrors

variable [Platform]

theorem superClasses (h : r.Mirrors r') {v : Value} (hv : ∃ e, v = .ref e) {ws : List Value}
    (hws : r.superClasses v = .ok ws) : r'.superClasses v = .ok ws := by
  obtain ⟨e, rfl⟩ := hv
  exact h.targets .generalization (by decide) e ws hws

theorem walk (h : r.Mirrors r') {met vs met' order : List Value}
    (hwalk : r.Walk met vs met' order) (hrefs : ∀ v ∈ order, ∃ e, v = .ref e) :
    r'.Walk met vs met' order := by
  induction hwalk with
  | nil met => exact .nil met
  | again hv _ ih => exact .again hv (ih hrefs)
  | enter hv hparents _ _ ih₁ ih₂ =>
    obtain ⟨habove, hrest⟩ := List.forall_mem_append.mp hrefs
    obtain ⟨hself, hrest⟩ := List.forall_mem_cons.mp hrest
    exact .enter hv (h.superClasses hself hparents) (ih₁ habove) (ih₂ hrest)

theorem chain (h : r.Mirrors r') {met chain : List Value} {v : Value}
    (hchain : r.Chain met v chain) (hrefs : ∀ v ∈ chain, ∃ e, v = .ref e) :
    r'.Chain met v chain := by
  induction hchain with
  | again hv => exact .again hv
  | top hv hparents => exact .top hv (h.superClasses (hrefs _ (by simp)) hparents)
  | step hv hparents _ ih =>
    obtain ⟨habove, hself⟩ := List.forall_mem_append.mp hrefs
    exact .step hv (h.superClasses (hself _ (by simp)) hparents) (ih habove)

theorem ownWrites_value (h : r.Mirrors r') (v : Value) :
    Reproduced (r.ownWrites v) (r'.ownWrites v) := by
  intro ws hws
  obtain ⟨e, rfl⟩ := ref_of_ownWrites hws
  exact h.ownWrites e ws hws

theorem writesOf (h : r.Mirrors r') (order : List Value) :
    Reproduced (r.writesOf order) (r'.writesOf order) :=
  (Reproduced.collect h.ownWrites_value).bind fun _ _ => .refl _

theorem interfaceWrites (h : r.Mirrors r') (v : Value) :
    Reproduced (r.interfaceWrites v) (r'.interfaceWrites v) := by
  intro ws hws
  obtain ⟨met, order, hwalk, horder, hown⟩ := interfaceWrites_ok.mp hws
  have hrefs := refs_of_writesOf hown
  have horder' : r'.interfaceOrder v = .ok order :=
    interfaceOrder_of_walk (h.walk hwalk hrefs) fun x hx => not_list_of_ref (hrefs x hx)
  have hleft : r.interfaceWrites v = r.writesOf order := by
    rw [Repository.interfaceWrites, horder, lift_ok_bind]
  have hright : r'.interfaceWrites v = r'.writesOf order := by
    rw [Repository.interfaceWrites, horder', lift_ok_bind]
  rw [hleft, hright]
  exact h.writesOf order ws hown

theorem classWrites (h : r.Mirrors r') (c : ElementId) :
    Reproduced (r.classWrites (.ref c)) (r'.classWrites (.ref c)) := by
  intro ws hws
  obtain ⟨interfaces, -, chain, last, hi, -, hchain, hlast, -⟩ := classWrites_ok.mp hws
  have hrefs := refs_of_writesOf hlast
  have hspec := classChain_chain hchain fun x hx => not_list_of_ref (hrefs x hx)
  have hchain' : r'.classChain (.ref c) = .ok chain :=
    classChain_of_chain (h.chain hspec hrefs) fun x hx => not_list_of_ref (hrefs x hx)
  have hi' : r'.superInterfaces (.ref c) = .ok interfaces :=
    h.targets .interfaceRealization (by decide) c interfaces hi
  have hsteps : Reproduced
      (do let parts ← collect interfaces r.interfaceWrites
          let last ← r.writesOf chain
          return parts.flatten ++ last)
      (do let parts ← collect interfaces r'.interfaceWrites
          let last ← r'.writesOf chain
          return parts.flatten ++ last) :=
    (Reproduced.collect h.interfaceWrites).bind fun _ _ => (h.writesOf chain).bind fun _ _ =>
      .refl _
  simp only [Repository.classWrites, hi, hchain, lift_ok_bind] at hws
  simp only [Repository.classWrites, hi, hchain, hi', hchain', lift_ok_bind]
  exact hsteps ws hws

theorem interfaceTable (h : r.Mirrors r') (e : ElementId) :
    Reproduced (r.interfaceTable e) (r'.interfaceTable e) :=
  (h.interfaceWrites _).bind fun _ _ => .refl _

theorem classTable (h : r.Mirrors r') (e : ElementId) :
    Reproduced (r.classTable e) (r'.classTable e) :=
  (h.classWrites e).bind fun _ _ => .refl _

end Mirrors

end Repository

namespace Declarer

structure Mirrors [Platform] (d d' : Declarer) : Prop where
  repository : d.repository.Mirrors d'.repository
  idlDoc : d'.options.idlDoc = d.options.idlDoc

namespace Mirrors

variable [Platform] {d d' : Declarer}

theorem model (h : d.Mirrors d') : d.model.Alike d'.model := h.repository.alike

theorem kind (h : d.Mirrors d') (e : ElementId) : (d'.element e).kind = (d.element e).kind :=
  h.model.kind e

theorem nameOf (h : d.Mirrors d') (e : ElementId) : d'.nameOf e = d.nameOf e :=
  h.model.shownName e

theorem documentation (h : d.Mirrors d') (e : ElementId) :
    (d'.element e).documentation = (d.element e).documentation := h.model.documentation e

theorem namesOf (h : d.Mirrors d') (vs : List Value) : d'.namesOf vs = d.namesOf vs :=
  except_mapM_congr fun v _ => h.model.read v (by decide)

theorem clause (h : d.Mirrors d') (word : Text) (names : List Value) :
    d'.clause word names = d.clause word names := by
  simp only [Declarer.clause, h.model.joined]

theorem doc (h : d.Mirrors d') (t : Text) : d'.doc t = d.doc t := by
  rw [Declarer.doc, Declarer.doc, h.idlDoc]

theorem docOf (h : d.Mirrors d') (v : Value) : d'.docOf v = d.docOf v := by
  cases v with
  | text t => exact h.doc t
  | absent | flag _ | ref _ | refs _ => rfl

theorem warnInText (h : d.Mirrors d') (k : WarningKind) (message : Text) (e : ElementId) :
    d'.warnInText k message e = d.warnInText k message e := by
  simp only [Declarer.warnInText, h.nameOf, h.doc]

theorem checkName (h : d.Mirrors d') (e : ElementId) : d'.checkName e = d.checkName e := by
  simp only [Declarer.checkName, h.nameOf]

theorem fields (h : d.Mirrors d') (table : FieldTable) : d'.fields table = d.fields table := by
  simp only [Declarer.fields, h.docOf, h.model.prepended]

theorem parametersOf (h : d.Mirrors d') (e : ElementId) :
    d'.parametersOf e = d.parametersOf e := by
  simp only [Declarer.parametersOf, h.kind, h.model.members,
    h.model.read (.ref e) (f := .parameters) (by decide)]

theorem isReturn (h : d.Mirrors d') (p : Value) : d'.isReturn p = d.isReturn p := by
  simp only [Declarer.isReturn, h.model.read p (f := .direction) (by decide)]

theorem returnParameter (h : d.Mirrors d') (e : ElementId) :
    d'.returnParameter e = d.returnParameter e := by
  have hfirst (ps : List Value) : d'.firstReturn ps = d.firstReturn ps := by
    induction ps with
    | nil => rfl
    | cons p ps ih => simp only [firstReturn, h.isReturn, ih]
  simp only [Declarer.returnParameter, h.parametersOf, hfirst]

theorem operationDoc (h : d.Mirrors d') (e : ElementId) (inputs : List ElementId)
    (result : Option ElementId) :
    d'.operationDoc e inputs result = d.operationDoc e inputs result := by
  have hdocumented (word : Text) (p : ElementId) : d'.documented word p = d.documented word p := by
    have hshown : d'.model.shownValue p .documentation (d.element p).documentation =
        d.model.shownValue p .documentation (d.element p).documentation :=
      h.model.shown p .documentation _ rfl rfl
    simp only [documented, h.documentation, hshown]
  simp only [Declarer.operationDoc, h.documentation, h.nameOf, h.model.textOrEmpty, hdocumented,
    funext (hdocumented "\nreturn: ")]

theorem operation (h : d.Mirrors d') (v : Value) : d'.operation v = d.operation v := by
  have hterm (p : ElementId) : d'.parameterTerm p = d.parameterTerm p := by
    simp only [parameterTerm, h.model.typeOf, h.model.defaultClause, h.nameOf,
      h.model.read (.ref p) (f := .defaultValue) (by decide)]
  have hresult (p : Option ElementId) : d'.resultClause p = d.resultClause p := by
    cases p with
    | none => rfl
    | some p => simp only [resultClause, h.model.typeOf, h.model.appended]
  have hname := h.model.shownField v (f := .name) (by decide) rfl
  cases v with
  | ref e =>
    simp only [Declarer.operation, hname, inputParameters, h.parametersOf, h.isReturn,
      h.returnParameter, h.operationDoc, h.doc, h.model.directives, hresult, funext hterm]
  | absent | flag _ | text _ | refs _ => simp only [Declarer.operation, hname]

theorem operations (h : d.Mirrors d') (e : ElementId) : d'.operations e = d.operations e := by
  simp only [Declarer.operations, h.operation, h.model.members,
    h.model.read (.ref e) (f := .operations) (by decide)]

theorem literal (h : d.Mirrors d') (v : Value) : d'.literal v = d.literal v := by
  simp only [Declarer.literal, h.model.textOrEmpty, h.model.appended,
    h.model.read v (f := .documentation) (by decide), h.model.read v (f := .name) (by decide)]

theorem enumeration (h : d.Mirrors d') (e : ElementId) : d'.enumeration e = d.enumeration e := by
  simp only [Declarer.enumeration, h.checkName, h.docOf, h.documentation, h.nameOf,
    h.model.members, h.model.read (.ref e) (f := .literals) (by decide), funext h.literal]

theorem scalar (h : d.Mirrors d') (e : ElementId) : d'.scalar e = d.scalar e := by
  simp only [Declarer.scalar, h.checkName, h.docOf, h.documentation, h.nameOf]

theorem block (h : d.Mirrors d') (title : Text) {table table' : Emission FieldTable}
    (htable : Reproduced table table') (e : ElementId) :
    Reproduced (d.block title table e) (d'.block title table' e) := by
  simp only [Declarer.block, h.fields, h.operations]
  exact .after _ fun _ => .after _ fun _ => .after _ fun _ => htable.bind fun _ _ => .refl _

theorem interface (h : d.Mirrors d') (e : ElementId) :
    Reproduced (d.interface e) (d'.interface e) := by
  simp only [Declarer.interface, h.checkName, h.docOf, h.documentation, h.namesOf, h.clause,
    h.model.joined]
  refine .after _ fun _ => .after _ fun _ => Reproduced.bind (.lift ?_) fun parents _ =>
    .after _ fun names => .after _ fun extending => ?_
  · exact h.repository.targets .generalization (by decide) e
  · rw [show (d'.element e).name = (d.element e).name from h.model.name e]
    exact .after _ fun title => h.block _ (h.repository.interfaceTable e) e

theorem isAbstract (h : d.Mirrors d') (v : Value) : d'.isAbstract v = d.isAbstract v := by
  simp only [Declarer.isAbstract, h.model.get v (f := .isAbstract) (by decide)]

theorem nearestConcrete (h : d.Mirrors d') {n : Nat} {seen : List Value} {ignored : Bool}
    {x : ElementId} {found : Value × Bool}
    (hfound : d.nearestConcrete n seen ignored (.ref x) = .ok found) :
    d'.nearestConcrete n seen ignored (.ref x) = .ok found := by
  induction n generalizing seen ignored x with
  | zero => exact hfound
  | succ n ih =>
    rw [Declarer.nearestConcrete] at hfound ⊢
    obtain ⟨parents, hparents, hfound⟩ := except_bind_ok.mp hfound
    rw [h.repository.superClasses ⟨x, rfl⟩ hparents, except_ok_bind]
    cases parents with
    | nil => exact hfound
    | cons p others =>
      dsimp only at hfound ⊢
      rw [h.isAbstract]
      by_cases hconcrete : (!d.isAbstract p) = true
      · rw [if_pos hconcrete] at hfound ⊢
        exact hfound
      · rw [if_neg hconcrete] at hfound ⊢
        by_cases hseen : p ∈ seen
        · rw [if_pos hseen] at hfound ⊢
          exact hfound
        · rw [if_neg hseen] at hfound ⊢
          cases p with
          | ref y => exact ih hfound
          | absent | flag _ | text _ | refs _ => exact absurd rfl hconcrete

theorem extendsTarget (h : d.Mirrors d') (e : ElementId) :
    Reproduced (d.extendsTarget e) (d'.extendsTarget e) := by
  simp only [Declarer.extendsTarget, h.warnInText]
  refine Reproduced.bind (.lift ?_) fun found _ => .refl _
  rw [h.model.size]
  exact fun found hfound => h.nearestConcrete hfound

theorem ancestry (h : d.Mirrors d') (e : ElementId) :
    Reproduced (d.ancestry e) (d'.ancestry e) := by
  simp only [Declarer.ancestry, h.namesOf, h.clause]
  refine Reproduced.bind (.lift ?_) fun interfaces _ => .after _ fun names =>
    (h.extendsTarget e).bind fun parent _ => ?_
  · exact h.repository.targets .interfaceRealization (by decide) e
  · rw [h.model.read parent (f := .name) (by decide)]
    exact .refl _

theorem object (h : d.Mirrors d') (keyword : Text) (e : ElementId) :
    Reproduced (d.object keyword e) (d'.object keyword e) := by
  simp only [Declarer.object, h.checkName, h.docOf, h.documentation, h.nameOf]
  refine Reproduced.guarded Iff.rfl (.refl _) fun _ => .after _ fun _ => ?_
  have rest (ancestry : Text) := h.block
    ((if keyword = "schema" then keyword else keyword ++ " " ++ (d.nameOf e).text) ++ ancestry)
    (h.repository.classTable e) e
  by_cases htype : keyword = "type"
  · rw [if_pos htype, if_pos htype]
    exact (h.ancestry e).bind fun ancestry _ => rest ancestry
  · rw [if_neg htype, if_neg htype]
    exact .after _ rest

theorem union (h : d.Mirrors d') (e : ElementId) : Reproduced (d.union e) (d'.union e) := by
  simp only [Declarer.union, h.checkName, h.warnInText, h.nameOf, h.docOf, h.documentation,
    h.namesOf, h.model.joined, h.model.read (.ref e) (f := .operations) (by decide),
    h.model.read (.ref e) (f := .attributes) (by decide)]
  refine .after _ fun _ => Reproduced.bind (.lift ?_) fun parents _ =>
    .guarded Iff.rfl (.refl _) fun _ => Reproduced.bind (.lift ?_) fun interfaces _ =>
    .guarded Iff.rfl (.refl _) fun _ => .after _ fun operations =>
    .guarded Iff.rfl (.refl _) fun _ => .after _ fun attributes =>
    .guarded Iff.rfl (.refl _) fun _ => Reproduced.bind (.lift ?_) fun members _ =>
    .logged fun _ => .refl _
  · exact h.repository.targets .generalization (by decide) e
  · exact h.repository.targets .interfaceRealization (by decide) e
  · exact h.repository.targets .dependency (by decide) e

theorem klass (h : d.Mirrors d') (e : ElementId) : Reproduced (d.klass e) (d'.klass e) := by
  have hform : d'.formOf e = d.formOf e := by
    simp only [formOf, h.model.textOrEmpty, h.model.read (.ref e) (f := .stereotype) (by decide)]
  simp only [Declarer.klass, hform]
  refine .after _ fun form => ?_
  cases form with
  | union => exact h.union e
  | input | schema | type => exact h.object _ e

theorem single (h : d.Mirrors d') (e : ElementId) : Reproduced (d.single e) (d'.single e) := by
  have trace (what : String) : Reproduced (d.trace what e) (d'.trace what e) :=
    (d.trace_silent what e).reproduced (d'.trace_silent what e)
  unfold Declarer.single
  rw [h.kind]
  cases (d.element e).kind with
  | klass =>
    dsimp only
    rw [h.isAbstract]
    split
    · exact (trace _).bind fun _ _ => (h.klass e).bind fun _ _ => .refl _
    · exact .refl _
  | primitiveType =>
    exact (trace _).bind fun _ _ => Reproduced.bind (.of_eq (h.scalar e)) fun _ _ => .refl _
  | interface => exact (trace _).bind fun _ _ => (h.interface e).bind fun _ _ => .refl _
  | enumeration =>
    exact (trace _).bind fun _ _ => Reproduced.bind (.of_eq (h.enumeration e)) fun _ _ => .refl _
  | _ => exact (d.traceNothing_silent _).reproduced (d'.traceNothing_silent _)

theorem declareWithin (h : d.Mirrors d') (n : Nat) (v : Value) :
    Reproduced (d.declareWithin n v) (d'.declareWithin n v) := by
  induction n generalizing v with
  | zero => exact .refl _
  | succ n ih =>
    cases v with
    | ref e =>
      have hcontainer : isContainer (d'.element e) = isContainer (d.element e) := by
        rw [isContainer, isContainer, Element.isA, Element.isA, Element.isA, Element.isA, h.kind]
      have howned : (d'.element e).owned = (d.element e).owned := h.model.owned e
      simp only [Declarer.declareWithin, hcontainer, howned, h.model.members]
      split
      · exact .after _ fun _ => .each ih
      · exact h.single e
    | absent | flag _ | text _ | refs _ =>
      exact (d.traceNothing_silent _).reproduced (d'.traceNothing_silent _)

theorem declare (h : d.Mirrors d') (e : ElementId) :
    Reproduced (d.declare e) (d'.declare e) := by
  rw [Declarer.declare, Declarer.declare, h.model.size]
  exact h.declareWithin _ _

end Mirrors

end Declarer

variable [Platform]

def SameHeader (header : Option (Option Template)) (m m' : Model) : Prop :=
  ∀ template ∈ header, ∀ root, headerText template m' root = headerText template m root

theorem SameHeader.layoutOf {m m' : Model} {header : Option (Option Template)}
    (htext : SameHeader header m m') (h : m.Alike m') (o : Options) (e : ElementId) :
    UmlSchema.layoutOf m' o header e = UmlSchema.layoutOf m o header e := by
  have hof : headerOf m' e header = headerOf m e header := by
    cases header with
    | none => rfl
    | some template => simp only [headerOf, h.root, htext template rfl]
  rw [UmlSchema.layoutOf, hof, UmlSchema.layoutOf]

theorem documentEvents_mirrors {d d' : Declarer} (h : d.Mirrors d')
    (header : Option Text) (e : ElementId) :
    Reproduced (documentEvents d header e) (documentEvents d' header e) := by
  cases header with
  | none => exact h.declare e
  | some text =>
    have hheader : d'.header text = d.header text := by
      simp only [Declarer.header, h.doc]
    exact Reproduced.bind (.of_eq hheader) fun _ _ => h.declare e

end UmlSchema
