import UmlSchema.Proofs.Emission
import UmlSchema.Proofs.WellKinded
import UmlSchema.Schema.Document

/-!
# Models with the same elements

Two models have the same elements if they differ at most in what relationships lead to, and no text
that is written shows the difference. Whatever does not follow a relationship is then the same in
both, faults included.
-/
namespace UmlSchema

def Field.links : List Field := [.source, .target, .end1, .end2]

namespace Model

structure Alike (m m' : Model) : Prop where
  size : m'.size = m.size
  kind : ∀ e, (m'.element e).kind = (m.element e).kind
  field : ∀ e f, f ∉ Field.links → (m'.element e).get? f = (m.element e).get? f
  shown : ∀ e f v, f.sort = .text → (m.element e).get? f = some v →
    m'.shownValue e f v = m.shownValue e f v

namespace Alike

variable {m m' : Model}

theorem refl (m : Model) : m.Alike m :=
  ⟨rfl, fun _ => rfl, fun _ _ _ => rfl, fun _ _ _ _ _ => rfl⟩

theorem name (h : m.Alike m') (e : ElementId) : (m'.element e).name = (m.element e).name :=
  Option.some.inj (h.field e .name (by decide))

theorem documentation (h : m.Alike m') (e : ElementId) :
    (m'.element e).documentation = (m.element e).documentation :=
  Option.some.inj (h.field e .documentation (by decide))

theorem tags (h : m.Alike m') (e : ElementId) : (m'.element e).tags = (m.element e).tags :=
  Option.some.inj (h.field e .tags (by decide))

theorem owned (h : m.Alike m') (e : ElementId) : (m'.element e).owned = (m.element e).owned :=
  Option.some.inj (h.field e .owned (by decide))

theorem parent (h : m.Alike m') (e : ElementId) : (m'.element e).parent = (m.element e).parent :=
  Option.some.inj (h.field e .parent (by decide))

theorem get (h : m.Alike m') (v : Value) {f : Field} (hf : f ∉ Field.links) :
    m'.get? v f = m.get? v f := by
  cases v with
  | ref e => exact h.field e f hf
  | absent | flag _ | text _ | refs _ => rfl

theorem shape (h : m.Alike m') (v : Value) : m'.shape v = m.shape v := by
  cases v with
  | ref e => exact congrArg Shape.element (h.kind e)
  | absent | flag _ | text _ | refs _ => rfl

theorem read (h : m.Alike m') (v : Value) {f : Field} (hf : f ∉ Field.links) :
    m'.read v f = m.read v f := by
  simp only [Model.read, h.get v hf, h.shape]

theorem members (h : m.Alike m') (v : Value) : m'.members v = m.members v := by
  simp only [Model.members, h.shape]

theorem textOrEmpty (h : m.Alike m') (v : Value) (use : TextUse) :
    m'.textOrEmpty v use = m.textOrEmpty v use := by
  simp only [Model.textOrEmpty, h.shape]

theorem appended (h : m.Alike m') (v : Value) : m'.appended v = m.appended v := by
  simp only [Model.appended, h.shape]

theorem prepended (h : m.Alike m') (v : Value) : m'.prepended v = m.prepended v := by
  simp only [Model.prepended, h.shape]

theorem textsFrom (h : m.Alike m') (position : Nat) (vs : List Value) :
    m'.textsFrom position vs = m.textsFrom position vs := by
  induction vs generalizing position with
  | nil => rfl
  | cons v vs ih => cases v <;> simp only [Model.textsFrom, h.shape, ih]

theorem joined (h : m.Alike m') (mark : Text) (vs : List Value) :
    m'.joined mark vs = m.joined mark vs := by
  simp only [Model.joined, h.textsFrom]

theorem shownName (h : m.Alike m') (e : ElementId) : m'.shownName e = m.shownName e := by
  rw [Model.shownName, h.name]
  exact h.shown e .name _ rfl rfl

theorem shownField (h : m.Alike m') (v : Value) {f : Field} (hf : f ∉ Field.links)
    (htext : f.sort = .text) : m'.shown v f = m.shown v f := by
  simp only [Model.shown, h.read v hf]
  cases hx : m.read v f with
  | error fault => rw [except_error_bind, except_error_bind]
  | ok x =>
    have hget := Repository.read_ok.mp hx
    cases v with
    | ref e => exact congrArg Except.ok (h.shown e f x htext hget)
    | absent | flag _ | text _ | refs _ => cases hget

theorem directive (h : m.Alike m') {f : Field} (hf : f ∉ Field.links) (htext : f.sort = .text)
    (v : Value) : m'.directive f v = m.directive f v := by
  simp only [Model.directive, h.shownField v (f := .name) (by decide) rfl,
    h.shownField v hf htext]

theorem directives (h : m.Alike m') (e : ElementId) : m'.directives e = m.directives e := by
  have hconstraint : m'.isConstraint = m.isConstraint := by
    funext v
    rw [Model.isConstraint, Model.isConstraint, h.shape]
  have hvalue : m'.directive .value = m.directive .value :=
    funext (h.directive (by decide) rfl)
  have hspecification : m'.directive .specification = m.directive .specification :=
    funext (h.directive (by decide) rfl)
  simp only [Model.directives, h.members, h.tags, h.owned, hconstraint, hvalue, hspecification]

theorem elementTypeName [Platform] (h : m.Alike m') (v : Value) :
    m'.elementTypeName v = m.elementTypeName v := by
  cases v with
  | ref e => simp only [Model.elementTypeName, h.name, h.shownName]
  | absent | flag _ | text _ | refs _ => rfl

theorem typeOf [Platform] (h : m.Alike m') (reporting : Reporting) (e : ElementId) :
    m'.typeOf reporting e = m.typeOf reporting e := by
  have hbase : m'.baseTypeName e = m.baseTypeName e := by
    simp only [Model.baseTypeName, h.kind, h.field e .reference (by decide),
      h.field e .type (by decide), h.elementTypeName]
  simp only [Model.typeOf, hbase, h.field e .multiplicity (by decide), h.textOrEmpty, h.shownName]

theorem fieldName (h : m.Alike m') (v : Value) : m'.fieldName v = m.fieldName v := by
  have hname (w : Value) : m'.nameIfAny w = m.nameIfAny w := by
    simp only [Model.nameIfAny, h.read w (f := .name) (by decide)]
  have hend (e : ElementId) : m'.endName e = m.endName e := by
    simp only [Model.endName, hname, h.parent, h.textOrEmpty,
      h.read (.ref e) (f := .reference) (by decide),
      h.read (.ref e) (f := .multiplicity) (by decide)]
  cases v with
  | ref e => simp only [Model.fieldName, h.read (.ref e) (f := .name) (by decide), h.kind, hend]
  | absent | flag _ | text _ | refs _ =>
    simp only [Model.fieldName, h.read _ (f := .name) (by decide)]

theorem defaultClause (h : m.Alike m') (v : Value) : m'.defaultClause v = m.defaultClause v := by
  simp only [Model.defaultClause, h.appended]

theorem fieldText [Platform] (h : m.Alike m') (e : ElementId) : m'.fieldText e = m.fieldText e := by
  simp only [Model.fieldText, h.typeOf, h.appended, h.defaultClause, h.directives,
    h.field e .defaultValue (by decide)]

theorem fieldWrite [Platform] (h : m.Alike m') (v : Value) : m'.fieldWrite v = m.fieldWrite v := by
  cases v with
  | ref e => simp only [Model.fieldWrite, h.fieldName, h.fieldText, h.shape, h.documentation]
  | absent | flag _ | text _ | refs _ => simp only [Model.fieldWrite, h.fieldName]

theorem root (h : m.Alike m') (e : ElementId) : m'.root e = m.root e := by
  have climb (n : Nat) (e : ElementId) : m'.climb n e = m.climb n e := by
    induction n generalizing e with
    | zero => rfl
    | succ n ih => simp only [Model.climb, h.parent, h.shape, ih]
  rw [Model.root, Model.root, h.size, climb]

theorem walk (h : m.Alike m') (e : ElementId) : m'.walk e = m.walk e := by
  have within (n : Nat) (v : Value) : m'.walkWithin n v = m.walkWithin n v := by
    induction n generalizing v with
    | zero => rfl
    | succ n ih =>
      have hbelow : m'.walkWithin n = m.walkWithin n := funext ih
      cases v with
      | ref e => simp only [Model.walkWithin, h.members, h.owned, hbelow]
      | absent | flag _ | text _ | refs _ => simp only [Model.walkWithin, h.shape]
  rw [Model.walk, Model.walk, h.size, within]

theorem standardHeader (h : m.Alike m') (root : ElementId) :
    UmlSchema.standardHeader m' root = UmlSchema.standardHeader m root := by
  refine congrArg₂ (· ++ ·) (congrArg₂ (· ++ ·) (congrArg₂ (· ++ ·) ?_ ?_) ?_) ?_
  -- One goal for each of the four entries: the field is the same, and so is its text.
  all_goals
    dsimp only
    rw [h.field root _ (by decide)]
    split
    · rename_i v hv
      rw [h.shown root _ v rfl hv]
    · rfl

end Alike

end Model

end UmlSchema
