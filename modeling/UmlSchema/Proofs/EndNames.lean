import UmlSchema.Proofs.Multiplicity

/-!
# Names of ends without a name

The name of an association end is that of its association, or one inferred from the type that the
end refers to. Inference stops without a name on three types only: those whose name is a single
letter s, of which the singular is empty.
-/
namespace UmlSchema

/-- A multiplicity of a single object: none at all, a blank one or one of three tokens. -/
def OfSingle : Option Text → Prop
  | none => True
  | some t => t.isBlank = true ∨
    t.trim ∈ ([Text.ofString "0", Text.ofString "1", Text.ofString "0..1"] : List Text)

instance : (multiplicity : Option Text) → Decidable (OfSingle multiplicity)
  | none => inferInstanceAs (Decidable True)
  | some _ => inferInstanceAs (Decidable (_ ∨ _))

theorem isSingle_iff (multiplicity : Option Text) :
    isSingle (multiplicity.getD []) = true ↔ OfSingle multiplicity := by
  cases multiplicity with
  | none => decide
  | some t => simp [isSingle, OfSingle, Text.trim_eq_nil_iff, or_assoc]

theorem pluralize_eq_nil_iff (w : Text) : pluralize w = [] ↔ w = [] := by
  constructor
  · intro h
    by_contra hne
    exact pluralize_ne_nil hne h
  · rintro rfl
    decide

namespace Model

variable {m : Model} {e : ElementId} {association typeName : Text} {multiplicity : Option Text}

/-- A plural is never empty, and a singular only that of a letter s. An end fails to get a name
exactly if its association has none, its type is named by such a letter and it stands for a single
object. Its name is empty exactly if neither its association nor its type has one. -/
theorem end_name_fails_exactly_on_s
    (h : m.DescribesEnd e association typeName multiplicity) :
    (∀ w : Text, pluralize w = [] ↔ w = []) ∧
    (∀ w : Text, singularize w = [] ↔ w = [] ∨ w ∈ emptySingulars) ∧
    (∀ fault, m.endName e = .error fault ↔
      fault = .emptyName ∧ association = [] ∧ typeName ∈ emptySingulars ∧
        OfSingle multiplicity) ∧
    (m.endName e = .ok (.text []) ↔ association = [] ∧ typeName = []) ∧
    (¬(association = [] ∧ typeName ∈ emptySingulars ∧ OfSingle multiplicity) →
      ¬(association = [] ∧ typeName = []) →
      ∃ name, name ≠ [] ∧ m.endName e = .ok (.text name)) := by
  refine ⟨pluralize_eq_nil_iff, fun w => ?_, ?_⟩
  · rw [singularize_eq_nil_iff]
    simp [emptySingulars]
  · rw [← isSingle_iff]
    rcases h.endName_cases with ⟨hfault, hempty⟩ | ⟨hok, hnil, htype⟩ |
      ⟨⟨name, hname, hok⟩, hnil, hempty⟩
    · have hne := ne_nil_of_emptySingular hempty.2.1
      rw [hfault]
      simp [hempty, hne, eq_comm]
    · subst htype
      have hnot : [] ∉ emptySingulars := fun hmem => ne_nil_of_emptySingular hmem rfl
      rw [hok]
      simp [hnil, hnot]
    · rw [hok]
      simp [hnil, hempty, hname]

end Model

/-- Two associations without names. All their ends but the last refer to a class that is named by
a long s. -/
def endsAtLongS : Model where
  elements := #[.given .klass [(.name, .text "\u017f")],
    .given .association [(.end1, .ref 3), (.end2, .ref 4)],
    .given .association [(.name, .absent), (.end1, .ref 5), (.end2, .ref 6)],
    .given .associationEnd [(.reference, .ref 0), (.multiplicity, .text " 0..1\n"),
      (.parent, .ref 1)],
    .given .associationEnd [(.reference, .ref 0), (.multiplicity, .text "*"), (.parent, .ref 1)],
    .given .associationEnd [(.reference, .ref 0), (.multiplicity, .absent), (.parent, .ref 2)],
    .given .associationEnd [(.reference, .absent), (.multiplicity, .text "1"), (.parent, .ref 2)]]

theorem endsAtLongS_names :
    endsAtLongS.endName 3 = .error .emptyName ∧
    (∃ name, name ≠ [] ∧ endsAtLongS.endName 4 = .ok (.text name)) ∧
    endsAtLongS.endName 5 = .error .emptyName ∧
    endsAtLongS.endName 6 = .ok (.text []) := by
  have hnameless (a : ElementId) (h : (endsAtLongS.element a).name.isTrue = false) :
      endsAtLongS.Named (.ref a) [] := .inl ⟨rfl, .inr ⟨a, rfl, h⟩⟩
  have htype : endsAtLongS.Named (.ref 0) (Text.ofString "\u017f") :=
    .inr ⟨by decide, 0, rfl, rfl⟩
  have hoption : endsAtLongS.DescribesEnd 3 [] (Text.ofString "\u017f")
      (some (Text.ofString " 0..1\n")) := ⟨hnameless 1 rfl, ⟨_, rfl, htype⟩, rfl⟩
  have hmany : endsAtLongS.DescribesEnd 4 [] (Text.ofString "\u017f")
      (some (Text.ofString "*")) := ⟨hnameless 1 rfl, ⟨_, rfl, htype⟩, rfl⟩
  have habsent : endsAtLongS.DescribesEnd 5 [] (Text.ofString "\u017f") none :=
    ⟨hnameless 2 rfl, ⟨_, rfl, htype⟩, rfl⟩
  have hnothing : endsAtLongS.DescribesEnd 6 [] [] (some (Text.ofString "1")) :=
    ⟨hnameless 2 rfl, ⟨_, rfl, .inl ⟨rfl, .inl rfl⟩⟩, rfl⟩
  obtain ⟨-, -, hfault, -, -⟩ := Model.end_name_fails_exactly_on_s hoption
  obtain ⟨-, -, -, -, hname⟩ := Model.end_name_fails_exactly_on_s hmany
  obtain ⟨-, -, hfault', -, -⟩ := Model.end_name_fails_exactly_on_s habsent
  obtain ⟨-, -, -, hempty, -⟩ := Model.end_name_fails_exactly_on_s hnothing
  exact ⟨(hfault _).mpr (by decide), hname (by decide) (by decide), (hfault' _).mpr (by decide),
    hempty.mpr ⟨rfl, rfl⟩⟩

end UmlSchema
