import UmlSchema.Platform.Usual
import UmlSchema.Proofs.FieldNames
import UmlSchema.Proofs.Splitting
import UmlSchema.Proofs.WellKinded
import Mathlib.Data.List.TakeWhile

/-!
# Multiplicities

A multiplicity is free text. Its trimmed form is looked up in a table of tokens in which every
numeral counts as a list, whatever its value, except for a plain 1. A second list of tokens says
which multiplicities stand for a single object when a name has to be inferred. The two agree on all
multiplicities of the table other than 0.
-/
namespace UmlSchema

namespace Text

/-- A run of decimal digits, of any script. -/
def IsNumeral (t : Text) : Prop := t ≠ [] ∧ ∀ c ∈ t, c.isDigit = true

instance (t : Text) : Decidable t.IsNumeral := inferInstanceAs (Decidable (_ ∧ _))

/-- The number that a run of digits stands for. -/
def amount (t : Text) : Nat := (t.filterMap CodePoint.digit?).foldl (fun n d => n * 10 + d) 0

theorem isNumeral_iff (t : Text) : (!t.isEmpty && t.all (·.isDigit)) = true ↔ t.IsNumeral := by
  simp [IsNumeral]

end Text

/-- A multiplicity that is given and stands for nothing. -/
def IsUnknown (multiplicity : Text) : Prop :=
  multiplicity ≠ [] ∧
    multiplicity.trim ∉ ([Text.ofString "0..1", Text.ofString "*", Text.ofString "0..*",
      Text.ofString "1..*"] : List Text) ∧
    ¬multiplicity.trim.IsNumeral

instance (multiplicity : Text) : Decidable (IsUnknown multiplicity) :=
  inferInstanceAs (Decidable (_ ∧ _ ∧ _))

namespace Cardinality

/-- The tokens of a cardinality. -/
def Row (m : Text) : Cardinality → Prop
  | optional => m = Text.ofString "0..1"
  | required => m = Text.ofString "1"
  | many => m = Text.ofString "*" ∨ m = Text.ofString "0..*"
  | someOf => m = Text.ofString "1..*" ∨ m.IsNumeral ∧ m ≠ Text.ofString "1"

instance (m : Text) : (c : Cardinality) → Decidable (Row m c)
  | optional | required => inferInstanceAs (Decidable (_ = _))
  | many => inferInstanceAs (Decidable (_ ∨ _))
  | someOf => inferInstanceAs (Decidable (_ ∨ _ ∧ _))

theorem ne_of_isNumeral {m t : Text} (hm : m.IsNumeral) (ht : ¬t.IsNumeral) : m ≠ t := by
  rintro rfl
  exact ht hm

theorem ofToken_eq_some {m : Text} {c : Cardinality} : ofToken? m = some c ↔ Row m c := by
  unfold ofToken?
  split_ifs with hoption hone hnumeral hmany hsome
  · subst hoption
    cases c <;> decide
  · subst hone
    cases c <;> decide
  · have hdigits := (Text.isNumeral_iff m).mp hnumeral
    have hstar : m ≠ Text.ofString "*" := ne_of_isNumeral hdigits (by decide)
    have hany : m ≠ Text.ofString "0..*" := ne_of_isNumeral hdigits (by decide)
    cases c <;> simp [Row, hoption, hone, hdigits, hstar, hany]
  · rcases hmany with rfl | rfl <;> cases c <;> decide
  · subst hsome
    cases c <;> decide
  · have hdigits : ¬m.IsNumeral := mt (Text.isNumeral_iff m).mpr hnumeral
    obtain ⟨hany, hstar⟩ := not_or.mp hmany
    cases c <;> simp [Row, hoption, hone, hdigits, hstar, hany, hsome]

theorem ofMultiplicity_eq_some {m : Text} {c : Cardinality} :
    ofMultiplicity? m = some c ↔ (m = [] ∧ c = optional) ∨ Row m.trim c := by
  unfold ofMultiplicity?
  cases m with
  | nil => cases c <;> decide
  | cons x xs => simp [ofToken_eq_some]

theorem ofMultiplicity_eq_none {m : Text} : ofMultiplicity? m = none ↔ IsUnknown m := by
  rw [Option.eq_none_iff_forall_ne_some]
  simp only [ne_eq, ofMultiplicity_eq_some, not_or, not_and]
  unfold IsUnknown
  simp only [List.mem_cons, List.not_mem_nil, or_false, not_or]
  constructor
  · intro h
    have hmany := (h many).2
    have hsome := (h someOf).2
    simp only [Row, not_or, not_and] at hmany hsome
    refine ⟨fun hm => (h optional).1 hm rfl, ⟨(h optional).2, hmany.1, hmany.2, hsome.1⟩, ?_⟩
    intro hnumeral
    exact (h required).2 (not_not.mp (hsome.2 hnumeral))
  · rintro ⟨hm, ⟨hoption, hstar, hany, hsome⟩, hnumeral⟩ c
    refine ⟨fun hnil => absurd hnil hm, ?_⟩
    cases c with
    | optional => exact hoption
    | required =>
      intro hone
      rw [Row] at hone
      exact hnumeral (hone ▸ by decide)
    | many => exact not_or.mpr ⟨hstar, hany⟩
    | someOf => exact not_or.mpr ⟨hsome, fun h => hnumeral h.1⟩

theorem decorate_injective (typeName : Text) : Function.Injective (decorate typeName) := by
  intro c c' h
  have hlength := congrArg List.length h
  cases c <;> cases c' <;> simp [decorate, Text.ofString] at hlength ⊢ <;> omega

end Cardinality

open Emission

variable {typeName m : Text} {s : Shown} {c : Cardinality}

theorem typeExpr_known (reporting : Reporting) (h : Cardinality.ofMultiplicity? m = some c) :
    typeExpr reporting typeName m s = pure (c.decorate typeName) := by
  rw [typeExpr, h]

theorem typeExpr_unknown (h : IsUnknown m) : typeExpr .collected typeName m s =
    ⟨[.warn ⟨.unknownMultiplicity, unknownMultiplicity m typeName, s⟩], .ok typeName⟩ := by
  rw [typeExpr, Cardinality.ofMultiplicity_eq_none.mpr h]
  rfl

theorem typeExpr_eq_pure : typeExpr .collected typeName m s = pure (c.decorate typeName) ↔
    Cardinality.ofMultiplicity? m = some c := by
  constructor
  · intro h
    cases hrow : Cardinality.ofMultiplicity? m with
    | none =>
      rw [typeExpr_unknown (Cardinality.ofMultiplicity_eq_none.mp hrow)] at h
      cases congrArg Emission.events h
    | some c' =>
      rw [typeExpr_known _ hrow] at h
      have hresult := Except.ok.inj (congrArg Emission.result h)
      rw [Cardinality.decorate_injective typeName hresult]
  · exact typeExpr_known _

theorem typeExpr_eq_warn : typeExpr .collected typeName m s =
    ⟨[.warn ⟨.unknownMultiplicity, unknownMultiplicity m typeName, s⟩], .ok typeName⟩ ↔
      IsUnknown m := by
  refine ⟨fun h => ?_, typeExpr_unknown⟩
  rw [← Cardinality.ofMultiplicity_eq_none, Option.eq_none_iff_forall_ne_some]
  intro c hc
  rw [typeExpr_known _ hc] at h
  cases congrArg Emission.events h

/-- The type expression for every token. A numeral counts as a list if its value is greater than
one, and also if it is a zero or a one that is not written as a plain 1. What has no row in the
table leaves the type name alone with one warning. -/
theorem cardinality_of_token (typeName : Text) (multiplicity : Option Text) (element : Shown) :
    let m := multiplicity.getD []
    let expr := typeExpr .collected typeName m element
    (expr = pure typeName ↔ m = [] ∨ m.trim = Text.ofString "0..1") ∧
    (expr = pure (typeName ++ Text.ofString "!") ↔ m.trim = Text.ofString "1") ∧
    (expr = pure (Text.ofString "[" ++ typeName ++ Text.ofString "!]") ↔
      m.trim = Text.ofString "1..*" ∨ (m.trim.IsNumeral ∧ 1 < m.trim.amount) ∨
        m.trim.IsNumeral ∧ m.trim.amount ≤ 1 ∧ m.trim ≠ Text.ofString "1") ∧
    (expr = pure (Text.ofString "[" ++ typeName ++ Text.ofString "]") ↔
      m.trim = Text.ofString "*" ∨ m.trim = Text.ofString "0..*") ∧
    (expr = ⟨[.warn ⟨.unknownMultiplicity, unknownMultiplicity m typeName, element⟩],
        .ok typeName⟩ ↔
      ¬(m = [] ∨ m.trim = Text.ofString "0..1" ∨ m.trim = Text.ofString "*" ∨
        m.trim = Text.ofString "0..*" ∨ m.trim = Text.ofString "1..*" ∨ m.trim.IsNumeral)) := by
  intro m expr
  have hrow (c : Cardinality) : expr = pure (c.decorate typeName) ↔
      (m = [] ∧ c = .optional) ∨ Cardinality.Row m.trim c :=
    typeExpr_eq_pure.trans Cardinality.ofMultiplicity_eq_some
  have hone : 1 < m.trim.amount → m.trim ≠ Text.ofString "1" := by
    intro hgreater hone
    rw [hone] at hgreater
    exact absurd hgreater (by decide)
  refine ⟨?_, ?_, (hrow .someOf).trans ?_, ?_, typeExpr_eq_warn.trans ?_⟩
  · simpa [Cardinality.decorate, Cardinality.Row] using hrow .optional
  · simpa [Cardinality.decorate, Cardinality.Row] using hrow .required
  · simp only [Cardinality.Row, reduceCtorEq, and_false, false_or]
    constructor
    · rintro (hsome | ⟨hnumeral, hother⟩)
      · exact .inl hsome
      · by_cases hgreater : 1 < m.trim.amount
        · exact .inr (.inl ⟨hnumeral, hgreater⟩)
        · exact .inr (.inr ⟨hnumeral, Nat.not_lt.mp hgreater, hother⟩)
    · rintro (hsome | ⟨hnumeral, hgreater⟩ | ⟨hnumeral, -, hother⟩)
      · exact .inl hsome
      · exact .inr ⟨hnumeral, hone hgreater⟩
      · exact .inr ⟨hnumeral, hother⟩
  · simpa [Cardinality.decorate, Cardinality.Row] using hrow .many
  · simp [IsUnknown, and_assoc]

/-- A zero, and a one with a zero before it, count as lists without any warning. -/
theorem zero_counts_as_list :
    (¬((Text.ofString "0").trim = Text.ofString "1..*" ∨
        (Text.ofString "0").trim.IsNumeral ∧ 1 < (Text.ofString "0").trim.amount) ∧
      typeExpr .collected (Text.ofString "Foo") (Text.ofString "0") (.ofText []) =
        pure (Text.ofString "[Foo!]")) ∧
    (¬((Text.ofString "01").trim = Text.ofString "1..*" ∨
        (Text.ofString "01").trim.IsNumeral ∧ 1 < (Text.ofString "01").trim.amount) ∧
      typeExpr .collected (Text.ofString "Foo") (Text.ofString "01") (.ofText []) =
        pure (Text.ofString "[Foo!]")) := by
  have hzero : Cardinality.ofMultiplicity? (Text.ofString "0") = some .someOf := by decide
  have hone : Cardinality.ofMultiplicity? (Text.ofString "01") = some .someOf := by decide
  exact ⟨⟨by decide, typeExpr_known _ hzero⟩, by decide, typeExpr_known _ hone⟩

def Cardinality.isList : Cardinality → Bool
  | optional | required => false
  | many | someOf => true

theorem typeExpr_result (reporting : Reporting) : (typeExpr reporting typeName m s).result =
    .ok (((Cardinality.ofMultiplicity? m).getD .optional).decorate typeName) := by
  unfold typeExpr
  cases Cardinality.ofMultiplicity? m with
  | some c => rfl
  | none => cases reporting <;> rfl

/-- The tokens of a single object are those of a type that is no list, apart from the zero. -/
theorem isSingle_eq (h : m.isBlank = true ∨ ¬IsUnknown m) (hzero : m.trim ≠ Text.ofString "0") :
    isSingle m = !((Cardinality.ofMultiplicity? m).getD .optional).isList := by
  by_cases hblank : m.isBlank = true
  · have htrim := Text.trim_of_blank hblank
    have hrow : (Cardinality.ofMultiplicity? m).getD .optional = .optional := by
      cases m with
      | nil => rfl
      | cons x xs => simp [Cardinality.ofMultiplicity?, htrim, Cardinality.ofToken?, Text.ofString]
    rw [hrow, isSingle, htrim]
    rfl
  · obtain ⟨c, hc⟩ : ∃ c, Cardinality.ofMultiplicity? m = some c := by
      rw [← Option.ne_none_iff_exists', ne_eq, Cardinality.ofMultiplicity_eq_none]
      exact h.resolve_left hblank
    have hrow : Cardinality.Row m.trim c := by
      refine (Cardinality.ofMultiplicity_eq_some.mp hc).resolve_left ?_
      rintro ⟨rfl, -⟩
      exact hblank rfl
    rw [hc, Option.getD_some]
    unfold isSingle
    generalize m.trim = token at hrow hzero
    cases c with
    | optional | required =>
      obtain rfl := hrow
      rfl
    | many => rcases hrow with rfl | rfl <;> rfl
    | someOf =>
      rcases hrow with rfl | ⟨hnumeral, hone⟩
      · rfl
      · have hoption : token ≠ Text.ofString "0..1" :=
          Cardinality.ne_of_isNumeral hnumeral (by decide)
        simp [hnumeral.1, hzero, hone, hoption, Cardinality.isList]

namespace Model

variable {m : Model} {e : ElementId} {typeName : Text} {multiplicity : Option Text}

/-- An association end of a multiplicity, which may be left out, refers to a type by its name. -/
structure RefersTo (m : Model) (e : ElementId) (typeName : Text) (multiplicity : Option Text) :
    Prop where
  kind : (m.element e).kind = .associationEnd
  reference : ∃ t, (m.element e).get? .reference = some (.ref t) ∧
    (m.element t).name = .text typeName
  named : typeName ≠ []
  multiplicity : (m.element e).get? .multiplicity = some (multiplicity.elim .absent .text)

/-- Neither an end nor its association, if it has one, has a name. -/
structure IsAnonymous (m : Model) (e : ElementId) : Prop where
  own : (m.element e).name.isTrue = false
  association : (m.element e).parent = .absent ∨
    ∃ a, (m.element e).parent = .ref a ∧ (m.element a).name.isTrue = false

theorem RefersTo.describesEnd (h : m.RefersTo e typeName multiplicity) (hend : m.IsAnonymous e) :
    m.DescribesEnd e [] typeName multiplicity := by
  obtain ⟨t, ht, hname⟩ := h.reference
  exact ⟨.inl ⟨rfl, hend.association⟩, ⟨.ref t, ht, .inr ⟨h.named, t, rfl, hname⟩⟩, h.multiplicity⟩

theorem RefersTo.fieldName (h : m.RefersTo e typeName multiplicity) (hend : m.IsAnonymous e) :
    m.fieldName (.ref e) = (inferredName typeName (multiplicity.getD [])).map .text := by
  have hinferred := (h.describesEnd hend).endName_inferred h.named
  have hown : m.read (.ref e) .name = .ok (m.element e).name := rfl
  simp [Model.fieldName, hown, except_ok_bind, hend.own, h.kind, hinferred]

theorem RefersTo.baseTypeName [Platform] (h : m.RefersTo e typeName multiplicity) :
    m.baseTypeName e = .ofText typeName := by
  obtain ⟨t, ht, hname⟩ := h.reference
  simp [Model.baseTypeName, h.kind, ht, elementTypeName, hname, isTrue_text h.named, shownName,
    shownValue, Shown.ofText]

theorem RefersTo.typeOf [Platform] (h : m.RefersTo e typeName multiplicity)
    (reporting : Reporting) :
    (m.typeOf reporting e).result = .ok (.ofText
      (((Cardinality.ofMultiplicity? (multiplicity.getD [])).getD .optional).decorate
        typeName)) := by
  refine bind_ok.mpr ⟨multiplicity.getD [], ?_, bind_ok.mpr ⟨_, typeExpr_result reporting, ?_⟩⟩
  · rw [h.multiplicity]
    exact textOrEmpty_elim multiplicity .trimming
  · rw [h.baseTypeName]
    refine congrArg Except.ok ?_
    split
    next hsame => exact congrArg Shown.ofText hsame.symm
    next => rfl

/-- An inferred name is a plural where the type is a list, and a singular where it is none. -/
theorem inferred_name_matches_type [Platform] (reporting : Reporting)
    (h : m.RefersTo e typeName multiplicity) (hend : m.IsAnonymous e)
    (haccepted : (multiplicity.getD []).isBlank = true ∨
      (typeExpr .collected typeName (multiplicity.getD []) (m.shownName e)).events = [])
    (hzero : (multiplicity.getD []).trim ≠ Text.ofString "0") :
    ∃ type, (m.typeOf reporting e).result = .ok (.ofText type) ∧
      (type = typeName ∨ type = typeName ++ Text.ofString "!" ∨
        type = Text.ofString "[" ++ typeName ++ Text.ofString "]" ∨
        type = Text.ofString "[" ++ typeName ++ Text.ofString "!]") ∧
      (type = Text.ofString "[" ++ typeName ++ Text.ofString "]" ∨
          type = Text.ofString "[" ++ typeName ++ Text.ofString "!]" →
        ∀ c cs, pluralize typeName = c :: cs →
          m.fieldName (.ref e) = .ok (.text (c.lower ++ cs))) ∧
      (type = typeName ∨ type = typeName ++ Text.ofString "!" →
        ∀ c cs, singularize typeName = c :: cs →
          m.fieldName (.ref e) = .ok (.text (c.lower ++ cs))) := by
  have hknown : (multiplicity.getD []).isBlank = true ∨ ¬IsUnknown (multiplicity.getD []) := by
    refine haccepted.imp_right fun hsilent hunknown => ?_
    rw [typeExpr_unknown hunknown] at hsilent
    cases hsilent
  have hsingle := isSingle_eq hknown hzero
  have hinjective := Cardinality.decorate_injective typeName
  refine ⟨_, h.typeOf reporting, ?_⟩
  generalize (Cardinality.ofMultiplicity? (multiplicity.getD [])).getD .optional = cardinality
    at hsingle
  refine ⟨?_, ?_, ?_⟩
  · cases cardinality <;> simp [Cardinality.decorate]
  · intro hlist c cs hplural
    have hcases : cardinality = .many ∨ cardinality = .someOf :=
      hlist.imp (fun h => hinjective h) (fun h => hinjective h)
    have hmany : isSingle (multiplicity.getD []) = false := by
      rcases hcases with rfl | rfl <;> exact hsingle
    rw [h.fieldName hend, inferredName, hmany, if_neg Bool.false_ne_true, hplural]
    rfl
  · intro hplain c cs hsingular
    have hcases : cardinality = .optional ∨ cardinality = .required :=
      hplain.imp (fun h => hinjective h) (fun h => hinjective h)
    have hone : isSingle (multiplicity.getD []) = true := by
      rcases hcases with rfl | rfl <;> exact hsingle
    rw [h.fieldName hend, inferredName, hone, if_pos rfl, hsingular]
    rfl

end Model

/-- An association of shops and categories without a name, and without names of its ends. -/
def unnamedEnds : Model where
  elements := #[.given .project [(.name, .text "Mall"), (.owned, .refs [1, 2, 3])],
    .given .klass [(.name, .text "Category"), (.parent, .ref 0)],
    .given .klass [(.name, .text "Shops"), (.parent, .ref 0)],
    .given .association [(.end1, .ref 4), (.end2, .ref 5), (.parent, .ref 0)],
    .given .associationEnd [(.reference, .ref 1), (.multiplicity, .text " 2 "),
      (.parent, .ref 3)],
    .given .associationEnd [(.reference, .ref 2), (.multiplicity, .absent), (.parent, .ref 3)]]

attribute [local instance] Platform.usual

theorem unnamedEnds_names_and_types :
    (unnamedEnds.typeOf .collected 4).result = .ok (.ofText (Text.ofString "[Category!]")) ∧
    unnamedEnds.fieldName (.ref 4) = .ok (.text (Text.ofString "categories")) ∧
    (unnamedEnds.typeOf .collected 5).result = .ok (.ofText (Text.ofString "Shops")) ∧
    unnamedEnds.fieldName (.ref 5) = .ok (.text (Text.ofString "shop")) := by
  have hcategory :
      unnamedEnds.RefersTo 4 (Text.ofString "Category") (some (Text.ofString " 2 ")) :=
    ⟨rfl, ⟨1, rfl, rfl⟩, by decide, rfl⟩
  have hshop : unnamedEnds.RefersTo 5 (Text.ofString "Shops") none :=
    ⟨rfl, ⟨2, rfl, rfl⟩, by decide, rfl⟩
  obtain ⟨type, htype, -, hlist, -⟩ := Model.inferred_name_matches_type .collected hcategory
    ⟨rfl, .inr ⟨3, rfl, rfl⟩⟩ (.inr (by decide)) (by decide)
  obtain ⟨type', htype', -, -, hsingle⟩ := Model.inferred_name_matches_type .collected hshop
    ⟨rfl, .inr ⟨3, rfl, rfl⟩⟩ (.inl rfl) (by decide)
  have hcategories : (unnamedEnds.typeOf .collected 4).result =
      .ok (.ofText (Text.ofString "[Category!]")) := by decide
  have hshops : (unnamedEnds.typeOf .collected 5).result =
      .ok (.ofText (Text.ofString "Shops")) := by decide
  rw [hcategories] at htype
  rw [hshops] at htype'
  cases htype
  cases htype'
  have hplural : pluralize (Text.ofString "Category") =
      .scalar 'C' :: Text.ofString "ategories" := by
    decide +kernel
  have hsingular : singularize (Text.ofString "Shops") = .scalar 'S' :: Text.ofString "hop" := by
    decide +kernel
  exact ⟨hcategories, hlist (.inr rfl) _ _ hplural, hshops, hsingle (.inl rfl) _ _ hsingular⟩

end UmlSchema
