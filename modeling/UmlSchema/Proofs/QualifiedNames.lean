import UmlSchema.Proofs.FieldNames
import UmlSchema.Proofs.WellKinded
import UmlSchema.Model.Lookup

/-!
# Qualified names

A qualified name is cut at its marks from left to right, and its parts are followed from owner to
owned element, each time to the first one of that name. So the names on such a path, joined by the
mark, lead to the end of the path, unless a name could be cut itself or runs into the mark after it.
-/
namespace UmlSchema

def nameMark : Text := "::"

/-- A text and its parts between marks. A part with one more colon has no mark in it: the mark that
ends the part is the first one of the text that is left. -/
inductive Segmented : Text → List Text → Prop where
  | last {t : Text} : ¬nameMark <:+: t → Segmented t [t]
  | cut {part rest : Text} {parts : List Text} : ¬nameMark <:+: part ++ [.scalar ':'] →
      Segmented rest parts → Segmented (part ++ nameMark ++ rest) (part :: parts)

/-- A name that stays in one piece between two marks. -/
structure PlainName (name : Text) : Prop where
  ne_nil : name ≠ []
  unmarked : ¬nameMark <:+: name
  open_end : ¬[.scalar ':'] <:+ name

theorem nameMark_infix_concat_iff {t : Text} {c : CodePoint} :
    nameMark <:+: t ++ [c] ↔ nameMark <:+: t ∨ c = .scalar ':' ∧ [.scalar ':'] <:+ t := by
  have hmark : nameMark = [.scalar ':'] ++ [.scalar ':'] := rfl
  rw [List.infix_concat_iff, List.suffix_concat_iff, or_comm]
  refine or_congr_right ⟨?_, ?_⟩
  · rintro (hnil | ⟨colon, hcolon, hend⟩)
    · cases hnil
    · obtain ⟨rfl, hlast⟩ := List.append_inj' (hmark.symm.trans hcolon) rfl
      exact ⟨(List.singleton_inj.mp hlast).symm, hend⟩
  · rintro ⟨rfl, hend⟩
    exact .inr ⟨_, hmark, hend⟩

theorem PlainName.unmarked_with_colon {name : Text} (h : PlainName name) :
    ¬nameMark <:+: name ++ [.scalar ':'] := by
  rw [nameMark_infix_concat_iff]
  rintro (hmark | ⟨-, hend⟩)
  · exact h.unmarked hmark
  · exact h.open_end hend

theorem segmented_joinWith {names : List Text} (hne : names ≠ [])
    (hplain : ∀ n ∈ names, PlainName n) : Segmented (Text.joinWith nameMark names) names := by
  induction names with
  | nil => exact absurd rfl hne
  | cons n names ih =>
    have hn := hplain n List.mem_cons_self
    cases names with
    | nil =>
      rw [Text.joinWith, List.intercalate_singleton]
      exact .last hn.unmarked
    | cons n' names =>
      rw [Text.joinWith, List.intercalate_cons_cons]
      refine .cut hn.unmarked_with_colon (ih (List.cons_ne_nil _ _) ?_)
      exact fun k hk => hplain k (List.mem_cons_of_mem _ hk)

namespace qualifiedParts

theorem segments_mark (current rest : Text) :
    segments current (nameMark ++ rest) = current.reverse :: segments [] rest := rfl

theorem segments_cons (current : Text) {c : CodePoint} {rest : Text}
    (h : ¬nameMark <+: c :: rest) : segments current (c :: rest) = segments (c :: current) rest := by
  rw [segments]
  rintro tail rfl rfl
  exact h ⟨tail, rfl⟩

theorem segments_of_unmarked (current : Text) {t : Text} (h : ¬nameMark <:+: t) :
    segments current t = [current.reverse ++ t] := by
  induction t generalizing current with
  | nil => simp [segments]
  | cons c t ih =>
    obtain ⟨hstart, hrest⟩ := not_or.mp (List.infix_cons_iff.not.mp h)
    rw [segments_cons current hstart, ih _ hrest, List.reverse_cons, List.append_assoc]
    rfl

theorem segments_of_part (current : Text) {part : Text} (rest : Text)
    (h : ¬nameMark <:+: part ++ [.scalar ':']) :
    segments current (part ++ nameMark ++ rest) =
      (current.reverse ++ part) :: segments [] rest := by
  induction part generalizing current with
  | nil => rw [List.nil_append, segments_mark, List.append_nil]
  | cons c part ih =>
    obtain ⟨hstart, hrest⟩ := not_or.mp (List.infix_cons_iff.not.mp h)
    -- Whether a mark starts here does not depend on what comes after the first colon.
    have hstart' : ¬nameMark <+: c :: (part ++ nameMark ++ rest) := by
      cases part with
      | nil => simpa [nameMark, Text.ofString] using hstart
      | cons d part => simpa [nameMark, Text.ofString] using hstart
    rw [List.cons_append, List.cons_append, segments_cons current hstart', ih _ hrest,
      List.reverse_cons, List.append_assoc]
    rfl

end qualifiedParts

open qualifiedParts (segments)

theorem Segmented.segments_eq {t : Text} {parts : List Text} (h : Segmented t parts) :
    segments [] t = parts := by
  induction h with
  | last hmark => exact qualifiedParts.segments_of_unmarked [] hmark
  | cut hpart _ ih => rw [qualifiedParts.segments_of_part [] _ hpart, ih, List.reverse_nil,
      List.nil_append]

theorem not_nameMark_infix_take (t : Text) : ¬nameMark <:+: t.take 1 := by
  intro hmark
  have hlength : 2 ≤ (t.take 1).length := hmark.length_le
  rw [List.length_take] at hlength
  omega

/-- While a part is read, there is no mark in what has been read of it and the next code point. -/
theorem segmented_of_current {current t : Text}
    (h : ¬nameMark <:+: current.reverse ++ t.take 1) :
    Segmented (current.reverse ++ t) (segments current t) := by
  fun_induction segments current t with
  | case1 current =>
    rw [List.take_nil, List.append_nil] at h
    rw [List.append_nil]
    exact .last h
  | case2 current rest ih =>
    have hrest : ¬nameMark <:+: [].reverse ++ rest.take 1 := not_nameMark_infix_take rest
    have hcut := Segmented.cut h (ih hrest)
    rwa [List.append_assoc] at hcut
  | case3 current c rest hno ih =>
    rw [List.take_succ_cons, List.take_zero] at h
    have hread : (c :: current).reverse = current.reverse ++ [c] := List.reverse_cons
    have hnext : ¬nameMark <:+: (c :: current).reverse ++ rest.take 1 := by
      rw [hread]
      cases rest with
      | nil => simpa using h
      | cons d rest =>
        rw [List.take_succ_cons, List.take_zero, nameMark_infix_concat_iff]
        rintro (hmark | ⟨rfl, hcolon⟩)
        · exact h hmark
        · -- A mark that ends here would have been cut at.
          exact hno rest (by simpa [eq_comm] using hcolon) rfl
    have hsegmented := ih hnext
    rwa [hread, List.append_assoc] at hsegmented

theorem segmented_segments (t : Text) : Segmented t (segments [] t) := by
  have hstart : ¬nameMark <:+: [].reverse ++ t.take 1 := not_nameMark_infix_take t
  exact segmented_of_current hstart

theorem qualifiedParts_joinWith {names : List Text} (hne : names ≠ [])
    (hplain : ∀ n ∈ names, PlainName n) :
    qualifiedParts (Text.joinWith nameMark names) = names := by
  rw [qualifiedParts, (segmented_joinWith hne hplain).segments_eq, List.filter_eq_self]
  intro n hn
  simpa using (hplain n hn).ne_nil

namespace Model

variable {m : Model}

/-- An owned element of a name. Those before it have other names. -/
def FirstChild (m : Model) (e : ElementId) (name : Text) (c : ElementId) : Prop :=
  ∃ before after, (m.element e).owned = .refs (before ++ c :: after) ∧
    (m.element c).name = .text name ∧ ∀ b ∈ before, (m.element b).name ≠ .text name

/-- A way down by names, each time to the first owned element of the next name. -/
inductive FirstPath (m : Model) : ElementId → List Text → ElementId → Prop where
  | here (e : ElementId) : FirstPath m e [] e
  | step {e c x : ElementId} {name : Text} {names : List Text} : m.FirstChild e name c →
      FirstPath m c names x → FirstPath m e (name :: names) x

/-- What names stand for, seen from an element. No names at all and its own name stand for the
element itself. After its own name, further names are followed from there; all names are followed
where it does not come first, or where nothing is found after it. -/
inductive Denotes (m : Model) (root : ElementId) : List Text → ElementId → Prop where
  | nothing : Denotes m root [] root
  | own {n : Text} : (m.element root).name = .text n → Denotes m root [n] root
  | after {n : Text} {rest : List Text} {x : ElementId} : (m.element root).name = .text n →
      rest ≠ [] → m.FirstPath root rest x → Denotes m root (n :: rest) x
  | whole {first : Text} {rest : List Text} {x : ElementId} :
      ((m.element root).name = .text first → rest ≠ [] ∧ ∀ y, ¬m.FirstPath root rest y) →
      m.FirstPath root (first :: rest) x → Denotes m root (first :: rest) x

theorem firstNamed_refs (name : Text) (es : List ElementId) :
    m.firstNamed name (es.map .ref) =
      .ok (es.find? fun c => (m.element c).name = .text name) := by
  induction es with
  | nil => rfl
  | cons e es ih =>
    rw [List.map_cons, firstNamed, List.find?_cons]
    have hread : m.read (.ref e) .name = .ok (m.element e).name := rfl
    rw [hread, except_ok_bind]
    by_cases hname : (m.element e).name = .text name
    · rw [if_pos hname, decide_eq_true hname]
      rfl
    · rw [if_neg hname, decide_eq_false hname, ih]

theorem child?_of_owned {e : ElementId} {es : List ElementId}
    (h : (m.element e).owned = .refs es) (name : Text) :
    m.child? e name = .ok (es.find? fun c => (m.element c).name = .text name) := by
  rw [child?, h]
  exact firstNamed_refs name es

/-- Only a list has a member with a name: the letters of a text have none. -/
theorem owned_of_child? {e c : ElementId} {name : Text} (h : m.child? e name = .ok (some c)) :
    ∃ es, (m.element e).owned = .refs es := by
  obtain ⟨vs, hvs, h⟩ := except_bind_ok.mp h
  cases howned : (m.element e).owned with
  | refs es => exact ⟨es, rfl⟩
  | absent | flag _ | ref _ =>
    rw [howned] at hvs
    cases hvs
  | text t =>
    rw [howned] at hvs
    cases hvs
    cases t with
    | nil => cases h
    | cons l t => cases h

theorem child?_eq_some_iff {e c : ElementId} {name : Text} :
    m.child? e name = .ok (some c) ↔ m.FirstChild e name c := by
  constructor
  · intro h
    obtain ⟨es, hes⟩ := owned_of_child? h
    rw [child?_of_owned hes, Except.ok.injEq, List.find?_eq_some_iff_append] at h
    obtain ⟨hname, before, after, rfl, hbefore⟩ := h
    exact ⟨before, after, hes, by simpa using hname, by simpa using hbefore⟩
  · rintro ⟨before, after, hes, hname, hbefore⟩
    rw [child?_of_owned hes, Except.ok.injEq, List.find?_eq_some_iff_append]
    exact ⟨by simpa using hname, before, after, rfl, by simpa using hbefore⟩

theorem descend_eq_some_iff {e x : ElementId} {names : List Text} :
    m.descend e names = .ok (some x) ↔ m.FirstPath e names x := by
  induction names generalizing e with
  | nil =>
    constructor
    · rintro ⟨⟩
      exact .here _
    · rintro ⟨⟩
      rfl
  | cons name names ih =>
    constructor
    · intro h
      obtain ⟨child, hchild, h⟩ := except_bind_ok.mp h
      cases child with
      | none => cases h
      | some c => exact .step (child?_eq_some_iff.mp hchild) (ih.mp h)
    · rintro (_ | ⟨hchild, hpath⟩)
      exact except_bind_ok.mpr ⟨_, child?_eq_some_iff.mpr hchild, ih.mpr hpath⟩

theorem descend_returns (h : ∀ e, ∃ es, (m.element e).owned = .refs es) (e : ElementId)
    (names : List Text) : ∃ found, m.descend e names = .ok found := by
  induction names generalizing e with
  | nil => exact ⟨some e, rfl⟩
  | cons name names ih =>
    obtain ⟨es, hes⟩ := h e
    rw [descend, child?_of_owned hes, except_ok_bind]
    cases es.find? fun c => (m.element c).name = .text name with
    | none => exact ⟨none, rfl⟩
    | some c => exact ih c

section Find

variable {root x : ElementId} {rootName q first : Text} {names rest : List Text}

theorem find?_of_no_parts (h : qualifiedParts q = []) : m.find? root q = .ok (some root) := by
  rw [find?, h]
  rfl

theorem find?_of_own_name (h : qualifiedParts q = [first])
    (hname : (m.element root).name = .text first) : m.find? root q = .ok (some root) := by
  rw [find?, h]
  simp [hname, pure, Except.pure, bind, Except.bind]

theorem find?_of_other_name (h : qualifiedParts q = first :: rest)
    (hname : (m.element root).name ≠ .text first) :
    m.find? root q = m.descend root (first :: rest) := by
  rw [find?, h]
  simp [hname]

theorem find?_of_leading_name (h : qualifiedParts q = first :: rest)
    (hname : (m.element root).name = .text first) (hrest : rest ≠ []) :
    m.find? root q = m.descend root rest >>= fun below =>
      below.elim (m.descend root (first :: rest)) fun found => .ok (some found) := by
  rw [find?, h]
  simp only [hname, hrest, ne_eq, not_false_eq_true, and_self, if_true, and_false, if_false]
  apply congrArg
  funext below
  cases below <;> rfl

theorem find?_joinWith (hname : (m.element root).name = .text rootName)
    (hpath : m.FirstPath root names x) (hplain : ∀ n ∈ rootName :: names, PlainName n) :
    m.find? root (Text.joinWith nameMark (rootName :: names)) = .ok (some x) := by
  have hparts := qualifiedParts_joinWith (List.cons_ne_nil rootName names) hplain
  cases names with
  | nil =>
    cases hpath
    exact find?_of_own_name hparts hname
  | cons n names =>
    rw [find?_of_leading_name hparts hname (List.cons_ne_nil n names)]
    exact except_bind_ok.mpr ⟨_, descend_eq_some_iff.mpr hpath, rfl⟩

theorem find?_joinWith_below (hname : (m.element root).name ≠ .text first)
    (hpath : m.FirstPath root (first :: rest) x) (hplain : ∀ n ∈ first :: rest, PlainName n) :
    m.find? root (Text.joinWith nameMark (first :: rest)) = .ok (some x) := by
  have hparts := qualifiedParts_joinWith (List.cons_ne_nil first rest) hplain
  rw [find?_of_other_name hparts hname]
  exact descend_eq_some_iff.mpr hpath

theorem find?_cases (m : Model) (root : ElementId) (q : Text) :
    (qualifiedParts q = [] ∧ m.find? root q = .ok (some root)) ∨
    (∃ n, qualifiedParts q = [n] ∧ (m.element root).name = .text n ∧
      m.find? root q = .ok (some root)) ∨
    (∃ n rest, qualifiedParts q = n :: rest ∧ (m.element root).name = .text n ∧ rest ≠ [] ∧
      m.find? root q = m.descend root rest >>= fun below =>
        below.elim (m.descend root (n :: rest)) fun found => .ok (some found)) ∨
    ∃ n rest, qualifiedParts q = n :: rest ∧ (m.element root).name ≠ .text n ∧
      m.find? root q = m.descend root (n :: rest) := by
  cases hparts : qualifiedParts q with
  | nil => exact .inl ⟨rfl, find?_of_no_parts hparts⟩
  | cons n rest =>
    by_cases hname : (m.element root).name = .text n
    · by_cases hrest : rest = []
      · subst hrest
        exact .inr (.inl ⟨n, rfl, hname, find?_of_own_name hparts hname⟩)
      · exact .inr (.inr (.inl ⟨n, rest, rfl, hname, hrest,
          find?_of_leading_name hparts hname hrest⟩))
    · exact .inr (.inr (.inr ⟨n, rest, rfl, hname, find?_of_other_name hparts hname⟩))

theorem denotes_of_find? (h : m.find? root q = .ok (some x)) :
    m.Denotes root (qualifiedParts q) x := by
  rcases m.find?_cases root q with ⟨hparts, hfind⟩ | ⟨n, hparts, hname, hfind⟩ |
    ⟨n, rest, hparts, hname, hrest, hfind⟩ | ⟨n, rest, hparts, hname, hfind⟩ <;>
    rw [hfind] at h <;> rw [hparts]
  · cases h
    exact .nothing
  · cases h
    exact .own hname
  · obtain ⟨below, hbelow, h⟩ := except_bind_ok.mp h
    cases below with
    | some y =>
      cases h
      exact .after hname hrest (descend_eq_some_iff.mp hbelow)
    | none =>
      refine .whole ?_ (descend_eq_some_iff.mp h)
      intro _
      refine ⟨hrest, fun y hy => ?_⟩
      rw [descend_eq_some_iff.mpr hy] at hbelow
      cases hbelow
  · exact .whole (fun hn => absurd hn hname) (descend_eq_some_iff.mp h)

theorem find?_of_denotes (howned : ∀ e, ∃ es, (m.element e).owned = .refs es)
    (h : m.Denotes root (qualifiedParts q) x) : m.find? root q = .ok (some x) := by
  generalize hparts : qualifiedParts q = parts at h
  cases h with
  | nothing => exact find?_of_no_parts hparts
  | own hname => exact find?_of_own_name hparts hname
  | after hname hrest hpath =>
    rw [find?_of_leading_name hparts hname hrest]
    exact except_bind_ok.mpr ⟨_, descend_eq_some_iff.mpr hpath, rfl⟩
  | @whole first rest _ hleads hpath =>
    by_cases hname : (m.element root).name = .text first
    · obtain ⟨hrest, hnone⟩ := hleads hname
      rw [find?_of_leading_name hparts hname hrest]
      obtain ⟨below, hbelow⟩ := descend_returns howned root rest
      cases below with
      | some y => exact absurd (descend_eq_some_iff.mp hbelow) (hnone y)
      | none => exact except_bind_ok.mpr ⟨_, hbelow, descend_eq_some_iff.mpr hpath⟩
    · rw [find?_of_other_name hparts hname]
      exact descend_eq_some_iff.mpr hpath

theorem find?_returns (howned : ∀ e, ∃ es, (m.element e).owned = .refs es) (root : ElementId)
    (q : Text) : ∃ found, m.find? root q = .ok found := by
  rcases m.find?_cases root q with ⟨-, hfind⟩ | ⟨-, -, -, hfind⟩ | ⟨n, rest, -, -, -, hfind⟩ |
    ⟨n, rest, -, -, hfind⟩
  · exact ⟨_, hfind⟩
  · exact ⟨_, hfind⟩
  · obtain ⟨below, hbelow⟩ := descend_returns howned root rest
    rw [hfind, hbelow, except_ok_bind]
    cases below with
    | some y => exact ⟨_, rfl⟩
    | none => exact descend_returns howned root (n :: rest)
  · rw [hfind]
    exact descend_returns howned root (n :: rest)

end Find

/-- The names on a way down from an element, joined by marks, lead to the end of the way, with or
without the name of that element in front. Whatever is found is what the names between the marks of
the text stand for. Where all elements own lists it is always found, and nothing else is answered
where they stand for nothing. -/
theorem qualified_names_resolve (m : Model) (root : ElementId) :
    (∀ (rootName : Text) (names : List Text) (x : ElementId),
      (m.element root).name = .text rootName → m.FirstPath root names x →
      (∀ n ∈ rootName :: names, PlainName n) →
      m.find? root (Text.joinWith nameMark (rootName :: names)) = .ok (some x) ∧
      (names ≠ [] → names.head? ≠ some rootName →
        m.find? root (Text.joinWith nameMark names) = .ok (some x))) ∧
    ∀ q : Text, ∃ parts, Segmented q parts ∧
      (∀ x, m.find? root q = .ok (some x) → m.Denotes root (parts.filter (!·.isEmpty)) x) ∧
      ((∀ e, ∃ es, (m.element e).owned = .refs es) →
        (∀ x, m.Denotes root (parts.filter (!·.isEmpty)) x → m.find? root q = .ok (some x)) ∧
        ((∀ x, ¬m.Denotes root (parts.filter (!·.isEmpty)) x) → m.find? root q = .ok none)) := by
  constructor
  · intro rootName names x hname hpath hplain
    refine ⟨find?_joinWith hname hpath hplain, fun hne hhead => ?_⟩
    cases names with
    | nil => exact absurd rfl hne
    | cons n names =>
      apply find?_joinWith_below _ hpath fun k hk => hplain k (List.mem_cons_of_mem _ hk)
      rw [hname]
      rintro ⟨⟩
      exact hhead rfl
  · intro q
    refine ⟨segments [] q, segmented_segments q, fun x => denotes_of_find?, fun howned => ?_⟩
    refine ⟨fun x => find?_of_denotes howned, fun hnone => ?_⟩
    obtain ⟨found, hfound⟩ := find?_returns howned root q
    cases found with
    | none => exact hfound
    | some x => exact absurd (denotes_of_find? hfound) (hnone x)

end Model

/-- A project with a package of its own name, and two packages and three classes of one name. -/
def repeatedNames : Model where
  elements := #[.given .project [(.name, .text "Shop"), (.owned, .refs [1, 2, 3])],
    .given .package [(.name, .text "Shop"), (.owned, .refs [4])],
    .given .package [(.name, .text ":Sales"), (.owned, .refs [5, 6])],
    .given .package [(.name, .text ":Sales"), (.owned, .refs [7])],
    .given .klass [(.name, .text "Order")], .given .klass [(.name, .text "Order")],
    .given .klass [(.name, .text "Order")], .given .klass [(.name, .text "Bill")]]

/-- The first of two ways is found by its names. A leading name is taken for that of the project only
if something is found after it. Nothing is found past the first of two packages. -/
theorem repeatedNames_resolve :
    repeatedNames.find? 0 "Shop:::Sales::Order" = .ok (some 5) ∧
    repeatedNames.find? 0 ":Sales::Order" = .ok (some 5) ∧
    repeatedNames.Denotes 0 [Text.ofString "Shop", Text.ofString "Order"] 4 ∧
    repeatedNames.find? 0 "::Shop::::Order" = .ok (some 4) ∧
    repeatedNames.find? 0 ":Sales::Bill" = .ok none := by
  obtain ⟨hjoined, hmeant⟩ := Model.qualified_names_resolve repeatedNames 0
  have hwell : repeatedNames.WellKinded := by decide
  have hpath : repeatedNames.FirstPath 0 [Text.ofString ":Sales", Text.ofString "Order"] 5 :=
    .step ⟨[1], [3], rfl, rfl, by decide⟩ (.step ⟨[], [6], rfl, rfl, by decide⟩ (.here 5))
  have hplain : ∀ n ∈ [Text.ofString "Shop", Text.ofString ":Sales", Text.ofString "Order"],
      n ≠ [] ∧ ¬nameMark <:+: n ∧ ¬[CodePoint.scalar ':'] <:+ n := by decide
  obtain ⟨hwith, hwithout⟩ := hjoined _ _ 5 rfl hpath fun n hn =>
    ⟨(hplain n hn).1, (hplain n hn).2.1, (hplain n hn).2.2⟩
  obtain ⟨parts, hparts, hfound, -⟩ := hmeant "Shop::Order"
  have hdenoted := hfound 4 (by decide)
  rw [← hparts.segments_eq] at hdenoted
  obtain ⟨parts', hparts', -, htotal⟩ := hmeant "::Shop::::Order"
  rw [← hparts'.segments_eq] at htotal
  obtain ⟨parts'', hparts'', -, htotal'⟩ := hmeant ":Sales::Bill"
  rw [← hparts''.segments_eq] at htotal'
  have hnowhere : repeatedNames.descend 0 [Text.ofString ":Sales", Text.ofString "Bill"] =
      .ok none := by decide
  refine ⟨hwith, hwithout (by decide) (by decide), hdenoted, (htotal hwell.owned).1 4 hdenoted,
    (htotal' hwell.owned).2 fun x hx => ?_⟩
  replace hx : repeatedNames.Denotes 0 [Text.ofString ":Sales", Text.ofString "Bill"] x := hx
  cases hx with
  | after hname => exact absurd hname (by decide)
  | whole _ hpath =>
    rw [Model.descend_eq_some_iff.mpr hpath] at hnowhere
    cases hnowhere

end UmlSchema
