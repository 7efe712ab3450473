import UmlSchema.Platform.Usual
import UmlSchema.Proofs.ClassChain
import UmlSchema.Schema.Declaration

/-!
# Fields of a class and of the class it extends

A class is flattened along all of its first parents, so that it has whatever they write. Interfaces
are taken from the class itself alone: a name that the extended class has only from an interface it
realizes is not handed down.
-/
namespace UmlSchema

open Emission

namespace Repository

variable [Platform] {r : Repository}

theorem keys_classTable {c : ElementId} {t : FieldTable} (h : (r.classTable c).result = .ok t)
    (n : Value) : n ∈ t.keys ↔
      (∃ i, r.Realizes (.ref c) i ∧ ∃ x, r.Reaches i x ∧ r.WritesName x n) ∨
      ∃ x, r.Climbs (.ref c) x ∧ r.WritesName x n := by
  obtain ⟨ws, hws, rfl⟩ := classTable_ok.mp h
  rw [Table.mem_keys_ofWrites, names_classWrites hws]

theorem keys_interfaceTable {i : ElementId} {t : FieldTable}
    (h : (r.interfaceTable i).result = .ok t) (n : Value) :
    n ∈ t.keys ↔ ∃ x, r.Reaches (.ref i) x ∧ r.WritesName x n := by
  obtain ⟨ws, hws, rfl⟩ := interfaceTable_ok.mp h
  rw [Table.mem_keys_ofWrites, names_interfaceWrites hws]

theorem interfaceTable_of_realizes {c : ElementId} {t : FieldTable}
    (h : (r.classTable c).result = .ok t) {v : Value} (hv : r.Realizes (.ref c) v) :
    ∃ i ti, v = .ref i ∧ (r.interfaceTable i).result = .ok ti := by
  obtain ⟨ws, hws, -⟩ := classTable_ok.mp h
  have hwalkable := (classWrites_total.mp ⟨ws, hws⟩).2.1 v hv
  obtain ⟨own, hown⟩ := (hwalkable v .refl).2
  obtain ⟨i, rfl⟩ := ref_of_ownWrites hown
  obtain ⟨wi, hwi⟩ := interfaceWrites_total.mpr hwalkable
  exact ⟨i, _, rfl, interfaceTable_ok.mpr ⟨wi, hwi, rfl⟩⟩

end Repository

namespace Declarer

variable {d : Declarer}

theorem nearestConcrete_climbs {n : Nat} :
    ∀ {seen : List Value} {ignored : Bool} {v : Value} {found : Value × Bool},
      d.nearestConcrete n seen ignored v = .ok found →
      found.1 = .absent ∨ d.repository.Climbs v found.1 := by
  induction n with
  | zero =>
    intro seen ignored v found h
    cases h
    exact .inl rfl
  | succ n ih =>
    intro seen ignored v found h
    obtain ⟨parents, hparents, h⟩ := except_bind_ok.mp h
    cases parents with
    | nil =>
      cases h
      exact .inl rfl
    | cons p others =>
      have hfirst : d.repository.FirstParent v p := ⟨others, hparents⟩
      dsimp only at h
      split at h
      · cases h
        exact .inr (.single hfirst)
      · split at h
        · cases h
          exact .inl rfl
        · rcases ih h with habsent | hclimb
          · exact .inl habsent
          · exact .inr (.head hfirst hclimb)

theorem climbs_of_extendsTarget {e t : ElementId}
    (h : (d.extendsTarget e).result = .ok (.ref t)) :
    d.repository.Climbs (.ref e) (.ref t) := by
  obtain ⟨found, hfound, h⟩ := bind_ok.mp h
  have htarget : found.1 = .ref t := Except.ok.inj (guarded_ok h)
  rcases nearestConcrete_climbs hfound with habsent | hclimb
  · rw [habsent] at htarget
    cases htarget
  · rw [← htarget]
    exact hclimb

/-- A class has all names that the class it extends, or one above that along first parents, writes
itself. It has the names of an interface that the extended class realizes if it realizes the
interface too, or one that extends it. So a name that is not handed down comes from an interface
that the extended class realizes and no interface of the class leads to. -/
theorem extending_keeps_names [Platform] {e t : ElementId} {te tt : FieldTable}
    (hextends : (d.extendsTarget e).result = .ok (.ref t))
    (he : (d.repository.classTable e).result = .ok te)
    (ht : (d.repository.classTable t).result = .ok tt) :
    (∀ x, d.repository.Climbs (.ref t) x → ∀ n, d.repository.WritesName x n → n ∈ te.keys) ∧
    (∀ i ti, d.repository.Realizes (.ref t) (.ref i) →
      (d.repository.interfaceTable i).result = .ok ti →
      (∃ j, d.repository.Realizes (.ref e) j ∧ d.repository.Reaches j (.ref i)) →
      ∀ n ∈ ti.keys, n ∈ te.keys) ∧
    ∀ n ∈ tt.keys, n ∉ te.keys → ∃ i ti, d.repository.Realizes (.ref t) (.ref i) ∧
      (d.repository.interfaceTable i).result = .ok ti ∧ n ∈ ti.keys ∧
      ∀ j, d.repository.Realizes (.ref e) j → ¬d.repository.Reaches j (.ref i) := by
  have hclimb := climbs_of_extendsTarget hextends
  have hchain (x : Value) (hx : d.repository.Climbs (.ref t) x) (n : Value)
      (hn : d.repository.WritesName x n) : n ∈ te.keys :=
    (Repository.keys_classTable he n).mpr (.inr ⟨x, hclimb.trans hx, hn⟩)
  have hshared (i : ElementId) (ti : FieldTable)
      (hi : (d.repository.interfaceTable i).result = .ok ti)
      (hj : ∃ j, d.repository.Realizes (.ref e) j ∧ d.repository.Reaches j (.ref i)) (n : Value)
      (hn : n ∈ ti.keys) : n ∈ te.keys := by
    obtain ⟨j, hj, hji⟩ := hj
    obtain ⟨x, hx, hn⟩ := (Repository.keys_interfaceTable hi n).mp hn
    exact (Repository.keys_classTable he n).mpr (.inl ⟨j, hj, x, hji.trans hx, hn⟩)
  refine ⟨hchain, fun i ti _ => hshared i ti, ?_⟩
  intro n hn hlost
  rcases (Repository.keys_classTable ht n).mp hn with ⟨v, hv, x, hx, hnx⟩ | ⟨x, hx, hnx⟩
  · obtain ⟨i, ti, rfl, hti⟩ := Repository.interfaceTable_of_realizes ht hv
    have hni : n ∈ ti.keys := (Repository.keys_interfaceTable hti n).mpr ⟨x, hx, hnx⟩
    refine ⟨i, ti, hv, hti, hni, ?_⟩
    intro j hj hji
    exact hlost (hshared i ti hti ⟨j, hj, hji⟩ n hni)
  · exact absurd (hchain x hx n hnx) hlost

/-- A class that realizes two interfaces, and a class that extends it and realizes an interface
above which one of the two stands. -/
def printedBook : Declarer where
  repository :=
    { model := ⟨#[.given .interface [(.name, .text "Named"), (.attributes, .refs [10])],
        .given .interface [(.name, .text "Dated"), (.attributes, .refs [11])],
        .given .interface [(.name, .text "Printed")],
        .given .klass [(.name, .text "Item"), (.attributes, .refs [12])],
        .given .klass [(.name, .text "Book"), (.attributes, .refs [13])],
        .given .generalization [(.source, .ref 2), (.target, .ref 1)],
        .given .interfaceRealization [(.source, .ref 3), (.target, .ref 0)],
        .given .interfaceRealization [(.source, .ref 3), (.target, .ref 1)],
        .given .generalization [(.source, .ref 4), (.target, .ref 3)],
        .given .interfaceRealization [(.source, .ref 4), (.target, .ref 2)],
        .given .property [(.name, .text "label")],
        .given .property [(.name, .text "created")],
        .given .property [(.name, .text "id")],
        .given .property [(.name, .text "pages")]]⟩
      relationships := [5, 6, 7, 8, 9] }

attribute [local instance] Platform.usual

theorem printedBook_tables :
    ∃ te tt, (printedBook.extendsTarget 4).result = .ok (.ref 3) ∧
      (printedBook.repository.classTable 4).result = .ok te ∧
      (printedBook.repository.classTable 3).result = .ok tt ∧
      te.keys = [.text "created", .text "id", .text "pages"] ∧
      tt.keys = [.text "label", .text "created", .text "id"] := by
  have hextends : (printedBook.extendsTarget 4).result.toOption = some (.ref 3) := by
    decide +kernel
  have hbook : (printedBook.repository.classTable 4).result.toOption.map Table.keys =
      some [.text "created", .text "id", .text "pages"] := by decide +kernel
  have hitem : (printedBook.repository.classTable 3).result.toOption.map Table.keys =
      some [.text "label", .text "created", .text "id"] := by decide +kernel
  obtain ⟨te, hte, hkeys⟩ := Option.map_eq_some_iff.mp hbook
  obtain ⟨tt, htt, hkeys'⟩ := Option.map_eq_some_iff.mp hitem
  exact ⟨te, tt, ok_of_toOption hextends, ok_of_toOption hte, ok_of_toOption htt, hkeys, hkeys'⟩

/-- The name that comes from the other interface is not handed down. -/
theorem printedBook_loses_name :
    ∃ te tt, (printedBook.extendsTarget 4).result = .ok (.ref 3) ∧
      (printedBook.repository.classTable 4).result = .ok te ∧
      (printedBook.repository.classTable 3).result = .ok tt ∧
      .text "label" ∈ tt.keys ∧ .text "label" ∉ te.keys := by
  obtain ⟨te, tt, hextends, hte, htt, hkeys, hkeys'⟩ := printedBook_tables
  refine ⟨te, tt, hextends, hte, htt, ?_, ?_⟩
  · rw [hkeys']
    decide
  · rw [hkeys]
    decide

theorem printedBook_keeps_names :
    ∃ te tt, (printedBook.extendsTarget 4).result = .ok (.ref 3) ∧
      (printedBook.repository.classTable 4).result = .ok te ∧
      (printedBook.repository.classTable 3).result = .ok tt ∧
      .text "id" ∈ te.keys ∧ .text "created" ∈ te.keys ∧
      ∃ i ti, printedBook.repository.Realizes (.ref 3) (.ref i) ∧
        (printedBook.repository.interfaceTable i).result = .ok ti ∧ .text "label" ∈ ti.keys ∧
        ∀ j, printedBook.repository.Realizes (.ref 4) j →
          ¬printedBook.repository.Reaches j (.ref i) := by
  obtain ⟨te, tt, hextends, hte, htt, hkeys, hkeys'⟩ := printedBook_tables
  obtain ⟨hchain, hshared, hlost⟩ := extending_keeps_names hextends hte htt
  have hdated : (printedBook.repository.interfaceTable 1).result.toOption.map Table.keys =
      some [.text "created"] := by decide +kernel
  obtain ⟨ti, hti, hcreated⟩ := Option.map_eq_some_iff.mp hdated
  refine ⟨te, tt, hextends, hte, htt, ?_, ?_, ?_⟩
  · exact hchain (.ref 3) .refl _ (by decide +kernel)
  · refine hshared 1 ti (by decide +kernel) (ok_of_toOption hti) ⟨.ref 2, ?_, .single ?_⟩ _ ?_
    · decide +kernel
    · decide +kernel
    · simp [hcreated]
  · apply hlost
    · simp [hkeys']
    · rw [hkeys]
      decide

end Declarer

end UmlSchema
