import UmlSchema.Proofs.Declared
import UmlSchema.Proofs.Preview
import UmlSchema.Model.Repository
import Mathlib.Data.List.Induction
import Mathlib.Data.List.Nodup

/-!
# The tree of a document

The elements of a document hang together by eight fields. Every element but the root stands in
exactly one place of exactly one other element, and that element is its parent. So there is one path
from the root to each element, and whatever is read off along such paths meets nothing twice.
-/
namespace UmlSchema

def Value.held : Value → List ElementId
  | .ref e => [e]
  | .refs es => es
  | _ => []

/-- The fields that hold what an element consists of. -/
def Field.containment : List Field :=
  [.owned, .tags, .attributes, .operations, .parameters, .literals, .end1, .end2]

namespace Element

/-- The elements that a field holds; a field that is not there holds none. -/
def contents (x : Element) (f : Field) : List ElementId := ((x.get? f).map Value.held).getD []

end Element

namespace Model

/-- The child at a place: a position in one of the fields that hold children. -/
def childAt? (m : Model) (e : ElementId) (place : Field × Nat) : Option ElementId :=
  if place.1 ∈ Field.containment then ((m.element e).contents place.1)[place.2]? else none

def follow (m : Model) (e : ElementId) (path : List (Field × Nat)) : Option ElementId :=
  path.foldlM m.childAt? e

/-- The children of an element, field by field. -/
structure Family (m : Model) (e : Nat) (cs : List (Field × Nat)) : Prop where
  contents : ∀ f ∈ Field.containment,
    (m.element e).contents f = (cs.filter fun c => c.1 = f).map (·.2)
  field : ∀ c ∈ cs, c.1 ∈ Field.containment
  increasing : (cs.map (·.2)).Pairwise (· < ·)
  below : ∀ c ∈ cs, e < c.2 ∧ c.2 < m.size ∧ (m.element c.2).parent = .ref e

/-- Every element has a family, and every element but the root is in one. -/
structure Tree (m : Model) : Prop where
  root : (m.element 0).parent = .absent
  family : ∀ e, ∃ cs, m.Family e cs
  member : ∀ e < m.size, e ≠ 0 → ∃ p cs f, m.Family p cs ∧ (f, e) ∈ cs

end Model

namespace Node

theorem get?_blank (k : Kind) {f : Field} (hf : f ∈ Field.containment) :
    (Element.blank k).get? f = none ∨
      if f = .end1 ∨ f = .end2 then
        k = .association ∧ (Element.blank k).get? f = some .absent
      else (Element.blank k).get? f = some (.refs []) := by
  revert f
  cases k <;> decide

theorem kind_headOf (k : Kind) (vs : Views) : (headOf k vs).kind = k := by
  refine headOf_induction k vs (P := fun x => x.kind = k) rfl fun x f _ v _ hx => ?_
  unfold Element.replace
  split
  · rw [x.kind_set, hx]
  · exact hx

/-- The fields of a node's children: lists that its kind has, the ends of an association, and what
is owned. -/
structure ChildFields (kind : Kind) (vs : Views) (listed ends owned : List Field) : Prop where
  listed : ∀ f ∈ listed, f ∈ listMembers.map (·.2) ∧ (headOf kind vs).has f = true
  ends : ends = [] ∨ kind = .association ∧ ends = [.end1, .end2]
  owned : ∀ f ∈ owned, f = .owned

theorem childFields_of_assemble {vs : Views} {head : Element} {id : Option Key}
    {references : List (Field × Json)} {children : List (Field × Node)}
    (h : assemble vs = .ok (mk head id references children)) :
    ∃ kind listed ends owned, head = headOf kind vs ∧
      children.map (·.1) = listed ++ ends ++ owned ∧ ChildFields kind vs listed ends owned := by
  obtain ⟨kind, _, lists, ends, owned, hlists, hends, howned, h⟩ := assemble_parts h
  cases h
  refine ⟨kind, lists.flatten.map (·.1), ends.map (·.1), owned.map (·.1), rfl, ?_, ?_, ?_, ?_⟩
  · rw [List.map_append, List.map_append]
  · intro f hf
    obtain ⟨c, hc, rfl⟩ := List.mem_map.mp hf
    obtain ⟨cs, hcs, hc⟩ := List.mem_flatten.mp hc
    obtain ⟨l, hl, hcs⟩ := forall₂_mem_right (except_mapM_ok.mp hlists) hcs
    obtain ⟨hcl, hhas, -⟩ := mem_listChildren hcs hc
    rw [hcl]
    exact ⟨List.mem_map_of_mem hl, hhas⟩
  · rcases endChildren_ok hends with rfl | ⟨hassociation, first, second, hfirst, hsecond, rfl⟩
    · exact .inl rfl
    · refine .inr ⟨(kind_headOf kind vs).symm.trans hassociation, ?_⟩
      rw [List.map_cons, List.map_cons, (endChild_ok hfirst).1, (endChild_ok hsecond).1]
      rfl
  · intro f hf
    obtain ⟨c, hc, rfl⟩ := List.mem_map.mp hf
    exact (mem_ownedChildren howned hc).1

namespace ChildFields

variable {kind : Kind} {vs : Views} {listed ends owned : List Field}

theorem containment (h : ChildFields kind vs listed ends owned) {f : Field}
    (hf : f ∈ listed ++ ends ++ owned) : f ∈ Field.containment := by
  have hlists : ∀ f ∈ listMembers.map (·.2), f ∈ Field.containment := by decide
  simp only [List.mem_append] at hf
  rcases hf with (hf | hf) | hf
  · exact hlists f (h.listed f hf).1
  · rcases h.ends with hnone | ⟨-, hends⟩
    · rw [hnone] at hf
      cases hf
    · rw [hends] at hf
      rcases List.mem_pair.mp hf with rfl | rfl <;> decide
  · rw [h.owned f hf]
    decide

theorem not_mem (h : ChildFields kind vs listed ends owned) {f : Field}
    (hf : (headOf kind vs).get? f = none) : f ∉ listed ++ ends ++ owned := by
  intro hin
  have hfield := h.containment hin
  have hcopied : ∀ f ∈ Field.containment, f ∉ copiedFields := by decide
  simp only [List.mem_append] at hin
  rcases hin with (hin | hin) | hin
  · have hhas := (h.listed f hin).2
    rw [Element.has, hf] at hhas
    cases hhas
  · rw [get?_headOf kind vs (hcopied f hfield)] at hf
    rcases h.ends with hnone | ⟨hassociation, hends⟩
    · rw [hnone] at hin
      cases hin
    · rw [hassociation] at hf
      rw [hends] at hin
      rcases List.mem_pair.mp hin with rfl | rfl <;> cases hf
  · rw [h.owned f hin] at hf
    cases hf

theorem count_end (h : ChildFields kind vs listed ends owned) {f : Field}
    (hf : f = .end1 ∨ f = .end2) : (listed ++ ends ++ owned).count f ≤ 1 := by
  have hlisted : listed.count f = 0 := by
    refine List.count_eq_zero.mpr fun hin => ?_
    have hlist := (h.listed f hin).1
    rcases hf with rfl | rfl <;> revert hlist <;> decide
  have howned : owned.count f = 0 := by
    refine List.count_eq_zero.mpr fun hin => ?_
    rw [h.owned f hin] at hf
    rcases hf with hf | hf <;> cases hf
  have hends : ends.count f ≤ 1 := by
    rcases h.ends with hnone | ⟨-, hends⟩
    · rw [hnone]
      exact Nat.zero_le 1
    · rw [hends]
      rcases hf with rfl | rfl <;> decide
  rw [List.count_append, List.count_append]
  omega

end ChildFields

/-- What a field for children starts with, by how many children there are for it: a list takes any
number, a single place at most one, and a field that is not there none. -/
theorem field_cases {head : Element} {id : Option Key} {references : List (Field × Json)}
    {children : List (Field × Node)} (h : Assembled (mk head id references children)) {f : Field}
    (hf : f ∈ Field.containment) :
    head.get? f = some (.refs []) ∨
      (head.get? f = some .absent ∧ (children.map (·.1)).count f ≤ 1) ∨
      (head.get? f = none ∧ f ∉ children.map (·.1)) := by
  rcases h with ⟨k, h⟩ | ⟨vs, h⟩
  · cases h
    rcases get?_blank k hf with hnone | hsome
    · exact .inr (.inr ⟨hnone, List.not_mem_nil⟩)
    · split at hsome
      · exact .inr (.inl ⟨hsome.2, Nat.zero_le 1⟩)
      · exact .inl hsome
  · obtain ⟨kind, listed, ends, owned, rfl, hchildren, hfields⟩ := childFields_of_assemble h
    have hcopied : ∀ f ∈ Field.containment, f ∉ copiedFields := by decide
    have hhead := get?_headOf kind vs (hcopied f hf)
    rw [hchildren]
    rcases get?_blank kind hf with hnone | hsome
    · exact .inr (.inr ⟨hhead.trans hnone, hfields.not_mem (hhead.trans hnone)⟩)
    · split at hsome
      · exact .inr (.inl ⟨hhead.trans hsome.2, hfields.count_end ‹_›⟩)
      · exact .inl (hhead.trans hsome)

theorem attachAll_other {f : Field} {cs : List (Field × ElementId)} (h : f ∉ cs.map (·.1))
    (x : Element) : (cs.foldl attach x).get? f = x.get? f := by
  induction cs generalizing x with
  | nil => rfl
  | cons c cs ih =>
    rw [List.map_cons, List.mem_cons, not_or] at h
    rw [List.foldl_cons, ih h.2, attach_other x c.2 (Ne.symm h.1)]

theorem filter_fst_eq_nil {f : Field} {cs : List (Field × ElementId)} (h : f ∉ cs.map (·.1)) :
    (cs.filter fun c => c.1 = f) = [] := by
  refine List.filter_eq_nil_iff.mpr fun c hc => ?_
  have hne : c.1 ≠ f := fun heq => h (heq ▸ List.mem_map_of_mem hc)
  simp [hne]

theorem attachAll_single {x : Element} {f : Field} (h : x.get? f = some .absent)
    {cs : List (Field × ElementId)} (hcs : (cs.map (·.1)).count f ≤ 1) :
    (cs.foldl attach x).contents f = (cs.filter fun c => c.1 = f).map (·.2) := by
  by_cases hin : f ∈ cs.map (·.1)
  · obtain ⟨c, hc, rfl⟩ := List.mem_map.mp hin
    obtain ⟨before, after, rfl⟩ := List.append_of_mem hc
    simp only [List.map_append, List.map_cons, List.count_append, List.count_cons_self] at hcs
    have hbefore : c.1 ∉ before.map (·.1) := List.count_eq_zero.mp (by omega)
    have hafter : c.1 ∉ after.map (·.1) := List.count_eq_zero.mp (by omega)
    have hattached : (attach (before.foldl attach x) c).get? c.1 = some (.ref c.2) := by
      rw [← attachAll_other hbefore x] at h
      simp [attach, h]
    rw [List.foldl_append, List.foldl_cons, Element.contents, attachAll_other hafter, hattached,
      List.filter_append, List.filter_cons, filter_fst_eq_nil hbefore, filter_fst_eq_nil hafter]
    simp [Value.held]
  · rw [Element.contents, attachAll_other hin, h, filter_fst_eq_nil hin]
    rfl

theorem fst_childIds (next : ElementId) (children : List (Field × Node)) :
    (childIds next children).map (·.1) = children.map (·.1) := by
  induction children generalizing next with
  | nil => rfl
  | cons c rest ih => rw [childIds, List.map_cons, List.map_cons, ih]

theorem get?_linked (parent : Value) (self : Nat) (head : Element)
    (children : List (Field × Node)) {f : Field} (hf : f ≠ .parent) :
    (linked parent self head children).get? f =
      ((childIds (self + 1) children).foldl attach head).get? f :=
  Element.get?_set_of_ne _ parent hf.symm

theorem contents_linked {head : Element} {id : Option Key} {references : List (Field × Json)}
    {children : List (Field × Node)} (h : Assembled (mk head id references children))
    (parent : Value) (self : Nat) {f : Field} (hf : f ∈ Field.containment) :
    (linked parent self head children).contents f =
      ((childIds (self + 1) children).filter fun c => c.1 = f).map (·.2) := by
  have hparent : f ≠ .parent := by
    rintro rfl
    revert hf
    decide
  rw [Element.contents, get?_linked _ _ _ _ hparent]
  rcases field_cases h hf with hlist | ⟨habsent, hcount⟩ | ⟨hnone, hnot⟩
  · rw [attachAll_list hlist]
    rfl
  · rw [← fst_childIds (self + 1)] at hcount
    exact attachAll_single habsent hcount
  · rw [← fst_childIds (self + 1)] at hnot
    rw [attachAll_other hnot, hnone, filter_fst_eq_nil hnot]
    rfl

theorem child_field {head : Element} {id : Option Key} {references : List (Field × Json)}
    {children : List (Field × Node)} (h : Assembled (mk head id references children))
    {f : Field} (hf : f ∈ children.map (·.1)) : f ∈ Field.containment := by
  rcases h with ⟨k, h⟩ | ⟨vs, h⟩
  · cases h
    cases hf
  · obtain ⟨kind, listed, ends, owned, -, hchildren, hfields⟩ := childFields_of_assemble h
    rw [hchildren] at hf
    exact hfields.containment hf

theorem get?_linked_other {head : Element} {id : Option Key} {references : List (Field × Json)}
    {children : List (Field × Node)} (h : Assembled (mk head id references children))
    (parent : Value) (self : Nat) {f : Field} (hparent : f ≠ .parent)
    (hf : f ∉ Field.containment) :
    (linked parent self head children).get? f = head.get? f := by
  have hnot : f ∉ (childIds (self + 1) children).map (·.1) := by
    rw [fst_childIds]
    exact mt (child_field h) hf
  rw [get?_linked _ _ _ _ hparent, attachAll_other hnot]

theorem next_le_childIds {next c : Nat} {children : List (Field × Node)}
    (h : c ∈ (childIds next children).map (·.2)) : next ≤ c := by
  induction children generalizing next with
  | nil => cases h
  | cons child rest ih =>
    rcases List.mem_cons.mp h with rfl | h
    · exact Nat.le_refl _
    · exact Nat.le_of_add_right_le (ih h)

theorem increasing_childIds (next : Nat) (children : List (Field × Node)) :
    ((childIds next children).map (·.2)).Pairwise (· < ·) := by
  induction children generalizing next with
  | nil => exact .nil
  | cons child rest ih =>
    refine .cons (fun c hc => ?_) (ih _)
    have hle := next_le_childIds hc
    have hpos := child.2.size_pos
    exact Nat.lt_of_lt_of_le (Nat.lt_add_of_pos_right hpos) hle

namespace MadeFrom

variable {m : Model} {e : Nat} {n : Node}

theorem family (h : MadeFrom m e n) : m.Family e (childIds (e + 1) n.children) := by
  obtain ⟨parent, hs⟩ := h.stands
  refine ⟨fun f hf => ?_, fun c hc => ?_, increasing_childIds _ _, fun c hc => h.child hc⟩
  · cases n
    rw [(stands_mk hs).1]
    exact contents_linked h.assembled parent e hf
  · cases n
    refine child_field h.assembled ?_
    rw [← fst_childIds (e + 1)]
    exact List.mem_map_of_mem hc

end MadeFrom

theorem tree_place {n : Node} (hn : Each Assembled n) : n.place.Tree := by
  refine ⟨parent_of_stands n.stands_place, fun e => ?_, fun e he h0 => ?_⟩
  · by_cases he : e < n.place.size
    · obtain ⟨⟨n', hmade⟩, -⟩ := exists_madeFrom_place hn he
      exact ⟨_, hmade.family⟩
    · refine ⟨[], fun f hf => ?_, fun _ hc => (nomatch hc), .nil, fun _ hc => (nomatch hc)⟩
      rw [n.place.element_of_size_le (Nat.le_of_not_lt he)]
      revert hf f
      decide
  · obtain ⟨p, n', f, hmade, hmem⟩ := (exists_madeFrom_place hn he).2.resolve_left h0
    exact ⟨p, _, f, hmade.family, hmem⟩

theorem blank_refers_to_none (k : Kind) {f : Field} (hf : f ∈ Document.referenceFields) :
    ((Element.blank k).get? f).bind Value.element? = none := by
  revert f
  cases k <;> decide

theorem headOf_refers_to_none (k : Kind) (vs : Views) {f : Field}
    (hf : f ∈ Document.referenceFields) : ((headOf k vs).get? f).bind Value.element? = none := by
  refine headOf_induction k vs (P := fun x => (x.get? f).bind Value.element? = none)
    (blank_refers_to_none k hf) fun x g _ v hv hx => ?_
  unfold Element.replace
  split
  · by_cases hg : g = f
    · subst hg
      rw [Element.get?_set_self]
      rcases hv with ⟨t, rfl⟩ | ⟨b, rfl⟩ <;> rfl
    · rwa [x.get?_set_of_ne v hg]
  · exact hx

theorem refers_to_none {n : Node} (hn : Each Assembled n) (e : Nat) {f : Field}
    (hf : f ∈ Document.referenceFields) :
    ((n.place.element e).get? f).bind Value.element? = none := by
  by_cases he : e < n.place.size
  · obtain ⟨⟨n', hmade⟩, -⟩ := exists_madeFrom_place hn he
    obtain ⟨parent, hs⟩ := hmade.stands
    have here := hmade.assembled
    cases n' with
    | mk head id references children =>
      have hapart : ∀ f ∈ Document.referenceFields, f ≠ .parent ∧ f ∉ Field.containment := by decide
      obtain ⟨hparent, hcontained⟩ := hapart f hf
      rw [(stands_mk hs).1, get?_linked_other here parent e hparent hcontained]
      rcases here with ⟨k, h⟩ | ⟨vs, h⟩
      · cases h
        exact blank_refers_to_none k hf
      · obtain ⟨kind, _, _, _, _, _, _, _, h⟩ := assemble_parts h
        cases h
        exact headOf_refers_to_none kind vs hf
  · rw [n.place.element_of_size_le (Nat.le_of_not_lt he)]
    revert f
    decide

mutual

theorem identifiers_lt (self : Nat) :
    ∀ (n : Node) (k : Key) (t : Nat), (k, t) ∈ n.identifiers self → t < self + n.size
  | mk head id references children, k, t, ht => by
    simp only [identifiers, List.mem_append] at ht
    simp only [size]
    rcases ht with ht | ht
    · cases id with
      | none => cases ht
      | some k =>
        cases List.mem_singleton.mp ht
        omega
    · have hlt := identifiersOf_lt (self + 1) children k t ht
      omega

theorem identifiersOf_lt (next : Nat) :
    ∀ (children : List (Field × Node)) (k : Key) (t : Nat), (k, t) ∈ identifiersOf next children →
      t < next + sizes children
  | [], _, _, ht => nomatch ht
  | (f, n) :: rest, k, t, ht => by
    simp only [identifiersOf, List.mem_append] at ht
    simp only [sizes]
    rcases ht with ht | ht
    · have hlt := identifiers_lt next n k t ht
      omega
    · have hlt := identifiersOf_lt (next + n.size) rest k t ht
      omega

end

end Node

namespace Document

theorem tree_of_sameTree {m m' : Model} (h : SameTree m m') (hm : m.Tree) : m'.Tree := by
  have hparent (e : ElementId) : (m'.element e).parent = (m.element e).parent :=
    Option.some.inj (h.field e .parent (by decide))
  have hfamily {e : Nat} {cs : List (Field × Nat)} (hcs : m.Family e cs) : m'.Family e cs := by
    refine ⟨fun f hf => ?_, hcs.field, hcs.increasing, fun c hc => ?_⟩
    · have hnot : ∀ f ∈ Field.containment, f ∉ referenceFields := by decide
      rw [← hcs.contents f hf, Element.contents, Element.contents, h.field e f (hnot f hf)]
    · rw [h.size, hparent]
      exact hcs.below c hc
  refine ⟨(hparent 0).trans hm.root, fun e => ?_, fun e he h0 => ?_⟩
  · obtain ⟨cs, hcs⟩ := hm.family e
    exact ⟨cs, hfamily hcs⟩
  · rw [h.size] at he
    obtain ⟨p, cs, f, hcs, hmem⟩ := hm.member e he h0
    exact ⟨p, cs, f, hfamily hcs, hmem⟩

theorem tree_of_ofJson {j : Json} {doc : Document} (h : ofJson j = .ok doc) : doc.model.Tree := by
  obtain ⟨_, n, hn, hm⟩ := ofJson_parts h
  exact tree_of_sameTree (sameTree_resolve (Node.openReferences_field hn 0) hm) (Node.tree_place hn)

/-- The fields that lead from an element to others outside of its own tree. -/
def linkFields : List Field := [.type, .reference, .source, .target]

def Linked (m : Model) : Prop :=
  ∀ e, ∀ f ∈ linkFields, ∀ x, (m.element e).get? f = some (.ref x) → x < m.size

theorem linked_set {m : Model} (h : Linked m) (e : ElementId) {f : Field} {v : Value}
    (hv : f ∈ linkFields → ∀ x, v = .ref x → x < m.size) : Linked (m.set e f v) := by
  intro y g hg x hx
  rw [m.size_set]
  rcases m.element_set e y f v with hsame | hset
  · rw [hsame] at hx
    exact h y g hg x hx
  · rw [hset] at hx
    by_cases hfg : f = g
    · subst hfg
      rw [Element.get?_set_self, Option.some.injEq] at hx
      exact hv hg x hx
    · rw [Element.get?_set_of_ne _ _ hfg] at hx
      exact h y g hg x hx

theorem linked_resolved {m : Model} (h : Linked m) (o : Node.OpenReference) {target : ElementId}
    (ht : target < m.size) : Linked (resolved m o target) := by
  unfold resolved
  split
  · exact linked_set h _ fun hf => absurd hf (by decide)
  · refine linked_set h _ fun _ x hx => ?_
    cases hx
    exact ht

theorem lookup_mem {ids : List (Key × ElementId)} {k : Key} {t : ElementId}
    (h : lookup ids k = some t) : (k, t) ∈ ids := by
  obtain ⟨i, hi, rfl⟩ := Option.map_eq_some_iff.mp h
  have hkey : i.1 = k := by simpa using List.find?_some hi
  rw [← hkey]
  exact List.mem_reverse.mp (List.mem_of_find?_eq_some hi)

theorem linked_resolve {ids : List (Key × ElementId)} {m m' : Model}
    {os : List Node.OpenReference} (hids : ∀ k t, (k, t) ∈ ids → t < m.size) (hm : Linked m)
    (h : resolve ids m os = .ok m') : Linked m' := by
  induction os generalizing m with
  | nil =>
    cases h
    exact hm
  | cons o os ih =>
    obtain ⟨k, t, -, hlookup, h⟩ := resolve_cons_ok h
    have ht := hids k t (lookup_mem hlookup)
    have hsize : (resolved m o t).size = m.size := by
      unfold resolved
      split <;> exact m.size_set ..
    refine ih (fun k t hkt => ?_) (linked_resolved hm o ht) h
    rw [hsize]
    exact hids k t hkt

theorem size_pos_of_ofJson {j : Json} {doc : Document} (h : ofJson j = .ok doc) :
    0 < doc.model.size := by
  obtain ⟨_, n, hn, hm⟩ := ofJson_parts h
  rw [(sameTree_resolve (Node.openReferences_field hn 0) hm).size, n.size_place]
  exact n.size_pos

theorem linked_of_ofJson {j : Json} {doc : Document} (h : ofJson j = .ok doc) :
    Linked doc.model := by
  obtain ⟨_, n, hn, hm⟩ := ofJson_parts h
  refine linked_resolve (fun k t ht => ?_) (fun e f hf x hx => ?_) hm
  · have hlt := n.identifiers_lt 0 k t ht
    rwa [Nat.zero_add, ← n.size_place] at hlt
  · have hfields : ∀ f ∈ linkFields, f ∈ referenceFields := by decide
    have hnone := Node.refers_to_none hn e (hfields f hf)
    rw [hx] at hnone
    cases hnone

end Document

namespace Model

variable {m : Model}

theorem childAt?_ok {e c : ElementId} {place : Field × Nat} (h : m.childAt? e place = some c) :
    place.1 ∈ Field.containment ∧ ((m.element e).contents place.1)[place.2]? = some c := by
  unfold childAt? at h
  split at h
  · exact ⟨‹_›, h⟩
  · cases h

theorem Family.mem {e c : Nat} {cs : List (Field × Nat)} (h : m.Family e cs) {place : Field × Nat}
    (hc : m.childAt? e place = some c) : (place.1, c) ∈ cs := by
  obtain ⟨hplace, hc⟩ := childAt?_ok hc
  rw [h.contents _ hplace] at hc
  obtain ⟨⟨f, x⟩, hx, rfl⟩ := List.mem_map.mp (List.mem_of_getElem? hc)
  obtain ⟨hx, hf⟩ := List.mem_filter.mp hx
  cases of_decide_eq_true hf
  exact hx

namespace Tree

theorem child (h : m.Tree) {e c : Nat} {place : Field × Nat} (hc : m.childAt? e place = some c) :
    e < c ∧ c < m.size ∧ (m.element c).parent = .ref e := by
  obtain ⟨cs, hcs⟩ := h.family e
  exact hcs.below _ (hcs.mem hc)

theorem nodup_contents (h : m.Tree) (e : Nat) {f : Field} (hf : f ∈ Field.containment) :
    ((m.element e).contents f).Nodup := by
  obtain ⟨cs, hcs⟩ := h.family e
  have hnodup : (cs.map (·.2)).Nodup := hcs.increasing.imp Nat.ne_of_lt
  rw [hcs.contents f hf]
  exact hnodup.sublist (List.filter_sublist.map _)

theorem childAt_injective (h : m.Tree) {e c : Nat} {a b : Field × Nat}
    (ha : m.childAt? e a = some c) (hb : m.childAt? e b = some c) : a = b := by
  obtain ⟨cs, hcs⟩ := h.family e
  have hnodup : (cs.map (·.2)).Nodup := hcs.increasing.imp Nat.ne_of_lt
  have hfield : (a.1, c) = (b.1, c) :=
    List.inj_on_of_nodup_map hnodup (hcs.mem ha) (hcs.mem hb) rfl
  obtain ⟨f, i⟩ := a
  obtain ⟨g, k⟩ := b
  cases hfield
  obtain ⟨hf, ha⟩ := childAt?_ok ha
  obtain ⟨-, hb⟩ := childAt?_ok hb
  have hlt : i < ((m.element e).contents f).length := (List.getElem?_eq_some_iff.mp ha).1
  rw [(List.getElem?_inj hlt (h.nodup_contents e hf)).mp (ha.trans hb.symm)]

theorem exists_parent (h : m.Tree) {e : Nat} (he : e < m.size) (h0 : e ≠ 0) :
    ∃ p place, m.childAt? p place = some e := by
  obtain ⟨p, cs, f, hcs, hmem⟩ := h.member e he h0
  have hf := hcs.field _ hmem
  have hin : e ∈ (m.element p).contents f := by
    rw [hcs.contents f hf]
    exact List.mem_map.mpr ⟨(f, e), List.mem_filter.mpr ⟨hmem, by simp⟩, rfl⟩
  obtain ⟨i, hi⟩ := List.getElem?_of_mem hin
  refine ⟨p, (f, i), ?_⟩
  rw [childAt?, if_pos hf]
  exact hi

end Tree

theorem follow_cons (e : ElementId) (place : Field × Nat) (path : List (Field × Nat)) :
    m.follow e (place :: path) = (m.childAt? e place).bind fun c => m.follow c path := by
  simp [follow, Option.bind_eq_bind]

theorem follow_concat {e x : ElementId} {path : List (Field × Nat)} {place : Field × Nat} :
    m.follow e (path ++ [place]) = some x ↔
      ∃ p, m.follow e path = some p ∧ m.childAt? p place = some x := by
  simp [follow, List.foldlM_append, Option.bind_eq_some_iff]

namespace Tree

theorem follow_range (h : m.Tree) {e x : Nat} {path : List (Field × Nat)}
    (hx : m.follow e path = some x) : e + path.length ≤ x ∧ (e < m.size → x < m.size) := by
  induction path generalizing e with
  | nil =>
    cases hx
    exact ⟨Nat.le_refl _, id⟩
  | cons place path ih =>
    rw [follow_cons] at hx
    obtain ⟨c, hc, hx⟩ := Option.bind_eq_some_iff.mp hx
    obtain ⟨hlt, hsize, -⟩ := h.child hc
    obtain ⟨hle, hrest⟩ := ih hx
    rw [List.length_cons]
    exact ⟨by omega, fun _ => hrest hsize⟩

/-- No two paths from one element lead to the same one. The last step of a path is known from where
it ends, so the induction takes paths apart from behind. -/
theorem follow_injective (h : m.Tree) {e x : Nat} {a b : List (Field × Nat)}
    (ha : m.follow e a = some x) (hb : m.follow e b = some x) : a = b := by
  induction a using List.reverseRecOn generalizing x b with
  | nil =>
    cases ha
    obtain ⟨hle, -⟩ := h.follow_range hb
    exact (List.eq_nil_of_length_eq_zero (by omega)).symm
  | append_singleton a place ih =>
    obtain ⟨p, hp, hplace⟩ := follow_concat.mp ha
    obtain ⟨-, -, hparent⟩ := h.child hplace
    rcases List.eq_nil_or_concat b with rfl | ⟨b, place', rfl⟩
    · cases hb
      have hle := (h.follow_range ha).1
      simp only [List.length_append, List.length_singleton] at hle
      omega
    · rw [List.concat_eq_append] at hb ⊢
      obtain ⟨q, hq, hplace'⟩ := follow_concat.mp hb
      obtain ⟨-, -, hparent'⟩ := h.child hplace'
      rw [hparent] at hparent'
      cases hparent'
      rw [ih hp hq, h.childAt_injective hplace hplace']

theorem reached (h : m.Tree) {e : Nat} (he : e < m.size) : ∃ path, m.follow 0 path = some e := by
  induction e using Nat.strongRecOn with
  | ind e ih =>
    by_cases h0 : e = 0
    · exact ⟨[], by rw [h0]; rfl⟩
    · obtain ⟨p, place, hp⟩ := h.exists_parent he h0
      obtain ⟨hlt, -, -⟩ := h.child hp
      obtain ⟨path, hpath⟩ := ih p hlt (by omega)
      exact ⟨path ++ [place], follow_concat.mpr ⟨p, hpath, hp⟩⟩

end Tree

def ownedWalk (m : Model) : Nat → ElementId → List ElementId
  | 0, _ => []
  | n + 1, e => e :: (m.ownedIds e).flatMap (m.ownedWalk n)

theorem walkWithin_eq (h : m.OwnedLists) (n : Nat) (e : ElementId) :
    m.walkWithin n (.ref e) = .ok (m.ownedWalk n e) := by
  induction n generalizing e with
  | zero => rfl
  | succ n ih =>
    obtain ⟨es, hes⟩ := h e
    have hbelow : (es.map Value.ref).mapM (m.walkWithin n) = .ok (es.map (m.ownedWalk n)) := by
      rw [except_mapM_ok, List.forall₂_map_left_iff, List.forall₂_map_right_iff]
      exact List.forall₂_same.mpr fun c _ => ih c
    rw [walkWithin, hes, members, Value.members?, except_ok_bind, hbelow, except_ok_bind, ownedWalk,
      ownedIds, hes, List.flatMap_def]
    rfl

theorem contents_owned (h : m.OwnedLists) (e : ElementId) :
    (m.element e).contents .owned = m.ownedIds e := by
  obtain ⟨es, hes⟩ := h e
  rw [Element.contents, Element.get?, ownedIds, hes]
  rfl

theorem mem_ownedIds (h : m.OwnedLists) {e c : ElementId} :
    c ∈ m.ownedIds e ↔ ∃ i, m.childAt? e (.owned, i) = some c := by
  have hchild (i : Nat) : m.childAt? e (.owned, i) = (m.ownedIds e)[i]? := by
    rw [← contents_owned h e]
    rfl
  simp only [hchild]
  exact List.mem_iff_getElem?

namespace Tree

theorem mem_ownedWalk (hm : m.OwnedLists) {n : Nat} {e x : ElementId} :
    x ∈ m.ownedWalk n e ↔
      ∃ path, (∀ p ∈ path, p.1 = .owned) ∧ path.length < n ∧ m.follow e path = some x := by
  induction n generalizing e with
  | zero => simp [ownedWalk]
  | succ n ih =>
    simp only [ownedWalk, List.mem_cons, List.mem_flatMap, mem_ownedIds hm, ih]
    constructor
    · rintro (rfl | ⟨c, ⟨i, hi⟩, path, howned, hlength, hpath⟩)
      · exact ⟨[], fun _ hp => absurd hp List.not_mem_nil, Nat.succ_pos n, rfl⟩
      · refine ⟨(.owned, i) :: path, List.forall_mem_cons.mpr ⟨rfl, howned⟩, ?_, ?_⟩
        · rw [List.length_cons]
          omega
        · rw [follow_cons, hi]
          exact hpath
    · rintro ⟨path, howned, hlength, hpath⟩
      cases path with
      | nil =>
        cases hpath
        exact .inl rfl
      | cons place path =>
        obtain ⟨f, i⟩ := place
        obtain ⟨hplace, hrest⟩ := List.forall_mem_cons.mp howned
        cases hplace
        rw [follow_cons] at hpath
        obtain ⟨c, hc, hpath⟩ := Option.bind_eq_some_iff.mp hpath
        exact .inr ⟨c, ⟨i, hc⟩, path, hrest, Nat.lt_of_succ_lt_succ hlength, hpath⟩

theorem nodup_ownedWalk (h : m.Tree) (hm : m.OwnedLists) (n : Nat) (e : ElementId) :
    (m.ownedWalk n e).Nodup := by
  induction n generalizing e with
  | zero => exact .nil
  | succ n ih =>
    have hnodup : (m.ownedIds e).Nodup :=
      contents_owned hm e ▸ h.nodup_contents e (by decide)
    refine List.nodup_cons.mpr ⟨fun hin => ?_, List.nodup_flatMap.mpr ⟨fun c _ => ih c, ?_⟩⟩
    · obtain ⟨c, hc, hx⟩ := List.mem_flatMap.mp hin
      obtain ⟨i, hi⟩ := (mem_ownedIds hm).mp hc
      obtain ⟨path, -, -, hpath⟩ := (mem_ownedWalk hm).mp hx
      have hlt := (h.child hi).1
      have hle := (h.follow_range hpath).1
      omega
    · -- What is met below two children is reached in two ways, which cannot be.
      refine hnodup.pairwise_of_forall_ne fun c hc d hd hne x hxc hxd => hne ?_
      obtain ⟨i, hi⟩ := (mem_ownedIds hm).mp hc
      obtain ⟨k, hk⟩ := (mem_ownedIds hm).mp hd
      obtain ⟨p, -, -, hp⟩ := (mem_ownedWalk hm).mp hxc
      obtain ⟨q, -, -, hq⟩ := (mem_ownedWalk hm).mp hxd
      have hpaths : (Field.owned, i) :: p = (Field.owned, k) :: q := by
        refine h.follow_injective (e := e) (x := x) ?_ ?_
        · rw [follow_cons, hi]
          exact hp
        · rw [follow_cons, hk]
          exact hq
      cases hpaths
      rw [hi] at hk
      exact Option.some.inj hk

end Tree

end Model

/-- A document that has been read is a tree. Every element is reached from the root on exactly one
path, the one that holds an element is its parent, and only the root has none. So all elements have
one root and one list of relationships, no walk meets an element twice, and no link leads out of the
tree. -/
theorem document_is_tree {j : Json} {doc : Document} (h : Document.ofJson j = .ok doc) :
    let m := doc.model
    (∀ e, (∃ path, m.follow doc.root path = some e) ↔ e < m.size) ∧
    (∀ e < m.size, ∃! path, m.follow doc.root path = some e) ∧
    (m.element doc.root).parent = .absent ∧
    (∀ e < m.size, e ≠ doc.root → ∃ p < m.size, ∃ place, m.childAt? p place = some e) ∧
    (∀ e c place, m.childAt? e place = some c → (m.element c).parent = .ref e) ∧
    (∀ e < m.size, m.root e = .ok doc.root) ∧
    (∀ e < m.size, ∃ walked, m.walk e = .ok walked ∧ walked.Nodup ∧ ∀ x, x ∈ walked ↔
      ∃ path, (∀ p ∈ path, p.1 = .owned) ∧ m.follow e path = some x) ∧
    (∃ walked, m.walk doc.root = .ok walked ∧ ∀ e < m.size, Repository.around m e =
      .ok ⟨m, walked.filter fun r => (m.element r).isA .relationship⟩) ∧
    (∀ e, ∀ f ∈ Document.linkFields, ∀ x, (m.element e).get? f = some (.ref x) →
      ∃ path, m.follow doc.root path = some x) := by
  intro m
  have htree : m.Tree := Document.tree_of_ofJson h
  have hnested : m.Nested := Document.nested_of_ofJson h
  have howned := hnested.ownedLists
  have hroot : doc.root = 0 := (Document.ofJson_parts h).1
  rw [hroot]
  have hwalk (e : ElementId) : m.walk e = .ok (m.ownedWalk (m.size + 1) e) :=
    Model.walkWithin_eq howned _ e
  refine ⟨fun e => ⟨?_, htree.reached⟩, fun e he => ?_, htree.root, fun e he h0 => ?_,
    fun e c place hc => (htree.child hc).2.2, fun e he => hnested.root_eq he, ?_, ?_, ?_⟩
  · rintro ⟨path, hpath⟩
    exact (htree.follow_range hpath).2 (Document.size_pos_of_ofJson h)
  · obtain ⟨path, hpath⟩ := htree.reached he
    exact ⟨path, hpath, fun other hother => htree.follow_injective hother hpath⟩
  · obtain ⟨p, place, hp⟩ := htree.exists_parent he h0
    exact ⟨p, Nat.lt_trans (htree.child hp).1 he, place, hp⟩
  · intro e he
    refine ⟨_, hwalk e, htree.nodup_ownedWalk howned _ e, fun x => ?_⟩
    rw [Model.Tree.mem_ownedWalk howned]
    constructor
    · rintro ⟨path, hpath, -, hx⟩
      exact ⟨path, hpath, hx⟩
    · rintro ⟨path, hpath, hx⟩
      obtain ⟨hle, hlt⟩ := htree.follow_range hx
      have hsize := hlt he
      exact ⟨path, hpath, by omega, hx⟩
  · refine ⟨_, hwalk 0, fun e he => ?_⟩
    rw [Repository.around, hnested.root_eq he, except_ok_bind, Repository.below, hwalk]
    rfl
  · intro e f hf x hx
    exact htree.reached (Document.linked_of_ofJson h e f hf x hx)

/-- A class with an interface and an association in it. Only one end of the association is given,
and an attribute of the class refers to the interface as well. -/
def smallTree : Json :=
  plainNode "Project" "Shop"
    [plainNode "UMLClass" "Item"
      [plainNode "UMLInterface" "Named" [] [(Text.ofString "_id", .int 1)],
       plainNode "UMLAssociation" "" []
        [(Text.ofString "end2", .obj [(Text.ofString "_type", .str "UMLAssociationEnd"),
          (Text.ofString "reference", .obj [(Text.ofString "$ref", .bool true)])])]]
      [(Text.ofString "attributes", .arr [.null, .obj [(Text.ofString "_type", .str "UMLAttribute"),
        (Text.ofString "type", .obj [(Text.ofString "$ref", .int 1)])]])]] []

theorem smallTree_is_tree :
    ∃ doc, Document.ofJson smallTree = .ok doc ∧ doc.model.size = 7 ∧
      doc.model.follow doc.root [(.owned, 0), (.owned, 1), (.end2, 0)] = some 6 ∧
      (doc.model.element 6).get? .reference = some (.ref 3) ∧
      (doc.model.element 2).get? .type = some (.ref 3) ∧
      (∃! path, doc.model.follow doc.root path = some 6) ∧
      (∃ path, doc.model.follow doc.root path = some 3) := by
  have h : (match Document.ofJson smallTree with
      | .ok doc => decide (doc.root = 0 ∧ doc.model.size = 7 ∧
          doc.model.follow doc.root [(.owned, 0), (.owned, 1), (.end2, 0)] = some 6 ∧
          (doc.model.element 6).get? .reference = some (.ref 3) ∧
          (doc.model.element 2).get? .type = some (.ref 3))
      | .error _ => false) = true := by decide +kernel
  cases hread : Document.ofJson smallTree with
  | error fault => simp [hread] at h
  | ok doc =>
    simp only [hread, decide_eq_true_eq] at h
    obtain ⟨-, hsize, hpath, hend, hattribute⟩ := h
    obtain ⟨-, honce, -, -, -, -, -, -, hlinks⟩ := document_is_tree hread
    exact ⟨doc, rfl, hsize, hpath, hend, hattribute, honce 6 (by omega),
      hlinks 6 .reference (by decide) 3 hend⟩

end UmlSchema
