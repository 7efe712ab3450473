import UmlSchema.Proofs.Emission
import UmlSchema.Model.Tree
import UmlSchema.Reading.Document

/-!
# Containment in documents

The nodes of a document are numbered in document order, each before its children. A node's children
are told their parent when they are placed, and the references resolved afterwards never touch a
parent or a list of children. So parents have smaller numbers than their children, and every element
of a document has the same root.
-/
namespace UmlSchema

namespace Element

theorem get?_replace_of_ne (x : Element) {f g : Field} (v : Value) (h : f ≠ g) :
    (x.replace f v).get? g = x.get? g := by
  unfold replace
  split
  · exact x.get?_set_of_ne v h
  · rfl

end Element

namespace Model

@[simp] theorem size_set (m : Model) (e : ElementId) (f : Field) (v : Value) :
    (m.set e f v).size = m.size := by
  simp [set, update, size]

theorem element_set (m : Model) (e x : ElementId) (f : Field) (v : Value) :
    (m.set e f v).element x = m.element x ∨ (m.set e f v).element x = (m.element x).set f v := by
  simp only [set, update, element, Array.getD_eq_getD_getElem?, Array.getElem?_modify]
  split
  · cases m.elements[x]? with
    | none => exact .inl rfl
    | some y => exact .inr rfl
  · exact .inl rfl

theorem element_of_size_le (m : Model) {e : ElementId} (h : m.size ≤ e) : m.element e = {} := by
  simp [element, Array.getD_eq_getD_getElem?, Array.getElem?_eq_none h]

end Model

namespace Node

inductive Each (P : Node → Prop) : Node → Prop where
  | mk {head : Element} {id : Option Key} {references : List (Field × Json)}
      {children : List (Field × Node)} (here : P (mk head id references children))
      (below : ∀ c ∈ children, Each P c.2) : Each P (mk head id references children)

/-- A node that stands for nothing in the document, or for one of its objects. -/
def Assembled (n : Node) : Prop := (∃ k, n = blank k) ∨ ∃ vs, assemble vs = .ok n

theorem each_blank (k : Kind) : Each Assembled (blank k) :=
  .mk (.inl ⟨k, rfl⟩) fun _ hc => nomatch hc

def View.Sound (v : View) : Prop :=
  (∀ n, v.node = .ok n → Each Assembled n) ∧ ∀ i ∈ v.items, ∀ n, i.2 = .ok n → Each Assembled n

private theorem member?_sound {vs : Views} (h : ∀ v ∈ vs, v.2.Sound) {name : String} {v : View}
    (hv : member? vs name = some v) : v.Sound := by
  obtain ⟨w, hw, rfl⟩ := Option.map_eq_some_iff.mp hv
  exact h w (List.mem_of_find?_eq_some hw)

theorem mem_items_of_itemsOf {v : View} {items : List (Json × Except ShapeFault Node)}
    (h : itemsOf v = .ok items) {i : Json × Except ShapeFault Node} (hi : i ∈ items) :
    i ∈ v.items := by
  unfold itemsOf at h
  split at h <;> cases h
  · exact hi
  · cases hi
  · cases hi

theorem mem_listChildren {head : Element} {vs : Views} {name : String} {f : Field}
    {cs : List (Field × Node)} (h : listChildren head vs name f = .ok cs) {c : Field × Node}
    (hc : c ∈ cs) : c.1 = f ∧ head.has f = true ∧
      ∃ v, member? vs name = some v ∧ ∃ i ∈ v.items, i.2 = .ok c.2 := by
  unfold listChildren at h
  split at h
  · cases h
    cases hc
  · rename_i v hv
    split at h
    · rename_i hhas
      obtain ⟨items, hitems, h⟩ := except_bind_ok.mp h
      obtain ⟨i, hi, hic⟩ := forall₂_mem_right (except_mapM_ok.mp h) hc
      obtain ⟨n, hn, rfl⟩ := except_map_ok.mp hic
      have hitem := mem_items_of_itemsOf hitems (List.mem_of_mem_filter hi)
      exact ⟨rfl, hhas, v, hv, i, hitem, hn⟩
    · cases h
      cases hc

theorem endChild_ok {vs : Views} {name : String} {f : Field} {c : Field × Node}
    (h : endChild vs name f = .ok c) : c.1 = f ∧
      (c.2 = blank .associationEnd ∨ ∃ v, member? vs name = some v ∧ v.node = .ok c.2) := by
  unfold endChild at h
  split at h
  · rename_i v hv
    split at h
    · obtain ⟨n, hn, rfl⟩ := except_map_ok.mp h
      exact ⟨rfl, .inr ⟨v, hv, hn⟩⟩
    · cases h
      exact ⟨rfl, .inl rfl⟩
  · cases h
    exact ⟨rfl, .inl rfl⟩

theorem endChildren_ok {head : Element} {vs : Views} {cs : List (Field × Node)}
    (h : endChildren head vs = .ok cs) : cs = [] ∨ head.kind = .association ∧
      ∃ first second, endChild vs "end1" .end1 = .ok first ∧
        endChild vs "end2" .end2 = .ok second ∧ cs = [first, second] := by
  unfold endChildren at h
  split at h
  · rename_i hkind
    obtain ⟨first, hfirst, h⟩ := except_bind_ok.mp h
    obtain ⟨second, hsecond, h⟩ := except_bind_ok.mp h
    cases h
    exact .inr ⟨hkind, first, second, hfirst, hsecond, rfl⟩
  · cases h
    exact .inl rfl

theorem mem_ownedFrom {items : List (Json × Except ShapeFault Node)} {cs : List (Field × Node)}
    (h : ownedFrom items = .ok cs) {c : Field × Node} (hc : c ∈ cs) :
    c.1 = .owned ∧ ∃ i ∈ items, i.2 = .ok c.2 := by
  induction items generalizing cs with
  | nil =>
    cases h
    cases hc
  | cons i items ih =>
    obtain ⟨j, node⟩ := i
    have hrest {cs : List (Field × Node)} (h : ownedFrom items = .ok cs) (hc : c ∈ cs) :
        c.1 = .owned ∧ ∃ i ∈ (j, node) :: items, i.2 = .ok c.2 := by
      obtain ⟨hfield, i, hi, hn⟩ := ih h hc
      exact ⟨hfield, i, List.mem_cons_of_mem _ hi, hn⟩
    unfold ownedFrom at h
    split at h
    · exact hrest h hc
    · obtain ⟨diagram, -, h⟩ := except_bind_ok.mp h
      split at h
      · exact hrest h hc
      · obtain ⟨n, hn, h⟩ := except_bind_ok.mp h
        obtain ⟨rest, hr, h⟩ := except_bind_ok.mp h
        cases h
        rcases List.mem_cons.mp hc with rfl | hc
        · exact ⟨rfl, _, List.mem_cons_self, hn⟩
        · exact hrest hr hc

theorem mem_ownedChildren {vs : Views} {cs : List (Field × Node)}
    (h : ownedChildren vs = .ok cs) {c : Field × Node} (hc : c ∈ cs) :
    c.1 = .owned ∧ ∃ v, member? vs "ownedElements" = some v ∧ ∃ i ∈ v.items, i.2 = .ok c.2 := by
  unfold ownedChildren at h
  split at h
  · cases h
    cases hc
  · rename_i v hv
    obtain ⟨items, hitems, h⟩ := except_bind_ok.mp h
    obtain ⟨hfield, i, hi, hn⟩ := mem_ownedFrom h hc
    exact ⟨hfield, v, hv, i, mem_items_of_itemsOf hitems hi, hn⟩

theorem assemble_ok {vs : Views} {n : Node} : assemble vs = .ok n ↔
    ∃ kind id lists ends owned, kindOf (value? vs "_type") = .ok kind ∧ idOf vs = .ok id ∧
      listMembers.mapM (fun (name, f) => listChildren (headOf kind vs) vs name f) = .ok lists ∧
      endChildren (headOf kind vs) vs = .ok ends ∧ ownedChildren vs = .ok owned ∧
      n = mk (headOf kind vs) id (referencesOf (headOf kind vs) vs)
        (lists.flatten ++ ends ++ owned) := by
  unfold assemble
  simp only [except_bind_ok, pure, Except.pure, Except.ok.injEq]
  constructor
  · rintro ⟨kind, hkind, id, hid, lists, hlists, ends, hends, owned, howned, rfl⟩
    exact ⟨kind, id, lists, ends, owned, hkind, hid, hlists, hends, howned, rfl⟩
  · rintro ⟨kind, id, lists, ends, owned, hkind, hid, hlists, hends, howned, rfl⟩
    exact ⟨kind, hkind, id, hid, lists, hlists, ends, hends, owned, howned, rfl⟩

theorem assemble_parts {vs : Views} {n : Node} (h : assemble vs = .ok n) :
    ∃ kind id lists ends owned,
      listMembers.mapM (fun (name, f) => listChildren (headOf kind vs) vs name f) = .ok lists ∧
      endChildren (headOf kind vs) vs = .ok ends ∧ ownedChildren vs = .ok owned ∧
      n = mk (headOf kind vs) id (referencesOf (headOf kind vs) vs)
        (lists.flatten ++ ends ++ owned) := by
  obtain ⟨kind, id, lists, ends, owned, -, -, hparts⟩ := assemble_ok.mp h
  exact ⟨kind, id, lists, ends, owned, hparts⟩

theorem assemble_each {vs : Views} (h : ∀ v ∈ vs, v.2.Sound) {n : Node}
    (hn : assemble vs = .ok n) : Each Assembled n := by
  obtain ⟨kind, id, lists, ends, owned, hlists, hends, howned, rfl⟩ := assemble_parts hn
  have hitem {name : String} {v : View} (hv : member? vs name = some v) {n : Node}
      (hn : ∃ i ∈ v.items, i.2 = .ok n) : Each Assembled n := by
    obtain ⟨i, hi, hn⟩ := hn
    exact (member?_sound h hv).2 i hi n hn
  have hend {name : String} {f : Field} {c : Field × Node} (hc : endChild vs name f = .ok c) :
      Each Assembled c.2 := by
    rcases (endChild_ok hc).2 with hblank | ⟨v, hv, hn⟩
    · exact hblank ▸ each_blank _
    · exact (member?_sound h hv).1 _ hn
  refine .mk (.inr ⟨vs, hn⟩) fun c hc => ?_
  rcases List.mem_append.mp hc with hc | hc
  · rcases List.mem_append.mp hc with hc | hc
    · obtain ⟨cs, hcs, hc⟩ := List.mem_flatten.mp hc
      obtain ⟨_, _, hcs⟩ := forall₂_mem_right (except_mapM_ok.mp hlists) hcs
      obtain ⟨-, -, v, hv, hn⟩ := mem_listChildren hcs hc
      exact hitem hv hn
    · rcases endChildren_ok hends with rfl | ⟨-, first, second, hfirst, hsecond, rfl⟩
      · cases hc
      · rcases List.mem_pair.mp hc with rfl | rfl
        · exact hend hfirst
        · exact hend hsecond
  · obtain ⟨-, v, hv, hn⟩ := mem_ownedChildren howned hc
    exact hitem hv hn

mutual

theorem view_sound : ∀ j : Json, (view j).Sound
  | .obj members => by
    refine ⟨fun n hn => assemble_each (viewMembers_sound members) ?_, fun _ hi => nomatch hi⟩
    simpa only [view] using hn
  | .arr items => by
    refine ⟨fun n hn => ?_, fun i hi => viewItems_sound items i (by simpa only [view] using hi)⟩
    simp only [view, Except.ok.injEq] at hn
    exact hn ▸ each_blank _
  | .null | .bool _ | .int _ | .real _ | .str _ => by
    refine ⟨fun n hn => ?_, fun _ hi => nomatch hi⟩
    simp only [view, Except.ok.injEq] at hn
    exact hn ▸ each_blank _

theorem viewItems_sound : ∀ items : List Json, ∀ i ∈ viewItems items, ∀ n, i.2 = .ok n →
    Each Assembled n
  | [], _, hi, _, _ => nomatch hi
  | j :: items, i, hi, n, hn => by
    simp only [viewItems, List.mem_cons] at hi
    rcases hi with rfl | hi
    · exact (view_sound j).1 n hn
    · exact viewItems_sound items i hi n hn

theorem viewMembers_sound : ∀ members : List (Text × Json), ∀ v ∈ viewMembers members, v.2.Sound
  | [], _, hv => nomatch hv
  | (name, j) :: members, v, hv => by
    simp only [viewMembers, List.mem_cons] at hv
    rcases hv with rfl | hv
    · exact view_sound j
    · exact viewMembers_sound members v hv

end

theorem ofJson_each {j : Json} {n : Node} (h : ofJson j = .ok n) : Each Assembled n :=
  (view_sound j).1 n h

end Node

namespace Node

/-- The node stands in the model at its number, with its children behind it. -/
def Stands (m : Model) (parent : Value) (self : Nat) (n : Node) : Prop :=
  ∀ i < n.size, (n.elements parent self)[i]? = some (m.element (self + i))

def StandFrom (m : Model) (parent next : Nat) (children : List (Field × Node)) : Prop :=
  ∀ i < sizes children, (elementsOf parent next children)[i]? = some (m.element (next + i))

mutual

theorem length_elements (parent : Value) (self : Nat) :
    ∀ n : Node, (n.elements parent self).length = n.size
  | mk head id references children => by
    simp only [elements, size, List.length_cons, length_elementsOf self (self + 1) children]

theorem length_elementsOf (parent next : Nat) :
    ∀ children : List (Field × Node), (elementsOf parent next children).length = sizes children
  | [] => rfl
  | (f, n) :: rest => by
    simp only [elementsOf, sizes, List.length_append, length_elements (.ref parent) next n,
      length_elementsOf parent (next + n.size) rest]

end

theorem size_pos (n : Node) : 0 < n.size := by
  cases n
  exact Nat.succ_pos _

def linked (parent : Value) (self : Nat) (head : Element) (children : List (Field × Node)) :
    Element :=
  { (childIds (self + 1) children).foldl attach head with parent := parent }

theorem stands_mk {m : Model} {parent : Value} {self : Nat} {head : Element}
    {id : Option Key} {references : List (Field × Json)} {children : List (Field × Node)}
    (h : Stands m parent self (mk head id references children)) :
    m.element self = linked parent self head children ∧ StandFrom m self (self + 1) children := by
  constructor
  · have h0 := h 0 (size_pos _)
    simp only [elements, List.getElem?_cons_zero, Nat.add_zero, Option.some.injEq] at h0
    exact h0.symm
  · intro i hi
    have h1 := h (i + 1) (by simp only [size]; omega)
    simp only [elements, List.getElem?_cons_succ] at h1
    rw [h1, Nat.add_right_comm self 1 i]
    rfl

theorem standFrom_cons {m : Model} {parent next : Nat} {f : Field} {n : Node}
    {rest : List (Field × Node)} (h : StandFrom m parent next ((f, n) :: rest)) :
    Stands m (.ref parent) next n ∧ StandFrom m parent (next + n.size) rest := by
  have hlen := length_elements (.ref parent) next n
  constructor
  · intro i hi
    have h0 := h i (by simp only [sizes]; omega)
    rwa [elementsOf, List.getElem?_append_left (by omega)] at h0
  · intro i hi
    have h1 := h (n.size + i) (by simp only [sizes]; omega)
    rw [elementsOf, List.getElem?_append_right (by omega), hlen, Nat.add_sub_cancel_left] at h1
    rw [h1, Nat.add_assoc]

theorem stands_place (n : Node) : Stands n.place .absent 0 n := by
  intro i hi
  have hi : i < (n.elements .absent 0).length := by rwa [length_elements]
  simp [place, Model.element, Array.getD_eq_getD_getElem?, List.getElem?_eq_getElem hi]

theorem size_place (n : Node) : n.place.size = n.size := by
  simp [place, Model.size, length_elements]

theorem parent_of_stands {m : Model} {parent : Value} {self : Nat} {n : Node}
    (h : Stands m parent self n) : (m.element self).parent = parent := by
  cases n
  rw [(stands_mk h).1, linked]

theorem childIds_stand {m : Model} {parent next : Nat} {children : List (Field × Node)}
    (h : StandFrom m parent next children) {f : Field} {c : Nat}
    (hc : (f, c) ∈ childIds next children) :
    next ≤ c ∧ c < next + sizes children ∧ (m.element c).parent = .ref parent := by
  induction children generalizing next with
  | nil => cases hc
  | cons child rest ih =>
    obtain ⟨g, n⟩ := child
    obtain ⟨hn, hrest⟩ := standFrom_cons h
    have hpos := n.size_pos
    simp only [sizes]
    rcases List.mem_cons.mp hc with heq | hc
    · cases heq
      exact ⟨Nat.le_refl _, by omega, parent_of_stands hn⟩
    · obtain ⟨hle, hlt, hp⟩ := ih hrest hc
      exact ⟨by omega, by omega, hp⟩

theorem standFrom_cover {m : Model} {parent next e : Nat} {children : List (Field × Node)}
    (h : StandFrom m parent next children) (hle : next ≤ e) (hlt : e < next + sizes children) :
    ∃ c ∈ children, ∃ s : Nat, (c.1, s) ∈ childIds next children ∧ next ≤ s ∧ s ≤ e ∧
      e < s + c.2.size ∧ s + c.2.size ≤ next + sizes children ∧
      Stands m (.ref parent) s c.2 := by
  induction children generalizing next with
  | nil => simp only [sizes] at hlt; omega
  | cons child rest ih =>
    obtain ⟨g, n⟩ := child
    obtain ⟨hn, hrest⟩ := standFrom_cons h
    simp only [sizes] at hlt ⊢
    by_cases he : e < next + n.size
    · exact ⟨(g, n), List.mem_cons_self, next, List.mem_cons_self, Nat.le_refl _, hle, he,
        Nat.add_le_add_left (Nat.le_add_right _ _) _, hn⟩
    · obtain ⟨c, hc, s, hmem, hs, hse, hlt, hend, hstands⟩ := ih hrest (by omega) (by omega)
      exact ⟨c, List.mem_cons_of_mem _ hc, s, List.mem_cons_of_mem _ hmem, by omega, hse, hlt,
        by omega, hstands⟩

theorem attach_list {x : Element} {f : Field} {es : List Nat}
    (h : x.get? f = some (.refs es)) (c : Nat) :
    (attach x (f, c)).get? f = some (.refs (es ++ [c])) := by
  simp [attach, h]

theorem attach_other (x : Element) {f g : Field} (c : Nat) (h : g ≠ f) :
    (attach x (g, c)).get? f = x.get? f := by
  unfold attach
  split <;> exact x.get?_set_of_ne _ h

theorem attachAll_list {x : Element} {f : Field} {es : List Nat}
    (h : x.get? f = some (.refs es)) (cs : List (Field × ElementId)) :
    (cs.foldl attach x).get? f =
      some (.refs (es ++ (cs.filter fun c => c.1 = f).map (·.2))) := by
  induction cs generalizing x es with
  | nil => simpa using h
  | cons c cs ih =>
    obtain ⟨g, c⟩ := c
    by_cases hg : g = f
    · subst hg
      rw [List.foldl_cons, ih (attach_list h c)]
      simp
    · rw [List.foldl_cons, ih ((attach_other x c hg).trans h)]
      simp [hg]

def copiedFields : List Field := textMembers.map (·.2) ++ [.isAbstract, .navigable]

def copyText (vs : Views) (x : Element) (t : String × Field) : Element :=
  match value? vs t.1 with
  | some (.str s) => x.replace t.2 (.text s)
  | _ => x

theorem headOf_eq (k : Kind) (vs : Views) : headOf k vs =
    ((textMembers.foldl (copyText vs) (.blank k)).replace .isAbstract
      (.flag ((value? vs "isAbstract").getD .null).isTrue)).replace .navigable
        (.flag (isNavigable ((value? vs "navigable").getD .null))) := rfl

theorem headOf_induction (k : Kind) (vs : Views) {P : Element → Prop} (hblank : P (.blank k))
    (hcopy : ∀ x, ∀ f ∈ copiedFields, ∀ v, (∃ t, v = .text t) ∨ (∃ b, v = .flag b) → P x →
      P (x.replace f v)) : P (headOf k vs) := by
  have htexts : ∀ ts : List (String × Field), (∀ t ∈ ts, t.2 ∈ copiedFields) → ∀ x, P x →
      P (ts.foldl (copyText vs) x) := by
    intro ts
    induction ts with
    | nil => exact fun _ x hx => hx
    | cons t ts ih =>
      intro hts x hx
      obtain ⟨hfield, hts⟩ := List.forall_mem_cons.mp hts
      refine ih hts _ ?_
      unfold copyText
      split
      · exact hcopy x t.2 hfield _ (.inl ⟨_, rfl⟩) hx
      · exact hx
  rw [headOf_eq]
  have hall := htexts textMembers (by decide) _ hblank
  exact hcopy _ _ (by decide) _ (.inr ⟨_, rfl⟩) (hcopy _ _ (by decide) _ (.inr ⟨_, rfl⟩) hall)

theorem get?_headOf (k : Kind) (vs : Views) {f : Field} (hf : f ∉ copiedFields) :
    (headOf k vs).get? f = (Element.blank k).get? f := by
  refine headOf_induction k vs (P := fun x => x.get? f = (Element.blank k).get? f) rfl ?_
  intro x g hg v _ hx
  have hne : g ≠ f := fun h => hf (h ▸ hg)
  rw [x.get?_replace_of_ne v hne, hx]

theorem owned_of_assembled {head : Element} {id : Option Key} {references : List (Field × Json)}
    {children : List (Field × Node)} (h : Assembled (mk head id references children)) :
    head.get? .owned = some (.refs []) := by
  rcases h with ⟨k, h⟩ | ⟨vs, h⟩
  · cases h
    rfl
  · obtain ⟨kind, _, _, _, _, _, _, _, h⟩ := assemble_parts h
    cases h
    exact get?_headOf kind vs (by decide)

end Node

/-- Parents have smaller numbers than their children, what an element owns has that element as its
parent, and only the root has none. -/
structure Model.Nested (m : Model) : Prop where
  root : (m.element 0).parent = .absent
  parent : ∀ e < m.size, e ≠ 0 → ∃ p < e, (m.element e).parent = .ref p
  owned : ∀ e : Nat, ∃ es : List Nat, (m.element e).owned = .refs es ∧
    ∀ c ∈ es, e < c ∧ c < m.size ∧ (m.element c).parent = .ref e

namespace Node

def children : Node → List (Field × Node)
  | mk _ _ _ children => children

/-- The element of a number is made from a node of the document. -/
structure MadeFrom (m : Model) (e : Nat) (n : Node) : Prop where
  assembled : Assembled n
  stands : ∃ parent, Stands m parent e n
  within : e + n.size ≤ m.size

theorem exists_madeFrom {m : Model} {n : Node} (hn : Each Assembled n) :
    ∀ (parent : Value) (self : Nat), Stands m parent self n → self + n.size ≤ m.size →
      ∀ e, self ≤ e → e < self + n.size → (∃ n', MadeFrom m e n') ∧
        (e = self ∨ ∃ p n' f, MadeFrom m p n' ∧ (f, e) ∈ childIds (p + 1) n'.children) := by
  induction hn with
  | @mk head id references children here _ ih =>
    intro parent self hs hbound e hle hlt
    have hmade : MadeFrom m self (mk head id references children) := ⟨here, ⟨parent, hs⟩, hbound⟩
    obtain ⟨-, hchildren⟩ := stands_mk hs
    simp only [size] at hbound hlt
    by_cases he : e = self
    · subst he
      exact ⟨⟨_, hmade⟩, .inl rfl⟩
    · obtain ⟨c, hc, s, hmem, hs, hse, hes, hend, hstands⟩ :=
        standFrom_cover (e := e) hchildren (by omega) (by omega)
      obtain ⟨hown, hup⟩ := ih c hc _ s hstands (by omega) e hse hes
      refine ⟨hown, .inr ?_⟩
      rcases hup with rfl | hup
      · exact ⟨self, _, c.1, hmade, hmem⟩
      · exact hup

theorem exists_madeFrom_place {n : Node} (hn : Each Assembled n) {e : Nat}
    (he : e < n.place.size) : (∃ n', MadeFrom n.place e n') ∧
      (e = 0 ∨ ∃ p n' f, MadeFrom n.place p n' ∧ (f, e) ∈ childIds (p + 1) n'.children) := by
  have hsize : 0 + n.size = n.place.size := by rw [Nat.zero_add, n.size_place]
  exact exists_madeFrom hn _ _ n.stands_place (Nat.le_of_eq hsize) e (Nat.zero_le e) (hsize ▸ he)

namespace MadeFrom

variable {m : Model} {e : Nat} {n : Node}

theorem child (h : MadeFrom m e n) {f : Field} {c : Nat}
    (hc : (f, c) ∈ childIds (e + 1) n.children) :
    e < c ∧ c < m.size ∧ (m.element c).parent = .ref e := by
  obtain ⟨-, ⟨parent, hs⟩, hbound⟩ := h
  cases n with
  | mk head id references children =>
    obtain ⟨-, hchildren⟩ := stands_mk hs
    obtain ⟨hlo, hhi, hparent⟩ := childIds_stand hchildren hc
    simp only [size] at hbound
    exact ⟨by omega, by omega, hparent⟩

theorem owned (h : MadeFrom m e n) : (m.element e).owned =
    .refs (((childIds (e + 1) n.children).filter fun c => c.1 = .owned).map (·.2)) := by
  obtain ⟨here, ⟨parent, hs⟩, -⟩ := h
  cases n with
  | mk head id references children =>
    have howned := attachAll_list (owned_of_assembled here) (childIds (e + 1) children)
    exact (congrArg Element.owned (stands_mk hs).1).trans (Option.some.inj howned)

end MadeFrom

theorem nested_place {n : Node} (hn : Each Assembled n) : n.place.Nested := by
  refine ⟨parent_of_stands n.stands_place, fun e he h0 => ?_, fun e => ?_⟩
  · obtain ⟨p, n', f, hmade, hmem⟩ := (exists_madeFrom_place hn he).2.resolve_left h0
    obtain ⟨hlt, -, hparent⟩ := hmade.child hmem
    exact ⟨p, hlt, hparent⟩
  · by_cases he : e < n.place.size
    · obtain ⟨⟨n', hmade⟩, -⟩ := exists_madeFrom_place hn he
      refine ⟨_, hmade.owned, fun c hc => ?_⟩
      obtain ⟨⟨f, x⟩, hx, rfl⟩ := List.mem_map.mp hc
      exact hmade.child (List.mem_filter.mp hx).1
    · rw [n.place.element_of_size_le (Nat.le_of_not_lt he)]
      exact ⟨[], rfl, fun _ hc => nomatch hc⟩

end Node

namespace Document

def referenceFields : List Field := Node.referenceMembers.map (·.2)

/-- A model in which only references differ from those of another. -/
structure SameTree (m m' : Model) : Prop where
  size : m'.size = m.size
  kind : ∀ e, (m'.element e).kind = (m.element e).kind
  field : ∀ e f, f ∉ referenceFields → (m'.element e).get? f = (m.element e).get? f

theorem SameTree.refl (m : Model) : SameTree m m := ⟨rfl, fun _ => rfl, fun _ _ _ => rfl⟩

theorem SameTree.trans {a b c : Model} (h : SameTree a b) (k : SameTree b c) : SameTree a c :=
  ⟨k.size.trans h.size, fun e => (k.kind e).trans (h.kind e),
    fun e f hf => (k.field e f hf).trans (h.field e f hf)⟩

theorem sameTree_set (m : Model) (e : ElementId) {f : Field} (v : Value)
    (hf : f ∈ referenceFields) : SameTree m (m.set e f v) := by
  refine ⟨m.size_set e f v, fun x => ?_, fun x g hg => ?_⟩
  · rcases m.element_set e x f v with h | h <;> simp [h]
  · have hne : f ≠ g := fun h => hg (h ▸ hf)
    rcases m.element_set e x f v with h | h
    · rw [h]
    · rw [h, Element.get?_set_of_ne _ _ hne]

theorem sameTree_resolved (m : Model) {o : Node.OpenReference} (target : ElementId)
    (ho : o.field ∈ referenceFields) : SameTree m (resolved m o target) := by
  unfold resolved
  split
  · exact sameTree_set m _ _ (by decide)
  · exact sameTree_set m _ _ ho

theorem resolve_cons_ok {ids : List (Key × ElementId)} {m m' : Model} {o : Node.OpenReference}
    {os : List Node.OpenReference} (h : resolve ids m (o :: os) = .ok m') :
    ∃ k t, Key.ofJson? o.id = some k ∧ lookup ids k = some t ∧
      resolve ids (resolved m o t) os = .ok m' := by
  unfold resolve at h
  split at h
  · cases h
  · rename_i k hk
    split at h
    · cases h
    · rename_i t ht
      exact ⟨k, t, hk, ht, h⟩

theorem sameTree_resolve {ids : List (Key × ElementId)} {m m' : Model}
    {os : List Node.OpenReference} (ho : ∀ o ∈ os, o.field ∈ referenceFields)
    (h : resolve ids m os = .ok m') : SameTree m m' := by
  induction os generalizing m with
  | nil =>
    cases h
    exact .refl _
  | cons o os ih =>
    obtain ⟨k, t, -, -, h⟩ := resolve_cons_ok h
    have hrest := ih (fun p hp => ho p (List.mem_cons_of_mem _ hp)) h
    exact (sameTree_resolved m t (ho o List.mem_cons_self)).trans hrest

theorem nested_of_sameTree {m m' : Model} (h : SameTree m m') (hm : m.Nested) : m'.Nested := by
  have hparent (e : ElementId) : (m'.element e).parent = (m.element e).parent :=
    Option.some.inj (h.field e .parent (by decide))
  have howned (e : ElementId) : (m'.element e).owned = (m.element e).owned :=
    Option.some.inj (h.field e .owned (by decide))
  refine ⟨(hparent 0).trans hm.root, fun e he h0 => ?_, fun e => ?_⟩
  · rw [h.size] at he
    rw [hparent]
    exact hm.parent e he h0
  · simp only [howned, hparent, h.size]
    exact hm.owned e

end Document

namespace Node

private theorem references_of_assembled {head : Element} {id : Option Key}
    {references : List (Field × Json)} {children : List (Field × Node)}
    (h : Assembled (mk head id references children)) :
    ∀ r ∈ references, r.1 ∈ Document.referenceFields := by
  rcases h with ⟨k, h⟩ | ⟨vs, h⟩
  · cases h
    exact fun _ hr => nomatch hr
  · obtain ⟨kind, _, _, _, _, _, _, _, h⟩ := assemble_parts h
    cases h
    intro r hr
    obtain ⟨⟨name, f⟩, hf, hr⟩ := List.mem_filterMap.mp hr
    dsimp only at hr
    split at hr
    · obtain ⟨_, _, rfl⟩ := Option.map_eq_some_iff.mp hr
      exact List.mem_map.mpr ⟨(name, f), hf, rfl⟩
    · cases hr

private theorem mem_openReferencesOf {children : List (Field × Node)} {next : ElementId}
    {o : OpenReference} (h : o ∈ openReferencesOf next children) :
    ∃ c ∈ children, ∃ s, o ∈ c.2.openReferences s := by
  induction children generalizing next with
  | nil => cases h
  | cons child rest ih =>
    simp only [openReferencesOf, List.mem_append] at h
    rcases h with h | h
    · exact ⟨child, List.mem_cons_self, next, h⟩
    · obtain ⟨c, hc, s, h⟩ := ih h
      exact ⟨c, List.mem_cons_of_mem _ hc, s, h⟩

theorem openReferences_field {n : Node} (hn : Each Assembled n) :
    ∀ self, ∀ o ∈ n.openReferences self, o.field ∈ Document.referenceFields := by
  induction hn with
  | mk here _ ih =>
    intro self o ho
    simp only [openReferences, List.mem_append, List.mem_map] at ho
    rcases ho with ⟨r, hr, rfl⟩ | ho
    · exact references_of_assembled here r hr
    · obtain ⟨c, hc, s, ho⟩ := mem_openReferencesOf ho
      exact ih c hc s o ho

end Node

namespace Document

/-- What reading a document comes down to: a tree of nodes is placed and its references resolved. -/
theorem ofJson_parts {j : Json} {doc : Document} (h : ofJson j = .ok doc) :
    doc.root = 0 ∧ ∃ n, Node.Each Node.Assembled n ∧
      resolve (n.identifiers 0) n.place (n.openReferences 0) = .ok doc.model := by
  unfold ofJson at h
  split at h
  · cases h
  · split at h
    · cases h
    · rename_i n hn
      obtain ⟨m, hm, h⟩ := except_bind_ok.mp h
      cases h
      exact ⟨rfl, n, Node.ofJson_each hn, hm⟩

theorem nested_of_ofJson {j : Json} {doc : Document} (h : ofJson j = .ok doc) :
    doc.model.Nested := by
  obtain ⟨_, n, hn, hm⟩ := ofJson_parts h
  exact nested_of_sameTree (sameTree_resolve (Node.openReferences_field hn 0) hm)
    (Node.nested_place hn)

end Document

namespace Model.Nested

theorem climb_root {m : Model} (h : m.Nested) {n e : Nat} (hn : e < n) (he : e < m.size) :
    m.climb n e = .ok 0 := by
  induction n generalizing e with
  | zero => omega
  | succ n ih =>
    by_cases h0 : e = 0
    · subst h0
      simp [climb, h.root]
    · obtain ⟨p, hp, hparent⟩ := h.parent e he h0
      rw [climb, hparent]
      exact ih (by omega) (by omega)

theorem root_eq {m : Model} (h : m.Nested) {e : Nat} (he : e < m.size) : m.root e = .ok 0 :=
  h.climb_root he he

end Model.Nested

end UmlSchema
