import UmlSchema.Proofs.BuildOrder

/-!
# Documents without their diagrams

What a diagram shows is skipped when a document is read, with everything below it. So a document and
the same document without its diagrams come to one outcome, the same model or the same fault, no
matter what the diagrams hold.
-/
namespace UmlSchema

namespace Origin

def isRead (j : Json) : Bool := j.isObject && !isSkipped j

inductive Role where
  | element
  | children
  | owned
  /-- A value of an element that is no part of the tree. -/
  | detail
  deriving DecidableEq, Repr

/-- What a member is read as in an element of a kind. -/
def roleOf (k : Kind) (name : Text) : Role :=
  if name = "ownedElements" then .owned
  else if name = "end1" ∨ name = "end2" then if k = .association then .element else .detail
  else if holding.any fun l => name = l.1 && l.2 ∈ k.fields then .children
  else .detail

mutual

/-- A value without the diagrams in it, at every depth that is read. -/
def pruned : Role → Json → Json
  | .element, .obj members => .obj (prunedMembers (kind (some (.obj members))) members)
  | .children, .arr items => .arr (prunedItems items)
  | .owned, .arr items => .arr (prunedOwned items)
  | _, j => j

def prunedItems : List Json → List Json
  | [] => []
  | j :: js => pruned .element j :: prunedItems js

def prunedOwned : List Json → List Json
  | [] => []
  | j :: js => if isRead j then pruned .element j :: prunedOwned js else prunedOwned js

def prunedMembers (k : Kind) : List (Text × Json) → List (Text × Json)
  | [] => []
  | (name, j) :: ms => (name, pruned (roleOf k name) j) :: prunedMembers k ms

end

end Origin

/-- A document without the diagrams in it. -/
def Json.withoutDiagrams (j : Json) : Json := Origin.pruned .element j

namespace Origin

theorem prunedItems_eq (js : List Json) : prunedItems js = js.map (pruned .element) := by
  induction js with
  | nil => simp only [prunedItems, List.map_nil]
  | cons j js ih => simp only [prunedItems, List.map_cons, ih]

theorem prunedOwned_eq (js : List Json) :
    prunedOwned js = (js.filter isRead).map (pruned .element) := by
  induction js with
  | nil => simp only [prunedOwned, List.filter_nil, List.map_nil]
  | cons j js ih =>
    rw [prunedOwned, ih]
    by_cases hj : isRead j = true
    · rw [if_pos hj, List.filter_cons_of_pos hj, List.map_cons]
    · rw [if_neg hj, List.filter_cons_of_neg hj]

theorem pruned_detail (j : Json) : pruned .detail j = j := by
  cases j <;> simp only [pruned]

theorem get?_prunedMembers (k : Kind) (members : List (Text × Json)) (name : Text) :
    (Json.obj (prunedMembers k members)).get? name =
      ((Json.obj members).get? name).map (pruned (roleOf k name)) := by
  change Table.get? _ name = (Table.get? _ name).map _
  simp only [Table.get?]
  induction members with
  | nil => simp [prunedMembers]
  | cons m ms ih =>
    obtain ⟨key, j⟩ := m
    rw [prunedMembers]
    by_cases hkey : key = name
    · simp [hkey]
    · simpa [hkey] using ih

theorem isObject_pruned (j : Json) : (pruned .element j).isObject = j.isObject := by
  cases j <;> simp only [pruned, Json.isObject]

def detailNames : List String :=
  ["_type", "_id", "isAbstract", "navigable"] ++ Node.textMembers.map (·.1) ++
    Node.referenceMembers.map (·.1)

theorem roleOf_detail (k : Kind) {name : String} (h : name ∈ detailNames) :
    roleOf k name = .detail := by
  have hother : ∀ n ∈ detailNames, Text.ofString n ≠ "ownedElements" ∧
      ¬(Text.ofString n = "end1" ∨ Text.ofString n = "end2") ∧
      ∀ l ∈ holding, Text.ofString n ≠ l.1 := by decide +kernel
  obtain ⟨howned, hends, hlists⟩ := hother name h
  rw [roleOf, if_neg howned, if_neg hends, if_neg]
  intro hany
  obtain ⟨l, hl, hname⟩ := List.any_eq_true.mp hany
  simp only [Bool.and_eq_true, decide_eq_true_eq] at hname
  exact hlists l hl hname.1

theorem roleOf_list {k : Kind} {name : String} {f : Field} (h : (name, f) ∈ holding)
    (hf : f ∈ k.fields) : roleOf k name = .children := by
  have hother : ∀ l ∈ holding, Text.ofString l.1 ≠ "ownedElements" ∧
      ¬(Text.ofString l.1 = "end1" ∨ Text.ofString l.1 = "end2") := by decide +kernel
  obtain ⟨howned, hends⟩ := hother _ h
  rw [roleOf, if_neg howned, if_neg hends, if_pos]
  exact List.any_eq_true.mpr ⟨(name, f), h, by simp [hf]⟩

theorem member?_pruned (j : Json) (name : String) :
    member? (some (pruned .element j)) name =
      (member? (some j) name).map (pruned (roleOf (kind (some j)) name)) := by
  cases j with
  | obj members =>
    simp only [pruned]
    exact get?_prunedMembers _ members name
  | null | bool _ | int _ | real _ | str _ | arr _ => simp only [pruned]; rfl

theorem member?_pruned_detail (j : Json) {name : String} (h : name ∈ detailNames) :
    member? (some (pruned .element j)) name = member? (some j) name := by
  rw [member?_pruned, roleOf_detail _ h, funext pruned_detail, Option.map_id']

theorem kind_pruned (j : Json) : kind (some (pruned .element j)) = kind (some j) := by
  have htype : (pruned .element j).get? "_type" = j.get? "_type" :=
    member?_pruned_detail j (by decide)
  rw [kind, kind, htype]

theorem isSkipped_pruned (j : Json) : isSkipped (pruned .element j) = isSkipped j := by
  have htype : (pruned .element j).get? "_type" = j.get? "_type" :=
    member?_pruned_detail j (by decide)
  rw [isSkipped, isSkipped, htype]

theorem isRead_pruned (j : Json) : isRead (pruned .element j) = isRead j := by
  rw [isRead, isRead, isObject_pruned, isSkipped_pruned]

theorem objectsIn_children (v : Option Json) :
    objectsIn (v.map (pruned .children)) = (objectsIn v).map (pruned .element) := by
  cases v with
  | none => rfl
  | some j =>
    cases j with
    | arr items =>
      simp only [Option.map_some, pruned, objectsIn, prunedItems_eq, List.filter_map]
      congr 1
      exact List.filter_congr fun i _ => isObject_pruned i
    | null | bool _ | int _ | real _ | str _ | obj _ => simp only [Option.map_some, pruned]; rfl

theorem read_owned (v : Option Json) :
    (objectsIn (v.map (pruned .owned))).filter (!isSkipped ·) =
      ((objectsIn v).filter (!isSkipped ·)).map (pruned .element) := by
  cases v with
  | none => rfl
  | some j =>
    cases j with
    | arr items =>
      simp only [Option.map_some, pruned, objectsIn, prunedOwned_eq, List.filter_filter,
        List.filter_map]
      congr 1
      apply List.filter_congr
      intro i _
      simp [isRead, isObject_pruned, isSkipped_pruned, Bool.and_comm]
    | null | bool _ | int _ | real _ | str _ | obj _ => simp only [Option.map_some, pruned]; rfl

theorem roleOf_end {name : String} (h : name = "end1" ∨ name = "end2") :
    roleOf .association name = .element := by
  rcases h with rfl | rfl <;> decide +kernel

theorem children_pruned (j : Json) : children (some (pruned .element j)) =
    (children (some j)).map (Option.map (pruned .element)) := by
  have hend {name : String} (h : name = "end1" ∨ name = "end2")
      (hkind : kind (some j) = .association) :
      (member? (some (pruned .element j)) name).filter Json.isObject =
        ((member? (some j) name).filter Json.isObject).map (pruned .element) := by
    rw [member?_pruned, hkind, roleOf_end h]
    cases member? (some j) name with
    | none => rfl
    | some v => simp [Option.filter_some, isObject_pruned, apply_ite]
  have hlisted : listed (some (pruned .element j)) =
      (listed (some j)).map (Option.map (pruned .element)) := by
    rw [listed, listed, List.map_flatMap]
    apply List.flatMap_congr
    rintro ⟨name, f⟩ hmem
    dsimp only
    rw [kind_pruned]
    by_cases hf : f ∈ (kind (some j)).fields
    · rw [if_pos hf, if_pos hf, member?_pruned, roleOf_list hmem hf, objectsIn_children]
      simp
    · rw [if_neg hf, if_neg hf, List.map_nil]
  have hends : ends (some (pruned .element j)) =
      (ends (some j)).map (Option.map (pruned .element)) := by
    rw [ends, ends, kind_pruned]
    by_cases hkind : kind (some j) = .association
    · rw [if_pos hkind, if_pos hkind, hend (.inl rfl) hkind, hend (.inr rfl) hkind]
      rfl
    · rw [if_neg hkind, if_neg hkind, List.map_nil]
  have howned : owned (some (pruned .element j)) =
      (owned (some j)).map (Option.map (pruned .element)) := by
    have hrole : roleOf (kind (some j)) "ownedElements" = .owned := if_pos rfl
    rw [owned, owned, member?_pruned, hrole, read_owned]
    simp
  rw [children, children, hlisted, hends, howned, List.map_append, List.map_append]

theorem built_pruned (o : Origin) :
    built (o.map (pruned .element)) = o.built.map (Option.map (pruned .element)) := by
  induction hsize : sizeOf o using Nat.strong_induction_on generalizing o with
  | _ n ih =>
    have hchildren : children (o.map (pruned .element)) =
        o.children.map (Option.map (pruned .element)) := by
      cases o with
      | none => rfl
      | some j => exact children_pruned j
    rw [built_eq, built_eq, hchildren, List.map_cons, List.flatMap_map, List.map_flatMap]
    congr 1
    apply List.flatMap_congr
    intro c hc
    exact ih (sizeOf c) (hsize ▸ sizeOf_child hc) c rfl

end Origin

namespace Node

open Origin

/-- Pruning does not change the node of a value, nor those of the items of a list. -/
def Unchanged (j : Json) : Prop :=
  ofJson (pruned .element j) = ofJson j ∧
    ∀ items, j = .arr items → ∀ i ∈ items, ofJson (pruned .element i) = ofJson i

theorem unchanged_of_get? {members : List (Text × Json)} (h : ∀ m ∈ members, Unchanged m.2)
    {name : Text} {j : Json} (hj : (Json.obj members).get? name = some j) : Unchanged j := by
  obtain ⟨m, hm, rfl⟩ := Option.map_eq_some_iff.mp hj
  exact h m (List.mem_of_find?_eq_some hm)

theorem itemsOf_arr (items : List Json) :
    itemsOf (view (.arr items)) = .ok (items.map fun j => (j, ofJson j)) := by
  rw [itemsOf, value_view]
  simp only [view, viewItems_eq]

theorem value?_pruned (k : Kind) (members : List (Text × Json)) {name : String}
    (h : name ∈ detailNames) :
    value? (viewMembers (prunedMembers k members)) name = value? (viewMembers members) name := by
  rw [value?_viewMembers, value?_viewMembers, get?_prunedMembers, roleOf_detail k h,
    funext pruned_detail, Option.map_id']

theorem headOf_congr (k : Kind) {vs ws : Views}
    (h : ∀ name ∈ detailNames, value? vs name = value? ws name) : headOf k vs = headOf k ws := by
  have htexts : ∀ x, ∀ t ∈ textMembers, copyText vs x t = copyText ws x t := by
    intro x t ht
    have hname : t.1 ∈ detailNames :=
      List.mem_append_left _ (List.mem_append_right _ (List.mem_map_of_mem ht))
    rw [copyText, copyText, h _ hname]
  rw [headOf_eq, headOf_eq, List.foldl_ext _ _ _ htexts, h "isAbstract" (by decide),
    h "navigable" (by decide)]

theorem referencesOf_congr (head : Element) {vs ws : Views}
    (h : ∀ name ∈ detailNames, value? vs name = value? ws name) :
    referencesOf head vs = referencesOf head ws := by
  rw [referencesOf, referencesOf]
  apply List.filterMap_congr
  intro t ht
  have hname : t.1 ∈ detailNames := List.mem_append_right _ (List.mem_map_of_mem ht)
  dsimp only
  rw [h _ hname]

theorem objects_pruned (f : Field) {items : List Json}
    (h : ∀ i ∈ items, ofJson (pruned .element i) = ofJson i) :
    (((items.map (pruned .element)).map fun j => (j, ofJson j)).filter (·.1.isObject)).mapM
      (fun i => i.2.map fun n => (f, n)) =
    ((items.map fun j => (j, ofJson j)).filter (·.1.isObject)).mapM
      (fun i => i.2.map fun n => (f, n)) := by
  have hobjects : items.filter (Json.isObject ∘ pruned .element) = items.filter Json.isObject :=
    List.filter_congr fun i _ => isObject_pruned i
  simp only [List.filter_map, List.mapM_map, Function.comp_def] at hobjects ⊢
  rw [hobjects]
  apply except_mapM_congr
  intro i hi
  rw [h i (List.mem_of_mem_filter hi)]

theorem listChildren_pruned {k : Kind} {members : List (Text × Json)}
    (h : ∀ m ∈ members, Unchanged m.2) (vs : Views) {name : String} {f : Field}
    (hmem : (name, f) ∈ listMembers) :
    listChildren (headOf k vs) (viewMembers (prunedMembers k members)) name f =
      listChildren (headOf k vs) (viewMembers members) name f := by
  rw [listChildren, listChildren, member?_viewMembers, member?_viewMembers, get?_prunedMembers]
  cases hget : (Json.obj members).get? name with
  | none => rfl
  | some j =>
    simp only [Option.map_some]
    by_cases hf : (headOf k vs).has f = true
    · have hfield : f ∈ k.fields := by simpa [has_headOf] using hf
      rw [if_pos hf, if_pos hf, roleOf_list hmem hfield]
      cases j with
      | arr items =>
        have hitems := (unchanged_of_get? h hget).2 items rfl
        simp only [pruned, itemsOf_arr, prunedItems_eq]
        exact objects_pruned f hitems
      | null | bool _ | int _ | real _ | str _ | obj _ => simp only [pruned]
    · rw [if_neg hf, if_neg hf]

theorem endChild_pruned {members : List (Text × Json)} (h : ∀ m ∈ members, Unchanged m.2)
    {name : String} (hname : name = "end1" ∨ name = "end2") (f : Field) :
    endChild (viewMembers (prunedMembers .association members)) name f =
      endChild (viewMembers members) name f := by
  rw [endChild, endChild, member?_viewMembers, member?_viewMembers, get?_prunedMembers,
    roleOf_end hname]
  cases hget : (Json.obj members).get? name with
  | none => rfl
  | some j =>
    have hnode : (view (pruned .element j)).node = (view j).node := (unchanged_of_get? h hget).1
    simp only [Option.map_some, value_view, isObject_pruned, hnode]

theorem endChildren_pruned {k : Kind} {members : List (Text × Json)}
    (h : ∀ m ∈ members, Unchanged m.2) (vs : Views) :
    endChildren (headOf k vs) (viewMembers (prunedMembers k members)) =
      endChildren (headOf k vs) (viewMembers members) := by
  rw [endChildren, endChildren, kind_headOf]
  by_cases hk : k = .association
  · subst hk
    rw [if_pos rfl, if_pos rfl, endChild_pruned h (.inl rfl), endChild_pruned h (.inr rfl)]
  · rw [if_neg hk, if_neg hk]

theorem isDiagram_pruned (j : Json) : isDiagram (pruned .element j) = isDiagram j := by
  have htype : (pruned .element j).get? "_type" = j.get? "_type" :=
    member?_pruned_detail j (by decide)
  rw [isDiagram, isDiagram, htype]

/-- What is not read adds nothing, and a fault in a type name comes at the same object. -/
theorem ownedFrom_pruned {items : List Json}
    (h : ∀ i ∈ items, ofJson (pruned .element i) = ofJson i) :
    ownedFrom (((items.filter isRead).map (pruned .element)).map fun j => (j, ofJson j)) =
      ownedFrom (items.map fun j => (j, ofJson j)) := by
  induction items with
  | nil => rfl
  | cons j items ih =>
    obtain ⟨hj, hitems⟩ := List.forall_mem_cons.mp h
    rw [List.map_cons, ownedFrom]
    by_cases hobject : j.isObject = true
    · have hread : isRead j = !(isDiagram j).toOption.getD false := by
        rw [isRead, hobject, isSkipped_eq, Bool.true_and]
      have hguard : ¬(!j.isObject) = true := by simp [hobject]
      rw [if_neg hguard]
      cases hd : isDiagram j with
      | ok diagram =>
        rw [hd] at hread
        cases diagram with
        | true =>
          rw [List.filter_cons_of_neg (by rw [hread]; decide), ih hitems]
          rfl
        | false =>
          rw [List.filter_cons_of_pos hread, List.map_cons, List.map_cons, ownedFrom,
            isObject_pruned, if_neg hguard, isDiagram_pruned, hd, hj, ih hitems]
      | error fault =>
        -- Whether the object is a diagram cannot be said: it is kept, and reading ends there.
        rw [hd] at hread
        rw [List.filter_cons_of_pos hread, List.map_cons, List.map_cons, ownedFrom,
          isObject_pruned, if_neg hguard, isDiagram_pruned, hd]
        rfl
    · have hread : ¬isRead j = true := by simp [isRead, hobject]
      rw [List.filter_cons_of_neg hread, if_pos (by simp [hobject]), ih hitems]

theorem ownedChildren_pruned (k : Kind) {members : List (Text × Json)}
    (h : ∀ m ∈ members, Unchanged m.2) :
    ownedChildren (viewMembers (prunedMembers k members)) =
      ownedChildren (viewMembers members) := by
  have hrole : roleOf k (Text.ofString "ownedElements") = .owned := if_pos rfl
  rw [ownedChildren, ownedChildren, member?_viewMembers, member?_viewMembers, get?_prunedMembers,
    hrole]
  cases hget : (Json.obj members).get? "ownedElements" with
  | none => rfl
  | some j =>
    cases j with
    | arr items =>
      have hitems := (unchanged_of_get? h hget).2 items rfl
      simp only [Option.map_some, pruned, itemsOf_arr, prunedOwned_eq]
      exact ownedFrom_pruned hitems
    | null | bool _ | int _ | real _ | str _ | obj _ => simp only [Option.map_some, pruned]

theorem assemble_congr {vs ws : Views}
    (hvalue : ∀ name ∈ detailNames, value? vs name = value? ws name)
    (hlists : ∀ k, kindOf (value? ws "_type") = .ok k → ∀ l ∈ listMembers,
      listChildren (headOf k ws) vs l.1 l.2 = listChildren (headOf k ws) ws l.1 l.2)
    (hends : ∀ k, kindOf (value? ws "_type") = .ok k →
      endChildren (headOf k ws) vs = endChildren (headOf k ws) ws)
    (howned : ownedChildren vs = ownedChildren ws) : assemble vs = assemble ws := by
  have hid : idOf vs = idOf ws := by
    rw [idOf, idOf, hvalue "_id" (by decide)]
  rw [assemble, assemble, hvalue "_type" (by decide), hid, howned]
  cases hkind : kindOf (value? ws "_type") with
  | error fault => rw [except_error_bind, except_error_bind]
  | ok k =>
    rw [except_ok_bind, except_ok_bind, headOf_congr k hvalue]
    dsimp only
    rw [hends k hkind, referencesOf_congr _ hvalue]
    refine congrArg _ (funext fun id => congrArg (· >>= _) ?_)
    exact except_mapM_congr (hlists k hkind)

theorem assemble_pruned {members : List (Text × Json)} (h : ∀ m ∈ members, Unchanged m.2) :
    assemble (viewMembers (prunedMembers (kind (some (.obj members))) members)) =
      assemble (viewMembers members) := by
  have hkind (k : Kind) (hk : kindOf (value? (viewMembers members) "_type") = .ok k) :
      kind (some (.obj members)) = k := by
    rw [value?_viewMembers] at hk
    rw [kind_eq, hk]
    rfl
  apply assemble_congr
  · intro name hname
    exact value?_pruned _ members hname
  · rintro k hk ⟨name, f⟩ hl
    rw [hkind k hk]
    exact listChildren_pruned h _ hl
  · intro k hk
    rw [hkind k hk]
    exact endChildren_pruned h _
  · exact ownedChildren_pruned _ h

mutual

theorem unchanged : ∀ j : Json, Unchanged j
  | .obj members => by
    refine ⟨?_, fun items heq => by cases heq⟩
    simp only [pruned, ofJson, view]
    exact assemble_pruned (unchangedMembers members)
  | .arr items => by
    refine ⟨by simp only [pruned], fun items' heq => ?_⟩
    cases heq
    exact unchangedItems items
  | .null | .bool _ | .int _ | .real _ | .str _ => by
    exact ⟨by simp only [pruned], fun items heq => by cases heq⟩

theorem unchangedItems : ∀ items : List Json, ∀ i ∈ items, ofJson (pruned .element i) = ofJson i
  | [], i, hi => by cases hi
  | j :: items, i, hi => by
    rcases List.mem_cons.mp hi with hij | hi
    · rw [hij]
      exact (unchanged j).1
    · exact unchangedItems items i hi

theorem unchangedMembers : ∀ members : List (Text × Json), ∀ m ∈ members, Unchanged m.2
  | [], m, hm => by cases hm
  | (name, j) :: members, m, hm => by
    rcases List.mem_cons.mp hm with hmj | hm
    · rw [hmj]
      exact unchanged j
    · exact unchangedMembers members m hm

end

end Node

theorem Origin.isRead_of_owned (j : Json) {o : Origin} (ho : o ∈ built (some j.withoutDiagrams))
    {items : List Json} (hitems : o.member? "ownedElements" = some (.arr items)) :
    ∀ i ∈ items, isRead i = true := by
  obtain ⟨o', -, rfl⟩ : ∃ o' ∈ built (some j), Option.map (pruned .element) o' = o := by
    apply List.mem_map.mp
    rwa [← built_pruned]
  cases o' with
  | none => cases hitems
  | some j' =>
    have hrole : roleOf (kind (some j')) (Text.ofString "ownedElements") = .owned := if_pos rfl
    rw [Option.map_some, member?_pruned, hrole] at hitems
    obtain ⟨v, -, hv⟩ := Option.map_eq_some_iff.mp hitems
    cases v with
    | arr js =>
      simp only [pruned, Json.arr.injEq] at hv
      rw [prunedOwned_eq] at hv
      subst hv
      intro i hi
      obtain ⟨i', hi', rfl⟩ := List.mem_map.mp hi
      rw [isRead_pruned]
      exact (List.mem_filter.mp hi').2
    | null | bool _ | int _ | real _ | str _ | obj _ => simp only [pruned] at hv; cases hv

/-- A document and the same document without its diagrams read alike: they come to the same model,
or fail with the same fault. The objects that are read are the same ones in the same order, and none
of them is left with a member to be skipped. -/
theorem reading_ignores_diagrams (j : Json) :
    Document.ofJson j.withoutDiagrams = Document.ofJson j ∧
    Origin.built (some j.withoutDiagrams) =
      (Origin.built (some j)).map (Option.map Json.withoutDiagrams) ∧
    ∀ o ∈ Origin.built (some j.withoutDiagrams), ∀ items,
      o.member? "ownedElements" = some (.arr items) →
        ∀ i ∈ items, i.isObject = true ∧ Origin.isSkipped i = false := by
  refine ⟨?_, Origin.built_pruned (some j), ?_⟩
  · have htype : j.withoutDiagrams.get? "_type" = j.get? "_type" :=
      Origin.member?_pruned_detail j (by decide)
    have hnode : Node.ofJson j.withoutDiagrams = Node.ofJson j := (Node.unchanged j).1
    rw [Document.ofJson, Document.ofJson, htype, hnode]
  · intro o ho items hitems i hi
    simpa [Origin.isRead] using Origin.isRead_of_owned j ho hitems i hi

-- The view has an identifier of its own, and lists that could not be read.
example : (plainNode "Project" "Shop" [.null, plainNode "UMLClass" "Item" [] [],
      plainNode "UMLClassView" "Item" [.int 0] [(Text.ofString "_id", .arr []),
        (Text.ofString "tags", .bool true)]] []).withoutDiagrams =
    plainNode "Project" "Shop" [plainNode "UMLClass" "Item" [] []] [] := by rfl

end UmlSchema
