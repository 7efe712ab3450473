import UmlSchema.Proofs.ContainmentTree
import UmlSchema.Proofs.WellKinded

/-!
# The order in which elements are built

What elements a document has, in which order, and which identifiers and references they carry, said
in terms of its JSON objects alone. The numbers of elements are positions in that order.
-/
namespace UmlSchema

/-- What an element is built from: an object of the document, or nothing, for an end of an
association that is not given. -/
abbrev Origin := Option Json

namespace Origin

def member? (o : Origin) (name : String) : Option Json := o.bind (·.get? name)

/-- The kind that an object names. An end that is not given is an end all the same. -/
def kind : Origin → Kind
  | none => .associationEnd
  | some j =>
    match j.get? "_type" with
    | some (.str t) => ((Kind.ofLabel? t).filter (!·.isShape)).getD .element
    | _ => .element

def name (o : Origin) : Text :=
  match o.member? "name" with
  | some (.str t) => t
  | _ => []

def id? (o : Origin) : Option Key := (o.member? "_id").bind Key.ofJson?

/-- The members that may refer to an element, and the fields that then hold it. -/
def referring : List (String × Field) :=
  [("stereotype", .stereotype), ("type", .type), ("reference", .reference), ("source", .source),
   ("target", .target)]

/-- The members that hold lists of elements, and the fields that these are in. -/
def holding : List (String × Field) :=
  [("attributes", .attributes), ("operations", .operations), ("parameters", .parameters),
   ("literals", .literals), ("tags", .tags)]

/-- The references of an object: the members with a reference whose fields its kind has. -/
def references (o : Origin) : List (Field × Json) :=
  referring.filterMap fun (name, f) =>
    if f ∈ o.kind.fields then ((o.member? name).bind (·.get? "$ref")).map (f, ·) else none

def objectsIn : Option Json → List Json
  | some (.arr items) => items.filter Json.isObject
  | _ => []

/-- Diagrams and views are no part of the model. -/
def isSkipped (j : Json) : Bool :=
  match j.get? "_type" with
  | some (.str t) => decide (Text.ofString "Diagram" <:+ t ∨ Text.ofString "View" <:+ t)
  | _ => false

def listed (o : Origin) : List Origin :=
  holding.flatMap fun (name, f) =>
    if f ∈ o.kind.fields then (objectsIn (o.member? name)).map some else []

def ends (o : Origin) : List Origin :=
  if o.kind = .association then
    [(o.member? "end1").filter Json.isObject, (o.member? "end2").filter Json.isObject]
  else []

def owned (o : Origin) : List Origin :=
  ((objectsIn (o.member? "ownedElements")).filter (!isSkipped ·)).map some

def children (o : Origin) : List Origin := o.listed ++ o.ends ++ o.owned

theorem kind_eq (j : Json) :
    kind (some j) = (Node.kindOf (j.get? "_type")).toOption.getD .element := by
  unfold kind
  dsimp only
  cases j.get? "_type" with
  | none => rfl
  | some type => cases type <;> rfl

theorem referring_eq : referring = Node.referenceMembers := rfl

theorem holding_eq : holding = Node.listMembers := rfl

theorem isSkipped_eq (j : Json) : isSkipped j = (Node.isDiagram j).toOption.getD false := by
  unfold isSkipped Node.isDiagram
  cases j.get? "_type" with
  | none => rfl
  | some type =>
    cases type with
    | str t =>
      rw [Bool.eq_iff_iff]
      simp [Node.isDiagramType, Text.endsWith, Except.toOption]
    | null | bool _ | int _ | real _ | arr _ | obj _ => rfl

theorem sizeOf_member {o : Origin} {name : String} {j : Json} (h : o.member? name = some j) :
    sizeOf (some j) < sizeOf o := by
  cases o with
  | none => cases h
  | some v =>
    cases v with
    | obj members =>
      obtain ⟨m, hm, rfl⟩ := Option.map_eq_some_iff.mp h
      have hsize := List.sizeOf_lt_of_mem (List.mem_of_find?_eq_some hm)
      obtain ⟨name, j⟩ := m
      simp only [Option.some.sizeOf_spec, Json.obj.sizeOf_spec, Prod.mk.sizeOf_spec] at hsize ⊢
      omega
    | _ => cases h

theorem sizeOf_objectsIn {o : Origin} {name : String} {j : Json}
    (h : j ∈ objectsIn (o.member? name)) : sizeOf (some j) < sizeOf o := by
  unfold objectsIn at h
  split at h
  · rename_i items hitems
    have hlist := sizeOf_member hitems
    have hitem := List.sizeOf_lt_of_mem (List.mem_of_mem_filter h)
    simp only [Option.some.sizeOf_spec, Json.arr.sizeOf_spec] at hlist hitem ⊢
    omega
  · cases h

theorem sizeOf_end {o : Origin} (h : o.kind = .association) (name : String) :
    sizeOf ((o.member? name).filter Json.isObject) < sizeOf o := by
  cases hend : (o.member? name).filter Json.isObject with
  | none =>
    cases o with
    | none => cases h
    | some j =>
      cases j with
      | obj members =>
        simp only [Option.none.sizeOf_spec, Option.some.sizeOf_spec, Json.obj.sizeOf_spec]
        omega
      | _ => cases h
  | some j => exact sizeOf_member (Option.filter_eq_some_iff.mp hend).1

theorem sizeOf_child {o c : Origin} (h : c ∈ o.children) : sizeOf c < sizeOf o := by
  simp only [children, List.mem_append] at h
  rcases h with (h | h) | h
  · obtain ⟨⟨name, f⟩, -, h⟩ := List.mem_flatMap.mp h
    dsimp only at h
    split at h
    · obtain ⟨j, hj, rfl⟩ := List.mem_map.mp h
      exact sizeOf_objectsIn hj
    · cases h
  · unfold ends at h
    split at h
    · rename_i hkind
      rcases List.mem_pair.mp h with rfl | rfl
      · exact sizeOf_end hkind _
      · exact sizeOf_end hkind _
    · cases h
  · obtain ⟨j, hj, rfl⟩ := List.mem_map.mp h
    exact sizeOf_objectsIn (List.mem_of_mem_filter hj)

/-- An origin and all below it, each before its children. -/
def built (o : Origin) : List Origin :=
  o :: o.children.attach.flatMap fun c => built c.1
termination_by sizeOf o
decreasing_by exact sizeOf_child c.2

theorem built_eq (o : Origin) : o.built = o :: o.children.flatMap built := by
  rw [built]
  simp

def carried (start : Nat) (os : List Origin) : List (Key × ElementId) :=
  (os.zipIdx start).filterMap fun (o, i) => o.id?.map (·, i)

def recorded (start : Nat) (os : List Origin) : List Node.OpenReference :=
  (os.zipIdx start).flatMap fun (o, i) => o.references.map fun (f, id) => ⟨i, f, id⟩

end Origin

namespace Node

def BuiltFrom : Origin → Node → Prop
  | none, n => n = blank .associationEnd
  | some j, n => j.isObject = true ∧ ofJson j = .ok n

theorem value_view (j : Json) : (view j).value = j := by
  cases j <;> simp only [view]

theorem member?_viewMembers (members : List (Text × Json)) (name : String) :
    member? (viewMembers members) name = ((Json.obj members).get? name).map view := by
  unfold member? Json.get? Table.get?
  induction members with
  | nil => rfl
  | cons m ms ih =>
    obtain ⟨key, j⟩ := m
    rw [viewMembers]
    by_cases hkey : key = Text.ofString name
    · simp [hkey]
    · simpa [hkey] using ih

theorem value?_viewMembers (members : List (Text × Json)) (name : String) :
    value? (viewMembers members) name = (Json.obj members).get? name := by
  rw [value?, member?_viewMembers]
  cases (Json.obj members).get? name with
  | none => rfl
  | some j => exact congrArg some (value_view j)

theorem viewItems_eq (items : List Json) :
    viewItems items = items.map fun j => (j, ofJson j) := by
  induction items with
  | nil => simp only [viewItems, List.map_nil]
  | cons j items ih => simp only [viewItems, List.map_cons, ih, ofJson]

theorem itemsOf_view {j : Json} {items : List (Json × Except ShapeFault Node)}
    (h : itemsOf (view j) = .ok items) :
    ∃ js : List Json, items = js.map (fun j => (j, ofJson j)) ∧
      Origin.objectsIn (some j) = js.filter Json.isObject := by
  unfold itemsOf at h
  rw [value_view] at h
  cases j with
  | arr js =>
    simp only [view, Except.ok.injEq] at h
    exact ⟨js, by rw [← h, viewItems_eq], rfl⟩
  | str t =>
    cases h
    exact ⟨[], rfl, rfl⟩
  | obj ms =>
    cases h
    exact ⟨[], rfl, rfl⟩
  | _ => cases h

theorem has_headOf (k : Kind) (vs : Views) (f : Field) :
    (headOf k vs).has f = decide (f ∈ k.fields) := by
  refine headOf_induction k vs (P := fun x => x.has f = decide (f ∈ k.fields)) ?_ ?_
  · have h : ∀ f ∈ Field.all, (Element.blank k).has f = decide (f ∈ k.fields) := by
      cases k <;> decide
    exact h f f.mem_all
  · intro x g _ v _ hx
    rw [← hx]
    unfold Element.replace
    split
    · rename_i hg
      by_cases hgf : g = f
      · subst hgf
        rw [hg, Element.has, Element.get?_set_self]
        rfl
      · rw [Element.has, Element.get?_set_of_ne x v hgf]
        rfl
    · rfl

theorem foldl_copyText_other (vs : Views) {ts : List (String × Field)} {f : Field}
    (hf : ∀ t ∈ ts, t.2 ≠ f) (x : Element) : (ts.foldl (copyText vs) x).get? f = x.get? f := by
  induction ts generalizing x with
  | nil => rfl
  | cons t ts ih =>
    obtain ⟨ht, hts⟩ := List.forall_mem_cons.mp hf
    rw [List.foldl_cons, ih hts, copyText]
    split
    · exact x.get?_replace_of_ne _ ht
    · rfl

theorem name_headOf (k : Kind) (members : List (Text × Json)) :
    (headOf k (viewMembers members)).get? .name =
      some (.text (Origin.name (some (.obj members)))) := by
  have htexts : textMembers = ("name", .name) :: textMembers.tail := rfl
  rw [headOf_eq, Element.get?_replace_of_ne _ _ (by decide),
    Element.get?_replace_of_ne _ _ (by decide), htexts, List.foldl_cons,
    foldl_copyText_other _ (by decide), copyText, value?_viewMembers]
  unfold Origin.name Origin.member?
  rw [Option.bind_some]
  cases (Json.obj members).get? "name" with
  | none => rfl
  | some j => cases j <;> rfl

theorem forall₂_builtFrom_objects {js : List Json} {f : Field} {cs : List (Field × Node)}
    (h : ((js.map fun j => (j, ofJson j)).filter fun i => i.1.isObject).mapM
      (fun i => i.2.map fun n => (f, n)) = .ok cs) :
    List.Forall₂ (fun o c => BuiltFrom o c.2) ((js.filter Json.isObject).map some) cs := by
  rw [except_mapM_ok, List.filter_map, List.forall₂_map_left_iff] at h
  rw [List.forall₂_map_left_iff]
  have hobjects : ∀ j ∈ js.filter Json.isObject, j.isObject = true := fun j hj =>
    (List.mem_filter.mp hj).2
  refine ((List.forall₂_and_left _ _).mpr ⟨hobjects, h⟩).imp fun j c hc => ?_
  obtain ⟨hobject, hc⟩ := hc
  obtain ⟨n, hn, rfl⟩ := except_map_ok.mp hc
  exact ⟨hobject, hn⟩

theorem listChildren_builtFrom {head : Element} {members : List (Text × Json)} {name : String}
    {f : Field} {cs : List (Field × Node)}
    (h : listChildren head (viewMembers members) name f = .ok cs) :
    List.Forall₂ (fun o c => BuiltFrom o c.2)
      (if head.has f then (Origin.objectsIn ((Json.obj members).get? name)).map some else [])
      cs := by
  unfold listChildren at h
  rw [member?_viewMembers] at h
  cases hget : (Json.obj members).get? name with
  | none =>
    rw [hget] at h
    cases h
    simp [Origin.objectsIn]
  | some j =>
    rw [hget, Option.map_some] at h
    dsimp only at h
    split at h
    · rename_i hhas
      rw [if_pos hhas]
      obtain ⟨items, hitems, h⟩ := except_bind_ok.mp h
      obtain ⟨js, rfl, hjs⟩ := itemsOf_view hitems
      rw [hjs]
      exact forall₂_builtFrom_objects h
    · rename_i hhas
      cases h
      rw [if_neg hhas]
      exact .nil

theorem endChild_builtFrom {members : List (Text × Json)} {name : String} {f : Field}
    {c : Field × Node} (h : endChild (viewMembers members) name f = .ok c) :
    BuiltFrom (((Json.obj members).get? name).filter Json.isObject) c.2 := by
  unfold endChild at h
  rw [member?_viewMembers] at h
  cases hget : (Json.obj members).get? name with
  | none =>
    rw [hget] at h
    cases h
    rfl
  | some j =>
    rw [hget, Option.map_some] at h
    dsimp only at h
    rw [value_view] at h
    split at h
    · rename_i hobject
      obtain ⟨n, hn, rfl⟩ := except_map_ok.mp h
      rw [Option.filter_some_pos hobject]
      exact ⟨hobject, hn⟩
    · rename_i hobject
      cases h
      rw [Option.filter_some_neg (by simpa using hobject)]
      rfl

theorem isDiagram_ok {j : Json} {b : Bool} (h : isDiagram j = .ok b) : Origin.isSkipped j = b := by
  rw [Origin.isSkipped_eq, h]
  rfl

theorem ownedFrom_builtFrom {js : List Json} {cs : List (Field × Node)}
    (h : ownedFrom (js.map fun j => (j, ofJson j)) = .ok cs) :
    List.Forall₂ (fun o c => BuiltFrom o c.2)
      (((js.filter Json.isObject).filter (!Origin.isSkipped ·)).map some) cs := by
  induction js generalizing cs with
  | nil =>
    cases h
    exact .nil
  | cons j js ih =>
    rw [List.map_cons, ownedFrom] at h
    by_cases hobject : j.isObject = true
    · rw [if_neg (by simp [hobject])] at h
      obtain ⟨diagram, hdiagram, h⟩ := except_bind_ok.mp h
      have hskipped := isDiagram_ok hdiagram
      cases diagram with
      | true =>
        rw [List.filter_cons_of_pos hobject, List.filter_cons_of_neg (by simp [hskipped])]
        exact ih h
      | false =>
        obtain ⟨n, hn, h⟩ := except_bind_ok.mp h
        obtain ⟨rest, hrest, h⟩ := except_bind_ok.mp h
        cases h
        rw [List.filter_cons_of_pos hobject, List.filter_cons_of_pos (by simp [hskipped])]
        exact .cons ⟨hobject, hn⟩ (ih hrest)
    · rw [if_pos (by simp [hobject])] at h
      rw [List.filter_cons_of_neg hobject]
      exact ih h

theorem ownedChildren_builtFrom {members : List (Text × Json)} {cs : List (Field × Node)}
    (h : ownedChildren (viewMembers members) = .ok cs) :
    List.Forall₂ (fun o c => BuiltFrom o c.2) (Origin.owned (some (.obj members))) cs := by
  unfold ownedChildren at h
  rw [member?_viewMembers] at h
  unfold Origin.owned Origin.member?
  rw [Option.bind_some]
  cases hget : (Json.obj members).get? "ownedElements" with
  | none =>
    rw [hget] at h
    cases h
    exact .nil
  | some j =>
    rw [hget, Option.map_some] at h
    obtain ⟨items, hitems, h⟩ := except_bind_ok.mp h
    obtain ⟨js, rfl, hjs⟩ := itemsOf_view hitems
    rw [hjs]
    exact ownedFrom_builtFrom h

theorem idOf_ok {members : List (Text × Json)} {id : Option Key}
    (h : idOf (viewMembers members) = .ok id) : Origin.id? (some (.obj members)) = id := by
  unfold idOf at h
  rw [value?_viewMembers] at h
  unfold Origin.id? Origin.member?
  rw [Option.bind_some]
  cases hget : (Json.obj members).get? "_id" with
  | none =>
    rw [hget] at h
    cases h
    rfl
  | some j =>
    rw [hget] at h
    dsimp only at h
    split at h
    · rename_i k hk
      cases h
      exact hk
    · cases h

theorem referencesOf_eq (k : Kind) {members : List (Text × Json)}
    (hk : Origin.kind (some (.obj members)) = k) :
    referencesOf (headOf k (viewMembers members)) (viewMembers members) =
      Origin.references (some (.obj members)) := by
  unfold referencesOf Origin.references
  rw [Origin.referring_eq]
  congr 1
  funext ⟨name, f⟩
  simp only [has_headOf, value?_viewMembers, decide_eq_true_eq, hk]
  rfl

theorem endChildren_builtFrom {k : Kind} {members : List (Text × Json)}
    (hk : Origin.kind (some (.obj members)) = k) {cs : List (Field × Node)}
    (h : endChildren (headOf k (viewMembers members)) (viewMembers members) = .ok cs) :
    List.Forall₂ (fun o c => BuiltFrom o c.2) (Origin.ends (some (.obj members))) cs := by
  unfold endChildren at h
  unfold Origin.ends
  rw [kind_headOf] at h
  rw [hk]
  by_cases hassociation : k = .association
  · rw [if_pos hassociation] at h ⊢
    obtain ⟨first, hfirst, h⟩ := except_bind_ok.mp h
    obtain ⟨second, hsecond, h⟩ := except_bind_ok.mp h
    cases h
    exact .cons (endChild_builtFrom hfirst) (.cons (endChild_builtFrom hsecond) .nil)
  · rw [if_neg hassociation] at h ⊢
    cases h
    exact .nil

theorem lists_builtFrom {k : Kind} {members : List (Text × Json)}
    (hk : Origin.kind (some (.obj members)) = k) {lists : List (List (Field × Node))}
    (h : listMembers.mapM (fun (name, f) => listChildren (headOf k (viewMembers members))
      (viewMembers members) name f) = .ok lists) :
    List.Forall₂ (fun o c => BuiltFrom o c.2) (Origin.listed (some (.obj members)))
      lists.flatten := by
  unfold Origin.listed
  rw [Origin.holding_eq, List.flatMap_def]
  refine List.rel_flatten ?_
  rw [List.forall₂_map_left_iff]
  refine (except_mapM_ok.mp h).imp fun nf cs hcs => ?_
  have hlist := listChildren_builtFrom hcs
  simp only [has_headOf, decide_eq_true_eq] at hlist
  rw [hk]
  exact hlist

theorem BuiltFrom.parts {o : Origin} {n : Node} (h : BuiltFrom o n) :
    ∃ head children, n = mk head o.id? o.references children ∧ Assembled n ∧
      head.kind = o.kind ∧ head.get? .name = some (.text o.name) ∧
      List.Forall₂ (fun o c => BuiltFrom o c.2) o.children children := by
  cases o with
  | none =>
    cases h
    exact ⟨_, [], rfl, .inl ⟨_, rfl⟩, rfl, rfl, .nil⟩
  | some j =>
    obtain ⟨hobject, hj⟩ := h
    cases j with
    | obj members =>
      simp only [ofJson, view] at hj
      obtain ⟨kind, id, lists, ends, owned, hkind, hid, hlists, hends, howned, rfl⟩ :=
        assemble_ok.mp hj
      have hk : Origin.kind (some (.obj members)) = kind := by
        rw [value?_viewMembers] at hkind
        rw [Origin.kind_eq, hkind]
        rfl
      refine ⟨headOf kind (viewMembers members), lists.flatten ++ ends ++ owned, ?_,
        .inr ⟨_, hj⟩, ?_, name_headOf kind members, ?_⟩
      · rw [idOf_ok hid, referencesOf_eq kind hk]
      · rw [kind_headOf, hk]
      · exact List.rel_append (List.rel_append (lists_builtFrom hk hlists)
          (endChildren_builtFrom hk hends)) (ownedChildren_builtFrom howned)
    | _ => cases hobject

theorem kind_linked (parent : Value) (self : Nat) (head : Element)
    (children : List (Field × Node)) : (linked parent self head children).kind = head.kind := by
  have hattach (cs : List (Field × ElementId)) (x : Element) :
      (cs.foldl attach x).kind = x.kind := by
    induction cs generalizing x with
    | nil => rfl
    | cons c cs ih =>
      rw [List.foldl_cons, ih, attach]
      split <;> exact x.kind_set ..
  exact hattach _ head

end Node

namespace Origin

/-- What a part of a document comes to, in the order of its origins. -/
structure Agrees (os : List Origin) (start size : Nat) (ids : List (Key × ElementId))
    (references : List Node.OpenReference) (xs : List Element) : Prop where
  size : size = os.length
  identifiers : ids = carried start os
  references : references = recorded start os
  elements : List.Forall₂ (fun x o => x.kind = o.kind ∧ x.name = .text o.name) xs os

theorem Agrees.append {os os' : List Origin} {start size size' : Nat}
    {ids ids' : List (Key × ElementId)} {references references' : List Node.OpenReference}
    {xs xs' : List Element} (h : Agrees os start size ids references xs)
    (h' : Agrees os' (start + size) size' ids' references' xs') :
    Agrees (os ++ os') start (size + size') (ids ++ ids') (references ++ references')
      (xs ++ xs') := by
  obtain ⟨rfl, rfl, rfl, hxs⟩ := h
  obtain ⟨rfl, rfl, rfl, hxs'⟩ := h'
  refine ⟨List.length_append.symm, ?_, ?_, List.rel_append hxs hxs'⟩
  · rw [carried, carried, carried, List.zipIdx_append, List.filterMap_append]
  · rw [recorded, recorded, recorded, List.zipIdx_append, List.flatMap_append]

theorem Agrees.single (o : Origin) (start : Nat) {x : Element} (hkind : x.kind = o.kind)
    (hname : x.name = .text o.name) :
    Agrees [o] start 1
      (match o.id? with
        | some k => [(k, start)]
        | none => [])
      (o.references.map fun (f, id) => ⟨start, f, id⟩) [x] := by
  refine ⟨rfl, ?_, ?_, .cons ⟨hkind, hname⟩ .nil⟩
  · cases hid : o.id? <;> simp [carried, hid]
  · simp [recorded]

end Origin

namespace Node

mutual

theorem agrees (parent : Value) (self : Nat) : ∀ (n : Node) (o : Origin), BuiltFrom o n →
    Origin.Agrees o.built self n.size (n.identifiers self) (n.openReferences self)
      (n.elements parent self)
  | mk head id references children, o, h => by
    -- What the node is made of is what the origin says, and so on below it.
    obtain ⟨head', children', heq, here, hkind, hname, hchildren⟩ := h.parts
    injection heq with h1 h2 h3 h4
    subst h1 h2 h3 h4
    have hself : (linked parent self head children).kind = o.kind :=
      (kind_linked parent self head children).trans hkind
    have hsame := get?_linked_other here parent self (f := .name) (by decide) (by decide)
    have hlabel : (linked parent self head children).name = .text o.name :=
      Option.some.inj (hsame.trans hname)
    have hone := Origin.Agrees.single o self hself hlabel
    have hrest := agreesOf self (self + 1) children o.children hchildren
    rw [o.built_eq]
    simp only [size, identifiers, openReferences, elements]
    rw [Nat.add_comm]
    exact hone.append hrest

theorem agreesOf (parent next : Nat) : ∀ (children : List (Field × Node)) (os : List Origin),
    List.Forall₂ (fun o c => BuiltFrom o c.2) os children →
      Origin.Agrees (os.flatMap Origin.built) next (sizes children)
        (identifiersOf next children) (openReferencesOf next children)
        (elementsOf parent next children)
  | [], _, .nil => ⟨rfl, rfl, rfl, .nil⟩
  | (f, n) :: rest, o :: os, .cons hn hrest => by
    have hone := agrees (.ref parent) next n o hn
    have hmore := agreesOf parent (next + n.size) rest os hrest
    exact hone.append hmore

end

end Node

end UmlSchema
