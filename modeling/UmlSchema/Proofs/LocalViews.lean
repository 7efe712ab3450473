import UmlSchema.Platform.Usual
import UmlSchema.Proofs.Legible
import UmlSchema.Proofs.Neighbours
import UmlSchema.Proofs.Reproduction
import UmlSchema.Proofs.Resolution

/-!
# What rendering sees of relationships

Each element sees where its own generalizations, realizations and dependencies lead, and the far
ends of its associations. A rendering that ends well has asked for nothing else. So the order of
relationships counts only among those of one kind at one element, and it does not matter which end
of an association comes first, unless both refer to the same element.
-/
namespace UmlSchema

open Emission

namespace Model

variable {m m' : Model}

/-- Whether a relationship has what its kind asks for: a source and a target, or two ends that refer
to something and say whether they can be followed. -/
def isProper (m : Model) (rel : ElementId) : Bool :=
  if (m.element rel).isA .directedRelationship then
    (m.element rel).has .source && (m.element rel).has .target
  else if (m.element rel).kind = .association then
    [Field.end1, .end2].all fun f =>
      (m.endField rel f .reference).isSome && (m.endField rel f .navigable).isSome
  else true

theorem isProper_directed {rel : ElementId}
    (hdirected : (m.element rel).isA .directedRelationship = true) :
    m.isProper rel = true ↔
      (∃ v, (m.element rel).get? .source = some v) ∧
        ∃ v, (m.element rel).get? .target = some v := by
  rw [isProper, if_pos hdirected]
  simp only [Element.has, Bool.and_eq_true, Option.isSome_iff_exists]

theorem isProper_association {rel : ElementId}
    (hkind : (m.element rel).kind = .association) :
    m.isProper rel = true ↔ ∀ f, f = .end1 ∨ f = .end2 →
      (∃ v, m.endField rel f .reference = some v) ∧
        ∃ v, m.endField rel f .navigable = some v := by
  have hdirected : ¬(m.element rel).isA .directedRelationship = true := by
    rw [Element.isA, hkind]
    decide
  rw [isProper, if_neg hdirected, if_pos hkind]
  simp [Option.isSome_iff_exists]

theorem WellKinded.isProper (h : m.WellKinded) (rel : ElementId) : m.isProper rel = true := by
  by_cases hdirected : (m.element rel).isA .directedRelationship = true
  · obtain ⟨s, hs, -⟩ := h.get (Kind.fields_of_isA (f := .source) hdirected (by decide))
    obtain ⟨t, ht, -⟩ := h.get (Kind.fields_of_isA (f := .target) hdirected (by decide))
    exact (isProper_directed hdirected).mpr ⟨⟨s, hs⟩, t, ht⟩
  by_cases hkind : (m.element rel).kind = .association
  · refine (isProper_association hkind).mpr fun f hf => ?_
    obtain ⟨e, he, b, hb⟩ := Repository.exists_end (r := ⟨m, []⟩) h hkind hf
    obtain ⟨w, hw, -⟩ := Repository.reference_settles (r := ⟨m, []⟩) h hkind hf
    obtain ⟨x, hx, -⟩ := Repository.navigable_ok.mp hb
    exact ⟨⟨w, Repository.reference_ok.mp hw⟩, x, hx⟩
  · rw [Model.isProper, if_neg hdirected, if_neg hkind]

end Model

namespace Repository

variable {r r' : Repository}

def Proper (r : Repository) : Prop := ∀ rel ∈ r.relationships, r.model.isProper rel = true

instance (r : Repository) : Decidable r.Proper :=
  inferInstanceAs (Decidable (∀ rel ∈ r.relationships, _))

namespace Proper

theorem reference (h : r.Proper) {a : ElementId} (ha : a ∈ r.relationships)
    (hkind : (r.model.element a).kind = .association) {f : Field} (hf : f = .end1 ∨ f = .end2) :
    ∃ w, r.reference a f = .ok w := by
  obtain ⟨⟨w, hw⟩, -⟩ := (Model.isProper_association hkind).mp (h a ha) f hf
  exact ⟨w, reference_ok.mpr hw⟩

theorem touches (h : r.Proper) {rel : ElementId} (hrel : rel ∈ r.relationships) (v : Value) :
    Settles (r.touches v rel) fun _ => True := by
  unfold Repository.touches
  split
  · rename_i hdirected
    obtain ⟨⟨s, hs⟩, t, ht⟩ := (Model.isProper_directed hdirected).mp (h rel hrel)
    refine .after (readOf_ok.mpr hs) ?_
    split
    · exact settles_ok trivial
    · exact .after (readOf_ok.mpr ht) (settles_ok trivial)
  split
  · rename_i hkind
    obtain ⟨w, hw⟩ := h.reference hrel hkind (f := .end1) (.inl rfl)
    obtain ⟨w', hw'⟩ := h.reference hrel hkind (f := .end2) (.inr rfl)
    refine .after hw ?_
    split
    · exact settles_ok trivial
    · exact .after hw' (settles_ok trivial)
  · exact settles_ok trivial

theorem relationshipsOf (h : r.Proper) (v : Value) :
    ∃ rels, r.relationshipsOf v = .ok rels := by
  obtain ⟨rels, hrels, -⟩ := select_settles fun rel hrel => h.touches hrel v
  exact ⟨rels, hrels⟩

theorem targets (h : r.Proper) {k : Kind} (hk : k.isA .directedRelationship = true) (v : Value) :
    r.targets k v = .ok (r.leading k v) := by
  obtain ⟨rels, hrels⟩ := h.relationshipsOf v
  obtain ⟨ws, hws⟩ : ∃ ws, r.targets k v = .ok ws := by
    obtain ⟨-, hmem⟩ := select_ok hrels
    have hread : ∀ rel ∈ rels.filter (r.startsAt k v), ∃ w, r.readOf rel .target = .ok w := by
      intro rel hrel
      obtain ⟨hrel, hstart⟩ := List.mem_filter.mp hrel
      rw [hmem] at hrel
      simp only [startsAt, Bool.and_eq_true, decide_eq_true_eq] at hstart
      have hproper := h rel (List.mem_of_mem_filter hrel)
      obtain ⟨-, t, ht⟩ :=
        (Model.isProper_directed (Element.isA_of_kind hstart.1 hk)).mp hproper
      exact ⟨t, readOf_ok.mpr ht⟩
    obtain ⟨ws, hws⟩ := exists_forall₂ hread
    exact ⟨ws, except_bind_ok.mpr ⟨rels, hrels, except_mapM_ok.mpr hws⟩⟩
  rw [hws, targets_leading hk hws]

theorem answers (h : r.Proper) {a : ElementId} (ha : a ∈ r.relationships)
    (hkind : (r.model.element a).kind = .association) (x : ElementId) : r.Answers x a := by
  have navigable {f : Field} (hf : f = .end1 ∨ f = .end2) : ∃ b, r.navigable a f = .ok b := by
    obtain ⟨-, v, hv⟩ := (Model.isProper_association hkind).mp (h a ha) f hf
    exact ⟨_, navigable_ok.mpr ⟨v, hv, rfl⟩⟩
  obtain ⟨w, hw⟩ := h.reference ha hkind (f := .end1) (.inl rfl)
  obtain ⟨w', hw'⟩ := h.reference ha hkind (f := .end2) (.inr rfl)
  exact ⟨⟨w', hw', fun _ => navigable (.inl rfl)⟩, ⟨w, hw, fun _ => navigable (.inr rfl)⟩⟩

/-- An element's own writes, in terms of what it sees. Only the log shows how many associations were
looked at. -/
theorem ownWrites [Platform] (h : r.Proper) (x : ElementId) : ∃ count, r.ownWrites (.ref x) = (do
      let attributes ← r.model.members ((r.model.get? (.ref x) .attributes).getD (.refs []))
      let fromAttributes ← collect attributes r.model.fieldWrite
      let name ← r.model.shown (.ref x) .name
      debug .fields (name.text ++ ": " ++ Text.ofNat count ++ " associations")
      let fromAssociations ← r.model.fieldWrites (r.farEnds x)
      return fromAttributes.flatten ++ fromAssociations) := by
  obtain ⟨rels, hrels⟩ := h.relationshipsOf (.ref x)
  obtain ⟨as, has⟩ : ∃ as, r.associationsOf (.ref x) = .ok as :=
    ⟨_, except_bind_ok.mpr ⟨rels, hrels, rfl⟩⟩
  have hseen : collect as (r.associationWrites (.ref x)) =
      collect as fun a => r.model.fieldWrites (r.model.seenEnds x a) := by
    apply collect_congr
    intro a ha
    obtain ⟨ha, -, hkind⟩ := (mem_associationsOf has a).mp ha
    exact associationWrites_seen (h.answers ha hkind x)
  have hlist : ¬r.model.shape (.ref x) = .list := by simp [Model.shape]
  refine ⟨as.length, ?_⟩
  rw [← associationsOf_seen has, Model.fieldWrites_flatMap, Repository.ownWrites, if_neg hlist, has]
  simp only [lift_ok_bind, hseen, bind_assoc, pure_bind]

end Proper

/-- Every element sees the same in both repositories. -/
structure SameViews (r r' : Repository) : Prop where
  leading : ∀ k ∈ Kind.followed, ∀ x, r'.leading k (.ref x) = r.leading k (.ref x)
  farEnds : ∀ x, r'.farEnds x = r.farEnds x

theorem SameViews.trans {r'' : Repository} (h : r.SameViews r') (h' : r'.SameViews r'') :
    r.SameViews r'' where
  leading := fun k hk x => (h'.leading k hk x).trans (h.leading k hk x)
  farEnds := fun x => (h'.farEnds x).trans (h.farEnds x)

theorem mirrors_of_sameViews [Platform] (halike : r.model.Alike r'.model) (h : r.Proper)
    (h' : r'.Proper) (hviews : r.SameViews r') : r.Mirrors r' where
  alike := halike
  targets := by
    intro k hk x ws hws
    have hdirected : k.isA .directedRelationship = true := by
      have : ∀ k ∈ Kind.followed, k.isA .directedRelationship = true := by decide
      exact this k hk
    rw [h'.targets hdirected, hviews.leading k hk, ← h.targets hdirected, hws]
  ownWrites := by
    intro x
    obtain ⟨count, hx⟩ := h.ownWrites x
    obtain ⟨count', hx'⟩ := h'.ownWrites x
    have hwrites (es : List ElementId) : r'.model.fieldWrites es = r.model.fieldWrites es := by
      simp only [Model.fieldWrites, halike.fieldWrite]
    rw [hx, hx', hviews.farEnds, hwrites, halike.members, halike.get _ (by decide),
      funext halike.fieldWrite, halike.shownField _ (by decide) rfl]
    exact .after _ fun _ => .after _ fun _ => .after _ fun _ =>
      (Reproduced.debug _ _ _ _).bind fun _ _ => .refl _

end Repository

/-- What one repository gives, the other one gives too. -/
def SameRendering [Platform] (header : Option (Option Template)) (r r' : Repository) : Prop :=
  ∀ o e R, (renderWith r o header e).result = .ok R → (renderWith r' o header e).result = .ok R

theorem Repository.Mirrors.sameRendering [Platform] {r r' : Repository} (h : r.Mirrors r')
    {header : Option (Option Template)} (htext : SameHeader header r.model r'.model) :
    SameRendering header r r' := by
  intro o e R hR
  obtain ⟨indent, text, hl, hok, rfl⟩ := renderWith_result.mp hR
  have hl' := (htext.layoutOf h.alike o e).trans hl
  have hmirrors : Declarer.Mirrors ⟨r, o⟩ ⟨r', o⟩ := ⟨h, rfl⟩
  obtain ⟨hok', hevents⟩ := documentEvents_mirrors hmirrors text e () hok
  rw [renderWith_ok hl' hok', renderingOf_congr indent hevents]

namespace Model

/-- Whether a relationship is of a kind and starts at an element, or has it at one of its ends. -/
def concerns (m : Model) (k : Kind) (x rel : ElementId) : Bool :=
  (m.element rel).kind = k && ((m.element rel).get? .source = some (.ref x) ||
    m.endField rel .end1 .reference = some (.ref x) ||
    m.endField rel .end2 .reference = some (.ref x))

/-- The second list has the relationships of the first one in another order, in which those of one
kind at one element keep theirs. -/
structure Interleaved (m : Model) (rels rels' : List ElementId) : Prop where
  perm : rels.Perm rels'
  order : ∀ k x, rels.filter (m.concerns k x) = rels'.filter (m.concerns k x)

theorem Interleaved.swap {m : Model} {a b : ElementId} (before after : List ElementId)
    (h : (m.element a).kind ≠ (m.element b).kind) :
    m.Interleaved (before ++ a :: b :: after) (before ++ b :: a :: after) where
  perm := (List.Perm.swap b a after).append_left before
  order := by
    intro k x
    rw [List.filter_append, List.filter_append]
    congr 1
    by_cases ha : m.concerns k x a = true
    · have hb : ¬m.concerns k x b = true := by
        simp only [concerns, Bool.and_eq_true, decide_eq_true_eq] at ha ⊢
        exact fun hboth => h (ha.1.trans hboth.1.symm)
      rw [List.filter_cons_of_pos ha, List.filter_cons_of_neg hb, List.filter_cons_of_neg hb,
        List.filter_cons_of_pos ha]
    · simp only [List.filter_cons, if_neg ha]

end Model

namespace Repository

theorem leading_concerned (r : Repository) (k : Kind) (x : ElementId) :
    r.leading k (.ref x) = ((r.relationships.filter (r.model.concerns k x)).filter
      (r.startsAt k (.ref x))).filterMap fun rel => (r.model.element rel).get? .target := by
  rw [leading, List.filter_filter]
  congr 2
  funext rel
  by_cases h : r.startsAt k (.ref x) rel = true
  · have hconcerns : r.model.concerns k x rel = true := by
      simp only [startsAt, Bool.and_eq_true, decide_eq_true_eq, Option.any_eq_true,
        Value.isSame_ref] at h
      obtain ⟨hkind, s, hs, rfl⟩ := h
      simp [Model.concerns, hkind, hs]
    rw [h, hconcerns]
    rfl
  · rw [Bool.eq_false_iff.mpr h]
    rfl

theorem farEnds_concerned (r : Repository) (x : ElementId) :
    r.farEnds x =
      (r.relationships.filter (r.model.concerns .association x)).flatMap (r.model.seenEnds x) := by
  have hfilter : r.relationships.filter (r.model.concerns .association x) =
      (r.relationships.filter fun a => (r.model.element a).kind = .association).filter
        (r.model.concerns .association x) := by
    rw [List.filter_filter]
    congr 1
    funext a
    by_cases hkind : (r.model.element a).kind = .association
    · simp [hkind]
    · simp [Model.concerns, hkind]
  rw [hfilter, ← flatMap_filter_of_nil, farEnds]
  intro a ha hmiss
  obtain ⟨-, hkind⟩ := List.mem_filter.mp ha
  simp only [decide_eq_true_eq] at hkind
  simp only [Model.concerns, hkind, decide_true, Bool.true_and, Bool.or_eq_false_iff,
    decide_eq_false_iff_not] at hmiss
  simp [Model.seenEnds, Model.seenEnd, hmiss.1.2, hmiss.2]

theorem sameViews_of_interleaved {m : Model} {rels rels' : List ElementId}
    (h : m.Interleaved rels rels') : SameViews ⟨m, rels⟩ ⟨m, rels'⟩ where
  leading := by
    intro k _ x
    rw [leading_concerned, leading_concerned ⟨m, rels⟩]
    dsimp only
    rw [h.order]
    rfl
  farEnds := by
    intro x
    rw [farEnds_concerned, farEnds_concerned ⟨m, rels⟩]
    dsimp only
    rw [h.order]

end Repository

namespace Model

variable {m m' : Model}

/-- The second association, in a model of its own, has the ends of the first one the other way
round. -/
structure Exchanged (m m' : Model) (a a' : ElementId) : Prop where
  end1 : (m'.element a').get? .end1 = (m.element a).get? .end2
  end2 : (m'.element a').get? .end2 = (m.element a).get? .end1

def Distinct (m : Model) (a : ElementId) : Prop :=
  m.endField a .end1 .reference ≠ m.endField a .end2 .reference

instance (m : Model) (a : ElementId) : Decidable (m.Distinct a) :=
  inferInstanceAs (Decidable (_ ≠ _))

namespace Exchanged

variable {a a' : ElementId} {g : Field}

theorem endField₁ (h : Exchanged m m' a a') (halike : m.Alike m') (hg : g ∉ Field.links) :
    m'.endField a' .end1 g = m.endField a .end2 g := by
  simp only [endField, h.end1, halike.get _ hg]

theorem endField₂ (h : Exchanged m m' a a') (halike : m.Alike m') (hg : g ∉ Field.links) :
    m'.endField a' .end2 g = m.endField a .end1 g := by
  simp only [endField, h.end2, halike.get _ hg]

theorem isProper (h : Exchanged m m' a a') (halike : m.Alike m')
    (hkind : (m.element a).kind = .association) (hkind' : (m'.element a').kind = .association)
    (hproper : m.isProper a = true) : m'.isProper a' = true := by
  have hends := (isProper_association hkind).mp hproper
  refine (isProper_association hkind').mpr fun f hf => ?_
  rcases hf with rfl | rfl
  · rw [h.endField₁ halike (by decide), h.endField₁ halike (by decide)]
    exact hends .end2 (.inr rfl)
  · rw [h.endField₂ halike (by decide), h.endField₂ halike (by decide)]
    exact hends .end1 (.inl rfl)

/-- An element sees the far end of an association whichever end comes first, unless it stands at
both ends. -/
theorem seenEnds (h : Exchanged m m' a a') (halike : m.Alike m') (hdistinct : m.Distinct a)
    (x : ElementId) : m'.seenEnds x a' = m.seenEnds x a := by
  have hseen₁ : m'.seenEnd x a' .end2 .end1 = m.seenEnd x a .end1 .end2 := by
    simp only [seenEnd, h.endField₂ halike (g := .reference) (by decide),
      h.endField₁ halike (g := .navigable) (by decide), h.end1]
  have hseen₂ : m'.seenEnd x a' .end1 .end2 = m.seenEnd x a .end2 .end1 := by
    simp only [seenEnd, h.endField₁ halike (g := .reference) (by decide),
      h.endField₂ halike (g := .navigable) (by decide), h.end2]
  rw [Model.seenEnds, hseen₁, hseen₂, Model.seenEnds]
  by_cases hx : m.endField a .end1 .reference = some (.ref x)
  · have hnone : m.seenEnd x a .end2 .end1 = none := by
      rw [seenEnd, if_neg]
      exact fun hboth => hdistinct (hx.trans hboth.1.symm)
    simp [hnone]
  · have hnone : m.seenEnd x a .end1 .end2 = none := by
      rw [seenEnd, if_neg]
      exact fun hboth => hx hboth.1
    simp [hnone]

end Exchanged

end Model

namespace Repository

theorem sameViews_of_replaced {m : Model} {before after : List ElementId} {a a' : ElementId}
    (hkind : (m.element a).kind = .association) (hkind' : (m.element a').kind = .association)
    (h : Model.Exchanged m m a a') (hdistinct : m.Distinct a) :
    SameViews ⟨m, before ++ a :: after⟩ ⟨m, before ++ a' :: after⟩ where
  leading := by
    intro k hk x
    have hassociation : Kind.association ≠ k := by
      rintro rfl
      exact absurd hk (by decide)
    have hnot {rels : List ElementId} {b : ElementId} (hb : (m.element b).kind = .association) :
        ¬startsAt ⟨m, rels⟩ k (.ref x) b = true := by
      simp [startsAt, hb, hassociation]
    simp only [leading, List.filter_append, List.filter_cons_of_neg (hnot hkind),
      List.filter_cons_of_neg (hnot hkind')]
    rfl
  farEnds := by
    intro x
    simp [farEnds, List.filter_append, hkind, hkind',
      h.seenEnds (.refl m) hdistinct]

end Repository

namespace Model

variable {m : Model}

def exchangeEnds (m : Model) (a : ElementId) : Model :=
  match (m.element a).get? .end1, (m.element a).get? .end2 with
  | some v, some w => (m.set a .end1 w).set a .end2 v
  | _, _ => m

theorem lt_size_of_kind {a : ElementId} (h : (m.element a).kind = .association) : a < m.size := by
  by_contra hge
  rw [m.element_of_size_le (Nat.le_of_not_lt hge)] at h
  cases h

theorem kind_exchangeEnds (a e : ElementId) :
    ((m.exchangeEnds a).element e).kind = (m.element e).kind := by
  have hset (m : Model) (f : Field) (v : Value) :
      ((m.set a f v).element e).kind = (m.element e).kind := by
    rcases m.element_set a e f v with h | h
    · rw [h]
    · rw [h, Element.kind_set]
  unfold exchangeEnds
  split
  · rw [hset, hset]
  · rfl

theorem get?_exchangeEnds {a e : ElementId} {f : Field} (h₁ : (e, f) ≠ (a, .end1))
    (h₂ : (e, f) ≠ (a, .end2)) :
    ((m.exchangeEnds a).element e).get? f = (m.element e).get? f := by
  unfold exchangeEnds
  split
  · rw [get?_set_of_ne _ _ h₂, get?_set_of_ne _ _ h₁]
  · rfl

theorem exchanged_exchangeEnds (h : m.WellKinded) {a : ElementId}
    (hkind : (m.element a).kind = .association) : Exchanged m (m.exchangeEnds a) a a := by
  have hlt := lt_size_of_kind hkind
  obtain ⟨e₁, he₁, -⟩ := Repository.exists_end (r := ⟨m, []⟩) h hkind (g := .end1) (.inl rfl)
  obtain ⟨e₂, he₂, -⟩ := Repository.exists_end (r := ⟨m, []⟩) h hkind (g := .end2) (.inr rfl)
  simp only [exchangeEnds, he₁, he₂]
  constructor
  · rw [get?_set_of_ne _ _ (by simp), get?_set_self _ hlt, he₂]
  · rw [get?_set_self _ (by simpa using hlt), he₁]

theorem alike_exchangeEnds (h : m.WellKinded) (a : ElementId) : m.Alike (m.exchangeEnds a) where
  size := by
    unfold exchangeEnds
    split <;> simp
  kind := kind_exchangeEnds a
  field := by
    intro e f hf
    refine get?_exchangeEnds ?_ ?_
    · rintro ⟨⟩
      exact hf (by decide)
    · rintro ⟨⟩
      exact hf (by decide)
  shown := by
    intro e f v htext hv
    have hsort := h.isOf hv
    rw [htext] at hsort
    obtain ⟨t, rfl⟩ := text_of_isOf hsort
    rfl

theorem get?_exchangeEnds_of_ne {a b : ElementId} (hb : b ≠ a) (f : Field) :
    ((m.exchangeEnds a).element b).get? f = (m.element b).get? f :=
  get?_exchangeEnds (fun heq => hb (Prod.mk.inj heq).1) fun heq => hb (Prod.mk.inj heq).1

theorem endField_exchangeEnds (h : m.WellKinded) {a b : ElementId} (hb : b ≠ a) (f : Field)
    {g : Field} (hg : g ∉ Field.links) : (m.exchangeEnds a).endField b f g = m.endField b f g := by
  simp only [endField, get?_exchangeEnds_of_ne hb, (alike_exchangeEnds h a).get _ hg]

theorem isProper_exchangeEnds (h : m.WellKinded) {a : ElementId}
    (hkind : (m.element a).kind = .association) (rel : ElementId) :
    (m.exchangeEnds a).isProper rel = true := by
  have halike := alike_exchangeEnds h a
  by_cases hrel : rel = a
  · subst hrel
    have hkind' := (halike.kind rel).trans hkind
    exact (exchanged_exchangeEnds h hkind).isProper halike hkind hkind' (h.isProper rel)
  · have hsame : (m.exchangeEnds a).isProper rel = m.isProper rel := by
      simp only [Model.isProper, Element.isA, Element.has, halike.kind,
        get?_exchangeEnds_of_ne hrel, fun f => endField_exchangeEnds h hrel f (g := .reference)
        (by decide), fun f => endField_exchangeEnds h hrel f (g := .navigable) (by decide)]
      congr
    rw [hsame]
    exact h.isProper rel

end Model

namespace Repository

theorem sameViews_exchangeEnds {m : Model} {a : ElementId} (h : m.WellKinded)
    (hkind : (m.element a).kind = .association) (hdistinct : m.Distinct a)
    (rels : List ElementId) : SameViews ⟨m, rels⟩ ⟨m.exchangeEnds a, rels⟩ := by
  have halike := Model.alike_exchangeEnds h a
  constructor
  · intro k _ x
    have hget {f : Field} (hf : f ≠ .end1 ∧ f ≠ .end2) (rel : ElementId) :
        ((m.exchangeEnds a).element rel).get? f = (m.element rel).get? f :=
      Model.get?_exchangeEnds (fun heq => hf.1 (Prod.mk.inj heq).2) fun heq =>
        hf.2 (Prod.mk.inj heq).2
    have hstarts : startsAt ⟨m.exchangeEnds a, rels⟩ k (.ref x) =
        startsAt ⟨m, rels⟩ k (.ref x) := by
      funext rel
      simp only [startsAt, halike.kind, hget (f := .source) (by decide)]
    simp only [leading, hstarts, hget (f := .target) (by decide)]
  · intro x
    have hseen (b : ElementId) : (m.exchangeEnds a).seenEnds x b = m.seenEnds x b := by
      by_cases hb : b = a
      · subst hb
        exact (Model.exchanged_exchangeEnds h hkind).seenEnds halike hdistinct x
      · simp only [Model.seenEnds, Model.seenEnd, Model.get?_exchangeEnds_of_ne hb,
          fun f => Model.endField_exchangeEnds h hb f (g := .reference) (by decide),
          fun f => Model.endField_exchangeEnds h hb f (g := .navigable) (by decide)]
    simp only [farEnds, halike.kind, funext hseen]

theorem around_alike {m m' : Model} (h : m.Alike m') {e : ElementId} {r : Repository}
    (hr : around m e = .ok r) : around m' e = .ok ⟨m', r.relationships⟩ := by
  obtain ⟨root, hroot, hr⟩ := except_bind_ok.mp hr
  obtain ⟨walked, hwalked, hr⟩ := except_bind_ok.mp hr
  cases hr
  have hfilter : (fun x => (m'.element x).isA .relationship) =
      fun x => (m.element x).isA .relationship := by
    funext x
    rw [Element.isA, h.kind, Element.isA]
  rw [around, h.root, hroot, except_ok_bind, below, h.walk, hwalked, except_ok_bind, hfilter]
  rfl

end Repository

theorem sameHeader_of_alike {m m' : Model} (h : m.Alike m') {header : Option (Option Template)}
    (hplain : header = none ∨ header = some none) : SameHeader header m m' := by
  intro template htemplate root
  rcases hplain with rfl | rfl
  · cases htemplate
  · cases htemplate
    exact congrArg Except.ok (h.standardHeader root)

/-- Rendering depends on relationships only through what each element sees of them. So they may be
interleaved in any way that keeps the order of those of one kind at one element, and an association
between different elements may have its ends the other way round, be it another one in its place or
the same one changed. A template can show the model as a whole, and is left out of the last part. -/
theorem rendering_local_views [Platform] :
    (∀ r r' : Repository, r.model.Alike r'.model → r.Proper → r'.Proper → r.SameViews r' →
      ∀ header, SameHeader header r.model r'.model → SameRendering header r r') ∧
    (∀ (m : Model) (rels rels' : List ElementId), Repository.Proper ⟨m, rels⟩ →
      m.Interleaved rels rels' → ∀ header, SameRendering header ⟨m, rels⟩ ⟨m, rels'⟩) ∧
    (∀ (m : Model) (before after : List ElementId) (a a' : ElementId),
      Repository.Proper ⟨m, before ++ a :: after⟩ → (m.element a).kind = .association →
      (m.element a').kind = .association → Model.Exchanged m m a a' → m.Distinct a →
      ∀ header, SameRendering header ⟨m, before ++ a :: after⟩ ⟨m, before ++ a' :: after⟩) ∧
    ∀ (m : Model) (a : ElementId), m.WellKinded → (m.element a).kind = .association →
      m.Distinct a → ∀ o header e R, header = none ∨ header = some none →
        (render m o header e).result = .ok R →
        (render (m.exchangeEnds a) o header e).result = .ok R := by
  refine ⟨?_, ?_, ?_, ?_⟩
  · intro r r' halike h h' hviews header htext
    exact (Repository.mirrors_of_sameViews halike h h' hviews).sameRendering htext
  · intro m rels rels' h hinterleaved header
    have h' : Repository.Proper ⟨m, rels'⟩ := fun rel hrel =>
      h rel (hinterleaved.perm.mem_iff.mpr hrel)
    exact (Repository.mirrors_of_sameViews (.refl m) h h'
      (Repository.sameViews_of_interleaved hinterleaved)).sameRendering fun _ _ _ => rfl
  · intro m before after a a' h hkind hkind' hexchanged hdistinct header
    have h' : Repository.Proper ⟨m, before ++ a' :: after⟩ := by
      intro rel hrel
      rcases List.mem_append.mp hrel with hrel | hrel
      · exact h rel (List.mem_append_left _ hrel)
      rcases List.mem_cons.mp hrel with rfl | hrel
      · exact hexchanged.isProper (.refl m) hkind hkind' (h a (by simp))
      · exact h rel (List.mem_append_right _ (List.mem_cons_of_mem _ hrel))
    exact (Repository.mirrors_of_sameViews (.refl m) h h' (Repository.sameViews_of_replaced hkind
      hkind' hexchanged hdistinct)).sameRendering fun _ _ _ => rfl
  · intro m a h hkind hdistinct o header e R hplain hR
    have halike := Model.alike_exchangeEnds h a
    obtain ⟨r, -, -, hr, -⟩ := render_ok.mp hR
    have hmodel := around_model hr
    subst hmodel
    have hmirrors : r.Mirrors ⟨r.model.exchangeEnds a, r.relationships⟩ :=
      Repository.mirrors_of_sameViews halike (fun rel _ => h.isProper rel)
        (fun rel _ => Model.isProper_exchangeEnds h hkind rel)
        (Repository.sameViews_exchangeEnds h hkind hdistinct r.relationships)
    rw [render, hr] at hR
    rw [render, Repository.around_alike halike hr]
    exact hmirrors.sameRendering (sameHeader_of_alike halike hplain) o e R hR

/-- A class below another one and an association to a third, and the same association with its ends
the other way round, which the project does not hold. -/
def pairedShop : Model where
  elements := #[.given .project [(.name, .text "Shop"), (.owned, .refs [1, 2, 3, 6, 7])],
    .given .klass [(.name, .text "Book"), (.parent, .ref 0)],
    .given .klass [(.name, .text "Author"), (.parent, .ref 0)],
    .given .association [(.end1, .ref 4), (.end2, .ref 5), (.parent, .ref 0)],
    .given .associationEnd [(.name, .text "books"), (.reference, .ref 1),
      (.multiplicity, .text "*"), (.parent, .ref 3)],
    .given .associationEnd [(.name, .text "author"), (.reference, .ref 2), (.parent, .ref 3)],
    .given .generalization [(.source, .ref 1), (.target, .ref 7), (.parent, .ref 0)],
    .given .klass [(.name, .text "Item"), (.parent, .ref 0)],
    .given .association [(.end1, .ref 5), (.end2, .ref 4)]]

attribute [local instance] Platform.usual

/-- One text comes from the association and the generalization in either order, from the other
association, from the changed one, and from the changed one in the other order. -/
theorem pairedShop_local_views :
    (pairedShop.exchangeEnds 3).element 3 ≠ pairedShop.element 3 ∧
    ∃ R, (renderWith ⟨pairedShop, [3, 6]⟩ {} none 0).result = .ok R ∧
      (renderWith ⟨pairedShop.exchangeEnds 3, [6, 3]⟩ {} none 0).result = .ok R ∧
      (renderWith ⟨pairedShop, [6, 3]⟩ {} none 0).result = .ok R ∧
      (renderWith ⟨pairedShop, [8, 6]⟩ {} none 0).result = .ok R ∧
      (render pairedShop {} none 0).result = .ok R ∧
      (render (pairedShop.exchangeEnds 3) {} none 0).result = .ok R ∧
      R.text = Text.unlines ["type Book extends Item \x7b", "", "    author: Author", "\x7d", "",
        "type Author \x7b", "", "    books: [Book]", "\x7d", "",
        "type Item \x7b", "", "\x7d", ""] := by
  have haround : Repository.around pairedShop 0 = .ok ⟨pairedShop, [3, 6]⟩ := by rfl
  have hsome : (render pairedShop {} none 0).result.toOption.map (·.text) =
      some (Text.unlines ["type Book extends Item \x7b", "", "    author: Author", "\x7d", "",
        "type Author \x7b", "", "    books: [Book]", "\x7d", "",
        "type Item \x7b", "", "\x7d", ""]) := by
    decide +kernel
  obtain ⟨R, hR, htext⟩ := Option.map_eq_some_iff.mp hsome
  have hR := ok_of_toOption hR
  have hR' : (renderWith ⟨pairedShop, [3, 6]⟩ {} none 0).result = .ok R := by
    rw [render, haround] at hR
    exact hR
  obtain ⟨hgeneral, hinterleaved, hreplaced, hexchanged⟩ := rendering_local_views
  have hkinded : pairedShop.WellKinded := by decide +kernel
  have hkind : (pairedShop.element 3).kind = .association := by decide +kernel
  have hdistinct : pairedShop.Distinct 3 := by decide +kernel
  have halike := Model.alike_exchangeEnds hkinded 3
  have hswap : pairedShop.Interleaved [3, 6] [6, 3] := .swap [] [] (by decide +kernel)
  -- The changed association in the other order is seen like this one in this order.
  have hviews : Repository.SameViews ⟨pairedShop, [3, 6]⟩ ⟨pairedShop.exchangeEnds 3, [6, 3]⟩ :=
    (Repository.sameViews_of_interleaved hswap).trans
      (Repository.sameViews_exchangeEnds hkinded hkind hdistinct [6, 3])
  refine ⟨by decide +kernel, R, hR', ?_, ?_, ?_, hR, ?_, htext⟩
  · exact hgeneral _ _ halike (by decide +kernel) (by decide +kernel) hviews none
      (sameHeader_of_alike halike (.inl rfl)) {} 0 R hR'
  · exact hinterleaved pairedShop [3, 6] [6, 3] (by decide +kernel) hswap none {} 0 R hR'
  · exact hreplaced pairedShop [] [6] 3 8 (by decide +kernel) hkind (by decide +kernel)
      ⟨by decide +kernel, by decide +kernel⟩ hdistinct none {} 0 R hR'
  · exact hexchanged pairedShop 3 hkinded hkind hdistinct {} none 0 R (.inl rfl) hR

end UmlSchema
