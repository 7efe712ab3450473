import UmlSchema.Proofs.ClassChain
import UmlSchema.Proofs.WellKinded

/-!
# Legible elements

In a well-kinded model an element has its field writes exactly if every association end that is seen
from it can be named. What is absent has none. A table can be made exactly if all that its walks
meet is legible.
-/
namespace UmlSchema

open Emission

namespace Repository

variable {r : Repository}

/-- An association leads from a value to an end that can be followed. -/
def SeesEnd (r : Repository) (v : Value) (far : ElementId) : Prop :=
  ∃ a ∈ r.relationships, (r.model.element a).kind = .association ∧
    ∃ f g, (f = .end1 ∧ g = .end2 ∨ f = .end2 ∧ g = .end1) ∧ r.reference a f = .ok v ∧
      r.navigable a g = .ok true ∧ (r.model.element a).get? g = some (.ref far)

/-- An element whose fields can all be written. -/
def Legible (r : Repository) (v : Value) : Prop :=
  (∃ e, v = .ref e) ∧ ∀ far, r.SeesEnd v far → ¬r.model.Unnamable far

theorem mem_associationsOf {v : Value} {as : List ElementId} (h : r.associationsOf v = .ok as)
    (a : ElementId) : a ∈ as ↔
      a ∈ r.relationships ∧ r.touches v a = .ok true ∧ (r.model.element a).kind = .association := by
  have kind : ∀ k : Kind, k.isA .association = true ↔ k = .association := by
    intro k
    cases k <;> decide
  obtain ⟨rels, hrels, h⟩ := except_bind_ok.mp h
  cases h
  obtain ⟨-, rfl⟩ := select_ok hrels
  simp only [List.mem_filter, decide_eq_true_eq, Element.isA, kind, and_assoc]

theorem exists_end (h : r.model.WellKinded) {a : ElementId} {g : Field}
    (ha : (r.model.element a).kind = .association) (hg : g = .end1 ∨ g = .end2) :
    ∃ far, (r.model.element a).get? g = some (.ref far) ∧ ∃ b, r.navigable a g = .ok b := by
  have hfield : g ∈ (r.model.element a).kind.fields := by
    rw [ha]
    rcases hg with rfl | rfl <;> decide
  obtain ⟨v, hv, hsort⟩ := h.get hfield
  obtain ⟨far, rfl, hfar⟩ : ∃ e, v = .ref e ∧ (r.model.element e).isA .associationEnd = true := by
    rcases hg with rfl | rfl <;> exact Model.ref_of_isOf hsort
  obtain ⟨x, hx, -⟩ := h.readAs (f := .navigable) hfar (by decide)
  exact ⟨far, hv, _, except_bind_ok.mpr ⟨_, readOf_ok.mpr hv, except_bind_ok.mpr ⟨x, hx, rfl⟩⟩⟩

theorem touches_of_reference (h : r.model.WellKinded) {a x : ElementId} {f : Field}
    (hkind : (r.model.element a).kind = .association) (hf : f = .end1 ∨ f = .end2)
    (href : r.reference a f = .ok (.ref x)) : r.touches (.ref x) a = .ok true := by
  have hdirected : ¬(r.model.element a).isA .directedRelationship = true := by
    rw [Element.isA, hkind]
    decide
  rw [touches, if_neg hdirected, if_pos hkind]
  have hsame : (Value.ref x).isSame (.ref x) = true := by simp
  rcases hf with rfl | rfl
  · rw [href, except_ok_bind, if_pos hsame]
    rfl
  · obtain ⟨w, hw, -⟩ := reference_settles h hkind (f := .end1) (.inl rfl)
    rw [hw, href, except_ok_bind, except_ok_bind, hsame]
    split <;> rfl

variable [Platform]

theorem endWrite_ok (h : r.model.WellKinded) {a : ElementId} {f g : Field} {v : Value}
    (ha : (r.model.element a).kind = .association) (hf : f = .end1 ∨ f = .end2)
    (hg : g = .end1 ∨ g = .end2) :
    (∃ ws, (r.endWrite v a f g).result = .ok ws) ↔
      ∀ w far, r.reference a f = .ok w → v.isSame w = true → r.navigable a g = .ok true →
        (r.model.element a).get? g = some (.ref far) → ¬r.model.Unnamable far := by
  obtain ⟨w, hw, -⟩ := reference_settles h ha hf
  obtain ⟨far, hfar, b, hb⟩ := exists_end h ha hg
  have hread : r.readOf a g = .ok (.ref far) := readOf_ok.mpr hfar
  have heq : r.endWrite v a f g =
      if v.isSame w then if b then r.model.fieldWrite (.ref far) else pure [] else pure [] := by
    simp only [endWrite, hw, hb, hread, lift_ok_bind]
  rw [heq]
  constructor
  · intro hws w' far' hw' hsame hb' hfar'
    rw [hw] at hw'
    rw [hb] at hb'
    rw [hfar] at hfar'
    cases hw'
    cases hb'
    cases hfar'
    rw [hsame] at hws
    exact (Model.fieldWrite_ok h far).mp hws
  · intro hnot
    split
    · split
      · rename_i hsame hb'
        subst hb'
        exact (Model.fieldWrite_ok h far).mpr (hnot w far hw hsame hb hfar)
      · exact ⟨[], rfl⟩
    · exact ⟨[], rfl⟩

theorem associationWrites_ok (h : r.model.WellKinded) {a x : ElementId}
    (ha : a ∈ r.relationships) (hkind : (r.model.element a).kind = .association)
    (hends : ∀ far, r.SeesEnd (.ref x) far → ¬r.model.Unnamable far) :
    ∃ ws, (r.associationWrites (.ref x) a).result = .ok ws := by
  obtain ⟨first, hfirst⟩ : ∃ ws, (r.endWrite (.ref x) a .end2 .end1).result = .ok ws := by
    refine (endWrite_ok h hkind (.inr rfl) (.inl rfl)).mpr fun w far hw hsame hnav hfar => ?_
    rw [Value.eq_of_isSame hsame] at hw
    exact hends far ⟨a, ha, hkind, _, _, .inr ⟨rfl, rfl⟩, hw, hnav, hfar⟩
  obtain ⟨second, hsecond⟩ : ∃ ws, (r.endWrite (.ref x) a .end1 .end2).result = .ok ws := by
    refine (endWrite_ok h hkind (.inl rfl) (.inr rfl)).mpr fun w far hw hsame hnav hfar => ?_
    rw [Value.eq_of_isSame hsame] at hw
    exact hends far ⟨a, ha, hkind, _, _, .inl ⟨rfl, rfl⟩, hw, hnav, hfar⟩
  exact ⟨_, bind_ok.mpr ⟨first, hfirst, bind_ok.mpr ⟨second, hsecond, rfl⟩⟩⟩

theorem ownWrites_total (h : r.model.WellKinded) {v : Value} :
    (∃ ws, (r.ownWrites v).result = .ok ws) ↔ r.Legible v := by
  constructor
  · rintro ⟨ws, hws⟩
    obtain ⟨x, rfl⟩ := ref_of_ownWrites hws
    refine ⟨⟨x, rfl⟩, ?_⟩
    rintro far ⟨a, ha, hkind, f, g, hfg, href, hnav, hfar⟩
    obtain ⟨-, -, -, as, -, fb, -, -, has, -, hfb, -⟩ := ownWrites_ok.mp hws
    have hf : f = .end1 ∨ f = .end2 := hfg.imp And.left And.left
    have hmem : a ∈ as :=
      (mem_associationsOf has a).mpr ⟨ha, touches_of_reference h hkind hf href, hkind⟩
    obtain ⟨part, -, hpart⟩ := forall₂_mem_left hfb hmem
    obtain ⟨first, hfirst, hpart⟩ := bind_ok.mp hpart
    obtain ⟨second, hsecond, -⟩ := bind_ok.mp hpart
    have hsame : (Value.ref x).isSame (.ref x) = true := by simp
    rcases hfg with ⟨rfl, rfl⟩ | ⟨rfl, rfl⟩
    · exact (endWrite_ok h hkind (.inl rfl) (.inr rfl)).mp ⟨_, hsecond⟩ _ far href hsame hnav hfar
    · exact (endWrite_ok h hkind (.inr rfl) (.inl rfl)).mp ⟨_, hfirst⟩ _ far href hsame hnav hfar
  · rintro ⟨⟨x, rfl⟩, hends⟩
    -- Attributes always have their own names, so that only the ends matter.
    obtain ⟨attributes, hattributes, hkinds⟩ : ∃ es : List ElementId,
        r.model.members ((r.model.get? (.ref x) .attributes).getD (.refs [])) =
          .ok (es.map Value.ref) ∧ ∀ e ∈ es, (r.model.element e).isA .property = true := by
      cases hget : r.model.get? (.ref x) .attributes with
      | none => exact ⟨[], rfl, by simp⟩
      | some v =>
        obtain ⟨es, rfl, hes⟩ := Model.refs_of_isOf (h.isOf (e := x) (f := .attributes) hget)
        exact ⟨es, rfl, hes⟩
    obtain ⟨fa, hfa⟩ : ∃ fa, List.Forall₂ (fun a w => (r.model.fieldWrite a).result = .ok w)
        (attributes.map Value.ref) fa := by
      refine exists_forall₂ fun v hv => ?_
      obtain ⟨e, he, rfl⟩ := List.mem_map.mp hv
      refine (Model.fieldWrite_ok h e).mpr ?_
      rintro ⟨hend, -⟩
      have hproperty := hkinds e he
      rw [Element.isA, hend] at hproperty
      cases hproperty
    obtain ⟨as, has, -⟩ := associationsOf_settles h (.ref x)
    obtain ⟨name, hname, -⟩ := Model.shown_settles (h.readName x)
    obtain ⟨fb, hfb⟩ : ∃ fb, List.Forall₂
        (fun a w => (r.associationWrites (.ref x) a).result = .ok w) as fb := by
      refine exists_forall₂ fun a ha => ?_
      obtain ⟨ha, -, hkind⟩ := (mem_associationsOf has a).mp ha
      exact associationWrites_ok h ha hkind hends
    exact ⟨_, ownWrites_ok.mpr ⟨by simp [Model.shape], _, fa, as, name, fb, hattributes, hfa, has,
      hname, hfb, rfl⟩⟩

theorem walkable_iff_legible (h : r.model.WellKinded) {v : Value} :
    r.Walkable v ↔ r.Legible v := by
  obtain ⟨parents, hparents, -⟩ := targets_settles h (k := .generalization) rfl v
  rw [← ownWrites_total h]
  exact ⟨fun hwalk => hwalk.2, fun hws => ⟨⟨parents, hparents⟩, hws⟩⟩

theorem interfaceTable_total (h : r.model.WellKinded) {e : ElementId} :
    (∃ t, (r.interfaceTable e).result = .ok t) ↔
      ∀ x, r.Reaches (.ref e) x → r.Legible x := by
  simp only [← walkable_iff_legible h, ← interfaceWrites_total, interfaceTable_ok]
  constructor
  · rintro ⟨t, ws, hws, -⟩
    exact ⟨ws, hws⟩
  · rintro ⟨ws, hws⟩
    exact ⟨_, ws, hws, rfl⟩

theorem classTable_total (h : r.model.WellKinded) {e : ElementId} :
    (∃ t, (r.classTable e).result = .ok t) ↔
      (∀ i, r.Realizes (.ref e) i → ∀ x, r.Reaches i x → r.Legible x) ∧
        ∀ x, r.Climbs (.ref e) x → r.Legible x := by
  obtain ⟨interfaces, hi, -⟩ := targets_settles h (k := .interfaceRealization) rfl (.ref e)
  have htotal := classWrites_total (r := r) (v := .ref e)
  simp only [walkable_iff_legible h] at htotal
  simp only [classTable_ok]
  constructor
  · rintro ⟨t, ws, hws, -⟩
    exact (htotal.mp ⟨ws, hws⟩).2
  · intro hlegible
    obtain ⟨ws, hws⟩ := htotal.mpr ⟨⟨interfaces, hi⟩, hlegible⟩
    exact ⟨_, ws, hws, rfl⟩

theorem text_of_endWrite (h : r.model.WellKinded) {v n : Value} {a : ElementId} {f g : Field}
    {ws : List FieldWrite} (hws : (r.endWrite v a f g).result = .ok ws)
    (hn : n ∈ ws.map Prod.fst) : ∃ t, n = .text t := by
  obtain ⟨w, -, hws⟩ := bind_ok.mp hws
  split at hws
  · obtain ⟨b, -, hws⟩ := bind_ok.mp hws
    split at hws
    · obtain ⟨x, -, hws⟩ := bind_ok.mp hws
      exact Model.text_of_fieldWrite h hws hn
    · cases hws
      cases hn
  · cases hws
    cases hn

theorem text_of_writesName (h : r.model.WellKinded) {v n : Value} (hn : r.WritesName v n) :
    ∃ t, n = .text t := by
  obtain ⟨ws, hws, hn⟩ := hn
  obtain ⟨-, attributes, fa, as, -, fb, -, hfa, -, -, hfb, rfl⟩ := ownWrites_ok.mp hws
  simp only [List.map_append, List.map_flatten, List.mem_append, List.mem_flatten, List.mem_map,
    exists_exists_and_eq_and] at hn
  rcases hn with ⟨part, hpart, hn⟩ | ⟨part, hpart, hn⟩
  · obtain ⟨a, -, hwrite⟩ := forall₂_mem_right hfa hpart
    exact Model.text_of_fieldWrite h hwrite (List.mem_map.mpr hn)
  · obtain ⟨a, -, hwrite⟩ := forall₂_mem_right hfb hpart
    obtain ⟨first, hfirst, hwrite⟩ := bind_ok.mp hwrite
    obtain ⟨second, hsecond, hwrite⟩ := bind_ok.mp hwrite
    cases hwrite
    obtain ⟨w, hw, rfl⟩ := hn
    rcases List.mem_append.mp hw with hw | hw
    · exact text_of_endWrite h hfirst (List.mem_map_of_mem hw)
    · exact text_of_endWrite h hsecond (List.mem_map_of_mem hw)

theorem text_keys (h : r.model.WellKinded) {ws : List FieldWrite}
    (hws : ∀ n ∈ ws.map Prod.fst, ∃ x, r.WritesName x n) :
    ∀ entry ∈ Table.ofWrites ws, ∃ t, entry.1 = .text t := by
  intro entry hentry
  have hkey : entry.1 ∈ (Table.ofWrites ws).keys := List.mem_map_of_mem hentry
  rw [Table.mem_keys_ofWrites] at hkey
  obtain ⟨x, hx⟩ := hws _ hkey
  exact text_of_writesName h hx

theorem interfaceTable_text (h : r.model.WellKinded) {e : ElementId} {t : FieldTable}
    (ht : (r.interfaceTable e).result = .ok t) : ∀ entry ∈ t, ∃ name, entry.1 = .text name := by
  obtain ⟨ws, hws, rfl⟩ := interfaceTable_ok.mp ht
  refine text_keys h fun n hn => ?_
  obtain ⟨x, -, hx⟩ := (names_interfaceWrites hws n).mp hn
  exact ⟨x, hx⟩

theorem classTable_text (h : r.model.WellKinded) {e : ElementId} {t : FieldTable}
    (ht : (r.classTable e).result = .ok t) : ∀ entry ∈ t, ∃ name, entry.1 = .text name := by
  obtain ⟨ws, hws, rfl⟩ := classTable_ok.mp ht
  obtain ⟨interfaces, parts, chain, last, -, hparts, -, hlast, rfl⟩ := classWrites_ok.mp hws
  refine text_keys h fun n hn => ?_
  obtain ⟨w, hw, rfl⟩ := List.mem_map.mp hn
  rcases List.mem_append.mp hw with hw | hw
  · obtain ⟨part, hpart, hw⟩ := List.mem_flatten.mp hw
    obtain ⟨i, -, hwrites⟩ := forall₂_mem_right hparts hpart
    obtain ⟨x, -, hx⟩ := (names_interfaceWrites hwrites w.1).mp (List.mem_map_of_mem hw)
    exact ⟨x, hx⟩
  · obtain ⟨x, -, hx⟩ := (names_writesOf hlast w.1).mp (List.mem_map_of_mem hw)
    exact ⟨x, hx⟩

end Repository

end UmlSchema
