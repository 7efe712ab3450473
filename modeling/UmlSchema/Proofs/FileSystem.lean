import UmlSchema.Files.FileSystem
import UmlSchema.Proofs.Emission
import UmlSchema.Proofs.Splitting

/-!
# Laws of file systems and paths

What stands at a position after something was put or removed there, and where a path leads. A path
leads to the same position in all file systems with the same directories, and a path that was read
from a text is found again in the text it is written as.
-/
namespace UmlSchema

namespace FileSystem

private theorem find?_replaced (p q : Position) (e : Entry) (xs : List (Position × Entry)) :
    (xs.map fun x => if x.1 = p then (p, e) else x).find? (fun x => x.1 == q) =
      (xs.find? fun x => x.1 == q).map fun x => if x.1 = p then (p, e) else x := by
  have hkey : ((fun x => x.1 == q) ∘ fun x : Position × Entry => if x.1 = p then (p, e) else x) =
      fun x => x.1 == q := by
    funext x
    by_cases hp : x.1 = p
    · simp [hp]
    · simp [hp]
  rw [List.find?_map, hkey]

theorem at?_put_self (fs : FileSystem) (p : Position) (e : Entry) :
    (fs.put p e).at? p = some e := by
  by_cases h : (fs.entries.any fun x => x.1 == p) = true
  · obtain ⟨y, hy⟩ : ∃ y, fs.entries.find? (fun x => x.1 == p) = some y := by
      rw [← Option.isSome_iff_exists, List.find?_isSome, ← List.any_eq_true]
      exact h
    have hkey : y.1 = p := by simpa using List.find?_some hy
    rw [put, if_pos h, at?]
    dsimp only
    rw [find?_replaced, hy]
    simp [hkey]
  · have hnone : fs.entries.find? (fun x => x.1 == p) = none := by
      rw [← Option.not_isSome_iff_eq_none, List.find?_isSome, ← List.any_eq_true]
      exact h
    simp [put, if_neg h, at?, List.find?_append, hnone]

theorem at?_put_of_ne (fs : FileSystem) {p q : Position} (e : Entry) (h : q ≠ p) :
    (fs.put p e).at? q = fs.at? q := by
  by_cases hany : (fs.entries.any fun x => x.1 == p) = true
  · rw [put, if_pos hany, at?, at?]
    dsimp only
    rw [find?_replaced]
    cases hfind : fs.entries.find? (fun x => x.1 == q) with
    | none => rfl
    | some y =>
      have hkey : y.1 = q := by simpa using List.find?_some hfind
      simp [hkey, h]
  · simp [put, if_neg hany, at?, List.find?_append, Ne.symm h]

theorem not_listed {fs : FileSystem} {p : Position} (h : fs.at? p = none) :
    ∀ x ∈ fs.entries, x.1 ≠ p := by
  intro x hx hp
  have hfind : (fs.entries.find? fun y => y.1 == p).isSome := by
    rw [List.find?_isSome]
    exact ⟨x, hx, by simp [hp]⟩
  obtain ⟨y, hy⟩ := Option.isSome_iff_exists.mp hfind
  simp [at?, hy] at h

theorem put_fresh {fs : FileSystem} {p : Position} (h : fs.at? p = none) (e : Entry) :
    fs.put p e = { fs with entries := fs.entries ++ [(p, e)] } := by
  have hany : ¬(fs.entries.any fun x => x.1 == p) = true := by
    intro hany
    obtain ⟨x, hx, hp⟩ := List.any_eq_true.mp hany
    exact not_listed h x hx (by simpa using hp)
  rw [put, if_neg hany]

theorem put_put {fs : FileSystem} {p : Position} (h : fs.at? p = none) (a b : Entry) :
    (fs.put p a).put p b = fs.put p b := by
  have hkeep : fs.entries.map (fun x => if x.1 = p then (p, b) else x) = fs.entries := by
    conv_rhs => rw [← List.map_id fs.entries]
    apply List.map_congr_left
    intro x hx
    rw [if_neg (not_listed h x hx)]
    rfl
  rw [put_fresh h a, put_fresh h b, put, if_pos (by simp)]
  simp [hkeep]

theorem remove_put {fs : FileSystem} {p : Position} (h : fs.at? p = none) (e : Entry) :
    (fs.put p e).remove p = fs := by
  have hkeep : fs.entries.filter (fun x => x.1 ≠ p) = fs.entries :=
    List.filter_eq_self.mpr fun x hx => by simpa using not_listed h x hx
  rw [put_fresh h e, remove]
  simp only [List.filter_append, hkeep]
  simp

@[simp] theorem workingDirectory_put (fs : FileSystem) (p : Position) (e : Entry) :
    (fs.put p e).workingDirectory = fs.workingDirectory := by
  unfold put
  split <;> rfl

@[simp] theorem mask_put (fs : FileSystem) (p : Position) (e : Entry) :
    (fs.put p e).mask = fs.mask := by
  unfold put
  split <;> rfl

theorem step_ok {fs : FileSystem} {p q : Position} {name : Text} (h : fs.step p name = .ok q) :
    fs.at? p = some .directory := by
  unfold step at h
  split at h
  · cases h
  · cases h
  · assumption

theorem step_of_directory {fs fs' : FileSystem} {p : Position} (h : fs.at? p = some .directory)
    (h' : fs'.at? p = some .directory) (name : Text) : fs.step p name = fs'.step p name := by
  simp only [step, h, h']

structure SameDirectories (fs fs' : FileSystem) : Prop where
  start : fs'.workingDirectory = fs.workingDirectory
  directory : ∀ p, fs'.at? p = some .directory ↔ fs.at? p = some .directory

theorem SameDirectories.symm {fs fs' : FileSystem} (h : SameDirectories fs fs') :
    SameDirectories fs' fs := ⟨h.start.symm, fun p => (h.directory p).symm⟩

theorem sameDirectories_put {fs : FileSystem} {p : Position} (h : fs.at? p ≠ some .directory)
    (content : Bytes) (mode : Nat) : SameDirectories fs (fs.put p (.file content mode)) := by
  refine ⟨workingDirectory_put _ _ _, fun q => ?_⟩
  by_cases hq : q = p
  · subst hq
    simp [at?_put_self, h]
  · rw [at?_put_of_ne _ _ hq]

theorem foldlM_step {fs fs' : FileSystem} (h : SameDirectories fs fs') {names : List Text}
    {p q : Position} (hq : names.foldlM fs.step p = .ok q) : names.foldlM fs'.step p = .ok q := by
  induction names generalizing p with
  | nil => exact hq
  | cons name names ih =>
    rw [List.foldlM_cons] at hq ⊢
    obtain ⟨next, hnext, hrest⟩ := except_bind_ok.mp hq
    have hdirectory := step_ok hnext
    rw [step_of_directory hdirectory ((h.directory p).mpr hdirectory)] at hnext
    exact except_bind_ok.mpr ⟨next, hnext, ih hrest⟩

theorem locate_ok {fs fs' : FileSystem} (h : SameDirectories fs fs') {p : Path} {q : Position} :
    fs'.locate p = .ok q ↔ fs.locate p = .ok q := by
  have hstart : fs'.start p = fs.start p := by
    unfold start
    rw [h.start]
  unfold locate
  rw [hstart]
  exact ⟨foldlM_step h.symm, foldlM_step h⟩

end FileSystem

namespace Path

/-- A path as it comes from a text: a known root mark, and names that are not empty, no single dots
and have no slashes in them. -/
structure Clean (p : Path) : Prop where
  root : p.root = [] ∨ p.root = Text.ofString "/" ∨ p.root = Text.ofString "//"
  part : ∀ q ∈ p.parts, q ≠ [] ∧ q ≠ Text.ofString "." ∧ CodePoint.scalar '/' ∉ q

theorem clean_ofText (t : Text) : (ofText t).Clean := by
  constructor
  · unfold ofText rootOf
    split
    · exact .inl rfl
    · exact .inr (.inr rfl)
    · exact .inr (.inl rfl)
  · intro q hq
    obtain ⟨hsplit, hkeep⟩ := List.mem_filter.mp hq
    have hslash := Text.mark_not_mem_part hsplit
    simp only [Bool.and_eq_true, Bool.not_eq_true', List.isEmpty_eq_false_iff,
      decide_eq_true_eq] at hkeep
    exact ⟨hkeep.1, hkeep.2, hslash⟩

theorem head?_joined {p : Path} (h : p.Clean) (hne : p.parts ≠ []) :
    ∃ c rest, Text.joinWith (Text.ofString "/") p.parts = c :: rest ∧ c ≠ .scalar '/' := by
  obtain ⟨q, parts, hparts⟩ := List.exists_cons_of_ne_nil hne
  obtain ⟨hq, -, hslash⟩ := h.part q (by rw [hparts]; exact List.mem_cons_self)
  obtain ⟨c, cs, rfl⟩ := List.exists_cons_of_ne_nil hq
  refine ⟨c, ?_⟩
  have hc : c ≠ .scalar '/' := fun hc => hslash (hc ▸ List.mem_cons_self)
  rw [hparts, Text.joinWith]
  cases parts with
  | nil => exact ⟨cs, List.intercalate_singleton, hc⟩
  | cons r parts =>
    rw [List.intercalate_cons_cons]
    exact ⟨_, rfl, hc⟩

theorem ofText_render {p : Path} (h : p.Clean) : ofText p.render = p := by
  by_cases hne : p.parts = []
  · obtain ⟨root, parts⟩ := p
    obtain rfl : parts = [] := hne
    rcases h.root with hroot | hroot | hroot <;> subst hroot <;> decide
  · obtain ⟨c, rest, hjoined, hc⟩ := head?_joined h hne
    have hsplit : Text.splitOn (.scalar '/') (c :: rest) = p.parts := by
      rw [← hjoined]
      exact Text.splitOn_joinWith hne fun q hq => (h.part q hq).2.2
    have hkeep : p.parts.filter (fun q => !q.isEmpty && q ≠ Text.ofString ".") = p.parts := by
      apply List.filter_eq_self.mpr
      intro q hq
      obtain ⟨hfull, hdot, -⟩ := h.part q hq
      simp [hfull, hdot]
    have hrender : p.render = p.root ++ c :: rest := by
      simp [render, hjoined]
    rw [hrender, ofText]
    -- Each slash of the root mark adds an empty name, which is dropped again.
    rcases h.root with hroot | hroot | hroot
    · have hmark : rootOf ([] ++ c :: rest) = [] := by simp [rootOf, hc]
      rw [hroot, hmark, List.nil_append, hsplit, hkeep, ← hroot]
    · have hmark : rootOf (Text.ofString "/" ++ c :: rest) = Text.ofString "/" := by
        simp [rootOf, Text.ofString, hc]
      have hparts : (Text.ofString "/" ++ c :: rest).splitOn (.scalar '/') = [] :: p.parts := by
        rw [← hsplit]
        rfl
      rw [hroot, hmark, hparts, List.filter_cons_of_neg (by simp), hkeep, ← hroot]
    · have hmark : rootOf (Text.ofString "//" ++ c :: rest) = Text.ofString "//" := by
        simp [rootOf, Text.ofString, hc]
      have hparts : (Text.ofString "//" ++ c :: rest).splitOn (.scalar '/') =
          [] :: [] :: p.parts := by
        rw [← hsplit]
        rfl
      rw [hroot, hmark, hparts, List.filter_cons_of_neg (by simp),
        List.filter_cons_of_neg (by simp), hkeep, ← hroot]

theorem render_ends {p : Path} (h : p.Clean) (hne : p.parts ≠ []) :
    p.render.endsWith "/" = false ∧ p.render.endsWith "/." = false := by
  obtain ⟨c, rest, hjoined, -⟩ := head?_joined h hne
  obtain ⟨hfull, hdot, hslash⟩ := h.part _ (List.getLast_mem hne)
  have hlast : p.parts.getLast hne <:+ p.render := by
    have hrender : p.render = p.root ++ Text.joinWith (Text.ofString "/") p.parts := by
      simp [render, hjoined]
    rw [hrender]
    exact (Text.getLast_suffix_joinWith _ hne).trans (List.suffix_append _ _)
  -- The last name and the ending are both ends of the text, so one of them ends in the other.
  have hending (ending : Text) (hmem : .scalar '/' ∈ ending)
      (hshort : ¬p.parts.getLast hne <:+ ending) : p.render.endsWith ending = false := by
    rw [Bool.eq_false_iff]
    intro hends
    rcases List.suffix_or_suffix_of_suffix (List.isSuffixOf_iff_suffix.mp hends) hlast with hs | hs
    · exact hslash (hs.subset hmem)
    · exact hshort hs
  have hslashes : ¬p.parts.getLast hne <:+ Text.ofString "/" := by
    intro hs
    rcases List.suffix_cons_iff.mp hs with hs | hs
    · exact hslash (by rw [hs]; exact List.mem_cons_self)
    · exact hfull (List.suffix_nil.mp hs)
  refine ⟨hending _ (by decide) hslashes, hending _ (by decide) ?_⟩
  intro hs
  rcases List.suffix_cons_iff.mp hs with hs | hs
  · exact hslash (by rw [hs]; exact List.mem_cons_self)
  · rcases List.suffix_cons_iff.mp hs with hs | hs
    · exact hdot hs
    · exact hfull (List.suffix_nil.mp hs)

end Path

namespace FileSystem

theorem status_render {fs : FileSystem} {p : Path} (h : p.Clean) (hne : p.parts ≠ [])
    (hlength : ¬longestPath < p.render.pathOctets.length) {q : Position}
    (hq : fs.locate p = .ok q) :
    fs.status p.render = match fs.at? q with
      | some e => .ok e
      | none => .error .notFound := by
  obtain ⟨hslash, hdot⟩ := Path.render_ends h hne
  have hfull : p.render.isEmpty = false := by
    obtain ⟨c, rest, hjoined, -⟩ := Path.head?_joined h hne
    simp [Path.render, hjoined]
  have hlocate : fs.locate (.ofText p.render) = .ok q := by rw [Path.ofText_render h, hq]
  simp only [status, hfull, hslash, hdot, if_neg hlength, hlocate, except_ok_bind]
  cases fs.at? q with
  | none => rfl
  | some e => cases e <;> rfl

end FileSystem

end UmlSchema
