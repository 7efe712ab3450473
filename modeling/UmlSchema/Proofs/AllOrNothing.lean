import UmlSchema.Platform.Usual
import UmlSchema.Proofs.FileSystem
import UmlSchema.Schema.Generation
import Mathlib.Data.List.TakeWhile

/-!
# Writing all or nothing

A document is written to a temporary file that then takes the place of the destination. Up to that
last step the file system differs from what it was by the temporary file alone, whichever steps have
been taken. So a run that fails can undo what it did by removing that file.
-/
namespace UmlSchema

theorem except_guard_ok {ε β : Type} {c : Prop} [Decidable c] {f : ε} {k : Unit → Except ε β}
    {b : β} (h : (if c then (throw f : Except ε Unit) >>= k else k ()) = .ok b) :
    ¬c ∧ k () = .ok b := by
  by_cases hc : c
  · rw [if_pos hc] at h
    cases h
  · rw [if_neg hc] at h
    exact ⟨hc, h⟩

namespace Utf8

theorem encode_ok_iff {t : Text} :
    (∃ bytes, encode t = .ok bytes) ↔ ∀ c ∈ t, c.isSurrogate = false := by
  have hfault : encodeFault? t = none ↔ ∀ c ∈ t, c.isSurrogate = false := by
    have hdrop : t.dropWhile (!·.isSurrogate) = [] ↔ ∀ c ∈ t, c.isSurrogate = false := by
      rw [List.dropWhile_eq_nil_iff]
      simp
    rw [← hdrop]
    unfold encodeFault?
    cases t.dropWhile (!·.isSurrogate) <;> simp
  rw [← hfault]
  unfold encode
  cases encodeFault? t <;> simp

end Utf8

namespace Writing

variable {α β : Type}

theorem run_bind_ok {x : Writing α} {f : α → Writing β} {s s' : FileSystem} {a : α}
    (h : x.run.run s = (.ok a, s')) : (x >>= f).run.run s = (f a).run.run s' := by
  simp only [ExceptT.run_bind, StateT.run_bind]
  rw [h]
  rfl

theorem run_bind_error {x : Writing α} {f : α → Writing β} {s s' : FileSystem} {cause : WriteCause}
    (h : x.run.run s = (.error cause, s')) : (x >>= f).run.run s = (.error cause, s') := by
  simp only [ExceptT.run_bind, StateT.run_bind]
  rw [h]
  rfl

/-- A step succeeds under a condition, and then does what it is for. Otherwise it fails, and leaves
no more than a temporary file. -/
def Drafts (fs : FileSystem) (temporary : Position) (x : Writing Unit) (s : FileSystem) (C : Prop)
    (Q : FileSystem → Prop) : Prop :=
  (¬C ∧ ∃ cause content mode,
    x.run.run s = (.error cause, fs.put temporary (.file content mode))) ∨
  (C ∧ ∃ done, x.run.run s = (.ok (), done) ∧ Q done)

theorem Drafts.bind {fs : FileSystem} {temporary : Position} {x : Writing Unit}
    {f : Unit → Writing Unit} {s : FileSystem} {C D : Prop} {P Q : FileSystem → Prop}
    (hx : Drafts fs temporary x s C P) (hf : ∀ s', P s' → Drafts fs temporary (f ()) s' D Q) :
    Drafts fs temporary (x >>= f) s (C ∧ D) Q := by
  rcases hx with ⟨hC, cause, content, mode, hx⟩ | ⟨hC, s', hx, hP⟩
  · exact .inl ⟨fun h => hC h.1, cause, content, mode, run_bind_error hx⟩
  · unfold Drafts
    rw [run_bind_ok hx]
    rcases hf s' hP with ⟨hD, hfail⟩ | ⟨hD, hdone⟩
    · exact .inl ⟨fun h => hD h.2, hfail⟩
    · exact .inr ⟨⟨hC, hD⟩, hdone⟩

theorem Drafts.imp {fs : FileSystem} {temporary : Position} {x : Writing Unit} {s : FileSystem}
    {C : Prop} {P Q : FileSystem → Prop} (hx : Drafts fs temporary x s C P)
    (h : ∀ s', P s' → Q s') : Drafts fs temporary x s C Q := by
  rcases hx with hfail | ⟨hC, done, hx, hP⟩
  · exact .inl hfail
  · exact .inr ⟨hC, done, hx, h done hP⟩

variable {fs : FileSystem} {faults : Faults} {temporary : Position}

theorem fill_drafts (hfree : fs.at? temporary = none) (content : Text) {old : Bytes} {mode : Nat} :
    Drafts fs temporary (fill faults temporary content) (fs.put temporary (.file old mode))
      (faults.strikes .write = none ∧ ∃ bytes, Utf8.encode content = .ok bytes)
      fun s => ∃ bytes, Utf8.encode content = .ok bytes ∧
        s = fs.put temporary (.file bytes 0o600) := by
  unfold Drafts fill
  split
  · rename_i hencode
    exact .inl ⟨by simp [hencode], _, old, mode, rfl⟩
  · rename_i bytes f _ hstrike
    have hput := FileSystem.put_put hfree (.file old mode)
      (.file (bytes.take faults.written) 0o600)
    exact .inl ⟨by simp [hstrike], .file f, _, _, congrArg (Prod.mk _) hput⟩
  · rename_i bytes hencode hstrike
    have hput := FileSystem.put_put hfree (.file old mode) (.file bytes 0o600)
    exact .inr ⟨⟨hstrike, bytes, hencode⟩, _, rfl, bytes, hencode, hput⟩

theorem run_attempt {α : Type} (x : Except FileFault α) (s : FileSystem) :
    (attempt x).run.run s = (x.mapError .file, s) := by
  cases x <;> rfl

theorem setMode_drafts (hfree : fs.at? temporary = none) (mode : Nat) {bytes : Bytes} {old : Nat} :
    Drafts fs temporary (setMode faults temporary mode) (fs.put temporary (.file bytes old))
      (faults.strikes .setMode = none) fun s => s = fs.put temporary (.file bytes mode) := by
  cases hstrike : faults.strikes .setMode with
  | some f =>
    refine .inl ⟨by simp, .file f, bytes, old, ?_⟩
    unfold setMode FileSystem.strike
    rw [hstrike]
    rfl
  | none =>
    have hmode : (fs.put temporary (.file bytes old)).withMode temporary mode =
        fs.put temporary (.file bytes mode) := by
      rw [FileSystem.withMode, FileSystem.at?_put_self]
      exact FileSystem.put_put hfree _ _
    refine .inr ⟨rfl, _, ?_, hmode⟩
    unfold setMode FileSystem.strike
    rw [hstrike]
    rfl

end Writing

namespace FileSystem

/-- Where a move leads: to a place that a name stands for, and that is no directory. -/
structure Movable (fs : FileSystem) (p : Path) (target : Position) : Prop where
  located : fs.locate p = .ok target
  free : fs.at? target ≠ some .directory
  named : ¬(p.name.isEmpty || p.name = "..")
  short : ¬longestPath < p.render.pathOctets.length

theorem Movable.parts_ne_nil {fs : FileSystem} {p : Path} {target : Position}
    (h : fs.Movable p target) : p.parts ≠ [] := by
  intro hparts
  have hnamed := h.named
  simp [Path.name, hparts] at hnamed

theorem movable_congr {fs fs' : FileSystem} (h : SameDirectories fs fs') {p : Path}
    {target : Position} : fs'.Movable p target ↔ fs.Movable p target := by
  have hfree : fs'.at? target ≠ some .directory ↔ fs.at? target ≠ some .directory :=
    not_congr (h.directory target)
  constructor
  · intro hmove
    exact ⟨(locate_ok h).mp hmove.located, hfree.mp hmove.free, hmove.named, hmove.short⟩
  · intro hmove
    exact ⟨(locate_ok h).mpr hmove.located, hfree.mpr hmove.free, hmove.named, hmove.short⟩

theorem replace_ok {fs done : FileSystem} {source : Position} {p : Path} {e : Entry}
    (hsource : fs.at? source = some e) :
    fs.replace source p = .ok done ↔
      ∃ target, fs.Movable p target ∧ done = (fs.remove source).put target e := by
  constructor
  · intro h
    unfold replace at h
    obtain ⟨hshort, h⟩ := except_guard_ok h
    obtain ⟨hname, h⟩ := except_guard_ok h
    obtain ⟨target, htarget, h⟩ := except_bind_ok.mp h
    rw [hsource] at h
    split at h
    · contradiction
    · cases h
    · rename_i hfree
      cases h
      exact ⟨target, ⟨htarget, hfree, hname, hshort⟩, by simp_all⟩
  · rintro ⟨target, hmove, rfl⟩
    unfold replace
    rw [if_neg hmove.short, if_neg hmove.named, hmove.located, hsource]
    have hfree := hmove.free
    cases htarget : fs.at? target with
    | none => simp [htarget, bind, Except.bind, pure, Except.pure]
    | some old =>
      cases old with
      | directory => exact absurd htarget hfree
      | file content mode => simp [htarget, bind, Except.bind, pure, Except.pure]

end FileSystem

namespace Writing

variable {fs : FileSystem} {faults : Faults} {temporary : Position}

theorem moveTo_drafts (hfree : fs.at? temporary = none) (p : Path) (bytes : Bytes) (mode : Nat) :
    Drafts fs temporary (moveTo faults temporary p) (fs.put temporary (.file bytes mode))
      (faults.strikes .replace = none ∧ ∃ target, fs.Movable p target)
      fun s => ∃ target, fs.Movable p target ∧ s = fs.put target (.file bytes mode) := by
  cases hstrike : faults.strikes .replace with
  | some f =>
    refine .inl ⟨by simp, .file f, bytes, mode, ?_⟩
    unfold moveTo FileSystem.strike
    rw [hstrike]
    rfl
  | none =>
    have hstart {s : FileSystem} : (moveTo faults temporary p).run.run s =
        (do set (← attempt (s.replace temporary p)) : Writing Unit).run.run s := by
      unfold moveTo FileSystem.strike
      rw [hstrike]
      rfl
    -- The temporary file is no directory, so the path leads where it led before.
    have hfile : fs.at? temporary ≠ some .directory := by simp [hfree]
    have hsame := FileSystem.sameDirectories_put hfile bytes mode
    have hreplaced {done : FileSystem} :
        (fs.put temporary (.file bytes mode)).replace temporary p = .ok done ↔
          ∃ target, fs.Movable p target ∧ done = fs.put target (.file bytes mode) := by
      rw [FileSystem.replace_ok (FileSystem.at?_put_self ..), FileSystem.remove_put hfree]
      simp only [FileSystem.movable_congr hsame]
    unfold Drafts
    rw [hstart]
    cases hreplace : (fs.put temporary (.file bytes mode)).replace temporary p with
    | error f =>
      refine .inl ⟨?_, .file f, bytes, mode, run_bind_error (run_attempt _ _)⟩
      rintro ⟨-, target, hmove⟩
      have hok := hreplaced.mpr ⟨target, hmove, rfl⟩
      rw [hreplace] at hok
      cases hok
    | ok done =>
      obtain ⟨target, hmove, hdone⟩ := hreplaced.mp hreplace
      exact .inr ⟨⟨rfl, target, hmove⟩, done, run_bind_ok (run_attempt _ _), target, hmove, hdone⟩

theorem fillAndMove_drafts (faults : Faults) (hfree : fs.at? temporary = none) (mode : Nat)
    (p : Path) (content : Text) :
    Drafts fs temporary (fillAndMove faults temporary mode p content)
      (fs.put temporary (.file [] 0o600))
      ((faults.strikes .write = none ∧ ∃ bytes, Utf8.encode content = .ok bytes) ∧
        faults.strikes .setMode = none ∧
        faults.strikes .replace = none ∧ ∃ target, fs.Movable p target)
      fun s => ∃ bytes target, Utf8.encode content = .ok bytes ∧ fs.Movable p target ∧
        s = fs.put target (.file bytes mode) := by
  refine (fill_drafts hfree content).bind fun s hs => ?_
  obtain ⟨bytes, hencode, rfl⟩ := hs
  refine (setMode_drafts hfree mode).bind fun s hs => ?_
  obtain rfl := hs
  refine (moveTo_drafts hfree p bytes mode).imp fun s hs => ?_
  obtain ⟨target, hmove, rfl⟩ := hs
  exact ⟨bytes, target, hencode, hmove, rfl⟩

end Writing

namespace FileSystem

variable {fs : FileSystem} {faults : Faults} {p : Path}

theorem discard_put {q : Position} (h : fs.at? q = none) (e : Entry) :
    (fs.put q e).discard q = fs := by
  have hthere : ((fs.put q e).at? q).isSome = true := by rw [at?_put_self]; rfl
  rw [discard, if_pos hthere, remove_put h]

theorem strike_ok {step : WriteStep} (h : strike faults step = .ok ()) :
    faults.strikes step = none := by
  unfold strike at h
  split at h
  · cases h
  · assumption

theorem temporaryPosition_ok {q : Position} (h : fs.temporaryPosition faults p = .ok q) :
    fs.at? q = none ∧ faults.strikes .create = none := by
  unfold temporaryPosition at h
  obtain ⟨-, h⟩ := except_guard_ok h
  obtain ⟨directory, -, h⟩ := except_bind_ok.mp h
  split at h
  · cases h
  · cases h
  · obtain ⟨-, h⟩ := except_guard_ok h
    obtain ⟨⟨⟩, hstrike, h⟩ := except_bind_ok.mp h
    dsimp only at h
    split at h
    · rename_i found hfound
      cases h
      exact ⟨by simpa using List.find?_some hfound, strike_ok hstrike⟩
    · cases h

def keptMode (fs : FileSystem) (target : Position) : Nat :=
  match fs.at? target with
  | some (.file _ mode) => mode
  | _ => fs.newFileMode

theorem targetMode_ok (hp : p.Clean) {target : Position} (hmove : fs.Movable p target) {mode : Nat}
    (h : fs.targetMode faults p = .ok mode) :
    (faults.strikes .status = some .notFound ∧ mode = fs.newFileMode) ∨
      (faults.strikes .status = none ∧ mode = fs.keptMode target) := by
  have hstatus := status_render hp hmove.parts_ne_nil hmove.short hmove.located
  have hfree := hmove.free
  unfold targetMode strike at h
  unfold keptMode
  cases hstrike : faults.strikes .status with
  | some f =>
    rw [hstrike] at h
    cases f <;> cases h
    exact .inl ⟨rfl, rfl⟩
  | none =>
    rw [hstrike, hstatus] at h
    refine .inr ⟨rfl, ?_⟩
    cases hat : fs.at? target with
    | none =>
      rw [hat] at h
      cases h
      rfl
    | some e =>
      rw [hat] at h hfree
      cases e with
      | directory => exact absurd rfl hfree
      | file content old =>
        cases h
        rfl

/-- Whether a step of writing a text to a path fails, by itself or from outside. -/
def Fails (fs : FileSystem) (faults : Faults) (p : Path) (content : Text) : WriteStep → Prop
  | .status => ∃ f, fs.targetMode faults p = .error f
  | .create => ∃ f, fs.temporaryPosition faults p = .error f
  | .write => faults.strikes .write ≠ none ∨ ∃ c ∈ content, c.isSurrogate = true
  | .setMode => faults.strikes .setMode ≠ none
  | .replace => faults.strikes .replace ≠ none ∨ ∀ target, ¬fs.Movable p target

theorem fails_of_strike (fs : FileSystem) (p : Path) (content : Text) {step : WriteStep}
    {f : FileFault} (hstrike : faults.strikes step = some f)
    (hother : ¬(step = .status ∧ f = .notFound)) : fs.Fails faults p content step := by
  cases step with
  | status =>
    refine ⟨f, ?_⟩
    unfold targetMode strike
    rw [hstrike]
    cases f with
    | notFound => exact absurd ⟨rfl, rfl⟩ hother
    | _ => rfl
  | create =>
    cases hcreate : fs.temporaryPosition faults p with
    | error f => exact ⟨f, hcreate⟩
    | ok q =>
      rw [(temporaryPosition_ok hcreate).2] at hstrike
      cases hstrike
  | write => exact .inl (by simp [hstrike])
  | setMode => simp [Fails, hstrike]
  | replace => exact .inl (by simp [hstrike])

/-- The whole of what writing does: a step fails and nothing changes, or none does and one file is
replaced. -/
theorem writeWhole_cases (fs : FileSystem) (faults : Faults) (hp : p.Clean) (content : Text) :
    ((∃ step, fs.Fails faults p content step) ∧
      ∃ cause, fs.writeWhole faults p content = (.error cause, fs)) ∨
    (∀ step, ¬fs.Fails faults p content step) ∧
      ∃ bytes target mode, Utf8.encode content = .ok bytes ∧ fs.Movable p target ∧
        mode = (if faults.strikes .status = some .notFound then fs.newFileMode
          else fs.keptMode target) ∧
        fs.writeWhole faults p content = (.ok (), fs.put target (.file bytes mode)) := by
  unfold writeWhole
  cases hmode : fs.targetMode faults p with
  | error f => exact .inl ⟨⟨.status, f, hmode⟩, .file f, rfl⟩
  | ok mode =>
    cases htemporary : fs.temporaryPosition faults p with
    | error f => exact .inl ⟨⟨.create, f, htemporary⟩, .file f, rfl⟩
    | ok temporary =>
      obtain ⟨hfree, -⟩ := temporaryPosition_ok htemporary
      dsimp only
      rcases Writing.fillAndMove_drafts faults hfree mode p content with
        ⟨hfails, cause, left, leftMode, hrun⟩ |
        ⟨⟨⟨hwrite, hencodes⟩, hsetMode, hreplace, -⟩, done, hrun, bytes, target, hencode, hmove,
          rfl⟩
      · refine .inl ⟨?_, cause, ?_⟩
        · by_contra hnone
          simp only [not_exists] at hnone
          have hwrite := hnone .write
          have hsetMode := hnone .setMode
          have hreplace := hnone .replace
          simp only [Fails] at hwrite hsetMode hreplace
          push Not at hwrite hsetMode hreplace
          have hencodes := Utf8.encode_ok_iff.mpr (by simpa using hwrite.2)
          exact hfails ⟨⟨hwrite.1, hencodes⟩, hsetMode, hreplace⟩
        · rw [hrun]
          dsimp only
          rw [discard_put hfree]
      · refine .inr ⟨?_, bytes, target, mode, hencode, hmove, ?_, by rw [hrun]⟩
        · intro step hfails
          cases step with
          | status =>
            obtain ⟨f, hf⟩ := hfails
            rw [hmode] at hf
            cases hf
          | create =>
            obtain ⟨f, hf⟩ := hfails
            rw [htemporary] at hf
            cases hf
          | write =>
            rcases hfails with hstrike | ⟨c, hc, hsurrogate⟩
            · exact hstrike hwrite
            · rw [Utf8.encode_ok_iff.mp hencodes c hc] at hsurrogate
              cases hsurrogate
          | setMode => exact hfails hsetMode
          | replace =>
            rcases hfails with hstrike | hnowhere
            · exact hstrike hreplace
            · exact hnowhere target hmove
        · rcases targetMode_ok hp hmove hmode with ⟨hnotFound, hnew⟩ | ⟨hnone, hkept⟩
          · rw [if_pos hnotFound, hnew]
          · rw [if_neg (by simp [hnone]), hkept]

end FileSystem

structure FileSystem.Replaced (fs fs' : FileSystem) (target : Position) (e : Entry) : Prop where
  here : fs'.at? target = some e
  others : ∀ q, q ≠ target → fs'.at? q = fs.at? q
  workingDirectory : fs'.workingDirectory = fs.workingDirectory
  mask : fs'.mask = fs.mask

theorem FileSystem.replaced_put (fs : FileSystem) (target : Position) (e : Entry) :
    fs.Replaced (fs.put target e) target e :=
  ⟨fs.at?_put_self target e, fun _ hq => fs.at?_put_of_ne e hq, fs.workingDirectory_put target e,
    fs.mask_put target e⟩

theorem FileSystem.status_replaced {fs : FileSystem} {p : Path} (hp : p.Clean) {target : Position}
    (hmove : fs.Movable p target) (bytes : Bytes) (mode : Nat) :
    (fs.put target (.file bytes mode)).status p.render = .ok (.file bytes mode) := by
  have hlocate := (locate_ok (sameDirectories_put hmove.free bytes mode)).mpr hmove.located
  rw [status_render hp hmove.parts_ne_nil hmove.short hlocate, at?_put_self]

/-- Saving comes to one of three ends: the destination is no path, a step of writing fails, or the
document is in its place. Only the last changes a file. -/
theorem save_cases (fs : FileSystem) (faults : Faults) (banners : List Text) {path : Path}
    (hp : path.Clean) (R : Rendering) :
    (∃ fault, path.render.pathFault? = some fault ∧
      save fs faults banners path R = (.error (.destination fault), fs)) ∨
    path.render.pathFault? = none ∧
      (((∃ step, fs.Fails faults path (addBanners banners R.text) step) ∧
        ∃ cause, save fs faults banners path R = (.error (.output path.render cause), fs)) ∨
      (∀ step, ¬fs.Fails faults path (addBanners banners R.text) step) ∧
        ∃ bytes target mode, Utf8.encode (addBanners banners R.text) = .ok bytes ∧
          fs.Movable path target ∧
          mode = (if faults.strikes .status = some .notFound then fs.newFileMode
            else fs.keptMode target) ∧
          save fs faults banners path R =
            (.ok ⟨addBanners banners R.text, path.render, R.warnings⟩,
              fs.put target (.file bytes mode))) := by
  unfold save
  cases hfault : path.render.pathFault? with
  | some fault => exact .inl ⟨fault, rfl, rfl⟩
  | none =>
    refine .inr ⟨rfl, ?_⟩
    rcases fs.writeWhole_cases faults hp (addBanners banners R.text) with
      ⟨hfails, cause, hwrite⟩ | ⟨hnone, bytes, target, mode, hencode, hmove, hmode, hwrite⟩
    · refine .inl ⟨hfails, cause, ?_⟩
      simp only [hwrite]
    · refine .inr ⟨hnone, bytes, target, mode, hencode, hmove, hmode, ?_⟩
      simp only [hwrite]

theorem generate_cases [Platform] (fs : FileSystem) (faults : Faults) (m : Model) (e : ElementId)
    (o : Options) (banners : List Text) (destination : Text) :
    (∃ fault, (generate fs faults m e o banners destination).result = .error fault ∧
      (generate fs faults m e o banners destination).files = fs ∧
      ∀ template R, o.template fs = .ok template →
        (render m o (some template) e).result ≠ .ok R) ∨
    ∃ template R, o.template fs = .ok template ∧ (render m o (some template) e).result = .ok R ∧
      ((generate fs faults m e o banners destination).result,
        (generate fs faults m e o banners destination).files) =
          save fs faults banners (.ofText destination) R := by
  unfold generate
  cases htemplate : o.template fs with
  | error fault => exact .inl ⟨_, rfl, rfl, fun _ _ h => nomatch h⟩
  | ok template =>
    dsimp only
    cases hrender : (render m o (some template) e).result with
    | error fault =>
      refine .inl ⟨_, rfl, rfl, fun _ R h hR => ?_⟩
      cases h
      rw [hrender] at hR
      cases hR
    | ok R => exact .inr ⟨template, R, rfl, hrender, rfl⟩

/-- A run that returns leaves the document at its destination, with the mode of the file that was
there before, and everything else as it was. A run that fails leaves everything as it was. Once
there is a document to write, a run fails with a write fault exactly if a step fails, which it does
when it is struck and when the document has a lone surrogate in it. A destination that is no path
has a fault of its own. -/
theorem generate_all_or_nothing [Platform] (fs : FileSystem) (faults : Faults) (m : Model)
    (e : ElementId) (o : Options) (banners : List Text) (destination : Text) :
    let run := generate fs faults m e o banners destination
    let path := Path.ofText destination
    ((∃ g target bytes mode, run.result = .ok g ∧ Utf8.encode g.text = .ok bytes ∧
        (∀ c ∈ g.text, c.isSurrogate = false) ∧ fs.locate path = .ok target ∧
        mode = (if faults.strikes .status = some .notFound then fs.newFileMode
          else fs.keptMode target) ∧
        run.files.status path.render = .ok (.file bytes mode) ∧
        fs.Replaced run.files target (.file bytes mode)) ∨
      ∃ fault, run.result = .error fault ∧ run.files = fs) ∧
    ∀ template R, o.template fs = .ok template → (render m o (some template) e).result = .ok R →
      let text := addBanners banners R.text
      (∀ fault, path.render.pathFault? = some fault → run.result = .error (.destination fault)) ∧
      (path.render.pathFault? = none →
        (run.result = .ok ⟨text, path.render, R.warnings⟩ ∨
          ∃ cause, run.result = .error (.output path.render cause)) ∧
        ((∃ cause, run.result = .error (.output path.render cause)) ↔
          ∃ step, fs.Fails faults path text step)) ∧
      (∀ step f, faults.strikes step = some f → ¬(step = .status ∧ f = .notFound) →
        fs.Fails faults path text step) ∧
      ((∃ c ∈ text, c.isSurrogate = true) → fs.Fails faults path text .write) := by
  intro run path
  have hclean : path.Clean := Path.clean_ofText destination
  rcases generate_cases fs faults m e o banners destination with
    ⟨fault, hresult, hfiles, hnone⟩ | ⟨template, R, htemplate, hrender, hsave⟩
  · exact ⟨.inr ⟨fault, hresult, hfiles⟩, fun t R ht hR => absurd hR (hnone t R ht)⟩
  constructor
  · rcases save_cases fs faults banners hclean R with
      ⟨fault, -, hcase⟩ | ⟨-, ⟨-, cause, hcase⟩ |
        ⟨-, bytes, target, mode, hencode, hmove, hmode, hcase⟩⟩
    all_goals
      rw [hcase, Prod.mk.injEq] at hsave
      obtain ⟨hresult, hfiles⟩ := hsave
    · exact .inr ⟨_, hresult, hfiles⟩
    · exact .inr ⟨_, hresult, hfiles⟩
    · have hencodable := Utf8.encode_ok_iff.mp ⟨bytes, hencode⟩
      refine .inl ⟨_, target, bytes, mode, hresult, hencode, hencodable, hmove.located, hmode, ?_⟩
      rw [hfiles]
      exact ⟨FileSystem.status_replaced hclean hmove bytes mode, fs.replaced_put target _⟩
  · intro template' R' htemplate' hrender' text
    -- The rendering in question is the one that was saved.
    obtain rfl : template' = template := by simpa [htemplate] using htemplate'.symm
    obtain rfl : R' = R := by simpa [hrender] using hrender'.symm
    refine ⟨?_, ?_, fun step f => fs.fails_of_strike path text, fun h => .inr h⟩
    · intro fault hfault
      rcases save_cases fs faults banners hclean R' with ⟨fault', hfault', hcase⟩ | ⟨hnone, -⟩
      · rw [hcase, Prod.mk.injEq] at hsave
        rw [hfault] at hfault'
        cases hfault'
        exact hsave.1
      · rw [hfault] at hnone
        cases hnone
    · intro hnone
      rcases save_cases fs faults banners hclean R' with
        ⟨fault, hfault, -⟩ | ⟨-, ⟨hfails, cause, hcase⟩ | ⟨hfails, _, _, _, -, -, -, hcase⟩⟩
      · rw [hnone] at hfault
        cases hfault
      · rw [hcase, Prod.mk.injEq] at hsave
        exact ⟨.inr ⟨cause, hsave.1⟩, iff_of_true ⟨cause, hsave.1⟩ hfails⟩
      · rw [hcase, Prod.mk.injEq] at hsave
        refine ⟨.inl hsave.1, iff_of_false ?_ (not_exists.mpr hfails)⟩
        rintro ⟨cause, herror⟩
        rw [hsave.1] at herror
        cases herror

attribute [local instance] Platform.usual

/-- A destination with a zero octet in it gives no write fault, although there is a document. -/
theorem zero_octet_is_no_write_fault :
    let m : Model := ⟨#[Element.blank .project]⟩
    let run := generate {} noFaults m 0 {} [] [.scalar 'a', .scalar '\x00', .scalar 'b']
    (∃ template R, Options.template {} {} = .ok template ∧
      (render m {} (some template) 0).result = .ok R) ∧
    run.result = .error (.destination .zeroOctet) ∧
    ∀ path cause, run.result ≠ .error (.output path cause) := by
  intro m run
  have hresult : run.result = .error (.destination .zeroOctet) := by decide +kernel
  have hrendered : (render m {} (some none) 0).result.isOk := by decide +kernel
  obtain ⟨R, hR⟩ := exists_ok hrendered
  refine ⟨⟨none, R, rfl, hR⟩, hresult, fun path cause h => ?_⟩
  rw [hresult] at h
  cases h

end UmlSchema
