/-
# Sessions that install their files side by side

A session without `overwrite` asks whether its destination is free, gives up the processor and then
renames. It relies on nobody else to put a file there in between.
-/

import Chirps.FileTransfer.Isolation
import Chirps.Library.Table

namespace Chirps.FileTransfer

open Chirps.Library
open Function (update)

variable {κ σ : Type*}

structure Incoming (κ : Type*) where
  id : κ
  dest : Path
  manifest : TransferManifest κ

/-- How far it is: before its temporary file, its chunks, the look at the destination and the
rename. -/
inductive InstallStage
  | requested
  | receiving
  | verified
  | renaming

inductive InstallStep
  | prepare (answer : Prepared)
  | write (offset : ℕ) (data : Bytes)
  | verify (precomputed : Option Bytes) (fault : Option DiskFault)
  | check
  | rename

namespace Incoming

def temp (c : ReceiveConfig κ) (s : Incoming κ) : Path := c.tempPathFor s.dest s.id

/-- `!overwrite && path_exists(dest)`. -/
def taken (s : Incoming κ) (files : Files) : Bool :=
  !s.manifest.options.overwrite && (files s.dest).isSome

def turn (c : ReceiveConfig κ) (h : Hashing σ) (s : Incoming κ) (files : Files) :
    InstallStage → InstallStep → Option (Option InstallStage × Files)
  | .requested, .prepare answer =>
    match prepareTempFile files (s.temp c) s.manifest.fileSize answer with
    | .ok files => some (some .receiving, files)
    | .error files => some (none, files)
  | .receiving, .write offset data =>
    match files (s.temp c) with
    | none => some (some .receiving, files)
    | some content => some (some .receiving,
        update files (s.temp c) (some (writeAt 0 content offset data)))
  | .receiving, .verify precomputed fault =>
    if s.manifest.options.verifyOnComplete then
      match computedHash h files (s.temp c) s.manifest precomputed fault with
      | none => some (none, files)
      | some computed =>
        if computed ≠ s.manifest.fileHash then
          some (none, if fault = some .removing then files
            else update files (s.temp c) none)
        else some (some .verified, files)
    else some (some .verified, files)
  | .verified, .check => some (if s.taken files then none else some .renaming, files)
  | .renaming, .rename =>
    match files (s.temp c) with
    | none => some (none, files)
    | some content => some (none,
        update (update files (s.temp c) none) s.dest (some content))
  | _, _ => none

variable {c : ReceiveConfig κ} {h : Hashing σ} {s : Incoming κ} {files files' : Files}

theorem turn_check_rename (hfree : s.taken files = false) {content : Bytes}
    (hplaced : placeFile files (s.temp c) s.dest s.manifest.options.overwrite none =
      .placed content files') :
    s.turn c h files .verified .check = some (some .renaming, files) ∧
      s.turn c h files .renaming .rename = some (none, files') := by
  obtain ⟨htemp, rfl⟩ := placeFile_placed hplaced
  constructor
  · rw [turn, if_neg (by rw [hfree]; decide)]
  · rw [turn, htemp]

theorem free_of_turn {stage : InstallStage} {how : InstallStep}
    (hturn : s.turn c h files stage how = some (some .renaming, files'))
    (hkeeps : s.manifest.options.overwrite = false) : files' s.dest = none := by
  unfold turn at hturn
  split at hturn
  case h_4 =>
    split at hturn
    · cases hturn
    · rename_i hfree
      cases hturn
      simpa [taken, hkeeps] using hfree
  all_goals (repeat' split at hturn) <;> cases hturn

/-- Only `prepare` and `rename` make files, each one of its own. -/
theorem none_of_turn {stage : InstallStage} {how : InstallStep} {stage' : Option InstallStage}
    (hturn : s.turn c h files stage how = some (stage', files')) {path : Path}
    (hnone : files path = none)
    (hprepare : stage = .requested → ∀ answer, how = .prepare answer → s.temp c ≠ path)
    (hrename : stage = .renaming → how = .rename → s.dest ≠ path) : files' path = none := by
  unfold turn at hturn
  split at hturn
  · have hne := hprepare rfl _ rfl
    rename_i answer
    cases answer <;> cases hturn
    exacts [(Function.update_of_ne hne.symm _ _).trans hnone,
      (Function.update_of_ne hne.symm _ _).trans hnone, hnone]
  · split at hturn <;> cases hturn
    · exact hnone
    · rename_i hthere
      exact (Function.update_of_ne (fun h => by simp [← h, hnone] at hthere) _ _).trans hnone
  · (repeat' split at hturn) <;> cases hturn
    · exact hnone
    · exact hnone
    · rw [Function.update_apply]
      split
      · rfl
      · exact hnone
    all_goals exact hnone
  · cases hturn
    exact hnone
  · have hne := hrename rfl rfl
    split at hturn <;> cases hturn
    · exact hnone
    · rw [Function.update_of_ne hne.symm, Function.update_apply]
      split
      · rfl
      · exact hnone
  · cases hturn

end Incoming

structure Installs (κ : Type*) where
  files : Files
  tasks : ℕ → Option (Incoming κ × InstallStage)

inductive InstallEvent (κ : Type*)
  | request (task : ℕ) (s : Incoming κ) (asked : Bool)
  | turn (task : ℕ) (how : InstallStep)

namespace Installs

def step (c : ReceiveConfig κ) (h : Hashing σ) (x : Installs κ) :
    InstallEvent κ → Option (Installs κ)
  | .request task s asked =>
    if (x.tasks task).isSome then none
    else some ⟨x.files, update x.tasks task
      (if asked && s.taken x.files then none else some (s, .requested))⟩
  | .turn task how => (x.tasks task).bind fun (s, stage) =>
    (s.turn c h x.files stage how).map fun (stage, files) =>
      ⟨files, update x.tasks task (stage.map (s, ·))⟩

/-- A session without `overwrite` renames its file to a destination where there is one. -/
def Replaces (c : ReceiveConfig κ) (x : Installs κ) : InstallEvent κ → Prop
  | .turn task .rename => ∃ s, x.tasks task = some (s, .renaming) ∧
      s.manifest.options.overwrite = false ∧ x.files (s.temp c) ≠ none ∧ x.files s.dest ≠ none
  | _ => False

def Free (x : Installs κ) : Prop :=
  ∀ task s, x.tasks task = some (s, .renaming) → s.manifest.options.overwrite = false →
    x.files s.dest = none

/-- A session other than that of `task` has found `path` free and is about to rename its file to
it. -/
def Awaited (x : Installs κ) (task : ℕ) (path : Path) : Prop :=
  ∃ other s, other ≠ task ∧ x.tasks other = some (s, .renaming) ∧
    s.manifest.options.overwrite = false ∧ s.dest = path

/-- A session that makes its temporary file, or renames it to its destination, does so at a path for
which no other session is about to rename. -/
def KeepsClear (c : ReceiveConfig κ) (x : Installs κ) : InstallEvent κ → Prop
  | .turn task (.prepare _) =>
    ∀ s, x.tasks task = some (s, .requested) → ¬ x.Awaited task (s.temp c)
  | .turn task .rename => ∀ s, x.tasks task = some (s, .renaming) → ¬ x.Awaited task s.dest
  | _ => True

variable {c : ReceiveConfig κ} {h : Hashing σ} {x y : Installs κ} {e : InstallEvent κ}

theorem Free.step (free : x.Free) (clear : x.KeepsClear c e) (hstep : x.step c h e = some y) :
    y.Free := by
  intro task s htask hkeeps
  cases e with
  | request task' s' asked =>
    obtain ⟨-, ⟨⟩⟩ := Option.ite_none_left_eq_some.mp hstep
    rcases update_eq_some_iff.mp htask with ⟨-, hnew⟩ | ⟨-, hold⟩
    · split at hnew <;> cases hnew
    · exact free task s hold hkeeps
  | turn task' how =>
    obtain ⟨⟨s', stage⟩, htask', hstep⟩ := Option.bind_eq_some_iff.mp hstep
    obtain ⟨⟨stage', files⟩, hturn, rfl⟩ := Option.map_eq_some_iff.mp hstep
    rcases update_eq_some_iff.mp htask with ⟨-, hnew⟩ | ⟨hne, hold⟩
    · -- its own look at the destination, which changes no file
      obtain ⟨stage', rfl, ⟨⟩⟩ := Option.map_eq_some_iff.mp hnew
      exact Incoming.free_of_turn hturn hkeeps
    · refine Incoming.none_of_turn hturn (free task s hold hkeeps) ?_ ?_
      · rintro rfl answer rfl heq
        exact clear s' htask' ⟨task, s, hne, hold, hkeeps, heq.symm⟩
      · rintro rfl rfl heq
        exact clear s' htask' ⟨task, s, hne, hold, hkeeps, heq.symm⟩

theorem Free.not_replaces (free : x.Free) : ¬ x.Replaces c e := by
  cases e with
  | request task s asked => exact id
  | turn task how =>
    cases how with
    | rename =>
      rintro ⟨s, htask, hkeeps, -, hthere⟩
      exact hthere (free task s htask hkeeps)
    | _ => exact id

/-- If no session makes or renames a file at a path where another is about to rename its own, no
rename replaces a file unless its session was asked to overwrite. -/
theorem renames_replace_nothing (c : ReceiveConfig κ) (h : Hashing σ) (files : Files)
    (events : List (InstallEvent κ))
    (clear : Along (step c h) (KeepsClear c) ⟨files, fun _ => none⟩ events) :
    Along (step c h) (fun x e => ¬ x.Replaces c e) ⟨files, fun _ => none⟩ events :=
  Along.of_invariant (I := Free) (fun _ _ _ free clear hstep => free.step clear hstep)
    (fun _ _ _ free _ _ => free.not_replaces) nofun clear

/-! ### Two sessions for one destination -/

/-- A session for `a` up to its look at the destination. -/
def upToVerify (task : ℕ) (id : Bool) (byte : UInt8) : List (InstallEvent Bool) :=
  [.request task ⟨id, ["a"], byteManifest id { verifyOnComplete := false }⟩ true,
    .turn task (.prepare .resized), .turn task (.write 0 [byte]), .turn task (.verify none none)]

/-- Both find the destination free, and the second rename replaces the file of the first. -/
theorem second_rename_replaces_file :
    ∃ x, run (step pairConfig plainHashing) ⟨fun _ => none, fun _ => none⟩
        (upToVerify 0 false 1 ++ [.turn 0 .check] ++ upToVerify 1 true 2 ++
          [.turn 1 .check, .turn 0 .rename]) = some x ∧
      x.Replaces pairConfig (.turn 1 .rename) ∧ x.files ["a"] = some [1] ∧
      ∃ y, x.step pairConfig plainHashing (.turn 1 .rename) = some y ∧ y.files ["a"] = some [2] :=
  ⟨_, rfl, ⟨_, rfl, rfl, by decide, by decide⟩, rfl, _, rfl, rfl⟩

/-- The first session renames before the second looks, which then leaves the file as it is. -/
def oneAfterOther : List (InstallEvent Bool) :=
  upToVerify 0 false 1 ++ [.turn 0 .check] ++ upToVerify 1 true 2 ++
    [.turn 0 .rename, .turn 1 .check]

theorem renames_replace_nothing_two_sessions :
    Along (step pairConfig plainHashing) (fun x e => ¬ x.Replaces pairConfig e)
        ⟨fun _ => none, fun _ => none⟩ oneAfterOther ∧
      ∃ x, run (step pairConfig plainHashing) ⟨fun _ => none, fun _ => none⟩ oneAfterOther =
        some x ∧
        x.files ["a"] = some [1] ∧ (x.tasks 1).isNone = true := by
  refine ⟨renames_replace_nothing pairConfig plainHashing _ _ ?_, _, rfl, rfl, rfl⟩
  refine ⟨trivial, ?_, trivial, trivial, trivial, trivial, ?_, trivial, trivial, ?_, trivial,
    trivial⟩
  all_goals rintro s hs ⟨other, t, hne, htask, -, hdest⟩
  · simp [Function.update_of_ne hne] at htask
  · cases hs
    rcases other with _ | other
    · cases htask
      exact absurd hdest (by decide)
    · simp [Function.update_apply] at htask
  · rcases other with _ | _ | other
    · exact hne rfl
    · cases htask
    · simp at htask

end Installs
end Chirps.FileTransfer
