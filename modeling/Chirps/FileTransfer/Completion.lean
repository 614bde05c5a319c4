/-
# The completion of a receive session

The handler that completes a session moves it from `InProgress` to `Verifying`, where alone it is
finalized. One that marks the last chunk of a paused session does not, and no later handler looks
again.
-/

import Chirps.FileTransfer.Acknowledged
import Chirps.Library.Frontier

namespace Chirps.FileTransfer

open Chirps.Library
open Function (update)
open Option (ite_none_left_eq_some ite_none_right_eq_some map_eq_some_iff)

variable {κ : Type*}

def TransferState.isTerminal : TransferState → Bool
  | .completed | .failed | .cancelled => true
  | _ => false

structure TransferComplete.Matches (completion : TransferComplete) (s : TransferSession κ) :
    Prop where
  trailing : s.manifest.usesTrailingIntegrity = true
  bytesTransferred : completion.bytesTransferred = s.manifest.fileSize
  hashAlgorithm : completion.hashAlgorithm = s.manifest.hashAlgorithm
  fileHash : completion.fileHash ≠ []

def TransferSession.HasAll (s : TransferSession κ) : Prop :=
  ∀ i < s.manifest.chunkCount, i ∈ s.completed

instance (s : TransferSession κ) : Decidable s.HasAll :=
  inferInstanceAs (Decidable (∀ i < s.manifest.chunkCount, i ∈ s.completed))

namespace Stage

/-- The end of `handle_manifest` is still to come, which looks at the completion once more. -/
def attends : Stage κ → Bool
  | .inserted | .saving _ _ .manifest | .finishing | .verifying | .placing => true
  | _ => false

def holds : Stage κ → Bool
  | .saving _ _ .locked => true
  | _ => false

end Stage

namespace Handlers

/-- A complete session at rest is ended, paused, or verifying and accepts a matching
`FinalizeRequest`. -/
def Finishable (c : ReceiveConfig κ) (m : TransferManifest κ) (x : Handlers κ) : Prop :=
  ∀ s, x.session = some s → s.HasAll → (∀ task, x.tasks task = none) →
    s.state.isTerminal = false → s.state ≠ .paused →
      s.state = .verifying ∧ ∀ task completion, completion.Matches s →
        x.step c m (.finalize task completion) =
          some (x.put task (some (.finalizing (some completion.fileHash))))

/-- No `resume_transfer` finds a paused session with all its chunks. -/
def ResumesIncomplete (x : Handlers κ) : HandlerEvent → Prop
  | .control _ .resumeTransfer => ∀ s ∈ x.session, s.state = .paused → ¬ s.HasAll
  | _ => True

instance (x : Handlers κ) (event : HandlerEvent) : Decidable (x.ResumesIncomplete event) :=
  match event with
  | .control _ .resumeTransfer => Option.decidableForallMem x.session
  | .control _ .pauseTransfer | .control _ .cancelTransfer | .control _ .cancel | .chunk _ _
  | .manifest _ | .finalize _ _ | .next _ _ | .tear _ _ | .crash _ => isTrue trivial

/-! ## The invariant -/

structure Fits (m : TransferManifest κ) (s : TransferSession κ) : Prop where
  ours : Ours m s
  within : ∀ i ∈ s.completed, i < m.chunkCount
  started : s.state ≠ .initializing

variable {s : TransferSession κ}

theorem Fits.isComplete_iff {m : TransferManifest κ} (fits : Fits m s) :
    s.isComplete = true ↔ s.HasAll := by
  rw [TransferSession.isComplete, decide_eq_true_eq]
  exact card_eq_iff_of_lt fun i hi => fits.ours.count ▸ fits.within i hi

def StageFits (m : TransferManifest κ) : Stage κ → Prop
  | .received index | .written index | .checkpointing index | .marking index =>
    index.toNat < m.chunkCount
  | .built s => Fits m s
  | _ => True

/-- A complete session in progress is still looked at by a task, and so is the lock. -/
structure Live (m : TransferManifest κ) (x : Handlers κ) : Prop where
  session : ∀ s, x.session = some s → Fits m s
  tasks : ∀ task stage, x.tasks task = some stage → StageFits m stage
  attended : ∀ s, x.session = some s → s.isComplete = true → s.state = .inProgress →
    ∃ task stage, x.tasks task = some stage ∧ stage.attends = true
  held : x.locked = true → ∃ task stage, x.tasks task = some stage ∧ stage.holds = true

variable {c : ReceiveConfig κ} {m : TransferManifest κ} {x y : Handlers κ} {task : ℕ}
  {new : Option (Stage κ)}

theorem Live.finishable (live : x.Live m) : x.Finishable c m := by
  intro s hs hall hidle hterminal hpaused
  have hcomplete := (live.session s hs).isComplete_iff.mpr hall
  have hstate : s.state = .verifying := by
    cases hstate : s.state with
    | initializing => exact absurd hstate (live.session s hs).started
    | inProgress =>
      obtain ⟨task, stage, htask, -⟩ := live.attended s hs hcomplete hstate
      rw [hidle task] at htask
      cases htask
    | paused => exact absurd hstate hpaused
    | verifying => rfl
    | completed | failed | cancelled =>
      rw [hstate] at hterminal
      cases hterminal
  refine ⟨hstate, fun task completion hmatches => ?_⟩
  have hunlocked : x.locked = false := by
    by_contra hlocked
    obtain ⟨task, stage, htask, -⟩ := live.held (Bool.eq_true_of_not_eq_false hlocked)
    rw [hidle task] at htask
    cases htask
  have hfinalizable : finalizable s completion = true := by
    simp [finalizable, hmatches.trailing, hstate, hcomplete, hmatches.bytesTransferred,
      hmatches.hashAlgorithm, hmatches.fileHash]
  rw [step, hidle task, hunlocked, hs]
  simp [hfinalizable]

theorem Live.turn (live : x.Live m) (htasks : y.tasks = update x.tasks task new)
    (hnew : ∀ stage, new = some stage → StageFits m stage)
    (hsession : ∀ s, y.session = some s → Fits m s)
    (hattended : ∀ s, y.session = some s → s.isComplete = true → s.state = .inProgress →
      (∃ stage, new = some stage ∧ stage.attends = true) ∨
        x.session = some s ∧ ∀ old, x.tasks task = some old → old.attends = false)
    (hheld : y.locked = true → (∃ stage, new = some stage ∧ stage.holds = true) ∨
      x.locked = true ∧ ∀ old, x.tasks task = some old → old.holds = false) : y.Live m := by
  -- who attended, or held the lock, still does, unless it was the task itself
  have hstays : ∀ P : Stage κ → Bool, (∃ task stage, x.tasks task = some stage ∧ P stage = true) →
      (∀ old, x.tasks task = some old → P old = false) →
        ∃ task stage, y.tasks task = some stage ∧ P stage = true := by
    rintro P ⟨task', stage, htask', hP⟩ hold
    have hne : task' ≠ task := by
      rintro rfl
      rw [hold stage htask'] at hP
      cases hP
    exact ⟨task', stage, by rw [htasks, Function.update_of_ne hne, htask'], hP⟩
  have hcomes : ∀ P : Stage κ → Bool, (∃ stage, new = some stage ∧ P stage = true) →
      ∃ task stage, y.tasks task = some stage ∧ P stage = true := by
    rintro P ⟨stage, hstage, hP⟩
    exact ⟨task, stage, by rw [htasks, Function.update_self, hstage], hP⟩
  refine ⟨hsession, ?_, fun s hs hcomplete hstate => ?_, fun hlocked => ?_⟩
  · rw [htasks]
    exact forall_update_some live.tasks hnew
  · rcases hattended s hs hcomplete hstate with hcame | ⟨hsame, hold⟩
    · exact hcomes Stage.attends hcame
    · exact hstays Stage.attends (live.attended s hsame hcomplete hstate) hold
  · rcases hheld hlocked with hcame | ⟨hx, hold⟩
    · exact hcomes Stage.holds hcame
    · exact hstays Stage.holds (live.held hx) hold

def Bystander (x : Handlers κ) (task : ℕ) : Prop :=
  ∀ old, x.tasks task = some old → old.attends = false ∧ old.holds = false

variable {old : Stage κ}

theorem bystander_of_task (htask : x.tasks task = some old) (hattends : old.attends = false)
    (hholds : old.holds = false) : x.Bystander task := by
  intro stage hstage
  cases htask.symm.trans hstage
  exact ⟨hattends, hholds⟩

theorem bystander_of_isNone (h : ¬ (x.tasks task).isSome = true) : x.Bystander task := by
  intro old htask
  rw [htask] at h
  exact absurd rfl h

theorem Live.goto (live : x.Live m) (bystander : x.Bystander task)
    (hnew : ∀ stage, new = some stage → StageFits m stage) : (x.put task new).Live m :=
  live.turn rfl hnew live.session
    (fun _ hs _ _ => .inr ⟨hs, fun old htask => (bystander old htask).1⟩)
    fun hlocked => .inr ⟨hlocked, fun old htask => (bystander old htask).2⟩

theorem Live.enter (live : x.Live m) (bystander : x.Bystander task) {stage : Stage κ}
    (hfits : StageFits m stage) : (x.put task (some stage)).Live m :=
  live.goto bystander fun _ hstage => Option.some.inj hstage ▸ hfits

theorem Live.done (live : x.Live m) (bystander : x.Bystander task) : (x.put task none).Live m :=
  live.goto bystander fun _ h => (by cases h)

theorem Live.setSession (live : x.Live m) (bystander : x.Bystander task) (hfits : Fits m s)
    (hstate : s.isComplete = true → s.state ≠ .inProgress)
    (htasks : y.tasks = update x.tasks task new)
    (hnew : ∀ stage, new = some stage → StageFits m stage) (hsession : y.session = some s)
    (hlocked : y.locked = true → x.locked = true ∨ ∃ stage, new = some stage ∧ stage.holds = true) :
    y.Live m := by
  have hs : ∀ s', y.session = some s' → s' = s := fun s' hs' =>
    Option.some.inj (hs'.symm.trans hsession)
  refine live.turn htasks hnew (fun s' hs' => hs s' hs' ▸ hfits) (fun s' hs' hcomplete h => ?_)
    fun hy => ?_
  · obtain rfl := hs s' hs'
    exact absurd h (hstate hcomplete)
  · rcases hlocked hy with hx | hheld
    · exact .inr ⟨hx, fun old htask => (bystander old htask).2⟩
    · exact .inl hheld

theorem Fits.setState {s' : TransferSession κ} (fits : Fits m s) (hours : Ours m s')
    (hcompleted : s'.completed = s.completed) (hstate : s'.state ≠ .initializing) : Fits m s' :=
  ⟨hours, fun i hi => fits.within i (hcompleted ▸ hi), hstate⟩

theorem Live.change (live : x.Live m) (bystander : x.Bystander task)
    {call : TransferSession κ → Option (TransferSession κ)}
    (hcall : ∀ s s', x.session = some s → Fits m s → call s = some s' →
      Fits m s' ∧ (s'.isComplete = true → s'.state = .inProgress → s' = s))
    (hstep : x.change c task call = some y) : y.Live m := by
  obtain ⟨hunlocked, hstep⟩ := ite_none_left_eq_some.mp hstep
  split at hstep
  · cases hstep
    exact live.done bystander
  rename_i s' hs'
  obtain ⟨s, hs, hsome⟩ := Option.bind_eq_some_iff.mp hs'
  obtain ⟨hfits, hsame⟩ := hcall s s' hs (live.session s hs) hsome
  have hsession : ∀ {z : Handlers κ}, z.session = some s' → ∀ t, z.session = some t → Fits m t :=
    fun hz t ht => Option.some.inj (hz.symm.trans ht) ▸ hfits
  have hattended : ∀ {z : Handlers κ} {new : Option (Stage κ)}, z.session = some s' →
      ∀ t, z.session = some t → t.isComplete = true → t.state = .inProgress →
        (∃ stage, new = some stage ∧ stage.attends = true) ∨
          x.session = some t ∧ ∀ old, x.tasks task = some old → old.attends = false := by
    intro z new hz t ht hcomplete hstate
    cases hz.symm.trans ht
    exact .inr ⟨hsame hcomplete hstate ▸ hs, fun old htask => (bystander old htask).1⟩
  split at hstep <;> cases hstep
  · refine live.turn rfl (fun stage hstage => ?_) (hsession rfl) (hattended rfl) fun _ => ?_
    · cases hstage
      trivial
    · exact .inl ⟨_, rfl, rfl⟩
  · refine live.turn rfl (fun _ h => (by cases h)) (hsession rfl) (hattended rfl)
      fun hlocked => ?_
    exact absurd hlocked hunlocked

/-! ## What a step keeps -/

theorem not_inProgress_of_advance {index : ℕ} (hcomplete : (s.advance index).isComplete = true) :
    (s.advance index).state ≠ .inProgress := by
  have hcard : (insert index s.completed).card = s.manifest.chunkCount :=
    of_decide_eq_true hcomplete
  rw [TransferSession.advance]
  split
  · exact nofun
  · rename_i hends
    intro hstate
    exact hends (decide_eq_true ⟨hcard, hstate⟩)

theorem Fits.advance (fits : Fits m s) {index : ℕ} (hindex : index < m.chunkCount) :
    Fits m (s.advance index) := by
  refine ⟨fits.ours.of_manifest rfl, fun i hi => ?_, ?_⟩
  · rcases Finset.mem_insert.mp hi with rfl | hi
    · exact hindex
    · exact fits.within i hi
  · rw [TransferSession.advance]
    split
    · exact nofun
    · exact fits.started

theorem state_finalized (s : TransferSession κ) (ok : Bool) (fileHash : Option Bytes) :
    (finalized s ok fileHash).state.isTerminal = true := by
  cases ok <;> rfl

theorem fits_newSession (hsized : m.Sized) (dest : Path) (resume : Option (TransferSession κ)) :
    Fits m (Entry.newSession m dest resume) :=
  ⟨⟨hsized.count, rfl, rfl⟩, fun _ hi => (Finset.mem_filter.mp hi).2, nofun⟩

theorem fits_apply {call : ControlCall} {event : HandlerEvent} (hevent : event = .control task call)
    (hresumes : x.ResumesIncomplete event) {s' : TransferSession κ} (hs : x.session = some s)
    (fits : Fits m s) (h : call.apply s = some s') :
    Fits m s' ∧ (s'.isComplete = true → s'.state = .inProgress → s' = s) := by
  subst hevent
  obtain ⟨hcompleted, hmanifest⟩ := apply_eq_some h
  have hfits : s'.state ≠ .initializing → Fits m s' :=
    fits.setState (fits.ours.of_manifest hmanifest) hcompleted
  cases call with
  | pauseTransfer =>
    obtain ⟨-, ⟨⟩⟩ := ite_none_right_eq_some.mp h
    exact ⟨hfits fun h => (by cases h), fun _ h => (by cases h)⟩
  | resumeTransfer =>
    rw [ControlCall.apply] at h
    split at h
    · rename_i hpaused
      cases h
      -- `InProgress` again, but some chunk is missing
      have hfits' := hfits fun h => (by cases h)
      refine ⟨hfits', fun hcomplete _ => ?_⟩
      exact absurd (hfits'.isComplete_iff.mp hcomplete) (hresumes s hs hpaused)
    · cases h
      exact ⟨fits, fun _ _ => rfl⟩
  | cancelTransfer =>
    rw [ControlCall.apply] at h
    split at h
    · rename_i hcancelled
      cases h
      exact ⟨hfits fits.started, fun _ hstate => (by
        cases hcancelled.symm.trans hstate)⟩
    obtain ⟨-, ⟨⟩⟩ := ite_none_right_eq_some.mp h
    exact ⟨hfits fun h => (by cases h), fun _ h => (by cases h)⟩
  | cancel =>
    cases h
    exact ⟨hfits fun h => (by cases h), fun _ h => (by cases h)⟩

theorem Live.setState (live : x.Live m) (htask : x.tasks task = some old)
    (hholds : old.holds = false) {state : TransferState} (hstarted : state ≠ .initializing)
    (hstate : state ≠ .inProgress) :
    Live m
      { x.put task none with session := x.session.map fun s => { s with state := state } } := by
  refine live.turn rfl (fun _ h => (by cases h)) (fun s hs => ?_)
    (fun s hs _ h => ?_) fun hlocked => ?_
  · obtain ⟨s', hs', rfl⟩ := map_eq_some_iff.mp hs
    have fits := live.session s' hs'
    exact fits.setState (fits.ours.of_manifest rfl) rfl hstarted
  · obtain ⟨s', -, rfl⟩ := map_eq_some_iff.mp hs
    exact absurd h hstate
  · refine .inr ⟨hlocked, fun stage hstage => ?_⟩
    cases htask.symm.trans hstage
    exact hholds

theorem stageFits_of_attends {stage : Stage κ} (h : stage.attends = true) : StageFits m stage := by
  cases stage with
  | inserted | finishing | verifying | placing | saving => trivial
  | _ => cases h

theorem Live.attend (live : x.Live m) {stage : Stage κ} (htask : x.tasks task = some old)
    (htasks : y.tasks = update x.tasks task (some stage)) (hattends : stage.attends = true)
    (hholds : old.holds = false) (hsession : ∀ s, y.session = some s → Fits m s)
    (hlocked : y.locked = x.locked) : y.Live m := by
  refine live.turn htasks (fun stage' hstage => ?_) hsession
    (fun _ _ _ _ => .inl ⟨stage, rfl, hattends⟩) fun hy => ?_
  · cases hstage
    exact stageFits_of_attends hattends
  · refine .inr ⟨hlocked ▸ hy, fun stage' hstage => ?_⟩
    cases htask.symm.trans hstage
    exact hholds

theorem Live.saving (live : x.Live m) {before after : SaveStage} {saver : Saver}
    (htask : x.tasks task = some (.saving s before saver))
    (htasks : y.tasks = update x.tasks task (some (.saving s after saver)))
    (hsession : y.session = x.session) (hlocked : y.locked = x.locked) : y.Live m := by
  refine live.turn htasks (fun stage hstage => ?_) (fun s hs => live.session s (hsession ▸ hs))
    (fun t ht _ _ => ?_) fun hy => ?_
  · cases hstage
    trivial
  · cases saver with
    | manifest => exact .inl ⟨_, rfl, rfl⟩
    | locked | handler =>
      refine .inr ⟨hsession ▸ ht, fun old hold => ?_⟩
      cases htask.symm.trans hold
      rfl
  · cases saver with
    | locked => exact .inl ⟨_, rfl, rfl⟩
    | manifest | handler =>
      refine .inr ⟨hlocked ▸ hy, fun old hold => ?_⟩
      cases htask.symm.trans hold
      rfl

/-- A task that is done with its save goes on or ends as a bystander does. -/
theorem Live.saved (live : x.Live m) {s : TransferSession κ} {stage : SaveStage} {saver : Saver}
    (htask : x.tasks task = some (.saving s stage saver)) (progress : Bytes) :
    (x.saved task saver progress).Live m := by
  cases saver with
  | manifest => exact live.attend htask rfl rfl rfl live.session rfl
  | locked =>
    refine live.turn rfl (fun _ h => (by cases h)) live.session
      (fun s hs _ _ => .inr ⟨hs, fun old hold => ?_⟩) fun hlocked => (by cases hlocked)
    cases htask.symm.trans hold
    rfl
  | handler =>
    have hmoved := live.done (bystander_of_task htask rfl rfl)
    exact ⟨hmoved.session, hmoved.tasks, hmoved.attended, hmoved.held⟩

section Next

variable (live : x.Live m) {ok : Bool} {index : UInt32}
include live

theorem Live.next_ready (htask : x.tasks task = some (.ready index))
    (hstep : x.next c m task ok (.ready index) = some y) : y.Live m := by
  have bystander := bystander_of_task htask rfl rfl
  rcases section_cases hstep with ⟨-, hstep⟩ | ⟨s, hs, hstep⟩ <;> cases hstep
  · exact live.done bystander
  refine live.goto bystander fun stage hstage => ?_
  obtain ⟨hlt, ⟨⟩⟩ := ite_none_right_eq_some.mp hstage
  rw [(live.session s hs).ours.chunks] at hlt
  exact hlt

theorem Live.next_written (htask : x.tasks task = some (.written index))
    (hstep : x.next c m task ok (.written index) = some y) : y.Live m := by
  have hfits := live.tasks task _ htask
  have bystander := bystander_of_task htask rfl rfl
  rcases section_cases hstep with ⟨-, hstep⟩ | ⟨s, hs, hstep⟩
  · cases hstep
    exact live.done bystander
  split at hstep <;> cases hstep
  · exact live.done bystander
  · refine live.enter bystander ?_
    split <;> exact hfits

theorem Live.next_checkpointing (htask : x.tasks task = some (.checkpointing index))
    (hstep : x.next c m task ok (.checkpointing index) = some y) : y.Live m := by
  obtain ⟨-, hstep⟩ := ite_none_left_eq_some.mp hstep
  have bystander := bystander_of_task htask rfl rfl
  split at hstep <;> cases hstep
  · have hfits := live.tasks task _ htask
    have hmoved : (x.put task (some (.marking index))).Live m := live.enter bystander hfits
    exact ⟨hmoved.session, hmoved.tasks, hmoved.attended, hmoved.held⟩
  · exact live.done bystander

theorem Live.next_marking (htask : x.tasks task = some (.marking index))
    (hstep : x.next c m task ok (.marking index) = some y) : y.Live m := by
  have hfits := live.tasks task _ htask
  have bystander := bystander_of_task htask rfl rfl
  rcases section_cases hstep with ⟨-, hstep⟩ | ⟨s, hs, hstep⟩
  · cases hstep
    exact live.done bystander
  split at hstep <;> cases hstep
  · exact live.done bystander
  · refine live.setSession bystander ((live.session s hs).advance hfits)
      not_inProgress_of_advance rfl (fun stage hstage => ?_) rfl .inl
    cases hstage
    trivial

theorem Live.next_acking {life : ℕ} {last : Bool}
    (htask : x.tasks task = some (.acking index life last))
    (hstep : x.next c m task ok (.acking index life last) = some y) : y.Live m := by
  have bystander := bystander_of_task htask rfl rfl
  rw [Handlers.next] at hstep
  split at hstep <;> cases hstep
  · have hmoved : (x.put task (if last then some (.finalizing none) else none)).Live m := by
      refine live.goto bystander fun stage hstage => ?_
      obtain ⟨-, ⟨⟩⟩ := ite_none_right_eq_some.mp hstage
      trivial
    exact ⟨hmoved.session, hmoved.tasks, hmoved.attended, hmoved.held⟩
  · exact live.done bystander

theorem Live.next_finalizing {fileHash : Option Bytes}
    (htask : x.tasks task = some (.finalizing fileHash))
    (hstep : x.next c m task ok (.finalizing fileHash) = some y) : y.Live m := by
  have bystander := bystander_of_task htask rfl rfl
  rcases section_cases hstep with ⟨-, hstep⟩ | ⟨s, hs, hstep⟩ <;> cases hstep
  · exact live.done bystander
  have fits := live.session s hs
  have hstate : ∀ state : TransferState, state.isTerminal = false →
      (finalized s ok fileHash).state ≠ state := by
    rintro state hopen rfl
    cases hopen.symm.trans (state_finalized s ok fileHash)
  refine live.setSession bystander (fits.setState (ours_finalized fits.ours ok fileHash)
    (completed_finalized ok fileHash) (hstate _ rfl)) (fun _ => hstate _ rfl) rfl
    (fun stage hstage => ?_) rfl .inl
  obtain ⟨-, ⟨⟩⟩ := ite_none_right_eq_some.mp hstage
  trivial

theorem Live.next_copied {resume : Option (TransferSession κ)}
    (htask : x.tasks task = some (.copied resume))
    (hstep : x.next c m task ok (.copied resume) = some y) : y.Live m := by
  have bystander := bystander_of_task htask rfl rfl
  rw [Handlers.next] at hstep
  split at hstep
  · cases hstep
    exact live.done bystander
  rename_i dest resume' hcheck
  cases hstep
  refine live.goto bystander fun stage hstage => ?_
  obtain ⟨-, ⟨⟩⟩ := ite_none_right_eq_some.mp hstage
  exact fits_newSession (Entry.checkManifest_eq_ok hcheck).1 dest resume'

theorem Live.next_inserted (htask : x.tasks task = some .inserted)
    (hstep : x.next c m task ok .inserted = some y) : y.Live m := by
  rw [Handlers.next] at hstep
  split at hstep
  · obtain ⟨-, hstep⟩ := ite_none_left_eq_some.mp hstep
    split at hstep <;> cases hstep
    · exact live.attend htask rfl rfl rfl live.session rfl
    · exact live.attend htask rfl rfl rfl live.session rfl
  · cases hstep
    exact live.attend htask rfl rfl rfl live.session rfl

theorem Live.next_finishing (htask : x.tasks task = some .finishing)
    (hstep : x.next c m task ok .finishing = some y) : y.Live m := by
  obtain ⟨hunlocked, ⟨⟩⟩ := ite_none_left_eq_some.mp hstep
  split
  · split
    · exact live.attend htask rfl rfl rfl live.session rfl
    · exact live.attend htask rfl rfl rfl live.session rfl
  · -- some chunk is missing, so its handler will look at the completion
    rename_i hmissing
    refine live.turn rfl (fun _ h => (by cases h)) live.session
      (fun s hs hcomplete _ => ?_) fun hlocked => absurd hlocked hunlocked
    refine absurd ?_ hmissing
    have hs' : x.session = some s := hs
    rw [hs', Option.any_some, hcomplete, Bool.or_true]

theorem Live.next_placing (htask : x.tasks task = some .placing)
    (hstep : x.next c m task ok .placing = some y) : y.Live m := by
  obtain ⟨hunlocked, hstep⟩ := ite_none_left_eq_some.mp hstep
  split at hstep <;> cases hstep
  · exact live.setState htask rfl (fun h => (by cases h)) fun h => (by cases h)
  · exact live.turn rfl (fun _ h => (by cases h)) (fun s hs => (by cases hs))
      (fun s hs => (by cases hs)) fun hlocked => absurd hlocked hunlocked

theorem Live.next_saving {s : TransferSession κ} {stage : SaveStage} {saver : Saver}
    (htask : x.tasks task = some (.saving s stage saver))
    (hstep : x.next c m task ok (.saving s stage saver) = some y) : y.Live m := by
  cases stage with
  | toWrite =>
    obtain ⟨-, hstep⟩ := ite_none_left_eq_some.mp hstep
    split at hstep <;> cases hstep
    · exact live.saving htask rfl rfl rfl
    · exact live.saved htask _
  | toRename =>
    obtain ⟨-, hstep⟩ := ite_none_right_eq_some.mp hstep
    split at hstep <;> cases hstep
    · exact live.saving htask rfl rfl rfl
    · exact live.saved htask _
  | toRemove =>
    obtain ⟨-, ⟨⟩⟩ := ite_none_right_eq_some.mp hstep
    exact live.saved htask _

theorem Live.next (htask : x.tasks task = some old) (hstep : x.next c m task ok old = some y) :
    y.Live m := by
  cases old with
  | waiting index =>
    cases hstep
    exact live.enter (bystander_of_task htask rfl rfl) (by cases ok <;> trivial)
  | stopping =>
    refine live.change (bystander_of_task htask rfl rfl) (fun s s' _ fits hs' => ?_) hstep
    cases hs'
    exact ⟨fits.setState (fits.ours.of_manifest rfl) rfl fun h => (by cases h),
      fun _ h => (by cases h)⟩
  | ready index => exact live.next_ready htask hstep
  | received index =>
    have hfits := live.tasks task _ htask
    cases hstep
    refine live.goto (bystander_of_task htask rfl rfl) fun stage hstage => ?_
    obtain ⟨-, ⟨⟩⟩ := ite_none_right_eq_some.mp hstage
    exact hfits
  | written index => exact live.next_written htask hstep
  | checkpointing index => exact live.next_checkpointing htask hstep
  | marking index => exact live.next_marking htask hstep
  | acking index life last => exact live.next_acking htask hstep
  | finalizing fileHash => exact live.next_finalizing htask hstep
  | loading =>
    obtain ⟨-, ⟨⟩⟩ := ite_none_left_eq_some.mp hstep
    refine live.goto (bystander_of_task htask rfl rfl) fun stage hstage => ?_
    obtain ⟨-, ⟨⟩⟩ := ite_none_right_eq_some.mp hstage
    trivial
  | copied resume => exact live.next_copied htask hstep
  | built s =>
    have hfits := live.tasks task _ htask
    obtain ⟨-, ⟨⟩⟩ := ite_none_left_eq_some.mp hstep
    refine live.attend htask rfl rfl rfl (fun s' hs' => ?_) rfl
    cases hs'
    exact hfits
  | inserted => exact live.next_inserted htask hstep
  | finishing => exact live.next_finishing htask hstep
  | verifying =>
    obtain ⟨-, ⟨⟩⟩ := ite_none_left_eq_some.mp hstep
    exact live.setState htask rfl (fun h => (by cases h)) fun h => (by cases h)
  | placing => exact live.next_placing htask hstep
  | saving s stage saver => exact live.next_saving htask hstep

end Next

theorem live_of_none (hsession : x.session = none) (htasks : ∀ task, x.tasks task = none)
    (hlocked : x.locked = false) : x.Live m := by
  refine ⟨fun s hs => ?_, fun task stage htask => ?_, fun s hs => ?_, fun h => ?_⟩
  · cases hsession.symm.trans hs
  · rw [htasks] at htask
    cases htask
  · cases hsession.symm.trans hs
  · cases hlocked.symm.trans h

theorem Live.step (live : x.Live m) {event : HandlerEvent} (hresumes : x.ResumesIncomplete event)
    (hstep : x.step c m event = some y) : y.Live m := by
  cases event with
  | chunk task index =>
    obtain ⟨hfree, ⟨⟩⟩ := ite_none_left_eq_some.mp hstep
    refine live.goto (bystander_of_isNone fun h => hfree (by rw [h, Bool.true_or]))
      fun stage hstage => ?_
    obtain ⟨s, -, rfl⟩ := map_eq_some_iff.mp hstage
    trivial
  | manifest task =>
    obtain ⟨hfree, hstep⟩ := ite_none_left_eq_some.mp hstep
    have bystander : x.Bystander task :=
      bystander_of_isNone fun h => hfree (by rw [h, Bool.true_or])
    split at hstep <;> cases hstep
    · exact live.enter bystander trivial
    · refine live.enter bystander ?_
      split <;> trivial
  | finalize task completion =>
    obtain ⟨hfree, ⟨⟩⟩ := ite_none_left_eq_some.mp hstep
    refine live.goto (bystander_of_isNone fun h => hfree (by rw [h, Bool.true_or]))
      fun stage hstage => ?_
    obtain ⟨-, ⟨⟩⟩ := ite_none_right_eq_some.mp hstage
    trivial
  | control task call =>
    obtain ⟨hfree, hstep⟩ := ite_none_left_eq_some.mp hstep
    exact live.change (bystander_of_isNone hfree)
      (fun s s' hs fits hs' => fits_apply rfl hresumes hs fits hs') hstep
  | next task ok =>
    obtain ⟨old, htask, hnext⟩ := Option.bind_eq_some_iff.mp hstep
    exact live.next htask hnext
  | tear task count =>
    rw [Handlers.step] at hstep
    split at hstep
    · rename_i index htask _
      cases hstep
      have hmoved := live.done (bystander_of_task htask rfl rfl)
      exact ⟨hmoved.session, hmoved.tasks, hmoved.attended, hmoved.held⟩
    · cases hstep
  | crash torn =>
    cases torn with
    | none =>
      cases hstep
      exact live_of_none rfl (fun _ => rfl) rfl
    | some torn =>
      rw [Handlers.step] at hstep
      split at hstep
      · cases hstep
        exact live_of_none rfl (fun _ => rfl) rfl
      · cases hstep

end Handlers

/-! ## Runs -/

/-- If no `resume_transfer` finds a paused session with all its chunks, a session that has all of
them is ended, paused, looked at by a handler, or ready for its `FinalizeRequest`. -/
theorem complete_session_is_finishable (c : ReceiveConfig κ) (m : TransferManifest κ)
    (events : List HandlerEvent) (x : Handlers κ)
    (reach : run (Handlers.step c m) Handlers.initial events = some x)
    (resumes : Along (Handlers.step c m) Handlers.ResumesIncomplete Handlers.initial events) :
    x.Finishable c m := by
  have live : x.Live m :=
    run_invariant_of_along (I := fun x => Handlers.Live m x)
      (fun x event y live hresumes hstep => live.step hresumes hstep)
      (Handlers.live_of_none rfl (fun _ => rfl) rfl) resumes reach
  exact live.finishable

def pauseInBetween : List HandlerEvent :=
  (HandlerEvent.manifest 0).steps 0 8 ++ (HandlerEvent.chunk 0 0).steps 0 7 ++
    (HandlerEvent.control 2 .pauseTransfer).steps 2 3 ++
    (HandlerEvent.control 2 .resumeTransfer).steps 2 3 ++ (HandlerEvent.chunk 0 1).steps 0 7

theorem complete_session_is_finishable_paused :
    ∃ x, run (Handlers.step plainConfig (twoChunks 1)) Handlers.initial pauseInBetween = some x ∧
      (x.session.map fun s => (s.state, s.completed)) = some (.verifying, {0, 1}) ∧
      x.Finishable plainConfig (twoChunks 1) := by
  exact exists_of_evaluated
    (fun x => (x.session.map fun s => (s.state, s.completed)) = some (.verifying, {0, 1}))
    (by decide +kernel) fun x hx hsession => ⟨hsession,
      complete_session_is_finishable plainConfig (twoChunks 1) pauseInBetween x hx
        (by decide +kernel)⟩

def pauseAroundLast : List HandlerEvent :=
  (HandlerEvent.manifest 0).steps 0 8 ++ (HandlerEvent.chunk 0 0).steps 0 7 ++
    (HandlerEvent.chunk 1 1).steps 1 2 ++ (HandlerEvent.control 2 .pauseTransfer).steps 2 3 ++
    List.replicate 5 (.next 1 true) ++ (HandlerEvent.control 2 .resumeTransfer).steps 2 3

/-- All chunks are there, no handler runs, and the session is in progress: its `FinalizeRequest` is
rejected. -/
theorem resumed_session_is_stuck :
    ∃ x, run (Handlers.step plainConfig (twoChunks 1)) Handlers.initial pauseAroundLast = some x ∧
      (x.session.map fun s => (s.state, s.completed, s.manifest.chunkCount)) =
        some (.inProgress, {0, 1}, 2) ∧
      (∀ task, x.tasks task = none) ∧ ¬ x.Finishable plainConfig (twoChunks 1) := by
  have htasks : ∀ task, ((run (Handlers.step plainConfig (twoChunks 1)) Handlers.initial
      pauseAroundLast).map fun x => (x.tasks task).isNone) = some true := by
    intro task
    match task with
    | 0 | 1 | 2 => decide +kernel
    | n + 3 => rfl
  refine exists_of_evaluated (fun x =>
      (x.session.map fun s => (s.state, s.completed, s.manifest.chunkCount)) =
        some (.inProgress, {0, 1}, 2)) (by decide +kernel) fun x hx hsession => ?_
  have hidle : ∀ task, x.tasks task = none := by
    intro task
    have hnone := htasks task
    rw [hx] at hnone
    simpa using hnone
  refine ⟨hsession, hidle, fun finishable => ?_⟩
  obtain ⟨s, hs, hfacts⟩ := map_eq_some_iff.mp hsession
  obtain ⟨hstate, hcompleted, hcount⟩ : s.state = .inProgress ∧ s.completed = {0, 1} ∧
      s.manifest.chunkCount = 2 := by
    simpa using hfacts
  have hall : s.HasAll := by
    rw [TransferSession.HasAll, hcount, hcompleted]
    decide
  obtain ⟨hverifying, -⟩ := finishable s hs hall hidle (by rw [hstate]; rfl) (by rw [hstate]; nofun)
  cases hstate.symm.trans hverifying

end Chirps.FileTransfer
