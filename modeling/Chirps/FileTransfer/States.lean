/-
# Which state follows which

Pausing, resuming and cancelling ask `can_transition`. The other writers set the state themselves
after a wait, so that a state may follow that the table does not have.
-/

import Chirps.FileTransfer.Acknowledged
import Chirps.FileTransfer.Move

namespace Chirps.FileTransfer

open Chirps.Library
open Function (update update_self)
open Option (ite_none_left_eq_some ite_none_right_eq_some any_eq_true map_eq_some_iff some_ne_none)

variable {κ ν σ : Type*}

/-- The state stays, or changes as the table allows. -/
def TransferState.Follows (before after : TransferState) : Prop :=
  after = before ∨ before.canTransition after

instance (before after : TransferState) : Decidable (before.Follows after) :=
  inferInstanceAs (Decidable (_ ∨ _))

theorem TransferState.Follows.refl (state : TransferState) : state.Follows state := .inl rfl

/-- The states over which a state may be written. -/
def TransferState.foundBy : TransferState → List TransferState
  | .initializing => [.initializing]
  | .inProgress => [.initializing, .inProgress, .paused]
  | .paused => [.inProgress, .paused]
  | .verifying => [.inProgress, .verifying]
  | .completed => [.inProgress, .verifying, .completed]
  | .failed => [.initializing, .inProgress, .paused, .verifying, .failed]
  | .cancelled => [.initializing, .inProgress, .paused, .cancelled]

/-- If there is a session, it is found in one of the states. -/
def FoundIn (found : Option TransferState) (states : List TransferState) : Prop :=
  ∀ before, found = some before → before ∈ states

/-! ## Machines that keep sessions -/

/-- `registers`: the event begins the session anew; `direct`: the state it writes without asking. -/
structure StateMachine (α ε κ : Type*) where
  step : α → ε → Option α
  state : α → κ → Option TransferState
  registers : α → ε → κ → Prop
  direct : α → ε → Option (κ × TransferState)

namespace StateMachine

variable {α ε : Type*} (M : StateMachine α ε κ)

structure Accounted (x y : α) (event : ε) : Prop where
  direct : ∀ id before after, M.direct x event = some (id, after) →
    M.state x id = some before → M.state y id = some after
  unregistered : ∀ id id' after, M.direct x event = some (id, after) → ¬ M.registers x event id'
  checked : ∀ id before after, ¬ M.registers x event id →
    (∀ state, M.direct x event ≠ some (id, state)) → M.state x id = some before →
    M.state y id = some after → before.Follows after

variable {M} {x y : α} {event : ε}

end StateMachine

/-! ### Loading a session to cancel it

`load_session` looks into the registry, reads the session from disk if it is not there, and puts
it into the registry then, whatever has come there meanwhile. -/

/-- The registry and the sessions on disk. Nothing is read or put while it waits for a lock. -/
structure Registry {α ε : Type*} (M : StateMachine α ε κ) (ς : Type*) [DecidableEq κ] where
  misses : α → κ → Bool
  read : α → κ → Option ς
  put : α → ς → Option α
  key : ς → κ
  state : ς → TransferState
  state_put : ∀ x s y, put x s = some y →
    M.state y = update (M.state x) (key s) (some (state s))

inductive LoadCall (κ ς : Type*)
  | missed (id : κ)
  | loaded (s : ς)

structure Service (α κ ς : Type*) where
  base : α
  calls : ℕ → Option (LoadCall κ ς)

inductive ServiceEvent (ε κ : Type*)
  | base (event : ε)
  | miss (call : ℕ) (id : κ)
  | read (call : ℕ)
  | record (call : ℕ)

namespace Service

variable {α ε ς : Type*} [DecidableEq κ] {M : StateMachine α ε κ}

def start (x : α) : Service α κ ς := ⟨x, fun _ => none⟩

/-- `stops` are the events after which the process begins again. -/
def step (R : Registry M ς) (stops : ε → Bool) (x : Service α κ ς) :
    ServiceEvent ε κ → Option (Service α κ ς)
  | .base event =>
    (M.step x.base event).map fun y => ⟨y, if stops event then fun _ => none else x.calls⟩
  | .miss call id =>
    if (x.calls call).isNone && R.misses x.base id then
      some { x with calls := update x.calls call (some (.missed id)) }
    else none
  | .read call =>
    match x.calls call with
    | some (.missed id) => (R.read x.base id).map fun s =>
        { x with calls := update x.calls call (some (.loaded s)) }
    | _ => none
  | .record call =>
    match x.calls call with
    | some (.loaded s) => (R.put x.base s).map fun y =>
        ⟨y, update x.calls call none⟩
    | _ => none

/-- The machine with the calls. The session that a call puts into the registry is written
without asking the table. -/
def machine (R : Registry M ς) (stops : ε → Bool) :
    StateMachine (Service α κ ς) (ServiceEvent ε κ) κ where
  step := step R stops
  state x := M.state x.base
  registers x event id :=
    match event with
    | .base event => M.registers x.base event id
    | _ => False
  direct x
    | .base event => M.direct x.base event
    | .record call =>
      match x.calls call with
      | some (.loaded s) => some (R.key s, R.state s)
      | _ => none
    | _ => none

variable {R : Registry M ς} {stops : ε → Bool} {x y : Service α κ ς}

variable {event : ServiceEvent ε κ}

theorem accounted_of_state_eq (hdirect : (machine R stops).direct x event = none)
    (hstate : M.state y.base = M.state x.base) : (machine R stops).Accounted x y event where
  direct id before after h := by
    cases hdirect.symm.trans h
  unregistered id id' after h := by
    cases hdirect.symm.trans h
  checked id before after _ _ hbefore hafter := by
    have hsame : M.state x.base id = some after := hstate ▸ hafter
    cases hbefore.symm.trans hsame
    exact .refl _

/-- A step is one of the machine, or one of a call, which leaves the machine alone or puts the
session that it has loaded into the registry. -/
theorem step_cases (hstep : step R stops x event = some y) :
    (∃ e, event = .base e ∧ M.step x.base e = some y.base) ∨
    ((machine R stops).direct x event = none ∧ y.base = x.base) ∨
    ∃ call s, event = .record call ∧ x.calls call = some (.loaded s) ∧
      R.put x.base s = some y.base := by
  cases event with
  | base event =>
    obtain ⟨z, hz, rfl⟩ := map_eq_some_iff.mp hstep
    exact .inl ⟨event, rfl, hz⟩
  | miss call id =>
    obtain ⟨-, ⟨⟩⟩ := ite_none_right_eq_some.mp hstep
    exact .inr (.inl ⟨rfl, rfl⟩)
  | read call =>
    rw [step] at hstep
    split at hstep
    · obtain ⟨s, -, rfl⟩ := map_eq_some_iff.mp hstep
      exact .inr (.inl ⟨rfl, rfl⟩)
    · cases hstep
  | record call =>
    rw [step] at hstep
    split at hstep
    · rename_i s hcall
      obtain ⟨z, hz, rfl⟩ := map_eq_some_iff.mp hstep
      exact .inr (.inr ⟨call, s, rfl, hcall, hz⟩)
    · cases hstep

theorem accounted_record {call : ℕ} {s : ς} (hcall : x.calls call = some (.loaded s))
    (hput : R.put x.base s = some y.base) : (machine R stops).Accounted x y (.record call) := by
  have hstate : M.state y.base = update (M.state x.base) (R.key s) (some (R.state s)) :=
    R.state_put x.base s y.base hput
  have hdirect : (machine R stops).direct x (.record call) = some (R.key s, R.state s) := by
    simp only [machine, hcall]
  refine ⟨fun id before after h _ => ?_, fun _ _ _ _ => id,
    fun id before after _ hother hbefore hafter => ?_⟩
  · obtain ⟨rfl, rfl⟩ := Prod.mk.inj (Option.some.inj (hdirect.symm.trans h))
    simp only [machine, hstate, update_self]
  · -- the session of another id
    have hid : id ≠ R.key s := fun hid => hother (R.state s) (by rw [hdirect, hid])
    simp only [machine, hstate, Function.update_of_ne hid] at hafter
    cases hbefore.symm.trans hafter
    exact .refl _

theorem accounted (hstep : step R stops x event = some y)
    (hbase : ∀ e z, M.step x.base e = some z → M.Accounted x.base z e) :
    (machine R stops).Accounted x y event := by
  rcases step_cases hstep with ⟨e, rfl, hy⟩ | ⟨hdirect, hy⟩ | ⟨call, s, rfl, hcall, hput⟩
  · have h := hbase e y.base hy
    exact ⟨h.direct, h.unregistered, h.checked⟩
  · exact accounted_of_state_eq hdirect (congrArg M.state hy)
  · exact accounted_record hcall hput

/-- A session that has been loaded is put into the registry over one that may take its state. -/
def Timely (R : Registry M ς) (timely : α → ε → Prop) (x : Service α κ ς) :
    ServiceEvent ε κ → Prop
  | .base event => timely x.base event
  | .record call => ∀ s, x.calls call = some (.loaded s) →
      FoundIn (M.state x.base (R.key s)) (R.state s).foundBy
  | _ => True

end Service

/-! ## The receiving side -/

def Stage.Quiet : Stage κ → Prop
  | .stopping | .marking _ | .finalizing _ | .built _ | .verifying | .placing => False
  | _ => True

namespace Handlers

def Registers (x : Handlers κ) : HandlerEvent → Prop
  | .next task _ => ∃ s, x.tasks task = some (.built s)
  | _ => False

/-- The state that the step writes without asking the table. -/
def directWrite (x : Handlers κ) : HandlerEvent → Option TransferState
  -- the task for `Cancel` messages
  | .control _ .cancel => some .cancelled
  | .next task ok =>
    match x.tasks task, ok with
    -- a chunk that finds its control channel cancelled
    | some .stopping, _ => some .cancelled
    -- `verify_and_finalize` has returned
    | some (.finalizing _), true => some .completed
    | some (.finalizing _), false => some .failed
    -- a manifest all of whose chunks are there
    | some .verifying, _ => some .verifying
    | some .placing, true => some .completed
    | _, _ => none
  | _ => none

/-- The session, if there is one, is in one of the states. -/
def Found (x : Handlers κ) (states : List TransferState) : Prop :=
  FoundIn (x.session.map (·.state)) states

/-- A `Cancel` message, or a chunk whose control channel is cancelled, comes before the session is
verified or has ended in another way. The end of a finalization or of a manifest finds the session
as far as that, and not paused, cancelled or ended in another way. -/
def Timely (x : Handlers κ) : HandlerEvent → Prop
  | .control _ .cancel => x.Found [.initializing, .inProgress, .paused, .cancelled]
  | .next task ok =>
    match x.tasks task, ok with
    | some .stopping, _ => x.Found [.initializing, .inProgress, .paused, .cancelled]
    | some (.finalizing _), true => x.Found [.inProgress, .verifying, .completed]
    | some (.finalizing _), false =>
      x.Found [.initializing, .inProgress, .paused, .verifying, .failed]
    | some .verifying, _ => x.Found [.inProgress, .verifying]
    | some .placing, true => x.Found [.inProgress, .verifying, .completed]
    | _, _ => True
  | _ => True

/-- The receiver. Each step is given the manifest of its task. -/
def machine (c : ReceiveConfig κ) :
    StateMachine (Handlers κ) (TransferManifest κ × HandlerEvent) Unit where
  step x event := x.step c event.1 event.2
  state x _ := x.session.map (·.state)
  registers x event _ := x.Registers event.2
  direct x event := (x.directWrite event.2).map ((), ·)

/-- What a call of `load_session` sees of the receiver. -/
def registry (c : ReceiveConfig κ) : Registry (machine c) (TransferSession κ) where
  misses x _ := !x.locked && x.session.isNone
  read x _ := if x.guard = none then x.load else none
  put x s := if x.locked then none else some { x with session := some s }
  key _ := ()
  state s := s.state
  state_put x s y h := by
    obtain ⟨-, ⟨⟩⟩ := ite_none_left_eq_some.mp h
    funext id
    rfl

section Session

variable {c : ReceiveConfig κ} {m : TransferManifest κ} {x y : Handlers κ} {task : ℕ}

variable {call : TransferSession κ → Option (TransferSession κ)}

theorem session_of_change (h : x.change c task call = some y) :
    x.session.bind call = none ∧ y.session = x.session ∨
      ∃ s, x.session.bind call = some s ∧ y.session = some s := by
  obtain ⟨-, h⟩ := ite_none_left_eq_some.mp h
  split at h
  · rename_i hcall
    cases h
    exact .inl ⟨hcall, rfl⟩
  · rename_i s hcall
    split at h <;> cases h <;> exact .inr ⟨s, hcall, rfl⟩

theorem follows_apply {call : ControlCall} (hcall : call ≠ .cancel) {s s' : TransferSession κ}
    (h : call.apply s = some s') : s.state.Follows s'.state := by
  cases call with
  | pauseTransfer =>
    obtain ⟨hallowed, ⟨⟩⟩ := ite_none_right_eq_some.mp h
    exact .inr hallowed.2
  | resumeTransfer =>
    rw [ControlCall.apply] at h
    split at h
    · rename_i hpaused
      cases h
      exact .inr (hpaused ▸ rfl)
    · cases h
      exact .refl _
  | cancelTransfer =>
    rw [ControlCall.apply] at h
    split at h
    · cases h
      exact .refl _
    · obtain ⟨hallowed, ⟨⟩⟩ := ite_none_right_eq_some.mp h
      exact .inr hallowed
  | cancel => exact absurd rfl hcall

/-- After a direct write there is the written state, after another step one the table allows. -/
def Writes (x y : Handlers κ) (written : Option TransferState) : Prop :=
  ∀ s, x.session = some s →
    match written with
    | some state => ∃ s', y.session = some s' ∧ s'.state = state
    | none => ∀ s', y.session = some s' → s.state.Follows s'.state

theorem Writes.of_session_eq (h : y.session = x.session) : Writes x y none := by
  intro s hs s' hs'
  cases hs.symm.trans (h ▸ hs')
  exact .refl _

theorem Writes.of_change (h : x.change c task call = some y)
    (hcall : ∀ s s', call s = some s' → s.state.Follows s'.state) : Writes x y none := by
  intro s hs s' hs'
  rcases session_of_change h with ⟨-, hsame⟩ | ⟨new, hnew, hnew'⟩
  · exact Writes.of_session_eq hsame s hs s' hs'
  · obtain rfl := Option.some.inj (hnew'.symm.trans hs')
    rw [hs] at hnew
    exact hcall s new hnew

theorem Writes.of_change_state {state : TransferState} (h : x.change c task call = some y)
    (hcall : ∀ s, ∃ s', call s = some s' ∧ s'.state = state) : Writes x y (some state) := by
  intro s hs
  obtain ⟨s', hs', hstate⟩ := hcall s
  have hbind : x.session.bind call = some s' := by rw [hs]; exact hs'
  rcases session_of_change h with ⟨hnone, -⟩ | ⟨new, hnew, hnew'⟩
  · exact absurd (hnone.symm.trans hbind) nofun
  · obtain rfl := Option.some.inj (hnew.symm.trans hbind)
    exact ⟨new, hnew', hstate⟩

theorem follows_advance (s : TransferSession κ) (index : ℕ) :
    s.state.Follows (s.advance index).state := by
  rw [TransferSession.advance]
  split
  · rename_i hends
    have hprogress : s.state = .inProgress := by
      simp only [TransferSession.ends, Bool.decide_and, Bool.and_eq_true, decide_eq_true_eq]
        at hends
      exact hends.2
    exact .inr (hprogress ▸ rfl)
  · exact .refl _

theorem session_of_next {ok : Bool} {stage : Stage κ} (h : x.next c m task ok stage = some y)
    (hquiet : stage.Quiet) : y.session = x.session := by
  cases stage with
  | waiting | ready | received | written | checkpointing | acking | loading | copied | inserted
  | finishing =>
    all_goals
      simp only [Handlers.next] at h
      repeat' split at h
    all_goals cases h
    all_goals rfl
  | saving s stage saver =>
    cases stage
    all_goals
      simp only [Handlers.next] at h
      repeat' split at h
    all_goals cases h
    all_goals rfl
  | stopping | marking | finalizing | built | verifying | placing => cases hquiet

theorem writes_of_next {ok : Bool} {stage : Stage κ} (hstage : x.tasks task = some stage)
    (h : x.next c m task ok stage = some y) (hnew : ∀ s, stage ≠ .built s) :
    Writes x y (x.directWrite (.next task ok)) := by
  cases stage with
  | stopping =>
    simp only [directWrite, hstage]
    exact Writes.of_change_state h fun s => ⟨_, rfl, rfl⟩
  | marking index =>
    simp only [directWrite, hstage]
    rcases section_cases h with ⟨-, h⟩ | ⟨s, hs, h⟩
    · cases h
      exact .of_session_eq rfl
    · split at h
      · cases h
        exact .of_session_eq rfl
      · cases h
        intro old hold s' hs'
        cases hs.symm.trans hold
        cases hs'
        exact follows_advance s index.toNat
  | finalizing fileHash =>
    intro old hold
    rcases section_cases h with ⟨hnone, -⟩ | ⟨s, -, h⟩
    · exact absurd (hold.symm.trans hnone) (some_ne_none old)
    cases h
    simp only [directWrite, hstage]
    cases ok with
    | true => exact ⟨_, rfl, rfl⟩
    | false => exact ⟨_, rfl, rfl⟩
  | verifying =>
    simp only [directWrite, hstage]
    obtain ⟨-, ⟨⟩⟩ := ite_none_left_eq_some.mp h
    intro s hs
    exact ⟨{ s with state := .verifying }, by simp [hs], rfl⟩
  | placing =>
    obtain ⟨-, h⟩ := ite_none_left_eq_some.mp h
    cases ok with
    | true =>
      simp only [directWrite, hstage]
      cases h
      intro s hs
      exact ⟨{ s with state := .completed }, by simp [hs], rfl⟩
    | false =>
      -- the session is gone
      simp only [directWrite, hstage]
      cases h
      exact fun _ _ _ hs' => absurd hs' nofun
  | built s => exact absurd rfl (hnew s)
  | _ =>
    simp only [directWrite, hstage]
    exact .of_session_eq (session_of_next h trivial)

theorem writes_of_step {event : HandlerEvent} (h : x.step c m event = some y)
    (hnew : ¬ x.Registers event) : Writes x y (x.directWrite event) := by
  cases event with
  | chunk task index | finalize task index =>
    obtain ⟨-, ⟨⟩⟩ := ite_none_left_eq_some.mp h
    exact .of_session_eq rfl
  | manifest task =>
    obtain ⟨-, h⟩ := ite_none_left_eq_some.mp h
    split at h <;> cases h <;> exact .of_session_eq rfl
  | control task call =>
    obtain ⟨-, h⟩ := ite_none_left_eq_some.mp h
    by_cases hcancel : call = .cancel
    · subst hcancel
      exact Writes.of_change_state h fun s => ⟨_, rfl, rfl⟩
    · have hwrite : x.directWrite (.control task call) = none := by
        cases call <;> first | rfl | exact absurd rfl hcancel
      rw [hwrite]
      exact Writes.of_change h fun s s' hs => follows_apply hcancel hs
  | next task ok =>
    obtain ⟨stage, hstage, h⟩ := Option.bind_eq_some_iff.mp h
    refine writes_of_next hstage h fun s hs => hnew ⟨s, ?_⟩
    rw [hstage, hs]
  | tear task count =>
    rw [Handlers.step] at h
    split at h <;> cases h
    exact .of_session_eq rfl
  | crash torn =>
    intro s hs s' hs'
    cases torn with
    | none =>
      cases h
      cases hs'
    | some torn =>
      rw [Handlers.step] at h
      split at h
      · cases h
        cases hs'
      · cases h

theorem directWrite_of_registers {event : HandlerEvent} (hnew : x.Registers event) :
    x.directWrite event = none := by
  cases event with
  | next task ok =>
    obtain ⟨s, hs⟩ := hnew
    simp only [directWrite, hs]
  | _ => cases hnew

theorem accounted {event : TransferManifest κ × HandlerEvent}
    (h : (machine c).step x event = some y) : (machine c).Accounted x y event where
  direct _ before after hdirect hbefore := by
    obtain ⟨state, hwrite, hpair⟩ := map_eq_some_iff.mp hdirect
    obtain rfl : state = after := (Prod.mk.inj hpair).2
    obtain ⟨s, hs, rfl⟩ := map_eq_some_iff.mp hbefore
    have hnew : ¬ x.Registers event.2 := fun hnew =>
      some_ne_none state (hwrite.symm.trans (directWrite_of_registers hnew))
    have hwrites := writes_of_step h hnew s hs
    rw [hwrite] at hwrites
    obtain ⟨s', hs', rfl⟩ := hwrites
    exact congrArg (Option.map (·.state)) hs'
  unregistered _ _ after hdirect hnew :=
    some_ne_none _ (hdirect.symm.trans
      (congrArg (Option.map ((), ·)) (directWrite_of_registers hnew)))
  checked _ before after hnew hother hbefore hafter := by
    obtain ⟨s, hs, rfl⟩ := map_eq_some_iff.mp hbefore
    obtain ⟨s', hs', rfl⟩ := map_eq_some_iff.mp hafter
    have hwrite : x.directWrite event.2 = none := by
      refine Option.eq_none_iff_forall_ne_some.mpr fun state hstate => hother state ?_
      exact congrArg (Option.map ((), ·)) hstate
    have hwrites := writes_of_step h hnew s hs
    rw [hwrite] at hwrites
    exact hwrites s' hs'

end Session

end Handlers

/-! ## The sending side -/

/-- How an input ends the task: the state that it then gives its session. -/
def SendTask.verdict [DecidableEq ν] (h : Hashing σ) (t : SendTask κ ν) (target : ν) :
    SendStage → TaskInput ν → Option TransferState
  | _, .dropped => none
  | .requesting, .sent (.error _) => some .failed
  | .responding, .response (.error _) => some .failed
  | .responding, .response (.ok response) => if response.accepted then none else some .failed
  | .announcing _, .sent (.error _) => some .failed
  | .acknowledging _, .manifestAck (.error _) => some .failed
  | .acknowledging _, .manifestAck (.ok ack) => if ack.accepted then none else some .failed
  | .sending loop, .loop input =>
    match loop.step t.session.options.concurrency t.session.options.maxRetries t.control input with
    | some (.failed _ _) => some .failed
    | some (.cancelled _) => some .cancelled
    | some (.left loop) =>
      if loop.isComplete t.session.manifest.chunkCount then none else some .failed
    | _ => none
  -- a finalize request that cannot be sent leaves the session as it is
  | .completing _, .completion (.error _) => some .failed
  | .completing data, .completion (.ok (sender, message)) =>
    let algorithm := t.session.manifest.hashAlgorithm
    match checkCompletion target (h.fileHash algorithm data) algorithm
        t.session.manifest.fileSize sender message with
    | .error _ => some .failed
    | .ok _ =>
      if t.deleteSource && t.session.options.mode == .move then none else some .completed
  | .removing, .removed (.error _) => some .failed
  | .removing, .removed (.ok _) => some .completed
  | _, _ => none

namespace Sender

/-- The event registers a session under the id: a send under it, the slot for a session that is
resumed, or a session of the receive handler. -/
def Registers (x : Sender κ ν) (event : SenderEvent κ ν) (id : κ) : Prop :=
  match event with
  | .sendFile _ _ _ _ _ new _ => new = id
  | .member _ _ new _ => new = id
  | .task n .slot _ => ∃ t, x.tasks n = some t ∧ t.session.id = id
  | .received s _ => s.id = id
  | _ => False

def directWrite [DecidableEq ν] (h : Hashing σ) (x : Sender κ ν) :
    SenderEvent κ ν → Option (κ × TransferState)
  | .remoteCancel id _ _ => (x.sessions id).map fun s => (s.id, .cancelled)
  -- a task ends the session that it holds a copy of, whatever the registry has by then
  | .task n input _ =>
    match x.tasks n with
    | none => none
    | some t =>
      match t.session.targetNodes with
      | [] => none
      | target :: _ => (t.verdict h target t.stage input).map (t.session.id, ·)
  | _ => none

/-- A `Cancel` message comes before the session is verified or has ended in another way. A task that
ends finds the session in the registry where it may end so: not cancelled or ended in another way
meanwhile, and not paused when it completes. -/
def Timely [DecidableEq ν] (h : Hashing σ) (x : Sender κ ν) : SenderEvent κ ν → Prop
  | .remoteCancel id _ _ =>
    FoundIn ((x.sessions id).map (·.state)) [.initializing, .inProgress, .paused, .cancelled]
  | .task n input _ => ∀ t, x.tasks n = some t → ∀ target ∈ t.session.targetNodes.head?,
      ∀ state, t.verdict h target t.stage input = some state →
        FoundIn ((x.sessions t.session.id).map (·.state)) state.foundBy
  | _ => True

def machine [DecidableEq κ] [DecidableEq ν] (c : SendConfig ν) (h : Hashing σ) :
    StateMachine (Sender κ ν) (SenderEvent κ ν) κ where
  step := step c h
  state x id := (x.sessions id).map (·.state)
  registers := Registers
  direct := directWrite h

def registry [DecidableEq κ] [DecidableEq ν] (c : SendConfig ν) (h : Hashing σ) :
    Registry (machine (κ := κ) c h) (SendSession κ ν) where
  misses x id := (x.sessions id).isNone
  read x id := (x.saved id).map fun s => { s with control := none }
  put x s := some (x.record false s)
  key s := s.id
  state s := s.state
  state_put x s y h := by
    cases h
    funext id
    by_cases hid : id = s.id
    · subst hid
      simp [machine, record]
    · simp [machine, record, Function.update_of_ne hid]

/-! ### What the steps do with the sessions -/

def stored (x : Sender κ ν) : (κ → Option (SendSession κ ν)) × (κ → Option (SendSession κ ν)) :=
  (x.sessions, x.saved)

/-- A step keeps the sessions, drops some, or puts one in place of another that it follows or where
it does not look. -/
inductive Stores [DecidableEq κ] (x y : Sender κ ν) : Option (κ × TransferState) → Prop
  | kept (hsessions : ∀ id s, y.sessions id = some s → x.sessions id = some s)
      (hsaved : ∀ id s, y.saved id = some s → x.saved id = some s) : Stores x y none
  | follows (id : κ) (old new : SendSession κ ν) (saved : Bool)
      (hold : x.loadSession id = some old) (hid : new.id = old.id)
      (hfollows : old.state.Follows new.state)
      (hstored : y.stored = (x.record saved new).stored) : Stores x y none
  | writes (new : SendSession κ ν) (saved : Bool)
      (hstored : y.stored = (x.record saved new).stored) :
      Stores x y (some (new.id, new.state))

section Stores

variable {x y : Sender κ ν} {n : ℕ} {t : SendTask κ ν}

@[simp] theorem stored_leave (member : Member) : (x.leave n t member).stored = x.stored := by
  rw [leave]
  split <;> rfl

@[simp] theorem stored_setControl (s : SendSession κ ν) (control : TransferControlState) :
    (x.setControl s control).stored = x.stored := by
  rw [setControl]
  split <;> rfl

@[simp] theorem stored_hear (id : κ) (sender : ν) (message : FileTransferMessage) :
    (x.hear id sender message).stored = x.stored := by
  cases message <;> rfl

theorem openSendSession_id [DecidableEq ν] {c : SendConfig ν} {files : Files}
    {call : SendCall κ ν} {s : SendSession κ ν} (h : openSendSession c files call n = .ok s) :
    s.id = call.resume.elim call.id (·.id) := by
  rw [openSendSession] at h
  split at h
  · cases h
  · cases h
  · split at h
    · cases h
    · cases h
    · extract_lets id manifest at h
      split at h
      · cases h
      · cases h
        rfl

theorem loadSession_of_sessions {id : κ} {s : SendSession κ ν} (hs : x.sessions id = some s) :
    x.loadSession id = some s := by
  rw [loadSession, hs]

variable [DecidableEq κ]

theorem Stores.of_stored_eq (h : y.stored = x.stored) : Stores x y none := by
  obtain ⟨hsessions, hsaved⟩ := Prod.mk.inj h
  exact .kept (fun _ _ hs => hsessions ▸ hs) fun _ _ hs => hsaved ▸ hs

variable {x' : Sender κ ν}

theorem stored_record_congr (h : x'.stored = x.stored) (saved : Bool) (s : SendSession κ ν) :
    (x'.record saved s).stored = (x.record saved s).stored := by
  obtain ⟨hsessions, hsaved⟩ := Prod.mk.inj h
  rw [stored, stored, record, record, hsessions, hsaved]

/-! A task ends its session in one of three ways. -/

theorem stores_failSession (h : x'.stored = x.stored) (saved : Bool) (err : SendError) :
    Stores x (x'.failSession n t saved err) (some (t.session.id, .failed)) :=
  .writes { t.session with state := .failed, error := some err.text } saved
    ((stored_leave _).trans (stored_record_congr h _ _))

theorem stores_cancelSession (saved : Bool) :
    Stores x (x.cancelSession n t saved) (some (t.session.id, .cancelled)) :=
  .writes { t.session with state := .cancelled, error := some "cancelled" } saved
    (stored_leave _)

theorem stores_completeSession (h : x'.stored = x.stored) (saved : Bool) :
    Stores x (x'.completeSession n t saved) (some (t.session.id, .completed)) :=
  .writes { t.session with state := .completed } saved
    ((stored_leave _).trans (stored_record_congr h _ _))

variable [DecidableEq ν] {c : SendConfig ν} {h : Hashing σ}

variable {saved : Bool} {target : ν}

theorem stores_afterLoop {loop : SendLoop} {input : LoopInput} {outcome : LoopOutcome}
    (houtcome : loop.step t.session.options.concurrency t.session.options.maxRetries t.control
      input = some outcome) (hstep : x.afterLoop h n t saved outcome = some y) :
    Stores x y ((t.verdict h target (.sending loop) (.loop input)).map (t.session.id, ·)) := by
  simp only [SendTask.verdict, houtcome]
  cases outcome with
  | continued =>
    cases hstep
    exact .of_stored_eq rfl
  | panicked =>
    cases hstep
    exact .of_stored_eq (stored_leave _)
  | failed loop err =>
    cases hstep
    exact stores_failSession (t := t.track loop) rfl saved err
  | cancelled loop =>
    cases hstep
    exact stores_cancelSession (t := t.track loop) saved
  | left loop =>
    simp only [afterLoop, afterChunks] at hstep
    split at hstep
    · rename_i hcomplete
      simp only [hcomplete, if_true]
      split at hstep
      · cases hstep
        exact .of_stored_eq (stored_leave _)
      · obtain ⟨-, ⟨⟩⟩ := ite_none_right_eq_some.mp hstep
        exact .of_stored_eq rfl
    · rename_i hincomplete
      simp only [hincomplete]
      cases hstep
      exact stores_failSession (t := t.track loop) rfl saved _

theorem stores_afterCompletion {sender : ν} {data : Bytes} {message : FileTransferMessage} :
    Stores x (x.afterCompletion h n t saved target data sender message)
      ((t.verdict h target (.completing data) (.completion (.ok (sender, message)))).map
        (t.session.id, ·)) := by
  have heard := stored_hear (x := x) t.session.id sender message
  simp only [afterCompletion, SendTask.verdict]
  cases checkCompletion target (h.fileHash t.session.manifest.hashAlgorithm data)
    t.session.manifest.hashAlgorithm t.session.manifest.fileSize sender message with
  | error err => exact stores_failSession heard saved err
  | ok _ =>
    cases t.deleteSource && t.session.options.mode == .move with
    | true => exact .of_stored_eq heard
    | false => exact stores_completeSession heard saved

theorem stores_next {stage : SendStage} {input : TaskInput ν}
    (hstep : x.next c h n t target saved stage input = some y) (hslot : input ≠ .slot) :
    Stores x y ((t.verdict h target stage input).map (t.session.id, ·)) := by
  unfold next at hstep
  split at hstep
  case h_2 => exact absurd rfl hslot
  case h_11 =>
    obtain ⟨outcome, houtcome, hstep⟩ := Option.bind_eq_some_iff.mp hstep
    exact stores_afterLoop houtcome hstep
  case h_15 =>
    obtain ⟨-, ⟨⟩⟩ := ite_none_right_eq_some.mp hstep
    exact stores_afterCompletion
  case h_16 =>
    obtain ⟨-, ⟨⟩⟩ := ite_none_right_eq_some.mp hstep
    simp only [SendTask.verdict, Option.map_some]
    refine stores_completeSession ?_ saved
    rfl
  case h_6 | h_10 =>
    all_goals
      simp only [SendTask.verdict]
      split at hstep
    all_goals
      cases hstep
      simp only [*, if_true]
    all_goals first
      | exact .of_stored_eq rfl
      | exact stores_failSession rfl saved _
  all_goals cases hstep
  all_goals simp only [SendTask.verdict, Option.map_some, Option.map_none]
  -- the task leaves or goes on, and the session is as it was
  case h_1 | h_13 => all_goals exact .of_stored_eq (stored_leave _)
  case h_3 | h_7 | h_12 => all_goals exact .of_stored_eq rfl
  all_goals exact stores_failSession rfl saved _

def Renews (x y : Sender κ ν) (event : SenderEvent κ ν) : Prop :=
  ∃ s saved, x.Registers event s.id ∧ y.stored = (x.record saved s).stored

theorem stores_task {input : TaskInput ν} (hstep : x.step c h (.task n input saved) = some y) :
    Stores x y (x.directWrite h (.task n input saved)) ∨ Renews x y (.task n input saved) := by
  rw [step] at hstep
  split at hstep
  · cases hstep
  rename_i t htask
  split at hstep
  · cases hstep
  rename_i target targets htargets
  simp only [directWrite, htask, htargets]
  by_cases hslot : input = .slot
  · subst hslot
    generalize t.stage = stage at hstep ⊢
    cases stage with
    | queued =>
      rw [next] at hstep
      split at hstep
      · cases hstep
        exact .inl (.of_stored_eq (stored_leave _))
      · rename_i s hopen
        cases hstep
        exact .inr ⟨s, saved, ⟨t, htask, (openSendSession_id hopen).symm⟩, rfl⟩
    | _ => cases hstep
  · exact .inl (stores_next hstep hslot)

theorem stores_step {event : SenderEvent κ ν} (hstep : x.step c h event = some y) :
    Stores x y (x.directWrite h event) ∨ Renews x y event := by
  cases event with
  | task n input saved => exact stores_task hstep
  | sendFile kind target sourcePath destPath options new saved =>
    rw [step, sendFile] at hstep
    obtain ⟨-, ⟨⟩⟩ := ite_none_left_eq_some.mp hstep
    split
    · exact .inl (.of_stored_eq rfl)
    · rename_i s hopen
      exact .inr ⟨s, saved, (openSendSession_id hopen).symm, rfl⟩
  | member n slot new saved =>
    rw [step] at hstep
    split at hstep
    · cases hstep
    split at hstep
    · cases hstep
      rw [startMember]
      split
      · exact .inl (.of_stored_eq rfl)
      · rename_i s hopen
        exact .inr ⟨s, saved, (openSendSession_id hopen).symm, rfl⟩
    · cases hstep
  | received s saved =>
    obtain ⟨-, ⟨⟩⟩ := ite_none_left_eq_some.mp hstep
    exact .inr ⟨s, saved, rfl, rfl⟩
  | pauseTransfer id saved =>
    cases hstep
    rw [pauseTransfer]
    split
    · exact .inl (.of_stored_eq rfl)
    rename_i s hs
    split
    · rename_i hallowed
      exact .inl (.follows id s { s with state := .paused, error := none } saved
        (loadSession_of_sessions hs) rfl (.inr hallowed.2) (stored_setControl _ _))
    · exact .inl (.of_stored_eq rfl)
  | resumeTransfer id saved =>
    cases hstep
    rw [resumeTransfer]
    split
    · rename_i s hs
      split
      · rename_i hpaused
        exact .inl (.follows id s { s with state := .inProgress, error := none } saved
          (loadSession_of_sessions hs) rfl (.inr (hpaused ▸ rfl)) (stored_setControl _ _))
      · exact .inl (.follows id s s saved (loadSession_of_sessions hs) rfl (.refl _) rfl)
    · split
      · exact .inl (.of_stored_eq rfl)
      · split <;> exact .inl (.of_stored_eq rfl)
  | cancelTransfer id sent saved =>
    cases hstep
    rw [cancelTransfer]
    split
    · exact .inl (.of_stored_eq rfl)
    rename_i s hs
    split
    · rename_i hallowed
      -- the second session is put in the place of the first
      refine .inl (.follows id s { s with
        state := .cancelled
        error := if s.state = .cancelled then s.error else none } saved hs rfl ?_ ?_)
      · simp only [Bool.and_eq_true, Bool.or_eq_true, beq_iff_eq] at hallowed
        exact hallowed.2.imp_left Eq.symm
      · rw [stored_setControl]
        simp only [stored, record, Function.update_idem, Bool.and_false]
        rfl
    · exact .inl (.follows id s s false hs rfl (.refl _) rfl)
  | remoteCancel id reason saved =>
    cases hstep
    rw [remoteCancel, directWrite]
    split
    · rename_i hs
      rw [hs]
      exact .inl (.of_stored_eq rfl)
    · rename_i s hs
      rw [hs]
      exact .inl (.writes { s with state := .cancelled, error := some reason } saved
        (stored_setControl _ _))
  | forget id =>
    cases hstep
    exact .inl (.kept (fun _ _ hs => (update_none_eq_some_iff.mp hs).2) fun _ _ hs => hs)
  | discard id =>
    cases hstep
    exact .inl (.kept (fun _ _ hs => hs) fun _ _ hs => (update_none_eq_some_iff.mp hs).2)
  | finish n removed =>
    rw [step] at hstep
    split at hstep
    · cases hstep
    split at hstep
    · cases hstep
      rw [finishBroadcast]
      split <;> exact .inl (.of_stored_eq rfl)
    · cases hstep
  | broadcastFile request =>
    cases hstep
    rw [broadcastFile]
    split <;> exact .inl (.of_stored_eq rfl)
  | restart =>
    cases hstep
    exact .inl (.kept (fun _ s hs => (some_ne_none s hs.symm).elim) fun _ _ hs => hs)
  | abandon | write =>
    all_goals
      cases hstep
      exact .inl (.of_stored_eq rfl)

end Stores

/-! ### Sessions are under their own ids -/

def Keyed (x : Sender κ ν) : Prop :=
  ∀ id s, x.sessions id = some s ∨ x.saved id = some s → s.id = id

section Keyed

variable {x y : Sender κ ν}

variable {id : κ} {s : SendSession κ ν}

theorem Keyed.loadSession (hkeyed : x.Keyed) (h : x.loadSession id = some s) : s.id = id := by
  rw [Sender.loadSession] at h
  split at h
  · cases h
    exact hkeyed _ _ (.inl ‹_›)
  · obtain ⟨saved, hsaved, rfl⟩ := map_eq_some_iff.mp h
    exact hkeyed id saved (.inr hsaved)

theorem directWrite_of_registers [DecidableEq ν] {h : Hashing σ} {event : SenderEvent κ ν}
    (hnew : x.Registers event id) : x.directWrite h event = none := by
  cases event with
  | sendFile | member | received => rfl
  | task n input saved =>
    cases input with
    | slot =>
      obtain ⟨t, htask, -⟩ := hnew
      simp only [directWrite, htask]
      cases t.session.targetNodes with
      | nil => rfl
      | cons target targets => cases t.stage <;> rfl
    | _ => cases hnew
  | _ => cases hnew

variable [DecidableEq κ]

theorem Keyed.of_record (hkeyed : x.Keyed) {saved : Bool}
    (hstored : y.stored = (x.record saved s).stored) : y.Keyed := by
  have hput (stored : κ → Option (SendSession κ ν))
      (hkeyed : ∀ id s', stored id = some s' → s'.id = id) :
      ∀ id s', update stored s.id (some s) id = some s' → s'.id = id := by
    refine forall_update_some hkeyed fun s' hs' => ?_
    rw [Option.some.inj hs']
  obtain ⟨hsessions, hsaved⟩ := Prod.mk.inj hstored
  rintro id s' (hs' | hs')
  · rw [hsessions] at hs'
    exact hput _ (fun id s h => hkeyed id s (.inl h)) id s' hs'
  · rw [hsaved, record] at hs'
    split at hs'
    · exact hput _ (fun id s h => hkeyed id s (.inr h)) id s' hs'
    · exact hkeyed id s' (.inr hs')

theorem Keyed.stores (hkeyed : x.Keyed) {written : Option (κ × TransferState)}
    (h : Stores x y written) : y.Keyed := by
  cases h with
  | kept hsessions hsaved =>
    exact fun id s hs => hkeyed id s (hs.imp (hsessions id s) (hsaved id s))
  | follows id old new saved _ _ _ hstored => exact hkeyed.of_record hstored
  | writes new saved hstored => exact hkeyed.of_record hstored

theorem sessions_of_record {saved : Bool} {old : SendSession κ ν}
    (hstored : y.stored = (x.record saved s).stored) (hs : y.sessions id = some old) :
    x.sessions id = some old ∨ id = s.id ∧ old = s := by
  rw [(Prod.mk.inj hstored).1] at hs
  rcases update_eq_some_iff.mp hs with ⟨hid, hnew⟩ | ⟨-, hold⟩
  · exact .inr ⟨hid, (Option.some.inj hnew).symm⟩
  · exact .inl hold

theorem Stores.follows_of_ne {written : Option (κ × TransferState)} (h : Stores x y written)
    (hkeyed : x.Keyed) (hother : ∀ state, written ≠ some (id, state)) {s' : SendSession κ ν}
    (hs : x.sessions id = some s) (hs' : y.sessions id = some s') : s.state.Follows s'.state := by
  have hsame (hold : x.sessions id = some s') : s.state.Follows s'.state := by
    cases hs.symm.trans hold
    exact .refl _
  cases h with
  | kept hsessions hsaved => exact hsame (hsessions id s' hs')
  | follows id' old new saved hold hid hfollows hstored =>
    rcases sessions_of_record hstored hs' with hold' | ⟨hid', rfl⟩
    · exact hsame hold'
    · -- the session that is loaded is the one of the registry
      rw [hid, hkeyed.loadSession hold] at hid'
      subst hid'
      cases (loadSession_of_sessions hs).symm.trans hold
      exact hfollows
  | writes new saved hstored =>
    rcases sessions_of_record hstored hs' with hold | ⟨rfl, rfl⟩
    · exact hsame hold
    · exact absurd rfl (hother _)

variable [DecidableEq ν] {c : SendConfig ν} {h : Hashing σ} {event : SenderEvent κ ν}

theorem Keyed.next (hkeyed : x.Keyed) (hstep : x.step c h event = some y) : y.Keyed := by
  rcases stores_step hstep with hstores | ⟨s, saved, -, hstored⟩
  · exact hkeyed.stores hstores
  · exact hkeyed.of_record hstored

theorem accounted (hkeyed : x.Keyed) (hstep : (machine c h).step x event = some y) :
    (machine c h).Accounted x y event where
  direct id before after hdirect hbefore := by
    rcases stores_step hstep with hstores | ⟨s, saved, hnew, -⟩
    · rw [show x.directWrite h event = some (id, after) from hdirect] at hstores
      cases hstores with
      | writes new saved hstored =>
        have hsessions : y.sessions new.id = some new := by
          rw [(Prod.mk.inj hstored).1]
          exact update_self ..
        exact congrArg (Option.map (·.state)) hsessions
    · exact absurd (hdirect.symm.trans (directWrite_of_registers hnew)) (some_ne_none _)
  unregistered id id' after hdirect hnew :=
    some_ne_none _ (hdirect.symm.trans (directWrite_of_registers hnew))
  checked id before after hnew hother hbefore hafter := by
    obtain ⟨s, hs, rfl⟩ := map_eq_some_iff.mp hbefore
    obtain ⟨s', hs', rfl⟩ := map_eq_some_iff.mp hafter
    rcases stores_step hstep with hstores | ⟨new, saved, hregisters, hstored⟩
    · exact hstores.follows_of_ne hkeyed hother hs hs'
    · rcases sessions_of_record hstored hs' with hold | ⟨rfl, rfl⟩
      · cases hs.symm.trans hold
        exact .refl _
      · exact absurd hregisters hnew

end Keyed

end Sender

/-! ## Every change of a state -/

def receiving (c : ReceiveConfig κ) :
    StateMachine (Service (Handlers κ) Unit (TransferSession κ))
      (ServiceEvent (TransferManifest κ × HandlerEvent) Unit) Unit :=
  Service.machine (Handlers.registry c) fun event =>
    match event.2 with
    | .crash _ => true
    | _ => false

def sending [DecidableEq κ] [DecidableEq ν] (c : SendConfig ν) (h : Hashing σ) :
    StateMachine (Service (Sender κ ν) κ (SendSession κ ν)) (ServiceEvent (SenderEvent κ ν) κ) κ :=
  Service.machine (Sender.registry c h) fun event =>
    match event with
    | .restart => true
    | _ => false

end Chirps.FileTransfer
