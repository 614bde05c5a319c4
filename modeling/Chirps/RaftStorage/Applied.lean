/-
# What has been applied

The storage answers `applied_state` from two fields. A run also carries the entries passed to the
state machine and the snapshots restored into it. An append, a recovery and a failed installation
can make the fields differ from what these determine.
-/

import Chirps.RaftStorage.AnyOutcome
import Chirps.RaftStorage.LogRefinement

namespace Chirps.RaftStorage

open Chirps.Library

abbrev AppliedPair := Option LogId × StoredMembership

inductive MachineEvent
  | applied (entry : Entry)
  | restored (info : SnapshotMeta) (data : Bytes)

/-- The pair after one more event, where a restored snapshot stands for the pair
`pairOf info data`. -/
def appliedBy (pairOf : SnapshotMeta → Bytes → AppliedPair) (pair : AppliedPair) :
    MachineEvent → AppliedPair
  | .applied entry => appliedAfter pair entry
  | .restored info data => pairOf info data

def MachineEvent.logId : MachineEvent → Option LogId
  | .applied entry => some entry.logId
  | .restored info _ => info.lastLogId

def MachineEvent.membership? : MachineEvent → Option StoredMembership
  | .applied ⟨logId, .membership m⟩ => some ⟨some logId, m⟩
  | .applied _ => none
  | .restored info _ => some info.lastMembership

/-- The pair of a trace: the log id of its last event, and the last membership in it. -/
def pairOfTrace (trace : List MachineEvent) : AppliedPair :=
  (trace.getLast?.bind MachineEvent.logId,
    (trace.filterMap MachineEvent.membership?).getLast?.getD .empty)

def metaPair (info : SnapshotMeta) (_ : Bytes) : AppliedPair :=
  (info.lastLogId, info.lastMembership)

theorem foldl_appliedBy_metaPair (trace : List MachineEvent) :
    trace.foldl (appliedBy metaPair) (none, .empty) = pairOfTrace trace := by
  induction trace using List.reverseRecOn with
  | nil => rfl
  | append_singleton before event ih =>
    rw [List.foldl_append, ih]
    rcases event with ⟨⟨logId, ⟨⟩ | command | m⟩⟩ | ⟨info, data⟩ <;>
      simp [pairOfTrace, appliedBy, appliedAfter, metaPair, MachineEvent.logId,
        MachineEvent.membership?]

namespace WalRaftStorage

variable {SM : Type*} [StateMachine SM]

/-- The entries that `apply` gets to: all, or those up to the first that fails. -/
def passedEntries (s : WalRaftStorage SM) : List Entry → List Entry
  | [] => []
  | entry :: rest =>
    match s.applyEntry entry with
    -- the failing entry has already moved the pair, so it counts as passed
    | (.error _, _) => [entry]
    | (.ok _, next) => entry :: next.passedEntries rest

def machineEvents (codec : SnapshotCodec) (s : WalRaftStorage SM) : Op SM → List MachineEvent
  | .apply entries => (s.passedEntries entries).map .applied
  | .installSnapshot info data outcome =>
    if s.restores codec info data outcome then [.restored info data] else []
  | _ => []

omit [StateMachine SM] in
/-- The write of the marker, the last that can fail in `install_snapshot`, succeeds. -/
def writesMarker (s : WalRaftStorage SM) (info : SnapshotMeta) : Bool :=
  (s.walWriter.append (.record (.snapshotApplied info)) true).1.toBool

/-! ## The pair after each operation -/

omit [StateMachine SM] in
theorem append_appliedState (s : WalRaftStorage SM) (entries : List Entry) :
    (s.append entries).2.appliedState =
        (s.acceptedEntries entries).foldl appliedAfter s.appliedState ∧
      (s.append entries).2.stateMachine = s.stateMachine := by
  obtain ⟨sink, pending, heq, -⟩ := s.append_recorded entries
  rw [heq, foldl_recordEntry]
  exact ⟨rfl, rfl⟩

omit [StateMachine SM] in
theorem writeFrame_appliedState {s u : WalRaftStorage SM} {frame : WalFrame} {syncNow : Bool}
    {result : Except String Unit} (h : s.writeFrame frame syncNow = (result, u)) :
    u.appliedState = s.appliedState ∧ u.stateMachine = s.stateMachine := by
  obtain ⟨sink, pending, more, heq, -⟩ := s.writeFrame_any frame syncNow
  rw [h] at heq
  obtain rfl : u = s.withSink sink pending := heq
  exact ⟨rfl, rfl⟩

theorem perform_quiet {codec : SnapshotCodec} {s t : WalRaftStorage SM} {op : Op SM} {ok : Bool}
    (h : s.perform codec op = some (ok, t)) (quiet : op.isQuiet = true) :
    t.appliedState = s.appliedState ∧ t.stateMachine = s.stateMachine := by
  cases hplain : op.isPlain with
  | true =>
    obtain ⟨sink, pending, cache, vote, purged, state, sm, rfl, hsame⟩ := perform_plain h hplain
    exact hsame quiet
  | false =>
    cases op with
    | buildSnapshot builder outcome =>
      cases h
      exact ⟨rfl, rfl⟩
    | _ => simp [Op.isPlain, Op.isQuiet] at hplain quiet

theorem apply_appliedState (s : WalRaftStorage SM) (entries : List Entry) :
    (s.apply entries).2.appliedState =
      (s.passedEntries entries).foldl appliedAfter s.appliedState := by
  induction entries generalizing s with
  | nil => rfl
  | cons entry rest ih =>
    -- one entry moves the pair whatever the state machine answers; a failure ends the loop there
    obtain ⟨sm, hentry⟩ := s.applyEntry_eq entry
    rw [apply, passedEntries]
    rcases happly : s.applyEntry entry with ⟨error | response, next⟩ <;> rw [happly] at hentry <;>
      obtain rfl : next = _ := hentry
    · rfl
    · have hrest := ih (s.withApplied (appliedAfter s.appliedState entry) sm)
      simp only [List.foldl_cons]
      rcases hcall : (s.withApplied (appliedAfter s.appliedState entry) sm).apply rest with
        ⟨_ | _, u⟩ <;> rw [hcall] at hrest <;> exact hrest

/-- The pair is set once the marker is written: a failure before leaves it. -/
theorem installSnapshot_appliedState (codec : SnapshotCodec) (s : WalRaftStorage SM)
    (info : SnapshotMeta) (data : Bytes) (outcome : ReplaceOutcome) :
    (s.installSnapshot codec info data outcome).2.appliedState =
      if s.restores codec info data outcome && s.writesMarker info
      then (info.lastLogId, info.lastMembership) else s.appliedState := by
  cases hencode : encodeSnapshotFile codec info data s.config.snapshotChunkSize with
  | error message => simp [installSnapshot, restores, hencode, Except.toBool]
  | ok encoded =>
    cases outcome with
    | failed message renamed =>
      cases renamed <;> simp [installSnapshot, restores, durablyReplace, hencode, appliedState]
    | replaced =>
      rcases hrestore : StateMachine.restore s.stateMachine data with ⟨message | ⟨⟩, sm⟩
      · simp [installSnapshot, restores, durablyReplace, hencode, hrestore, appliedState,
          Except.toBool]
      · rcases hmarker : s.walWriter.append (.record (.snapshotApplied info)) true with
          ⟨message | ⟨⟩, sink⟩ <;>
        simp [installSnapshot, restores, writesMarker, writeFrame, withSink, durablyReplace,
          hencode,
          hrestore, hmarker, appliedState, Except.toBool]

/-- The pair that appended entries leave: the log id of the last of them, and the last membership
among them. -/
theorem foldl_appliedAfter (entries : List Entry) (pair : AppliedPair) :
    entries.foldl appliedAfter pair =
      ((entries.getLast?.map (·.logId)).or pair.1,
        (entries.filterMap fun e => MachineEvent.membership? (.applied e)).getLast?.getD
          pair.2) := by
  induction entries using List.reverseRecOn with
  | nil => rfl
  | append_singleton before entry ih =>
    rw [List.foldl_append, ih]
    rcases entry with ⟨logId, ⟨⟩ | command | m⟩ <;>
      simp [appliedAfter, MachineEvent.membership?, List.filterMap_append]

end WalRaftStorage

/-- The frames from which replay takes the pair. -/
def WalFrame.setsPair : WalFrame → Bool
  | .record (.appendLog _) | .record (.snapshotApplied _) => true
  | _ => false

/-- The marker of a snapshot of nothing. -/
def WalFrame.isBlankMarker : WalFrame → Bool
  | .record (.snapshotApplied info) => info.lastLogId = none ∧ info.lastMembership = .empty
  | _ => false

theorem foldl_appliedAfterFrame_eq_empty_iff (frames : List WalFrame) :
    frames.foldl WalRaftStorage.appliedAfterFrame (none, .empty) = (none, .empty) ↔
      ∀ frame ∈ (frames.filter WalFrame.setsPair).getLast?, frame.isBlankMarker = true := by
  induction frames using List.reverseRecOn with
  | nil => simp
  | append_singleton before frame ih =>
    rw [List.foldl_append, List.filter_append]
    rcases frame with header | entry | vote | info | logId | logId
    all_goals
      simp [WalRaftStorage.appliedAfterFrame, appliedAfter, WalFrame.setsPair,
        WalFrame.isBlankMarker, ih]

/-! ## Runs with their machine events -/

structure Tracked (SM : Type*) where
  storage : WalRaftStorage SM
  trace : List MachineEvent

namespace Tracked

variable {SM : Type*} [StateMachine SM]

/-- The trace after an operation. A restart begins a new one. -/
def traceAfter (codec : SnapshotCodec) (x : Tracked SM) : Op SM → List MachineEvent
  | .recover _ _ _ _ _ => []
  | op => x.trace ++ x.storage.machineEvents codec op

def step (codec : SnapshotCodec) (x : Tracked SM) (op : Op SM) : Option (Tracked SM) :=
  (x.storage.step codec op).map fun t => ⟨t, x.traceAfter codec op⟩

def Truthful (pairOf : SnapshotMeta → Bytes → AppliedPair) (x : Tracked SM) : Prop :=
  x.storage.appliedState = x.trace.foldl (appliedBy pairOf) (none, .empty)

/-- The condition under which a step keeps the fields truthful. -/
def KeepsTruth (codec : SnapshotCodec) (pairOf : SnapshotMeta → Bytes → AppliedPair)
    (x : Tracked SM) : Op SM → Prop
  -- the last entry that is accepted has been applied last, and so has the last membership
  | .append entries =>
    (∀ entry ∈ (x.storage.acceptedEntries entries).getLast?,
        x.storage.lastApplied = some entry.logId) ∧
      ∀ membership ∈ ((x.storage.acceptedEntries entries).filterMap fun e =>
        MachineEvent.membership? (.applied e)).getLast?, x.storage.lastMembership = membership
  -- a marker that fails leaves a restored machine with the pair from before
  | .installSnapshot info data outcome =>
    x.storage.restores codec info data outcome = true →
      if x.storage.writesMarker info then metaPair info data = pairOf info data
      else x.storage.appliedState = pairOf info data
  -- the new state machine is empty, so nothing may be left that sets the pair
  | .recover _ _ kept _ _ =>
    ∀ frame ∈ ((x.storage.frames.take kept).filter WalFrame.setsPair).getLast?,
      frame.isBlankMarker = true
  | _ => True

instance (codec : SnapshotCodec) (pairOf : SnapshotMeta → Bytes → AppliedPair) (x : Tracked SM) :
    ∀ op, Decidable (KeepsTruth codec pairOf x op)
  | .append _ => inferInstanceAs (Decidable (_ ∧ _))
  | .installSnapshot _ _ _ => inferInstanceAs (Decidable (_ → ite _ _ _))
  | .recover _ _ _ _ _ => inferInstanceAs (Decidable (∀ _ ∈ _, _))
  | .truncate _ | .purge _ | .saveVote _ | .apply _ | .tryGetLogEntries _ | .buildSnapshot _ _ =>
    isTrue trivial

variable {codec : SnapshotCodec} {x next : Tracked SM} {op : Op SM}

theorem step_eq_some (h : x.step codec op = some next) :
    (∃ ok, x.storage.perform codec op = some (ok, next.storage)) ∧
      next.trace = x.traceAfter codec op := by
  obtain ⟨t, hstep, rfl⟩ := Option.map_eq_some_iff.mp h
  obtain ⟨⟨ok, u⟩, hperform, rfl⟩ := Option.map_eq_some_iff.mp hstep
  exact ⟨⟨ok, hperform⟩, rfl⟩

theorem recoverable_step (recoverable : x.storage.Recoverable) (h : x.step codec op = some next) :
    next.storage.Recoverable := by
  obtain ⟨⟨ok, hperform⟩, -⟩ := step_eq_some h
  have hstep : x.storage.step codec op = some next.storage := by
    rw [WalRaftStorage.step, hperform]
    rfl
  exact recoverable.step hstep

theorem truthful_step_iff {pairOf : SnapshotMeta → Bytes → AppliedPair}
    (recoverable : x.storage.Recoverable) (truthful : x.Truthful pairOf)
    (h : x.step codec op = some next) : next.Truthful pairOf ↔ KeepsTruth codec pairOf x op := by
  obtain ⟨⟨ok, hperform⟩, htrace⟩ := step_eq_some h
  -- a step without machine events has to leave the pair alone
  have hquiet : next.trace = x.trace ++ [] →
      (next.Truthful pairOf ↔ next.storage.appliedState = x.storage.appliedState) := by
    intro hsame
    rw [Truthful, hsame, List.append_nil, ← truthful]
  have hstill : op.isQuiet = true → next.trace = x.trace ++ [] → next.Truthful pairOf :=
    fun quiet hsame => (hquiet hsame).mpr (WalRaftStorage.perform_quiet hperform quiet).1
  cases op with
  | truncate logId => exact iff_of_true (hstill rfl htrace) trivial
  | purge logId => exact iff_of_true (hstill rfl htrace) trivial
  | saveVote vote => exact iff_of_true (hstill rfl htrace) trivial
  | tryGetLogEntries range => exact iff_of_true (hstill rfl htrace) trivial
  | buildSnapshot builder outcome => exact iff_of_true (hstill rfl htrace) trivial
  | append entries =>
    obtain ⟨-, hstate⟩ := Prod.mk.inj (Option.some.inj hperform)
    rw [hquiet htrace, ← hstate, (x.storage.append_appliedState entries).1,
      WalRaftStorage.foldl_appliedAfter, KeepsTruth, Prod.ext_iff]
    refine and_congr ?_ ?_
    · cases (x.storage.acceptedEntries entries).getLast? <;>
        simp [WalRaftStorage.appliedState, eq_comm]
    · cases ((x.storage.acceptedEntries entries).filterMap fun e =>
        MachineEvent.membership? (.applied e)).getLast? <;>
        simp [WalRaftStorage.appliedState, eq_comm]
  | apply entries =>
    obtain ⟨-, hstate⟩ := Prod.mk.inj (Option.some.inj hperform)
    change next.trace = x.trace ++ (x.storage.passedEntries entries).map .applied at htrace
    -- the pair and the trace fold the same entries
    refine iff_of_true ?_ trivial
    rw [Truthful, htrace, ← hstate, WalRaftStorage.apply_appliedState, truthful,
      List.foldl_append, List.foldl_map]
    rfl
  | installSnapshot info data outcome =>
    obtain ⟨-, hstate⟩ := Prod.mk.inj (Option.some.inj hperform)
    change next.trace = x.trace ++
      (if x.storage.restores codec info data outcome then [MachineEvent.restored info data]
        else []) at htrace
    have hpair := x.storage.installSnapshot_appliedState codec info data outcome
    rw [hstate] at hpair
    cases hrestores : x.storage.restores codec info data outcome with
    | true =>
      rw [if_pos hrestores] at htrace
      rw [hrestores, Bool.true_and] at hpair
      rw [Truthful, htrace, List.foldl_append, hpair]
      simp only [List.foldl_cons, List.foldl_nil, appliedBy, KeepsTruth, hrestores, true_imp_iff]
      split <;> rfl
    | false =>
      -- without the restoration the pair is left
      rw [if_neg (by simp [hrestores])] at htrace
      rw [hquiet htrace, hpair, hrestores, Bool.false_and, if_neg (by simp)]
      exact iff_of_true rfl (by simp [KeepsTruth, hrestores])
  | recover sm now kept writeFaults syncOutcomes =>
    obtain ⟨u, hrestart, heq⟩ := Option.map_eq_some_iff.mp hperform
    obtain ⟨-, hstate⟩ := Prod.mk.inj heq
    obtain ⟨-, -, hu⟩ := recoverable.restart_eq.mp hrestart
    rw [Truthful, htrace, ← hstate, hu]
    exact foldl_appliedAfterFrame_eq_empty_iff _

theorem truthful_run_iff {pairOf : SnapshotMeta → Bytes → AppliedPair} {c : Creation SM}
    {created : WalRaftStorage SM} (hcreated : c.storage = .ok created) (history : List (Op SM)) :
    (∀ before x, before <+: history → run (step codec) ⟨created, []⟩ before = some x →
      x.Truthful pairOf) ↔
      Along (step codec) (KeepsTruth codec pairOf) ⟨created, []⟩ history := by
  have htruthful : Truthful pairOf (⟨created, []⟩ : Tracked SM) := by
    obtain ⟨sink, header, rfl, -⟩ := WalRaftStorage.recover_new hcreated
    rfl
  exact always_iff_along (I := fun x => x.storage.Recoverable)
    (fun _ _ _ hinv hstep => recoverable_step hinv hstep)
    (fun _ _ _ hinv hx hstep => truthful_step_iff hinv hx hstep)
    (Creation.recoverable hcreated) htruthful

end Tracked

open Tracked in
/-- `applied_state` names the last entry passed to `apply` or the last snapshot restored throughout
a run, exactly when every step meets `KeepsTruth`. -/
theorem applied_state_truthful_iff {SM : Type*} [StateMachine SM] (codec : SnapshotCodec)
    (c : Creation SM) (created : WalRaftStorage SM) (hcreated : c.storage = .ok created)
    (history : List (Op SM)) :
    (∀ before x, before <+: history → run (step codec) ⟨created, []⟩ before = some x →
      x.storage.appliedState = pairOfTrace x.trace) ↔
      Along (step codec) (KeepsTruth codec metaPair) ⟨created, []⟩ history := by
  rw [← truthful_run_iff hcreated]
  simp only [Truthful, foldl_appliedBy_metaPair]

/-- An entry that is appended and truncated again, and never applied, is what
`applied_state` names, also after a restart with a new state machine. -/
theorem append_counts_as_applied :
    ∃ created x, (smallCreation 16).storage = .ok created ∧
      run (Tracked.step (singleCodec emptySnapshot)) ⟨created, []⟩
        [.append [commandAt 1 [10]], .truncate ⟨⟨1, 1⟩, 0⟩, .recover ⟨⟩ 0 3 [] []] = some x ∧
      x.trace = [] ∧ pairOfTrace x.trace = (none, .empty) ∧
      x.storage.appliedState = (some ⟨⟨1, 1⟩, 1⟩, .empty) ∧
      x.storage.logCache.entries.last? = none :=
  ⟨_, _, rfl, rfl, rfl, rfl, rfl, rfl⟩

theorem applied_state_truthful_without_appends :
    ∃ created, (smallCreation 16).storage = .ok created ∧
      ∀ before x,
        before <+: [.apply [commandAt 1 [10]], .installSnapshot emptySnapshot [] .replaced,
          .truncate ⟨⟨1, 1⟩, 0⟩, .apply [commandAt 2 [20], commandAt 3 [30]]] →
        run (Tracked.step (singleCodec emptySnapshot)) ⟨created, []⟩ before = some x →
        x.storage.appliedState = pairOfTrace x.trace :=
  ⟨_, rfl, (applied_state_truthful_iff _ (smallCreation 16) _ rfl _).mpr (by decide)⟩

end Chirps.RaftStorage
