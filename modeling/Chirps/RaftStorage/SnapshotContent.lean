/-
# What a built snapshot describes

The bytes of a snapshot come from the state machine and its metadata from `applied_state`. For a
machine that snapshots the commands it was given, they agree just when `applied_state` is truthful.
-/

import Chirps.RaftStorage.Applied

namespace Chirps.RaftStorage

open Chirps.Library

def commandsOf (entries : List Entry) : List (LogId × Bytes) :=
  entries.filterMap fun e =>
    match e.payload with
    | .normal command => some (e.logId, command)
    | _ => none

@[simp] theorem commandsOf_append (entries more : List Entry) :
    commandsOf (entries ++ more) = commandsOf entries ++ commandsOf more :=
  List.filterMap_append

/-- The machine snapshots exactly the commands passed to its `apply`, or restored into it. -/
structure MachineContent (SM : Type*) [StateMachine SM] where
  commands : SM → List (LogId × Bytes)
  decode : Bytes → List (LogId × Bytes)
  entries : SnapshotMeta → Bytes → List Entry
  apply_commands : ∀ sm logId command,
    commands (StateMachine.apply sm logId command).2 = commands sm ++ [(logId, command)]
  snapshot_commands : ∀ sm data, StateMachine.snapshot sm = .ok data → decode data = commands sm
  restore_commands : ∀ sm data after, StateMachine.restore sm data = (.ok (), after) →
    commands after = decode data
  restore_failed : ∀ sm data message after,
    StateMachine.restore sm data = (.error message, after) → commands after = commands sm
  entries_commands : ∀ info data, commandsOf (entries info data) = decode data

def lastMembershipOf (entries : List Entry) : StoredMembership :=
  (entries.filterMap fun e => MachineEvent.membership? (.applied e)).getLast?.getD .empty

theorem foldl_appliedAfter (entries : List Entry) :
    entries.foldl appliedAfter (none, .empty) =
      (entries.getLast?.map Entry.logId, lastMembershipOf entries) := by
  have h := foldl_appliedBy_metaPair (entries.map .applied)
  rw [List.foldl_map, pairOfTrace, List.getLast?_map, List.filterMap_map] at h
  refine h.trans (Prod.ext ?_ rfl)
  cases entries.getLast? <;> rfl

namespace MachineContent

variable {SM : Type*} [StateMachine SM] (content : MachineContent SM)

def reflectedBy (entries : List Entry) : MachineEvent → List Entry
  | .applied entry => entries ++ [entry]
  | .restored info data => content.entries info data

def reflected (trace : List MachineEvent) : List Entry :=
  trace.foldl content.reflectedBy []

def pairOf (info : SnapshotMeta) (data : Bytes) : AppliedPair :=
  (content.entries info data).foldl appliedAfter (none, .empty)

theorem reflected_append_applied (trace : List MachineEvent) (entries : List Entry) :
    content.reflected (trace ++ entries.map .applied) = content.reflected trace ++ entries := by
  rw [reflected, List.foldl_append, ← reflected]
  generalize content.reflected trace = before
  induction entries generalizing before with
  | nil => simp
  | cons entry rest ih =>
    rw [List.map_cons, List.foldl_cons, ih]
    simp [reflectedBy]

theorem foldl_appliedBy_pairOf (trace : List MachineEvent) :
    trace.foldl (appliedBy content.pairOf) (none, .empty) =
      (content.reflected trace).foldl appliedAfter (none, .empty) := by
  induction trace using List.reverseRecOn with
  | nil => rfl
  | append_singleton before event ih =>
    have hreflected : content.reflected (before ++ [event]) =
        content.reflectedBy (content.reflected before) event := by
      rw [reflected, List.foldl_append]
      rfl
    rw [List.foldl_append, ih, hreflected]
    cases event with
    | applied entry => simp [reflectedBy, appliedBy]
    | restored info data => rfl

def upTo : Option LogId → Entry → Bool
  | none, _ => false
  | some logId, e => decide (e.logId.index ≤ logId.index)

/-- The bytes of a builder hold the commands behind it, and its metadata names the last entry and
the last membership, in every log that goes on from them. -/
structure Describes (builder : WalSnapshotBuilder) (entries : List Entry) : Prop where
  commands : content.decode builder.data = commandsOf entries
  lastLogId : builder.info.lastLogId = entries.getLast?.map Entry.logId
  lastMembership : builder.info.lastMembership = lastMembershipOf entries
  complete : ∀ log : List Entry, (log.Pairwise fun a b => a.logId.index < b.logId.index) →
    entries <+: log → entries = log.filter (upTo builder.info.lastLogId)

end MachineContent

theorem filter_upTo_getLast {entries log : List Entry}
    (sorted : log.Pairwise fun a b => a.logId.index < b.logId.index)
    (hbefore : entries <+: log) :
    entries = log.filter (MachineContent.upTo (entries.getLast?.map Entry.logId)) := by
  obtain ⟨rest, rfl⟩ := hbefore
  rcases List.eq_nil_or_concat entries with rfl | ⟨before, last, rfl⟩
  · simp [MachineContent.upTo]
  · obtain ⟨hinit, -, hcross⟩ := List.pairwise_append.mp sorted
    rw [List.concat_eq_append] at hinit hcross ⊢
    obtain ⟨-, -, hbefore⟩ := List.pairwise_append.mp hinit
    -- `last` splits the ordered log: nothing before it is above, nothing after it is below
    have hkept : (before ++ [last]).filter (MachineContent.upTo (some last.logId)) =
        before ++ [last] := by
      refine List.filter_eq_self.mpr fun e he => ?_
      rw [MachineContent.upTo, decide_eq_true_eq]
      rcases List.mem_append.mp he with hmem | hmem
      · exact UInt64.le_of_lt (hbefore e hmem last (List.mem_singleton_self _))
      · rw [List.mem_singleton.mp hmem]
        exact UInt64.le_refl _
    have hdropped : rest.filter (MachineContent.upTo (some last.logId)) = [] := by
      refine List.filter_eq_nil_iff.mpr fun e he => ?_
      have hlt := hcross last (by simp) e he
      rw [MachineContent.upTo, decide_eq_true_eq]
      grind
    rw [List.getLast?_concat, Option.map_some, List.filter_append, hkept, hdropped,
      List.append_nil]

namespace MachineContent

variable {SM : Type*} [StateMachine SM] (content : MachineContent SM)

theorem describes_iff {builder : WalSnapshotBuilder} {entries : List Entry}
    (commands : content.decode builder.data = commandsOf entries) :
    content.Describes builder entries ↔
      (builder.info.lastLogId, builder.info.lastMembership) =
        entries.foldl appliedAfter (none, .empty) := by
  rw [foldl_appliedAfter, Prod.mk.injEq]
  refine ⟨fun h => ⟨h.lastLogId, h.lastMembership⟩, fun ⟨hlast, hmembership⟩ => ?_⟩
  refine ⟨commands, hlast, hmembership, fun log sorted hbefore => ?_⟩
  rw [hlast]
  exact filter_upTo_getLast sorted hbefore

/-! ## The state machine along a run -/

def Holds (x : Tracked SM) : Prop :=
  content.commands x.storage.stateMachine = commandsOf (content.reflected x.trace)

/-- The operation does not start with a state machine that has a past. -/
def StartsFresh : Op SM → Prop
  | .recover sm _ _ _ _ => content.commands sm = []
  | _ => True

theorem apply_commands_passed (s : WalRaftStorage SM) (entries : List Entry) :
    content.commands (s.apply entries).2.stateMachine =
      content.commands s.stateMachine ++ commandsOf (s.passedEntries entries) := by
  -- one entry, whether or not its command fails
  have hentry : ∀ (s : WalRaftStorage SM) (entry : Entry),
      content.commands (s.applyEntry entry).2.stateMachine =
        content.commands s.stateMachine ++ commandsOf [entry] := by
    intro s entry
    rw [WalRaftStorage.applyEntry]
    cases hpayload : entry.payload with
    | normal command =>
      have happly := content.apply_commands s.stateMachine entry.logId command
      simp only [commandsOf, List.filterMap_cons, hpayload, List.filterMap_nil, ← happly]
      rcases StateMachine.apply s.stateMachine entry.logId command with ⟨_ | _, sm⟩ <;> rfl
    | _ => simp [commandsOf, hpayload]
  induction entries generalizing s with
  | nil => simp [WalRaftStorage.apply, WalRaftStorage.passedEntries, commandsOf]
  | cons entry rest ih =>
    have hfirst := hentry s entry
    rw [WalRaftStorage.apply, WalRaftStorage.passedEntries]
    rcases happly : s.applyEntry entry with ⟨error | response, next⟩ <;> rw [happly] at hfirst
    · exact hfirst
    · have hrest := ih next
      rw [hfirst, List.append_assoc, ← commandsOf_append, List.singleton_append] at hrest
      simp only
      rcases hcall : next.apply rest with ⟨_ | _, u⟩ <;> rw [hcall] at hrest <;> exact hrest

variable {content}

theorem Holds.step {codec : SnapshotCodec} {x next : Tracked SM} {op : Op SM}
    (holds : content.Holds x) (recoverable : x.storage.Recoverable)
    (fresh : content.StartsFresh op) (h : x.step codec op = some next) : content.Holds next := by
  obtain ⟨⟨ok, hperform⟩, htrace⟩ := Tracked.step_eq_some h
  -- a step without machine events has to leave the state machine alone
  have hstill : next.storage.stateMachine = x.storage.stateMachine →
      next.trace = x.trace ++ [] → content.Holds next := by
    intro hmachine hsame
    rw [Holds, hmachine, hsame, List.append_nil]
    exact holds
  have hquiet := WalRaftStorage.perform_quiet hperform
  cases op with
  | truncate logId => exact hstill (hquiet rfl).2 htrace
  | purge logId => exact hstill (hquiet rfl).2 htrace
  | saveVote vote => exact hstill (hquiet rfl).2 htrace
  | tryGetLogEntries range => exact hstill (hquiet rfl).2 htrace
  | buildSnapshot builder outcome => exact hstill (hquiet rfl).2 htrace
  | append entries =>
    obtain ⟨-, hstate⟩ := Prod.mk.inj (Option.some.inj hperform)
    exact hstill (hstate ▸ (x.storage.append_appliedState entries).2) htrace
  | apply entries =>
    obtain ⟨-, hstate⟩ := Prod.mk.inj (Option.some.inj hperform)
    change next.trace = x.trace ++ (x.storage.passedEntries entries).map .applied at htrace
    rw [Holds, ← hstate, htrace, content.apply_commands_passed, holds,
      content.reflected_append_applied, commandsOf_append]
  | installSnapshot info data outcome =>
    obtain ⟨-, hstate⟩ := Prod.mk.inj (Option.some.inj hperform)
    change next.trace = x.trace ++
      (if x.storage.restores codec info data outcome then [MachineEvent.restored info data]
        else []) at htrace
    rcases x.storage.installSnapshot_any codec info data outcome with
      ⟨files, sm, error, hrestores, -, hmachine, heq⟩ |
      ⟨files, sm, result, u, hrestores, hrestore, -, hwrite, heq⟩
    · -- nothing is restored: an untouched state machine, or one whose restore failed
      rw [if_neg (by simp [hrestores]), List.append_nil] at htrace
      rw [heq] at hstate
      rw [Holds, ← hstate, htrace, ← holds]
      rcases hmachine with rfl | ⟨message, hfailed⟩
      · rfl
      · exact content.restore_failed _ _ _ _ hfailed
    -- restored, whether or not the marker could be written afterwards
    · rw [if_pos hrestores] at htrace
      have hu : u.stateMachine = sm := (WalRaftStorage.writeFrame_appliedState hwrite).2
      have hnext : next.storage.stateMachine = sm := by
        rw [← hstate]
        rcases heq with ⟨error, heq⟩ | ⟨-, heq⟩ <;> rw [heq] <;> exact hu
      rw [Holds, hnext, htrace, content.restore_commands _ _ _ hrestore,
        ← content.entries_commands info data, reflected, List.foldl_append]
      rfl
  | recover sm now kept writeFaults syncOutcomes =>
    obtain ⟨u, hrestart, heq⟩ := Option.map_eq_some_iff.mp hperform
    obtain ⟨-, hstate⟩ := Prod.mk.inj heq
    obtain ⟨-, -, hu⟩ := recoverable.restart_eq.mp hrestart
    -- a restart begins an empty trace and gets the caller's new state machine
    rw [Holds, ← hstate, hu, htrace]
    exact fresh

variable (content)

theorem describes_iff_truthful {codec : SnapshotCodec} {c : Creation SM}
    {created : WalRaftStorage SM} (hcreated : c.storage = .ok created)
    (fresh : content.commands c.stateMachine = []) {history : List (Op SM)}
    (freshOps : ∀ op ∈ history, content.StartsFresh op) {x : Tracked SM}
    (reach : run (Tracked.step codec) ⟨created, []⟩ history = some x) {now : UInt64}
    {builder : WalSnapshotBuilder} (h : x.storage.getSnapshotBuilder now = some builder) :
    content.Describes builder (content.reflected x.trace) ↔ x.Truthful content.pairOf := by
  have hstart : content.Holds ⟨created, []⟩ := by
    obtain ⟨sink, header, rfl, -⟩ := WalRaftStorage.recover_new hcreated
    exact fresh
  obtain ⟨-, hholds⟩ := run_invariant_of_along
    (I := fun x : Tracked SM => x.storage.Recoverable ∧ content.Holds x)
    (G := fun _ op => content.StartsFresh op)
    (fun _ _ _ hinv hfresh hstep =>
      ⟨Tracked.recoverable_step hinv.1 hstep, hinv.2.step hinv.1 hfresh hstep⟩)
    ⟨Creation.recoverable hcreated, hstart⟩ (along_of_forall fun _ op hop => freshOps op hop) reach
  -- a builder takes its bytes from the state machine and its metadata from the pair
  rw [WalRaftStorage.getSnapshotBuilder] at h
  cases hsnapshot : StateMachine.snapshot x.storage.stateMachine with
  | error message => simp [hsnapshot] at h
  | ok data =>
    simp only [hsnapshot, Option.some.injEq] at h
    have hcommands : content.decode builder.data = commandsOf (content.reflected x.trace) := by
      rw [← h, ← hholds]
      exact content.snapshot_commands _ _ hsnapshot
    rw [content.describes_iff hcommands, Tracked.Truthful, content.foldl_appliedBy_pairOf, ← h]
    rfl

end MachineContent

open Tracked in
/-- Every builder describes the entries behind the state machine in a run that keeps the fields
truthful, and only there if the machine can always be snapshotted. -/
theorem built_snapshot_describes_iff {SM : Type*} [StateMachine SM] (content : MachineContent SM)
    (codec : SnapshotCodec) (c : Creation SM) (created : WalRaftStorage SM)
    (hcreated : c.storage = .ok created) (fresh : content.commands c.stateMachine = [])
    (history : List (Op SM)) (freshOps : ∀ op ∈ history, content.StartsFresh op) :
    (Along (step codec) (KeepsTruth codec content.pairOf) ⟨created, []⟩ history →
      ∀ before x now builder, before <+: history →
        run (step codec) ⟨created, []⟩ before = some x →
        x.storage.getSnapshotBuilder now = some builder →
        content.Describes builder (content.reflected x.trace)) ∧
    ((∀ sm : SM, ∃ data, StateMachine.snapshot sm = .ok data) →
      (∀ before x now builder, before <+: history →
        run (step codec) ⟨created, []⟩ before = some x →
        x.storage.getSnapshotBuilder now = some builder →
        content.Describes builder (content.reflected x.trace)) →
      Along (step codec) (KeepsTruth codec content.pairOf) ⟨created, []⟩ history) := by
  have hiff : ∀ {before x now builder}, before <+: history →
      run (step codec) ⟨created, []⟩ before = some x →
      x.storage.getSnapshotBuilder now = some builder →
      (content.Describes builder (content.reflected x.trace) ↔ x.Truthful content.pairOf) :=
    fun hbefore hrun hbuilder => content.describes_iff_truthful hcreated fresh
      (fun op hop => freshOps op (hbefore.subset hop)) hrun hbuilder
  rw [← truthful_run_iff hcreated]
  constructor
  · intro truthful before x now builder hbefore hrun hbuilder
    exact (hiff hbefore hrun hbuilder).mpr (truthful before x hbefore hrun)
  · intro snapshots describes before x hbefore hrun
    obtain ⟨data, hdata⟩ := snapshots x.storage.stateMachine
    obtain ⟨builder, hbuilder⟩ : ∃ builder, x.storage.getSnapshotBuilder 0 = some builder := by
      rw [WalRaftStorage.getSnapshotBuilder, hdata]
      exact ⟨_, rfl⟩
    exact (hiff hbefore hrun hbuilder).mp (describes before x 0 builder hbefore hrun hbuilder)

/-! ## A state machine with content -/

structure CellMachine where
  commands : List (LogId × Bytes)

namespace CellMachine

def decode : Bytes → List (LogId × Bytes)
  | [byte] => [(⟨⟨1, 1⟩, 1⟩, [byte])]
  | _ => []

def snapshot (sm : CellMachine) : Except String Bytes :=
  match sm.commands with
  | [] => .ok []
  | [(⟨⟨1, 1⟩, 1⟩, [byte])] => .ok [byte]
  | _ => .error "more than a cell"

instance : StateMachine CellMachine where
  apply sm logId command := (.ok command, ⟨sm.commands ++ [(logId, command)]⟩)
  snapshot := snapshot
  restore _ data := (.ok (), ⟨decode data⟩)

theorem decode_of_snapshot {sm : CellMachine} {data : Bytes} (h : sm.snapshot = .ok data) :
    decode data = sm.commands := by
  rw [snapshot] at h
  split at h
  · rename_i hcommands
    cases h
    exact hcommands.symm
  · rename_i byte hcommands
    cases h
    exact hcommands.symm
  · cases h

def entriesOf (commands : List (LogId × Bytes)) : List Entry :=
  commands.map fun c => ⟨c.1, .normal c.2⟩

theorem commandsOf_entriesOf (commands : List (LogId × Bytes)) :
    commandsOf (entriesOf commands) = commands := by
  induction commands with
  | nil => rfl
  | cons c rest ih => exact congrArg (c :: ·) ih

def content : MachineContent CellMachine where
  commands := CellMachine.commands
  decode := decode
  entries _ data := entriesOf (decode data)
  apply_commands _ _ _ := rfl
  snapshot_commands _ _ h := decode_of_snapshot h
  restore_commands _ _ after h := by
    cases h
    rfl
  restore_failed _ _ _ _ h := by
    obtain ⟨hresult, -⟩ := Prod.mk.inj h
    cases hresult
  entries_commands _ data := commandsOf_entriesOf (decode data)

def creation : Creation CellMachine where
  config := WalStorageConfig.standard
  groupId := ⟨1⟩
  nodeId := 1
  stateMachine := ⟨[]⟩
  now := 0
  writeFaults := []
  syncOutcomes := []
  files _ := none

end CellMachine

/-- An entry that was appended and not applied: the metadata names it, the bytes do
not hold its command. -/
theorem snapshot_names_unapplied_entry :
    ∃ created x builder, CellMachine.creation.storage = .ok created ∧
      run (Tracked.step (singleCodec emptySnapshot)) ⟨created, []⟩
        [.append [commandAt 1 [10]]] = some x ∧
      x.storage.getSnapshotBuilder 0 = some builder ∧
      builder.info.lastLogId = some ⟨⟨1, 1⟩, 1⟩ ∧ CellMachine.decode builder.data = [] ∧
      ¬ CellMachine.content.Describes builder (CellMachine.content.reflected x.trace) := by
  refine ⟨_, _, _, rfl, rfl, rfl, rfl, rfl, fun describes => ?_⟩
  cases describes.lastLogId

theorem built_snapshot_describes_without_appends :
    ∃ created, CellMachine.creation.storage = .ok created ∧
      ∀ before x now builder,
        before <+: [.apply [commandAt 1 [10]], .truncate ⟨⟨1, 1⟩, 0⟩,
          .installSnapshot ⟨some ⟨⟨1, 1⟩, 1⟩, .empty, "cell"⟩ [7] .replaced] →
        run (Tracked.step (singleCodec ⟨some ⟨⟨1, 1⟩, 1⟩, .empty, "cell"⟩)) ⟨created, []⟩ before =
          some x →
        x.storage.getSnapshotBuilder now = some builder →
        CellMachine.content.Describes builder (CellMachine.content.reflected x.trace) :=
  ⟨_, rfl, (built_snapshot_describes_iff CellMachine.content _ CellMachine.creation _ rfl rfl _
    (by simp [MachineContent.StartsFresh])).1 (by decide)⟩

end Chirps.RaftStorage
