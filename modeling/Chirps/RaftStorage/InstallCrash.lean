/-
# Crashes during the installation of a snapshot

`install_snapshot` step by step, with a crash or a failure between any two. What a recovery gives is
what it would have given before the call or what it gives after it.
-/

import Chirps.RaftStorage.SnapshotRetention

namespace Chirps.RaftStorage

open Chirps.Library
open Function (update update_of_ne update_self)

/-- Before the suffix stand the name of the file and the time. -/
def tempPath (stem : String) : String := stem ++ ".tmp"

/-- How far a call of `install_snapshot` has come. -/
inductive InstallPoint
  | started
  | writing (stem : String)
  | renamed (stem : String)
  | restored
  | marked
  | published
  | completed
  | failed (error : StorageError)

structure Installation (SM : Type*) where
  point : InstallPoint
  storage : WalRaftStorage SM

inductive InstallEvent
  | encodeFails
  /-- The temporary file is created, with some of the bytes in it. -/
  | createTemp (stem : String) (written : Bytes)
  | writeTemp (written : Bytes)
  | rename
  /-- `durably_replace` fails before it has a temporary file. -/
  | prepareFails (message : String)
  /-- It fails when it opens the file or later and tries to remove the file. -/
  | replaceFails (stem message : String) (removed : Bool)
  | restore
  | mark
  | publish
  | complete

namespace Installation

variable {SM : Type*}

def setFile (x : Installation SM) (point : InstallPoint) (path : String) (content : Option Bytes) :
    Installation SM :=
  ⟨point, { x.storage with files := update x.storage.files path content }⟩

/-- The end of `durably_replace` after an error. -/
def abandon (x : Installation SM) (stem message : String) (removed : Bool) : Installation SM :=
  let error : StorageError := ⟨.snapshot none, .write, message⟩
  -- the error of `remove_file` is ignored
  if removed then x.setFile (.failed error) (tempPath stem) none else ⟨.failed error, x.storage⟩

def step [StateMachine SM] (codec : SnapshotCodec) (info : SnapshotMeta) (data : Bytes)
    (x : Installation SM) (event : InstallEvent) : Option (Installation SM) :=
  let s := x.storage
  let path := snapshotPathOf s.config.snapshotDir s.groupId info
  match encodeSnapshotFile codec info data s.config.snapshotChunkSize, x.point, event with
  | .error message, .started, .encodeFails =>
    some ⟨.failed ⟨.snapshot none, .write, message⟩, s⟩
  | .ok _, .started, .prepareFails message =>
    some ⟨.failed ⟨.snapshot none, .write, message⟩, s⟩
  | .ok encoded, .started, .createTemp stem written =>
    -- `create_new`
    if s.files (tempPath stem) = none ∧ written <+: encoded then
      some (x.setFile (.writing stem) (tempPath stem) (some written))
    else none
  | .ok encoded, .writing stem, .writeTemp written =>
    if written <+: encoded then some (x.setFile (.writing stem) (tempPath stem) (some written))
    else none
  | .ok encoded, .writing stem, .rename =>
    if s.files (tempPath stem) = some encoded then
      some ((x.setFile (.writing stem) (tempPath stem) none).setFile (.renamed stem) path
        (some encoded))
    else none
  | .ok _, .started, .replaceFails stem message removed =>
    some (x.abandon stem message removed)
  | .ok _, .writing stem, .replaceFails _ message removed =>
    some (x.abandon stem message removed)
  | .ok _, .renamed stem, .replaceFails _ message removed =>
    some (x.abandon stem message removed)
  | .ok _, .renamed _, .restore =>
    match StateMachine.restore s.stateMachine data with
    | (.error message, sm) =>
      some ⟨.failed ⟨.stateMachine, .write, message⟩, { s with stateMachine := sm }⟩
    | (.ok (), sm) => some ⟨.restored, { s with stateMachine := sm }⟩
  | .ok _, .restored, .mark =>
    match s.writeFrame (.record (.snapshotApplied info)) true with
    | (.error message, s) => some ⟨.failed ⟨.snapshot none, .write, message⟩, s⟩
    | (.ok (), s) => some ⟨.marked, s⟩
  | .ok _, .marked, .publish =>
    some ⟨.published, { s with
      snapshotMeta := some info
      snapshotPath := some path
      lastApplied := info.lastLogId
      lastMembership := info.lastMembership }⟩
  | .ok _, .published, .complete =>
    some ⟨.completed, { s with
      completions := s.completions ++
        [⟨s.groupId, s.nodeId, info.snapshotId, data.length, codec.sha256 data, .installed⟩] }⟩
  | _, _, _ => none

end Installation

theorem snapshotPathOf_injective {base : String} {groupId : GroupId} {a b : SnapshotMeta}
    (h : snapshotPathOf base groupId a = snapshotPathOf base groupId b) :
    a.snapshotId = b.snapshotId := by
  simpa [snapshotPathOf] using h

theorem snapshotPathOf_ne_tempPath (base : String) (groupId : GroupId) (info : SnapshotMeta)
    (stem : String) : snapshotPathOf base groupId info ≠ tempPath stem := by
  intro h
  have hlast := congrArg (fun path : String => path.toList.getLast?) h
  simp only [snapshotPathOf, tempPath, String.toList_append, List.getLast?_append] at hlast
  have hx : ".alopex".toList.getLast? = some 'x' := by decide
  have hp : ".tmp".toList.getLast? = some 'p' := by decide
  rw [hx, hp] at hlast
  exact absurd (Option.some.inj hlast) (by decide)

/-! ## What a call has done so far -/

section

variable {SM : Type*} (codec : SnapshotCodec) (s : WalRaftStorage SM) (info : SnapshotMeta)
  (data : Bytes)

def Placed (t : WalRaftStorage SM) : Prop :=
  ∃ encoded, encodeSnapshotFile codec info data s.config.snapshotChunkSize = .ok encoded ∧
    t.files (snapshotPathOf s.config.snapshotDir s.groupId info) = some encoded

def Marked (t : WalRaftStorage SM) : Prop :=
  t.frames = s.frames ++ [WalFrame.record (.snapshotApplied info)] ∧ Placed codec s info data t

def InstallPoint.Holds (t : WalRaftStorage SM) : InstallPoint → Prop
  | .started | .writing _ => t.frames = s.frames ∧ t.completions = s.completions
  | .renamed _ | .restored =>
    t.frames = s.frames ∧ t.completions = s.completions ∧ Placed codec s info data t
  | .marked | .published =>
    Marked codec s info data t ∧ t.Settled ∧ t.completions = s.completions
  | .completed => Marked codec s info data t ∧ t.Settled
  | .failed _ =>
    (t.frames = s.frames ∨ Marked codec s info data t) ∧ t.completions = s.completions

/-- Called on `s`, and no file touched but temporary ones and that of the snapshot. -/
structure Installing (x : Installation SM) : Prop where
  config : x.storage.config = s.config
  groupId : x.storage.groupId = s.groupId
  nodeId : x.storage.nodeId = s.nodeId
  synced : s.synced ≤ x.storage.synced
  files : ∀ path, path ≠ snapshotPathOf s.config.snapshotDir s.groupId info →
    (∀ stem, path ≠ tempPath stem) → x.storage.files path = s.files path
  point : x.point.Holds codec s info data x.storage

end

namespace Installing

variable {SM : Type*} {codec : SnapshotCodec} {s : WalRaftStorage SM} {info : SnapshotMeta}
  {data : Bytes} {x next : Installation SM}

theorem start : Installing codec s info data ⟨.started, s⟩ :=
  ⟨rfl, rfl, rfl, le_rfl, fun _ _ _ => rfl, rfl, rfl⟩

section

variable (h : Installing codec s info data x)
include h

theorem setTemp {point : InstallPoint} (stem : String)
    (content : Option Bytes)
    (hpoint : point.Holds codec s info data (x.setFile point (tempPath stem) content).storage) :
    Installing codec s info data (x.setFile point (tempPath stem) content) := by
  refine ⟨h.config, h.groupId, h.nodeId, h.synced, fun path hpath htemp => ?_, hpoint⟩
  exact (update_of_ne (htemp stem) _ _).trans (h.files path hpath htemp)

theorem atPoint {point : InstallPoint}
    (hpoint : point.Holds codec s info data x.storage) :
    Installing codec s info data ⟨point, x.storage⟩ :=
  ⟨h.config, h.groupId, h.nodeId, h.synced, h.files, hpoint⟩

theorem abandon (frames : x.storage.frames = s.frames)
    (completions : x.storage.completions = s.completions) (stem message : String)
    (removed : Bool) : Installing codec s info data (x.abandon stem message removed) := by
  rw [Installation.abandon]
  split
  · exact h.setTemp stem none ⟨.inl frames, completions⟩
  · exact h.atPoint ⟨.inl frames, completions⟩

theorem rename (frames : x.storage.frames = s.frames)
    (completions : x.storage.completions = s.completions) {encoded : Bytes}
    (hencode : encodeSnapshotFile codec info data x.storage.config.snapshotChunkSize =
      .ok encoded) (stem : String) :
    Installing codec s info data (x.setFile (.renamed stem)
      (snapshotPathOf x.storage.config.snapshotDir x.storage.groupId info) (some encoded)) := by
  rw [h.config] at hencode
  rw [h.config, h.groupId]
  refine ⟨h.config, h.groupId, h.nodeId, h.synced, fun path hpath htemp => ?_, frames, completions,
    encoded, hencode, update_self ..⟩
  exact (update_of_ne hpath _ _).trans (h.files path hpath htemp)

theorem mark (frames : x.storage.frames = s.frames)
    (completions : x.storage.completions = s.completions)
    (placed : Placed codec s info data x.storage) {result : Except String Unit}
    {t : WalRaftStorage SM}
    (hwrite : x.storage.writeFrame (.record (.snapshotApplied info)) true = (result, t)) :
    (result = .ok () → Installing codec s info data ⟨.marked, t⟩) ∧
      ∀ error, Installing codec s info data ⟨.failed error, t⟩ := by
  obtain ⟨pending, heq, -⟩ := x.storage.writeFrame_eq (.record (.snapshotApplied info)) true
  obtain ⟨hframes, hsynced⟩ := x.storage.walWriter.append_any (.record (.snapshotApplied info)) true
  rw [hwrite] at heq
  obtain ⟨-, rfl⟩ := Prod.mk.inj heq
  set sink := (x.storage.walWriter.append (.record (.snapshotApplied info)) true).2
  have hbase : ∀ point : InstallPoint,
      point.Holds codec s info data (x.storage.withSink sink pending) →
        Installing codec s info data ⟨point, x.storage.withSink sink pending⟩ := fun point hpoint =>
    ⟨h.config, h.groupId, h.nodeId, h.synced.trans hsynced, h.files, hpoint⟩
  constructor
  · rintro rfl
    obtain ⟨sink', hsink, hframes', hsettled⟩ := WalRaftStorage.writeFrame_sync_ok hwrite
    apply hbase
    rw [hsink]
    refine ⟨⟨?_, placed⟩, hsettled, completions⟩
    rw [← frames]
    exact hframes'
  · intro error
    apply hbase
    refine ⟨?_, completions⟩
    rw [← frames]
    -- the frame was buffered or it was not
    rcases hframes with hsame | hmore
    · exact .inl hsame
    · refine .inr ⟨?_, placed⟩
      rw [← frames]
      exact hmore

theorem step [StateMachine SM] {event : InstallEvent}
    (hstep : x.step codec info data event = some next) : Installing codec s info data next := by
  have hpoint := h.point
  unfold Installation.step at hstep
  extract_lets t path at hstep
  split at hstep
  case h_1 message hencode hx =>
    cases hstep
    rw [hx] at hpoint
    exact h.atPoint ⟨.inl hpoint.1, hpoint.2⟩
  case h_2 encoded message hencode hx =>
    cases hstep
    rw [hx] at hpoint
    exact h.atPoint ⟨.inl hpoint.1, hpoint.2⟩
  case h_3 encoded stem written hencode hx =>
    split at hstep
    · cases hstep
      rw [hx] at hpoint
      exact h.setTemp stem _ hpoint
    · cases hstep
  case h_4 encoded stem written hencode hx =>
    split at hstep
    · cases hstep
      rw [hx] at hpoint
      exact h.setTemp stem _ hpoint
    · cases hstep
  case h_5 encoded stem hencode hx =>
    split at hstep
    · cases hstep
      rw [hx] at hpoint
      have htemp : Installing codec s info data (x.setFile (.writing stem) (tempPath stem) none) :=
        h.setTemp stem none hpoint
      exact htemp.rename hpoint.1 hpoint.2 hencode stem
    · cases hstep
  case h_6 encoded stem message removed hencode hx =>
    cases hstep
    rw [hx] at hpoint
    exact h.abandon hpoint.1 hpoint.2 stem message removed
  case h_7 encoded stem _ message removed hencode hx =>
    cases hstep
    rw [hx] at hpoint
    exact h.abandon hpoint.1 hpoint.2 stem message removed
  case h_8 encoded stem _ message removed hencode hx =>
    cases hstep
    rw [hx] at hpoint
    exact h.abandon hpoint.1 hpoint.2.1 stem message removed
  case h_9 encoded stem hencode hx =>
    rw [hx] at hpoint
    obtain ⟨hframes, hcompletions, hplaced⟩ := hpoint
    -- restoring the state machine leaves the disk alone
    split at hstep
    · cases hstep
      exact ⟨h.config, h.groupId, h.nodeId, h.synced, h.files, .inl hframes, hcompletions⟩
    · cases hstep
      exact ⟨h.config, h.groupId, h.nodeId, h.synced, h.files, hframes, hcompletions, hplaced⟩
  case h_10 encoded hencode hx =>
    rw [hx] at hpoint
    obtain ⟨hframes, hcompletions, hplaced⟩ := hpoint
    split at hstep
    · rename_i hwrite
      cases hstep
      exact (h.mark hframes hcompletions hplaced hwrite).2 _
    · rename_i hwrite
      cases hstep
      exact (h.mark hframes hcompletions hplaced hwrite).1 rfl
  case h_11 encoded hencode hx =>
    cases hstep
    rw [hx] at hpoint
    exact ⟨h.config, h.groupId, h.nodeId, h.synced, h.files, hpoint⟩
  case h_12 encoded hencode hx =>
    cases hstep
    rw [hx] at hpoint
    exact ⟨h.config, h.groupId, h.nodeId, h.synced, h.files, hpoint.1, hpoint.2.1⟩
  case h_13 => cases hstep

end

theorem run [StateMachine SM] {events : List InstallEvent}
    (hrun : Library.run (Installation.step codec info data) ⟨.started, s⟩ events = some x) :
    Installing codec s info data x :=
  run_invariant (fun _ _ _ h hstep => h.step hstep) start hrun

theorem frames_cases (h : Installing codec s info data x) :
    x.storage.frames = s.frames ∨ Marked codec s info data x.storage := by
  have hpoint := h.point
  cases hx : x.point <;> rw [hx] at hpoint
  case started => exact .inl hpoint.1
  case writing => exact .inl hpoint.1
  case renamed => exact .inl hpoint.1
  case restored => exact .inl hpoint.1
  case marked => exact .inr hpoint.1
  case published => exact .inr hpoint.1
  case completed => exact .inr hpoint.1
  case failed => exact hpoint.1

end Installing

/-! ## Recovery -/

/-- No marker of the log names the snapshot yet. -/
def FreshId {SM : Type*} (s : WalRaftStorage SM) (info : SnapshotMeta) : Prop :=
  ∀ earlier, .record (.snapshotApplied earlier) ∈ s.frames → earlier.snapshotId ≠ info.snapshotId

section

variable {SM : Type*} {codec : SnapshotCodec} {s t : WalRaftStorage SM} {info : SnapshotMeta}
  {data : Bytes} {x : Installation SM}

theorem Installing.files_eq (h : Installing codec s info data x) (fresh : FreshId s info)
    {earlier : SnapshotMeta} (hmem : .record (.snapshotApplied earlier) ∈ s.frames) :
    x.storage.files (snapshotPathOf s.config.snapshotDir s.groupId earlier) =
      s.files (snapshotPathOf s.config.snapshotDir s.groupId earlier) := by
  apply h.files
  · exact fun heq => fresh earlier hmem (snapshotPathOf_injective heq)
  · exact fun stem => snapshotPathOf_ne_tempPath _ _ _ stem

theorem accepts_of_files (config : t.config = s.config) (groupId : t.groupId = s.groupId)
    {frame : WalFrame} (accepted : s.Accepts frame)
    (files : ∀ earlier, frame = .record (.snapshotApplied earlier) →
      t.files (snapshotPathOf s.config.snapshotDir s.groupId earlier) =
        s.files (snapshotPathOf s.config.snapshotDir s.groupId earlier)) : t.Accepts frame := by
  rcases frame with header | ⟨entry | vote | earlier | logId | logId⟩
  case header =>
    rw [WalRaftStorage.Accepts, WalRaftStorage.checkHeader, config]
    exact accepted
  case record.snapshotApplied =>
    rw [WalRaftStorage.Accepts, config, groupId, files earlier rfl]
    exact accepted
  all_goals trivial

theorem Installing.recoverable (h : Installing codec s info data x) (fresh : FreshId s info)
    (recoverable : s.Recoverable) : x.storage.Recoverable := by
  refine ⟨recoverable.started.trans_le h.synced, ?_⟩
  have hold : ∀ frame ∈ s.frames, x.storage.Accepts frame := by
    intro frame hframe
    apply accepts_of_files h.config h.groupId (recoverable.accepted frame hframe)
    rintro earlier rfl
    exact h.files_eq fresh hframe
  intro frame hframe
  rcases h.frames_cases with hframes | ⟨hframes, encoded, -, hfile⟩
  · rw [hframes] at hframe
    exact hold frame hframe
  · rw [hframes, List.mem_append, List.mem_singleton] at hframe
    rcases hframe with hframe | rfl
    · exact hold frame hframe
    · rw [WalRaftStorage.Accepts, h.config, h.groupId, hfile]
      rfl

end

/-! ## The call as a whole -/

section

variable {SM : Type*} [StateMachine SM] {codec : SnapshotCodec} {s : WalRaftStorage SM}
  {info : SnapshotMeta} {data : Bytes}

theorem run_rename {stem : String} (free : s.files (tempPath stem) = none) {encoded : Bytes}
    (hencode : encodeSnapshotFile codec info data s.config.snapshotChunkSize = .ok encoded) :
    run (Installation.step codec info data) ⟨.started, s⟩ [.createTemp stem encoded, .rename] =
      some ⟨.renamed stem, s.withRestored (update s.files
        (snapshotPathOf s.config.snapshotDir s.groupId info) (some encoded)) s.stateMachine⟩ := by
  have htemp : update s.files (tempPath stem) none = s.files := by
    rw [← free, Function.update_eq_self]
  simp [run, Installation.step, hencode, free, Installation.setFile, htemp,
    WalRaftStorage.withRestored]

def endPoint : Except StorageError Unit → InstallPoint
  | .ok () => .completed
  | .error error => .failed error

/-- However `install_snapshot` ends, the steps lead there. -/
theorem run_installSnapshot {stem : String} (free : s.files (tempPath stem) = none)
    (outcome : ReplaceOutcome) :
    ∃ events, run (Installation.step codec info data) ⟨.started, s⟩ events =
      some ⟨endPoint (s.installSnapshot codec info data outcome).1,
        (s.installSnapshot codec info data outcome).2⟩ := by
  cases hencode : encodeSnapshotFile codec info data s.config.snapshotChunkSize with
  | error message =>
    refine ⟨[.encodeFails], ?_⟩
    simp [run, Installation.step, WalRaftStorage.installSnapshot, hencode, endPoint]
  | ok encoded =>
    let files := update s.files (snapshotPathOf s.config.snapshotDir s.groupId info) (some encoded)
    -- what the call does once the file is in place
    have after {l x} (h : run (Installation.step codec info data)
        ⟨.renamed stem, s.withRestored files s.stateMachine⟩ l = some x) :
        ∃ events, run (Installation.step codec info data) ⟨.started, s⟩ events = some x :=
      ⟨_, run_append_eq_some.mpr ⟨_, run_rename free hencode, h⟩⟩
    simp only [WalRaftStorage.installSnapshot, hencode]
    rcases outcome with _ | ⟨message, _ | _⟩
    · simp only [durablyReplace]
      rcases hrestore : StateMachine.restore s.stateMachine data with ⟨message | ⟨⟩, sm⟩
      · apply after (l := [.restore])
        simp [run, Installation.step, hencode, WalRaftStorage.withRestored, hrestore,
          endPoint, files]
      · rcases hwrite : (s.withRestored files sm).writeFrame (.record (.snapshotApplied info)) true
          with ⟨message | ⟨⟩, u⟩
        · apply after (l := [.restore, .mark])
          rw [WalRaftStorage.withRestored] at hwrite
          simp [run, Installation.step, hencode, WalRaftStorage.withRestored, hrestore, hwrite,
            endPoint, files]
        · apply after (l := [.restore, .mark, .publish, .complete])
          obtain ⟨sink, rfl, -⟩ := WalRaftStorage.writeFrame_sync_ok hwrite
          rw [WalRaftStorage.withRestored] at hwrite
          simp [run, Installation.step, hencode, WalRaftStorage.withRestored, hrestore, hwrite,
            endPoint, files, WalRaftStorage.withSink]
    · refine ⟨[.prepareFails message], ?_⟩
      simp [run, Installation.step, hencode, durablyReplace, endPoint]
    · apply after (l := [.replaceFails stem message false])
      simp [run, Installation.step, hencode, durablyReplace, endPoint,
        WalRaftStorage.withRestored, Installation.abandon, files]

end

theorem run_installSnapshot_replaced :
    ∃ s events, (smallCreation 16).storage = .ok s ∧
      run (Installation.step (singleCodec emptySnapshot) emptySnapshot [1, 2, 3])
        ⟨.started, s⟩ events =
        some ⟨.completed, (s.installSnapshot (singleCodec emptySnapshot) emptySnapshot [1, 2, 3]
          .replaced).2⟩ := by
  obtain ⟨s, hs⟩ : ∃ s, (smallCreation 16).storage = .ok s := ⟨_, rfl⟩
  have hfree : s.files (tempPath "snapshot") = none := by
    cases hs
    rfl
  obtain ⟨events, hevents⟩ := run_installSnapshot hfree .replaced
  refine ⟨s, events, hs, hevents.trans ?_⟩
  cases hs
  rfl

end Chirps.RaftStorage
