/-
# Runs of a storage

The operations of a storage as events. `step` goes on from what a failed call left behind, `stepOk`
only follows calls that succeed. Recovery finds the synced frames and possibly some more.
-/

import Chirps.Library.Run
import Chirps.RaftStorage.WalStorage

namespace Chirps.RaftStorage

open Chirps.Library

inductive Op (SM : Type*)
  | append (entries : List Entry)
  | truncate (logId : LogId)
  | purge (logId : LogId)
  | saveVote (vote : Vote)
  | apply (entries : List Entry)
  | tryGetLogEntries (range : IndexRange)
  | installSnapshot (info : SnapshotMeta) (data : Bytes) (outcome : ReplaceOutcome)
  | buildSnapshot (builder : WalSnapshotBuilder) (outcome : ReplaceOutcome)
  /-- Restart on the first `kept` frames. -/
  | recover (stateMachine : SM) (now : UInt64) (kept : ℕ) (writeFaults : List (Option String))
    (syncOutcomes : List SyncOutcome)

def Op.records {SM : Type*} : Op SM → List RaftWalRecord
  | .append entries => entries.map .appendLog
  | .truncate logId => [.truncate logId]
  | .purge logId => [.purge logId]
  | .saveVote vote => [.vote vote]
  | .installSnapshot info _ _ => [.snapshotApplied info]
  | .apply _ | .tryGetLogEntries _ | .buildSnapshot _ _ | .recover _ _ _ _ _ => []

namespace WalRaftStorage

variable {SM : Type*} (s : WalRaftStorage SM)

def frames (s : WalRaftStorage SM) : List WalFrame := s.walWriter.frames

def Settled (s : WalRaftStorage SM) : Prop := s.walWriter.Settled

instance (s : WalRaftStorage SM) : Decidable s.Settled :=
  inferInstanceAs (Decidable s.walWriter.Settled)

/-- A crash keeps every synced frame and no frame without those before it. -/
def restart (stateMachine : SM) (now : UInt64) (kept : ℕ)
    (writeFaults : List (Option String)) (syncOutcomes : List SyncOutcome) :
    Option (WalRaftStorage SM) :=
  -- anything between the synced frames and all of them may be found
  if s.walWriter.participant.writer.synced ≤ kept ∧ kept ≤ s.frames.length then
    (recover s.config s.groupId s.nodeId stateMachine now
      (.openFile (s.frames.take kept) writeFaults syncOutcomes) s.files).toOption
  else none

/-- Whether the result is `Ok`, and the storage; none at a panic or if the WAL is rejected. -/
def perform [StateMachine SM] (codec : SnapshotCodec) (s : WalRaftStorage SM) :
    Op SM → Option (Bool × WalRaftStorage SM)
  | .append entries => some ((s.append entries).1.toBool, (s.append entries).2)
  | .truncate logId => some ((s.truncate logId).1.toBool, (s.truncate logId).2)
  | .purge logId => some ((s.purge logId).1.toBool, (s.purge logId).2)
  | .saveVote vote => some ((s.saveVote vote).1.toBool, (s.saveVote vote).2)
  | .apply entries => some ((s.apply entries).1.toBool, (s.apply entries).2)
  | .tryGetLogEntries range => (s.tryGetLogEntries range).map fun result => (true, result.2)
  | .installSnapshot info data outcome =>
    some ((s.installSnapshot codec info data outcome).1.toBool,
      (s.installSnapshot codec info data outcome).2)
  | .buildSnapshot builder outcome =>
    let (result, files, completions) := builder.buildSnapshot codec s.files outcome
    some (result.toBool,
      { s with files := files, completions := s.completions ++ completions })
  | .recover stateMachine now kept writeFaults syncOutcomes =>
    (s.restart stateMachine now kept writeFaults syncOutcomes).map fun t => (true, t)

def step [StateMachine SM] (codec : SnapshotCodec) (s : WalRaftStorage SM) (op : Op SM) :
    Option (WalRaftStorage SM) :=
  (s.perform codec op).map Prod.snd

/-- An operation that returns `Ok`. -/
def stepOk [StateMachine SM] (codec : SnapshotCodec) (s : WalRaftStorage SM) (op : Op SM) :
    Option (WalRaftStorage SM) :=
  match s.perform codec op with
  | some (true, t) => some t
  | _ => none

/-! ## One call at a time -/

@[simp] theorem withSink_walWriter (sink : RealWalSink) (pending : ℕ) :
    (s.withSink sink pending).walWriter = sink := rfl

@[simp] theorem withSink_pendingUnsynced (sink : RealWalSink)
    (pending : ℕ) : (s.withSink sink pending).pendingUnsynced = pending := rfl

@[simp] theorem withSink_withSink (sink sink' : RealWalSink)
    (pending pending' : ℕ) :
    (s.withSink sink pending).withSink sink' pending' = s.withSink sink' pending' := rfl

@[simp] theorem recordEntry_withSink (sink : RealWalSink) (pending : ℕ)
    (entry : Entry) :
    (s.withSink sink pending).recordEntry entry = (s.recordEntry entry).withSink sink pending := rfl

@[simp] theorem foldl_recordEntry_withSink (entries : List Entry) (s : WalRaftStorage SM)
    (sink : RealWalSink) (pending : ℕ) :
    entries.foldl recordEntry (s.withSink sink pending) =
      (entries.foldl recordEntry s).withSink sink pending := by
  induction entries generalizing s with
  | nil => rfl
  | cons entry rest ih => exact ih (s.recordEntry entry)

theorem writeFrame_eq (frame : WalFrame) (syncNow : Bool) :
    ∃ pending, s.writeFrame frame syncNow =
        ((s.walWriter.append frame syncNow).1,
          s.withSink (s.walWriter.append frame syncNow).2 pending) ∧
      ((s.walWriter.append frame syncNow).1 = .ok () →
        pending = if syncNow then 0 else s.pendingUnsynced + 1) := by
  rw [writeFrame]
  rcases s.walWriter.append frame syncNow with ⟨⟨message⟩ | ⟨⟩, sink⟩
  · exact ⟨s.pendingUnsynced, rfl, nofun⟩
  · exact ⟨_, rfl, fun _ => rfl⟩

variable {s t : WalRaftStorage SM}

theorem writeFrame_sync_ok {frame : WalFrame} (h : s.writeFrame frame true = (.ok (), t)) :
    ∃ sink, t = s.withSink sink 0 ∧ sink.frames = s.frames ++ [frame] ∧ sink.Settled := by
  obtain ⟨pending, heq, hpending⟩ := s.writeFrame_eq frame true
  obtain ⟨happend, rfl⟩ := Prod.mk.inj (heq.symm.trans h)
  refine ⟨_, by rw [hpending happend]; rfl, RealWalSink.append_frames_of_ok happend,
    RealWalSink.settled_of_append_ok happend⟩

theorem syncWal_eq (s : WalRaftStorage SM) :
    ∃ pending, s.syncWal = (s.walWriter.sync.1, s.withSink s.walWriter.sync.2 pending) := by
  rw [syncWal]
  rcases s.walWriter.sync with ⟨⟨message⟩ | ⟨⟩, sink⟩
  · exact ⟨s.pendingUnsynced, rfl⟩
  · exact ⟨0, rfl⟩

theorem syncWal_ok (h : s.syncWal = (.ok (), t)) :
    ∃ sink pending, t = s.withSink sink pending ∧ sink.frames = s.frames ∧ sink.Settled := by
  obtain ⟨pending, heq⟩ := s.syncWal_eq
  obtain ⟨hsync, rfl⟩ := Prod.mk.inj (heq.symm.trans h)
  exact ⟨_, pending, rfl, RealWalSink.sync_frames _, RealWalSink.settled_of_sync_ok hsync⟩

/-- An entry that is accepted without a sync of its own is recorded; when no frame
is pending afterwards, an interval sync has just succeeded. -/
theorem appendEntryWithSync_ok {entry : Entry}
    (h : s.appendEntryWithSync entry false = (.ok (), t)) :
    ∃ sink pending, t = (s.recordEntry entry).withSink sink pending ∧
      sink.frames = s.frames ++ [WalFrame.record (.appendLog entry)] ∧
        (pending = 0 → sink.Settled) := by
  obtain ⟨pending, hwrite, hpending⟩ := s.writeFrame_eq (.record (.appendLog entry)) false
  rw [appendEntryWithSync, hwrite] at h
  cases happend : (s.walWriter.append (.record (.appendLog entry)) false).1 with
  | error message => simp [happend] at h
  | ok =>
    have hframes := RealWalSink.append_frames_of_ok happend
    obtain rfl : pending = s.pendingUnsynced + 1 := hpending happend
    simp only [happend, recordEntry_withSink] at h
    -- the interval sync runs or it does not
    split at h
    · obtain ⟨sink, pending, rfl, hsink, hsettled⟩ := syncWal_ok h
      exact ⟨sink, pending, rfl, hsink.trans hframes, fun _ => hsettled⟩
    · cases h
      exact ⟨_, _, rfl, hframes, fun hzero => by simp at hzero⟩

theorem appendEntries_ok {entries : List Entry} (h : s.appendEntries entries = (.ok (), t)) :
    ∃ sink pending, t = (entries.foldl recordEntry s).withSink sink pending ∧
      sink.frames = s.frames ++ entries.map (fun e => WalFrame.record (.appendLog e)) ∧
      (entries ≠ [] → pending = 0 → sink.Settled) := by
  induction entries generalizing s with
  | nil =>
    obtain ⟨-, rfl⟩ := Prod.mk.inj h
    exact ⟨s.walWriter, s.pendingUnsynced, rfl, by simp [frames], fun h => absurd rfl h⟩
  | cons entry rest ih =>
    rw [appendEntries] at h
    rcases hfirst : s.appendEntryWithSync entry false with ⟨⟨message⟩ | ⟨⟩, u⟩
    · simp [hfirst] at h
    · simp only [hfirst] at h
      obtain ⟨sink, pending, rfl, hframes, hsettled⟩ := appendEntryWithSync_ok hfirst
      obtain ⟨sink', pending', rfl, hframes', hsettled'⟩ := ih h
      refine ⟨sink', pending', by simp, ?_, fun _ hpending => ?_⟩
      · rw [hframes']
        simp [frames, hframes]
      · by_cases hrest : rest = []
        · -- the last entry: nothing has happened since
          subst hrest
          have hsame := (Prod.mk.inj h).2
          have hsink : sink = sink' := congrArg walWriter hsame
          have hpend : pending = pending' := congrArg pendingUnsynced hsame
          exact hsink ▸ hsettled (hpend.trans hpending)
        · exact hsettled' hrest hpending

theorem append_ok {entries : List Entry} (h : s.append entries = (.ok (), t))
    (settled : s.Settled) :
    ∃ sink pending, t = (entries.foldl recordEntry s).withSink sink pending ∧
      sink.frames = s.frames ++ entries.map (fun e => WalFrame.record (.appendLog e)) ∧
      sink.Settled := by
  rw [append] at h
  split at h
  · rename_i hempty
    subst hempty
    cases h
    exact ⟨s.walWriter, s.pendingUnsynced, rfl, by simp [frames], settled⟩
  · rename_i hne
    rcases hloop : s.appendEntries entries with ⟨⟨message⟩ | ⟨⟩, u⟩
    · simp [hloop] at h
    · simp only [hloop] at h
      obtain ⟨sink, pending, rfl, hframes, hsettled⟩ := appendEntries_ok hloop
      -- both closing branches of `append` end in the same sync
      have hsynced : ((entries.foldl recordEntry s).withSink sink pending).syncWal = (.ok (), t) →
          ∃ sink pending, t = (entries.foldl recordEntry s).withSink sink pending ∧
            sink.frames = s.frames ++ entries.map (fun e => WalFrame.record (.appendLog e)) ∧
            sink.Settled := by
        intro hsync
        obtain ⟨sink', pending', rfl, hsink, hsettled'⟩ := syncWal_ok hsync
        exact ⟨sink', pending', by simp, hsink.trans hframes, hsettled'⟩
      split at h
      · exact hsynced h
      · split at h
        · exact hsynced h
        · rename_i hnone
          cases h
          exact ⟨sink, pending, rfl, hframes, hsettled hne (Nat.eq_zero_of_not_pos hnone)⟩

def withApplied (s : WalRaftStorage SM) (state : Option LogId × StoredMembership)
    (stateMachine : SM) : WalRaftStorage SM :=
  { s with lastApplied := state.1, lastMembership := state.2, stateMachine := stateMachine }

theorem applyEntry_eq [StateMachine SM] (s : WalRaftStorage SM) (entry : Entry) :
    ∃ sm, (s.applyEntry entry).2 = s.withApplied (appliedAfter s.appliedState entry) sm := by
  rw [applyEntry]
  cases hpayload : entry.payload with
  | blank => exact ⟨s.stateMachine, by simp [withApplied, appliedAfter, appliedState, hpayload]⟩
  | membership m =>
    exact ⟨s.stateMachine, by simp [withApplied, appliedAfter, hpayload]⟩
  | normal command =>
    rcases hsm : StateMachine.apply s.stateMachine entry.logId command with ⟨_ | _, sm⟩ <;>
      exact ⟨sm, by simp [withApplied, appliedAfter, appliedState, hpayload, hsm]⟩

theorem apply_eq [StateMachine SM] (s : WalRaftStorage SM) (entries : List Entry) :
    ∃ state sm, (s.apply entries).2 = s.withApplied state sm := by
  induction entries generalizing s with
  | nil => exact ⟨s.appliedState, s.stateMachine, rfl⟩
  | cons entry rest ih =>
    obtain ⟨sm, hentry⟩ := s.applyEntry_eq entry
    rw [apply]
    rcases happly : s.applyEntry entry with ⟨error | response, next⟩
    · exact ⟨_, sm, by rw [← hentry, happly]⟩
    · obtain ⟨state, sm', hrest⟩ := ih next
      rw [happly] at hentry
      refine ⟨state, sm', ?_⟩
      simp only
      rcases happly : next.apply rest with ⟨_ | _, t⟩ <;> rw [happly] at hrest <;>
        exact hrest.trans (by rw [show next = _ from hentry]; rfl)

theorem isSome_update {files : SnapshotFiles} {path path' : String} {bytes : Bytes}
    (h : (files path).isSome = true) :
    (Function.update files path' (some bytes) path).isSome = true := by
  rw [Function.update_apply]
  split
  · rfl
  · exact h

theorem installSnapshot_ok [StateMachine SM] {codec : SnapshotCodec} {info : SnapshotMeta}
    {data : Bytes} {outcome : ReplaceOutcome}
    (h : s.installSnapshot codec info data outcome = (.ok (), t)) :
    ∃ encoded sm sink,
      encodeSnapshotFile codec info data s.config.snapshotChunkSize = .ok encoded ∧
      StateMachine.restore s.stateMachine data = (.ok (), sm) ∧
      sink.frames = s.frames ++ [WalFrame.record (.snapshotApplied info)] ∧ sink.Settled ∧
      t = { s.withSink sink 0 with
        files := Function.update s.files
          (snapshotPathOf s.config.snapshotDir s.groupId info) (some encoded)
        stateMachine := sm
        snapshotMeta := some info
        snapshotPath := some (snapshotPathOf s.config.snapshotDir s.groupId info)
        lastApplied := info.lastLogId
        lastMembership := info.lastMembership
        completions := s.completions ++
          [⟨s.groupId, s.nodeId, info.snapshotId, data.length, codec.sha256 data,
            .installed⟩] } := by
  simp only [installSnapshot] at h
  cases hencode : encodeSnapshotFile codec info data s.config.snapshotChunkSize with
  | error message => simp [hencode] at h
  | ok encoded =>
    cases outcome with
    | failed message renamed => simp [hencode, durablyReplace] at h
    | replaced =>
      rcases hrestore : StateMachine.restore s.stateMachine data with ⟨message | ⟨⟩, sm⟩
      · simp [hencode, durablyReplace, hrestore] at h
      · simp only [hencode, durablyReplace, hrestore] at h
        split at h
        · simp at h
        · rename_i u hwrite
          cases h
          obtain ⟨sink, rfl, hframes, hsettled⟩ := writeFrame_sync_ok hwrite
          exact ⟨encoded, sm, sink, rfl, rfl, hframes, hsettled, rfl⟩

/-! ## Successful steps -/

theorem stepOk_eq_some [StateMachine SM] {codec : SnapshotCodec} {op : Op SM} :
    s.stepOk codec op = some t ↔ s.perform codec op = some (true, t) := by
  rw [stepOk]
  rcases s.perform codec op with _ | ⟨_ | _, u⟩ <;> simp

theorem eq_ok_of_toBool {ε : Type*} {result : Except ε Unit} (h : result.toBool = true) :
    result = .ok () := by
  rcases result with _ | ⟨⟩
  · cases h
  · rfl

theorem call_of_perform {ε : Type*} {call : Except ε Unit × WalRaftStorage SM}
    (h : some (call.1.toBool, call.2) = some (true, t)) : call = (.ok (), t) := by
  obtain ⟨hresult, hstate⟩ := Prod.mk.inj (Option.some.inj h)
  exact Prod.ext (eq_ok_of_toBool hresult) hstate

/-! ## Replay -/

def Accepts (s : WalRaftStorage SM) : WalFrame → Prop
  | .header header => s.checkHeader header = .ok ()
  | .record (.snapshotApplied info) =>
    (s.files (snapshotPathOf s.config.snapshotDir s.groupId info)).isSome = true
  | .record _ => True

def voteAfter (vote : Option Vote) : WalFrame → Option Vote
  | .record (.vote vote) => some vote
  | _ => vote

def purgedAfter (purged : Option LogId) : WalFrame → Option LogId
  | .record (.purge logId) => some logId
  | _ => purged

def cacheAfter (limit : ℕ) (cache : LogCache) : WalFrame → LogCache
  | .record (.appendLog entry) => cache.insertEntry limit entry
  | .record (.truncate logId) => cache.truncateCache logId.index
  | .record (.purge logId) => cache.purgeCache logId.index
  | _ => cache

def appliedAfterFrame (state : Option LogId × StoredMembership) :
    WalFrame → Option LogId × StoredMembership
  | .record (.appendLog entry) => appliedAfter state entry
  | .record (.snapshotApplied info) => (info.lastLogId, info.lastMembership)
  | _ => state

def markerAfter (marker : Option SnapshotMeta) : WalFrame → Option SnapshotMeta
  | .record (.snapshotApplied info) => some info
  | _ => marker

def replayed (s : WalRaftStorage SM) (frames : List WalFrame) : WalRaftStorage SM :=
  { s with
    vote := frames.foldl voteAfter s.vote
    logCache := frames.foldl (cacheAfter s.config.logCacheSize) s.logCache
    lastPurgedLogId := frames.foldl purgedAfter s.lastPurgedLogId
    lastApplied := (frames.foldl appliedAfterFrame s.appliedState).1
    lastMembership := (frames.foldl appliedAfterFrame s.appliedState).2
    snapshotMeta := frames.foldl markerAfter s.snapshotMeta
    snapshotPath := (frames.foldl markerAfter none).elim s.snapshotPath fun info =>
      some (snapshotPathOf s.config.snapshotDir s.groupId info) }

theorem foldl_markerAfter (frames : List WalFrame) (marker : Option SnapshotMeta) :
    frames.foldl markerAfter marker = (frames.foldl markerAfter none).or marker := by
  induction frames generalizing marker with
  | nil => rfl
  | cons frame rest ih =>
    rw [List.foldl_cons, List.foldl_cons, ih, ih (markerAfter none frame), Option.or_assoc]
    congr 1
    rcases frame with header | ⟨entry | vote | info | logId | logId⟩ <;> rfl

theorem replayWal_eq_ok {frames : List WalFrame} :
    s.replayWal frames = .ok t ↔ (∀ frame ∈ frames, s.Accepts frame) ∧ t = s.replayed frames := by
  induction frames generalizing s with
  | nil =>
    rw [replayWal, Except.ok.injEq]
    exact ⟨fun h => ⟨by simp, h.symm⟩, fun h => h.2.symm⟩
  | cons frame rest ih =>
    -- what one accepted frame changes leaves the tests on the others alone
    have hstep : ∀ next : WalRaftStorage SM, next.config = s.config → next.groupId = s.groupId →
        next.files = s.files → next.replayed rest = s.replayed (frame :: rest) →
        s.Accepts frame → (next.replayWal rest = .ok t ↔
          (∀ f ∈ frame :: rest, s.Accepts f) ∧ t = s.replayed (frame :: rest)) := by
      intro next hconfig hgroup hfiles hreplayed haccepts
      have hsame : ∀ f, next.Accepts f ↔ s.Accepts f := by
        rintro (header | ⟨entry | vote | info | logId | logId⟩)
        · simp only [Accepts, checkHeader, hconfig]
        all_goals simp only [Accepts, hconfig, hgroup, hfiles]
      rw [ih, hreplayed]
      simp only [hsame, List.forall_mem_cons, haccepts, true_and]
    rcases frame with header | ⟨entry | vote | info | logId | logId⟩
    · rw [replayWal]
      cases hcheck : s.checkHeader header with
      | error message => simp [Accepts, hcheck]
      | ok => exact hstep s rfl rfl rfl rfl hcheck
    · exact hstep (s.recordEntry entry) rfl rfl rfl rfl trivial
    · exact hstep { s with vote := some vote } rfl rfl rfl rfl trivial
    · rw [replayWal, applyWalRecord]
      cases hfile : (s.files (snapshotPathOf s.config.snapshotDir s.groupId info)) with
      | none => simp [Accepts, hfile]
      | some bytes =>
        refine hstep _ rfl rfl rfl ?_ (by simp [Accepts, hfile])
        simp only [replayed, appliedState, List.foldl_cons, markerAfter, appliedAfterFrame,
          voteAfter, cacheAfter, purgedAfter, foldl_markerAfter rest (some info)]
        cases rest.foldl markerAfter none <;> rfl
    · exact hstep { s with logCache := s.logCache.truncateCache logId.index }
        rfl rfl rfl rfl trivial
    · exact hstep { s with
        logCache := s.logCache.purgeCache logId.index
        lastPurgedLogId := some logId } rfl rfl rfl rfl trivial

end WalRaftStorage

end Chirps.RaftStorage
