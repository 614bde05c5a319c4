/-
# What a call leaves behind

A call that fails can have done part of its work. Still the WAL only grows by records of the
operation, what was synced stays, and replay accepts every frame.
-/

import Chirps.RaftStorage.LogView

namespace Chirps.RaftStorage

open Chirps.Library

def Op.isPlain {SM : Type*} : Op SM → Bool
  | .append _ | .truncate _ | .purge _ | .saveVote _ | .apply _ | .tryGetLogEntries _ => true
  | .installSnapshot _ _ _ | .buildSnapshot _ _ | .recover _ _ _ _ _ => false

def Op.isQuiet {SM : Type*} : Op SM → Bool
  | .truncate _ | .purge _ | .saveVote _ | .tryGetLogEntries _ | .buildSnapshot _ _ => true
  | .append _ | .apply _ | .installSnapshot _ _ _ | .recover _ _ _ _ _ => false

namespace WalRaftStorage

variable {SM : Type*} (s : WalRaftStorage SM)

def synced (s : WalRaftStorage SM) : ℕ := s.walWriter.synced

theorem file_eq_take :
    ∃ kept, s.synced ≤ kept ∧ kept ≤ s.frames.length ∧ s.file = s.frames.take kept :=
  ⟨s.walWriter.participant.writer.flushed, s.walWriter.participant.writer.synced_le_flushed,
    s.walWriter.participant.writer.flushed_le_length, rfl⟩

structure Grows (s t : WalRaftStorage SM) (more : List WalFrame) : Prop where
  config : t.config = s.config
  groupId : t.groupId = s.groupId
  nodeId : t.nodeId = s.nodeId
  files : ∀ path, (s.files path).isSome = true → (t.files path).isSome = true
  frames : t.frames = s.frames ++ more
  synced : s.synced ≤ t.synced
  accepted : ∀ frame ∈ more, t.Accepts frame
  /-- Where a cached entry comes from. -/
  cached : ∀ k, (t.logCache.entries.lookup k).isSome = true →
    (s.logCache.entries.lookup k).isSome = true ∨ ((walLog s.file).lookup k).isSome = true ∨
      ∃ entry, .record (.appendLog entry) ∈ more ∧ entry.logId.index = k

/-! ## One call -/

theorem writeFrame_any (frame : WalFrame) (syncNow : Bool) :
    ∃ sink pending more, (s.writeFrame frame syncNow).2 = s.withSink sink pending ∧
      sink.frames = s.frames ++ more ∧ s.synced ≤ sink.synced ∧ (∀ f ∈ more, f = frame) := by
  obtain ⟨pending, heq, -⟩ := s.writeFrame_eq frame syncNow
  obtain ⟨hframes, hsynced⟩ := s.walWriter.append_any frame syncNow
  rcases hframes with hframes | hframes
  · exact ⟨_, pending, [], by rw [heq], by rw [hframes, List.append_nil]; rfl, hsynced, by simp⟩
  · exact ⟨_, pending, [frame], by rw [heq], hframes, hsynced, by simp⟩

theorem syncWal_any :
    ∃ sink pending, s.syncWal.2 = s.withSink sink pending ∧ sink.frames = s.frames ∧
      s.synced ≤ sink.synced := by
  obtain ⟨pending, heq⟩ := s.syncWal_eq
  exact ⟨_, pending, by rw [heq], s.walWriter.sync_frames, s.walWriter.synced_le_sync⟩

/-- The entries of an `append` before the first failure, and the one whose interval sync failed. -/
def acceptedEntries (s : WalRaftStorage SM) : List Entry → List Entry
  | [] => []
  | entry :: rest =>
    match (s.writeFrame (.record (.appendLog entry)) false).1 with
    | .error _ => []
    | .ok () =>
      -- the entry is recorded before the interval sync can fail
      match s.appendEntryWithSync entry false with
      | (.error _, _) => [entry]
      | (.ok (), next) => entry :: next.acceptedEntries rest

def Recorded (s t : WalRaftStorage SM) (entries : List Entry) : Prop :=
  ∃ sink pending, t = (entries.foldl recordEntry s).withSink sink pending ∧
    sink.frames = s.frames ++ entries.map (fun e => .record (.appendLog e)) ∧
    s.synced ≤ sink.synced

theorem Recorded.refl : s.Recorded s [] :=
  ⟨s.walWriter, s.pendingUnsynced, rfl, by simp [WalRaftStorage.frames], le_rfl⟩

variable {s t : WalRaftStorage SM} {entries : List Entry}

theorem Recorded.trans {u : WalRaftStorage SM} {more : List Entry} (h : s.Recorded t entries)
    (h' : t.Recorded u more) : s.Recorded u (entries ++ more) := by
  obtain ⟨sink, pending, rfl, hframes, hsynced⟩ := h
  obtain ⟨sink', pending', rfl, hframes', hsynced'⟩ := h'
  refine ⟨sink', pending', by simp, ?_, hsynced.trans hsynced'⟩
  rw [hframes']
  simp [WalRaftStorage.frames, hframes]

theorem syncWal_recorded (s : WalRaftStorage SM) : s.Recorded s.syncWal.2 [] := by
  obtain ⟨sink, pending, heq, hframes, hsynced⟩ := s.syncWal_any
  exact ⟨sink, pending, heq, by simp [hframes], hsynced⟩

theorem appendEntryWithSync_any (s : WalRaftStorage SM) (entry : Entry) :
    ((∃ message, (s.writeFrame (.record (.appendLog entry)) false).1 = .error message) ∧
        (∃ message, (s.appendEntryWithSync entry false).1 = .error message) ∧
        s.Recorded (s.appendEntryWithSync entry false).2 []) ∨
      (s.writeFrame (.record (.appendLog entry)) false).1 = .ok () ∧
        s.Recorded (s.appendEntryWithSync entry false).2 [entry] := by
  obtain ⟨pending, hwrite, -⟩ := s.writeFrame_eq (.record (.appendLog entry)) false
  obtain ⟨hany, hsynced⟩ := s.walWriter.append_any (.record (.appendLog entry)) false
  rw [appendEntryWithSync, hwrite]
  cases happend : (s.walWriter.append (.record (.appendLog entry)) false).1 with
  | error message =>
    refine .inl ⟨⟨message, rfl⟩, ⟨message, rfl⟩, _, pending, rfl, ?_, hsynced⟩
    -- a write that fails buffers nothing
    rw [RealWalSink.append] at happend ⊢
    split at happend
    · simp [WalRaftStorage.frames, RealWalSink.frames]
    · simp at happend
  | ok =>
    refine .inr ⟨rfl, ?_⟩
    have hrecorded : s.Recorded ((s.recordEntry entry).withSink
        (s.walWriter.append (.record (.appendLog entry)) false).2 pending) [entry] :=
      ⟨_, pending, rfl, RealWalSink.append_frames_of_ok happend, hsynced⟩
    simp only [recordEntry_withSink]
    split
    · exact hrecorded.trans (syncWal_recorded _)
    · exact hrecorded

theorem appendEntries_recorded (s : WalRaftStorage SM) (entries : List Entry) :
    s.Recorded (s.appendEntries entries).2 (s.acceptedEntries entries) := by
  induction entries generalizing s with
  | nil => exact .refl s
  | cons entry rest ih =>
    rw [appendEntries, acceptedEntries]
    rcases s.appendEntryWithSync_any entry with
      ⟨⟨message, hwrite⟩, ⟨message', hresult⟩, hrecorded⟩ | ⟨hwrite, hrecorded⟩
    · rw [hwrite]
      rcases happend : s.appendEntryWithSync entry false with ⟨_ | _, t⟩
      · rwa [happend] at hrecorded
      · simp [happend] at hresult
    · rw [hwrite]
      rcases happend : s.appendEntryWithSync entry false with ⟨_ | ⟨⟩, t⟩ <;>
        rw [happend] at hrecorded
      · exact hrecorded
      · exact hrecorded.trans (ih t)

theorem append_recorded (s : WalRaftStorage SM) (entries : List Entry) :
    s.Recorded (s.append entries).2 (s.acceptedEntries entries) := by
  rw [append]
  split
  · rename_i hempty
    subst hempty
    exact .refl s
  · have hloop := s.appendEntries_recorded entries
    have hsync := hloop.trans (syncWal_recorded _)
    rw [List.append_nil] at hsync
    rcases happend : s.appendEntries entries with ⟨_ | ⟨⟩, t⟩ <;> rw [happend] at hloop hsync
    · exact hloop
    · simp only
      split
      · exact hsync
      · split
        · exact hsync
        · exact hloop

theorem acceptedEntries_prefix (s : WalRaftStorage SM) (entries : List Entry) :
    s.acceptedEntries entries <+: entries := by
  induction entries generalizing s with
  | nil => exact List.prefix_rfl
  | cons entry rest ih =>
    rw [acceptedEntries]
    split
    · exact List.nil_prefix
    · split
      · exact List.cons_prefix_cons.mpr ⟨rfl, List.nil_prefix⟩
      · exact List.cons_prefix_cons.mpr ⟨rfl, ih _⟩

/-! ## One step -/

theorem Recorded.grows (h : s.Recorded t entries) :
    s.Grows t (entries.map fun e => .record (.appendLog e)) := by
  obtain ⟨sink, pending, rfl, hframes, hsynced⟩ := h
  rw [foldl_recordEntry]
  refine ⟨rfl, rfl, rfl, fun _ h => h, hframes, hsynced, ?_, ?_⟩
  · intro frame hframe
    obtain ⟨e, -, rfl⟩ := List.mem_map.mp hframe
    trivial
  · intro k hk
    exact (lookup_of_foldl_cacheAfter hk).imp_right .inr

theorem grows_write {u : WalRaftStorage SM} {record : RaftWalRecord} {result : Except String Unit}
    (hwrite : s.writeFrame (.record record) true = (result, u))
    (walWriter : t.walWriter = u.walWriter) (config : t.config = u.config)
    (groupId : t.groupId = u.groupId) (nodeId : t.nodeId = u.nodeId) (files : t.files = u.files)
    (accepts : t.Accepts (.record record))
    (cache : ∀ k, (t.logCache.entries.lookup k).isSome = true →
      (u.logCache.entries.lookup k).isSome = true) :
    ∃ more, s.Grows t more ∧ ∀ f ∈ more, f = .record record := by
  obtain ⟨sink, pending, more, heq, hframes, hsynced, honly⟩ :=
    s.writeFrame_any (.record record) true
  rw [hwrite] at heq
  obtain rfl : u = s.withSink sink pending := heq
  refine ⟨more, ⟨config, groupId, nodeId, fun path h => by rw [files]; exact h, ?_, ?_,
    fun f hf => honly f hf ▸ accepts, fun k hk => .inl (cache k hk)⟩, honly⟩
  · rw [frames, walWriter]
    exact hframes
  · rw [synced, synced, walWriter]
    exact hsynced

theorem grows_nil (walWriter : t.walWriter = s.walWriter) (config : t.config = s.config)
    (groupId : t.groupId = s.groupId) (nodeId : t.nodeId = s.nodeId)
    (files : ∀ path, (s.files path).isSome = true → (t.files path).isSome = true)
    (cache : t.logCache = s.logCache) : s.Grows t [] :=
  ⟨config, groupId, nodeId, files, by rw [frames, walWriter, List.append_nil]; rfl,
    by rw [synced, synced, walWriter], by simp, fun k hk => .inl (cache ▸ hk)⟩

theorem grows_truncate (s : WalRaftStorage SM) (logId : LogId) :
    ∃ more, s.Grows (s.truncate logId).2 more ∧ ∀ f ∈ more, f = .record (.truncate logId) := by
  rw [truncate]
  rcases hwrite : s.writeFrame (.record (.truncate logId)) true with ⟨_ | _, u⟩
  · exact grows_write hwrite rfl rfl rfl rfl rfl trivial fun _ h => h
  · exact grows_write hwrite rfl rfl rfl rfl rfl trivial fun _ h =>
      IndexedEntries.isSome_of_removeWhere h

theorem grows_purge (s : WalRaftStorage SM) (logId : LogId) :
    ∃ more, s.Grows (s.purge logId).2 more ∧ ∀ f ∈ more, f = .record (.purge logId) := by
  rw [purge]
  rcases hwrite : s.writeFrame (.record (.purge logId)) true with ⟨_ | _, u⟩
  · exact grows_write hwrite rfl rfl rfl rfl rfl trivial fun _ h => h
  · exact grows_write hwrite rfl rfl rfl rfl rfl trivial fun _ h =>
      IndexedEntries.isSome_of_removeWhere h

theorem grows_saveVote (s : WalRaftStorage SM) (vote : Vote) :
    ∃ more, s.Grows (s.saveVote vote).2 more ∧ ∀ f ∈ more, f = .record (.vote vote) := by
  rw [saveVote]
  rcases hwrite : s.writeFrame (.record (.vote vote)) true with ⟨_ | _, u⟩
  · exact grows_write hwrite rfl rfl rfl rfl rfl trivial fun _ h => h
  · exact grows_write hwrite rfl rfl rfl rfl rfl trivial fun _ h => h

def withInstalled (s : WalRaftStorage SM) (codec : SnapshotCodec) (info : SnapshotMeta)
    (data : Bytes) (path : String) : WalRaftStorage SM :=
  { s with
    snapshotMeta := some info
    snapshotPath := some path
    lastApplied := info.lastLogId
    lastMembership := info.lastMembership
    completions := s.completions ++
      [⟨s.groupId, s.nodeId, info.snapshotId, data.length, codec.sha256 data, .installed⟩] }

def withRestored (s : WalRaftStorage SM) (files : SnapshotFiles) (stateMachine : SM) :
    WalRaftStorage SM :=
  { s with files := files, stateMachine := stateMachine }

/-- The installation gets as far as restoring the state machine. -/
def restores [StateMachine SM] (codec : SnapshotCodec) (s : WalRaftStorage SM)
    (info : SnapshotMeta) (data : Bytes) (outcome : ReplaceOutcome) : Bool :=
  (encodeSnapshotFile codec info data s.config.snapshotChunkSize).toBool &&
    decide (outcome = .replaced) && (StateMachine.restore s.stateMachine data).1.toBool

def Writes (codec : SnapshotCodec) (s : WalRaftStorage SM) (info : SnapshotMeta) (data : Bytes)
    (files : SnapshotFiles) : Prop :=
  ∃ encoded, encodeSnapshotFile codec info data s.config.snapshotChunkSize = .ok encoded ∧
    files = Function.update s.files (snapshotPathOf s.config.snapshotDir s.groupId info)
      (some encoded)

variable {codec : SnapshotCodec} {files : SnapshotFiles}

theorem Writes.isSome {info : SnapshotMeta} {data : Bytes} (h : s.Writes codec info data files) :
    (files (snapshotPathOf s.config.snapshotDir s.groupId info)).isSome = true ∧
      ∀ path, (s.files path).isSome = true → (files path).isSome = true := by
  obtain ⟨encoded, -, rfl⟩ := h
  exact ⟨by simp, fun _ => isSome_update⟩

/-- What `install_snapshot` does: it stops early, leaving the WAL alone, or the
file is there and the state machine restored when the marker is written. -/
theorem installSnapshot_any [StateMachine SM] (codec : SnapshotCodec) (s : WalRaftStorage SM)
    (info : SnapshotMeta) (data : Bytes) (outcome : ReplaceOutcome) :
    (∃ files sm error, s.restores codec info data outcome = false ∧
        (files = s.files ∨ s.Writes codec info data files) ∧
        (sm = s.stateMachine ∨
          ∃ message, StateMachine.restore s.stateMachine data = (.error message, sm)) ∧
        s.installSnapshot codec info data outcome = (.error error, s.withRestored files sm)) ∨
      ∃ files sm result u, s.restores codec info data outcome = true ∧
        StateMachine.restore s.stateMachine data = (.ok (), sm) ∧
        s.Writes codec info data files ∧
        (s.withRestored files sm).writeFrame (.record (.snapshotApplied info)) true =
          (result, u) ∧
        ((∃ error, s.installSnapshot codec info data outcome = (.error error, u)) ∨
          result = .ok () ∧
            s.installSnapshot codec info data outcome =
              (.ok (), u.withInstalled codec info data
                (snapshotPathOf s.config.snapshotDir s.groupId info))) := by
  simp only [installSnapshot, restores]
  cases hencode : encodeSnapshotFile codec info data s.config.snapshotChunkSize with
  | error message =>
    exact .inl ⟨s.files, s.stateMachine, _, rfl, .inl rfl, .inl rfl, rfl⟩
  | ok encoded =>
    have hwrites : s.Writes codec info data (Function.update s.files
        (snapshotPathOf s.config.snapshotDir s.groupId info) (some encoded)) :=
      ⟨encoded, hencode, rfl⟩
    cases outcome with
    | failed message renamed =>
      cases renamed with
      | true => exact .inl ⟨_, s.stateMachine, _, rfl, .inr hwrites, .inl rfl, rfl⟩
      | false => exact .inl ⟨s.files, s.stateMachine, _, rfl, .inl rfl, .inl rfl, rfl⟩
    | replaced =>
      rcases hrestore : StateMachine.restore s.stateMachine data with ⟨message | ⟨⟩, sm⟩
      · refine .inl ⟨_, sm, ⟨.stateMachine, .write, message⟩, rfl, .inr hwrites,
          .inr ⟨message, rfl⟩, ?_⟩
        simp only [durablyReplace]
        rfl
      · rcases hwrite : (s.withRestored (Function.update s.files
          (snapshotPathOf s.config.snapshotDir s.groupId info) (some encoded)) sm).writeFrame
            (.record (.snapshotApplied info)) true with ⟨message | ⟨⟩, u⟩
        all_goals
          refine .inr ⟨_, sm, _, u, rfl, rfl, hwrites, hwrite, ?_⟩
          rw [withRestored] at hwrite
          simp only [durablyReplace, hwrite]
        · exact .inl ⟨_, rfl⟩
        · exact .inr ⟨trivial, rfl⟩

theorem Grows.of_restored {sm : SM} {more : List WalFrame}
    (h : (s.withRestored files sm).Grows t more)
    (hfiles : ∀ path, (s.files path).isSome = true → (files path).isSome = true) : s.Grows t more :=
  ⟨h.config, h.groupId, h.nodeId, fun path hpath => h.files path (hfiles path hpath), h.frames,
    h.synced, h.accepted, h.cached⟩

theorem grows_installSnapshot [StateMachine SM] (codec : SnapshotCodec) (s : WalRaftStorage SM)
    (info : SnapshotMeta) (data : Bytes) (outcome : ReplaceOutcome) :
    ∃ more, s.Grows (s.installSnapshot codec info data outcome).2 more ∧
      ∀ f ∈ more, f = .record (.snapshotApplied info) := by
  rcases s.installSnapshot_any codec info data outcome with
    ⟨files, sm, error, -, hfiles, -, heq⟩ |
    ⟨files, sm, result, u, -, -, hwrites, hwrite, heq⟩
  · rw [heq]
    refine ⟨[], grows_nil rfl rfl rfl rfl ?_ rfl, by simp⟩
    rcases hfiles with rfl | hwrites
    · exact fun _ h => h
    · exact hwrites.isSome.2
  · obtain ⟨hpath, hfiles⟩ := hwrites.isSome
    have hu : u.config = s.config ∧ u.groupId = s.groupId ∧ u.files = files := by
      obtain ⟨sink, pending, more, hany, -⟩ :=
        (s.withRestored files sm).writeFrame_any (.record (.snapshotApplied info)) true
      rw [hwrite] at hany
      obtain rfl : u = _ := hany
      exact ⟨rfl, rfl, rfl⟩
    have haccepts : u.Accepts (.record (.snapshotApplied info)) := by
      rw [Accepts, hu.1, hu.2.1, hu.2.2]
      exact hpath
    rcases heq with ⟨error, heq⟩ | ⟨-, heq⟩
    · rw [heq]
      obtain ⟨more, hmore, honly⟩ := grows_write hwrite rfl rfl rfl rfl rfl haccepts fun _ h => h
      exact ⟨more, hmore.of_restored hfiles, honly⟩
    · rw [heq]
      obtain ⟨more, hmore, honly⟩ := grows_write (t := u.withInstalled codec info data _) hwrite
        rfl rfl rfl rfl rfl haccepts fun _ h => h
      exact ⟨more, hmore.of_restored hfiles, honly⟩

theorem grows_tryGetLogEntries {range : IndexRange}
    (h : s.tryGetLogEntries range = some (entries, t)) : s.Grows t [] := by
  cases haccepted : range.accepted with
  | false => simp [tryGetLogEntries_rejected haccepted] at h
  | true =>
    obtain ⟨cache, heq, hcache⟩ := s.tryGetLogEntries_eq haccepted
    cases heq.symm.trans h
    refine ⟨rfl, rfl, rfl, fun _ h => h, (List.append_nil _).symm, le_rfl, by simp, fun k hk => ?_⟩
    rw [withCache_logCache, hcache] at hk
    exact (cached_of_uncached hk).imp_right .inl

variable {op : Op SM} {ok : Bool}

theorem grows_perform [StateMachine SM] (h : s.perform codec op = some (ok, t)) :
    (∃ more, s.Grows t more ∧ ∀ f ∈ more, f ∈ op.records.map .record) ∨
      ∃ sm now kept writeFaults syncOutcomes,
        op = .recover sm now kept writeFaults syncOutcomes ∧
        s.restart sm now kept writeFaults syncOutcomes = some t := by
  -- the operations that write at most one record
  have hone : ∀ {record : RaftWalRecord} {more : List WalFrame},
      (∀ f ∈ more, f = .record record) → ∀ f ∈ more, f ∈ [record].map .record := by
    intro record more honly f hf
    simp [honly f hf]
  cases op with
  | append entries =>
    cases h
    refine .inl ⟨_, (s.append_recorded entries).grows, fun f hf => ?_⟩
    obtain ⟨e, he, rfl⟩ := List.mem_map.mp hf
    have hmem := (s.acceptedEntries_prefix entries).subset he
    exact List.mem_map.mpr ⟨_, List.mem_map.mpr ⟨e, hmem, rfl⟩, rfl⟩
  | truncate logId =>
    cases h
    obtain ⟨more, hgrows, honly⟩ := s.grows_truncate logId
    exact .inl ⟨more, hgrows, hone honly⟩
  | purge logId =>
    cases h
    obtain ⟨more, hgrows, honly⟩ := s.grows_purge logId
    exact .inl ⟨more, hgrows, hone honly⟩
  | saveVote vote =>
    cases h
    obtain ⟨more, hgrows, honly⟩ := s.grows_saveVote vote
    exact .inl ⟨more, hgrows, hone honly⟩
  | apply entries =>
    cases h
    obtain ⟨state, sm, heq⟩ := s.apply_eq entries
    rw [heq]
    exact .inl ⟨[], grows_nil rfl rfl rfl rfl (fun _ h => h) rfl, by simp⟩
  | tryGetLogEntries range =>
    obtain ⟨⟨entries, u⟩, hread, heq⟩ := Option.map_eq_some_iff.mp h
    cases heq
    exact .inl ⟨[], grows_tryGetLogEntries hread, by simp⟩
  | installSnapshot info data outcome =>
    cases h
    obtain ⟨more, hgrows, honly⟩ := s.grows_installSnapshot codec info data outcome
    exact .inl ⟨more, hgrows, hone honly⟩
  | buildSnapshot builder outcome =>
    cases h
    exact .inl ⟨[], grows_nil rfl rfl rfl rfl
      (fun _ h => isSome_buildSnapshot codec builder outcome h) rfl, by simp⟩
  | recover sm now kept writeFaults syncOutcomes =>
    obtain ⟨u, hrestart, heq⟩ := Option.map_eq_some_iff.mp h
    cases heq
    exact .inr ⟨sm, now, kept, writeFaults, syncOutcomes, rfl, hrestart⟩

def withLog (s : WalRaftStorage SM) (sink : RealWalSink) (pending : ℕ) (cache : LogCache)
    (vote : Option Vote) (purged : Option LogId) : WalRaftStorage SM :=
  { s with
    walWriter := sink
    pendingUnsynced := pending
    logCache := cache
    vote := vote
    lastPurgedLogId := purged }

/-- Everything the operations on log and vote and `apply` can change. Only `append`
and `apply` touch the pair of `applied_state`, and only `apply` the state machine. -/
theorem perform_plain [StateMachine SM] (h : s.perform codec op = some (ok, t))
    (plain : op.isPlain = true) :
    ∃ sink pending cache vote purged state sm,
      t = (s.withLog sink pending cache vote purged).withApplied state sm ∧
      (op.isQuiet = true → state = s.appliedState ∧ sm = s.stateMachine) := by
  -- whether a write succeeds shows only in the sink
  have hwrite : ∀ {record : RaftWalRecord} {result : Except String Unit} {u : WalRaftStorage SM},
      s.writeFrame (.record record) true = (result, u) →
      ∃ sink pending, u = s.withSink sink pending := by
    intro record result u hu
    obtain ⟨sink, pending, more, heq, -⟩ := s.writeFrame_any (.record record) true
    rw [hu] at heq
    exact ⟨sink, pending, heq⟩
  cases op with
  | append entries =>
    cases h
    obtain ⟨sink, pending, heq, -⟩ := s.append_recorded entries
    rw [heq, foldl_recordEntry]
    exact ⟨sink, pending, _, s.vote, s.lastPurgedLogId, _, s.stateMachine, rfl,
      fun hquiet => (by cases hquiet)⟩
  | truncate logId =>
    cases h
    rw [truncate]
    rcases hcall : s.writeFrame (.record (.truncate logId)) true with ⟨_ | ⟨⟩, u⟩ <;>
      obtain ⟨sink, pending, rfl⟩ := hwrite hcall
    · exact ⟨sink, pending, s.logCache, s.vote, s.lastPurgedLogId, _, _, rfl, fun _ => ⟨rfl, rfl⟩⟩
    · exact ⟨sink, pending, s.logCache.truncateCache logId.index, s.vote, s.lastPurgedLogId, _, _,
        rfl, fun _ => ⟨rfl, rfl⟩⟩
  | purge logId =>
    cases h
    rw [purge]
    rcases hcall : s.writeFrame (.record (.purge logId)) true with ⟨_ | ⟨⟩, u⟩ <;>
      obtain ⟨sink, pending, rfl⟩ := hwrite hcall
    · exact ⟨sink, pending, s.logCache, s.vote, s.lastPurgedLogId, _, _, rfl, fun _ => ⟨rfl, rfl⟩⟩
    · exact ⟨sink, pending, s.logCache.purgeCache logId.index, s.vote, some logId, _, _, rfl,
        fun _ => ⟨rfl, rfl⟩⟩
  | saveVote vote =>
    cases h
    rw [saveVote]
    rcases hcall : s.writeFrame (.record (.vote vote)) true with ⟨_ | ⟨⟩, u⟩ <;>
      obtain ⟨sink, pending, rfl⟩ := hwrite hcall
    · exact ⟨sink, pending, s.logCache, s.vote, s.lastPurgedLogId, _, _, rfl, fun _ => ⟨rfl, rfl⟩⟩
    · exact ⟨sink, pending, s.logCache, some vote, s.lastPurgedLogId, _, _, rfl,
        fun _ => ⟨rfl, rfl⟩⟩
  | apply entries =>
    cases h
    obtain ⟨state, sm, heq⟩ := s.apply_eq entries
    rw [heq]
    exact ⟨s.walWriter, s.pendingUnsynced, s.logCache, s.vote, s.lastPurgedLogId, state, sm, rfl,
      fun hquiet => (by cases hquiet)⟩
  | tryGetLogEntries range =>
    obtain ⟨⟨entries, u⟩, hread, heq⟩ := Option.map_eq_some_iff.mp h
    cases heq
    obtain ⟨cache, rfl⟩ := eq_withCache_of_read hread
    exact ⟨s.walWriter, s.pendingUnsynced, cache, s.vote, s.lastPurgedLogId, _, _, rfl,
      fun _ => ⟨rfl, rfl⟩⟩
  | _ => cases plain

/-! ## Snapshot files -/

def writtenPath (s : WalRaftStorage SM) : Op SM → Option String
  | .installSnapshot info _ _ => some (snapshotPathOf s.config.snapshotDir s.groupId info)
  | .buildSnapshot builder _ => some builder.path
  | _ => none

theorem recover_files {config : WalStorageConfig} {groupId : GroupId} {nodeId : ChirpsNodeId}
    {stateMachine : SM} {now : UInt64} {sink : RealWalSink}
    (h : recover config groupId nodeId stateMachine now sink files = .ok t) : t.files = files := by
  simp only [recover] at h
  split at h
  · split at h
    · cases h
    · rename_i u hwrite
      cases h
      obtain ⟨sink', rfl, -⟩ := writeFrame_sync_ok hwrite
      rfl
  -- replay reads the files and writes none
  · obtain ⟨-, rfl⟩ := replayWal_eq_ok.mp h
    rfl

theorem files_of_perform [StateMachine SM] (h : s.perform codec op = some (ok, t)) {path : String}
    (other : s.writtenPath op ≠ some path) : t.files path = s.files path := by
  cases hplain : op.isPlain with
  | true =>
    obtain ⟨sink, pending, cache, vote, purged, state, sm, rfl, -⟩ := perform_plain h hplain
    rfl
  | false =>
    cases op with
    | installSnapshot info data outcome =>
      cases h
      have hpath : path ≠ snapshotPathOf s.config.snapshotDir s.groupId info :=
        fun heq => other (congrArg some heq.symm)
      have hwritten : ∀ {files}, s.Writes codec info data files → files path = s.files path := by
        rintro files ⟨encoded, -, rfl⟩
        exact Function.update_of_ne hpath _ _
      rcases s.installSnapshot_any codec info data outcome with
        ⟨files, sm, error, -, hfiles, -, heq⟩ | ⟨files, sm, result, u, -, -, hwrites, hwrite, heq⟩
      · rw [heq]
        rcases hfiles with rfl | hwrites
        · rfl
        · exact hwritten hwrites
      · -- the marker does not touch the files any more
        obtain ⟨sink, pending, more, hu, -⟩ :=
          (s.withRestored files sm).writeFrame_any (.record (.snapshotApplied info)) true
        rw [hwrite] at hu
        obtain rfl : u = _ := hu
        rcases heq with ⟨error, heq⟩ | ⟨-, heq⟩ <;> rw [heq] <;> exact hwritten hwrites
    | buildSnapshot builder outcome =>
      cases h
      have hpath : path ≠ builder.path := fun heq => other (congrArg some heq.symm)
      rcases buildSnapshot_files codec builder s.files outcome with
        ⟨hfiles, -⟩ | ⟨encoded, -, hfiles, -⟩
      · exact congrFun hfiles path
      · exact (congrFun hfiles path).trans (Function.update_of_ne hpath _ _)
    | recover sm now kept writeFaults syncOutcomes =>
      obtain ⟨u, hrestart, heq⟩ := Option.map_eq_some_iff.mp h
      cases heq
      obtain ⟨hkept, hrestart⟩ := Option.ite_none_right_eq_some.mp hrestart
      cases hrecover : recover s.config s.groupId s.nodeId sm now
          (.openFile (s.frames.take kept) writeFaults syncOutcomes) s.files with
      | error message => simp [hrecover, Except.toOption] at hrestart
      | ok v =>
        rw [hrecover] at hrestart
        cases hrestart
        exact congrFun (recover_files hrecover) path
    | _ => cases hplain

/-! ## Recovery at any point -/

/-- Replay will accept what a crash may leave of the WAL. -/
structure Recoverable (s : WalRaftStorage SM) : Prop where
  started : 0 < s.synced
  accepted : ∀ frame ∈ s.frames, s.Accepts frame

theorem Recoverable.of_grows {more : List WalFrame} (recoverable : s.Recoverable)
    (h : s.Grows t more) : t.Recoverable where
  started := recoverable.started.trans_le h.synced
  accepted := by
    intro frame hframe
    rw [h.frames, List.mem_append] at hframe
    rcases hframe with hold | hnew
    · exact (recoverable.accepted frame hold).mono h.config h.groupId h.files
    · exact h.accepted frame hnew

def reborn (s : WalRaftStorage SM) (stateMachine : SM) (kept : List WalFrame)
    (writeFaults : List (Option String)) (syncOutcomes : List SyncOutcome) : WalRaftStorage SM :=
  (blank s.config s.groupId s.nodeId stateMachine (.openFile kept writeFaults syncOutcomes)
    s.files).replayed kept

variable {kept : List WalFrame}

theorem recover_eq_of_accepts (nonempty : kept ≠ []) (accepted : ∀ frame ∈ kept, s.Accepts frame)
    (stateMachine : SM) (now : UInt64) (writeFaults : List (Option String))
    (syncOutcomes : List SyncOutcome) :
    recover s.config s.groupId s.nodeId stateMachine now
        (.openFile kept writeFaults syncOutcomes) s.files =
      .ok (s.reborn stateMachine kept writeFaults syncOutcomes) := by
  have hfile : (RealWalSink.openFile kept writeFaults syncOutcomes).file = kept :=
    RealWalSink.Settled.file_eq (RealWalSink.openFile_settled _ _ _)
  rw [recover, hfile, if_neg nonempty, replayWal_eq_ok]
  exact ⟨fun frame hframe => (accepted frame hframe).mono rfl rfl fun _ h => h, rfl⟩

section

variable (recoverable : s.Recoverable)
include recoverable

theorem Recoverable.recover_eq (nonempty : kept ≠ [])
    (sub : ∀ frame ∈ kept, frame ∈ s.frames) (stateMachine : SM) (now : UInt64)
    (writeFaults : List (Option String)) (syncOutcomes : List SyncOutcome) :
    recover s.config s.groupId s.nodeId stateMachine now
        (.openFile kept writeFaults syncOutcomes) s.files =
      .ok (s.reborn stateMachine kept writeFaults syncOutcomes) :=
  recover_eq_of_accepts nonempty (fun frame hframe => recoverable.accepted frame (sub frame hframe))
    stateMachine now writeFaults syncOutcomes

theorem Recoverable.take_ne_nil {kept : ℕ} (h : s.synced ≤ kept)
    (hlength : kept ≤ s.frames.length) : s.frames.take kept ≠ [] := by
  have hstarted := recoverable.started
  intro hnil
  have := congrArg List.length hnil
  rw [List.length_take, List.length_nil] at this
  omega

theorem Recoverable.restart_eq {stateMachine : SM} {now : UInt64}
    {kept : ℕ} {writeFaults : List (Option String)} {syncOutcomes : List SyncOutcome} :
    s.restart stateMachine now kept writeFaults syncOutcomes = some t ↔
      s.synced ≤ kept ∧ kept ≤ s.frames.length ∧
        t = s.reborn stateMachine (s.frames.take kept) writeFaults syncOutcomes := by
  rw [restart]
  split
  · rename_i h
    rw [recoverable.recover_eq (recoverable.take_ne_nil h.1 h.2) fun _ => List.mem_of_mem_take]
    exact ⟨fun heq => ⟨h.1, h.2, (Option.some.inj heq).symm⟩, fun heq => heq.2.2 ▸ rfl⟩
  · rename_i h
    exact ⟨nofun, fun heq => absurd ⟨heq.1, heq.2.1⟩ h⟩

theorem Recoverable.reborn (nonempty : kept ≠ [])
    (sub : ∀ frame ∈ kept, frame ∈ s.frames) (stateMachine : SM)
    (writeFaults : List (Option String)) (syncOutcomes : List SyncOutcome) :
    (s.reborn stateMachine kept writeFaults syncOutcomes).Recoverable where
  started := List.length_pos_iff.mpr nonempty
  accepted frame hframe := (recoverable.accepted frame (sub frame hframe)).mono rfl rfl fun _ h => h

theorem Recoverable.step [StateMachine SM]
    (h : s.step codec op = some t) : t.Recoverable := by
  obtain ⟨⟨ok, u⟩, hperform, rfl⟩ := Option.map_eq_some_iff.mp h
  rcases grows_perform hperform with
    ⟨more, hgrows, -⟩ | ⟨sm, now, kept, writeFaults, syncOutcomes, -, hrestart⟩
  · exact recoverable.of_grows hgrows
  · obtain ⟨hkept, hlength, rfl⟩ := recoverable.restart_eq.mp hrestart
    exact recoverable.reborn (recoverable.take_ne_nil hkept hlength)
      (fun _ => List.mem_of_mem_take) _ _ _

theorem Recoverable.run [StateMachine SM] {history : List (Op SM)}
    (reach : Library.run (WalRaftStorage.step codec) s history = some t) : t.Recoverable :=
  run_invariant (fun _ _ _ hs hstep => hs.step hstep) recoverable reach

end

end WalRaftStorage

/-- The history leads from a new storage to `s`, whatever its operations return. -/
def Visits {SM : Type*} [StateMachine SM] (codec : SnapshotCodec) (c : Creation SM)
    (history : List (Op SM)) (s : WalRaftStorage SM) : Prop :=
  ∃ created, c.storage = .ok created ∧ run (WalRaftStorage.step codec) created history = some s

theorem Creation.recoverable {SM : Type*} {c : Creation SM} {created : WalRaftStorage SM}
    (h : c.storage = .ok created) : created.Recoverable := by
  have hsound := WalRaftStorage.logSound_of_recover_new h
  have hlength := List.length_pos_iff.mpr hsound.started
  have hsettled : created.frames.length ≤ created.synced := not_lt.mp hsound.settled
  exact ⟨by omega, hsound.accepted⟩

theorem Visits.recoverable {SM : Type*} [StateMachine SM] {codec : SnapshotCodec}
    {c : Creation SM} {history : List (Op SM)} {s : WalRaftStorage SM}
    (h : Visits codec c history s) : s.Recoverable := by
  obtain ⟨created, hcreated, hrun⟩ := h
  exact (Creation.recoverable hcreated).run hrun

end Chirps.RaftStorage
