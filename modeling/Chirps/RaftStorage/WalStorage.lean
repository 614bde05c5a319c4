/-
# The WAL-backed Raft storage

`WalRaftStorage` function by function: a method that can panic gives an `Option`. The WAL is a list
of frames and the snapshot directory a function from paths to contents.
-/

import Chirps.RaftStorage.LogCache
import Chirps.RaftStorage.SnapshotFile
import Chirps.RaftStorage.WalSink

namespace Chirps.RaftStorage

/-- `StateMachine` with byte commands and responses. -/
class StateMachine (SM : Type*) where
  apply : SM → LogId → Bytes → Except String Bytes × SM
  snapshot : SM → Except String Bytes
  restore : SM → Bytes → Except String Unit × SM

/-- The state machine of the crate's own tests: it echoes commands and keeps no
state. -/
structure MockStateMachine where

instance : StateMachine MockStateMachine where
  apply sm _ command := (.ok command, sm)
  snapshot _ := .ok []
  restore sm _ := (.ok (), sm)

/-- `WalStorageConfig` without the settings of the durability coordinator. -/
structure WalStorageConfig where
  snapshotDir : String
  logCacheSize : ℕ
  fsyncInterval : ℕ
  formatVersion : UInt32
  snapshotChunkSize : ℕ

def WalStorageConfig.standard : WalStorageConfig where
  snapshotDir := "snapshot"
  logCacheSize := 1024
  fsyncInterval := 0
  formatVersion := 1
  snapshotChunkSize := 4096

inductive SnapshotCompletionKind
  | built
  | installed
  deriving DecidableEq

structure SnapshotCompletionEvent where
  groupId : GroupId
  nodeId : ChirpsNodeId
  snapshotId : String
  sizeBytes : ℕ
  digest : Bytes
  kind : SnapshotCompletionKind
  deriving DecidableEq

abbrev SnapshotFiles := String → Option Bytes

/-- `WalRaftStorage`, with the files it sees and the completion events its hook
has received. -/
structure WalRaftStorage (SM : Type*) where
  config : WalStorageConfig
  groupId : GroupId
  nodeId : ChirpsNodeId
  walWriter : RealWalSink
  vote : Option Vote
  logCache : LogCache
  pendingUnsynced : ℕ
  lastPurgedLogId : Option LogId
  lastApplied : Option LogId
  lastMembership : StoredMembership
  snapshotMeta : Option SnapshotMeta
  snapshotPath : Option String
  completions : List SnapshotCompletionEvent
  stateMachine : SM
  files : SnapshotFiles

/-- `WAL_MAGIC`, the bytes of `RWAL`. -/
def walMagic : Bytes := [82, 87, 65, 76]

/-- `snapshot_path`. -/
def snapshotPathOf (base : String) (groupId : GroupId) (info : SnapshotMeta) : String :=
  base ++ "/snapshot-" ++ toString groupId.val ++ "-" ++ info.snapshotId ++ ".alopex"

/-- How `durably_replace` ends: a failure comes before or after the rename. -/
inductive ReplaceOutcome
  | replaced
  | failed (message : String) (renamed : Bool)
  deriving DecidableEq

def durablyReplace (files : SnapshotFiles) (path : String) (bytes : Bytes) :
    ReplaceOutcome → Except String Unit × SnapshotFiles
  | .replaced => (.ok (), Function.update files path (some bytes))
  | .failed message renamed =>
    (.error message, if renamed then Function.update files path (some bytes) else files)

def appliedAfter (state : Option LogId × StoredMembership) (entry : Entry) :
    Option LogId × StoredMembership :=
  (some entry.logId,
    match entry.payload with
    | .membership m => ⟨some entry.logId, m⟩
    | _ => state.2)

namespace WalRaftStorage

variable {SM : Type*} (s : WalRaftStorage SM)

/-! ## The WAL -/

def withSink (sink : RealWalSink) (pendingUnsynced : ℕ) : WalRaftStorage SM :=
  { s with walWriter := sink, pendingUnsynced := pendingUnsynced }

def writeFrame (frame : WalFrame) (syncNow : Bool) : Except String Unit × WalRaftStorage SM :=
  match s.walWriter.append frame syncNow with
  | (.error message, sink) => (.error message, s.withSink sink s.pendingUnsynced)
  | (.ok (), sink) => (.ok (), s.withSink sink (if syncNow then 0 else s.pendingUnsynced + 1))

def syncWal : Except String Unit × WalRaftStorage SM :=
  match s.walWriter.sync with
  | (.error message, sink) => (.error message, s.withSink sink s.pendingUnsynced)
  | (.ok (), sink) => (.ok (), s.withSink sink 0)

def insertEntry (s : WalRaftStorage SM) (entry : Entry) : WalRaftStorage SM :=
  { s with logCache := s.logCache.insertEntry s.config.logCacheSize entry }

/-- What an appended entry does to the memory of the storage, live and in replay. -/
def recordEntry (entry : Entry) : WalRaftStorage SM :=
  { s with
    lastApplied := (appliedAfter (s.lastApplied, s.lastMembership) entry).1
    lastMembership := (appliedAfter (s.lastApplied, s.lastMembership) entry).2 }.insertEntry entry

def applyWalRecord : RaftWalRecord → Except String (WalRaftStorage SM)
  | .appendLog entry => .ok (s.recordEntry entry)
  | .vote vote => .ok { s with vote := some vote }
  | .snapshotApplied info =>
    let path := snapshotPathOf s.config.snapshotDir s.groupId info
    -- `!path.exists()`
    if (s.files path).isNone then
      .error ("snapshot WAL checkpoint references missing file " ++ path)
    else
      .ok { s with
        lastApplied := info.lastLogId
        lastMembership := info.lastMembership
        snapshotMeta := some info
        snapshotPath := some path }
  | .truncate logId => .ok { s with logCache := s.logCache.truncateCache logId.index }
  | .purge logId =>
    .ok { s with
      logCache := s.logCache.purgeCache logId.index
      lastPurgedLogId := some logId }

/-- The check `replay_wal` makes on a header. -/
def checkHeader (header : WalHeader) : Except String Unit :=
  if header.magic ≠ walMagic then .error "invalid wal magic"
  else if header.formatVersion ≠ s.config.formatVersion then
    .error ("wal format version mismatch: expected " ++ toString s.config.formatVersion ++
      ", got " ++ toString header.formatVersion)
  else .ok ()

/-- The loop of `replay_wal`. -/
def replayWal (s : WalRaftStorage SM) : List WalFrame → Except String (WalRaftStorage SM)
  | [] => .ok s
  | .header header :: rest =>
    match s.checkHeader header with
    | .error message => .error message
    | .ok () => s.replayWal rest
  | .record record :: rest =>
    match s.applyWalRecord record with
    | .error message => .error message
    | .ok next => next.replayWal rest

def buildHeader (now : UInt64) : WalHeader where
  magic := walMagic
  formatVersion := s.config.formatVersion
  groupId := s.groupId
  nodeId := s.nodeId
  createdAt := now
  reserved := List.replicate 40 0

/-- The storage `recover_with_sink` starts from. -/
def blank (config : WalStorageConfig) (groupId : GroupId) (nodeId : ChirpsNodeId)
    (stateMachine : SM) (sink : RealWalSink) (files : SnapshotFiles) : WalRaftStorage SM where
  config := config
  groupId := groupId
  nodeId := nodeId
  walWriter := sink
  vote := none
  logCache := .empty
  pendingUnsynced := 0
  lastPurgedLogId := none
  lastApplied := none
  lastMembership := .empty
  snapshotMeta := none
  snapshotPath := none
  completions := []
  stateMachine := stateMachine
  files := files

/-- `recover_with_sink`: an empty WAL gets a header, any other is replayed. -/
def recover (config : WalStorageConfig) (groupId : GroupId) (nodeId : ChirpsNodeId)
    (stateMachine : SM) (now : UInt64) (sink : RealWalSink) (files : SnapshotFiles) :
    Except String (WalRaftStorage SM) :=
  let s := blank config groupId nodeId stateMachine sink files
  -- `!wal_path.exists()` or a length of zero; opening the sink has created the file
  if sink.file = [] then
    match s.writeFrame (.header (s.buildHeader now)) true with
    | (.error _, _) => .error "failed to write wal header"
    | (.ok (), s) => .ok s
  else s.replayWal sink.file

/-- One record of the fold of `read_entries_from_wal`. -/
def readRecord (range : IndexRange) (entries : IndexedEntries) : WalFrame → IndexedEntries
  | .record (.appendLog entry) =>
    if range.contains entry.logId.index then entries.insert entry else entries
  | .record (.truncate logId) => entries.removeWhere fun k => decide (logId.index + 1 ≤ k)
  | .record (.purge logId) => entries.removeWhere fun k => decide (k ≤ logId.index)
  | .record (.snapshotApplied info) =>
    match info.lastLogId with
    | some logId => entries.removeWhere fun k => decide (k ≤ logId.index)
    | none => entries
  | _ => entries

def readEntriesFromWal (range : IndexRange) : List Entry :=
  ((s.walWriter.file.foldl (readRecord range) .empty).valuesIn .full).filter fun e =>
    range.contains e.logId.index

/-! ## The log -/

def lastLogId : Option LogId :=
  s.logCache.entries.last?.map Entry.logId

def getLogState : LogState where
  lastPurgedLogId := s.lastPurgedLogId
  lastLogId := s.lastLogId

/-- The loop of `try_get_log_entries`: entries of the WAL not `seen` are cached and returned. -/
def mergeWalEntries (s : WalRaftStorage SM) (seen : List UInt64) (entries : List Entry) :
    List Entry → List Entry × WalRaftStorage SM
  | [] => (entries, s)
  | entry :: rest =>
    -- `seen.insert` is false
    if entry.logId.index ∈ seen then s.mergeWalEntries seen entries rest
    else
      (s.insertEntry entry).mergeWalEntries (entry.logId.index :: seen) (entries ++ [entry]) rest

/-- `try_get_log_entries`, or `none` where `BTreeMap::range` panics. -/
def tryGetLogEntries (range : IndexRange) : Option (List Entry × WalRaftStorage SM) :=
  if range.accepted then
    let cached := s.logCache.entries.valuesIn range
    let (entries, s) := s.mergeWalEntries (cached.map fun e => e.logId.index) cached
      (s.readEntriesFromWal range)
    let entries := entries.insertionSort fun a b => a.logId.index ≤ b.logId.index
    some (entries, { s with
      logCache := entries.foldl (fun cache e => cache.touchCache e.logId.index) s.logCache })
  else none

def appendEntryWithSync (entry : Entry) (syncNow : Bool) : Except String Unit × WalRaftStorage SM :=
  match s.writeFrame (.record (.appendLog entry)) syncNow with
  | (.error message, s) => (.error message, s)
  | (.ok (), s) =>
    let s := s.recordEntry entry
    -- the cache and the applied pair are updated before this sync can fail
    if syncNow = false ∧ 0 < s.config.fsyncInterval ∧ s.config.fsyncInterval ≤ s.pendingUnsynced
    then s.syncWal
    else (.ok (), s)

/-- The loop of `append`. -/
def appendEntries (s : WalRaftStorage SM) :
    List Entry → Except String Unit × WalRaftStorage SM
  | [] => (.ok (), s)
  | entry :: rest =>
    match s.appendEntryWithSync entry false with
    | (.error message, s) => (.error message, s)
    | (.ok (), s) => s.appendEntries rest

/-- `append`, with the result it hands to the callback. -/
def append (entries : List Entry) : Except String Unit × WalRaftStorage SM :=
  if entries = [] then (.ok (), s)
  else
    match s.appendEntries entries with
    | (.error message, s) => (.error message, s)
    | (.ok (), s) =>
      -- two `if`s in the source, whose conditions exclude each other
      if s.config.fsyncInterval = 0 then s.syncWal
      else if 0 < s.pendingUnsynced then s.syncWal
      else (.ok (), s)

def truncate (s : WalRaftStorage SM) (logId : LogId) :
    Except StorageError Unit × WalRaftStorage SM :=
  match s.writeFrame (.record (.truncate logId)) true with
  | (.error message, s) => (.error ⟨.logs, .write, message⟩, s)
  | (.ok (), s) => (.ok (), { s with logCache := s.logCache.truncateCache logId.index })

def purge (s : WalRaftStorage SM) (logId : LogId) : Except StorageError Unit × WalRaftStorage SM :=
  match s.writeFrame (.record (.purge logId)) true with
  | (.error message, s) => (.error ⟨.logs, .write, message⟩, s)
  | (.ok (), s) =>
    (.ok (), { s with
      logCache := s.logCache.purgeCache logId.index
      lastPurgedLogId := some logId })

def saveVote (vote : Vote) : Except StorageError Unit × WalRaftStorage SM :=
  match s.writeFrame (.record (.vote vote)) true with
  | (.error message, s) => (.error ⟨.vote, .write, message⟩, s)
  | (.ok (), s) => (.ok (), { s with vote := some vote })

def readVote : Option Vote := s.vote

/-! ## The state machine and snapshots -/

def appliedState : Option LogId × StoredMembership :=
  (s.lastApplied, s.lastMembership)

/-- One turn of the loop of `apply`. -/
def applyEntry [StateMachine SM] (s : WalRaftStorage SM) (entry : Entry) :
    Except StorageError Bytes × WalRaftStorage SM :=
  -- set before the command runs, and not taken back when it fails
  let s := { s with lastApplied := some entry.logId }
  match entry.payload with
  | .normal command =>
    match StateMachine.apply s.stateMachine entry.logId command with
    | (.error message, sm) =>
      (.error ⟨.stateMachine, .write, message⟩, { s with stateMachine := sm })
    | (.ok response, sm) => (.ok response, { s with stateMachine := sm })
  | .membership m => (.ok [], { s with lastMembership := ⟨some entry.logId, m⟩ })
  | .blank => (.ok [], s)

def apply [StateMachine SM] (s : WalRaftStorage SM) :
    List Entry → Except StorageError (List Bytes) × WalRaftStorage SM
  | [] => (.ok [], s)
  | entry :: rest =>
    match s.applyEntry entry with
    | (.error error, s) => (.error error, s)
    | (.ok response, s) =>
      match s.apply rest with
      | (.error error, s) => (.error error, s)
      | (.ok responses, s) => (.ok (response :: responses), s)

def installSnapshot [StateMachine SM] (codec : SnapshotCodec) (s : WalRaftStorage SM)
    (info : SnapshotMeta) (data : Bytes) (outcome : ReplaceOutcome) :
    Except StorageError Unit × WalRaftStorage SM :=
  let path := snapshotPathOf s.config.snapshotDir s.groupId info
  match encodeSnapshotFile codec info data s.config.snapshotChunkSize with
  | .error message => (.error ⟨.snapshot none, .write, message⟩, s)
  | .ok encoded =>
    match durablyReplace s.files path encoded outcome with
    | (.error message, files) =>
      (.error ⟨.snapshot none, .write, message⟩, { s with files := files })
    | (.ok (), files) =>
      -- the file is in place; a failure from here on leaves it there
      let s := { s with files := files }
      match StateMachine.restore s.stateMachine data with
      | (.error message, sm) =>
        (.error ⟨.stateMachine, .write, message⟩, { s with stateMachine := sm })
      | (.ok (), sm) =>
        match { s with stateMachine := sm }.writeFrame (.record (.snapshotApplied info)) true with
        | (.error message, s) => (.error ⟨.snapshot none, .write, message⟩, s)
        | (.ok (), s) =>
          (.ok (), { s with
            snapshotMeta := some info
            snapshotPath := some path
            lastApplied := info.lastLogId
            lastMembership := info.lastMembership
            completions := s.completions ++
              [⟨s.groupId, s.nodeId, info.snapshotId, data.length, codec.sha256 data,
                .installed⟩] })

def getCurrentSnapshot (codec : SnapshotCodec) (s : WalRaftStorage SM) :
    Except StorageError (Option Snapshot) :=
  match s.snapshotMeta, s.snapshotPath with
  | some _, some path =>
    match s.files path with
    | none => .error ⟨.snapshot none, .read, "No such file or directory"⟩
    | some bytes =>
      match readSnapshotFile codec bytes with
      | .error message => .error ⟨.snapshot none, .read, message⟩
      | .ok snapshot => .ok (some snapshot)
  | _, _ => .ok none

end WalRaftStorage

structure WalSnapshotBuilder where
  info : SnapshotMeta
  data : Bytes
  path : String
  chunkSize : ℕ
  groupId : GroupId
  nodeId : ChirpsNodeId

/-- `get_snapshot_builder`, or `none` where the state machine's error panics. -/
def WalRaftStorage.getSnapshotBuilder {SM : Type*} [StateMachine SM] (s : WalRaftStorage SM)
    (now : UInt64) : Option WalSnapshotBuilder :=
  match StateMachine.snapshot s.stateMachine with
  | .error _ => none
  | .ok data =>
    let info : SnapshotMeta :=
      ⟨s.lastApplied, s.lastMembership, "snapshot-" ++ toString now⟩
    some ⟨info, data, snapshotPathOf s.config.snapshotDir s.groupId info,
      s.config.snapshotChunkSize, s.groupId, s.nodeId⟩

/-- `build_snapshot`: the result, the files and the completion event. -/
def WalSnapshotBuilder.buildSnapshot (codec : SnapshotCodec) (builder : WalSnapshotBuilder)
    (files : SnapshotFiles) (outcome : ReplaceOutcome) :
    Except StorageError Snapshot × SnapshotFiles × List SnapshotCompletionEvent :=
  match encodeSnapshotFile codec builder.info builder.data builder.chunkSize with
  | .error message => (.error ⟨.snapshot (some builder.info), .write, message⟩, files, [])
  | .ok encoded =>
    match durablyReplace files builder.path encoded outcome with
    | (.error message, files) =>
      (.error ⟨.snapshot (some builder.info), .write, message⟩, files, [])
    | (.ok (), files) =>
      (.ok ⟨builder.info, builder.data⟩, files,
        [⟨builder.groupId, builder.nodeId, builder.info.snapshotId, builder.data.length,
          codec.sha256 builder.data, .built⟩])

structure WalLogReader where
  entries : List Entry

/-- `get_log_reader`: a copy of the cache. -/
def WalRaftStorage.getLogReader {SM : Type*} (s : WalRaftStorage SM) : WalLogReader :=
  ⟨s.logCache.entries.valuesIn .full⟩

def WalLogReader.tryGetLogEntries (reader : WalLogReader) (range : IndexRange) : List Entry :=
  reader.entries.filter fun e => range.contains e.logId.index

end Chirps.RaftStorage
