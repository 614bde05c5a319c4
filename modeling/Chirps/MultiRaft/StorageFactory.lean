/-
# Creating the storage of a group

`begin_storage` opens or recovers the storage of a group and `create_group_inner` starts a Raft node
on it. When anything fails, both directories are removed.
-/

import Chirps.RaftStorage.WalFile

namespace Chirps.MultiRaft

open Chirps.Library Chirps.RaftStorage
open Function (update update_self)

/-! ## Names and errors -/

def hexDigit (n : ℕ) : Char :=
  if n < 10 then Char.ofNat ('0'.toNat + n) else Char.ofNat ('a'.toNat + (n - 10))

def toHex : ℕ → ℕ → List Char
  | 0, _ => []
  | width + 1, n => toHex width (n / 16) ++ [hexDigit (n % 16)]

def groupNamespace (groupId : GroupId) : String :=
  "groups/" ++ String.ofList (toHex 16 groupId.val.toNat)

inductive MultiRaftError
  | groupAlreadyExists (groupId : GroupId)
  | groupLimitExceeded (limit : ℕ)
  | storageCreation (groupId : GroupId) (reason : String)
  | nodeInitialization (groupId : GroupId) (reason : String)

/-- The `Display` of `MultiRaftError`, with the `Debug` of a group id inside. -/
def MultiRaftError.display : MultiRaftError → String
  | .groupAlreadyExists groupId => s!"group GroupId({groupId.val}) already exists"
  | .groupLimitExceeded limit => s!"the configured Raft group limit ({limit}) has been reached"
  | .storageCreation groupId reason =>
    s!"storage creation failed for group GroupId({groupId.val}): {reason}"
  | .nodeInitialization groupId reason =>
    s!"Raft node initialization failed for group GroupId({groupId.val}): {reason}"

/-! ## The disk -/

abbrev Disk := String → Option Bytes

/-- `wal_path`. -/
def walPathOf (base : String) (groupId : GroupId) (nodeId : ChirpsNodeId) : String :=
  base ++ "/raft-" ++ toString groupId.val ++ "-" ++ toString nodeId ++ ".wal"

def under (dir path : String) : Bool := (dir ++ "/").toList.isPrefixOf path.toList

inductive IoErrorKind
  | notFound
  | other
  deriving DecidableEq

structure IoError where
  kind : IoErrorKind
  message : String

/-- What `remove_dir_all` does. A call that fails has removed all but what it
`spared`. -/
inductive RemoveAnswer
  | removed
  | failed (error : IoError) (spared : String → Bool)

namespace RemoveAnswer

def error? : RemoveAnswer → Option IoError
  | .removed => none
  | .failed error _ => if error.kind = .notFound then none else some error

def takes : RemoveAnswer → String → Bool
  | .removed, _ => true
  | .failed _ spared, path => !spared path

end RemoveAnswer

def removeDirAll (dir : String) (disk : Disk) : RemoveAnswer → Except IoError Unit × Disk
  | .removed => (.ok (), fun path => if under dir path then none else disk path)
  | .failed error spared =>
    (.error error, fun path => if under dir path && !spared path then none else disk path)

def removeDirIfPresent (dir : String) (disk : Disk) (answer : RemoveAnswer) :
    Except IoError Unit × Disk :=
  match removeDirAll dir disk answer with
  | (.ok (), disk) => (.ok (), disk)
  -- a directory that is not there counts as removed
  | (.error error, disk) => if error.kind = .notFound then (.ok (), disk) else (.error error, disk)

def removeGroupDirs (walDir snapshotDir : String) (disk : Disk)
    (answers : RemoveAnswer × RemoveAnswer) : Except IoError Unit × Disk :=
  match removeDirIfPresent walDir disk answers.1 with
  | (.error error, disk) => (.error error, disk)
  | (.ok (), disk) =>
    -- the two may be configured as one directory
    if snapshotDir ≠ walDir then removeDirIfPresent snapshotDir disk answers.2 else (.ok (), disk)

def removes (walDir snapshotDir : String) (answers : RemoveAnswer × RemoveAnswer)
    (path : String) : Bool :=
  under walDir path && answers.1.takes path ||
    answers.1.error?.isNone && decide (snapshotDir ≠ walDir) &&
      (under snapshotDir path && answers.2.takes path)

theorem removeDirIfPresent_eq (dir : String) (disk : Disk) (answer : RemoveAnswer) :
    removeDirIfPresent dir disk answer =
      (match answer.error? with
        | none => .ok ()
        | some error => .error error,
      fun path => if under dir path && answer.takes path then none else disk path) := by
  rcases answer with _ | ⟨⟨_ | _, message⟩, spared⟩ <;>
    simp [removeDirIfPresent, removeDirAll, RemoveAnswer.error?, RemoveAnswer.takes]

theorem removeGroupDirs_disk (walDir snapshotDir : String) (disk : Disk)
    (answers : RemoveAnswer × RemoveAnswer) (path : String) :
    (removeGroupDirs walDir snapshotDir disk answers).2 path =
      if removes walDir snapshotDir answers path then none else disk path := by
  rw [removeGroupDirs, removeDirIfPresent_eq]
  cases herror : answers.1.error? with
  | some error => simp [removes, herror]
  | none =>
    by_cases hdirs : snapshotDir = walDir
    · simp [removes, herror, hdirs]
    · simp only [ne_eq, hdirs, not_false_eq_true, if_true, removeDirIfPresent_eq, removes, herror,
        Option.isNone_none, decide_true, Bool.true_and]
      cases under walDir path && answers.1.takes path <;>
        cases under snapshotDir path && answers.2.takes path <;> rfl

theorem removes_of_removed {walDir snapshotDir path : String}
    (h : under walDir path = true ∨ under snapshotDir path = true) :
    removes walDir snapshotDir (.removed, .removed) path = true := by
  by_cases hdirs : snapshotDir = walDir
  · subst hdirs
    simp [removes, RemoveAnswer.takes, h.elim id id]
  · rcases h with h | h <;> simp [removes, RemoveAnswer.takes, RemoveAnswer.error?, h, hdirs]

/-! ## Storage transactions -/

/-- `WalRaftStorageFactory`: the configuration with the base directories of all
groups. -/
structure WalRaftStorageFactory where
  baseConfig : WalStorageConfig
  walDir : String
  nodeId : ChirpsNodeId

namespace WalRaftStorageFactory

def groupWalDir (factory : WalRaftStorageFactory) (groupId : GroupId) : String :=
  factory.walDir ++ "/" ++ groupNamespace groupId

def groupSnapshotDir (factory : WalRaftStorageFactory) (groupId : GroupId) : String :=
  factory.baseConfig.snapshotDir ++ "/" ++ groupNamespace groupId

def groupWalPath (factory : WalRaftStorageFactory) (groupId : GroupId) : String :=
  walPathOf (factory.groupWalDir groupId) groupId factory.nodeId

end WalRaftStorageFactory

structure OpenAnswers where
  walDirError : Option String
  snapshotDirError : Option String
  openError : Option String
  now : UInt64
  writeFaults : List (Option String)
  syncOutcomes : List SyncOutcome

/-- `StorageTransaction`, with the path of the WAL file and what the file held when it
was opened. -/
structure StorageTransaction (SM : Type*) where
  groupId : GroupId
  walDir : String
  snapshotDir : String
  storage : WalRaftStorage SM
  walPath : String
  opened : Bytes
  openedFrames : ℕ

variable {SM : Type*}

/-- The disk once the storage is `s`: what has left the buffer stands behind what the WAL held. -/
def StorageTransaction.diskAt (codec : WalCodec) (transaction : StorageTransaction SM)
    (s : WalRaftStorage SM) : Disk :=
  update s.files transaction.walPath
    (some (transaction.opened ++ codec.encodeFrames (s.file.drop transaction.openedFrames)))

namespace WalRaftStorageFactory

variable (codec : WalCodec) (factory : WalRaftStorageFactory)

def groupConfig (groupId : GroupId) : WalStorageConfig :=
  { factory.baseConfig with snapshotDir := factory.groupSnapshotDir groupId }

/-- A new WAL gets its header, as much of it as can be written. -/
def recoverWithCoordinator (groupId : GroupId) (stateMachine : SM) (answers : OpenAnswers)
    (disk : Disk) : Except String (StorageTransaction SM) × Disk :=
  match answers.walDirError, answers.snapshotDirError, answers.openError with
  | some message, _, _ => (.error message, disk)
  | none, some message, _ => (.error message, disk)
  | none, none, some message => (.error message, disk)
  | none, none, none =>
    let path := factory.groupWalPath groupId
    let bytes := (disk path).getD []
    let disk := update disk path (some bytes)
    let config := factory.groupConfig groupId
    match WalRaftStorage.recoverFile codec config groupId factory.nodeId stateMachine answers.now
        answers.writeFaults answers.syncOutcomes bytes disk with
    -- an existing WAL that is rejected is not written to; a new one has part of its header
    | .error message =>
      let blank := WalRaftStorage.blank config groupId factory.nodeId stateMachine
        (.openFile [] answers.writeFaults answers.syncOutcomes) disk
      let failed := (blank.writeFrame (.header (blank.buildHeader answers.now)) true).2
      (.error message,
        if bytes = [] then update disk path (some (codec.encodeFrames failed.file))
        else disk)
    | .ok storage =>
      let transaction : StorageTransaction SM :=
        { groupId := groupId
          walDir := factory.groupWalDir groupId
          snapshotDir := factory.groupSnapshotDir groupId
          storage := storage
          walPath := path
          opened := bytes
          openedFrames := if bytes = [] then 0 else storage.frames.length }
      (.ok transaction, transaction.diskAt codec storage)

def beginStorage (groupId : GroupId) (stateMachine : SM) (answers : OpenAnswers)
    (cleanup : RemoveAnswer × RemoveAnswer) (disk : Disk) :
    Except MultiRaftError (StorageTransaction SM) × Disk :=
  match factory.recoverWithCoordinator codec groupId stateMachine answers disk with
  | (.ok transaction, disk) => (.ok transaction, disk)
  -- the cleanup does not ask whether this call has created the directories
  | (.error message, disk) =>
    match removeGroupDirs (factory.groupWalDir groupId) (factory.groupSnapshotDir groupId) disk
        cleanup with
    | (.ok (), disk) => (.error (.storageCreation groupId message), disk)
    | (.error error, disk) =>
      (.error (.storageCreation groupId
        s!"{message}; partial-state cleanup failed: {error.message}"), disk)

end WalRaftStorageFactory

def StorageTransaction.abort (transaction : StorageTransaction SM)
    (cleanup : RemoveAnswer × RemoveAnswer) (disk : Disk) : Except MultiRaftError Unit × Disk :=
  match removeGroupDirs transaction.walDir transaction.snapshotDir disk cleanup with
  | (.ok (), disk) => (.ok (), disk)
  | (.error error, disk) =>
    (.error (.storageCreation transaction.groupId
      s!"partial-state cleanup failed: {error.message}"), disk)

/-! ## The Raft node on a storage -/

/-- The operation goes on with the storage and overwrites no file. -/
def Adds (s : WalRaftStorage SM) (op : Op SM) : Prop :=
  (∀ sm now kept writeFaults syncOutcomes,
    op ≠ .recover sm now kept writeFaults syncOutcomes) ∧
  ∀ path, s.writtenPath op = some path → s.files path = none

def Acts [StateMachine SM] (codec : SnapshotCodec) (s t : WalRaftStorage SM) : Prop :=
  ∃ ops, run (WalRaftStorage.step codec) s ops = some t ∧
    Along (WalRaftStorage.step codec) Adds s ops

theorem Acts.refl [StateMachine SM] (codec : SnapshotCodec) (s : WalRaftStorage SM) :
    Acts codec s s := ⟨[], rfl, trivial⟩

variable {codec : SnapshotCodec} {s t : WalRaftStorage SM}

theorem Acts.trans [StateMachine SM] {u : WalRaftStorage SM} (h : Acts codec s t)
    (h' : Acts codec t u) : Acts codec s u := by
  obtain ⟨ops, hrun, hadds⟩ := h
  obtain ⟨more, hrun', hadds'⟩ := h'
  exact ⟨ops ++ more, run_append_eq_some.mpr ⟨t, hrun, hrun'⟩,
    (along_append hrun).mpr ⟨hadds, hadds'⟩⟩

/-- `RaftNode` may fail anywhere, changes the storage by its operations only, and does not
initialize a group that has a log or a vote. -/
structure RaftNode (codec : SnapshotCodec) (SM : Type*) [StateMachine SM] where
  new : WalRaftStorage SM → Except String Unit × WalRaftStorage SM
  initializeWith : List ChirpsNodeId → WalRaftStorage SM → Except String Unit × WalRaftStorage SM
  shutdown : WalRaftStorage SM → Except String Unit × WalRaftStorage SM
  acts_new : ∀ s, Acts codec s (new s).2
  acts_initializeWith : ∀ members s, Acts codec s (initializeWith members s).2
  acts_shutdown : ∀ s, Acts codec s (shutdown s).2
  refuses_started : ∀ members s,
    s.getLogState.lastLogId.isSome = true ∨ s.readVote.isSome = true →
      ∃ message, (initializeWith members s).1 = .error message

structure Continues (s t : WalRaftStorage SM) : Prop where
  frames : s.frames <+: t.frames
  synced : s.synced ≤ t.synced
  files : ∀ path bytes, s.files path = some bytes → t.files path = some bytes

theorem Continues.refl (s : WalRaftStorage SM) : Continues s s :=
  ⟨List.prefix_rfl, le_rfl, fun _ _ h => h⟩

theorem Continues.trans {u : WalRaftStorage SM} (h : Continues s t) (h' : Continues t u) :
    Continues s u :=
  ⟨h.frames.trans h'.frames, h.synced.trans h'.synced,
    fun path bytes hfile => h'.files path bytes (h.files path bytes hfile)⟩

theorem continues_step [StateMachine SM] {op : Op SM} (adds : Adds s op)
    (h : s.step codec op = some t) : Continues s t := by
  obtain ⟨⟨ok, u⟩, hperform, rfl⟩ := Option.map_eq_some_iff.mp h
  rcases WalRaftStorage.grows_perform hperform with
    ⟨more, hgrows, -⟩ | ⟨sm, now, kept, writeFaults, syncOutcomes, hop, -⟩
  · refine ⟨⟨more, hgrows.frames.symm⟩, hgrows.synced, fun path bytes hfile => ?_⟩
    rw [WalRaftStorage.files_of_perform hperform, hfile]
    -- the file is there, so the operation does not write to it
    intro hwritten
    rw [adds.2 path hwritten] at hfile
    cases hfile
  · exact absurd hop (adds.1 sm now kept writeFaults syncOutcomes)

theorem Acts.continues [StateMachine SM] (h : Acts codec s t) : Continues s t := by
  obtain ⟨ops, hrun, hadds⟩ := h
  exact run_invariant_of_along (I := Continues s)
    (fun u op next hu hop hstep => hu.trans (continues_step hop hstep)) (.refl s) hadds hrun

/-! ## The manager -/

structure MultiRaftManager where
  factory : WalRaftStorageFactory
  maxGroups : ℕ
  groups : List GroupId

structure CreateAnswers where
  opening : OpenAnswers
  cleanup : RemoveAnswer × RemoveAnswer

def nodeInitializationError (groupId : GroupId) (error : String)
    (shutdown : Except String Unit) (cleanup : Except MultiRaftError Unit) : MultiRaftError :=
  .nodeInitialization groupId (error ++
    (match shutdown with
      | .ok () => ""
      | .error message => s!"; node rollback failed: {message}") ++
    match cleanup with
      | .ok () => ""
      | .error error => s!"; storage rollback failed: {error.display}")

namespace MultiRaftManager

variable [StateMachine SM] {snapshotCodec : SnapshotCodec} (codec : WalCodec)
  (node : RaftNode snapshotCodec SM) (manager : MultiRaftManager)

/-- `create_group_inner` behind `begin_storage`, with the rollback. -/
def startNode (transaction : StorageTransaction SM) (initialMembers : Option (List ChirpsNodeId))
    (cleanup : RemoveAnswer × RemoveAnswer) : Except MultiRaftError Unit × Disk :=
  match node.new transaction.storage with
  | (.error error, s) =>
    let (rollback, disk) := transaction.abort cleanup (transaction.diskAt codec s)
    (.error (nodeInitializationError transaction.groupId error (.ok ()) rollback), disk)
  | (.ok (), s) =>
    match initialMembers with
    -- a joining member waits for a seed node
    | none => (.ok (), transaction.diskAt codec s)
    | some members =>
      match node.initializeWith members s with
      | (.ok (), s) => (.ok (), transaction.diskAt codec s)
      | (.error error, s) =>
        -- the shutdown comes first, and its failure does not stop the rollback
        let (stopped, s) := node.shutdown s
        let (rollback, disk) := transaction.abort cleanup (transaction.diskAt codec s)
        (.error (nodeInitializationError transaction.groupId error stopped rollback), disk)

def createGroupInner (groupId : GroupId) (initialMembers : Option (List ChirpsNodeId))
    (stateMachine : SM) (answers : CreateAnswers) (disk : Disk) :
    Except MultiRaftError Unit × MultiRaftManager × Disk :=
  if groupId ∈ manager.groups then (.error (.groupAlreadyExists groupId), manager, disk)
  else if manager.maxGroups ≤ manager.groups.length then
    (.error (.groupLimitExceeded manager.maxGroups), manager, disk)
  else
    match manager.factory.beginStorage codec groupId stateMachine answers.opening answers.cleanup
        disk with
    | (.error error, disk) => (.error error, manager, disk)
    | (.ok transaction, _) =>
      match startNode codec node transaction initialMembers answers.cleanup with
      | (.error error, disk) => (.error error, manager, disk)
      | (.ok (), disk) => (.ok (), { manager with groups := groupId :: manager.groups }, disk)

def createGroup (groupId : GroupId) (initialMembers : List ChirpsNodeId) (stateMachine : SM)
    (answers : CreateAnswers) (disk : Disk) :
    Except MultiRaftError Unit × MultiRaftManager × Disk :=
  manager.createGroupInner codec node groupId (some initialMembers) stateMachine answers disk

def createGroupUninitialized (groupId : GroupId) (stateMachine : SM) (answers : CreateAnswers)
    (disk : Disk) : Except MultiRaftError Unit × MultiRaftManager × Disk :=
  manager.createGroupInner codec node groupId none stateMachine answers disk

end MultiRaftManager

/-! ## What a failed creation leaves -/

/-- Every file is still there with its content. Only the WAL may have grown. -/
def Keeps (walPath : String) (before after : Disk) : Prop :=
  ∀ path bytes, before path = some bytes →
    ∃ more, after path = some (bytes ++ more) ∧ (path ≠ walPath → more = [])

theorem Keeps.refl (walPath : String) (disk : Disk) : Keeps walPath disk disk :=
  fun _ bytes h => ⟨[], by rw [List.append_nil, h], fun _ => rfl⟩

theorem keeps_update {walPath : String} {before after : Disk} {wal : Bytes}
    (others : ∀ path bytes, path ≠ walPath → before path = some bytes → after path = some bytes)
    (continued : (before walPath).getD [] <+: wal) :
    Keeps walPath before (update after walPath (some wal)) := by
  intro path bytes hbytes
  by_cases hpath : path = walPath
  · subst hpath
    obtain ⟨more, rfl⟩ := continued
    exact ⟨more, by rw [update_self, hbytes, Option.getD_some], fun h => absurd rfl h⟩
  · exact ⟨[], by rw [Function.update_of_ne hpath, others path bytes hpath hbytes,
      List.append_nil], fun _ => rfl⟩

/-- The cleanup removes no file that was there before. -/
def Spares (factory : WalRaftStorageFactory) (groupId : GroupId)
    (cleanup : RemoveAnswer × RemoveAnswer) (disk : Disk) : Prop :=
  ∀ path, (disk path).isSome = true →
    removes (factory.groupWalDir groupId) (factory.groupSnapshotDir groupId) cleanup path = false

theorem spares_of_removed_iff (factory : WalRaftStorageFactory) (groupId : GroupId) (disk : Disk) :
    Spares factory groupId (.removed, .removed) disk ↔
      ∀ path, under (factory.groupWalDir groupId) path = true ∨
        under (factory.groupSnapshotDir groupId) path = true → disk path = none := by
  constructor
  · intro spares path hunder
    by_contra hsome
    have hkept := spares path (Option.isSome_iff_ne_none.mpr hsome)
    rw [removes_of_removed hunder] at hkept
    cases hkept
  · intro empty path hsome
    by_contra hremoved
    have hunder : under (factory.groupWalDir groupId) path = true ∨
        under (factory.groupSnapshotDir groupId) path = true := by
      simp only [removes, Bool.not_eq_false, Bool.or_eq_true, Bool.and_eq_true] at hremoved
      exact hremoved.imp And.left fun h => h.2.1
    rw [empty path hunder] at hsome
    cases hsome

variable {disk : Disk}

theorem keeps_removeGroupDirs_iff (factory : WalRaftStorageFactory) (groupId : GroupId)
    {walPath : String} {mid : Disk} (keeps : Keeps walPath disk mid)
    (cleanup : RemoveAnswer × RemoveAnswer) :
    Keeps walPath disk (removeGroupDirs (factory.groupWalDir groupId)
        (factory.groupSnapshotDir groupId) mid cleanup).2 ↔
      Spares factory groupId cleanup disk := by
  constructor
  · intro kept path hsome
    obtain ⟨bytes, hbytes⟩ := Option.isSome_iff_exists.mp hsome
    obtain ⟨more, hafter, -⟩ := kept path bytes hbytes
    rw [removeGroupDirs_disk] at hafter
    by_contra hremoved
    rw [if_pos (by simpa using hremoved)] at hafter
    cases hafter
  · intro spares path bytes hbytes
    have hspared := spares path (by rw [hbytes]; rfl)
    rw [removeGroupDirs_disk, hspared]
    exact keeps path bytes hbytes

structure StorageTransaction.BegunOn (transaction : StorageTransaction SM)
    (factory : WalRaftStorageFactory) (groupId : GroupId) (disk : Disk) : Prop where
  groupId_eq : transaction.groupId = groupId
  walDir_eq : transaction.walDir = factory.groupWalDir groupId
  snapshotDir_eq : transaction.snapshotDir = factory.groupSnapshotDir groupId
  walPath_eq : transaction.walPath = factory.groupWalPath groupId
  opened_eq : transaction.opened = (disk transaction.walPath).getD []
  files_eq : transaction.storage.files =
    update disk transaction.walPath (some transaction.opened)

variable {transaction : StorageTransaction SM}

theorem StorageTransaction.BegunOn.keeps_diskAt {factory : WalRaftStorageFactory}
    {groupId : GroupId} (begun : transaction.BegunOn factory groupId disk) (codec : WalCodec)
    (h : Continues transaction.storage s) :
    Keeps (factory.groupWalPath groupId) disk (transaction.diskAt codec s) := by
  rw [diskAt, begun.opened_eq, ← begun.walPath_eq]
  refine keeps_update (fun path bytes hpath hbytes => h.files path bytes ?_)
    (List.prefix_append _ _)
  rw [begun.files_eq, Function.update_of_ne hpath, hbytes]

namespace WalRaftStorageFactory

variable {codec : WalCodec} {factory : WalRaftStorageFactory} {groupId : GroupId}
  {stateMachine : SM} {answers : OpenAnswers} {cleanup : RemoveAnswer × RemoveAnswer}
  {disk after : Disk}

theorem keeps_of_recover_error {message : String}
    (h : factory.recoverWithCoordinator codec groupId stateMachine answers disk =
      (.error message, after)) : Keeps (factory.groupWalPath groupId) disk after := by
  rw [recoverWithCoordinator] at h
  split at h
  · exact (Prod.mk.inj h).2 ▸ .refl _ disk
  · exact (Prod.mk.inj h).2 ▸ .refl _ disk
  · exact (Prod.mk.inj h).2 ▸ .refl _ disk
  -- the file has been opened: `create(true)` adds an empty one, and changes no other
  · simp only at h
    split at h
    · cases h
      split
      · -- a new or empty WAL with what was written of its header
        rename_i hempty
        rw [Function.update_idem]
        exact keeps_update (fun _ _ _ h => h) (by rw [hempty]; exact List.nil_prefix)
      · exact keeps_update (fun _ _ _ h => h) List.prefix_rfl
    · cases (Prod.mk.inj h).1

variable {transaction : StorageTransaction SM}

theorem recover_ok_eq (h : factory.recoverWithCoordinator codec groupId stateMachine answers disk =
      (.ok transaction, after)) {bytes : Bytes}
    (hbytes : (disk (factory.groupWalPath groupId)).getD [] = bytes) :
    ∃ storage,
      WalRaftStorage.recoverFile codec (factory.groupConfig groupId) groupId factory.nodeId
        stateMachine answers.now answers.writeFaults answers.syncOutcomes bytes
        (update disk (factory.groupWalPath groupId) (some bytes)) = .ok storage ∧
      transaction = ⟨groupId, factory.groupWalDir groupId, factory.groupSnapshotDir groupId,
        storage, factory.groupWalPath groupId, bytes,
        if bytes = [] then 0 else storage.frames.length⟩ := by
  subst hbytes
  rw [recoverWithCoordinator] at h
  split at h
  · cases (Prod.mk.inj h).1
  · cases (Prod.mk.inj h).1
  · cases (Prod.mk.inj h).1
  · simp only at h
    split at h
    · cases (Prod.mk.inj h).1
    · rename_i storage hrecover
      exact ⟨storage, hrecover, (Except.ok.inj (Prod.mk.inj h).1).symm⟩

theorem begunOn_of_recover_ok
    (h : factory.recoverWithCoordinator codec groupId stateMachine answers disk =
      (.ok transaction, after)) : transaction.BegunOn factory groupId disk := by
  obtain ⟨storage, hrecover, rfl⟩ := recover_ok_eq h rfl
  exact ⟨rfl, rfl, rfl, rfl, rfl, WalRaftStorage.recoverFile_files hrecover⟩

theorem keeps_of_beginStorage_error_iff {error : MultiRaftError}
    (h : factory.beginStorage codec groupId stateMachine answers cleanup disk =
      (.error error, after)) :
    Keeps (factory.groupWalPath groupId) disk after ↔ Spares factory groupId cleanup disk := by
  rw [beginStorage] at h
  rcases hrecover : factory.recoverWithCoordinator codec groupId stateMachine answers disk with
    ⟨message | transaction, mid⟩
  · have hkeeps := keeps_removeGroupDirs_iff factory groupId (keeps_of_recover_error hrecover)
      cleanup
    rw [hrecover] at h
    simp only at h
    split at h <;>
    · rename_i hcleanup
      cases h
      rwa [hcleanup] at hkeeps
  · rw [hrecover] at h
    cases (Prod.mk.inj h).1

theorem begunOn_of_beginStorage_ok
    (h : factory.beginStorage codec groupId stateMachine answers cleanup disk =
      (.ok transaction, after)) : transaction.BegunOn factory groupId disk := by
  rw [beginStorage] at h
  rcases hrecover : factory.recoverWithCoordinator codec groupId stateMachine answers disk with
    ⟨message | begun, mid⟩
  · rw [hrecover] at h
    simp only at h
    split at h <;> cases (Prod.mk.inj h).1
  · rw [hrecover] at h
    obtain rfl := Except.ok.inj (Prod.mk.inj h).1
    exact begunOn_of_recover_ok hrecover

end WalRaftStorageFactory

namespace MultiRaftManager

variable [StateMachine SM] {snapshotCodec : SnapshotCodec} {codec : WalCodec}
  {node : RaftNode snapshotCodec SM} {manager : MultiRaftManager} {groupId : GroupId}
  {initialMembers : Option (List ChirpsNodeId)} {stateMachine : SM} {disk after : Disk}

theorem startNode_error {transaction : StorageTransaction SM} {factory : WalRaftStorageFactory}
    (begun : transaction.BegunOn factory groupId disk) {cleanup : RemoveAnswer × RemoveAnswer}
    {error : MultiRaftError}
    (h : startNode codec node transaction initialMembers cleanup = (.error error, after)) :
    ∃ mid, Keeps (factory.groupWalPath groupId) disk mid ∧
      after = (removeGroupDirs (factory.groupWalDir groupId) (factory.groupSnapshotDir groupId) mid
        cleanup).2 := by
  -- both rollbacks end in the same cleanup, whatever the node has done to the storage
  have habort : ∀ s, (transaction.abort cleanup (transaction.diskAt codec s)).2 =
      (removeGroupDirs (factory.groupWalDir groupId) (factory.groupSnapshotDir groupId)
        (transaction.diskAt codec s) cleanup).2 := by
    intro s
    rw [StorageTransaction.abort, begun.walDir_eq, begun.snapshotDir_eq]
    split <;> rename_i hcleanup <;> rw [hcleanup]
  have hnew := node.acts_new transaction.storage
  rw [startNode] at h
  rcases hnode : node.new transaction.storage with ⟨message | ⟨⟩, s⟩ <;>
    simp only [hnode] at h hnew
  · cases h
    exact ⟨_, begun.keeps_diskAt codec hnew.continues, habort s⟩
  · cases initialMembers with
    | none => cases (Prod.mk.inj h).1
    | some members =>
      have hinit := node.acts_initializeWith members s
      simp only at h
      rcases hmembers : node.initializeWith members s with ⟨message | ⟨⟩, t⟩ <;>
        simp only [hmembers] at h hinit
      · cases h
        have hall := (hnew.trans hinit).trans (node.acts_shutdown t)
        exact ⟨_, begun.keeps_diskAt codec hall.continues, habort _⟩
      · cases (Prod.mk.inj h).1

theorem keeps_of_createGroupInner_error_iff {answers : CreateAnswers} {error : MultiRaftError}
    {manager' : MultiRaftManager}
    (h : manager.createGroupInner codec node groupId initialMembers stateMachine answers disk =
      (.error error, manager', after)) :
    Keeps (manager.factory.groupWalPath groupId) disk after ↔
      (groupId ∈ manager.groups ∨ manager.maxGroups ≤ manager.groups.length) ∨
        Spares manager.factory groupId answers.cleanup disk := by
  rw [createGroupInner] at h
  split_ifs at h with hexists hlimit
  · cases h
    exact iff_of_true (.refl _ disk) (.inl (.inl hexists))
  · cases h
    exact iff_of_true (.refl _ disk) (.inl (.inr hlimit))
  · have hopen : ¬ (groupId ∈ manager.groups ∨ manager.maxGroups ≤ manager.groups.length) :=
      not_or.mpr ⟨hexists, hlimit⟩
    rw [or_iff_right hopen]
    rcases hbegin : manager.factory.beginStorage codec groupId stateMachine answers.opening
      answers.cleanup disk with ⟨begun | transaction, mid⟩ <;> simp only [hbegin] at h
    · cases h
      exact WalRaftStorageFactory.keeps_of_beginStorage_error_iff hbegin
    · rcases hstart : startNode codec node transaction initialMembers answers.cleanup with
        ⟨failed | ⟨⟩, last⟩ <;> simp only [hstart] at h
      · cases h
        obtain ⟨kept, hkeeps, rfl⟩ :=
          startNode_error (WalRaftStorageFactory.begunOn_of_beginStorage_ok hbegin) hstart
        exact keeps_removeGroupDirs_iff _ _ hkeeps answers.cleanup
      · cases (Prod.mk.inj h).1

end MultiRaftManager

/-- When creating a group fails, all files are kept exactly when the call was refused before the
storage was opened, or the cleanup removes none of them. -/
theorem failed_creation_keeps_files_iff [StateMachine SM] (codec : WalCodec)
    {snapshotCodec : SnapshotCodec} (node : RaftNode snapshotCodec SM)
    (manager : MultiRaftManager) (groupId : GroupId) (stateMachine : SM)
    (answers : CreateAnswers) (disk : Disk) :
    (∀ error after, manager.factory.beginStorage codec groupId stateMachine answers.opening
        answers.cleanup disk = (.error error, after) →
      (Keeps (manager.factory.groupWalPath groupId) disk after ↔
        Spares manager.factory groupId answers.cleanup disk)) ∧
    (∀ initialMembers error manager' after, manager.createGroup codec node groupId initialMembers
        stateMachine answers disk = (.error error, manager', after) →
      (Keeps (manager.factory.groupWalPath groupId) disk after ↔
        (groupId ∈ manager.groups ∨ manager.maxGroups ≤ manager.groups.length) ∨
          Spares manager.factory groupId answers.cleanup disk)) ∧
    (∀ error manager' after, manager.createGroupUninitialized codec node groupId stateMachine
        answers disk = (.error error, manager', after) →
      (Keeps (manager.factory.groupWalPath groupId) disk after ↔
        (groupId ∈ manager.groups ∨ manager.maxGroups ≤ manager.groups.length) ∨
          Spares manager.factory groupId answers.cleanup disk)) ∧
    (answers.cleanup = (.removed, .removed) →
      (Spares manager.factory groupId answers.cleanup disk ↔
        ∀ path, under (manager.factory.groupWalDir groupId) path = true ∨
          under (manager.factory.groupSnapshotDir groupId) path = true → disk path = none)) :=
  ⟨fun _ _ h => WalRaftStorageFactory.keeps_of_beginStorage_error_iff h,
    fun _ _ _ _ h => MultiRaftManager.keeps_of_createGroupInner_error_iff h,
    fun _ _ _ h => MultiRaftManager.keeps_of_createGroupInner_error_iff h,
    fun removed => removed ▸ spares_of_removed_iff manager.factory groupId disk⟩

/-! ## A node that is started again -/

def votedCodec : WalCodec where
  serialize
    | .header _ => [0]
    | .record _ => [1]
  deserialize bytes :=
    if bytes = [0] then .ok (some (.header ⟨walMagic, 1, ⟨1⟩, 1, 0, List.replicate 40 0⟩))
    else .ok (some (.record (.vote ⟨⟨1, 1⟩, false⟩)))
  crc32 bytes := UInt32.ofNat bytes.length

def votedWal : Bytes :=
  votedCodec.encodeFrames [.header ⟨walMagic, 1, ⟨1⟩, 1, 0, List.replicate 40 0⟩,
    .record (.vote ⟨⟨1, 1⟩, false⟩)]

def quietNode (codec : SnapshotCodec) : RaftNode codec MockStateMachine where
  new s := (.ok (), s)
  initializeWith _ s :=
    if s.getLogState.lastLogId.isSome || s.readVote.isSome then (.error "not allowed", s)
    else (.ok (), s)
  shutdown s := (.ok (), s)
  acts_new s := .refl codec s
  acts_initializeWith members s := by
    split <;> exact .refl codec s
  acts_shutdown s := .refl codec s
  refuses_started members s started := by
    rw [if_pos (by simpa using started)]
    exact ⟨_, rfl⟩

def smallManager : MultiRaftManager := ⟨⟨.standard, "wal", 1⟩, 100, []⟩

def quietAnswers : CreateAnswers := ⟨⟨none, none, none, 0, [], []⟩, .removed, .removed⟩

def groupDisk (wal : Bytes) : Disk := fun path =>
  if path = smallManager.factory.groupWalPath ⟨1⟩ then some wal
  else if path = smallManager.factory.groupSnapshotDir ⟨1⟩ ++ "/snapshot-1-a.alopex" then some [7]
  else none

/-- After a crash inside a record `begin_storage` removes the WAL and the snapshot, and after a
clean restart so does `create_group`. -/
theorem failed_creation_removes_group :
    (∃ error after, smallManager.factory.beginStorage votedCodec ⟨1⟩ MockStateMachine.mk
        quietAnswers.opening quietAnswers.cleanup (groupDisk (votedWal ++ [1, 0, 0])) =
          (.error error, after) ∧
      after (smallManager.factory.groupWalPath ⟨1⟩) = none ∧
      after (smallManager.factory.groupSnapshotDir ⟨1⟩ ++ "/snapshot-1-a.alopex") = none ∧
      ¬ Keeps (smallManager.factory.groupWalPath ⟨1⟩) (groupDisk (votedWal ++ [1, 0, 0])) after) ∧
    ∃ error after, smallManager.createGroup votedCodec
        (quietNode (singleCodec ⟨none, .empty, "a"⟩)) ⟨1⟩ [1] ⟨⟩ quietAnswers
        (groupDisk votedWal) = (.error error, smallManager, after) ∧
      after (smallManager.factory.groupWalPath ⟨1⟩) = none ∧
      after (smallManager.factory.groupSnapshotDir ⟨1⟩ ++ "/snapshot-1-a.alopex") = none ∧
      ¬ Keeps (smallManager.factory.groupWalPath ⟨1⟩) (groupDisk votedWal) after := by
  refine ⟨⟨_, _, rfl, rfl, rfl, fun keeps => ?_⟩, ⟨_, _, rfl, rfl, rfl, fun keeps => ?_⟩⟩
  · obtain ⟨more, hmore, -⟩ := keeps (smallManager.factory.groupWalPath ⟨1⟩) _ rfl
    cases hmore
  · obtain ⟨more, hmore, -⟩ := keeps (smallManager.factory.groupWalPath ⟨1⟩) _ rfl
    cases hmore

/-- The header of the new group 2 cannot be written. What group 1 has is kept. -/
theorem failed_creation_keeps_other_group :
    ∃ error after, smallManager.createGroup votedCodec
        (quietNode (singleCodec ⟨none, .empty, "a"⟩)) ⟨2⟩ [1] ⟨⟩
        { quietAnswers with opening := ⟨none, none, none, 0, [some "disk full"], []⟩ }
        (groupDisk votedWal) = (.error error, smallManager, after) ∧
      Keeps (smallManager.factory.groupWalPath ⟨2⟩) (groupDisk votedWal) after := by
  refine ⟨_, _, rfl, ?_⟩
  refine ((failed_creation_keeps_files_iff votedCodec
    (quietNode (singleCodec ⟨none, .empty, "a"⟩)) smallManager ⟨2⟩ ⟨⟩
    { quietAnswers with opening := ⟨none, none, none, 0, [some "disk full"], []⟩ }
    (groupDisk votedWal)).2.1 [1] _ _ _ rfl).mpr (.inr fun path hsome => ?_)
  rw [groupDisk] at hsome
  split_ifs at hsome with hwal hsnapshot
  · subst hwal
    decide
  · subst hsnapshot
    decide
  · cases hsome

end Chirps.MultiRaft
