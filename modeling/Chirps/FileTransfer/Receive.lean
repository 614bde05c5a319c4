/-
# The receive handler

A session is in memory and, if resumable, on disk with a journal. Calls are taken one at a time.
What the disk and the control channel answer is in the event; a receiver that stops inside a call is
one to which the rest failed.
-/

import Chirps.FileTransfer.Integrity
import Chirps.Library.Run

namespace Chirps.FileTransfer

open Chirps.Library
open Function (update update_of_ne)

variable {κ σ : Type*}

abbrev Path := List String

abbrev Files := Path → Option Bytes

inductive FileTransferError
  | sessionNotFound (id : String)
  | fileAlreadyExists (path : Path)
  | pathTraversal (path : String)
  | chunkChecksumMismatch (index : ℕ)
  | fileHashMismatch
  | cancelled
  | io (error : String)

def FileTransferError.text : FileTransferError → String
  | .sessionNotFound id => "session not found: " ++ id
  | .fileAlreadyExists path => "file already exists: /" ++ String.intercalate "/" path
  | .pathTraversal path => "path traversal attack detected: " ++ path
  | .chunkChecksumMismatch index => "chunk checksum mismatch at index " ++ toString index
  | .fileHashMismatch => "file hash mismatch"
  | .cancelled => "transfer cancelled"
  | .io error => "io error: " ++ error

/-! ## Configuration and paths -/

/-- `validate` is the `PathValidator`, and `display` the text of a session id. -/
structure ReceiveConfig (κ : Type*) where
  tempDir : Option Path
  persistence : Bool
  validate : Bool → String → Except FileTransferError Path
  display : κ → String
  display_injective : Function.Injective display
  display_length : ∀ id id', (display id).length = (display id').length

namespace ReceiveConfig

def tempPathFor (c : ReceiveConfig κ) (dest : Path) (id : κ) : Path :=
  match c.tempDir with
  | some dir => dir ++ ["session_" ++ c.display id ++ ".tmp"]
  | none => dest.dropLast ++ [dest.getLast?.getD "transfer" ++ "." ++ c.display id ++ ".part"]

theorem tempPathFor_injective {c : ReceiveConfig κ} {dest dest' : Path} {id id' : κ}
    (h : c.tempPathFor dest id = c.tempPathFor dest' id') : id = id' := by
  refine c.display_injective ?_
  have hlength : (c.display id).toList.length = (c.display id').toList.length := by
    rw [String.length_toList, String.length_toList]
    exact c.display_length id id'
  rw [tempPathFor, tempPathFor] at h
  split at h
  · have hname := List.singleton_inj.mp (List.append_cancel_left h)
    have htext := congrArg String.toList hname
    simp only [String.toList_append, List.append_assoc, List.append_cancel_left_eq] at htext
    exact String.toList_inj.mp (List.append_inj_left htext hlength)
  · -- the id stands before a fixed ending and has a fixed length
    have hname := List.singleton_inj.mp (List.append_inj_right' h rfl)
    have htext := congrArg String.toList hname
    simp only [String.toList_append, List.append_cancel_right_eq] at htext
    exact String.toList_inj.mp (List.append_inj_right' htext hlength)

def Apart (c : ReceiveConfig κ) (id : κ) (dest : Path) : Prop :=
  ∀ id' dest', id' ≠ id → dest ≠ c.tempPathFor dest' id'

end ReceiveConfig

/-! ## Sessions -/

inductive TransferState
  | initializing
  | inProgress
  | paused
  | verifying
  | completed
  | failed
  | cancelled
  deriving DecidableEq

def TransferState.canTransition : TransferState → TransferState → Bool
  | .initializing, next => next ∈ [.inProgress, .failed, .cancelled]
  | .inProgress, next => next ∈ [.paused, .verifying, .completed, .failed, .cancelled]
  | .paused, next => next ∈ [.inProgress, .failed, .cancelled]
  | .verifying, next => next ∈ [.completed, .failed]
  | .completed, _ | .failed, _ | .cancelled, _ => false

inductive TransferControlState
  | running
  | paused
  | cancelled
  deriving DecidableEq

/-- `completed` is the set of its chunk tracker, for `chunkCount` chunks. -/
structure TransferSession (κ : Type*) where
  state : TransferState
  manifest : TransferManifest κ
  destPath : Path
  completed : Finset ℕ
  control : TransferControlState
  deriving DecidableEq

namespace TransferSession

/-- The completed chunks below `n`, in ascending order. -/
def completedBelow (s : TransferSession κ) (n : ℕ) : List ℕ :=
  (List.range n).filter (· ∈ s.completed)

def isComplete (s : TransferSession κ) : Bool := s.completed.card = s.manifest.chunkCount

def ends (s : TransferSession κ) (index : ℕ) : Bool :=
  (insert index s.completed).card = s.manifest.chunkCount ∧ s.state = .inProgress

/-- `mark_completed`. The call that completes the session goes over to `Verifying`. -/
def advance (s : TransferSession κ) (index : ℕ) : TransferSession κ :=
  { s with
    completed := insert index s.completed
    state := if s.ends index then .verifying else s.state }

theorem mem_completedBelow {s : TransferSession κ} {n i : ℕ} :
    i ∈ s.completedBelow n ↔ i < n ∧ i ∈ s.completed := by
  simp [completedBelow]

end TransferSession

structure Installed where
  verifyOnComplete : Bool
  algorithm : HashAlgorithm
  fileHash : Bytes
  content : Bytes
  deriving DecidableEq

/-- What there is of one session: in memory, on disk, and as a record. -/
structure Entry (κ σ : Type*) where
  session : Option (TransferSession κ)
  hash : Option (IncrementalReceiveHash σ)
  saved : Option (TransferSession κ)
  progress : List ℕ
  verified : ℕ → Option Bytes
  installed : List Installed

/-! ## What the environment answers -/

/-- How `prepare_temp_file` comes out. -/
inductive Prepared
  | resized
  | created
  | untouched
  deriving DecidableEq

/-- Where a finalization fails: it reads the file, removes it, or prepares or makes the rename. -/
inductive DiskFault
  | reading
  | removing
  | placing
  deriving DecidableEq

/-- The answers to the operations of a call. A torn write stops after some bytes. -/
structure Answers where
  prepared : Prepared := .resized
  torn : Option ℕ := none
  checkpointed : Bool := true
  acked : Bool := true
  disk : Option DiskFault := none
  saved : Bool := true

/-! ## Messages -/

structure TransferRequest where
  sourcePath : String
  destPath : String
  fileSize : ℕ
  chunkCount : ℕ
  chunkSize : ℕ
  options : TransferOptions

structure TransferResponse where
  accepted : Bool
  rejectionReason : Option String
  existingChunks : List ℕ
  deriving DecidableEq

structure ManifestAck where
  accepted : Bool
  skipChunks : List ℕ
  error : Option String
  deriving DecidableEq

structure ChunkAck where
  index : ℕ
  verified : Bool
  error : Option String

structure TransferComplete where
  bytesTransferred : ℕ
  fileHash : Bytes
  hashAlgorithm : HashAlgorithm
  deriving DecidableEq

def TransferManifest.isEmpty (m : TransferManifest κ) : Bool := m.fileSize = 0 ∨ m.chunkCount = 0

/-! ## Files -/

/-- `prepare_temp_file`, which does not empty a file that is there. -/
def prepareTempFile (files : Files) (temp : Path) (fileSize : ℕ) : Prepared → Except Files Files
  | .resized => .ok (update files temp
      (some (resize 0 ((files temp).getD []) fileSize)))
  | .created => .error (update files temp (some ((files temp).getD [])))
  | .untouched => .error files

/-- How `verify_and_finalize` ends. -/
inductive Finalized
  | failed (error : FileTransferError) (files : Files)
  | placed (content : Bytes) (files : Files)

/-- The end of `verify_and_finalize`: the checks of the destination and the rename. -/
def placeFile (files : Files) (temp dest : Path) (overwrite : Bool) (fault : Option DiskFault) :
    Finalized :=
  if fault = some .placing then .failed (.io "rename") files
  else if !overwrite && (files dest).isSome then .failed (.fileAlreadyExists dest) files
  else
    match files temp with
    | none => .failed (.io "rename") files
    -- a rename onto itself leaves the file in place
    | some content => .placed content
        (update (update files temp none) dest (some content))

/-- The hash that `verify_and_finalize` compares: that on the way, or of the temporary file. -/
def computedHash (h : Hashing σ) (files : Files) (temp : Path) (m : TransferManifest κ)
    (precomputed : Option Bytes) (fault : Option DiskFault) : Option Bytes :=
  match precomputed with
  | some hash => some hash
  | none => if fault = some .reading then none else (files temp).map (h.fileHash m.hashAlgorithm)

def verifyAndFinalize (h : Hashing σ) (files : Files) (temp dest : Path) (m : TransferManifest κ)
    (precomputed : Option Bytes) (fault : Option DiskFault) : Finalized :=
  if m.options.verifyOnComplete then
    match computedHash h files temp m precomputed fault with
    | none => .failed (.io "read") files
    | some computed =>
      if computed ≠ m.fileHash then
        .failed .fileHashMismatch
          (if fault = some .removing then files else update files temp none)
      else placeFile files temp dest m.options.overwrite fault
  else placeFile files temp dest m.options.overwrite fault

namespace Entry

variable (c : ReceiveConfig κ) (h : Hashing σ) (e : Entry κ σ)

/-! ## Persistence -/

def empty : Entry κ σ := ⟨none, none, none, [], fun _ => none, []⟩

/-- `SessionPersistence::save` of the session in memory, if it is resumable. -/
def save (saved : Bool) (e : Entry κ σ) : Entry κ σ :=
  match e.session with
  | none => e
  | some s =>
    if c.persistence && s.manifest.options.resumable && saved then
      { e with saved := some s, progress := [] }
    else e

/-- `SessionPersistence::load`. The control channel of a session is not stored. -/
def load : Option (TransferSession κ) :=
  e.saved.map fun s => { s with
    completed := s.completed ∪ (e.progress.filter (· < s.manifest.chunkCount)).toFinset
    control := .running }

def resumed (resumable : Bool) : Option (TransferSession κ) :=
  match e.session with
  | some s => some s
  | none => if resumable then e.load else none

/-! ## Requests and manifests -/

def handleTransferRequest (files : Files)
    (request : TransferRequest) : Except FileTransferError TransferResponse :=
  match c.validate request.options.followSymlinks request.destPath with
  | .error error => .error error
  | .ok dest =>
    -- `verify_and_finalize` looks at the destination once more
    if !request.options.overwrite && (files dest).isSome then
      .ok ⟨false, some "destination already exists", []⟩
    else if request.options.resumable then
      match e.resumed true with
      | none => .ok ⟨true, none, []⟩
      | some s =>
        if s.manifest.options.resumable = false ∨ s.manifest.sourcePath ≠ request.sourcePath ∨
            s.manifest.destPath ≠ request.destPath ∨ s.manifest.fileSize ≠ request.fileSize ∨
            s.manifest.chunkCount ≠ request.chunkCount ∨
            s.manifest.chunkSize ≠ request.chunkSize then
          .ok ⟨false, some "resume session mismatch", []⟩
        else .ok ⟨true, none, s.completedBelow request.chunkCount⟩
    else .ok ⟨true, none, []⟩

/-- The checks of `handle_manifest`: the destination and the session to resume, or the rejection. -/
def checkManifest (m : TransferManifest κ) :
    Except String (Path × Option (TransferSession κ)) :=
  match m.validate with
  | .error error => .error error.text
  | .ok () =>
    match c.validate m.options.followSymlinks m.destPath with
    | .error error => .error error.text
    | .ok dest =>
      match e.resumed m.options.resumable with
      | none => .ok (dest, none)
      | some s =>
        -- one resumable side is enough to take the session over
        if s.manifest.options.resumable = false ∧ m.options.resumable = false then
          .error "session already exists"
        -- the chunks themselves are not compared
        else if s.manifest.fileSize ≠ m.fileSize ∨ s.manifest.chunkCount ≠ m.chunkCount ∨
            s.manifest.chunkSize ≠ m.chunkSize ∨ s.manifest.fileHash ≠ m.fileHash ∨
            s.manifest.sourcePath ≠ m.sourcePath ∨ s.manifest.destPath ≠ m.destPath then
          .error "resume manifest mismatch"
        else .ok (dest, some s)

/-- The session that an admitted manifest starts, with the chunks of the one it resumes. -/
def newSession (m : TransferManifest κ) (dest : Path) (resume : Option (TransferSession κ)) :
    TransferSession κ where
  state := .inProgress
  manifest := m
  destPath := dest
  completed := (resume.elim ∅ TransferSession.completed).filter (· < m.chunkCount)
  control := .running

/-- The session is registered, with a hash to go along unless chunks are there already. -/
def openSession (m : TransferManifest κ)
    (dest : Path) (resume : Option (TransferSession κ)) (saved : Bool) : Entry κ σ :=
  save c saved { e with
    session := some (newSession m dest resume)
    hash := if (newSession m dest resume).completedBelow m.chunkCount = [] ∧ m.isEmpty = false ∧
        m.options.verifyOnComplete then
      some (IncrementalReceiveHash.new h m.options.hashAlgorithm)
    else none }

/-- The rest of `handle_manifest`. If no chunk is missing, it finalizes at once. -/
def finishManifest (files : Files)
    (s : TransferSession κ) (fault : Option DiskFault) : Entry κ σ × Files × ManifestAck :=
  let accepted : ManifestAck := ⟨true, s.completedBelow s.manifest.chunkCount, none⟩
  if s.manifest.isEmpty || s.isComplete then
    if s.manifest.usesTrailingIntegrity then
      ({ e with session := some { s with state := .verifying } }, files, accepted)
    else
      match verifyAndFinalize h files (c.tempPathFor s.destPath s.manifest.sessionId) s.destPath
          s.manifest none fault with
      -- only the session in memory goes, what is saved of it stays
      | .failed error files => ({ e with session := none }, files, ⟨false, [], some error.text⟩)
      | .placed content files =>
        ({ e with
            session := some { s with state := .completed }
            installed := e.installed ++ [⟨s.manifest.options.verifyOnComplete,
              s.manifest.hashAlgorithm, s.manifest.fileHash, content⟩] }, files, accepted)
  else (e, files, accepted)

def handleManifest (files : Files)
    (m : TransferManifest κ) (answers : Answers) : Entry κ σ × Files × ManifestAck :=
  match checkManifest c e m with
  | .error text => (e, files, ⟨false, [], some text⟩)
  | .ok (dest, resume) =>
    match prepareTempFile files (c.tempPathFor dest m.sessionId) m.fileSize answers.prepared with
    | .error files => (e, files, ⟨false, [], some (FileTransferError.io "prepare").text⟩)
    | .ok files => finishManifest c h (openSession c h e m dest resume answers.saved) files
        (newSession m dest resume) answers.disk

/-! ## Chunks -/

def expectedChecksum (s : TransferSession κ) (chunk : ChunkMeta) (streamChecksum : UInt64) :
    UInt64 :=
  if s.manifest.usesTrailingIntegrity then streamChecksum else chunk.checksum

def checkChunk (s : TransferSession κ) (index : ℕ) (data : Bytes)
    (streamChecksum : UInt64) : Except String ChunkMeta :=
  match s.manifest.chunks[index]? with
  | none => .error "invalid chunk index"
  | some chunk =>
    if data.length ≠ chunk.size then .error "chunk size mismatch"
    else if h.chunkChecksum data ≠ expectedChecksum s chunk streamChecksum then
      .error "checksum mismatch"
    else .ok chunk

/-- The checkpoint of a chunk and what is published under the lock after it. -/
def publish (s : TransferSession κ)
    (index : ℕ) (data : Bytes) : Entry κ σ :=
  { e with
    session := some (s.advance index)
    hash := e.hash.map fun state => state.record h index data
    progress := if s.manifest.options.resumable && c.persistence then e.progress ++ [index]
      else e.progress }

/-- The file is verified against the hash of `m` and put in place, and the session ends. -/
def finalizeSession (id : κ) (e : Entry κ σ) (files : Files)
    (s : TransferSession κ) (m : TransferManifest κ) (answers : Answers) : Entry κ σ × Files :=
  match verifyAndFinalize h files (c.tempPathFor s.destPath id) s.destPath m
      (e.hash.bind fun state => state.digest h m.chunkCount) answers.disk with
  | .failed _ files =>
    (save c answers.saved { e with session := some { s with state := .failed }, hash := none },
      files)
  | .placed content files =>
    (save c answers.saved { e with
      session := some { s with
        state := .completed
        manifest := { s.manifest with fileHash := m.fileHash } }
      hash := none
      installed := e.installed ++ [⟨m.options.verifyOnComplete, m.hashAlgorithm, m.fileHash,
        content⟩] }, files)

/-- What follows a write that went through, up to an acknowledgement that does not get out. -/
def completeChunk (id : κ) (e : Entry κ σ) (files : Files)
    (s : TransferSession κ) (index : ℕ) (data : Bytes) (answers : Answers) :
    Entry κ σ × Files × Option ChunkAck :=
  -- the state is looked at only after the chunk is written
  if s.state = .cancelled ∨ s.state = .failed then (e, files, none)
  else if s.manifest.options.resumable && c.persistence && !answers.checkpointed then
    (e, files, some ⟨index, false, some ("failed to persist resume progress: " ++
      (FileTransferError.io "checkpoint").text)⟩)
  else if answers.acked = false then (publish c h e s index data, files, none)
  else if s.ends index && !s.manifest.usesTrailingIntegrity then
    let ended := finalizeSession c h id (publish c h e s index data) files (s.advance index)
      s.manifest answers
    (ended.1, ended.2, some ⟨index, true, none⟩)
  else (publish c h e s index data, files, some ⟨index, true, none⟩)

/-- `handle_chunk_data`, or `none` while the session is paused. -/
def handleChunkData (id : κ) (e : Entry κ σ) (files : Files)
    (index : ℕ) (data : Bytes) (streamChecksum : UInt64) (answers : Answers) :
    Option (Entry κ σ × Files × Option ChunkAck) :=
  match e.session with
  | none => some (e, files, some ⟨index, false, some "session not found"⟩)
  | some s =>
    match s.control with
    | .paused => none
    | .cancelled =>
      some ({ save c answers.saved { e with session := some { s with state := .cancelled } } with
        hash := none }, files, none)
    | .running =>
      match checkChunk h s index data streamChecksum with
      | .error text => some (e, files, some ⟨index, false, some text⟩)
      | .ok chunk =>
        let temp := c.tempPathFor s.destPath id
        match files temp, answers.torn with
        -- the file is opened without `create`
        | none, _ => some ({ e with hash := none }, files, none)
        | some content, some written =>
          some ({ e with hash := none }, update files temp
            (some (writeAt 0 content chunk.offset (data.take written))), none)
        | some content, none =>
          some (completeChunk c h id
            { e with verified := update e.verified index (some data) }
            (update files temp (some (writeAt 0 content chunk.offset data)))
            s index data answers)

/-! ## Finalization and control -/

def handleFinalizeRequest (id : κ) (e : Entry κ σ)
    (files : Files) (completion : TransferComplete) (answers : Answers) : Entry κ σ × Files :=
  match e.session with
  | none => (e, files)
  | some s =>
    if s.manifest.usesTrailingIntegrity = false ∨ s.state ≠ .verifying ∨ s.isComplete = false ∨
        completion.bytesTransferred ≠ s.manifest.fileSize ∨
        completion.hashAlgorithm ≠ s.manifest.hashAlgorithm ∨ completion.fileHash = [] then
      (e, files)
    else finalizeSession c h id e files s
      { s.manifest with fileHash := completion.fileHash } answers

def cancel (saved : Bool) (e : Entry κ σ) : Entry κ σ :=
  match e.session with
  | none => { e with hash := none }
  | some s => { save c saved { e with
      session := some { s with state := .cancelled, control := .cancelled } } with hash := none }

/-- The session goes over to `next`, if it may. -/
def transition (saved : Bool) (next : TransferState)
    (control : TransferControlState) (e : Entry κ σ) : Entry κ σ :=
  match e.session with
  | none => e
  | some s =>
    if s.state.canTransition next then
      save c saved { e with session := some { s with state := next, control := control } }
    else e

def cancelTransfer (saved : Bool) (e : Entry κ σ) : Entry κ σ :=
  match e.session with
  | none => e
  | some s =>
    if s.state = .cancelled then
      save c saved { e with session := some { s with control := .cancelled } }
    else transition c saved .cancelled .cancelled e

def pauseTransfer (saved : Bool) (e : Entry κ σ) : Entry κ σ :=
  match e.session with
  | none => e
  | some s => if s.state = .paused then e else transition c saved .paused .paused e

/-- `resume_transfer` of a session in memory, which is saved in any state. -/
def resumeTransfer (saved : Bool) (e : Entry κ σ) : Entry κ σ :=
  match e.session with
  | none => e
  | some s =>
    if s.state = .paused then transition c saved .inProgress .running e else save c saved e

end Entry

/-! ## Runs -/

structure Receiver (κ σ : Type*) where
  entries : κ → Entry κ σ
  files : Files

inductive ReceiveEvent (κ : Type*)
  | request (id : κ) (request : TransferRequest)
  | manifest (m : TransferManifest κ) (answers : Answers)
  | chunk (id : κ) (index : ℕ) (data : Bytes) (streamChecksum : UInt64) (answers : Answers)
  | finalize (id : κ) (completion : TransferComplete) (answers : Answers)
  | cancel (id : κ) (saved : Bool)
  | cancelTransfer (id : κ) (saved : Bool)
  | pauseTransfer (id : κ) (saved : Bool)
  | resumeTransfer (id : κ) (saved : Bool)
  | restart

namespace Receiver

def initial (files : Files) : Receiver κ σ := ⟨fun _ => .empty, files⟩

variable [DecidableEq κ]

def set (x : Receiver κ σ) (id : κ) (e : Entry κ σ) (files : Files) : Receiver κ σ :=
  ⟨update x.entries id e, files⟩

def step (c : ReceiveConfig κ) (h : Hashing σ) (x : Receiver κ σ) :
    ReceiveEvent κ → Option (Receiver κ σ)
  | .request _ _ => some x
  | .manifest m answers =>
    let next := (x.entries m.sessionId).handleManifest c h x.files m answers
    some (x.set m.sessionId next.1 next.2.1)
  | .chunk id index data streamChecksum answers =>
    (Entry.handleChunkData c h id (x.entries id) x.files index data streamChecksum answers).map
      fun next => x.set id next.1 next.2.1
  | .finalize id completion answers =>
    let next := Entry.handleFinalizeRequest c h id (x.entries id) x.files completion answers
    some (x.set id next.1 next.2)
  | .cancel id saved => some (x.set id ((x.entries id).cancel c saved) x.files)
  | .cancelTransfer id saved => some (x.set id ((x.entries id).cancelTransfer c saved) x.files)
  | .pauseTransfer id saved => some (x.set id ((x.entries id).pauseTransfer c saved) x.files)
  | .resumeTransfer id saved => some (x.set id ((x.entries id).resumeTransfer c saved) x.files)
  -- temporary files, sessions and journals on disk survive
  | .restart => some ⟨fun id => { x.entries id with session := none, hash := none }, x.files⟩

end Receiver

/-! ## What a finalization does -/

section Finalization

variable {h : Hashing σ} {files files' : Files} {temp dest : Path} {m : TransferManifest κ}
  {precomputed : Option Bytes} {fault : Option DiskFault} {overwrite : Bool}

theorem placeFile_failed {error : FileTransferError}
    (hfailed : placeFile files temp dest overwrite fault = .failed error files') :
    files' = files := by
  rw [placeFile] at hfailed
  split at hfailed
  · cases hfailed
    rfl
  split at hfailed
  · cases hfailed
    rfl
  split at hfailed
  · cases hfailed
    rfl
  · cases hfailed

theorem placeFile_placed {content : Bytes}
    (hplaced : placeFile files temp dest overwrite fault = .placed content files') :
    files temp = some content ∧
      files' = update (update files temp none) dest (some content) := by
  rw [placeFile] at hplaced
  split at hplaced
  · cases hplaced
  split at hplaced
  · cases hplaced
  split at hplaced
  · cases hplaced
  · rename_i htemp
    cases hplaced
    exact ⟨htemp, rfl⟩

theorem verifyAndFinalize_failed {error : FileTransferError}
    (hfailed : verifyAndFinalize h files temp dest m precomputed fault = .failed error files') :
    files' = files ∨ files' = update files temp none := by
  rw [verifyAndFinalize] at hfailed
  split at hfailed
  · split at hfailed
    · cases hfailed
      exact .inl rfl
    split at hfailed
    · cases hfailed
      split
      · exact .inl rfl
      · exact .inr rfl
    · exact .inl (placeFile_failed hfailed)
  · exact .inl (placeFile_failed hfailed)

/-- A finalization that goes through renames the temporary file, after its hash, or the one
computed on the way, was found to be the expected one. -/
theorem verifyAndFinalize_placed {content : Bytes}
    (hplaced : verifyAndFinalize h files temp dest m precomputed fault = .placed content files') :
    files temp = some content ∧
      files' = update (update files temp none) dest (some content) ∧
      (m.options.verifyOnComplete = true →
        computedHash h files temp m precomputed fault = some m.fileHash) := by
  rw [verifyAndFinalize] at hplaced
  split at hplaced
  · split at hplaced
    · cases hplaced
    rename_i computed hcomputed
    split at hplaced
    · cases hplaced
    rename_i hhash
    obtain ⟨htemp, hfiles⟩ := placeFile_placed hplaced
    exact ⟨htemp, hfiles, fun _ => by rw [hcomputed, not_not.mp hhash]⟩
  · rename_i hverify
    obtain ⟨htemp, hfiles⟩ := placeFile_placed hplaced
    exact ⟨htemp, hfiles, fun hverify' => absurd hverify' hverify⟩

end Finalization

/-! ## The files of other sessions -/

def Touches (c : ReceiveConfig κ) (id : κ) (dests : Set Path) (files files' : Files) : Prop :=
  ∀ path, path ∉ dests → (∀ dest, path ≠ c.tempPathFor dest id) → files' path = files path

def Confined (c : ReceiveConfig κ) (id : κ) (files files' : Files) : Prop :=
  ∀ id' dest, id' ≠ id → files' (c.tempPathFor dest id') = files (c.tempPathFor dest id')

theorem Confined.refl {c : ReceiveConfig κ} {id : κ} {files : Files} : Confined c id files files :=
  fun _ _ _ => rfl

namespace Touches

variable {c : ReceiveConfig κ} {h : Hashing σ} {id : κ} {dests : Set Path} {files files' : Files}
  {dest : Path}

theorem refl : Touches c id dests files files := fun _ _ _ => rfl

theorem trans {files'' : Files} (first : Touches c id dests files files')
    (second : Touches c id dests files' files'') : Touches c id dests files files'' :=
  fun path hdest htemp => (second path hdest htemp).trans (first path hdest htemp)

theorem confined (touches : Touches c id dests files files')
    (apart : ∀ dest ∈ dests, c.Apart id dest) : Confined c id files files' :=
  fun id' dest hne => touches _ (fun hmem => apart _ hmem id' dest hne rfl)
    fun _ heq => hne (ReceiveConfig.tempPathFor_injective heq)

theorem update_temp (content : Option Bytes) :
    Touches c id dests files (update files (c.tempPathFor dest id) content) :=
  fun _ _ htemp => update_of_ne (htemp dest) _ _

theorem update_dest (hdest : dest ∈ dests) (content : Option Bytes) :
    Touches c id dests files (update files dest content) :=
  fun _ hother _ => update_of_ne (ne_of_mem_of_not_mem hdest hother).symm _ _

theorem prepareTempFile {size : ℕ} {prepared : Prepared}
    (hprepared : prepareTempFile files (c.tempPathFor dest id) size prepared = .ok files' ∨
      prepareTempFile files (c.tempPathFor dest id) size prepared = .error files') :
    Touches c id dests files files' := by
  cases prepared <;> simp only [FileTransfer.prepareTempFile, reduceCtorEq, or_false, false_or,
    Except.ok.injEq, Except.error.injEq] at hprepared <;> subst hprepared
  · exact update_temp _
  · exact update_temp _
  · exact refl

theorem verifyAndFinalize_failed {m : TransferManifest κ} {precomputed : Option Bytes}
    {fault : Option DiskFault} {error : FileTransferError} {target : Path}
    (hfailed : verifyAndFinalize h files (c.tempPathFor dest id) target m precomputed fault =
      .failed error files') : Touches c id dests files files' := by
  rcases FileTransfer.verifyAndFinalize_failed hfailed with rfl | rfl
  · exact refl
  · exact update_temp none

theorem verifyAndFinalize_placed {m : TransferManifest κ} {precomputed : Option Bytes}
    {fault : Option DiskFault} {content : Bytes} (hdest : dest ∈ dests)
    (hplaced : verifyAndFinalize h files (c.tempPathFor dest id) dest m precomputed fault =
      .placed content files') : Touches c id dests files files' := by
  obtain ⟨-, rfl, -⟩ := FileTransfer.verifyAndFinalize_placed hplaced
  exact (update_temp none).trans (update_dest hdest _)

end Touches

namespace Entry

variable {c : ReceiveConfig κ} {h : Hashing σ} {id : κ} {e : Entry κ σ} {files : Files}
  {dests : Set Path} {s : TransferSession κ}

section Save

variable {saved : Bool}

@[simp] theorem save_session : (e.save c saved).session = e.session := by
  rw [save]
  split
  · rfl
  · split <;> rfl

@[simp] theorem save_hash : (e.save c saved).hash = e.hash := by
  rw [save]
  split
  · rfl
  · split <;> rfl

@[simp] theorem save_verified : (e.save c saved).verified = e.verified := by
  rw [save]
  split
  · rfl
  · split <;> rfl

@[simp] theorem save_installed : (e.save c saved).installed = e.installed := by
  rw [save]
  split
  · rfl
  · split <;> rfl

end Save

variable {index : ℕ} {data : Bytes}

theorem checkChunk_eq_ok {streamChecksum : UInt64} {chunk : ChunkMeta}
    (hcheck : checkChunk h s index data streamChecksum = .ok chunk) :
    s.manifest.chunks[index]? = some chunk ∧ data.length = chunk.size := by
  rw [checkChunk] at hcheck
  split at hcheck
  · cases hcheck
  rename_i hchunk
  split at hcheck
  · cases hcheck
  rename_i hsize
  split at hcheck
  · cases hcheck
  · cases hcheck
    exact ⟨hchunk, not_not.mp hsize⟩

variable {m : TransferManifest κ}

theorem checkManifest_eq_ok {dest : Path} {resume : Option (TransferSession κ)}
    (haccepted : checkManifest c e m = .ok (dest, resume)) :
    m.Sized ∧ resume = e.resumed m.options.resumable ∧
      ∀ s ∈ resume, s.manifest.fileSize = m.fileSize := by
  rw [checkManifest] at haccepted
  split at haccepted
  · cases haccepted
  rename_i hvalid
  split at haccepted
  · cases haccepted
  split at haccepted
  · rename_i hnone
    cases haccepted
    exact ⟨TransferManifest.sized_of_validate hvalid, hnone.symm, by simp⟩
  rename_i s hs
  split at haccepted
  · cases haccepted
  split at haccepted
  · cases haccepted
  rename_i hsame
  cases haccepted
  refine ⟨TransferManifest.sized_of_validate hvalid, hs.symm, fun t ht => ?_⟩
  cases ht
  exact not_not.mp fun hne => hsame (.inl hne)

variable {answers : Answers}

theorem touches_finalizeSession (hdest : s.destPath ∈ dests) :
    Touches c id dests files (finalizeSession c h id e files s m answers).2 := by
  rw [finalizeSession]
  split
  · exact Touches.verifyAndFinalize_failed ‹_›
  · exact Touches.verifyAndFinalize_placed hdest ‹_›

theorem touches_finishManifest {fault : Option DiskFault}
    (hdest : s.destPath ∈ dests) :
    Touches c s.manifest.sessionId dests files (finishManifest c h e files s fault).2.1 := by
  rw [finishManifest]
  split
  · split
    · exact Touches.refl
    · split
      · exact Touches.verifyAndFinalize_failed ‹_›
      · exact Touches.verifyAndFinalize_placed hdest ‹_›
  · exact Touches.refl

theorem touches_handleManifest
    (hdest : ∀ dest resume, checkManifest c e m = .ok (dest, resume) → dest ∈ dests) :
    Touches c m.sessionId dests files (handleManifest c h e files m answers).2.1 := by
  rw [handleManifest]
  split
  · exact Touches.refl
  · rename_i dest resume haccepted
    split
    · exact Touches.prepareTempFile (.inr ‹_›)
    · exact (Touches.prepareTempFile (.inl ‹_›)).trans
        (touches_finishManifest (s := newSession m dest resume) (hdest dest resume haccepted))

theorem touches_completeChunk (hdest : s.destPath ∈ dests) :
    Touches c id dests files (completeChunk c h id e files s index data answers).2.1 := by
  rw [completeChunk]
  split
  · exact Touches.refl
  split
  · exact Touches.refl
  split
  · exact Touches.refl
  split
  · exact touches_finalizeSession (s := s.advance index) hdest
  · exact Touches.refl

theorem touches_handleChunkData {streamChecksum : UInt64}
    {next : Entry κ σ × Files × Option ChunkAck} (hdest : ∀ s ∈ e.session, s.destPath ∈ dests)
    (hnext : handleChunkData c h id e files index data streamChecksum answers = some next) :
    Touches c id dests files next.2.1 := by
  rw [handleChunkData] at hnext
  split at hnext
  · cases hnext
    exact Touches.refl
  rename_i s hs
  split at hnext
  · cases hnext
  · cases hnext
    exact Touches.refl
  split at hnext
  · cases hnext
    exact Touches.refl
  dsimp only at hnext
  split at hnext <;> cases hnext
  · exact Touches.refl
  · exact Touches.update_temp _
  · exact (Touches.update_temp _).trans (touches_completeChunk (hdest s hs))

theorem touches_handleFinalizeRequest {completion : TransferComplete}
    (hdest : ∀ s ∈ e.session, s.destPath ∈ dests) :
    Touches c id dests files (handleFinalizeRequest c h id e files completion answers).2 := by
  rw [handleFinalizeRequest]
  split
  · exact Touches.refl
  · split
    · exact Touches.refl
    · exact touches_finalizeSession (hdest _ ‹_›)

end Entry

/-! ## Invariants of sessions -/

/-- A property of an entry and the files, but of no state and no temporary files of others. -/
structure EntryInvariant (c : ReceiveConfig κ) (P : κ → Files → Entry κ σ → Prop) : Prop where
  congr : ∀ {id files files' e}, P id files e →
    (∀ dest, files' (c.tempPathFor dest id) = files (c.tempPathFor dest id)) → P id files' e
  apart : ∀ {id files e}, P id files e → ∀ s ∈ e.session, c.Apart id s.destPath
  save : ∀ {id files e} saved, P id files e → P id files (e.save c saved)
  discard : ∀ {id files e}, P id files e → P id files { e with hash := none }
  forget : ∀ {id files e}, P id files e → P id files { e with session := none, hash := none }
  setState : ∀ {id files e s} state control, e.session = some s → P id files e →
    P id files { e with session := some { s with state := state, control := control } }

namespace EntryInvariant

variable {c : ReceiveConfig κ} {h : Hashing σ} {P : κ → Files → Entry κ σ → Prop} {id : κ}
  {files : Files} {e : Entry κ σ} {saved : Bool}

section

variable (inv : EntryInvariant c P)
include inv

theorem transition {next : TransferState}
    {control : TransferControlState} (hP : P id files e) :
    P id files (e.transition c saved next control) := by
  rw [Entry.transition]
  split
  · exact hP
  · rename_i hs
    split
    · exact inv.save saved (inv.setState next control hs hP)
    · exact hP

theorem cancel (hP : P id files e) : P id files (e.cancel c saved) := by
  rw [Entry.cancel]
  split
  · exact inv.discard hP
  · rename_i hs
    exact inv.discard (inv.save saved (inv.setState .cancelled .cancelled hs hP))

theorem cancelTransfer (hP : P id files e) : P id files (e.cancelTransfer c saved) := by
  rw [Entry.cancelTransfer]
  split
  · exact hP
  · rename_i s hs
    split
    · exact inv.save saved (inv.setState s.state .cancelled hs hP)
    · exact inv.transition hP

theorem pauseTransfer (hP : P id files e) : P id files (e.pauseTransfer c saved) := by
  rw [Entry.pauseTransfer]
  split
  · exact hP
  · split
    · exact hP
    · exact inv.transition hP

theorem resumeTransfer (hP : P id files e) : P id files (e.resumeTransfer c saved) := by
  rw [Entry.resumeTransfer]
  split
  · exact hP
  · split
    · exact inv.transition hP
    · exact inv.save saved hP

end

variable [DecidableEq κ] {x next : Receiver κ σ} {event : ReceiveEvent κ}

theorem set (inv : EntryInvariant c P) (all : ∀ id, P id x.files (x.entries id))
    (hP : P id files e) (confined : Confined c id x.files files) (id' : κ) :
    P id' (x.set id e files).files ((x.set id e files).entries id') := by
  by_cases heq : id' = id
  · subst heq
    simpa only [Receiver.set, Function.update_self] using hP
  · simp only [Receiver.set, update_of_ne heq]
    exact inv.congr (all id') fun dest => confined id' dest heq

theorem step (inv : EntryInvariant c P) (all : ∀ id, P id x.files (x.entries id))
    (manifest : ∀ m answers, event = .manifest m answers →
      (∀ dest resume, (x.entries m.sessionId).checkManifest c m = .ok (dest, resume) →
        c.Apart m.sessionId dest) ∧
      P m.sessionId ((x.entries m.sessionId).handleManifest c h x.files m answers).2.1
        ((x.entries m.sessionId).handleManifest c h x.files m answers).1)
    (chunk : ∀ id index data streamChecksum answers result,
      event = .chunk id index data streamChecksum answers →
      Entry.handleChunkData c h id (x.entries id) x.files index data streamChecksum answers =
        some result → P id result.2.1 result.1)
    (finalize : ∀ {id files e s m answers}, e.session = some s →
      m.hashAlgorithm = s.manifest.hashAlgorithm → m.chunkCount = s.manifest.chunkCount →
      P id files e → P id (Entry.finalizeSession c h id e files s m answers).2
        (Entry.finalizeSession c h id e files s m answers).1)
    (hstep : x.step c h event = some next) : ∀ id, P id next.files (next.entries id) := by
  cases event with
  | request id request =>
    cases hstep
    exact all
  | manifest m answers =>
    cases hstep
    obtain ⟨apart, hP⟩ := manifest m answers rfl
    exact inv.set all hP ((Entry.touches_handleManifest apart).confined fun _ hdest => hdest)
  | chunk id index data streamChecksum answers =>
    obtain ⟨result, hresult, rfl⟩ := Option.map_eq_some_iff.mp hstep
    exact inv.set all (chunk id index data streamChecksum answers result rfl hresult)
      ((Entry.touches_handleChunkData (inv.apart (all id)) hresult).confined fun _ hdest => hdest)
  | finalize id completion answers =>
    cases hstep
    refine inv.set all ?_
      ((Entry.touches_handleFinalizeRequest (inv.apart (all id))).confined fun _ hdest => hdest)
    rw [Entry.handleFinalizeRequest]
    split
    · exact all id
    · rename_i hs
      split
      · exact all id
      · refine finalize hs ?_ ?_ (all id) <;> rfl
  | cancel id saved =>
    cases hstep
    exact inv.set all (inv.cancel (all id)) Confined.refl
  | cancelTransfer id saved =>
    cases hstep
    exact inv.set all (inv.cancelTransfer (all id)) Confined.refl
  | pauseTransfer id saved =>
    cases hstep
    exact inv.set all (inv.pauseTransfer (all id)) Confined.refl
  | resumeTransfer id saved =>
    cases hstep
    exact inv.set all (inv.resumeTransfer (all id)) Confined.refl
  | restart =>
    cases hstep
    exact fun id => inv.forget (all id)

end EntryInvariant

end Chirps.FileTransfer
