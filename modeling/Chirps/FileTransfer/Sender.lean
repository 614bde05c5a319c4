/-
# Sending, broadcasting and resuming files

A transfer to one target is a task that goes from stage to stage; a broadcast waits for one for each
target. A step is one message or one operation on a file. Records say for whom a session was opened
and what was read, reported and removed.
-/

import Chirps.FileTransfer.SendLoop

namespace Chirps.FileTransfer

open Chirps.Library
open Function (update)

variable {κ ν σ : Type*}

/-! ## Options and sessions -/

inductive TransferMode
  | copy
  | move
  deriving DecidableEq

inductive TransferKind
  | send
  | broadcast
  | sync
  deriving DecidableEq

def defaultChunkSize : ℕ := 1024 * 1024

def defaultConcurrency : ℕ := 4

structure SendOptions extends TransferOptions where
  mode : TransferMode := .copy
  chunkSize : ℕ := defaultChunkSize
  concurrency : ℕ := defaultConcurrency
  maxRetries : ℕ := 3
  deriving DecidableEq

structure SendConfig (ν : Type*) where
  sourceNode : ν
  defaultChunkSize : ℕ := defaultChunkSize
  defaultConcurrency : ℕ := defaultConcurrency
  maxConcurrency : ℕ := 16

/-- A call of `send_file` or `broadcast_file`. -/
structure SendRequest (ν : Type*) where
  targets : List ν
  sourcePath : Path
  destPath : Path
  options : SendOptions
  deriving DecidableEq

/-- `control` names the task that listens to the control channel; `operation` and `slot` are the
request and the target that the session was opened for. -/
structure SendSession (κ ν : Type*) where
  id : κ
  kind : TransferKind
  sourceNode : ν
  targetNodes : List ν
  sourcePath : Path
  destPath : Path
  state : TransferState
  manifest : TransferManifest κ
  completed : Finset ℕ
  options : SendOptions
  error : Option String
  control : Option ℕ
  operation : ℕ
  slot : ℕ

/-- The arguments of `send_file_with_context`; `id` is for a session that is not resumed. -/
structure SendCall (κ ν : Type*) where
  target : ν
  sourcePath : Path
  destPath : Path
  options : SendOptions
  kind : TransferKind
  resume : Option (SendSession κ ν)
  id : κ
  operation : ℕ
  slot : ℕ

def displayPath (path : Path) : String := "/" ++ String.intercalate "/" path

def resolveTransferOptions (c : SendConfig ν) (options : SendOptions) :
    Except SendError SendOptions :=
  let chunkSize :=
    if options.chunkSize = defaultChunkSize then c.defaultChunkSize else options.chunkSize
  let concurrency :=
    if options.concurrency = defaultConcurrency then c.defaultConcurrency
    else options.concurrency
  if chunkSize = 0 ∨ 2 ^ 32 - 1 < chunkSize then
    .error (.internal "chunk size must be between 1 and u32::MAX")
  else if c.maxConcurrency = 0 ∨ concurrency = 0 then
    .error (.internal "transfer concurrency must be greater than zero")
  else
    .ok { options with chunkSize, concurrency := min concurrency c.maxConcurrency }

def buildChunkLayout (fileSize chunkSize : ℕ) : Except SendError (List ChunkMeta) :=
  let count := (fileSize + chunkSize - 1) / chunkSize
  if chunkSize = 0 ∨ 2 ^ 32 - 1 < chunkSize then
    .error (.io "chunk_size must be between 1 and u32::MAX")
  else if 2 ^ 32 - 1 < count then .error (.io "chunk count exceeds u32::MAX")
  else
    .ok ((List.range count).map fun index =>
      ⟨index, index * chunkSize, min (fileSize - index * chunkSize) chunkSize, 0⟩)

def minChunkSize : ℕ := 64 * 1024
def maxChunkSize : ℕ := 16 * 1024 * 1024

structure ChunkManager where
  chunkSize : ℕ
  min_le : minChunkSize ≤ chunkSize
  le_max : chunkSize ≤ maxChunkSize

def ChunkManager.new (chunkSize : ℕ) : ChunkManager where
  chunkSize := max minChunkSize (min chunkSize maxChunkSize)
  min_le := le_max_left _ _
  le_max := max_le (by decide) (min_le_right _ _)

def buildManifest (call : SendCall κ ν) (id : κ) (options : SendOptions) (fileSize : ℕ)
    (chunks : List ChunkMeta) : TransferManifest κ where
  version := TransferManifest.currentVersion
  sessionId := id
  sourcePath := displayPath call.sourcePath
  destPath := displayPath call.destPath
  fileSize := fileSize
  fileHash := []
  hashAlgorithm := options.hashAlgorithm
  chunkSize := (ChunkManager.new options.chunkSize).chunkSize
  chunkCount := chunks.length
  chunks := chunks
  options := options.toTransferOptions

section Opening

variable [DecidableEq ν]

def checkResume (c : SendConfig ν) (call : SendCall κ ν) (options : SendOptions)
    (resume : SendSession κ ν) : Except SendError Unit :=
  if resume.kind ≠ call.kind then .error (.internal "resume session kind mismatch")
  else if resume.sourceNode ≠ c.sourceNode then
    .error (.internal "resume source node mismatch")
  else if resume.sourcePath ≠ call.sourcePath then
    .error (.internal "resume source path mismatch")
  else if resume.destPath ≠ call.destPath then
    .error (.internal "resume destination path mismatch")
  else if resume.targetNodes.head? ≠ some call.target then
    .error (.internal "resume target mismatch")
  else if options.resumable = false ∨ resume.options.resumable = false then
    .error (.internal "resume requested for non-resumable session")
  else .ok ()

def checkResumeManifest (manifest : TransferManifest κ) (resume : SendSession κ ν) :
    Except SendError Unit :=
  let old := resume.manifest
  if old.fileSize ≠ manifest.fileSize ∨ old.chunkCount ≠ manifest.chunkCount ∨
      old.chunkSize ≠ manifest.chunkSize ∨ old.hashAlgorithm ≠ manifest.hashAlgorithm ∨
      old.sourcePath ≠ manifest.sourcePath ∨ old.destPath ≠ manifest.destPath then
    .error (.internal "resume manifest mismatch")
  else .ok ()

def newSendSession (c : SendConfig ν) (call : SendCall κ ν) (options : SendOptions)
    (manifest : TransferManifest κ) (task : ℕ) : SendSession κ ν where
  id := manifest.sessionId
  kind := call.kind
  sourceNode := c.sourceNode
  targetNodes := [call.target]
  sourcePath := call.sourcePath
  destPath := call.destPath
  state := .inProgress
  manifest := manifest
  completed := call.resume.elim ∅ (·.completed)
  options := options
  error := none
  control := some task
  operation := call.operation
  slot := call.slot

/-- `send_file_with_context` up to the session. A source that is no file is not found. -/
def openSendSession (c : SendConfig ν) (files : Files) (call : SendCall κ ν) (task : ℕ) :
    Except SendError (SendSession κ ν) :=
  match resolveTransferOptions c call.options, files call.sourcePath with
  | .error err, _ => .error err
  | .ok _, none => .error (.io "No such file or directory (os error 2)")
  | .ok options, some content =>
    match call.resume.elim (.ok ()) (checkResume c call options),
        buildChunkLayout content.length (ChunkManager.new options.chunkSize).chunkSize with
    | .error err, _ => .error err
    | .ok _, .error err => .error err
    | .ok _, .ok chunks =>
      let id := call.resume.elim call.id (·.id)
      let manifest := buildManifest call id options content.length chunks
      match call.resume.elim (.ok ()) (checkResumeManifest manifest) with
      | .error err => .error err
      | .ok _ => .ok (newSendSession c call options manifest task)

end Opening

/-! ## Tasks and broadcasts -/

/-- Where a task of `send_file_with_context` is. A resumed one first waits for a slot. -/
inductive SendStage
  | queued
  | requesting
  | responding
  | announcing (existing : List ℕ)
  | acknowledging (existing : List ℕ)
  | sending (loop : SendLoop)
  | finalizing (data : Bytes)
  | completing (data : Bytes)
  | removing

/-- `joined` says that the task is in the join set of the broadcast of its request. -/
structure SendTask (κ ν : Type*) where
  session : SendSession κ ν
  deleteSource : Bool
  joined : Bool
  control : TransferControlState
  stage : SendStage

namespace SendTask

def track (t : SendTask κ ν) (loop : SendLoop) : SendTask κ ν :=
  { t with session := { t.session with completed := loop.completed, error := loop.error } }

def hashed (t : SendTask κ ν) (fileHash : Bytes) : SendTask κ ν :=
  { t with
    session := { t.session with manifest := { t.session.manifest with fileHash := fileHash } } }

end SendTask

inductive Member
  | waiting
  | running
  | completed
  | failed (error : SendError)
  deriving DecidableEq

def Member.over : Member → Bool
  | .waiting | .running => false
  | .completed | .failed _ => true

structure Broadcast (ν : Type*) where
  request : SendRequest ν
  members : List Member

structure Reading (κ : Type*) where
  operation : ℕ
  slot : ℕ
  id : κ
  data : Bytes
  deriving DecidableEq

structure Report (κ ν : Type*) where
  id : κ
  node : ν
  completion : TransferComplete
  deriving DecidableEq

structure Sender (κ ν : Type*) where
  files : Files
  sessions : κ → Option (SendSession κ ν)
  saved : κ → Option (SendSession κ ν)
  tasks : ℕ → Option (SendTask κ ν)
  spawned : ℕ
  broadcasts : ℕ → Option (Broadcast ν)
  requests : List (SendRequest ν)
  read : List (Reading κ)
  reported : List (Report κ ν)
  removed : List (ℕ × Path)

/-- What a task goes on with. `dropped` is a task that panics or whose caller went away. -/
inductive TaskInput (ν : Type*)
  | slot
  | sent (result : Except SendError Unit)
  | response (result : Except SendError TransferResponse)
  | manifestAck (result : Except SendError ManifestAck)
  | loop (input : LoopInput)
  | completion (result : Except SendError (ν × FileTransferMessage))
  | removed (result : Except String Unit)
  | dropped

/-- `saved` says whether the session can be written. The receive handler puts `received` into the
registry and takes `forget` out; `write` is what other programs do. -/
inductive SenderEvent (κ ν : Type*)
  | sendFile (kind : TransferKind) (target : ν) (sourcePath destPath : Path)
      (options : SendOptions) (id : κ) (saved : Bool)
  | broadcastFile (request : SendRequest ν)
  | member (n slot : ℕ) (id : κ) (saved : Bool)
  | task (n : ℕ) (input : TaskInput ν) (saved : Bool)
  | finish (n : ℕ) (removed : Bool)
  | abandon (n : ℕ)
  | pauseTransfer (id : κ) (saved : Bool)
  | resumeTransfer (id : κ) (saved : Bool)
  | cancelTransfer (id : κ) (sent saved : Bool)
  | remoteCancel (id : κ) (reason : String) (saved : Bool)
  | received (session : SendSession κ ν) (saved : Bool)
  | forget (id : κ)
  | discard (id : κ)
  | write (path : Path) (content : Option Bytes)
  | restart

/-- The filter of `wait_for_receiver_completion`. -/
def FileTransferMessage.endsTransfer : FileTransferMessage → Bool
  | .complete _ | .error _ | .cancel _ => true
  | .chunkAck _ | .other => false

/-- The checks of `wait_for_receiver_completion`. -/
def checkCompletion [DecidableEq ν] (target : ν) (fileHash : Bytes)
    (algorithm : HashAlgorithm) (fileSize : ℕ) (sender : ν) (message : FileTransferMessage) :
    Except SendError Unit :=
  if sender ≠ target then
    .error (.transport "receiver completion came from an unexpected peer")
  else match message with
    | .complete completion =>
      if completion.bytesTransferred = fileSize ∧ completion.fileHash = fileHash ∧
          completion.hashAlgorithm = algorithm then .ok ()
      else .error .fileHashMismatch
    | .error message => .error (.transport message)
    | .cancel _ => .error .cancelled
    | _ => .error (.internal "unexpected receiver completion message")

namespace Sender

def initial (files : Files) : Sender κ ν :=
  ⟨files, fun _ => none, fun _ => none, fun _ => none, 0, fun _ => none, [], [], [], []⟩

variable [DecidableEq κ] [DecidableEq ν] (x : Sender κ ν)

/-! ## Operations on the state -/

/-- `store_session` and `persist_session`. -/
def record (saved : Bool) (s : SendSession κ ν) : Sender κ ν :=
  { x with
    sessions := update x.sessions s.id (some s)
    saved :=
      if s.options.resumable && saved then update x.saved s.id (some s)
      else x.saved }

def putTask (n : ℕ) (t : Option (SendTask κ ν)) : Sender κ ν :=
  { x with tasks := update x.tasks n t }

def spawn (t : SendTask κ ν) : Sender κ ν :=
  { x with tasks := update x.tasks x.spawned (some t), spawned := x.spawned + 1 }

def setMember (n slot : ℕ) (m : Member) : Sender κ ν :=
  { x with
    broadcasts := update x.broadcasts n
      ((x.broadcasts n).map fun b => { b with members := b.members.set slot m }) }

def setControl (s : SendSession κ ν) (control : TransferControlState) : Sender κ ν :=
  match s.control with
  | none => x
  | some n => x.putTask n ((x.tasks n).map fun t => { t with control })

def removeFile (n : ℕ) (path : Path) : Sender κ ν :=
  { x with
    files := update x.files path none
    removed := x.removed ++ [(n, path)] }

/-! ## Tasks -/

def leave (n : ℕ) (t : SendTask κ ν) (m : Member) : Sender κ ν :=
  let left := x.putTask n none
  if t.joined then left.setMember t.session.operation t.session.slot m else left

def failSession (n : ℕ) (t : SendTask κ ν) (saved : Bool) (err : SendError) : Sender κ ν :=
  (x.record saved { t.session with state := .failed, error := some err.text }).leave n t
    (.failed err)

def cancelSession (n : ℕ) (t : SendTask κ ν) (saved : Bool) : Sender κ ν :=
  (x.record saved { t.session with state := .cancelled, error := some "cancelled" }).leave n t
    (.failed .cancelled)

def completeSession (n : ℕ) (t : SendTask κ ν) (saved : Bool) : Sender κ ν :=
  (x.record saved { t.session with state := .completed }).leave n t .completed

def goto (n : ℕ) (t : SendTask κ ν) (stage : SendStage) : Sender κ ν :=
  x.putTask n (some { t with stage })

def resumeCall (s : SendSession κ ν) (target : ν) : SendCall κ ν where
  target := target
  sourcePath := s.sourcePath
  destPath := s.destPath
  options := s.options
  kind := s.kind
  resume := some s
  id := s.id
  operation := s.operation
  slot := s.slot

/-- The task that hashes the file is waited for. Its error leaves the session as it was. -/
def afterChunks (h : Hashing σ) (x : Sender κ ν) (n : ℕ) (t : SendTask κ ν) (p : Producer) :
    Option (Sender κ ν) :=
  match p.error with
  | some err => some (x.leave n t (.failed err))
  | none =>
    if p.ended then
      some (goto { x with
        read := x.read ++ [⟨t.session.operation, t.session.slot, t.session.id, p.data⟩] }
        n (t.hashed (h.fileHash t.session.manifest.hashAlgorithm p.data)) (.finalizing p.data))
    else none

def afterLoop (h : Hashing σ) (x : Sender κ ν) (n : ℕ) (t : SendTask κ ν) (saved : Bool) :
    LoopOutcome → Option (Sender κ ν)
  | .continued loop => some (x.goto n t (.sending loop))
  | .failed loop err => some (x.failSession n (t.track loop) saved err)
  | .cancelled loop => some (x.cancelSession n (t.track loop) saved)
  | .panicked => some (x.leave n t (.failed (.internal "broadcast task failed")))
  | .left loop =>
    if loop.isComplete t.session.manifest.chunkCount then
      x.afterChunks h n (t.track loop) loop.producer
    else
      some (x.failSession n (t.track loop) saved
        (.internal "transfer incomplete after sending chunks"))

def hear (id : κ) (sender : ν) : FileTransferMessage → Sender κ ν
  | .complete completion => { x with reported := x.reported ++ [⟨id, sender, completion⟩] }
  | _ => x

/-- A message for the task that waits for the receiver to be done with the file. -/
def afterCompletion (h : Hashing σ) (x : Sender κ ν) (n : ℕ) (t : SendTask κ ν) (saved : Bool)
    (target : ν) (data : Bytes) (sender : ν) (message : FileTransferMessage) : Sender κ ν :=
  let heard := x.hear t.session.id sender message
  let algorithm := t.session.manifest.hashAlgorithm
  match checkCompletion target (h.fileHash algorithm data) algorithm
      t.session.manifest.fileSize sender message with
  | .error err => heard.failSession n t saved err
  | .ok _ =>
    if t.deleteSource && t.session.options.mode == .move then heard.goto n t .removing
    else heard.completeSession n t saved

/-- A step of a task that sends to `target`. -/
def next (c : SendConfig ν) (h : Hashing σ) (x : Sender κ ν) (n : ℕ) (t : SendTask κ ν)
    (target : ν) (saved : Bool) : SendStage → TaskInput ν → Option (Sender κ ν)
  | _, .dropped => some (x.leave n t (.failed (.internal "broadcast task failed")))
  | .queued, .slot =>
    match openSendSession c x.files (resumeCall t.session target) n with
    | .error err => some (x.leave n t (.failed err))
    | .ok s => some ((x.record saved s).goto n { t with session := s } .requesting)
  | .requesting, .sent (.ok _) => some (x.goto n t .responding)
  | .requesting, .sent (.error err) => some (x.failSession n t saved err)
  | .responding, .response (.error err) => some (x.failSession n t saved err)
  | .responding, .response (.ok response) =>
    if response.accepted then some (x.goto n t (.announcing response.existingChunks))
    else some (x.failSession n t saved
      (.rejected (response.rejectionReason.getD "transfer rejected")))
  | .announcing existing, .sent (.ok _) => some (x.goto n t (.acknowledging existing))
  | .announcing _, .sent (.error err) => some (x.failSession n t saved err)
  | .acknowledging _, .manifestAck (.error err) => some (x.failSession n t saved err)
  | .acknowledging existing, .manifestAck (.ok ack) =>
    if ack.accepted then
      some (x.goto n t (.sending
        (.new t.session.manifest.chunks t.session.completed (existing ++ ack.skipChunks))))
    else some (x.failSession n t saved (.rejected (ack.error.getD "manifest rejected")))
  | .sending loop, .loop input =>
    (loop.step t.session.options.concurrency t.session.options.maxRetries t.control input).bind
      (x.afterLoop h n t saved)
  | .finalizing data, .sent (.ok _) => some (x.goto n t (.completing data))
  -- a finalize request that cannot be sent does not fail the session
  | .finalizing _, .sent (.error err) => some (x.leave n t (.failed err))
  | .completing _, .completion (.error err) => some (x.failSession n t saved err)
  | .completing data, .completion (.ok (sender, message)) =>
    if message.endsTransfer then
      some (x.afterCompletion h n t saved target data sender message)
    else none
  | .removing, .removed (.ok _) =>
    -- there is no file to remove when another program was faster
    if (x.files t.session.sourcePath).isSome then
      some ((x.removeFile t.session.operation t.session.sourcePath).completeSession n t saved)
    else none
  | .removing, .removed (.error err) => some (x.failSession n t saved (.io err))
  | _, _ => none

/-! ## Calls of the service -/

def ask (request : SendRequest ν) : Sender κ ν :=
  { x with requests := x.requests ++ [request] }

/-- `send_file`, and the sends of a synchronization. -/
def sendFile (c : SendConfig ν) (x : Sender κ ν) (kind : TransferKind)
    (request : SendRequest ν) (target : ν) (id : κ) (saved : Bool) : Sender κ ν :=
  match openSendSession c x.files ⟨target, request.sourcePath, request.destPath,
      request.options, kind, none, id, x.requests.length, 0⟩ x.spawned with
  | .error _ => x.ask request
  | .ok s => ((x.ask request).record saved s).spawn ⟨s, true, false, .running, .requesting⟩

def broadcastFile (request : SendRequest ν) : Sender κ ν :=
  if (x.files request.sourcePath).isSome then
    { x.ask request with
      broadcasts := update x.broadcasts x.requests.length
        (some ⟨request, request.targets.map fun _ => .waiting⟩) }
  else x.ask request

def startMember (c : SendConfig ν) (x : Sender κ ν) (n slot : ℕ) (request : SendRequest ν)
    (target : ν) (id : κ) (saved : Bool) : Sender κ ν :=
  match openSendSession c x.files ⟨target, request.sourcePath, request.destPath,
      request.options, .broadcast, none, id, n, slot⟩ x.spawned with
  | .error err => x.setMember n slot (.failed err)
  | .ok s => ((x.record saved s).spawn ⟨s, false, true, .running, .requesting⟩).setMember n slot
      .running

def finishBroadcast (n : ℕ) (b : Broadcast ν) (removed : Bool) : Sender κ ν :=
  let done : Sender κ ν := { x with broadcasts := update x.broadcasts n none }
  if b.members.all (· = .completed) && b.request.options.mode == .move && removed &&
      (x.files b.request.sourcePath).isSome then
    done.removeFile n b.request.sourcePath
  else done

def pauseTransfer (id : κ) (saved : Bool) : Sender κ ν :=
  match x.sessions id with
  | none => x
  | some s =>
    if s.state ≠ .paused ∧ s.state.canTransition .paused then
      (x.record saved { s with state := .paused, error := none }).setControl s .paused
    else x

/-- A session of the registry goes on; one on disk only is sent anew by a task of its own. -/
def resumeTransfer (c : SendConfig ν) (x : Sender κ ν) (id : κ) (saved : Bool) : Sender κ ν :=
  match x.sessions id with
  | some s =>
    if s.state = .paused then
      (x.record saved { s with state := .inProgress, error := none }).setControl s .running
    else x.record saved s
  | none =>
    match x.saved id with
    | none => x
    | some s =>
      if s.sourceNode ≠ c.sourceNode ∨ s.targetNodes = [] then x
      -- `delete_source` is true, for a session of a broadcast too
      else x.spawn ⟨{ s with control := none }, true, false, .running, .queued⟩

def loadSession (id : κ) : Option (SendSession κ ν) :=
  match x.sessions id with
  | some s => some s
  | none => (x.saved id).map fun s => { s with control := none }

/-- `cancel_transfer`. A session that was on disk only is in the registry afterwards. -/
def cancelTransfer (id : κ) (sent saved : Bool) : Sender κ ν :=
  match x.loadSession id with
  | none => x
  | some s =>
    -- `load_session` puts it into the registry before the peers are told
    let loaded := x.record false s
    if sent && (s.state == .cancelled || s.state.canTransition .cancelled) then
      (loaded.record saved { s with
        state := .cancelled
        error := if s.state = .cancelled then s.error else none }).setControl s .cancelled
    else loaded

/-- The service's task for `Cancel` messages. -/
def remoteCancel (id : κ) (reason : String) (saved : Bool) : Sender κ ν :=
  match x.sessions id with
  | none => x
  | some s =>
    (x.record saved { s with state := .cancelled, error := some reason }).setControl s .cancelled

/-- The caller of a broadcast goes away, and with it the join set and its tasks. -/
def abandon (n : ℕ) : Sender κ ν :=
  { x with
    broadcasts := update x.broadcasts n none
    tasks := fun m => (x.tasks m).filter fun t => !(t.joined && t.session.operation == n) }

def restart : Sender κ ν :=
  { x with sessions := fun _ => none, tasks := fun _ => none, broadcasts := fun _ => none }

def step (c : SendConfig ν) (h : Hashing σ) (x : Sender κ ν) :
    SenderEvent κ ν → Option (Sender κ ν)
  | .sendFile kind target sourcePath destPath options id saved =>
    if kind = .broadcast then none
    else some (x.sendFile c kind ⟨[target], sourcePath, destPath, options⟩ target id saved)
  | .broadcastFile request => some (x.broadcastFile request)
  | .member n slot id saved =>
    match x.broadcasts n with
    | none => none
    | some b =>
      match b.members[slot]?, b.request.targets[slot]? with
      | some .waiting, some target => some (x.startMember c n slot b.request target id saved)
      | _, _ => none
  | .task n input saved =>
    match x.tasks n with
    | none => none
    | some t =>
      match t.session.targetNodes with
      | [] => none
      | target :: _ => x.next c h n t target saved t.stage input
  | .finish n removed =>
    match x.broadcasts n with
    | none => none
    | some b => if b.members.all (·.over) then some (x.finishBroadcast n b removed) else none
  | .abandon n => some (x.abandon n)
  | .pauseTransfer id saved => some (x.pauseTransfer id saved)
  | .resumeTransfer id saved => some (x.resumeTransfer c id saved)
  | .cancelTransfer id sent saved => some (x.cancelTransfer id sent saved)
  | .remoteCancel id reason saved => some (x.remoteCancel id reason saved)
  | .received s saved => if s.sourceNode = c.sourceNode then none else some (x.record saved s)
  | .forget id => some { x with sessions := update x.sessions id none }
  | .discard id => some { x with saved := update x.saved id none }
  | .write path content => some { x with files := update x.files path content }
  | .restart => some x.restart

end Sender

/-! ## What the steps leave alone -/

structure SenderLog (κ ν : Type*) where
  files : Files
  requests : List (SendRequest ν)
  read : List (Reading κ)
  reported : List (Report κ ν)
  removed : List (ℕ × Path)

namespace Sender

def log (x : Sender κ ν) : SenderLog κ ν :=
  ⟨x.files, x.requests, x.read, x.reported, x.removed⟩

section Log

variable {x : Sender κ ν} {n : ℕ} {t : SendTask κ ν}

@[simp] theorem log_spawn : (x.spawn t).log = x.log := rfl

@[simp] theorem log_setMember (slot : ℕ) (m : Member) : (x.setMember n slot m).log = x.log := rfl

@[simp] theorem log_goto (stage : SendStage) : (x.goto n t stage).log = x.log := rfl

@[simp] theorem log_setControl (s : SendSession κ ν) (control : TransferControlState) :
    (x.setControl s control).log = x.log := by
  rw [setControl]
  split <;> rfl

@[simp] theorem log_leave (m : Member) : (x.leave n t m).log = x.log := by
  rw [leave]
  split <;> rfl

variable [DecidableEq κ]

@[simp] theorem log_record (saved : Bool) (s : SendSession κ ν) :
    (x.record saved s).log = x.log := rfl

@[simp] theorem log_failSession (saved : Bool) (err : SendError) :
    (x.failSession n t saved err).log = x.log := by
  simp [failSession]

@[simp] theorem log_cancelSession (saved : Bool) : (x.cancelSession n t saved).log = x.log := by
  simp [cancelSession]

@[simp] theorem log_completeSession (saved : Bool) : (x.completeSession n t saved).log = x.log := by
  simp [completeSession]

end Log

/-! ### Files -/

def disk (x : Sender κ ν) : Files × List (ℕ × Path) := (x.files, x.removed)

def KeepsFiles (x y : Sender κ ν) : Prop :=
  y.disk = x.disk ∨ ∃ n path, y.disk = (x.removeFile n path).disk

section Disk

variable {x y : Sender κ ν} {n : ℕ} {t : SendTask κ ν}

theorem disk_of_log (hlog : y.log = x.log) : y.disk = x.disk :=
  congrArg (fun l => (l.files, l.removed)) hlog

theorem keepsFiles_of_log (hlog : y.log = x.log) : x.KeepsFiles y := .inl (disk_of_log hlog)

theorem disk_hear (id : κ) (sender : ν) (message : FileTransferMessage) :
    (x.hear id sender message).disk = x.disk := by
  cases message <;> rfl

theorem keepsFiles_finishBroadcast {b : Broadcast ν} {removed : Bool} :
    x.KeepsFiles (x.finishBroadcast n b removed) := by
  rw [finishBroadcast]
  split
  · exact .inr ⟨n, b.request.sourcePath, rfl⟩
  · exact .inl rfl

variable [DecidableEq κ]

variable {saved : Bool}

theorem disk_afterLoop {h : Hashing σ} {outcome : LoopOutcome}
    (hstep : x.afterLoop h n t saved outcome = some y) : y.disk = x.disk := by
  cases outcome with
  | continued | failed | cancelled | panicked =>
    cases hstep
    exact disk_of_log (by simp)
  | left loop =>
    rw [afterLoop, afterChunks] at hstep
    split at hstep
    · split at hstep
      · cases hstep
        exact disk_of_log (by simp)
      · split at hstep
        · cases hstep
          rfl
        · cases hstep
    · cases hstep
      exact disk_of_log (by simp)

variable [DecidableEq ν] {c : SendConfig ν} {h : Hashing σ}

theorem disk_afterCompletion {target sender : ν} {data : Bytes} {message : FileTransferMessage} :
    (x.afterCompletion h n t saved target data sender message).disk = x.disk := by
  have heard := disk_hear (x := x) t.session.id sender message
  rw [afterCompletion]
  split
  · exact (disk_of_log (log_failSession _ _)).trans heard
  · split
    · exact heard
    · exact (disk_of_log (log_completeSession _)).trans heard

theorem keepsFiles_next {target : ν} {stage : SendStage} {input : TaskInput ν}
    (hstep : x.next c h n t target saved stage input = some y) : x.KeepsFiles y := by
  unfold next at hstep
  split at hstep
  case h_11 =>
    obtain ⟨outcome, -, hstep⟩ := Option.bind_eq_some_iff.mp hstep
    exact .inl (disk_afterLoop hstep)
  case h_15 =>
    split at hstep
    · cases hstep
      exact .inl disk_afterCompletion
    · cases hstep
  case h_16 =>
    split at hstep
    · cases hstep
      exact .inr ⟨_, _, disk_of_log (log_completeSession _)⟩
    · cases hstep
  -- the other stages change the session and the task only
  all_goals try split at hstep
  all_goals cases hstep
  all_goals exact keepsFiles_of_log (by simp)

theorem keepsFiles_step {e : SenderEvent κ ν} (hstep : x.step c h e = some y)
    (houtside : ∀ path content, e ≠ .write path content) : x.KeepsFiles y := by
  cases e with
  | sendFile kind target sourcePath destPath options id saved =>
    rw [step, sendFile] at hstep
    split at hstep
    · cases hstep
    · cases hstep
      split <;> exact .inl rfl
  | broadcastFile request =>
    cases hstep
    rw [broadcastFile]
    split <;> exact .inl rfl
  | member n slot id saved =>
    rw [step] at hstep
    split at hstep
    · cases hstep
    · split at hstep
      · cases hstep
        rw [startMember]
        split <;> exact .inl rfl
      · cases hstep
  | task n input saved =>
    rw [step] at hstep
    split at hstep
    · cases hstep
    · split at hstep
      · cases hstep
      · exact keepsFiles_next hstep
  | finish n removed =>
    rw [step] at hstep
    split at hstep
    · cases hstep
    · split at hstep
      · cases hstep
        exact keepsFiles_finishBroadcast
      · cases hstep
  | pauseTransfer id saved =>
    cases hstep
    rw [pauseTransfer]
    split
    · exact .inl rfl
    · split <;> exact keepsFiles_of_log (by simp)
  | resumeTransfer id saved =>
    cases hstep
    rw [resumeTransfer]
    split
    · split <;> exact keepsFiles_of_log (by simp)
    · split
      · exact .inl rfl
      · split <;> exact .inl rfl
  | cancelTransfer id sent saved =>
    cases hstep
    rw [cancelTransfer]
    split
    · exact .inl rfl
    · split <;> exact keepsFiles_of_log (by simp)
  | remoteCancel id reason saved =>
    cases hstep
    rw [remoteCancel]
    split <;> exact keepsFiles_of_log (by simp)
  | received s saved =>
    rw [step] at hstep
    split at hstep
    · cases hstep
    · cases hstep
      exact .inl rfl
  | write path content => exact absurd rfl (houtside path content)
  | abandon | forget | discard | restart =>
    cases hstep
    exact .inl rfl

theorem removed_of_file_gone {e : SenderEvent κ ν} (hstep : x.step c h e = some y)
    (houtside : ∀ path content, e ≠ .write path content) {path : Path}
    (hthere : x.files path ≠ none) (hgone : y.files path = none) : ∃ n, (n, path) ∈ y.removed := by
  rcases keepsFiles_step hstep houtside with hdisk | ⟨n, path', hdisk⟩
  · obtain ⟨hfiles, -⟩ := Prod.mk.inj hdisk
    exact absurd (hfiles ▸ hgone) hthere
  · obtain ⟨hfiles, hremoved⟩ := Prod.mk.inj hdisk
    obtain rfl : path = path' := by
      by_contra hne
      rw [hfiles] at hgone
      exact hthere ((Function.update_of_ne hne _ _).symm.trans hgone)
    exact ⟨n, hremoved ▸ List.mem_append_right _ (List.mem_singleton.mpr rfl)⟩

end Disk

end Sender

end Chirps.FileTransfer
