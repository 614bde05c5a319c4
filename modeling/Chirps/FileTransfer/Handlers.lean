/-
# The handlers of one session side by side

The calls for one session are tasks that take turns. A step is what a task does under the lock of
the session map, under the guard of the persistence layer, or in one operation on a file. The
receiver may stop between any two.
-/

import Chirps.FileTransfer.Receive
import Chirps.Library.LittleEndian
import Chirps.Library.RecordLog

namespace Chirps.FileTransfer

open Chirps.Library

variable {κ : Type*}

/-! ## The journal -/

open LittleEndian in
/-- A record of `checkpoint_chunk`: the index and its complement. -/
def progressRecord : RecordCodec UInt32 UInt8 where
  width := 8
  encode index := toLe 4 index.toNat ++ toLe 4 (~~~index).toNat
  decode record :=
    let index := UInt32.ofNat (ofLe (record.take 4))
    if UInt32.ofNat (ofLe (record.drop 4)) = ~~~index then some index else none
  width_pos := by decide
  length_encode index := by rw [List.length_append, length_toLe, length_toLe]
  decode_encode index := by
    have hread : ∀ n : UInt32, UInt32.ofNat (ofLe (toLe 4 n.toNat)) = n := fun n => by
      rw [ofLe_toLe_of_lt n.toNat_lt, UInt32.ofNat_toNat]
    rw [List.take_left' (length_toLe 4 _), List.drop_left' (length_toLe 4 _), hread, hread]
    exact if_pos rfl

/-! ## Tasks -/

/-- Calls that change a session under the lock and save it before they let go. -/
inductive ControlCall
  | pauseTransfer
  | resumeTransfer
  | cancelTransfer
  | cancel
  deriving DecidableEq

/-- What the call makes of the session, or `none` if it leaves it alone and does not save. -/
def ControlCall.apply : ControlCall → TransferSession κ → Option (TransferSession κ)
  | .pauseTransfer, s =>
    if s.state ≠ .paused ∧ s.state.canTransition .paused then
      some { s with state := .paused, control := .paused }
    else none
  | .resumeTransfer, s =>
    if s.state = .paused then some { s with state := .inProgress, control := .running } else some s
  | .cancelTransfer, s =>
    if s.state = .cancelled then some { s with control := .cancelled }
    else if s.state.canTransition .cancelled then
      some { s with state := .cancelled, control := .cancelled }
    else none
  | .cancel, s => some { s with state := .cancelled, control := .cancelled }

/-- How far a save is: before the new file, the rename and the removal of the journal. -/
inductive SaveStage
  | toWrite
  | toRename
  | toRemove

/-- What a save is part of: a manifest, a call that holds the lock, or the end of a handler. -/
inductive Saver
  | manifest
  | locked
  | handler
  deriving DecidableEq

inductive Stage (κ : Type*)
  /- `handle_chunk_data` -/
  | waiting (index : UInt32)
  | stopping
  | ready (index : UInt32)
  | received (index : UInt32)
  | written (index : UInt32)
  | checkpointing (index : UInt32)
  | marking (index : UInt32)
  | acking (index : UInt32) (life : ℕ) (last : Bool)
  /- the end of `handle_chunk_data` and of `handle_finalize_request` -/
  | finalizing (fileHash : Option Bytes)
  /- `handle_manifest` -/
  | loading
  | copied (resume : Option (TransferSession κ))
  | built (s : TransferSession κ)
  | inserted
  | finishing
  | verifying
  | placing
  /- `save` -/
  | saving (s : TransferSession κ) (stage : SaveStage) (saver : Saver)

/-- The receiver of one session. `guard` holds the guard of the persistence layer, and `acks` has
the acknowledged chunks with the life of the session. -/
structure Handlers (κ : Type*) where
  session : Option (TransferSession κ)
  file : Option (TransferSession κ)
  progress : Bytes
  locked : Bool
  guard : Option ℕ
  tasks : ℕ → Option (Stage κ)
  life : ℕ
  acks : Finset (ℕ × ℕ)

/-- `tear` is an append to the journal that fails after `count` bytes, `next task false` an
operation that fails and leaves its file as it was. -/
inductive HandlerEvent
  | chunk (task : ℕ) (index : UInt32)
  | manifest (task : ℕ)
  | finalize (task : ℕ) (completion : TransferComplete)
  | control (task : ℕ) (call : ControlCall)
  | next (task : ℕ) (ok : Bool)
  | tear (task count : ℕ)
  | crash (torn : Option (ℕ × ℕ))

namespace Handlers

def initial : Handlers κ := ⟨none, none, [], false, none, fun _ => none, 0, ∅⟩

def entry (session saved : Option (TransferSession κ)) (progress : Bytes) : Entry κ Unit :=
  ⟨session, none, saved, (progressRecord.records progress).map UInt32.toNat, fun _ => none, []⟩

def load (x : Handlers κ) : Option (TransferSession κ) := (entry none x.file x.progress).load

def put (x : Handlers κ) (task : ℕ) (stage : Option (Stage κ)) : Handlers κ :=
  { x with tasks := Function.update x.tasks task stage }

def saves (c : ReceiveConfig κ) (s : TransferSession κ) : Bool :=
  c.persistence && s.manifest.options.resumable

def change (c : ReceiveConfig κ) (x : Handlers κ) (task : ℕ)
    (call : TransferSession κ → Option (TransferSession κ)) : Option (Handlers κ) :=
  if x.locked then none
  else
    match x.session.bind call with
    | none => some (x.put task none)
    | some s =>
      if saves c s then
        some { x.put task (some (.saving s .toWrite .locked)) with
          session := some s
          locked := true }
      else some { x.put task none with session := some s }

def finalized (s : TransferSession κ) (ok : Bool) (fileHash : Option Bytes) : TransferSession κ :=
  if ok then
    { s with
      state := .completed
      manifest := { s.manifest with fileHash := fileHash.getD s.manifest.fileHash } }
  else { s with state := .failed }

/-- The end of a save, which has put `progress` in place of the journal. Nobody looks at its
result. -/
def saved (x : Handlers κ) (task : ℕ) (saver : Saver) (progress : Bytes) : Handlers κ :=
  { x.put task (if saver = .manifest then some .finishing else none) with
    progress := progress
    guard := none
    locked := if saver = .locked then false else x.locked }

def next (c : ReceiveConfig κ) (m : TransferManifest κ) (x : Handlers κ) (task : ℕ) (ok : Bool) :
    Stage κ → Option (Handlers κ)
  -- the control channel may be that of a session that was replaced since
  | .waiting index => some (x.put task (some (if ok then .ready index else .stopping)))
  | .stopping => x.change c task fun s => some { s with state := .cancelled }
  | .ready index =>
    if x.locked then none
    else
      match x.session with
      | none => some (x.put task none)
      | some s =>
        some (x.put task (if index.toNat < s.manifest.chunks.length then some (.received index)
          else none))
  | .received index => some (x.put task (if ok then some (.written index) else none))
  | .written index =>
    if x.locked then none
    else
      match x.session with
      | none => some (x.put task none)
      | some s =>
        if s.state = .cancelled ∨ s.state = .failed then some (x.put task none)
        else some (x.put task (some (if saves c s then .checkpointing index else .marking index)))
  | .checkpointing index =>
    if x.guard ≠ none then none
    -- a chunk whose checkpoint fails is refused, and the sender has to send it again
    else if ok then some { x.put task (some (.marking index)) with
      progress := x.progress ++ progressRecord.encode index }
    else some (x.put task none)
  | .marking index =>
    if x.locked then none
    else
      match x.session with
      | none => some (x.put task none)
      | some s =>
        if s.state = .cancelled ∨ s.state = .failed then some (x.put task none)
        else some { x.put task (some (.acking index x.life
            (s.ends index.toNat && !s.manifest.usesTrailingIntegrity))) with
          session := some (s.advance index.toNat) }
  | .acking index life last =>
    if ok then some { x.put task (if last then some (.finalizing none) else none) with
      acks := insert (life, index.toNat) x.acks }
    else some (x.put task none)
  | .finalizing fileHash =>
    if x.locked then none
    else
      match x.session with
      | none => some (x.put task none)
      | some s =>
        let s' := finalized s ok fileHash
        some { x.put task (if saves c s' then some (.saving s' .toWrite .handler) else none) with
          session := some s' }
  | .loading =>
    if x.guard ≠ none then none
    else some (x.put task (if ok then some (.copied x.load) else none))
  | .copied resume =>
    match Entry.checkManifest c (entry resume none []) m with
    | .error _ => some (x.put task none)
    | .ok (dest, resume) =>
      some (x.put task (if ok then some (.built (Entry.newSession m dest resume)) else none))
  | .built s =>
    if x.locked then none else some { x.put task (some .inserted) with session := some s }
  | .inserted =>
    if c.persistence && m.options.resumable then
      if x.locked then none
      else
        match x.session with
        | none => some (x.put task (some .finishing))
        | some s => some (x.put task (some (.saving s .toWrite .manifest)))
    else some (x.put task (some .finishing))
  | .finishing =>
    if x.locked then none
    else some (x.put task
      (if m.isEmpty || x.session.any TransferSession.isComplete then
        if m.usesTrailingIntegrity then some .verifying else some .placing
      else none))
  | .verifying =>
    if x.locked then none
    else some { x.put task none with session := x.session.map fun s =>
      { s with state := .verifying } }
  | .placing =>
    if x.locked then none
    else if ok then
      some { x.put task none with session := x.session.map fun s => { s with state := .completed } }
    else some { x.put task none with session := none, life := x.life + 1 }
  | .saving s .toWrite saver =>
    if x.guard ≠ none then none
    else if ok then some { x.put task (some (.saving s .toRename saver)) with guard := some task }
    else some (x.saved task saver x.progress)
  | .saving s .toRename saver =>
    if x.guard = some task then
      if ok then some { x.put task (some (.saving s .toRemove saver)) with file := some s }
      else some (x.saved task saver x.progress)
    else none
  | .saving _ .toRemove saver =>
    if x.guard = some task then some (x.saved task saver (if ok then [] else x.progress))
    else none

def stop (x : Handlers κ) (progress : Bytes) : Handlers κ :=
  ⟨none, x.file, progress, false, none, fun _ => none, x.life + 1, x.acks⟩

def finalizable (s : TransferSession κ) (completion : TransferComplete) : Bool :=
  s.manifest.usesTrailingIntegrity && s.state = .verifying && s.isComplete &&
    completion.bytesTransferred = s.manifest.fileSize &&
    completion.hashAlgorithm = s.manifest.hashAlgorithm && completion.fileHash ≠ []

def step (c : ReceiveConfig κ) (m : TransferManifest κ) (x : Handlers κ) :
    HandlerEvent → Option (Handlers κ)
  | .chunk task index =>
    if (x.tasks task).isSome || x.locked then none
    else some (x.put task (x.session.map fun _ => .waiting index))
  | .manifest task =>
    if (x.tasks task).isSome || x.locked then none
    else
      match x.session with
      | some s => some (x.put task (some (.copied (some s))))
      | none => some (x.put task
          (some (if c.persistence && m.options.resumable then .loading else .copied none)))
  | .finalize task completion =>
    if (x.tasks task).isSome || x.locked then none
    else some (x.put task (if x.session.any (finalizable · completion) then
      some (.finalizing (some completion.fileHash)) else none))
  | .control task call =>
    if (x.tasks task).isSome then none else x.change c task call.apply
  | .next task ok => (x.tasks task).bind (x.next c m task ok)
  | .tear task count =>
    match x.tasks task, x.guard with
    | some (.checkpointing index), none => some { x.put task none with
        progress := x.progress ++ (progressRecord.encode index).take count }
    | _, _ => none
  | .crash none => some (x.stop x.progress)
  | .crash (some (task, count)) =>
    match x.tasks task, x.guard with
    | some (.checkpointing index), none =>
      some (x.stop (x.progress ++ (progressRecord.encode index).take count))
    | _, _ => none

end Handlers

end Chirps.FileTransfer
