/-
# What a session remembers of its chunks

A session is saved as a whole now and then, and chunks completed in between are appended to a
journal. After a crash that cuts the journal, the next record is out of place.
-/

import Chirps.FileTransfer.ChunkTracker
import Chirps.FileTransfer.Handlers
import Chirps.Library.Trace

namespace Chirps.FileTransfer

open Chirps.Library

/-- `written` has the checkpoints since the last save that are whole in the journal, with their
places. -/
structure SessionFiles where
  saved : Option ChunkTracker
  journal : Bytes
  written : List (ℕ × UInt32)

inductive JournalEvent
  | save (tracker : ChunkTracker)
  | checkpointChunk (index : UInt32)
  | crash (bytes : ℕ)

namespace SessionFiles

def save (_ : SessionFiles) (tracker : ChunkTracker) : SessionFiles := ⟨some tracker, [], []⟩

def checkpointChunk (x : SessionFiles) (index : UInt32) : SessionFiles :=
  { x with
    journal := x.journal ++ progressRecord.encode index
    written := x.written ++ [(x.journal.length, index)] }

def crash (x : SessionFiles) (bytes : ℕ) : SessionFiles :=
  { x with
    journal := x.journal.take bytes
    written := x.written.filter fun entry => entry.1 + progressRecord.width ≤ bytes }

def act (x : SessionFiles) : JournalEvent → SessionFiles
  | .save tracker => x.save tracker
  | .checkpointChunk index => x.checkpointChunk index
  | .crash bytes => x.crash bytes

def replay (tracker : ChunkTracker) (index : UInt32) : ChunkTracker :=
  if index.toNat < tracker.totalChunks then tracker.markCompleted index.toNat else tracker

def load (x : SessionFiles) : Option ChunkTracker :=
  x.saved.map fun tracker => (progressRecord.records x.journal).foldl replay tracker

def known (x : SessionFiles) : Option (Finset ℕ) :=
  x.saved.map fun tracker =>
    tracker.completed ∪ (x.written.map fun entry => entry.2.toNat).toFinset

/-- A checkpoint is of a chunk of the session, and the journal before it ends with a record. -/
def InPlace (x : SessionFiles) : JournalEvent → Prop
  | .checkpointChunk index => progressRecord.width ∣ x.journal.length ∧
      ∀ tracker ∈ x.saved, index.toNat < tracker.totalChunks
  | _ => True

instance (x : SessionFiles) (e : JournalEvent) : Decidable (x.InPlace e) := by
  unfold InPlace
  split <;> infer_instance

/-! ## Replay -/

theorem totalChunks_replay (tracker : ChunkTracker) (index : UInt32) :
    (replay tracker index).totalChunks = tracker.totalChunks := by
  rw [replay]
  split_ifs <;> rfl

theorem completed_replay (tracker : ChunkTracker) (indices : List UInt32) :
    (indices.foldl replay tracker).completed = tracker.completed ∪
      ((indices.map UInt32.toNat).filter (· < tracker.totalChunks)).toFinset := by
  induction indices generalizing tracker with
  | nil => simp
  | cons index rest ih =>
    rw [List.foldl_cons, ih, totalChunks_replay, replay]
    split_ifs with hlt
    · simp [ChunkTracker.markCompleted, hlt, Finset.insert_union]
    · simp [hlt]

theorem completed_load_handlers {κ : Type*} (x : Handlers κ) (maxRetries : ℕ) :
    x.load.map TransferSession.completed =
      (load ⟨x.file.map fun s => ⟨s.manifest.chunkCount, s.completed, ∅, ∅, maxRetries⟩,
        x.progress, []⟩).map ChunkTracker.completed := by
  cases hfile : x.file with
  | none => simp [Handlers.load, Handlers.entry, Entry.load, load, hfile]
  | some s => simp [Handlers.load, Handlers.entry, Entry.load, load, hfile, completed_replay]

/-! ## Recovery -/

variable {x : SessionFiles} {e : JournalEvent}

structure Recorded (x : SessionFiles) : Prop where
  lays : progressRecord.Lays x.journal x.written
  within : ∀ tracker ∈ x.saved, ∀ entry ∈ x.written, entry.2.toNat < tracker.totalChunks

theorem Recorded.act (h : x.Recorded) (hplace : x.InPlace e) : (x.act e).Recorded := by
  cases e with
  | save tracker => exact ⟨.nil, nofun⟩
  | checkpointChunk index =>
    obtain ⟨haligned, hlt⟩ := hplace
    refine ⟨h.lays.append haligned index, fun tracker htracker entry hentry => ?_⟩
    rcases List.mem_append.mp hentry with hentry | hentry
    · exact h.within tracker htracker entry hentry
    · rw [List.mem_singleton.mp hentry]
      exact hlt tracker htracker
  | crash bytes =>
    exact ⟨h.lays.take bytes, fun tracker htracker entry hentry =>
      h.within tracker htracker entry (List.mem_of_mem_filter hentry)⟩

theorem Recorded.load_eq (h : x.Recorded) : x.load.map ChunkTracker.completed = x.known := by
  rw [load, known, Option.map_map, h.lays.records_eq]
  cases hsaved : x.saved with
  | none => rfl
  | some tracker =>
    have hwithin : ∀ i ∈ x.written.map (fun entry => entry.2.toNat), i < tracker.totalChunks := by
      intro i hi
      obtain ⟨entry, hentry, rfl⟩ := List.mem_map.mp hi
      exact h.within tracker hsaved entry hentry
    rw [Option.map_some, Option.map_some, Function.comp_apply, completed_replay, List.map_map]
    congr 3
    exact List.filter_eq_self.mpr fun i hi => decide_eq_true (hwithin i hi)

end SessionFiles

/-- Loading finds what was saved last and the checkpoints since then, as long as these are of chunks
of the session and none is written after a torn one. -/
theorem journal_recovers_checkpoints (x : SessionFiles) (tracker : ChunkTracker)
    {events : List JournalEvent}
    (inPlace : Throughout SessionFiles.act SessionFiles.InPlace (x.save tracker) events) :
    (events.foldl SessionFiles.act (x.save tracker)).load.map ChunkTracker.completed =
      (events.foldl SessionFiles.act (x.save tracker)).known := by
  apply SessionFiles.Recorded.load_eq
  apply foldl_invariant (fun _ _ h hplace => SessionFiles.Recorded.act h hplace) _ inPlace
  exact ⟨.nil, nofun⟩

def savedFirst : ChunkTracker := (ChunkTracker.new 3 3).markCompleted 0

theorem journal_recovers_checkpoints_torn :
    ((SessionFiles.load ([.checkpointChunk 1, .checkpointChunk 2, .crash 12].foldl SessionFiles.act
      (SessionFiles.save ⟨none, [], []⟩ savedFirst))).map ChunkTracker.completed) =
        some ({0, 1} : Finset ℕ) := by
  rw [journal_recovers_checkpoints ⟨none, [], []⟩ savedFirst (by decide +kernel)]
  decide +kernel

/-- A checkpoint is torn, and the one after it is written where the journal ends. It is in the
journal and is not found. -/
theorem checkpoint_after_torn_one_is_lost :
    ([.checkpointChunk 1, .crash 4, .checkpointChunk 2].foldl SessionFiles.act
      (SessionFiles.save ⟨none, [], []⟩ savedFirst)).known = some ({0, 2} : Finset ℕ) ∧
    (([.checkpointChunk 1, .crash 4, .checkpointChunk 2].foldl SessionFiles.act
      (SessionFiles.save ⟨none, [], []⟩ savedFirst)).load.map ChunkTracker.completed) =
        some ({0} : Finset ℕ) := by
  decide +kernel

end Chirps.FileTransfer
