/-
# The WAL sink of one storage

`RealWalSink` with the storage's own coordinator, so that a sync is a pass over one participant. The
outcomes of coming writes and passes are a script. A frame is written as a whole.
-/

import Chirps.RaftStorage.Durability
import Chirps.RaftStorage.Types

namespace Chirps.RaftStorage

/-- With a coordinator of its own. A writer that is not synced is dirty. -/
structure RealWalSink where
  participant : DurabilityParticipant WalFrame
  obliged : participant.writer.Unsynced → participant.dirty = true
  /-- The answers to the coming writes: an error, or none. -/
  writeFaults : List (Option String)
  /-- The outcomes of the coming passes. -/
  syncOutcomes : List SyncOutcome

namespace RealWalSink

variable (sink : RealWalSink)

def frames : List WalFrame := sink.participant.writer.records

/-- What a reader of the file finds: the frames that have left the buffer. -/
def file : List WalFrame :=
  sink.participant.writer.records.take sink.participant.writer.flushed

def synced (sink : RealWalSink) : ℕ := sink.participant.writer.synced

/-- Every record written is synced. -/
def Settled : Prop := ¬ sink.participant.writer.Unsynced

instance (sink : RealWalSink) : Decidable sink.Settled :=
  inferInstanceAs (Decidable (¬ sink.participant.writer.Unsynced))

def registry : Registry Unit WalFrame where
  participants := [()]
  nodup := by simp
  sinks _ := sink.participant
  alive _ := true

/-- `RealWalSink::new` on a file with the given frames. -/
def openFile (frames : List WalFrame) (writeFaults : List (Option String))
    (syncOutcomes : List SyncOutcome) : RealWalSink where
  participant := ⟨⟨frames, frames.length, frames.length, le_rfl, le_rfl⟩, false⟩
  obliged h := absurd h (lt_irrefl _)
  writeFaults := writeFaults
  syncOutcomes := syncOutcomes

theorem registry_obliged : sink.registry.Obliged :=
  fun _ _ h => sink.obliged h

/-- The pass `sync` asks for. -/
def pass : Except String Unit × Registry Unit WalFrame :=
  sink.registry.syncParticipants fun _ => sink.syncOutcomes.headD .synced

theorem pass_obliged : sink.pass.2.Obliged := by
  rcases hpass : sink.pass with ⟨⟨message⟩ | ⟨⟩, after⟩
  · -- a failed pass over one participant leaves none behind
    rw [Registry.obliged_of_failed_pass_iff hpass]
    intro p hp _ hunsynced
    have hdirty : (sink.registry.sinks p).dirty = true := sink.obliged hunsynced
    refine ⟨hdirty, ?_⟩
    have hlist : sink.registry.dirtyParticipants = [()] := by
      simpa [Registry.dirtyParticipants, registry] using hdirty
    rw [hlist, Registry.afterFailure]
    split <;> simp [Registry.afterFailure]
  · intro p hp hunsynced
    exact absurd hunsynced (Registry.not_unsynced_of_syncParticipants_ok sink.registry_obliged
      hpass (List.mem_singleton_self _) rfl)

def sync : Except String Unit × RealWalSink :=
  (sink.pass.1,
    { participant := sink.pass.2.sinks ()
      obliged := fun h => sink.pass_obliged () (by
        rw [pass, Registry.syncParticipants_participants]
        exact List.mem_singleton_self _) h
      writeFaults := sink.writeFaults
      syncOutcomes := sink.syncOutcomes.tail })

/-- `append`: buffer the frame, set the flag, and sync when asked to. -/
def append (frame : WalFrame) (sync : Bool) : Except String Unit × RealWalSink :=
  match sink.writeFaults.head?.join with
  | some message => (.error message, { sink with writeFaults := sink.writeFaults.tail })
  | none =>
    let buffered : RealWalSink :=
      { participant := ⟨sink.participant.writer.appendRecord frame, true⟩
        obliged := fun _ => rfl
        writeFaults := sink.writeFaults.tail
        syncOutcomes := sink.syncOutcomes }
    if sync then buffered.sync else (.ok (), buffered)

/-! ## What the operations do to the frames -/

@[simp] theorem sync_frames : sink.sync.2.frames = sink.frames := by
  simp only [sync, frames, pass, Registry.syncParticipants, Registry.flushWriters_records,
    Registry.swapDirty_writer]
  rfl

variable {sink : RealWalSink}

theorem settled_of_sync_ok (h : sink.sync.1 = .ok ()) : sink.sync.2.Settled := by
  have hpass : sink.pass = (.ok (), sink.pass.2) := Prod.ext h rfl
  exact Registry.not_unsynced_of_syncParticipants_ok sink.registry_obliged hpass
    (List.mem_singleton_self _) rfl

theorem synced_le_sync (sink : RealWalSink) : sink.synced ≤ sink.sync.2.synced := by
  have h := Registry.le_synced_flushWriters (fun _ => sink.syncOutcomes.headD .synced)
    sink.registry.dirtyParticipants sink.registry.swapDirty ()
  rw [Registry.swapDirty_writer] at h
  exact h

theorem append_any (sink : RealWalSink) (frame : WalFrame) (sync : Bool) :
    ((sink.append frame sync).2.frames = sink.frames ∨
        (sink.append frame sync).2.frames = sink.frames ++ [frame]) ∧
      sink.synced ≤ (sink.append frame sync).2.synced := by
  rw [append]
  split
  · exact ⟨.inl rfl, le_rfl⟩
  · cases sync with
    | false => exact ⟨.inr rfl, le_rfl⟩
    | true =>
      have hsynced := synced_le_sync
        { participant := ⟨sink.participant.writer.appendRecord frame, true⟩
          obliged := fun _ => rfl
          writeFaults := sink.writeFaults.tail
          syncOutcomes := sink.syncOutcomes }
      exact ⟨.inr (sync_frames _), hsynced⟩

theorem Settled.file_eq (settled : sink.Settled) : sink.file = sink.frames := by
  have hsynced : sink.participant.writer.records.length ≤ sink.participant.writer.synced :=
    not_lt.mp settled
  exact List.take_of_length_le (hsynced.trans sink.participant.writer.synced_le_flushed)

theorem append_frames_of_ok {frame : WalFrame} {sync : Bool}
    (h : (sink.append frame sync).1 = .ok ()) :
    (sink.append frame sync).2.frames = sink.frames ++ [frame] := by
  rw [append] at h ⊢
  split at h
  · cases h
  · cases sync with
    | false => rfl
    | true => exact sync_frames _

theorem settled_of_append_ok {frame : WalFrame} (h : (sink.append frame true).1 = .ok ()) :
    (sink.append frame true).2.Settled := by
  rw [append] at h ⊢
  split at h
  · cases h
  · exact settled_of_sync_ok h

theorem openFile_settled (frames : List WalFrame) (writeFaults : List (Option String))
    (syncOutcomes : List SyncOutcome) : (openFile frames writeFaults syncOutcomes).Settled :=
  lt_irrefl _

end RealWalSink

end Chirps.RaftStorage
