/-
# Sending a snapshot

The sender announces the manifest, sends at most `max_concurrent_chunks` chunks at a time, retries
them up to `max_retries` times and asks the sink to finish. Any other failure ends in an abort.
-/

import Chirps.Raft.SnapshotTransfer

namespace Chirps.Raft

open Chirps.Library

/-- The limits of `SnapshotTransferConfig` that `validate` accepts. -/
structure SnapshotTransferConfig where
  chunkThreshold : ℕ
  chunkSize : ℕ
  maxConcurrentChunks : ℕ
  maxRetries : ℕ
  threshold_pos : 0 < chunkThreshold
  chunkSize_pos : 0 < chunkSize
  concurrent_pos : 0 < maxConcurrentChunks

structure SnapshotTransferReceipt where
  installed : Bool
  sizeBytes : UInt64

inductive TransferFailure
  | invalid (error : SnapshotTransferError)
  | retryable (message : String)
  | terminal (message : String)
  | timeout

def TransferFailure.isRetryable : TransferFailure → Bool
  | .retryable _ => true
  | _ => false

/-- The calls of a `SnapshotChunkSink`. -/
inductive SinkCall
  | begin
  | sendChunk (index : ℕ)
  | finish
  | abort
  deriving DecidableEq

/-- A chunk that was taken from the stream, and the attempt that it is at or that it ended with. -/
inductive ChunkSend
  | active (attempt : ℕ)
  | acknowledged (attempt : ℕ)

/-- What `transfer` is waiting for. -/
inductive SenderPhase
  | beginning
  | sending
  | finishing
  | aborting (error : TransferFailure)
  | returned (result : Except TransferFailure SnapshotTransferReceipt)

structure SnapshotSender (Digest : Type*) where
  manifest : SnapshotManifest Digest
  bytes : Bytes
  phase : SenderPhase
  chunks : List ChunkSend
  expired : Bool
  calls : List SinkCall

/-- Whatever the call was, its reply has a receipt, which only that of `finish` is read for. -/
inductive SenderEvent
  | pull
  | collect
  | reply (call : SinkCall) (result : Except TransferFailure SnapshotTransferReceipt)
  | expire

namespace ChunkSend

def sends : ChunkSend → ℕ
  | .active attempt | .acknowledged attempt => attempt + 1

def isActive : ChunkSend → ℕ
  | .active _ => 1
  | .acknowledged _ => 0

end ChunkSend

namespace SnapshotSender

variable {Digest : Type*}

def chunkCount (s : SnapshotSender Digest) : ℕ := s.manifest.chunkCount.toNat

def active (s : SnapshotSender Digest) : ℕ := (s.chunks.map ChunkSend.isActive).sum

def fail (s : SnapshotSender Digest) (error : TransferFailure) : SnapshotSender Digest :=
  { s with phase := .aborting error, calls := s.calls ++ [.abort] }

/-- `transfer` up to its call of `begin`. -/
def transfer (c : SnapshotTransferConfig) (sha256 : Bytes → Digest) (snapshotId : String)
    (bytes : Bytes) : Except SnapshotTransferError (SnapshotSender Digest) :=
  let chunkSize := if c.chunkThreshold < bytes.length then c.chunkSize else max bytes.length 1
  (SnapshotManifest.fromBytes sha256 snapshotId bytes chunkSize).map fun manifest =>
    ⟨manifest, bytes, .beginning, [], false, [.begin]⟩

def step (c : SnapshotTransferConfig) (sha256 : Bytes → Digest) (s : SnapshotSender Digest) :
    SenderEvent → Option (SnapshotSender Digest)
  -- `buffer_unordered` takes the next chunk while there is room
  | .pull =>
    match s.phase with
    | .sending =>
      if s.chunks.length < s.chunkCount ∧ s.active < c.maxConcurrentChunks then
        match buildChunk sha256 s.manifest s.bytes (.ofNat s.chunks.length) with
        | .error error => some (s.fail (.invalid error))
        | .ok _ => some { s with
            chunks := s.chunks ++ [.active 0], calls := s.calls ++ [.sendChunk s.chunks.length] }
      else none
    | _ => none
  | .collect =>
    match s.phase with
    | .sending =>
      if s.chunks.length = s.chunkCount ∧ s.active = 0 then
        some { s with phase := .finishing, calls := s.calls ++ [.finish] }
      else none
    | _ => none
  | .reply .begin result =>
    match s.phase, result with
    | .beginning, .ok _ => some { s with phase := .sending }
    | .beginning, .error error => some { s with phase := .returned (.error error) }
    | _, _ => none
  | .reply (.sendChunk index) result =>
    match s.phase, s.chunks[index]?, result with
    | .sending, some (.active attempt), .ok _ =>
      some { s with chunks := s.chunks.set index (.acknowledged attempt) }
    | .sending, some (.active attempt), .error error =>
      if error.isRetryable ∧ attempt < c.maxRetries then
        some { s with
          chunks := s.chunks.set index (.active (attempt + 1))
          calls := s.calls ++ [.sendChunk index] }
      else some (s.fail error)
    | _, _, _ => none
  | .reply .finish result =>
    match s.phase, result with
    | .finishing, .ok receipt =>
      if receipt.installed then some { s with phase := .returned (.ok receipt) }
      else some (s.fail (.terminal "receiver completed without installing the snapshot"))
    | .finishing, .error error => some (s.fail error)
    | _, _ => none
  | .reply .abort _ =>
    match s.phase with
    | .aborting error => some { s with phase := .returned (.error error) }
    | _ => none
  -- the timeout drops all calls and asks for an abort of its own
  | .expire =>
    match s.phase with
    | .returned _ => none
    | _ => if s.expired then none else some { s.fail .timeout with expired := true }

/-! ### What a step can do -/

def rank : SenderPhase → Bool → ℕ
  | .beginning, _ => 5
  | .sending, _ => 4
  | .finishing, _ => 3
  | .aborting _, false => 2
  | .aborting _, true => 1
  | .returned _, _ => 0

inductive Turn (c : SnapshotTransferConfig) (s : SnapshotSender Digest) :
    SnapshotSender Digest → Prop
  | pull (hmore : s.chunks.length < s.chunkCount) (hroom : s.active < c.maxConcurrentChunks)
      (hphase : s.phase = .sending) : Turn c s { s with
        chunks := s.chunks ++ [.active 0], calls := s.calls ++ [.sendChunk s.chunks.length] }
  | acknowledge {index attempt : ℕ} (hactive : s.chunks[index]? = some (.active attempt))
      (hphase : s.phase = .sending) :
      Turn c s { s with chunks := s.chunks.set index (.acknowledged attempt) }
  | retry {index attempt : ℕ} (hactive : s.chunks[index]? = some (.active attempt))
      (hleft : attempt < c.maxRetries) (hphase : s.phase = .sending) : Turn c s { s with
        chunks := s.chunks.set index (.active (attempt + 1))
        calls := s.calls ++ [.sendChunk index] }
  /-- The chunks are left alone. -/
  | move {phase : SenderPhase} {expired : Bool} {calls : List SinkCall}
      (hrank : rank phase expired < rank s.phase s.expired)
      (hcalls : calls.length ≤ 1 ∧ ∀ index, .sendChunk index ∉ calls)
      (hdone : phase = .finishing → s.chunks.length = s.chunkCount ∧ s.active = 0)
      (hreturned : ∀ receipt, phase = .returned (.ok receipt) →
        s.phase = .finishing ∧ receipt.installed = true) :
      Turn c s { s with phase, expired, calls := s.calls ++ calls }

variable {c : SnapshotTransferConfig} {sha256 : Bytes → Digest} {s next : SnapshotSender Digest}

theorem turn_fail {error : TransferFailure} {expired : Bool}
    (hrank : rank (.aborting error) expired < rank s.phase s.expired) :
    Turn c s { s.fail error with expired } :=
  .move hrank ⟨le_rfl, by simp⟩ nofun nofun

theorem turn_quiet {phase : SenderPhase} (hrank : rank phase s.expired < rank s.phase s.expired)
    (hdone : phase ≠ .finishing) (hreturned : ∀ receipt, phase = .returned (.ok receipt) →
      s.phase = .finishing ∧ receipt.installed = true) : Turn c s { s with phase } := by
  have h : Turn c s { s with phase, calls := s.calls ++ [] } :=
    .move hrank ⟨Nat.zero_le _, by simp⟩ (fun h => absurd h hdone) hreturned
  rwa [List.append_nil] at h

theorem rank_fail (error : TransferFailure) (expired : Bool) :
    rank (.aborting error) expired ≤ 2 := by
  cases expired <;> simp [rank]

theorem turn_of_step {e : SenderEvent} (hstep : s.step c sha256 e = some next) : Turn c s next := by
  have early (error : TransferFailure) (h : 2 < rank s.phase s.expired) :
      Turn c s (s.fail error) := turn_fail ((rank_fail error s.expired).trans_lt h)
  unfold step at hstep
  split at hstep
  · split at hstep
    · rename_i hphase
      obtain ⟨⟨hmore, hroom⟩, hstep⟩ := Option.ite_none_right_eq_some.mp hstep
      split at hstep <;> cases hstep
      · exact early _ (by simp [hphase, rank])
      · exact .pull hmore hroom hphase
    · cases hstep
  · split at hstep
    · rename_i hphase
      obtain ⟨hdone, ⟨⟩⟩ := Option.ite_none_right_eq_some.mp hstep
      exact .move (by simp [hphase, rank]) ⟨le_rfl, by simp⟩ (fun _ => hdone) nofun
    · cases hstep
  · split at hstep <;> cases hstep <;> rename_i hphase
    · exact turn_quiet (by simp [hphase, rank]) nofun nofun
    · exact turn_quiet (by simp [hphase, rank]) nofun nofun
  · split at hstep
    · rename_i hphase hactive
      cases hstep
      exact .acknowledge hactive hphase
    · rename_i hphase hactive
      split at hstep <;> cases hstep
      · rename_i hagain
        exact .retry hactive hagain.2 hphase
      · exact early _ (by simp [hphase, rank])
    · cases hstep
  · split at hstep
    · rename_i receipt hphase
      split at hstep <;> cases hstep
      · rename_i hinstalled
        refine turn_quiet (by simp [hphase, rank]) nofun fun receipt' heq => ?_
        cases heq
        exact ⟨hphase, hinstalled⟩
      · exact early _ (by simp [hphase, rank])
    · rename_i hphase
      cases hstep
      exact early _ (by simp [hphase, rank])
    · cases hstep
  · split at hstep <;> cases hstep
    rename_i hphase
    refine turn_quiet ?_ nofun nofun
    cases hexpired : s.expired <;> simp [hphase, rank]
  · split at hstep
    · cases hstep
    rename_i hrunning
    obtain ⟨hexpired, ⟨⟩⟩ := Option.ite_none_left_eq_some.mp hstep
    refine turn_fail ?_
    cases hphase : s.phase with
    | returned result => exact absurd hphase (hrunning result)
    | _ => simp [hexpired, rank]

/-! ### Runs -/

def left (c : SnapshotTransferConfig) : ChunkSend → ℕ
  | .active attempt => c.maxRetries + 1 - attempt
  | .acknowledged _ => 0

def fuel (c : SnapshotTransferConfig) (s : SnapshotSender Digest) : ℕ :=
  (s.chunkCount - s.chunks.length) * (c.maxRetries + 2) + (s.chunks.map (left c)).sum +
    rank s.phase s.expired

structure Inv (c : SnapshotTransferConfig) (s : SnapshotSender Digest) : Prop where
  sends : ∀ i, s.calls.count (.sendChunk i) = (s.chunks[i]?.map ChunkSend.sends).getD 0
  attempts : ∀ chunk ∈ s.chunks, chunk.sends ≤ c.maxRetries + 1
  window : s.active ≤ c.maxConcurrentChunks
  length_le : s.chunks.length ≤ s.chunkCount
  done : s.phase = .finishing ∨ (∃ receipt, s.phase = .returned (.ok receipt)) →
    s.chunks.length = s.chunkCount ∧ s.active = 0
  installed : ∀ receipt, s.phase = .returned (.ok receipt) → receipt.installed = true

theorem sum_map_set {α : Type*} {l : List α} {i : ℕ} {old : α} (f : α → ℕ) (new : α)
    (h : l[i]? = some old) : ((l.set i new).map f).sum + f old = (l.map f).sum + f new := by
  induction l generalizing i with
  | nil => simp at h
  | cons a rest ih =>
    cases i with
    | zero =>
      cases h
      simp only [List.set_cons_zero, List.map_cons, List.sum_cons]
      omega
    | succ i =>
      have := ih (by simpa using h)
      simp only [List.set_cons_succ, List.map_cons, List.sum_cons]
      omega

theorem Inv.set (inv : Inv c s) {index attempt : ℕ} (new : ChunkSend) (more : ℕ)
    (calls : List SinkCall) (hactive : s.chunks[index]? = some (.active attempt))
    (hphase : s.phase = .sending) (hsends : new.sends = attempt + 1 + more)
    (hle : new.sends ≤ c.maxRetries + 1) (hwindow : new.isActive ≤ 1)
    (hcalls : ∀ i, calls.count (.sendChunk i) = if i = index then more else 0) :
    Inv c { s with chunks := s.chunks.set index new, calls := s.calls ++ calls } where
  sends i := by
    have hlt : index < s.chunks.length := (List.getElem?_eq_some_iff.mp hactive).1
    rw [List.count_append, hcalls, List.getElem?_set, inv.sends]
    by_cases heq : i = index
    · subst heq
      rw [hactive, if_pos rfl, if_pos rfl, if_pos hlt]
      exact hsends.symm
    · simp [heq, Ne.symm heq]
  attempts chunk hchunk := by
    rcases List.mem_or_eq_of_mem_set hchunk with hold | rfl
    · exact inv.attempts chunk hold
    · exact hle
  window := by
    have hsum : _ + 1 = _ := sum_map_set ChunkSend.isActive new hactive
    have hwas : (s.chunks.map ChunkSend.isActive).sum ≤ c.maxConcurrentChunks := inv.window
    change ((s.chunks.set index new).map _).sum ≤ _
    omega
  length_le := (List.length_set ..).trans_le inv.length_le
  done h := by
    rw [hphase] at h
    rcases h with h | ⟨_, h⟩ <;> cases h
  installed receipt h := by cases hphase.symm.trans h

theorem Inv.turn (inv : Inv c s) (turn : Turn c s next) : Inv c next := by
  cases turn with
  | pull hmore hroom hphase =>
    refine ⟨fun i => ?_, fun chunk hchunk => ?_, ?_, ?_, ?_, fun receipt h => ?_⟩
    · rw [List.count_append, inv.sends, List.count_singleton]
      rcases Nat.lt_trichotomy i s.chunks.length with hlt | rfl | hgt
      · simp [List.getElem?_append_left hlt, hlt.ne']
      · simp [ChunkSend.sends]
      · simp [List.getElem?_eq_none hgt.le, List.getElem?_append_right hgt.le, hgt.ne,
          Nat.sub_ne_zero_of_lt hgt]
    · rcases List.mem_append.mp hchunk with hold | hnew
      · exact inv.attempts chunk hold
      · rw [List.mem_singleton.mp hnew]
        exact Nat.le_add_left _ _
    · simpa [active, ChunkSend.isActive] using hroom
    · rw [List.length_append]
      exact hmore
    · rw [hphase]
      rintro (h | ⟨_, h⟩) <;> cases h
    · cases hphase.symm.trans h
  | @acknowledge index attempt hactive hphase =>
    have hle := inv.attempts _ (List.mem_of_getElem? hactive)
    have h := inv.set (.acknowledged attempt) 0 [] hactive hphase rfl hle (Nat.zero_le _) (by simp)
    rwa [List.append_nil] at h
  | @retry index attempt hactive hleft hphase =>
    refine inv.set _ 1 _ hactive hphase rfl (Nat.succ_le_succ hleft) le_rfl fun i => ?_
    rcases eq_or_ne i index with rfl | hne
    · simp
    · simp [hne, hne.symm]
  | move hrank hcalls hdone hreturned =>
    refine ⟨fun i => ?_, inv.attempts, inv.window, inv.length_le, ?_,
      fun receipt h => (hreturned receipt h).2⟩
    · rw [List.count_append, List.count_eq_zero_of_not_mem (hcalls.2 i)]
      exact inv.sends i
    · rintro (h | ⟨receipt, h⟩)
      · exact hdone h
      · exact inv.done (.inl (hreturned receipt h).1)

theorem Turn.fuel_lt (turn : Turn c s next) (inv : Inv c s) :
    next.fuel c < s.fuel c ∧ next.calls.length ≤ s.calls.length + 1 ∧
      next.chunkCount = s.chunkCount := by
  cases turn with
  | pull hmore hroom hphase =>
    refine ⟨?_, by simp, rfl⟩
    obtain ⟨rest, hrest⟩ : ∃ rest, s.chunkCount - s.chunks.length = rest + 1 :=
      Nat.exists_eq_succ_of_ne_zero (by omega)
    have hnext : s.chunkCount - (s.chunks ++ [ChunkSend.active 0]).length = rest := by
      rw [List.length_append, List.length_singleton]
      omega
    change (s.chunkCount - _) * _ + _ + rank s.phase s.expired < _
    rw [fuel, hnext, hrest, Nat.succ_mul, List.map_append, List.sum_append, List.map_singleton,
      List.sum_singleton, left]
    omega
  | @acknowledge index attempt hactive hphase =>
    refine ⟨?_, Nat.le_succ _, rfl⟩
    have hsum := sum_map_set (left c) (.acknowledged attempt) hactive
    have hle := inv.attempts _ (List.mem_of_getElem? hactive)
    simp only [left, ChunkSend.sends] at hsum hle
    simp only [fuel, chunkCount, List.length_set]
    omega
  | @retry index attempt hactive hleft hphase =>
    refine ⟨?_, by simp, rfl⟩
    have hsum := sum_map_set (left c) (.active (attempt + 1)) hactive
    simp only [left] at hsum
    simp only [fuel, chunkCount, List.length_set]
    omega
  | move hrank hcalls hdone hreturned =>
    refine ⟨Nat.add_lt_add_left hrank _, ?_, rfl⟩
    rw [List.length_append]
    exact Nat.add_le_add_left hcalls.1 _

theorem isActive_of_active (h : s.active = 0) {chunk : ChunkSend} (hchunk : chunk ∈ s.chunks) :
    chunk.isActive = 0 :=
  List.sum_eq_zero_iff_forall_eq_nat.mp h _ (List.mem_map_of_mem hchunk)

theorem exists_active (h : s.active ≠ 0) :
    ∃ index attempt : ℕ, s.chunks[index]? = some (.active attempt) := by
  by_contra! hnone
  refine h (List.sum_eq_zero_iff_forall_eq_nat.mpr fun n hn => ?_)
  obtain ⟨chunk, hchunk, rfl⟩ := List.mem_map.mp hn
  obtain ⟨index, hget⟩ := List.getElem?_of_mem hchunk
  cases chunk with
  | active attempt => exact absurd hget (hnone index attempt)
  | acknowledged attempt => rfl

theorem inv_of_transfer {snapshotId : String} {bytes : Bytes}
    (hopen : transfer c sha256 snapshotId bytes = .ok s) :
    Inv c s ∧ s.fuel c = s.chunkCount * (c.maxRetries + 2) + 5 ∧ s.calls.length = 1 := by
  unfold transfer at hopen
  cases hmanifest : SnapshotManifest.fromBytes sha256 snapshotId bytes
      (if c.chunkThreshold < bytes.length then c.chunkSize else max bytes.length 1) with
  | error error => simp [hmanifest, Except.map] at hopen
  | ok manifest =>
    simp only [hmanifest, Except.map] at hopen
    cases hopen
    refine ⟨⟨fun i => rfl, nofun, Nat.zero_le _, Nat.zero_le _, ?_, nofun⟩, rfl, rfl⟩
    rintro (h | ⟨_, h⟩) <;> cases h

theorem Inv.run (inv : Inv c s) {events : List SenderEvent} {t : SnapshotSender Digest}
    (reach : Library.run (step c sha256) s events = some t) :
    Inv c t ∧ events.length + t.fuel c ≤ s.fuel c ∧
      t.calls.length ≤ s.calls.length + events.length ∧ t.chunkCount = s.chunkCount := by
  induction events generalizing s with
  | nil =>
    cases reach
    exact ⟨inv, (Nat.zero_add _).le, le_rfl, rfl⟩
  | cons e rest ih =>
    obtain ⟨next, hstep, hrest⟩ := run_cons_eq_some.mp reach
    have turn := turn_of_step hstep
    obtain ⟨hfuel, hcalls, hcount⟩ := turn.fuel_lt inv
    obtain ⟨hinv, hfuels, hsent, hsame⟩ := ih (inv.turn turn) hrest
    rw [List.length_cons]
    exact ⟨hinv, by omega, by omega, hsame.trans hcount⟩

/-- The sender has returned, gets on by itself, or goes on whatever the call under way returns. -/
def Goes (c : SnapshotTransferConfig) (sha256 : Bytes → Digest) (s : SnapshotSender Digest) :
    Prop :=
  (∃ result, s.phase = .returned result) ∨ (s.step c sha256 .pull).isSome ∨
    (s.step c sha256 .collect).isSome ∨
    ∃ call, ∀ result, (s.step c sha256 (.reply call result)).isSome

theorem Inv.goes (inv : Inv c s) : Goes c sha256 s := by
  cases hphase : s.phase with
  | returned result => exact .inl ⟨result, hphase⟩
  | beginning =>
    refine .inr (.inr (.inr ⟨.begin, fun result => ?_⟩))
    cases result <;> simp [step, hphase]
  | finishing =>
    refine .inr (.inr (.inr ⟨.finish, fun result => ?_⟩))
    cases result
    · simp [step, hphase]
    · simp only [step, hphase]
      split <;> rfl
  | aborting error => exact .inr (.inr (.inr ⟨.abort, fun result => by simp [step, hphase]⟩))
  | sending =>
    by_cases hactive : s.active = 0
    · rcases inv.length_le.lt_or_eq with hmore | hdone
      · refine .inr (.inl ?_)
        simp only [step, hphase, hmore, hactive, c.concurrent_pos, and_self, if_true]
        split <;> rfl
      · exact .inr (.inr (.inl (by simp [step, hphase, hdone, hactive])))
    · -- some chunk is in flight, and its reply is taken
      obtain ⟨index, attempt, hget⟩ := exists_active hactive
      refine .inr (.inr (.inr ⟨.sendChunk index, fun result => ?_⟩))
      cases result
      · simp only [step, hphase, hget]
        split <;> rfl
      · simp [step, hphase, hget]

/-- Whatever the sink replies, `Ok` means that it acknowledged every chunk and installed the
snapshot, retries and concurrent sends are bounded, and so are steps and calls. -/
theorem snapshot_sender_is_sound {snapshotId : String} {bytes : Bytes}
    {start : SnapshotSender Digest} (hopen : transfer c sha256 snapshotId bytes = .ok start)
    {events : List SenderEvent} (reach : Library.run (step c sha256) start events = some s) :
    (∀ receipt, s.phase = .returned (.ok receipt) → receipt.installed = true ∧
      ∀ i < start.chunkCount, ∃ attempt, s.chunks[i]? = some (.acknowledged attempt)) ∧
    (∀ i, s.calls.count (.sendChunk i) ≤ c.maxRetries + 1) ∧ s.active ≤ c.maxConcurrentChunks ∧
    events.length ≤ start.chunkCount * (c.maxRetries + 2) + 5 ∧
    s.calls.length ≤ start.chunkCount * (c.maxRetries + 2) + 6 ∧ Goes c sha256 s := by
  obtain ⟨hinv, hfuel, hone⟩ := inv_of_transfer hopen
  obtain ⟨inv, hle, hcalls, hcount⟩ := hinv.run reach
  refine ⟨fun receipt hok => ⟨inv.installed receipt hok, fun i hi => ?_⟩, fun i => ?_,
    inv.window, by omega, by omega, inv.goes⟩
  · obtain ⟨hall, hnone⟩ := inv.done (.inr ⟨receipt, hok⟩)
    have hlt : i < s.chunks.length := by omega
    cases hchunk : s.chunks[i] with
    | acknowledged attempt => exact ⟨attempt, List.getElem?_eq_some_iff.mpr ⟨hlt, hchunk⟩⟩
    | active attempt =>
      have h := isActive_of_active hnone (List.getElem_mem hlt)
      rw [hchunk] at h
      cases h
  · rw [inv.sends]
    cases hchunk : s.chunks[i]? with
    | none => exact Nat.zero_le _
    | some chunk => exact inv.attempts chunk (List.mem_of_getElem? hchunk)

def oneRetry : SnapshotTransferConfig := ⟨1, 1, 2, 1, Nat.one_pos, Nat.one_pos, Nat.two_pos⟩

def threeBytes : SnapshotSender ℕ :=
  ⟨⟨"s", 3, 1, 3, 3⟩, [7, 8, 9], .beginning, [], false, [.begin]⟩

/-- Two chunks are under way at a time. The second is refused once, and is acknowledged last. -/
def refusedOnce : List SenderEvent :=
  [.reply .begin (.ok ⟨false, 0⟩), .pull, .pull,
    .reply (.sendChunk 1) (.error (.retryable "busy")), .reply (.sendChunk 0) (.ok ⟨false, 0⟩),
    .pull, .reply (.sendChunk 2) (.ok ⟨false, 0⟩), .reply (.sendChunk 1) (.ok ⟨false, 0⟩),
    .collect, .reply .finish (.ok ⟨true, 3⟩)]

def threeBytesSent : SnapshotSender ℕ :=
  { threeBytes with
    phase := .returned (.ok ⟨true, 3⟩)
    chunks := [.acknowledged 0, .acknowledged 1, .acknowledged 0]
    calls := [.begin, .sendChunk 0, .sendChunk 1, .sendChunk 1, .sendChunk 2, .finish] }

theorem snapshot_sender_is_sound_refused :
    transfer oneRetry List.length "s" [7, 8, 9] = .ok threeBytes ∧
    Library.run (step oneRetry List.length) threeBytes refusedOnce = some threeBytesSent ∧
    threeBytesSent.calls.count (.sendChunk 1) ≤ 2 :=
  have hopen : transfer oneRetry List.length "s" [7, 8, 9] = .ok threeBytes := rfl
  have reach : Library.run (step oneRetry List.length) threeBytes refusedOnce =
    some threeBytesSent := rfl
  ⟨hopen, reach, (snapshot_sender_is_sound hopen reach).2.1 1⟩

/-! ### The session of the receiver -/

/-- `Begin` inserts a session, `Finish` and `Abort` remove it. -/
def hasSession (processed : List SinkCall) : Bool :=
  processed.foldl (fun session call => match call with
    | .begin => true
    | .sendChunk _ => session
    | .finish | .abort => false) false

def Closed (s : SnapshotSender Digest) : Prop :=
  (∃ receipt, s.phase = .returned (.ok receipt) ∧ receipt.installed = true ∧
    s.calls.getLast? = some .finish) ∨ s.calls.getLast? = some .abort

def Closing (s : SnapshotSender Digest) : Prop :=
  match s.phase with
  | .beginning | .sending => True
  | .finishing => s.calls.getLast? = some .finish
  | .aborting _ => s.calls.getLast? = some .abort
  | .returned _ => s.Closed

theorem closing_fail (error : TransferFailure) (expired : Bool) :
    ({ s.fail error with expired } : SnapshotSender Digest).Closing :=
  List.getLast?_concat

theorem Closing.step {e : SenderEvent} (closing : s.Closing)
    (hbegin : ∀ error, e ≠ .reply .begin (.error error)) (hstep : s.step c sha256 e = some next) :
    next.Closing := by
  have fail (error : TransferFailure) : (s.fail error).Closing := closing_fail error s.expired
  have sending (hphase : s.phase = .sending) (chunks : List ChunkSend) (calls : List SinkCall) :
      ({ s with chunks, calls } : SnapshotSender Digest).Closing := by
    simp [Closing, hphase]
  unfold SnapshotSender.step at hstep
  split at hstep
  · split at hstep
    · rename_i hphase
      obtain ⟨-, hstep⟩ := Option.ite_none_right_eq_some.mp hstep
      split at hstep <;> cases hstep
      · exact fail _
      · exact sending hphase _ _
    · cases hstep
  · split at hstep
    · obtain ⟨-, ⟨⟩⟩ := Option.ite_none_right_eq_some.mp hstep
      exact List.getLast?_concat
    · cases hstep
  · split at hstep <;> cases hstep
    · trivial
    · exact absurd rfl (hbegin _)
  · split at hstep
    · rename_i hphase _
      cases hstep
      exact sending hphase _ _
    · rename_i hphase _
      split at hstep <;> cases hstep
      · exact sending hphase _ _
      · exact fail _
    · cases hstep
  · split at hstep
    · rename_i receipt hphase
      have hlast : s.calls.getLast? = some .finish := by simpa only [Closing, hphase] using closing
      split at hstep <;> cases hstep
      · rename_i hinstalled
        exact .inl ⟨receipt, rfl, hinstalled, hlast⟩
      · exact fail _
    · cases hstep
      exact fail _
    · cases hstep
  · split at hstep <;> cases hstep
    rename_i hphase
    exact .inr (by simpa only [Closing, hphase] using closing)
  · split at hstep
    · cases hstep
    obtain ⟨-, ⟨⟩⟩ := Option.ite_none_left_eq_some.mp hstep
    exact closing_fail _ _

theorem not_closed_of_begin_error {start : SnapshotSender Digest} (hstart : start.calls = [.begin])
    {events : List SenderEvent} {error : TransferFailure}
    (reach : Library.run (SnapshotSender.step c sha256) start events = some s)
    (hmem : .reply .begin (.error error) ∈ events) : ¬s.Closed := by
  obtain ⟨before, after, rfl⟩ := List.append_of_mem hmem
  obtain ⟨mid, hbefore, hafter⟩ := run_append_eq_some.mp reach
  obtain ⟨next, hstep, hafter⟩ := run_cons_eq_some.mp hafter
  have hcalls : mid.phase = .beginning → mid.calls = [.begin] := by
    refine run_invariant (I := fun x : SnapshotSender Digest => x.phase = .beginning →
      x.calls = [.begin]) (fun x e y inv hstep hy => ?_) (fun _ => hstart) hbefore
    cases turn_of_step hstep with
    | move hrank =>
      dsimp only at hy
      subst hy
      have hle : rank x.phase x.expired ≤ 5 := by
        unfold rank
        split <;> decide
      exact absurd hrank hle.not_gt
    | pull _ _ hphase | acknowledge _ hphase | retry _ _ hphase => cases hphase.symm.trans hy
  obtain ⟨hphase, rfl⟩ : mid.phase = .beginning ∧
      { mid with phase := .returned (.error error) } = next := by
    simp only [SnapshotSender.step] at hstep
    split at hstep
    · rename_i heq
      cases heq
    · rename_i hphase heq
      cases heq
      exact ⟨hphase, Option.some.inj hstep⟩
    · cases hstep
  cases after with
  | nil =>
    cases hafter
    simp [Closed, hcalls hphase]
  | cons e rest =>
    obtain ⟨_, hstep, -⟩ := run_cons_eq_some.mp hafter
    cases turn_of_step hstep with
    | move hrank => exact absurd hrank (Nat.not_lt_zero _)
    | pull _ _ hphase | acknowledge _ hphase | retry _ _ hphase => cases hphase

/-- A transfer that has returned was installed or aborted, if and only if no reply to `begin` was an
error; then the receiver has no session left. -/
theorem snapshot_session_closed_iff {snapshotId : String} {bytes : Bytes}
    {start : SnapshotSender Digest} (hopen : transfer c sha256 snapshotId bytes = .ok start)
    {events : List SenderEvent}
    (reach : Library.run (SnapshotSender.step c sha256) start events = some s)
    {result : Except TransferFailure SnapshotTransferReceipt}
    (hreturned : s.phase = .returned result) :
    (s.Closed ↔ ∀ error, .reply .begin (.error error) ∉ events) ∧
    (s.Closed → ∀ processed : List SinkCall, processed.Sublist s.calls →
      processed.getLast? = s.calls.getLast? → hasSession processed = false) := by
  obtain ⟨hphase, hcalls⟩ : start.phase = .beginning ∧ start.calls = [.begin] := by
    simp only [transfer, Except.map] at hopen
    split at hopen <;> cases hopen
    exact ⟨rfl, rfl⟩
  refine ⟨⟨fun closed error hmem => not_closed_of_begin_error hcalls reach hmem closed,
    fun hnone => ?_⟩, fun closed processed _ hlast => ?_⟩
  · have hguard : ∀ e ∈ events, ∀ error, e ≠ .reply .begin (.error error) :=
      fun e he error heq => hnone error (heq ▸ he)
    have closing : s.Closing := run_invariant_of_along
      (G := fun _ e => ∀ error, e ≠ .reply .begin (.error error))
      (fun _ _ _ closing hbegin hstep => closing.step hbegin hstep) (by simp [Closing, hphase])
      (along_of_forall fun _ => hguard) reach
    simpa only [Closing, hreturned] using closing
  · have hend : s.calls.getLast? = some .finish ∨ s.calls.getLast? = some .abort :=
      closed.imp_left fun ⟨_, _, _, h⟩ => h
    rw [← hlast, List.getLast?_eq_some_iff, List.getLast?_eq_some_iff] at hend
    rcases hend with ⟨_, rfl⟩ | ⟨_, rfl⟩ <;> simp [hasSession]

theorem snapshot_session_closed_refused : threeBytesSent.Closed :=
  have hopen : transfer oneRetry List.length "s" [7, 8, 9] = .ok threeBytes := rfl
  have reach : Library.run (step oneRetry List.length) threeBytes refusedOnce =
    some threeBytesSent := rfl
  (snapshot_session_closed_iff hopen reach rfl).1.mpr (by simp [refusedOnce])

theorem lost_begin_reply_keeps_session :
    ∃ s, Library.run (step oneRetry List.length) threeBytes
      [.reply .begin (.error (.retryable "lost"))] = some s ∧
      s.phase = .returned (.error (.retryable "lost")) ∧ s.calls = [.begin] ∧
      hasSession s.calls = true :=
  ⟨_, rfl, rfl, rfl, rfl⟩

end SnapshotSender
end Chirps.Raft
