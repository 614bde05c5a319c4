/-
# Where the chunks of the send loop are

Each step of the loop is a turn of a ledger of its chunks. When the receiver refuses a chunk and its
task reports an error, one attempt has two timers.
-/

import Chirps.FileTransfer.SendLoop
import Chirps.Library.Retry

namespace Chirps.FileTransfer

open Chirps.Library

def LoopInput.failed : LoopInput → Option ℕ
  | .sent index (.error _) => some index
  | _ => none

namespace SendLoop

variable {l l' : SendLoop} {concurrency maxRetries : ℕ} {control : TransferControlState}

def ledger (l : SendLoop) : RetryLedger ℕ where
  waiting := l.producer.queue ++ l.producer.unread.map ChunkMeta.index
  pending := l.pending
  prepared := l.prepared
  inFlight := l.inFlight
  timed := l.timers
  completed := l.completed
  retries := l.retryCounts

def started (l l' : SendLoop) : List ℕ := l'.sends.drop l.sends.length

def scheduled (l l' : SendLoop) : List ℕ := l'.timers.drop l.timers.length

def Turns (maxRetries : ℕ) (failed : Option ℕ) (l l' : SendLoop) : Prop :=
  RetryLedger.Turn maxRetries failed l.ledger (l.started l') (l.scheduled l') l'.ledger

/-! ## A step is a turn -/

section Turns

variable {failed : Option ℕ} {index : ℕ}

theorem Turns.of_quiet (h : RetryLedger.Turn maxRetries failed l.ledger [] [] l'.ledger)
    (hsends : l'.sends.length ≤ l.sends.length) (htimers : l'.timers.length ≤ l.timers.length) :
    Turns maxRetries failed l l' := by
  rw [Turns, started, scheduled, List.drop_eq_nil_of_le hsends, List.drop_eq_nil_of_le htimers]
  exact h

theorem Turns.select (h : Turns maxRetries failed l l') (selecting : Bool) :
    Turns maxRetries failed l { l' with selecting } := h

theorem turns_produce {result : Except SendError Bytes} {producer : Producer}
    (h : l.producer.produce l.skip result = some producer) :
    Turns maxRetries failed l { l with producer } := by
  refine Turns.of_quiet ?_ le_rfl le_rfl
  unfold Producer.produce at h
  split_ifs at h with hended
  split at h
  · cases h
  · cases h
    exact .idle
  · rename_i chunk rest bytes hunread
    split_ifs at h with hsize hskip
    · -- a chunk that the receiver has is never queued
      cases h
      apply RetryLedger.Turn.skip (b := l.ledger)
      rw [ledger, hunread, List.map_cons]
      exact (List.sublist_cons_self _ _).append_left _
    · cases h
      have hsame : ({ l with producer := { l.producer with
          unread := rest
          data := l.producer.data ++ bytes
          queue := l.producer.queue ++ [chunk.index] } } : SendLoop).ledger = l.ledger := by
        simp [ledger, hunread]
      rw [hsame]
      exact .idle

theorem turns_dispatch (h : dispatch concurrency l.pending l = some l') :
    Turns maxRetries failed l l' := by
  obtain ⟨taken, rest, hpending, -, rfl⟩ := dispatch_eq h
  rw [Turns, started, scheduled, List.drop_left, List.drop_length]
  exact .start (b := l.ledger) hpending

theorem turns_takePrepared (h : l.takePrepared = some l') : Turns maxRetries failed l l' := by
  unfold takePrepared at h
  split at h
  · rename_i index rest hqueue
    cases h
    refine Turns.of_quiet ?_ le_rfl le_rfl
    apply RetryLedger.Turn.prepare (b := l.ledger)
    rw [ledger, hqueue, List.cons_append]
  · split_ifs at h
    cases h
    exact Turns.of_quiet .idle le_rfl le_rfl

theorem turns_scheduleRetry {sends : List ℕ}
    (h : scheduleRetry maxRetries index
      { l with sends, inFlight := l.inFlight.erase index } = some l')
    (hindex : index ∈ l.inFlight ∨ failed = some index) (hsends : sends.length ≤ l.sends.length) :
    Turns maxRetries failed l l' := by
  obtain ⟨hlimit, rfl⟩ := scheduleRetry_eq h
  rw [Turns, started, scheduled, List.drop_eq_nil_of_le hsends, List.drop_left]
  exact .fail (b := l.ledger) hindex hlimit

theorem turns_takeSent {result : Except SendError Unit}
    (h : l.takeSent maxRetries index result = .continued l') :
    Turns maxRetries (LoopInput.sent index result).failed l l' := by
  have hsends := (List.erase_sublist (a := index) (l := l.sends)).length_le
  cases result with
  | ok =>
    cases h
    exact Turns.of_quiet .idle hsends le_rfl
  | error err =>
    rw [takeSent] at h
    split at h
    · cases h
    · rename_i retrying hretry
      cases h
      exact turns_scheduleRetry hretry (.inr rfl) hsends

theorem turns_takeRetry (h : index ∈ l.timers) : Turns maxRetries failed l (l.takeRetry index) :=
  Turns.of_quiet (.expire (b := l.ledger) h) le_rfl (List.erase_sublist).length_le

theorem turns_acknowledge {ack : ChunkAck} (h : l.acknowledge maxRetries ack = .continued l') :
    Turns maxRetries failed l l' := by
  rw [acknowledge] at h
  split_ifs at h with hflight hverified
  · cases h
    exact Turns.of_quiet (.complete (b := l.ledger) hflight) le_rfl le_rfl
  · dsimp only at h
    split at h
    · cases h
    · rename_i retrying hretry
      cases h
      have hturns : Turns maxRetries failed l retrying :=
        turns_scheduleRetry hretry (.inl hflight) le_rfl
      exact hturns
  · cases h
    exact Turns.of_quiet .idle le_rfl le_rfl

theorem turns_select {input : LoopInput}
    (h : l.select maxRetries control input = some (.continued l')) :
    Turns maxRetries input.failed l l' := by
  cases input with
  | head | produce => cases h
  | prepared =>
    rw [select] at h
    split_ifs at h
    obtain ⟨taken, htaken, heq⟩ := Option.map_eq_some_iff.mp h
    cases heq
    exact turns_takePrepared htaken
  | control =>
    rw [select] at h
    split_ifs at h
    · cases h
    · cases h
      exact Turns.of_quiet .idle le_rfl le_rfl
  | sent index result =>
    rw [select] at h
    split_ifs at h
    exact turns_takeSent (Option.some.inj h)
  | retry index =>
    rw [select] at h
    split_ifs at h with hindex
    cases h
    exact turns_takeRetry hindex
  | message message =>
    have hreceive : l.receive maxRetries message = .continued l' := Option.some.inj h
    rcases message with err | (ack | completion | text | reason | _)
    · cases hreceive
    · exact turns_acknowledge hreceive
    · cases hreceive
      exact Turns.of_quiet .idle le_rfl le_rfl
    · cases hreceive
    · cases hreceive
    · cases hreceive
      exact Turns.of_quiet .idle le_rfl le_rfl

theorem turns_step {input : LoopInput}
    (h : l.step concurrency maxRetries control input = some (.continued l')) :
    Turns maxRetries input.failed l l' := by
  rcases step_cases h with ⟨result, producer, rfl, hproduce, heq⟩ | ⟨rfl, hhead⟩ |
    ⟨outcome, hselect, hback⟩
  · cases heq
    exact turns_produce hproduce
  · unfold atHead at hhead
    split_ifs at hhead
    · split at hhead
      · cases hhead
      · cases hhead
      · split at hhead
        · cases hhead
        · rename_i sending hdispatch
          cases hhead
          exact (turns_dispatch hdispatch).select true
    · cases hhead
  · obtain ⟨mid, rfl, rfl⟩ := back_eq_continued hback.symm
    exact (turns_select hselect).select false

end Turns

/-! ## Panics and double sends -/

theorem ledger_new_single {chunks : List ChunkMeta} (h : (chunks.map ChunkMeta.index).Nodup)
    (completed : Finset ℕ) (skip : List ℕ) : (new chunks completed skip).ledger.Single where
  places_le index := by
    have hcount := List.nodup_iff_count_le_one.mp h index
    simpa [RetryLedger.places, ledger, new] using hcount
  of_pending := nofun
  of_inFlight index hindex := by simp [ledger, new] at hindex
  of_timed := nofun

theorem step_ne_panicked {input : LoopInput} (h : ∀ index ∈ l.pending, index ∈ l.prepared) :
    l.step concurrency maxRetries control input ≠ some .panicked := by
  intro hstep
  rcases step_cases hstep with ⟨result, producer, -, -, heq⟩ | ⟨-, hhead⟩ |
    ⟨outcome, hselect, hback⟩
  · cases heq
  · unfold atHead at hhead
    split_ifs at hhead
    · split at hhead
      · cases hhead
      · cases hhead
      · split at hhead
        · rename_i hdispatch
          exact dispatch_ne_none h hdispatch
        · cases hhead
    · cases hhead
  · obtain ⟨mid, rfl⟩ | ⟨mid, err, rfl⟩ | ⟨mid, rfl⟩ := select_cases hselect
    · cases hback
    · cases hback
    · cases hback

end SendLoop

/-! ## Runs -/

/-- The loop with all the chunks it has started to send, and all it has scheduled to retry. -/
structure SendRun where
  loop : SendLoop
  started : List ℕ
  retried : List ℕ

namespace SendRun

def new (chunks : List ChunkMeta) (completed : Finset ℕ) (skip : List ℕ) : SendRun :=
  ⟨.new chunks completed skip, [], []⟩

def step (concurrency maxRetries : ℕ) (x : SendRun) (e : TransferControlState × LoopInput) :
    Option SendRun :=
  match x.loop.step concurrency maxRetries e.1 e.2 with
  | some (.continued loop) => some
      ⟨loop, x.started ++ x.loop.started loop, x.retried ++ x.loop.scheduled loop⟩
  | _ => none

/-- An error of a task is about a chunk that is in flight, or completed. -/
def FailsInFlight (x : SendRun) (e : TransferControlState × LoopInput) : Prop :=
  ∀ index ∈ e.2.failed, index ∈ x.loop.inFlight ∨ index ∈ x.loop.completed

instance (x : SendRun) (e : TransferControlState × LoopInput) : Decidable (x.FailsInFlight e) :=
  inferInstanceAs (Decidable (∀ index ∈ e.2.failed, _))

/-- No panic is next, every pending chunk is prepared, and none is sent that is in flight. -/
def Safe (concurrency maxRetries : ℕ) (x : SendRun) : Prop :=
  (∀ control input, x.loop.step concurrency maxRetries control input ≠ some .panicked) ∧
  (∀ index ∈ x.loop.pending, index ∈ x.loop.prepared) ∧
  ∀ control input loop, x.loop.step concurrency maxRetries control input = some (.continued loop) →
    (x.loop.started loop).Nodup ∧ ∀ index ∈ x.loop.started loop, index ∉ x.loop.inFlight

variable {concurrency maxRetries : ℕ} {x next : SendRun} {e : TransferControlState × LoopInput}

theorem step_eq_some (h : x.step concurrency maxRetries e = some next) :
    ∃ loop, x.loop.Turns maxRetries e.2.failed loop ∧
      next = ⟨loop, x.started ++ x.loop.started loop, x.retried ++ x.loop.scheduled loop⟩ := by
  unfold step at h
  split at h
  · rename_i loop hstep
    cases h
    exact ⟨loop, SendLoop.turns_step hstep, rfl⟩
  · cases h

theorem safe_of_single (single : x.loop.ledger.Single) : x.Safe concurrency maxRetries := by
  refine ⟨fun _ _ => SendLoop.step_ne_panicked single.of_pending, single.of_pending,
    fun control input loop hstep => ?_⟩
  exact (SendLoop.turns_step hstep).start_once single

structure Counted (maxRetries : ℕ) (x : SendRun) : Prop where
  retried_eq : ∀ index, x.loop.retryCounts index = x.retried.count index
  retries_le : ∀ index, x.loop.retryCounts index ≤ maxRetries
  started_le : ∀ index, x.started.count index + x.loop.ledger.due index ≤
    1 + x.retried.count index

theorem counted_new {chunks : List ChunkMeta} (h : (chunks.map ChunkMeta.index).Nodup)
    (completed : Finset ℕ) (skip : List ℕ) : (new chunks completed skip).Counted maxRetries where
  retried_eq _ := rfl
  retries_le _ := Nat.zero_le _
  started_le index := by
    have hcount := List.nodup_iff_count_le_one.mp h index
    simpa [new, SendLoop.new, SendLoop.ledger, RetryLedger.due] using hcount

theorem Counted.step (h : x.Counted maxRetries)
    (hstep : x.step concurrency maxRetries e = some next) : next.Counted maxRetries := by
  obtain ⟨loop, hturn, rfl⟩ := step_eq_some hstep
  refine ⟨fun index => ?_, fun index => hturn.retries_le h.retries_le index, fun index => ?_⟩
  · rw [List.count_append, ← h.retried_eq index]
    exact hturn.retries_eq index
  · have hdue := hturn.due_le index
    have hbefore := h.started_le index
    rw [List.count_append, List.count_append]
    dsimp only
    omega

end SendRun

/-- No chunk is retried more often than the policy allows. If tasks report errors of chunks in
flight or completed only, the loop never panics and sends no chunk that is in flight. -/
theorem send_loop_is_safe {chunks : List ChunkMeta} (h : (chunks.map ChunkMeta.index).Nodup)
    (completed : Finset ℕ) (skip : List ℕ) (concurrency maxRetries : ℕ)
    {events : List (TransferControlState × LoopInput)} {x : SendRun}
    (reach : run (SendRun.step concurrency maxRetries) (.new chunks completed skip) events =
      some x) :
    (∀ index, x.retried.count index ≤ maxRetries ∧ x.started.count index ≤ maxRetries + 1) ∧
    (Along (SendRun.step concurrency maxRetries) SendRun.FailsInFlight (.new chunks completed skip)
      events → x.Safe concurrency maxRetries) := by
  constructor
  · have counted := run_invariant (I := SendRun.Counted maxRetries)
      (fun _ _ _ counted hstep => counted.step hstep) (SendRun.counted_new h completed skip) reach
    intro index
    have hretried : x.retried.count index ≤ maxRetries :=
      counted.retried_eq index ▸ counted.retries_le index
    exact ⟨hretried, by have := counted.started_le index; omega⟩
  · intro along
    apply SendRun.safe_of_single
    refine run_invariant_of_along (I := fun x => x.loop.ledger.Single) ?_
      (SendLoop.ledger_new_single h completed skip) along reach
    intro y e next single hfails hstep
    obtain ⟨loop, hturn, rfl⟩ := SendRun.step_eq_some hstep
    exact single.turn hturn hfails

section Examples

def threeChunks : List ChunkMeta := [⟨0, 0, 1, 0⟩, ⟨1, 1, 1, 0⟩, ⟨2, 2, 1, 0⟩]

def running (inputs : List LoopInput) : List (TransferControlState × LoopInput) :=
  inputs.flatMap fun input => [(.running, input), (.running, .head)]

def answer (index : ℕ) (verified : Bool) : LoopInput :=
  .message (.ok (.chunkAck ⟨index, verified, none⟩))

def twoSent : List (TransferControlState × LoopInput) :=
  List.replicate 3 (.running, .produce (.ok [0])) ++
    (.running, .head) :: running (List.replicate 3 .prepared)

def refusedOnce : List (TransferControlState × LoopInput) :=
  twoSent ++ running [answer 0 false, .sent 0 (.ok ()), answer 1 true, .retry 0]

theorem send_loop_is_safe_refused :
    ∃ x, run (SendRun.step 2 2) (.new threeChunks ∅ []) refusedOnce = some x ∧
      x.started = [0, 1, 2, 0] ∧ x.retried = [0] ∧ x.Safe 2 2 := by
  exact exists_of_evaluated (fun x => x.started = [0, 1, 2, 0] ∧ x.retried = [0]) (by decide)
    fun x reach ⟨hstarted, hretried⟩ => ⟨hstarted, hretried,
      (send_loop_is_safe (by decide) ∅ [] 2 2 reach).2 (by decide)⟩

/-- The receiver refuses chunk 0 while the task that sent it reports an error, so that it is pending
twice. -/
theorem refused_and_unsent_chunk_breaks_loop :
    ∃ x, run (SendRun.step 2 2) (.new threeChunks ∅ [])
        (twoSent ++ running [answer 0 false, .sent 0 (.error (.transport "closed")), .retry 0,
          .retry 0, answer 1 true]) = some x ∧
      (∃ y, run (SendRun.step 2 2) x [(.running, answer 0 true)] = some y ∧
        y.loop.step 2 2 .running .head = some .panicked) ∧
      ∃ y next, run (SendRun.step 2 2) x [(.running, answer 2 true)] = some y ∧
        y.loop.step 2 2 .running .head = some (.continued next) ∧
        y.loop.started next = [0] ∧ 0 ∈ y.loop.inFlight := by
  refine ⟨_, rfl, ⟨_, rfl, rfl⟩, _, _, rfl, rfl, by decide, by decide⟩

end Examples

end Chirps.FileTransfer
