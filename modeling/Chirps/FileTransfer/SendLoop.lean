/-
# The loop that sends the chunks of a file

A producer hands over the chunks that the receiver lacks; the loop sends them and retries those that
fail. At its head an iteration looks at the control state and starts what is pending, then it waits
in `select!`.
-/

import Chirps.FileTransfer.Receive

namespace Chirps.FileTransfer

inductive SendError
  | fileHashMismatch
  | timeout
  | cancelled
  | maxRetriesExceeded (index : ℕ)
  | io (error : String)
  | transport (message : String)
  | rejected (reason : String)
  | internal (message : String)
  deriving DecidableEq

def SendError.text : SendError → String
  | .fileHashMismatch => "file hash mismatch"
  | .timeout => "transfer timeout"
  | .cancelled => "transfer cancelled"
  | .maxRetriesExceeded index => "max retries exceeded for chunk " ++ toString index
  | .io error => "io error: " ++ error
  | .transport message => "transport error: " ++ message
  | .rejected reason => "peer rejected: " ++ reason
  | .internal message => "internal error: " ++ message

inductive FileTransferMessage
  | chunkAck (ack : ChunkAck)
  | complete (completion : TransferComplete)
  | error (message : String)
  | cancel (reason : String)
  | other

/-! ## The producer -/

/-- The task of `prepare_chunks_single_pass`, with the chunks in its channel to the loop. -/
structure Producer where
  unread : List ChunkMeta
  data : Bytes
  queue : List ℕ
  error : Option SendError

namespace Producer

def ended (p : Producer) : Bool := p.error.isSome || p.unread.isEmpty

/-- The next chunk is read, or an error. One that the receiver has goes into the hash only. -/
def produce (skip : List ℕ) (p : Producer) (result : Except SendError Bytes) : Option Producer :=
  if p.ended then none
  else match p.unread, result with
    | [], _ => none
    | _ :: _, .error err => some { p with error := some err }
    | chunk :: rest, .ok bytes =>
      if bytes.length = chunk.size then
        some { p with
          unread := rest
          data := p.data ++ bytes
          queue := if chunk.index ∈ skip then p.queue else p.queue ++ [chunk.index] }
      else none

end Producer

/-! ## The loop -/

/-- `sends` are tasks without a received result, `timers` the retries waited for, and `error` the
last refusal. -/
structure SendLoop where
  producer : Producer
  skip : List ℕ
  completed : Finset ℕ
  pending : List ℕ
  prepared : Finset ℕ
  inFlight : Finset ℕ
  retryCounts : ℕ → ℕ
  scheduledRetries : ℕ
  producerDone : Bool
  sends : List ℕ
  timers : List ℕ
  error : Option String
  selecting : Bool

inductive LoopInput
  | head
  | produce (result : Except SendError Bytes)
  | prepared
  | control
  | sent (index : ℕ) (result : Except SendError Unit)
  | retry (index : ℕ)
  | message (message : Except SendError FileTransferMessage)

inductive LoopOutcome
  | continued (loop : SendLoop)
  | left (loop : SendLoop)
  | failed (loop : SendLoop) (error : SendError)
  | cancelled (loop : SendLoop)
  | panicked

def LoopOutcome.back : LoopOutcome → LoopOutcome
  | .continued l => .continued { l with selecting := false }
  | outcome => outcome

namespace SendLoop

def new (chunks : List ChunkMeta) (completed : Finset ℕ) (skip : List ℕ) : SendLoop where
  producer := ⟨chunks, [], [], none⟩
  skip := skip
  completed := completed ∪ skip.toFinset
  pending := []
  prepared := ∅
  inFlight := ∅
  retryCounts := fun _ => 0
  scheduledRetries := 0
  producerDone := false
  sends := []
  timers := []
  error := none
  selecting := false

/-- The condition of the `while`. -/
def outstanding (l : SendLoop) : Bool :=
  !l.producerDone || !l.pending.isEmpty || decide (l.inFlight ≠ ∅) || l.scheduledRetries != 0

/-- Pending chunks are sent while there is room. A pending chunk that is not prepared is a
panic. -/
def dispatch (concurrency : ℕ) : List ℕ → SendLoop → Option SendLoop
  | [], l => some { l with pending := [] }
  | index :: rest, l =>
    if l.inFlight.card < concurrency then
      if index ∈ l.prepared then
        dispatch concurrency rest
          { l with inFlight := insert index l.inFlight, sends := l.sends ++ [index] }
      else none
    else some { l with pending := index :: rest }

/-- `should_retry`, and `schedule_retry` when there is a retry left. -/
def scheduleRetry (maxRetries index : ℕ) (l : SendLoop) : Option SendLoop :=
  if maxRetries ≤ l.retryCounts index then none
  else some { l with
    retryCounts := Function.update l.retryCounts index (l.retryCounts index + 1)
    scheduledRetries := l.scheduledRetries + 1
    timers := l.timers ++ [index] }

def atHead (concurrency : ℕ) (control : TransferControlState) (l : SendLoop) : Option LoopOutcome :=
  if l.outstanding then
    match control with
    | .paused => none
    | .cancelled => some (.cancelled l)
    | .running =>
      match dispatch concurrency l.pending l with
      | none => some .panicked
      | some sending => some (.continued { sending with selecting := true })
  else some (.left l)

/-- `ChunkAck`. One for a chunk that is not in flight is passed over. -/
def acknowledge (maxRetries : ℕ) (ack : ChunkAck) (l : SendLoop) : LoopOutcome :=
  if ack.index ∈ l.inFlight then
    if ack.verified then
      .continued { l with
        inFlight := l.inFlight.erase ack.index
        completed := insert ack.index l.completed
        prepared := l.prepared.erase ack.index }
    else
      -- the chunk stays prepared, so that it can be sent again
      let refused := { l with inFlight := l.inFlight.erase ack.index }
      match scheduleRetry maxRetries ack.index refused with
      | none => .failed refused (.maxRetriesExceeded ack.index)
      | some retrying => .continued { retrying with error := ack.error.or l.error }
  else .continued l

/-- The message, or the error, that `recv_any` returned. -/
def receive (maxRetries : ℕ) (l : SendLoop) : Except SendError FileTransferMessage → LoopOutcome
  | .error err => .failed l err
  | .ok (.chunkAck ack) => l.acknowledge maxRetries ack
  | .ok (.error message) => .failed l (.transport message)
  | .ok (.cancel _) => .cancelled l
  | .ok (.complete _) | .ok .other => .continued l

def takePrepared (l : SendLoop) : Option SendLoop :=
  match l.producer.queue with
  | index :: rest => some { l with
      producer := { l.producer with queue := rest }
      prepared := insert index l.prepared
      pending := l.pending ++ [index] }
  -- the channel is closed when the producer has returned
  | [] => if l.producer.ended then some { l with producerDone := true } else none

def takeSent (maxRetries index : ℕ) (result : Except SendError Unit) (l : SendLoop) : LoopOutcome :=
  match result with
  | .ok _ => .continued { l with sends := l.sends.erase index }
  | .error err =>
    let unsent :=
      { l with sends := l.sends.erase index, inFlight := l.inFlight.erase index }
    match scheduleRetry maxRetries index unsent with
    | none => .failed unsent err
    | some retrying => .continued retrying

/-- A timer has run out. A chunk that was completed or sent again meanwhile is left out. -/
def takeRetry (index : ℕ) (l : SendLoop) : SendLoop :=
  { l with
    timers := l.timers.erase index
    scheduledRetries := l.scheduledRetries - 1
    pending :=
      if index ∉ l.completed ∧ index ∉ l.inFlight then l.pending ++ [index] else l.pending }

/-- A branch of `select!`. -/
def select (maxRetries : ℕ) (control : TransferControlState) (l : SendLoop) :
    LoopInput → Option LoopOutcome
  | .head | .produce _ => none
  | .prepared => if l.producerDone then none else l.takePrepared.map .continued
  | .control => if control = .cancelled then some (.cancelled l) else some (.continued l)
  | .sent index result =>
    if index ∈ l.sends then some (l.takeSent maxRetries index result) else none
  | .retry index => if index ∈ l.timers then some (.continued (l.takeRetry index)) else none
  | .message message => some (l.receive maxRetries message)

def step (concurrency maxRetries : ℕ) (control : TransferControlState) (l : SendLoop) :
    LoopInput → Option LoopOutcome
  | .produce result =>
    (l.producer.produce l.skip result).map fun producer => .continued { l with producer }
  | .head => if l.selecting then none else l.atHead concurrency control
  | input =>
    if l.selecting then (l.select maxRetries control input).map .back else none

/-- `is_complete` of the chunk tracker. -/
def isComplete (l : SendLoop) (chunkCount : ℕ) : Bool := l.completed.card = chunkCount

/-! ## What each part of a step does -/

section Parts

variable {l l' : SendLoop} {concurrency maxRetries index : ℕ} {control : TransferControlState}

theorem dispatch_eq {pending : List ℕ} (h : dispatch concurrency pending l = some l') :
    ∃ taken rest, pending = taken ++ rest ∧ (∀ index ∈ taken, index ∈ l.prepared) ∧
      l' = { l with
        pending := rest
        inFlight := l.inFlight ∪ taken.toFinset
        sends := l.sends ++ taken } := by
  induction pending generalizing l with
  | nil =>
    cases h
    exact ⟨[], [], rfl, nofun, by simp⟩
  | cons first rest ih =>
    rw [dispatch] at h
    split_ifs at h with hroom hprepared
    · obtain ⟨taken, left, rfl, htaken, rfl⟩ := ih h
      refine ⟨first :: taken, left, rfl, fun index hindex => ?_, ?_⟩
      · rcases List.mem_cons.mp hindex with rfl | hindex
        · exact hprepared
        · exact htaken index hindex
      · simp [Finset.insert_union, Finset.union_insert]
    · cases h
      exact ⟨[], first :: rest, rfl, nofun, by simp⟩

theorem dispatch_ne_none {pending : List ℕ} (h : ∀ index ∈ pending, index ∈ l.prepared) :
    dispatch concurrency pending l ≠ none := by
  induction pending generalizing l with
  | nil => exact nofun
  | cons first rest ih =>
    rw [dispatch, if_pos (h first List.mem_cons_self)]
    split
    · exact ih fun index hindex => h index (List.mem_cons_of_mem first hindex)
    · exact nofun

theorem scheduleRetry_eq (h : scheduleRetry maxRetries index l = some l') :
    l.retryCounts index < maxRetries ∧ l' = { l with
      retryCounts := Function.update l.retryCounts index (l.retryCounts index + 1)
      scheduledRetries := l.scheduledRetries + 1
      timers := l.timers ++ [index] } := by
  rw [scheduleRetry] at h
  split_ifs at h with hspent
  cases h
  exact ⟨Nat.not_le.mp hspent, rfl⟩

variable {outcome : LoopOutcome}

theorem select_cases {input : LoopInput} (h : l.select maxRetries control input = some outcome) :
    (∃ l', outcome = .continued l') ∨ (∃ l' err, outcome = .failed l' err) ∨
      ∃ l', outcome = .cancelled l' := by
  cases input with
  | head | produce => cases h
  | prepared =>
    rw [select] at h
    split_ifs at h
    obtain ⟨taken, -, rfl⟩ := Option.map_eq_some_iff.mp h
    exact .inl ⟨taken, rfl⟩
  | control =>
    rw [select] at h
    split_ifs at h <;> cases h <;> simp
  | sent index result =>
    rw [select] at h
    split_ifs at h
    cases h
    cases result with
    | ok => exact .inl ⟨_, rfl⟩
    | error err =>
      rw [takeSent]
      split <;> simp
  | retry index =>
    rw [select] at h
    split_ifs at h
    cases h
    exact .inl ⟨_, rfl⟩
  | message message =>
    cases h
    rcases message with err | (ack | completion | text | reason | _)
    · simp [receive]
    · rw [receive, acknowledge]
      split_ifs
      · simp
      · dsimp only
        split <;> simp
      · simp
    · simp [receive]
    · simp [receive]
    · simp [receive]
    · simp [receive]

theorem back_eq_left (h : outcome.back = .left l') : outcome = .left l' := by
  cases outcome with
  | continued => cases h
  | left | failed | cancelled | panicked => exact h

theorem back_eq_continued (h : outcome.back = .continued l') :
    ∃ mid, outcome = .continued mid ∧ l' = { mid with selecting := false } := by
  cases outcome with
  | continued mid =>
    cases h
    exact ⟨mid, rfl, rfl⟩
  | left | failed | cancelled | panicked => cases h

theorem step_cases {input : LoopInput}
    (h : l.step concurrency maxRetries control input = some outcome) :
    (∃ result producer, input = .produce result ∧ l.producer.produce l.skip result = some producer ∧
      outcome = .continued { l with producer }) ∨
    (input = .head ∧ l.atHead concurrency control = some outcome) ∨
    ∃ result, l.select maxRetries control input = some result ∧ outcome = result.back := by
  unfold step at h
  split at h
  · obtain ⟨producer, hproducer, rfl⟩ := Option.map_eq_some_iff.mp h
    exact .inl ⟨_, producer, rfl, hproducer, rfl⟩
  · split_ifs at h
    exact .inr (.inl ⟨rfl, h⟩)
  · split_ifs at h
    obtain ⟨result, hresult, rfl⟩ := Option.map_eq_some_iff.mp h
    exact .inr (.inr ⟨result, hresult, rfl⟩)

end Parts

end SendLoop

end Chirps.FileTransfer
