/-
# Requests and their responses on one transport

`send_rpc` enters a waiter for a correlation id, sends and waits; `consume_incoming_from` matches
what comes in. A call is cut where another task can run, and may be dropped wherever it waits.
-/

import Chirps.Library.Run
import Chirps.Library.Table
import Chirps.RaftStorage.Types

namespace Chirps.Raft

open Chirps.Library Chirps.RaftStorage
open Function (update)

/-! ## Messages and errors -/

/-- `RaftMessage`, with contents that the transport passes on unread. -/
inductive RaftMessage (β : Type*)
  | appendEntries (groupId : GroupId) (request : β)
  | appendEntriesResponse (groupId : GroupId) (response : β)
  | vote (groupId : GroupId) (request : β)
  | voteResponse (groupId : GroupId) (response : β)
  | installSnapshot (groupId : GroupId) (request : β)
  | installSnapshotResponse (groupId : GroupId) (response : β)
  | snapshotTransfer (groupId : GroupId) (request : β)
  | snapshotTransferResponse (groupId : GroupId) (response : β)
  deriving DecidableEq

/-- `RPCTypes`. -/
inductive RpcType
  | vote
  | appendEntries
  | installSnapshot
  deriving DecidableEq

section Messages

variable {β : Type*}

def RaftMessage.groupId : RaftMessage β → GroupId
  | .appendEntries groupId _ | .appendEntriesResponse groupId _
  | .vote groupId _ | .voteResponse groupId _
  | .installSnapshot groupId _ | .installSnapshotResponse groupId _
  | .snapshotTransfer groupId _ | .snapshotTransferResponse groupId _ => groupId

def isResponse : RaftMessage β → Bool
  | .appendEntriesResponse _ _ | .voteResponse _ _ | .installSnapshotResponse _ _
  | .snapshotTransferResponse _ _ => true
  | _ => false

def responseMatches : RpcType → RaftMessage β → Bool
  | .vote, .voteResponse _ _ => true
  | .appendEntries, .appendEntriesResponse _ _ => true
  | .installSnapshot, .installSnapshotResponse _ _ => true
  | .installSnapshot, .snapshotTransferResponse _ _ => true
  | _, _ => false

theorem isResponse_of_responseMatches {rpcType : RpcType} {message : RaftMessage β}
    (h : responseMatches rpcType message) : isResponse message := by
  cases rpcType <;> cases message <;> first | rfl | cases h

end Messages

inductive TransportError
  | connection (message : String)
  | tls (message : String)
  | send (message : String)
  | subscribe (message : String)
  | io (message : String)
  | timeout (message : String)
  | invalidStreamKind (kind : UInt8)
  | notImplemented (feature : String)

/-- The `Display` of `TransportError`. -/
def TransportError.display : TransportError → String
  | .connection message => s!"connection failed: {message}"
  | .tls message => s!"tls handshake failed: {message}"
  | .send message => s!"send failed: {message}"
  | .subscribe message => s!"subscribe failed: {message}"
  | .io message => s!"transport IO error: {message}"
  | .timeout message => s!"transport timeout: {message}"
  | .invalidStreamKind kind => s!"invalid stream kind: {kind}"
  | .notImplemented feature => s!"not implemented: {feature}"

/-- A network error with the text of the error inside it, or `Timeout`. -/
inductive RpcError
  | network (message : String)
  | timeout (action : RpcType) (id target : ChirpsNodeId) (timeout : ℕ)

structure RaftFramePayload (β : Type*) where
  correlationId : UInt64
  message : RaftMessage β

/-! ## Calls -/

inductive RpcOutcome (β : Type*)
  | returned (result : Except RpcError (RaftMessage β))
  /-- The future has been dropped. -/
  | dropped

def RpcOutcome.message? {β : Type*} : RpcOutcome β → Option (RaftMessage β)
  | .returned result => result.toOption
  | .dropped => none

/-- Where a call of `send_rpc` stands. -/
inductive RpcStage (β : Type*)
  /-- Before the first test of `accepting_rpcs`. -/
  | admission
  /-- Before `next_corr.fetch_add`. -/
  | numbering
  | encoding (correlationId : UInt64)
  /-- Before the lock of `pending`. -/
  | locking (correlationId : UInt64)
  /-- Under the lock, before the second test of `accepting_rpcs`. -/
  | rechecking (correlationId : UInt64)
  /-- Under the lock, past the test. -/
  | inserting (correlationId : UInt64)
  /-- Registered and awaiting `backend.send`. -/
  | sending (correlationId : UInt64)
  /-- Registered and awaiting the response. -/
  | waiting (correlationId : UInt64)
  /-- The outcome is known, `_registration` is not dropped yet. -/
  | leaving (correlationId : UInt64) (outcome : RpcOutcome β)
  | finished (correlationId : Option UInt64) (outcome : RpcOutcome β)

namespace RpcStage

variable {β : Type*}

def correlationId? : RpcStage β → Option UInt64
  | .admission | .numbering => none
  | .encoding id | .locking id | .rechecking id | .inserting id | .sending id | .waiting id
  | .leaving id _ => some id
  | .finished id _ => id

def registered? : RpcStage β → Option UInt64
  | .sending id | .waiting id | .leaving id _ => some id
  | _ => none

def message? : RpcStage β → Option (RaftMessage β)
  | .leaving _ outcome | .finished _ outcome => outcome.message?
  | _ => none

def HoldsLock : RpcStage β → Prop
  | .rechecking _ | .inserting _ => True
  | _ => False

def Encoded : RpcStage β → Prop
  | .locking _ | .rechecking _ | .inserting _ | .sending _ | .waiting _ | .leaving _ _ => True
  | _ => False

def Past : RpcStage β → Prop
  | .sending _ | .waiting _ | .leaving _ _ | .finished _ _ => True
  | _ => False

variable {stage : RpcStage β} {id : UInt64}

section

variable (h : stage.registered? = some id)
include h

theorem encoded_of_registered : stage.Encoded := by
  cases stage <;> trivial

theorem past_of_registered : stage.Past := by
  cases stage <;> trivial

theorem correlationId_of_registered : stage.correlationId? = some id := by
  cases stage <;> first | exact h | cases h

end

end RpcStage

structure RpcCall (β : Type*) where
  target : ChirpsNodeId
  rpcType : RpcType
  message : RaftMessage β
  hardTtl : ℕ
  stage : RpcStage β
  inbox : Option (RaftMessage β)

namespace RpcCall

variable {β : Type*}

/-- The call keeps its arguments and its correlation id and does not register again. -/
structure Continues (call next : RpcCall β) : Prop where
  target : next.target = call.target
  rpcType : next.rpcType = call.rpcType
  message : next.message = call.message
  correlationId : ∀ id, call.stage.correlationId? = some id → next.stage.correlationId? = some id
  past : call.stage.Past → next.stage.Past

theorem Continues.refl (call : RpcCall β) : call.Continues call :=
  ⟨rfl, rfl, rfl, fun _ h => h, id⟩

end RpcCall

/-- `PendingRpc`. The sender of the channel is known by the call that has the receiver. -/
structure PendingRpc where
  target : ChirpsNodeId
  groupId : GroupId
  rpcType : RpcType
  call : ℕ

structure Delivery (β : Type*) where
  call : ℕ
  source : ChirpsNodeId
  payload : RaftFramePayload β

/-- The response has the correlation id, target, group and RPC type of the call. -/
structure Delivery.Answers {β : Type*} (delivery : Delivery β) (call : RpcCall β) : Prop where
  correlationId : call.stage.correlationId? = some delivery.payload.correlationId
  source : delivery.source = call.target
  group : delivery.payload.message.groupId = call.message.groupId
  type : responseMatches call.rpcType delivery.payload.message

theorem Delivery.Answers.continues {β : Type*} {delivery : Delivery β} {call next : RpcCall β}
    (answers : delivery.Answers call) (h : call.Continues next) : delivery.Answers next where
  correlationId := h.correlationId _ answers.correlationId
  source := answers.source.trans h.target.symm
  group := answers.group.trans (congrArg RaftMessage.groupId h.message.symm)
  type := h.rpcType ▸ answers.type

/-- `ChirpsRaftTransport` with the calls on it. -/
structure ChirpsRaftTransport (β : Type*) where
  groupId : GroupId
  nodeId : ChirpsNodeId
  nextCorr : UInt64
  acceptingRpcs : Bool
  pending : UInt64 → Option PendingRpc
  /-- The call that holds the lock of `pending` across a step. -/
  lockedBy : Option ℕ
  calls : ℕ → Option (RpcCall β)
  /-- The responses sent to calls, in order. -/
  delivered : List (Delivery β)

inductive RpcEvent (β : Type*)
  /-- `send_rpc` is called. -/
  | begin (c : ℕ) (target : ChirpsNodeId) (rpcType : RpcType) (message : RaftMessage β)
      (hardTtl : ℕ)
  /-- A call takes its next step before the first wait. -/
  | advance (c : ℕ)
  /-- `backend.send` is done. -/
  | sent (c : ℕ) (result : Except TransportError Unit)
  /-- The channel of a call has a message or is closed. -/
  | receive (c : ℕ)
  /-- The time of a call is over. -/
  | expire (c : ℕ)
  /-- The future of a call is dropped where it waits, or before it was polled. -/
  | drop (c : ℕ)
  /-- `_registration` is dropped. -/
  | unregister (c : ℕ)
  | incoming (source : ChirpsNodeId) (payload : RaftFramePayload β)
  | closeRpcAdmission
  | cancelPendingRpcs

namespace ChirpsRaftTransport

variable {β : Type*}

def new (groupId : GroupId) (nodeId : ChirpsNodeId) : ChirpsRaftTransport β where
  groupId := groupId
  nodeId := nodeId
  nextCorr := 1
  acceptingRpcs := true
  pending _ := none
  lockedBy := none
  calls _ := none
  delivered := []

def put (s : ChirpsRaftTransport β) (c : ℕ) (call : RpcCall β) : ChirpsRaftTransport β :=
  { s with calls := update s.calls c (some call) }

theorem put_calls (s : ChirpsRaftTransport β) (c : ℕ) (call : RpcCall β) :
    (s.put c call).calls = update s.calls c (some call) := rfl

variable {s : ChirpsRaftTransport β}

theorem eq_of_put_calls {moved c : ℕ} {new call : RpcCall β}
    (h : (s.put moved new).calls c = some call) :
    (c = moved ∧ new = call) ∨ (c ≠ moved ∧ s.calls c = some call) :=
  (update_eq_some_iff.mp h).imp_left (And.imp_right Option.some.inj)

/-- `encode_frame`, as far as it can fail. -/
def encodeError (s : ChirpsRaftTransport β) (message : RaftMessage β) : Option String :=
  if message.groupId ≠ s.groupId then
    some s!"Raft group mismatch: expected {s.groupId.val}, got {message.groupId.val}"
  else none

def entryOf (s : ChirpsRaftTransport β) (c : ℕ) (call : RpcCall β) : PendingRpc :=
  ⟨call.target, s.groupId, call.rpcType, c⟩

def shuttingDown : RpcOutcome β :=
  .returned (.error (.network "内部エラー: Raft transport is shutting down"))

def responseChannelClosed : RpcOutcome β :=
  .returned (.error (.network "内部エラー: response channel closed"))

def timedOut (s : ChirpsRaftTransport β) (call : RpcCall β) : RpcError :=
  .timeout call.rpcType s.nodeId call.target call.hardTtl

def mapTransportError (s : ChirpsRaftTransport β) (call : RpcCall β) : TransportError → RpcError
  | .timeout _ => s.timedOut call
  | error => .network error.display

/-- `send_rpc` up to its first wait. -/
def advance (s : ChirpsRaftTransport β) (c : ℕ) (call : RpcCall β) :
    Option (ChirpsRaftTransport β) :=
  match call.stage with
  | .admission =>
    if s.acceptingRpcs then some (s.put c { call with stage := .numbering })
    else some (s.put c { call with stage := .finished none shuttingDown })
  | .numbering =>
    -- `fetch_add` wraps
    some ({ s with nextCorr := s.nextCorr + 1 }.put c { call with stage := .encoding s.nextCorr })
  | .encoding id =>
    match s.encodeError call.message with
    | some error =>
      some (s.put c
        { call with stage := .finished (some id) (.returned (.error (.network error))) })
    | none => some (s.put c { call with stage := .locking id })
  | .locking id =>
    if s.lockedBy = none then
      some ({ s with lockedBy := some c }.put c { call with stage := .rechecking id })
    else none
  | .rechecking id =>
    if s.acceptingRpcs then some (s.put c { call with stage := .inserting id })
    else
      some ({ s with lockedBy := none }.put c
        { call with stage := .finished (some id) shuttingDown })
  | .inserting id =>
    some ({ s with
      pending := update s.pending id (some (s.entryOf c call))
      lockedBy := none }.put c { call with stage := .sending id })
  | _ => none

/-- `backend.send` is done. -/
def sent (s : ChirpsRaftTransport β) (c : ℕ) (call : RpcCall β)
    (result : Except TransportError Unit) : Option (ChirpsRaftTransport β) :=
  match call.stage, result with
  | .sending id, .ok () => some (s.put c { call with stage := .waiting id })
  | .sending id, .error error =>
    some (s.put c
      { call with stage := .leaving id (.returned (.error (s.mapTransportError call error))) })
  | _, _ => none

def SenderAlive (s : ChirpsRaftTransport β) (c : ℕ) (id : UInt64) : Prop :=
  (s.pending id).map PendingRpc.call = some c

instance (s : ChirpsRaftTransport β) (c : ℕ) (id : UInt64) : Decidable (s.SenderAlive c id) :=
  inferInstanceAs (Decidable (_ = _))

def receive (s : ChirpsRaftTransport β) (c : ℕ) (call : RpcCall β) :
    Option (ChirpsRaftTransport β) :=
  match call.stage, call.inbox with
  | .waiting id, some message =>
    some (s.put c { call with stage := .leaving id (.returned (.ok message)) })
  | .waiting id, none =>
    if s.SenderAlive c id then none
    else some (s.put c { call with stage := .leaving id responseChannelClosed })
  | _, _ => none

/-- `time::timeout` gives up. -/
def expire (s : ChirpsRaftTransport β) (c : ℕ) (call : RpcCall β) :
    Option (ChirpsRaftTransport β) :=
  match call.stage with
  | .waiting id =>
    some (s.put c { call with stage := .leaving id (.returned (.error (s.timedOut call))) })
  | _ => none

def dropCall (s : ChirpsRaftTransport β) (c : ℕ) (call : RpcCall β) :
    Option (ChirpsRaftTransport β) :=
  match call.stage with
  | .admission => some (s.put c { call with stage := .finished none .dropped })
  | .sending id | .waiting id => some (s.put c { call with stage := .leaving id .dropped })
  | _ => none

/-- `drop` of `PendingRegistration`. It removes by correlation id. -/
def unregister (s : ChirpsRaftTransport β) (c : ℕ) (call : RpcCall β) :
    Option (ChirpsRaftTransport β) :=
  match call.stage with
  | .leaving id outcome =>
    if s.lockedBy = none then
      some ({ s with pending := update s.pending id none }.put c
        { call with stage := .finished (some id) outcome })
    else none
  | _ => none

def deliver (s : ChirpsRaftTransport β) (entry : PendingRpc) (source : ChirpsNodeId)
    (payload : RaftFramePayload β) : ChirpsRaftTransport β :=
  { s with
    pending := update s.pending payload.correlationId none
    -- `pending.response.send`
    calls := update s.calls entry.call
      ((s.calls entry.call).map fun call => { call with inbox := some payload.message })
    delivered := s.delivered ++ [⟨entry.call, source, payload⟩] }

section Deliver

variable (s : ChirpsRaftTransport β) (entry : PendingRpc) (source : ChirpsNodeId)
  (payload : RaftFramePayload β)

@[simp] theorem deliver_delivered : (s.deliver entry source payload).delivered =
    s.delivered ++ [⟨entry.call, source, payload⟩] := rfl

theorem deliver_calls : (s.deliver entry source payload).calls =
    update s.calls entry.call
      ((s.calls entry.call).map fun call => { call with inbox := some payload.message }) := rfl

variable {s entry source payload}

theorem eq_of_deliver_calls {c : ℕ} {call : RpcCall β}
    (h : (s.deliver entry source payload).calls c = some call) :
    (c = entry.call ∧ ∃ old, s.calls c = some old ∧
      { old with inbox := some payload.message } = call) ∨
    (c ≠ entry.call ∧ s.calls c = some call) := by
  rcases update_eq_some_iff.mp h with ⟨rfl, hnew⟩ | hold
  · exact .inl ⟨rfl, Option.map_eq_some_iff.mp hnew⟩
  · exact .inr hold

end Deliver

def consumeIncomingFrom (s : ChirpsRaftTransport β) (source : ChirpsNodeId)
    (payload : RaftFramePayload β) :
    Except TransportError (Option (RaftFramePayload β)) × ChirpsRaftTransport β :=
  let groupId := payload.message.groupId
  if groupId ≠ s.groupId then
    (.error (.connection s!"Raft group mismatch: expected {s.groupId.val}, got {groupId.val}"), s)
  else if !isResponse payload.message then (.ok (some payload), s)
  else
    match s.pending payload.correlationId with
    | none =>
      (.error (.connection s!"unknown Raft response correlation {payload.correlationId}"), s)
    | some entry =>
      if entry.target ≠ source ∨ entry.groupId ≠ groupId then
        (.error (.connection
          s!"Raft response route mismatch for correlation {payload.correlationId}"), s)
      else if !responseMatches entry.rpcType payload.message then
        (.error (.connection
          s!"Raft response type mismatch for correlation {payload.correlationId}"), s)
      else (.ok none, s.deliver entry source payload)

def step (s : ChirpsRaftTransport β) : RpcEvent β → Option (ChirpsRaftTransport β)
  | .begin c target rpcType message hardTtl =>
    if (s.calls c).isNone then
      some (s.put c ⟨target, rpcType, message, hardTtl, .admission, none⟩)
    else none
  | .advance c => (s.calls c).bind (s.advance c)
  | .sent c result => (s.calls c).bind (s.sent c · result)
  | .receive c => (s.calls c).bind (s.receive c)
  | .expire c => (s.calls c).bind (s.expire c)
  | .drop c => (s.calls c).bind (s.dropCall c)
  | .unregister c => (s.calls c).bind (s.unregister c)
  | .incoming source payload =>
    -- the table is locked for responses to the group only
    if s.lockedBy ≠ none ∧ payload.message.groupId = s.groupId ∧ isResponse payload.message then
      none
    else some (s.consumeIncomingFrom source payload).2
  | .closeRpcAdmission => some { s with acceptingRpcs := false }
  | .cancelPendingRpcs =>
    if s.lockedBy = none then some { s with pending := fun _ => none } else none

/-! ## What one event does -/

structure Accepts (s : ChirpsRaftTransport β) (entry : PendingRpc) (source : ChirpsNodeId)
    (payload : RaftFramePayload β) : Prop where
  pending : s.pending payload.correlationId = some entry
  target : entry.target = source
  group : payload.message.groupId = s.groupId
  entryGroup : entry.groupId = s.groupId
  type : responseMatches entry.rpcType payload.message

theorem consumeIncomingFrom_of_accepts {entry : PendingRpc} {source : ChirpsNodeId}
    {payload : RaftFramePayload β} (h : s.Accepts entry source payload) :
    s.consumeIncomingFrom source payload = (.ok none, s.deliver entry source payload) := by
  simp [consumeIncomingFrom, h.pending, h.target, h.group, h.entryGroup, h.type,
    isResponse_of_responseMatches h.type]

theorem consumeIncomingFrom_of_not_accepts {source : ChirpsNodeId} {payload : RaftFramePayload β}
    (h : ∀ entry, ¬ s.Accepts entry source payload) :
    (s.consumeIncomingFrom source payload).2 = s := by
  unfold consumeIncomingFrom
  extract_lets groupId
  split
  · rfl
  rename_i hgroup
  split
  · rfl
  split
  · rfl
  rename_i entry hentry
  split
  · rfl
  rename_i hroute
  split
  · rfl
  rename_i htype
  -- past all checks the entry is the one waited for
  push Not at hgroup hroute
  exact absurd ⟨hentry, hroute.1, hgroup, hroute.2.trans hgroup, by simpa using htype⟩ (h entry)

/-- The steps of a call on its own, between two stages, with the lock afterwards. -/
inductive Moves (s : ChirpsRaftTransport β) (c : ℕ) (call : RpcCall β) :
    RpcStage β → RpcStage β → Option ℕ → Prop
  | admitted : Moves s c call .admission .numbering s.lockedBy
  | refused {outcome : RpcOutcome β} (h : outcome.message? = none) :
      Moves s c call .admission (.finished none outcome) s.lockedBy
  | numbered (id : UInt64) : Moves s c call .numbering (.encoding id) s.lockedBy
  | misdirected {id : UInt64} {outcome : RpcOutcome β} (h : outcome.message? = none) :
      Moves s c call (.encoding id) (.finished (some id) outcome) s.lockedBy
  | encoded {id : UInt64} (h : call.message.groupId = s.groupId) :
      Moves s c call (.encoding id) (.locking id) s.lockedBy
  | locked {id : UInt64} (h : s.lockedBy = none) :
      Moves s c call (.locking id) (.rechecking id) (some c)
  | readmitted {id : UInt64} (h : s.acceptingRpcs) :
      Moves s c call (.rechecking id) (.inserting id) s.lockedBy
  | rejected {id : UInt64} {outcome : RpcOutcome β} (h : outcome.message? = none) :
      Moves s c call (.rechecking id) (.finished (some id) outcome) none
  | sent {id : UInt64} : Moves s c call (.sending id) (.waiting id) s.lockedBy
  | abandoned {id : UInt64} {outcome : RpcOutcome β} (h : outcome.message? = none) :
      Moves s c call (.sending id) (.leaving id outcome) s.lockedBy
  | answered {id : UInt64} {outcome : RpcOutcome β}
      (h : ∀ message, outcome.message? = some message → call.inbox = some message) :
      Moves s c call (.waiting id) (.leaving id outcome) s.lockedBy

/-- A call begins, moves, registers or leaves, a response is delivered or not, the admission is
closed or the table emptied. -/
inductive Change (s : ChirpsRaftTransport β) : RpcEvent β → ChirpsRaftTransport β → Prop
  | begins {c : ℕ} {target : ChirpsNodeId} {rpcType : RpcType} {message : RaftMessage β}
      {hardTtl : ℕ} (fresh : s.calls c = none) :
      Change s (.begin c target rpcType message hardTtl)
        (s.put c ⟨target, rpcType, message, hardTtl, .admission, none⟩)
  | moves {event : RpcEvent β} {c : ℕ} {call : RpcCall β} {stage : RpcStage β}
      {nextCorr : UInt64} {lockedBy : Option ℕ} (hcall : s.calls c = some call)
      (hmoves : s.Moves c call call.stage stage lockedBy) :
      Change s event
        ({ s with nextCorr := nextCorr, lockedBy := lockedBy }.put c { call with stage := stage })
  | registers {c : ℕ} {call : RpcCall β} {id : UInt64} (hcall : s.calls c = some call)
      (hstage : call.stage = .inserting id) :
      Change s (.advance c) ({ s with
        pending := update s.pending id (some (s.entryOf c call))
        lockedBy := none }.put c { call with stage := .sending id })
  | unregisters {c : ℕ} {call : RpcCall β} {id : UInt64} {outcome : RpcOutcome β}
      (hcall : s.calls c = some call) (hstage : call.stage = .leaving id outcome) :
      Change s (.unregister c) ({ s with pending := update s.pending id none }.put c
        { call with stage := .finished (some id) outcome })
  | delivers {entry : PendingRpc} {source : ChirpsNodeId} {payload : RaftFramePayload β}
      (accepts : s.Accepts entry source payload) :
      Change s (.incoming source payload) (s.deliver entry source payload)
  | ignores {source : ChirpsNodeId} {payload : RaftFramePayload β} :
      Change s (.incoming source payload) s
  | closes : Change s .closeRpcAdmission { s with acceptingRpcs := false }
  | cancels (unlocked : s.lockedBy = none) :
      Change s .cancelPendingRpcs { s with pending := fun _ => none }

section Inversion

variable {s next : ChirpsRaftTransport β} {c : ℕ} {call : RpcCall β}

variable {event : RpcEvent β}

section

variable (hcall : s.calls c = some call)
include hcall

theorem Change.of_moves {stage stage' : RpcStage β}
    (hstage : call.stage = stage) (hmoves : s.Moves c call stage stage' s.lockedBy) :
    s.Change event (s.put c { call with stage := stage' }) :=
  .moves hcall (hstage ▸ hmoves)

theorem change_of_advance (h : s.advance c call = some next) : s.Change (.advance c) next := by
  unfold advance at h
  split at h
  case h_1 hstage =>
    split at h <;> cases h
    · exact .of_moves hcall hstage .admitted
    · exact .of_moves hcall hstage (.refused rfl)
  case h_2 hstage =>
    cases h
    exact .moves hcall (hstage ▸ .numbered _)
  case h_3 id hstage =>
    split at h <;> cases h
    · exact .of_moves hcall hstage (.misdirected rfl)
    · rename_i hencode
      exact .of_moves hcall hstage (.encoded (by simpa [encodeError] using hencode))
  case h_4 id hstage =>
    split at h
    · rename_i hlock
      cases h
      exact .moves hcall (hstage ▸ .locked hlock)
    · cases h
  case h_5 id hstage =>
    split at h <;> cases h
    · rename_i haccepting
      exact .of_moves hcall hstage (.readmitted haccepting)
    · exact .moves hcall (hstage ▸ .rejected rfl)
  case h_6 id hstage =>
    cases h
    exact .registers hcall hstage
  case h_7 => cases h

theorem change_of_sent {result : Except TransportError Unit}
    (h : s.sent c call result = some next) : s.Change event next := by
  unfold ChirpsRaftTransport.sent at h
  split at h
  case h_1 hstage =>
    cases h
    exact .of_moves hcall hstage .sent
  case h_2 hstage =>
    cases h
    exact .of_moves hcall hstage (.abandoned rfl)
  case h_3 => cases h

theorem change_of_receive (h : s.receive c call = some next) : s.Change event next := by
  unfold receive at h
  split at h
  case h_1 message hstage hinbox =>
    cases h
    exact .of_moves hcall hstage (.answered fun _ h => hinbox.trans h)
  case h_2 hstage _ =>
    split at h
    · cases h
    · cases h
      exact .of_moves hcall hstage (.answered fun _ h => by cases h)
  case h_3 => cases h

theorem change_of_expire (h : s.expire c call = some next) : s.Change event next := by
  unfold expire at h
  split at h
  case h_1 hstage =>
    cases h
    exact .of_moves hcall hstage (.answered fun _ h => by cases h)
  case h_2 => cases h

theorem change_of_dropCall (h : s.dropCall c call = some next) : s.Change event next := by
  unfold dropCall at h
  split at h
  case h_1 hstage =>
    cases h
    exact .of_moves hcall hstage (.refused rfl)
  case h_2 hstage =>
    cases h
    exact .of_moves hcall hstage (.abandoned rfl)
  case h_3 hstage =>
    cases h
    exact .of_moves hcall hstage (.answered fun _ h => by cases h)
  case h_4 => cases h

theorem change_of_unregister
    (h : s.unregister c call = some next) : s.Change (.unregister c) next := by
  unfold unregister at h
  split at h
  case h_1 hstage =>
    split at h
    · cases h
      exact .unregisters hcall hstage
    · cases h
  case h_2 => cases h

end

theorem change_of_step (h : s.step event = some next) : s.Change event next := by
  cases event with
  | begin c target rpcType message hardTtl =>
    rw [step] at h
    split at h
    · rename_i hfresh
      cases h
      exact .begins (Option.isNone_iff_eq_none.mp hfresh)
    · cases h
  | advance c =>
    obtain ⟨call, hcall, h⟩ := Option.bind_eq_some_iff.mp h
    exact change_of_advance hcall h
  | sent c result =>
    obtain ⟨call, hcall, h⟩ := Option.bind_eq_some_iff.mp h
    exact change_of_sent hcall h
  | receive c =>
    obtain ⟨call, hcall, h⟩ := Option.bind_eq_some_iff.mp h
    exact change_of_receive hcall h
  | expire c =>
    obtain ⟨call, hcall, h⟩ := Option.bind_eq_some_iff.mp h
    exact change_of_expire hcall h
  | drop c =>
    obtain ⟨call, hcall, h⟩ := Option.bind_eq_some_iff.mp h
    exact change_of_dropCall hcall h
  | unregister c =>
    obtain ⟨call, hcall, h⟩ := Option.bind_eq_some_iff.mp h
    exact change_of_unregister hcall h
  | incoming source payload =>
    rw [step] at h
    split at h
    · cases h
    cases h
    by_cases haccepts : ∃ entry, s.Accepts entry source payload
    · obtain ⟨entry, haccepts⟩ := haccepts
      rw [consumeIncomingFrom_of_accepts haccepts]
      exact .delivers haccepts
    · rw [consumeIncomingFrom_of_not_accepts (not_exists.mp haccepts)]
      exact .ignores
  | closeRpcAdmission =>
    cases h
    exact .closes
  | cancelPendingRpcs =>
    rw [step] at h
    split at h
    · rename_i hlock
      cases h
      exact .cancels hlock
    · cases h

end Inversion

/-! ## The moves of a call -/

namespace Moves

variable {s : ChirpsRaftTransport β} {c : ℕ} {call : RpcCall β} {stage stage' : RpcStage β}
  {lockedBy : Option ℕ}

section

variable (h : s.Moves c call stage stage' lockedBy)
include h

theorem correlationId {id : UInt64}
    (hid : stage.correlationId? = some id) : stage'.correlationId? = some id := by
  cases h <;> first | exact hid | cases hid

theorem registered : stage'.registered? = stage.registered? := by
  cases h <;> rfl

theorem past (hpast : stage.Past) : stage'.Past := by
  cases h <;> trivial

theorem ne_sending (id : UInt64) : stage' ≠ .sending id := by
  cases h <;> nofun

theorem group
    (hgroup : stage.Encoded → call.message.groupId = s.groupId) (hencoded : stage'.Encoded) :
    call.message.groupId = s.groupId := by
  cases h with
  | encoded h => exact h
  | locked _ | readmitted _ | sent | abandoned _ | answered _ => exact hgroup trivial
  | admitted | refused _ | numbered _ | misdirected _ | rejected _ => cases hencoded

theorem inbox {message : RaftMessage β}
    (hmessage : stage'.message? = some message) : call.inbox = some message := by
  cases h with
  | answered h => exact h _ hmessage
  | refused h | misdirected h | rejected h | abandoned h => cases h.symm.trans hmessage
  | admitted | numbered _ | encoded _ | locked _ | readmitted _ | sent => cases hmessage

theorem locks
    (hlock : stage.HoldsLock → s.lockedBy = some c) (holds : stage'.HoldsLock) :
    lockedBy = some c := by
  cases h with
  | locked _ => rfl
  | readmitted _ => exact hlock trivial
  | _ => cases holds

theorem lockedBy_eq
    (hlock : stage.HoldsLock → s.lockedBy = some c) {other : ℕ} (hne : other ≠ c)
    (holds : s.lockedBy = some other) : lockedBy = some other := by
  cases h with
  | locked h => rw [h] at holds; cases holds
  | rejected _ => exact absurd (Option.some.inj (holds.symm.trans (hlock trivial))) hne
  | _ => exact holds

end

end Moves

end ChirpsRaftTransport

end Chirps.Raft
