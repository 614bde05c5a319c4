/-
# Clients and the oracle over the mesh

Clients ask one replicated oracle through transports, which sit on nodes and take a response by its
correlation id alone. Each request has a channel of its own that the transports do not see.
-/

import Chirps.Tso.Client

namespace Chirps.Tso

open Chirps.Library Chirps.RaftStorage
open Function (update)

/-- The sender of a oneshot channel, by the client behind its receiver. -/
structure PendingResponse (κ : Type*) where
  client : κ
  channel : ℕ
  deriving DecidableEq

/-- `ChirpsTsoTransport` without its table of peers. -/
structure ChirpsTsoTransport (κ : Type*) where
  requester : UInt64
  credential : Bytes
  nextCorrelation : UInt64
  pending : UInt64 → Option (PendingResponse κ)

namespace ChirpsTsoTransport

variable {κ : Type*}

def new (requester : UInt64) (credential : Bytes) : ChirpsTsoTransport κ :=
  ⟨requester, credential, 1, fun _ => none⟩

def register (transport : ChirpsTsoTransport κ) (waiter : PendingResponse κ) :
    ChirpsTsoTransport κ :=
  { transport with
    nextCorrelation := transport.nextCorrelation + 1
    pending := update transport.pending transport.nextCorrelation (some waiter) }

def remove (transport : ChirpsTsoTransport κ) (correlationId : UInt64) : ChirpsTsoTransport κ :=
  { transport with pending := update transport.pending correlationId none }

structure Fewer (transport other : ChirpsTsoTransport κ) : Prop where
  nextCorrelation : transport.nextCorrelation = other.nextCorrelation
  pending : ∀ id waiter, transport.pending id = some waiter → other.pending id = some waiter

theorem Fewer.rfl {transport : ChirpsTsoTransport κ} : transport.Fewer transport :=
  ⟨Eq.refl _, fun _ _ h => h⟩

theorem fewer_remove (transport : ChirpsTsoTransport κ) (correlationId : UInt64) :
    (transport.remove correlationId).Fewer transport := by
  refine ⟨Eq.refl _, fun id waiter h => ?_⟩
  rw [remove] at h
  by_cases hid : id = correlationId
  · simp [hid] at h
  · simpa [hid] using h

theorem pending_of_register {transport : ChirpsTsoTransport κ} {id : UInt64}
    {new waiter : PendingResponse κ} (h : (transport.register new).pending id = some waiter) :
    transport.pending id = some waiter ∨ (id = transport.nextCorrelation ∧ waiter = new) := by
  rw [register] at h
  by_cases hid : id = transport.nextCorrelation
  · exact .inr ⟨hid, by simpa [hid] using h.symm⟩
  · exact .inl (by simpa [hid] using h)

end ChirpsTsoTransport

/-- `get_timestamps_inner` from the answer to its proposal on. -/
def allocationResult : TsoResponse → Except TsoError TimestampRange
  | .allocated range => .ok range
  | .leasePending notBeforeMs => .error (.leaseNotReady notBeforeMs)
  | .invalidCount => .error .invalidCount
  | .timestampOverflow => .error .timestampOverflow
  | .leaseAcquired _ => .error (.codec "allocation returned a lease response")

structure Envelope (ν : Type*) where
  node : ν
  channel : ℕ
  frame : TsoFrame

structure Envelope.Replies {ν : Type*} (envelope other : Envelope ν) : Prop where
  node : envelope.node = other.node
  channel : envelope.channel = other.channel
  correlationId : envelope.frame.correlationId = other.frame.correlationId

def Envelope.range {ν : Type*} (envelope : Envelope ν) : Option TimestampRange :=
  envelope.frame.timestamps.toOption

/-- The transports `τ` with their nodes `ν`, the clients `κ`, and whom the service authenticates. -/
structure Deployment (ν τ κ : Type*) where
  nodeOf : τ → ν
  transport : τ → UInt64 × Bytes
  transportOf : κ → τ
  requester : κ → UInt64
  credential : κ → Bytes
  leader : κ → Option UInt64
  config : κ → TsoClientConfig
  authenticate : UInt64 → Bytes → Bool

structure Cluster (codec : TsoCodec) (ν τ κ : Type*) where
  oracle : Issuing codec
  transports : τ → ChirpsTsoTransport κ
  clients : κ → TsoClient
  envelopes : List (Envelope ν)
  /-- The client of each channel. -/
  opened : List κ
  /-- All timestamps that calls of a client have returned. -/
  returned : κ → List HybridTimestamp

inductive ClusterEvent (τ κ : Type*)
  /-- A command is applied and its response lost, or the machine is restored. -/
  | oracle (event : TsoEvent)
  | call (c : κ) (count : UInt32)
  | advance (c : κ)
  /-- The client asks for a range, or for the leader if it knows none. -/
  | request (c : κ)
  /-- Sending fails or the response does not come in time. -/
  | fail (c : κ) (message : String)
  /-- The channel is closed because another request took its correlation id. -/
  | closed (c : κ)
  | cancel (c : κ)
  /-- A leader allocates for a request, and answers it. -/
  | serve (i : ℕ) (leaderId leaseNowMs physicalMs : UInt64)
  /-- A node answers a request with an error. -/
  | refuse (i : ℕ) (error : TsoError)
  /-- A node answers a question for the leader. -/
  | answer (i : ℕ) (leaderId : UInt64)
  /-- A node hands a frame to one of its transports. -/
  | deliver (i : ℕ) (t : τ)

namespace Cluster

variable {codec : TsoCodec} {ν τ κ : Type*} [DecidableEq τ] [DecidableEq κ]

def initial (codec : TsoCodec) (D : Deployment ν τ κ) : Cluster codec ν τ κ where
  oracle := .initial codec
  transports t := .new (D.transport t).1 (D.transport t).2
  clients c := .new (D.requester c) (D.credential c) (D.leader c) (D.config c)
  envelopes := []
  opened := []
  returned _ := []

def settle (x : Cluster codec ν τ κ) (c : κ) (moved : CallResult × TsoClient) :
    Cluster codec ν τ κ :=
  { x with
    clients := update x.clients c moved.2
    returned := update x.returned c (x.returned c ++ TsoClient.handedOut moved.1) }

def setTransport (x : Cluster codec ν τ κ) (t : τ) (transport : ChirpsTsoTransport κ) :
    Cluster codec ν τ κ :=
  { x with transports := update x.transports t transport }

def send (x : Cluster codec ν τ κ) (envelope : Envelope ν) : Cluster codec ν τ κ :=
  { x with envelopes := x.envelopes ++ [envelope] }

omit [DecidableEq τ] [DecidableEq κ] in
def open' (x : Cluster codec ν τ κ) (D : Deployment ν τ κ) (c : κ) (call : Call)
    (frame : UInt64 → TsoFrame) (stage : UInt64 → ℕ → Stage) : Cluster codec ν τ κ :=
  let t := D.transportOf c
  let correlationId := (x.transports t).nextCorrelation
  let channel := x.opened.length
  (({ x with opened := x.opened ++ [c] }.setTransport t
    ((x.transports t).register ⟨c, channel⟩)).send
      ⟨D.nodeOf t, channel, frame correlationId⟩).settle c
        ((x.clients c).goto call (stage correlationId channel))

def step [DecidableEq ν] (D : Deployment ν τ κ) (x : Cluster codec ν τ κ) :
    ClusterEvent τ κ → Option (Cluster codec ν τ κ)
  | .oracle event => (x.oracle.step event).map fun oracle => { x with oracle := oracle }
  | .call c count =>
    if (x.clients c).call.isNone then some (x.settle c ((x.clients c).getTimestamps count))
    else none
  | .advance c => (x.clients c).advance.map (x.settle c)
  | .request c =>
    let client := x.clients c
    match client.call with
    | none => none
    | some call =>
      match call.stage with
      | .refilling refill =>
        match client.leader with
        | some _ =>
          some (x.open' D c call
            (fun id => .request id ⟨client.requester, client.credential, refill.size⟩)
            (.requesting refill))
        | none =>
          let transport := x.transports (D.transportOf c)
          some (x.open' D c call
            (fun id => .discoverLeader id transport.requester transport.credential)
            (.discovering refill))
      | _ => none
  | .fail c message =>
    match (x.clients c).waitsFor with
    | none => none
    | some (correlationId, _) =>
      let t := D.transportOf c
      some ((x.setTransport t ((x.transports t).remove correlationId)).settle c
        ((x.clients c).resume (.error (.transport message)) (.error (.transport message))))
  | .closed c =>
    match (x.clients c).waitsFor with
    | none => none
    | some (correlationId, channel) =>
      if (x.transports (D.transportOf c)).pending correlationId = some ⟨c, channel⟩ then none
      else
        let error := TsoError.transport "TSO response channel closed"
        some (x.settle c ((x.clients c).resume (.error error) (.error error)))
  -- a call that is dropped leaves its entry in `pending`
  | .cancel c => some (x.settle c (x.clients c).cancel)
  | .serve i leaderId leaseNowMs physicalMs =>
    match x.envelopes[i]? with
    | some ⟨node, channel, .request correlationId request⟩ =>
      if D.authenticate request.requester request.credential ∧ request.count ≠ 0 then
        let command := TsoCommand.allocate leaderId leaseNowMs physicalMs request.count
        let response := (transition x.oracle.machine.state command).1
        (x.oracle.step (.apply command)).map fun oracle =>
          { x with oracle := oracle }.send
            ⟨node, channel, .timestampResponse correlationId (allocationResult response)⟩
      else none
    | _ => none
  | .refuse i error =>
    match x.envelopes[i]? with
    | some ⟨node, channel, .request correlationId request⟩ =>
      let error := if D.authenticate request.requester request.credential then error
        else .unauthenticated request.requester
      some (x.send ⟨node, channel, .timestampResponse correlationId (.error error)⟩)
    | _ => none
  | .answer i leaderId =>
    match x.envelopes[i]? with
    | some ⟨node, channel, .discoverLeader correlationId requester credential⟩ =>
      let response := if D.authenticate requester credential then .ok leaderId
        else .error (.unauthenticated requester)
      some (x.send ⟨node, channel, .leaderResponse correlationId response⟩)
    | _ => none
  | .deliver i t =>
    match x.envelopes[i]? with
    | none => none
    | some envelope =>
      if D.nodeOf t = envelope.node then
        match envelope.frame.responseTo with
        | none => some x
        | some correlationId =>
          match (x.transports t).pending correlationId with
          | none => some x
          | some waiter =>
            let x := x.setTransport t ((x.transports t).remove correlationId)
            let client := x.clients waiter.client
            if client.waitsFor.map Prod.snd = some waiter.channel then
              some (x.settle waiter.client
                (client.resume envelope.frame.timestamps envelope.frame.leader))
            -- the receiver of the channel is gone
            else some x
      else none

/-! ## What one event does -/

/-- A client by itself hands out new timestamps of the ranges it owns. -/
def Moves (client : TsoClient) (moved : CallResult × TsoClient) : Prop :=
  ∀ (Owned : TimestampRange → Prop) (returned : List HybridTimestamp),
    (∀ range, Owned range → range.WellFormed) → client.Inv Owned returned →
      moved.2.Inv Owned (returned ++ TsoClient.handedOut moved.1)

/-- A response arrives on the channel on which its request waits. -/
def Answered (x : Cluster codec ν τ κ) : ClusterEvent τ κ → Prop
  | .deliver i t =>
    ∀ envelope ∈ x.envelopes[i]?, ∀ correlationId ∈ envelope.frame.responseTo,
      ∀ waiter ∈ (x.transports t).pending correlationId, waiter.channel = envelope.channel
  | _ => True

instance (x : Cluster codec ν τ κ) (event : ClusterEvent τ κ) : Decidable (x.Answered event) :=
  match event with
  -- by the options: a search may find the finite type of the correlation ids instead
  | .deliver i t =>
    letI (envelope : Envelope ν) (correlationId : UInt64) : Decidable (∀ waiter ∈
        (x.transports t).pending correlationId, waiter.channel = envelope.channel) :=
      Option.decidableForallMem _
    letI (envelope : Envelope ν) : Decidable (∀ correlationId ∈ envelope.frame.responseTo,
        ∀ waiter ∈ (x.transports t).pending correlationId, waiter.channel = envelope.channel) :=
      Option.decidableForallMem _
    Option.decidableForallMem x.envelopes[i]?
  | .oracle _ | .call _ _ | .advance _ | .request _ | .fail _ _ | .closed _ | .cancel _
  | .serve _ _ _ _ | .refuse _ _ | .answer _ _ => isTrue trivial

/-- What an event does: to the oracle, to the network, or to one client and its
transport. -/
inductive Change (D : Deployment ν τ κ) (x : Cluster codec ν τ κ) :
    ClusterEvent τ κ → Cluster codec ν τ κ → Prop
  | oracle {event : TsoEvent} {oracle : Issuing codec} (h : x.oracle.step event = some oracle) :
      Change D x (.oracle event) { x with oracle := oracle }
  | serve {i : ℕ} {leaderId leaseNowMs physicalMs correlationId : UInt64} {node : ν} {channel : ℕ}
      {request : TsoRequest} {oracle : Issuing codec}
      (asked : ⟨node, channel, .request correlationId request⟩ ∈ x.envelopes)
      (h : x.oracle.step (.apply (.allocate leaderId leaseNowMs physicalMs request.count)) =
        some oracle) :
      Change D x (.serve i leaderId leaseNowMs physicalMs) ({ x with oracle := oracle }.send
        ⟨node, channel, .timestampResponse correlationId (allocationResult (transition
          x.oracle.machine.state (.allocate leaderId leaseNowMs physicalMs request.count)).1)⟩)
  | reply {event : ClusterEvent τ κ} {asked envelope : Envelope ν} (hasked : asked ∈ x.envelopes)
      (replies : envelope.Replies asked) (h : envelope.range = none) :
      Change D x event (x.send envelope)
  | client {event : ClusterEvent τ κ} {c : κ} {t : τ} {transport : ChirpsTsoTransport κ}
      {moved : CallResult × TsoClient} (fewer : transport.Fewer (x.transports t))
      (moves : Moves (x.clients c) moved) :
      Change D x event ((x.setTransport t transport).settle c moved)
  | opens {event : ClusterEvent τ κ} {c : κ} {t : τ} {frame : TsoFrame}
      {moved : CallResult × TsoClient} (hrange : frame.timestamps.toOption = none)
      (hid : frame.correlationId = (x.transports t).nextCorrelation)
      (moves : Moves (x.clients c) moved) :
      Change D x event ((({ x with opened := x.opened ++ [c] }.setTransport t
        ((x.transports t).register ⟨c, x.opened.length⟩)).send
          ⟨D.nodeOf t, x.opened.length, frame⟩).settle c moved)
  | idle {event : ClusterEvent τ κ} {t : τ} {transport : ChirpsTsoTransport κ}
      (fewer : transport.Fewer (x.transports t)) : Change D x event (x.setTransport t transport)
  | receives {i : ℕ} {t : τ} {envelope : Envelope ν} {correlationId : UInt64}
      {waiter : PendingResponse κ} (henvelope : x.envelopes[i]? = some envelope)
      (hresponse : envelope.frame.responseTo = some correlationId)
      (hwaiter : (x.transports t).pending correlationId = some waiter) :
      Change D x (.deliver i t) ((x.setTransport t ((x.transports t).remove correlationId)).settle
        waiter.client ((x.clients waiter.client).resume envelope.frame.timestamps
          envelope.frame.leader))

omit [DecidableEq κ] in
theorem setTransport_self (x : Cluster codec ν τ κ) (t : τ) :
    x.setTransport t (x.transports t) = x := by
  simp [setTransport]

theorem moves_resume_error (client : TsoClient) (error : TsoError) :
    Moves client (client.resume (.error error) (.error error)) :=
  fun _ _ _ inv => inv.resume (fun _ h => by cases h) _

theorem moves_goto {client : TsoClient} {call : Call} (h : client.call = some call)
    (stage : Stage) : Moves client (client.goto call stage) :=
  fun _ _ _ inv => inv.goto h stage

theorem change_of_step [DecidableEq ν] {D : Deployment ν τ κ} {x next : Cluster codec ν τ κ}
    {event : ClusterEvent τ κ} (h : x.step D event = some next) : x.Change D event next := by
  -- a move that leaves the transports alone
  have hmove : ∀ {event : ClusterEvent τ κ} {c : κ} {moved : CallResult × TsoClient},
      Moves (x.clients c) moved → x.Change D event (x.settle c moved) := by
    intro event c moved moves
    have hchange : x.Change D event
        ((x.setTransport (D.transportOf c) (x.transports (D.transportOf c))).settle c moved) :=
      .client .rfl moves
    rwa [setTransport_self] at hchange
  cases event with
  | oracle event =>
    obtain ⟨oracle, horacle, rfl⟩ := Option.map_eq_some_iff.mp h
    exact .oracle horacle
  | call c count =>
    rw [step] at h
    split at h
    · cases h
      exact hmove fun _ _ _ inv => inv.getTimestamps count
    · cases h
  | advance c =>
    obtain ⟨moved, hmoved, rfl⟩ := Option.map_eq_some_iff.mp h
    exact hmove fun _ _ wellFormed inv => inv.advance wellFormed hmoved
  | request c =>
    simp only [step] at h
    split at h
    · cases h
    · rename_i call hcall
      split at h
      · split at h
        · cases h
          exact .opens rfl rfl (moves_goto hcall _)
        · cases h
          exact .opens rfl rfl (moves_goto hcall _)
      · cases h
  | fail c message =>
    simp only [step] at h
    split at h
    · cases h
    · cases h
      exact .client (ChirpsTsoTransport.fewer_remove _ _) (moves_resume_error _ _)
  | closed c =>
    simp only [step] at h
    split at h
    · cases h
    · split at h
      · cases h
      · cases h
        exact hmove (moves_resume_error _ _)
  | cancel c =>
    cases h
    exact hmove fun _ _ _ inv => inv.cancel
  | serve i leaderId leaseNowMs physicalMs =>
    simp only [step] at h
    split at h
    · rename_i hasked
      split at h
      · obtain ⟨oracle, horacle, rfl⟩ := Option.map_eq_some_iff.mp h
        exact .serve (List.mem_of_getElem? hasked) horacle
      · cases h
    · cases h
  | refuse i error =>
    simp only [step] at h
    split at h
    · rename_i hasked
      cases h
      exact .reply (List.mem_of_getElem? hasked) ⟨rfl, rfl, rfl⟩ rfl
    · cases h
  | answer i leaderId =>
    simp only [step] at h
    split at h
    · rename_i hasked
      cases h
      exact .reply (List.mem_of_getElem? hasked) ⟨rfl, rfl, rfl⟩ rfl
    · cases h
  | deliver i t =>
    have hidle : x.Change D (.deliver i t) x := by
      have hchange : x.Change D (.deliver i t) (x.setTransport t (x.transports t)) := .idle .rfl
      rwa [setTransport_self] at hchange
    simp only [step] at h
    split at h
    · cases h
    · rename_i envelope henvelope
      split at h
      · split at h
        · cases h
          exact hidle
        · rename_i correlationId hresponse
          split at h
          · cases h
            exact hidle
          · rename_i waiter hwaiter
            split at h
            · cases h
              exact .receives henvelope hresponse hwaiter
            · cases h
              exact .idle (ChirpsTsoTransport.fewer_remove _ _)
      · cases h

end Cluster

end Chirps.Tso
