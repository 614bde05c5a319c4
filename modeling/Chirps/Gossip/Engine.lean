/-
# The gossip engine

An engine probes some peers at each tick, asks others to probe for it, takes silent peers for
suspect and then for dead, and sends its view along, stamped with the feature `hlc`. Iteration
orders and random choices are inputs of a tick.
-/

import Chirps.Gossip.Hlc

namespace Chirps.Gossip

open Chirps.Tso (HybridTimestamp)

/-- `Status` and `MemberStatus`. -/
inductive Status
  | alive
  | suspect
  | dead
  deriving DecidableEq

/-- `status_rank`. -/
def Status.rank : Status → ℕ
  | alive => 0
  | suspect => 1
  | dead => 2

/-- The program has no `birth`: which engine of the node made the id, and as which one. -/
structure HlcEventId (ν : Type*) where
  source : ν
  sequence : UInt64
  birth : ℕ × ℕ
  deriving DecidableEq

def HlcEventId.key {ν : Type*} (id : HlcEventId ν) : ν × UInt64 := (id.source, id.sequence)

structure PeerState (ν : Type*) where
  incarnation : UInt64
  status : Status
  lastSeen : ℕ
  suspectSince : Option ℕ
  eventId : Option (HlcEventId ν)
  timestamp : Option HybridTimestamp

def PeerState.new {ν : Type*} (incarnation : UInt64) (status : Status) (now : ℕ) : PeerState ν :=
  ⟨incarnation, status, now, none, none, none⟩

structure Peer (ν α : Type*) where
  nodeId : ν
  addr : α
  state : PeerState ν

structure MembershipUpdate (ν α : Type*) where
  nodeId : ν
  incarnation : UInt64
  addr : α
  status : Status
  deriving DecidableEq

structure StampedMembershipUpdate (ν α : Type*) where
  eventId : HlcEventId ν
  timestamp : HybridTimestamp
  update : MembershipUpdate ν α
  deriving DecidableEq

namespace Peer

variable {ν α : Type*}

def stamped (peer : Peer ν α) (eventId : HlcEventId ν) (timestamp : HybridTimestamp) : Peer ν α :=
  { peer with state := { peer.state with eventId := some eventId, timestamp := some timestamp } }

def learned (update : MembershipUpdate ν α) (now : ℕ) : Peer ν α :=
  ⟨update.nodeId, update.addr,
    { PeerState.new update.incarnation update.status now with
      suspectSince := if update.status = .suspect then some now else none }⟩

def Newer (peer : Peer ν α) (update : MembershipUpdate ν α) : Prop :=
  peer.state.incarnation < update.incarnation

instance (peer : Peer ν α) (update : MembershipUpdate ν α) : Decidable (peer.Newer update) :=
  inferInstanceAs (Decidable (_ < _))

def Stronger (peer : Peer ν α) (update : MembershipUpdate ν α) : Prop :=
  update.incarnation = peer.state.incarnation ∧ peer.state.status.rank < update.status.rank

instance (peer : Peer ν α) (update : MembershipUpdate ν α) : Decidable (peer.Stronger update) :=
  inferInstanceAs (Decidable (_ ∧ _))

def updated (peer : Peer ν α) (update : MembershipUpdate ν α) (now : ℕ) : Peer ν α :=
  { peer with
    addr := update.addr
    state := { peer.state with
      incarnation := if peer.Newer update then update.incarnation else peer.state.incarnation
      lastSeen := if peer.Newer update then now else peer.state.lastSeen
      status := update.status
      suspectSince := if update.status = .suspect then some now else none } }

def update (peer : Peer ν α) : MembershipUpdate ν α :=
  ⟨peer.nodeId, peer.state.incarnation, peer.addr, peer.state.status⟩

/-- What is gossiped of a peer with the feature `hlc`; without a stamp the program panics. -/
def stampedUpdate (peer : Peer ν α) : Option (StampedMembershipUpdate ν α) :=
  match peer.state.eventId, peer.state.timestamp with
  | some eventId, some timestamp => some ⟨eventId, timestamp, peer.update⟩
  | _, _ => none

end Peer

structure HlcGossipMessage (ν α : Type*) where
  eventId : HlcEventId ν
  timestamp : HybridTimestamp
  updates : List (StampedMembershipUpdate ν α)
  deriving DecidableEq

def HlcGossipMessage.WellFormed {ν α : Type*} (message : HlcGossipMessage ν α) : Prop :=
  ∀ event ∈ message.updates, event.timestamp ≤ message.timestamp

instance {ν α : Type*} (message : HlcGossipMessage ν α) : Decidable message.WellFormed :=
  inferInstanceAs (Decidable (∀ event ∈ message.updates, event.timestamp ≤ message.timestamp))

inductive Frame (ν α : Type*)
  | ping (seq : UInt64) (source : ν)
  | ack (seq : UInt64) (source : ν)
  | pingReq (seq : UInt64) (source target : ν)
  | gossip (updates : List (MembershipUpdate ν α))
  | hlcGossip (message : HlcGossipMessage ν α)
  deriving DecidableEq

inductive GossipError
  | hlc (error : HlcError)
  | invalidHlcEnvelope (text : String)

inductive PingStage
  | direct (sentAt : ℕ)
  | indirect (requestedAt : ℕ)
  deriving DecidableEq

structure PendingPing (ν : Type*) where
  target : ν
  stage : PingStage
  deriving DecidableEq

structure StatusChange (ν : Type*) where
  nodeId : ν
  before : Status
  after : Status
  incarnation : UInt64
  deriving DecidableEq

/-- `GossipConfig`, and whether the feature `hlc` is compiled in. -/
structure GossipConfig where
  pingTimeout : ℕ
  indirectPingTimeout : ℕ
  suspectToDeadTimeout : ℕ
  fanout : Option ℕ
  hlc : Bool

/-- The smallest number whose square is at least `n`. -/
def ceilSqrt (n : ℕ) : ℕ := if n.sqrt * n.sqrt = n then n.sqrt else n.sqrt + 1

def calculateFanout (totalNodes : ℕ) (configured : Option ℕ) : ℕ :=
  if totalNodes ≤ 1 then 0
  else
    match configured with
    | some fanout => min fanout (totalNodes - 1)
    | none => min (max 3 (ceilSqrt totalNodes)) (totalNodes - 1)

/-- The program has no `life`, the number of the engine at its node, and no `events`, the count of
its event ids. -/
structure GossipEngine (ν α : Type*) where
  nodeId : ν
  config : GossipConfig
  peers : AList (fun _ : ν => Peer ν α)
  pending : AList (fun _ : UInt64 => PendingPing ν)
  seq : UInt64
  hlc : LocalHlc
  eventSequence : UInt64
  seenMessages : List (HlcEventId ν)
  seenMembershipEvents : List (HlcEventId ν)
  latestMembershipTimestamps : ν → Option HybridTimestamp
  life : ℕ
  events : ℕ

namespace GossipEngine

variable {ν α : Type*}

/-- `new_with_hlc`. -/
def new (nodeId : ν) (config : GossipConfig) (membership : AList (fun _ : ν => Peer ν α))
    (hlc : LocalHlc) (life : ℕ) : GossipEngine ν α where
  nodeId := nodeId
  config := config
  peers := membership
  pending := ∅
  seq := 0
  hlc := hlc
  eventSequence := 0
  seenMessages := []
  seenMembershipEvents := []
  latestMembershipTimestamps _ := none
  life := life
  events := 0

/-! ## Stamps -/

/-- The counter after `next_event_id`, which leaves out zero. -/
def nextSequence (e : GossipEngine ν α) : UInt64 :=
  if e.eventSequence + 1 = 0 then 1 else e.eventSequence + 1

/-- The id that `next_event_id` returns. -/
def nextEventId (e : GossipEngine ν α) : HlcEventId ν :=
  ⟨e.nodeId, e.nextSequence, (e.life, e.events + 1)⟩

def tickAndCount (e : GossipEngine ν α) : GossipEngine ν α :=
  { e with hlc := e.hlc.tick.2, eventSequence := e.nextSequence, events := e.events + 1 }

variable [DecidableEq ν] (e : GossipEngine ν α)

def setPeer (id : ν) (peer : Peer ν α) : GossipEngine ν α :=
  { e with peers := e.peers.insert id peer }

theorem lookup_setPeer_self (id : ν) (peer : Peer ν α) :
    (e.setPeer id peer).peers.lookup id = some peer :=
  AList.lookup_insert _

theorem lookup_setPeer_of_ne {e : GossipEngine ν α} {id other : ν} {peer : Peer ν α}
    (h : other ≠ id) : (e.setPeer id peer).peers.lookup other = e.peers.lookup other :=
  AList.lookup_insert_ne h

def setLatest (id : ν) (timestamp : HybridTimestamp) : GossipEngine ν α :=
  { e with latestMembershipTimestamps :=
      Function.update e.latestMembershipTimestamps id (some timestamp) }

def stampMembershipEvent (id : ν) : GossipEngine ν α :=
  match e.peers.lookup id with
  | none => e.tickAndCount
  | some peer =>
    (e.tickAndCount.setPeer id (peer.stamped e.nextEventId e.hlc.ticked)).setLatest id
      e.hlc.ticked

def stampIf (changed : Bool) (id : ν) : GossipEngine ν α :=
  if e.config.hlc && changed then e.stampMembershipEvent id else e

def ensureMembershipStamps (order : List ν) : GossipEngine ν α :=
  (order.filter fun id => (e.peers.lookup id).any fun peer => peer.state.timestamp.isNone).foldl
    stampMembershipEvent e

/-! ## Probes -/

def touchPeer (id : ν) (addr : α) (status : Status) (now : ℕ) : GossipEngine ν α :=
  let changed := (e.peers.lookup id).all fun peer => peer.state.status ≠ status
  let peer := (e.peers.lookup id).getD ⟨id, addr, .new 0 status now⟩
  (e.setPeer id
    { peer with
      addr := addr, state := { peer.state with status := status, lastSeen := now } }).stampIf
      changed id

def handlePing (sender : ν) (seq : UInt64) (addr : α) (now : ℕ) :
    GossipEngine ν α × List (ν × Frame ν α) :=
  (e.touchPeer sender addr .alive now, [(sender, .ack seq e.nodeId)])

def removePending (seq : UInt64) : GossipEngine ν α :=
  { e with pending := e.pending.erase seq }

def handleAck (sender : ν) (seq : UInt64) (addr : α) (now : ℕ) : GossipEngine ν α :=
  match e.peers.lookup sender with
  | some peer =>
    if peer.state.status = .dead then e
    else
      ((e.setPeer sender { peer with state := { peer.state with
          status := .alive, lastSeen := now, suspectSince := none } }).stampIf
        (peer.state.status ≠ .alive) sender).removePending seq
  | none => (e.touchPeer sender addr .alive now).removePending seq

def handlePingReq (requester : ν) (seq : UInt64) (target : ν) (addr : α)
    (now : ℕ) : GossipEngine ν α × List (ν × Frame ν α) :=
  (e.touchPeer requester addr .alive now, [(target, .ping seq requester)])

/-! ## Gossip -/

def applyOneMembershipUpdate (update : MembershipUpdate ν α) (now : ℕ) : Bool × GossipEngine ν α :=
  match e.peers.lookup update.nodeId with
  | none => (true, e.setPeer update.nodeId (Peer.learned update now))
  | some peer =>
    if peer.Newer update ∨ peer.Stronger update then
      (true, e.setPeer update.nodeId (peer.updated update now))
    else (false, e)

/-- One round of the loop of `apply_membership_update`. -/
def applyAndStamp (now : ℕ) (e : GossipEngine ν α) (update : MembershipUpdate ν α) :
    GossipEngine ν α :=
  (e.applyOneMembershipUpdate update now).2.stampIf (e.applyOneMembershipUpdate update now).1
    update.nodeId

def applyMembershipUpdate (updates : List (MembershipUpdate ν α)) (now : ℕ) : GossipEngine ν α :=
  updates.foldl (applyAndStamp now) e

def Seen (ids : List (HlcEventId ν)) (id : HlcEventId ν) : Prop := id.key ∈ ids.map HlcEventId.key

instance (ids : List (HlcEventId ν)) (id : HlcEventId ν) : Decidable (Seen ids id) :=
  inferInstanceAs (Decidable (_ ∈ _))

/-- The engine has a later membership event about the peer, or one of the same time. -/
def Stale (event : StampedMembershipUpdate ν α) : Prop :=
  ∃ current ∈ e.latestMembershipTimestamps event.update.nodeId, event.timestamp ≤ current

instance (e : GossipEngine ν α) (event : StampedMembershipUpdate ν α) : Decidable (e.Stale event) :=
  Option.decidableExistsMem _

def markEvent (id : HlcEventId ν) : GossipEngine ν α :=
  { e with seenMembershipEvents := id :: e.seenMembershipEvents }

def stampWith (event : StampedMembershipUpdate ν α) : GossipEngine ν α :=
  match e.peers.lookup event.update.nodeId with
  | none => e
  | some peer => e.setPeer event.update.nodeId (peer.stamped event.eventId event.timestamp)

/-- One round of the loop of `apply_hlc_gossip`. -/
def applyEvent (now : ℕ) (state : ℕ × GossipEngine ν α) (event : StampedMembershipUpdate ν α) :
    ℕ × GossipEngine ν α :=
  let (applied, e) := state
  if Seen e.seenMembershipEvents event.eventId then (applied, e)
  else
    let e := e.markEvent event.eventId
    if e.Stale event then (applied, e)
    else
      match (e.setLatest event.update.nodeId event.timestamp).applyOneMembershipUpdate
          event.update now with
      | (true, e) => (applied + 1, e.stampWith event)
      | (false, e) => (applied, e)

/-- `apply_hlc_gossip`. A message that was seen before is still received by the clock. -/
def applyHlcGossip (message : HlcGossipMessage ν α) (now : ℕ) :
    Except GossipError ℕ × GossipEngine ν α :=
  if message.WellFormed then
    match e.hlc.receive message.timestamp with
    | (.error error, hlc) => (.error (.hlc error), { e with hlc := hlc })
    | (.ok _, hlc) =>
      if Seen e.seenMessages message.eventId then (.ok 0, { e with hlc := hlc })
      else
        let result := message.updates.foldl (applyEvent now)
          (0, { e with hlc := hlc, seenMessages := message.eventId :: e.seenMessages })
        (.ok result.1, result.2)
  else (.error (.invalidHlcEnvelope "membership timestamp exceeds envelope timestamp"), e)

/-! ## Timeouts -/

def timedOut (config : GossipConfig) (now : ℕ) (state : PeerState ν) : Option (PeerState ν) :=
  match state.status with
  | .alive =>
    if config.indirectPingTimeout ≤ now - state.lastSeen then
      some { state with status := .suspect, suspectSince := some now }
    else none
  | .suspect =>
    if now - state.lastSeen < config.indirectPingTimeout then
      some { state with status := .alive, suspectSince := none }
    else if config.suspectToDeadTimeout ≤ now - state.suspectSince.getD state.lastSeen then
      some { state with status := .dead }
    else none
  | .dead => none

/-- One round of the loop of `check_timeouts`. -/
def checkPeer (now : ℕ) (result : GossipEngine ν α × List (StatusChange ν)) (id : ν) :
    GossipEngine ν α × List (StatusChange ν) :=
  let (e, changes) := result
  match e.peers.lookup id with
  | none => (e, changes)
  | some peer =>
    match timedOut e.config now peer.state with
    | none => (e, changes)
    | some state => (e.setPeer id { peer with state := state },
        changes ++ [⟨id, peer.state.status, state.status, state.incarnation⟩])

/-- `apply_timeouts`: first all peers are checked, then the changes stamped. -/
def applyTimeouts (now : ℕ) (order : List ν) : GossipEngine ν α × List (StatusChange ν) :=
  let (e, changes) := order.foldl (checkPeer now) (e, [])
  (changes.foldl (fun e change => e.stampIf true change.nodeId) e, changes)

def Unanswered (config : GossipConfig) (now : ℕ) (pending : PendingPing ν) : Bool :=
  match pending.stage with
  | .direct sentAt => config.pingTimeout ≤ now - sentAt
  | .indirect _ => false

/-- The helpers have not answered in time either. -/
def Abandoned (config : GossipConfig) (now : ℕ) (pending : PendingPing ν) : Bool :=
  match pending.stage with
  | .direct _ => false
  | .indirect requestedAt => config.indirectPingTimeout ≤ now - requestedAt

def pendingWith (p : PendingPing ν → Bool) (order : List UInt64) : List (UInt64 × ν) :=
  order.filterMap fun seq =>
    ((e.pending.lookup seq).filter p).map fun pending => (seq, pending.target)

def requestIndirect (now : ℕ) (e : GossipEngine ν α) (request : UInt64 × ν) : GossipEngine ν α :=
  { e with pending := e.pending.insert request.1 ⟨request.2, .indirect now⟩ }

/-- One round of the last loop of `process_pending`. -/
def suspectTarget (now : ℕ) (result : GossipEngine ν α × List (StatusChange ν))
    (request : UInt64 × ν) : GossipEngine ν α × List (StatusChange ν) :=
  let (e, changes) := result
  match (e.peers.lookup request.2).filter fun peer => peer.state.status = .alive with
  | none => (e.removePending request.1, changes)
  | some peer =>
    (((e.setPeer request.2 { peer with state := { peer.state with
        status := .suspect, suspectSince := some now } }).stampIf true request.2).removePending
          request.1, changes ++ [⟨request.2, .alive, .suspect, peer.state.incarnation⟩])

/-- The peers that are not dead, except `excluded`. -/
def candidates (excluded : Option ν) : List ν :=
  e.peers.keys.filter fun id =>
    id ∉ excluded ∧ (e.peers.lookup id).all fun peer => peer.state.status ≠ .dead

/-- A choice of `select_targets` and `select_indirect_targets`. -/
def Selects (excluded : Option ν) (chosen : List ν) : Prop :=
  chosen.Nodup ∧ chosen ⊆ e.candidates excluded ∧
    chosen.length = calculateFanout ((e.candidates excluded).length + 1) e.config.fanout

instance (e : GossipEngine ν α) (excluded : Option ν) (chosen : List ν) :
    Decidable (e.Selects excluded chosen) :=
  inferInstanceAs (Decidable (_ ∧ _ ∧ _))

/-- `process_pending`; `helpers` are the choices of `select_indirect_targets`. -/
def processPending (now : ℕ) (order : List UInt64)
    (helpers : UInt64 → List ν) : GossipEngine ν α × List (StatusChange ν) × List (ν × Frame ν α) :=
  let requests := e.pendingWith (Unanswered e.config now) order
  let abandoned := e.pendingWith (Abandoned e.config now) order
  let frames := requests.flatMap fun request =>
    (helpers request.1).map fun helper => (helper, .pingReq request.1 e.nodeId request.2)
  let result := abandoned.foldl (suspectTarget now) (requests.foldl (requestIndirect now) e, [])
  (result.1, result.2, frames)

/-! ## Sending -/

def peersIn (order : List ν) : List (Peer ν α) :=
  order.filterMap fun id => e.peers.lookup id

def gossipTo (order : List ν) (target : ν) : Option (GossipEngine ν α × List (ν × Frame ν α)) :=
  if e.config.hlc then
    let e := e.ensureMembershipStamps order
    ((e.peersIn order).mapM Peer.stampedUpdate).map fun updates =>
      if updates = [] then (e, [])
      else (e.tickAndCount, [(target, .hlcGossip ⟨e.nextEventId, e.hlc.ticked, updates⟩)])
  else
    let updates := (e.peersIn order).map Peer.update
    some (e, if updates = [] then [] else [(target, .gossip updates)])

structure Probe (ν : Type*) where
  target : ν
  sentAt : ℕ
  sent : Bool

/-- One round of the loop of `send_pings`. The number is used up if sending fails. -/
def sendPing (order : List ν) (e : GossipEngine ν α) (probe : Probe ν) :
    Option (GossipEngine ν α × List (ν × Frame ν α)) :=
  if e.pending.entries.any fun entry => entry.2.target = probe.target then some (e, [])
  else
    let e := { e with seq := e.seq + 1 }
    let ping := (probe.target, Frame.ping e.seq e.nodeId)
    if probe.sent then
      (gossipTo { e with pending := e.pending.insert e.seq ⟨probe.target, .direct probe.sentAt⟩ }
        order probe.target).map fun (e, frames) => (e, ping :: frames)
    else some (e, [ping])

def sendPings (order : List ν) :
    GossipEngine ν α → List (Probe ν) → Option (GossipEngine ν α × List (ν × Frame ν α))
  | e, [] => some (e, [])
  | e, probe :: rest =>
    (e.sendPing order probe).bind fun (e, frames) =>
      (sendPings order e rest).map fun (e, more) => (e, frames ++ more)

/-- The time, the orders of the maps and the random choices of a tick. -/
structure TickInput (ν : Type*) where
  now : ℕ
  peerOrder : List ν
  pendingOrder : List UInt64
  helpers : UInt64 → List ν
  probes : List (Probe ν)

/-- `tick`, if the inputs are possible. -/
def tick (input : TickInput ν) :
    Option (GossipEngine ν α × List (StatusChange ν) × List (ν × Frame ν α)) :=
  let (checked, suspected, requests) := e.processPending input.now input.pendingOrder input.helpers
  let (timed, changes) := checked.applyTimeouts input.now input.peerOrder
  if input.pendingOrder.Perm e.pending.keys ∧ input.peerOrder.Perm e.peers.keys ∧
      (∀ request ∈ e.pendingWith (Unanswered e.config input.now) input.pendingOrder,
        e.Selects (some request.2) (input.helpers request.1)) ∧
      timed.Selects none (input.probes.map Probe.target) then
    (timed.sendPings input.peerOrder input.probes).map fun (e, frames) =>
      (e, suspected ++ changes, requests ++ frames)
  else none

end GossipEngine

end Chirps.Gossip
