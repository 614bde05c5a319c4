/-
# A mesh of gossip engines

Nodes run an engine each, and a fresh one after a restart. Frames may arrive any number of times, at
any time, or never, with the sender that the transport has authenticated.
-/

import Chirps.Gossip.Effect
import Chirps.Library.Table

namespace Chirps.Gossip

open Chirps.Library

variable {ν α : Type*}

namespace Frame

def about : Frame ν α → List ν
  | .gossip updates => updates.map MembershipUpdate.nodeId
  | .hlcGossip message => message.updates.map fun event => event.update.nodeId
  | _ => []

def nodes (sender : ν) : Frame ν α → Set ν
  | .ping _ _ => {sender}
  | .ack _ _ => {sender}
  | .pingReq _ requester _ => {requester}
  | frame => {id | id ∈ frame.about}

def ids : Frame ν α → List (HlcEventId ν)
  | .hlcGossip message => message.eventId :: message.updates.map StampedMembershipUpdate.eventId
  | _ => []

end Frame

namespace GossipEngine

variable [DecidableEq ν]

/-- The dispatch of the frame loop. Without the feature the frames with stamps are left
to others. -/
def handleFrame (e : GossipEngine ν α) (sender : ν) (frame : Frame ν α) (addr : α) (now : ℕ) :
    GossipEngine ν α × List (ν × Frame ν α) :=
  match frame with
  | .ping seq _ => e.handlePing sender seq addr now
  | .ack seq _ => (e.handleAck sender seq addr now, [])
  | .pingReq seq requester target => e.handlePingReq requester seq target addr now
  | .gossip updates => (e.applyMembershipUpdate updates now, [])
  | .hlcGossip message => (if e.config.hlc then (e.applyHlcGossip message now).2 else e, [])

theorem evolves_handleFrame (e : GossipEngine ν α) (sender : ν) (frame : Frame ν α) (addr : α)
    (now : ℕ) :
    Evolves (frame.nodes sender) {i | i ∈ frame.ids} ∅ e
      (e.handleFrame sender frame addr now).1 := by
  cases frame with
  | ping seq source => exact evolves_touchPeer e (Set.mem_singleton sender) addr .alive now
  | ack seq source => exact evolves_handleAck e (Set.mem_singleton sender) seq addr now
  | pingReq seq requester target =>
    exact evolves_touchPeer e (Set.mem_singleton requester) addr .alive now
  | gossip updates =>
    exact evolves_applyMembershipUpdate e (fun update hupdate => List.mem_map_of_mem hupdate) now
  | hlcGossip message =>
    simp only [handleFrame]
    split
    · refine evolves_applyHlcGossip e (fun event hevent => ?_) List.mem_cons_self
        (fun event hevent => ?_) now
      · exact List.mem_map_of_mem (f := fun event => event.update.nodeId) hevent
      · exact List.mem_cons_of_mem _ (List.mem_map_of_mem hevent)
    · exact Evolves.refl e

theorem mem_handleFrame {e : GossipEngine ν α} {sender : ν} {frame : Frame ν α} {addr : α} {now : ℕ}
    {sent : ν × Frame ν α} (h : sent ∈ (e.handleFrame sender frame addr now).2) :
    (∃ seq source, frame = .ping seq source ∧ sent = (sender, .ack seq e.nodeId)) ∨
      ∃ seq requester target, frame = .pingReq seq requester target ∧
        sent = (target, .ping seq requester) := by
  cases frame with
  | ping seq source => exact .inl ⟨seq, source, rfl, List.mem_singleton.mp h⟩
  | pingReq seq requester target =>
    exact .inr ⟨seq, requester, target, rfl, List.mem_singleton.mp h⟩
  | ack seq source => cases h
  | gossip updates => cases h
  | hlcGossip message => cases h

end GossipEngine

structure Packet (ν α : Type*) where
  sender : ν
  target : ν
  frame : Frame ν α
  deriving DecidableEq

structure Mesh (ν α : Type*) where
  engines : ν → Option (GossipEngine ν α)
  network : List (Packet ν α)
  changes : List (ν × StatusChange ν)

inductive MeshEvent (ν α : Type*)
  /-- A node starts or restarts. -/
  | start (a : ν) (config : GossipConfig) (membership : AList fun _ : ν => Peer ν α)
    (hlc : LocalHlc)
  | tick (a : ν) (input : GossipEngine.TickInput ν)
  /-- The packet at place `i` arrives. -/
  | deliver (i : ℕ) (addr : α) (now : ℕ)

namespace Mesh

open GossipEngine

def initial : Mesh ν α := ⟨fun _ => none, [], []⟩

def lives (x : Mesh ν α) (a : ν) : ℕ := (x.engines a).elim 0 fun e => e.life + 1

variable [DecidableEq ν]

def advance (x : Mesh ν α) (a : ν) (e : GossipEngine ν α) (changes : List (StatusChange ν))
    (frames : List (ν × Frame ν α)) : Mesh ν α where
  engines := Function.update x.engines a (some e)
  network := x.network ++ frames.map fun sent => ⟨a, sent.1, sent.2⟩
  changes := x.changes ++ changes.map fun change => (a, change)

def step (x : Mesh ν α) : MeshEvent ν α → Option (Mesh ν α)
  | .start a config membership hlc =>
    some (x.advance a (.new a config membership hlc (x.lives a)) [] [])
  | .tick a input =>
    (x.engines a).bind fun e => (e.tick input).map fun (e, changes, frames) =>
      x.advance a e changes frames
  | .deliver i addr now =>
    x.network[i]?.bind fun packet => (x.engines packet.target).map fun e =>
      let (e, frames) := e.handleFrame packet.sender packet.frame addr now
      x.advance packet.target e [] frames

inductive Acts (x : Mesh ν α) : MeshEvent ν α → Mesh ν α → Prop
  | start (a : ν) (config : GossipConfig) (membership : AList fun _ : ν => Peer ν α)
      (hlc : LocalHlc) : Acts x (.start a config membership hlc)
        (x.advance a (.new a config membership hlc (x.lives a)) [] [])
  | tick {a : ν} {input : TickInput ν} {e e' : GossipEngine ν α} {changes : List (StatusChange ν)}
      {frames : List (ν × Frame ν α)} (engine : x.engines a = some e)
      (ticks : e.tick input = some (e', changes, frames)) :
      Acts x (.tick a input) (x.advance a e' changes frames)
  | deliver {i : ℕ} {addr : α} {now : ℕ} {packet : Packet ν α} {e : GossipEngine ν α}
      (sent : x.network[i]? = some packet) (engine : x.engines packet.target = some e) :
      Acts x (.deliver i addr now)
        (x.advance packet.target (e.handleFrame packet.sender packet.frame addr now).1 []
          (e.handleFrame packet.sender packet.frame addr now).2)

variable {x : Mesh ν α}

theorem acts_of_step {next : Mesh ν α} {event : MeshEvent ν α} (h : x.step event = some next) :
    Acts x event next := by
  cases event with
  | start a config membership hlc =>
    cases h
    exact .start a config membership hlc
  | tick a input =>
    obtain ⟨e, hengine, h⟩ := Option.bind_eq_some_iff.mp h
    obtain ⟨⟨e', changes, frames⟩, hticks, rfl⟩ := Option.map_eq_some_iff.mp h
    exact .tick hengine hticks
  | deliver i addr now =>
    obtain ⟨packet, hsent, h⟩ := Option.bind_eq_some_iff.mp h
    obtain ⟨e, hengine, rfl⟩ := Option.map_eq_some_iff.mp h
    exact .deliver hsent hengine

section Advance

variable {x : Mesh ν α} {a : ν} {e : GossipEngine ν α} {changes : List (StatusChange ν)}
  {frames : List (ν × Frame ν α)}

theorem engines_advance_self : (x.advance a e changes frames).engines a = some e :=
  Function.update_self ..

theorem engines_advance_of_ne {b : ν} (h : b ≠ a) :
    (x.advance a e changes frames).engines b = x.engines b :=
  Function.update_of_ne h ..

theorem forall_engines_advance {p : ν → GossipEngine ν α → Prop} (self : p a e)
    (others : ∀ b e, b ≠ a → x.engines b = some e → p b e) :
    ∀ b e', (x.advance a e changes frames).engines b = some e' → p b e' := by
  refine forall_of_update (fun e' he' => ?_) others
  cases he'
  exact self

theorem mem_network_advance {packet : Packet ν α} :
    packet ∈ (x.advance a e changes frames).network ↔
      packet ∈ x.network ∨ ∃ sent ∈ frames, ⟨a, sent.1, sent.2⟩ = packet := by
  simp [advance]

theorem mem_changes_advance {entry : ν × StatusChange ν} :
    entry ∈ (x.advance a e changes frames).changes ↔
      entry ∈ x.changes ∨ ∃ change ∈ changes, (a, change) = entry := by
  simp [advance]

end Advance

/-! ## A node in its own view -/

/-- No node is in its own view, sends to itself, or gossips or reports about itself. -/
structure Apart (x : Mesh ν α) : Prop where
  views : ∀ a e, x.engines a = some e → a ∉ e.peers
  targets : ∀ packet ∈ x.network, packet.sender ≠ packet.target
  gossip : ∀ packet ∈ x.network, packet.sender ∉ packet.frame.about
  changes : ∀ entry ∈ x.changes, entry.2.nodeId ≠ entry.1

/-- The view of a starting engine has its peers under their ids, and not its own node. -/
def StartsApart : MeshEvent ν α → Prop
  | .start a _ membership _ =>
    a ∉ membership ∧ ∀ id peer, membership.lookup id = some peer → peer.nodeId = id
  | _ => True

/-- A frame tells its target nothing about the target itself. -/
def NotToldOfItself (x : Mesh ν α) : MeshEvent ν α → Prop
  | .deliver i _ _ => ∀ packet ∈ x.network[i]?, packet.target ∉ packet.frame.about
  | _ => True

instance (x : Mesh ν α) : ∀ event, Decidable (x.NotToldOfItself event)
  | .start _ _ _ _ => isTrue trivial
  | .tick _ _ => isTrue trivial
  | .deliver _ _ _ => Option.decidableForallMem _

def ToThird (packet : Packet ν α) : Prop :=
  ∀ seq requester target, packet.frame = .pingReq seq requester target →
    packet.target ≠ requester ∧ packet.target ≠ target

structure ApartInv (x : Mesh ν α) : Prop where
  apart : x.Apart
  own : ∀ a e, x.engines a = some e → e.nodeId = a ∧ e.Keyed
  requests : ∀ packet ∈ x.network, ToThird packet

theorem apartInv_initial : (initial : Mesh ν α).ApartInv where
  apart :=
    { views := nofun
      targets := nofun
      gossip := nofun
      changes := fun _ h => by cases h }
  own _ _ h := by cases h
  requests _ h := by cases h

theorem ApartInv.target_notMem_nodes (inv : x.ApartInv) {packet : Packet ν α}
    (hmem : packet ∈ x.network) (hgossip : packet.target ∉ packet.frame.about) :
    packet.target ∉ packet.frame.nodes packet.sender := by
  obtain ⟨sender, target, frame⟩ := packet
  have hne := inv.apart.targets _ hmem
  cases frame with
  | ping seq source => exact hne.symm
  | ack seq source => exact hne.symm
  | pingReq seq requester subject => exact (inv.requests _ hmem seq requester subject rfl).1
  | gossip updates => exact hgossip
  | hlcGossip message => exact hgossip

theorem ApartInv.advance (inv : x.ApartInv) {a : ν} {e : GossipEngine ν α}
    {changes : List (StatusChange ν)} {frames : List (ν × Frame ν α)} (hnode : e.nodeId = a)
    (hkeyed : e.Keyed) (hview : a ∉ e.peers)
    (hframes : ∀ sent ∈ frames, a ≠ sent.1 ∧ a ∉ sent.2.about ∧ ToThird ⟨a, sent.1, sent.2⟩)
    (hchanges : ∀ change ∈ changes, change.nodeId ≠ a) :
    (x.advance a e changes frames).ApartInv := by
  -- a packet is an old one or one of the frames
  have hpackets : ∀ {p : Packet ν α → Prop}, (∀ packet ∈ x.network, p packet) →
      (∀ sent ∈ frames, p ⟨a, sent.1, sent.2⟩) →
      ∀ packet ∈ (x.advance a e changes frames).network, p packet := by
    intro p hold hnew packet hpacket
    rcases mem_network_advance.mp hpacket with hmem | ⟨sent, hsent, rfl⟩
    · exact hold packet hmem
    · exact hnew sent hsent
  refine ⟨⟨?_, ?_, ?_, ?_⟩, ?_, ?_⟩
  · exact forall_engines_advance (p := fun b e => b ∉ e.peers) hview
      fun b e' _ => inv.apart.views b e'
  · exact hpackets inv.apart.targets fun sent hsent => (hframes sent hsent).1
  · exact hpackets inv.apart.gossip fun sent hsent => (hframes sent hsent).2.1
  · intro entry hentry
    rcases mem_changes_advance.mp hentry with hmem | ⟨change, hchange, rfl⟩
    · exact inv.apart.changes entry hmem
    · exact hchanges change hchange
  · exact forall_engines_advance (p := fun b e => e.nodeId = b ∧ e.Keyed) ⟨hnode, hkeyed⟩
      fun b e' _ => inv.own b e'
  · exact hpackets inv.requests fun sent hsent => (hframes sent hsent).2.2

theorem outward_of_emits {e e' : GossipEngine ν α} {a : ν} {sent : ν × Frame ν α}
    (hsent : Emits e e' sent) (hnode : e.nodeId = a) (hkeyed : e.Keyed) (hview : a ∉ e.peers) :
    a ≠ sent.1 ∧ a ∉ sent.2.about ∧ ToThird ⟨a, sent.1, sent.2⟩ := by
  obtain ⟨target, frame⟩ := sent
  obtain ⟨htarget, hframe⟩ := hsent
  have hne : a ≠ target := fun heq => hview (heq ▸ htarget)
  refine ⟨hne, ?_, ?_⟩
  · cases frame with
    | gossip updates =>
      intro habout
      obtain ⟨update, hupdate, heq⟩ := List.mem_map.mp habout
      exact hview (heq ▸ hframe update hupdate hkeyed)
    | hlcGossip message =>
      intro habout
      obtain ⟨event, hevent, heq⟩ := List.mem_map.mp habout
      exact hview (heq ▸ (hframe.2 event hevent).1 hkeyed)
    | ping seq source => exact List.not_mem_nil
    | ack seq source => exact List.not_mem_nil
    | pingReq seq source subject => exact List.not_mem_nil
  · rintro seq requester subject rfl
    exact ⟨fun heq => hne (hnode.symm.trans (hframe.1.symm.trans heq.symm)), hframe.2⟩

theorem ApartInv.step {next : Mesh ν α} {event : MeshEvent ν α} (inv : x.ApartInv)
    (start : StartsApart event) (told : x.NotToldOfItself event) (h : x.step event = some next) :
    next.ApartInv := by
  cases acts_of_step h with
  | start a config membership hlc =>
    exact inv.advance rfl start.2 start.1 nofun nofun
  | tick engine ticks =>
    rename_i a input e e' changes frames
    obtain ⟨hnode, hkeyed⟩ := inv.own a e engine
    have hview := inv.apart.views a e engine
    obtain ⟨hsends, hchanges⟩ := sends_tick ticks
    refine inv.advance (hsends.evolves.nodeId.trans hnode) (hsends.evolves.keyed hkeyed)
      (fun hmem => ?_) (fun sent hsent => ?_) fun change hchange heq => ?_
    · exact (hsends.evolves.mem_peers a hmem).elim id hview
    · exact outward_of_emits (hsends.emits sent hsent) hnode hkeyed hview
    · exact hview (heq ▸ hchanges change hchange)
  | deliver sent engine =>
    rename_i i addr now packet e
    have hmem := List.mem_of_getElem? sent
    obtain ⟨hnode, hkeyed⟩ := inv.own packet.target e engine
    have hview := inv.apart.views packet.target e engine
    have hevolves := e.evolves_handleFrame packet.sender packet.frame addr now
    refine inv.advance (hevolves.nodeId.trans hnode) (hevolves.keyed hkeyed) (fun hself => ?_)
      (fun reply hreply => ?_) nofun
    · exact (hevolves.mem_peers _ hself).elim
        (inv.target_notMem_nodes hmem (told packet sent)) hview
    · rcases mem_handleFrame hreply with ⟨seq, source, -, rfl⟩ |
        ⟨seq, requester, subject, hframe, rfl⟩
      · exact ⟨(inv.apart.targets packet hmem).symm, List.not_mem_nil,
          nofun⟩
      · exact ⟨(inv.requests packet hmem seq requester subject hframe).2, List.not_mem_nil,
          nofun⟩

end Mesh

open Mesh in
/-- As long as no gossip about a node arrives at it, no node is in its own view, probes itself, or
gossips about itself. -/
theorem node_is_not_its_own_peer [DecidableEq ν] {events : List (MeshEvent ν α)} {x : Mesh ν α}
    (start : ∀ event ∈ events, StartsApart event)
    (told : Along step NotToldOfItself initial events) (reach : run step initial events = some x) :
    x.Apart := by
  have hstart : Along step (fun _ event => StartsApart event) (initial : Mesh ν α) events :=
    along_of_forall fun _ => start
  have inv : x.ApartInv := run_invariant_of_along
    (fun _ _ _ inv guard h => inv.step guard.1 guard.2 h) apartInv_initial (hstart.and told) reach
  exact inv.apart

section Examples

variable [DecidableEq ν]

def viewOf (ids : List ν) : AList fun _ : ν => Peer ν Unit :=
  ids.foldl (fun view id => view.insert id ⟨id, (), .new 0 .alive 0⟩) ∅

theorem lookup_viewOf {ids : List ν} {id : ν} {peer : Peer ν Unit}
    (h : (viewOf ids).lookup id = some peer) : peer = ⟨id, (), .new 0 .alive 0⟩ := by
  suffices hview : ∀ view : AList fun _ : ν => Peer ν Unit,
      (∀ id peer, view.lookup id = some peer → peer = ⟨id, (), .new 0 .alive 0⟩) → ∀ id peer,
        (ids.foldl (fun view id => view.insert id ⟨id, (), .new 0 .alive 0⟩) view).lookup id =
          some peer → peer = ⟨id, (), .new 0 .alive 0⟩ from
    hview ∅ nofun id peer h
  clear h
  induction ids with
  | nil => exact fun view hview => hview
  | cons first rest ih =>
    refine fun view hview => ih _ fun id peer hpeer => ?_
    by_cases hid : id = first
    · subst hid
      rw [AList.lookup_insert] at hpeer
      exact (Option.some.inj hpeer).symm
    · rw [AList.lookup_insert_ne hid] at hpeer
      exact hview id peer hpeer

def startWith (hlc : Bool) (a : ν) (fanout : Option ℕ) (ids : List ν) : MeshEvent ν Unit :=
  .start a ⟨5, 5, 5, fanout, hlc⟩ (viewOf ids) (.withClock 0 fun _ => 0)

theorem startsApart_startWith {hlc : Bool} {a : ν} {fanout : Option ℕ} {ids : List ν}
    (h : a ∉ viewOf ids) : Mesh.StartsApart (startWith hlc a fanout ids) := by
  refine ⟨h, fun id peer hpeer => ?_⟩
  rw [lookup_viewOf hpeer]

def plainStart (a : ℕ) (fanout : Option ℕ) (ids : List ℕ) : MeshEvent ℕ Unit :=
  startWith false a fanout ids

def plainTick (a : ν) (now : ℕ) (order : List ν) (pending : List UInt64) (helpers : UInt64 → List ν)
    (targets : List ν) : MeshEvent ν Unit :=
  .tick a ⟨now, order, pending, helpers, targets.map fun target => ⟨target, now, true⟩⟩

end Examples

/-- Node 1 sends its view to node 0, which then probes and suspects itself. -/
theorem node_becomes_its_own_peer :
    let events := [plainStart 0 (some 3) [1], plainStart 1 (some 3) [0],
      plainTick 1 1 [0] [] (fun _ => []) [0], .deliver 1 () 2,
      plainTick 0 3 [0, 1] [] (fun _ => []) [0, 1],
      plainTick 0 9 [0, 1] [2, 1] (fun seq => if seq = 1 then [1] else [0]) [0, 1]]
    (∀ event ∈ events, Mesh.StartsApart event) ∧
      ∃ x, run Mesh.step Mesh.initial events = some x ∧
        (∃ e, x.engines 0 = some e ∧ 0 ∈ e.peers) ∧ ⟨0, 0, .ping 1 0⟩ ∈ x.network ∧
        (0, ⟨0, .alive, .suspect, 0⟩) ∈ x.changes := by
  intro events
  constructor
  · simp only [events, List.forall_mem_cons]
    exact ⟨startsApart_startWith (by decide), startsApart_startWith (by decide), trivial, trivial,
      trivial, trivial, List.forall_mem_nil _⟩
  · decide

/-- Node 0 probes node 1, which answers; the gossip that goes with the probe is lost. -/
theorem node_is_not_its_own_peer_answered :
    let events := [plainStart 0 (some 3) [1], plainStart 1 (some 3) [],
      plainTick 0 1 [1] [] (fun _ => []) [1], .deliver 0 () 2, .deliver 2 () 3]
    ∃ x, run Mesh.step Mesh.initial events = some x ∧ (∃ e, x.engines 1 = some e ∧ 0 ∈ e.peers) ∧
      x.Apart := by
  intro events
  refine exists_of_evaluated (fun x => ∃ e, x.engines 1 = some e ∧ 0 ∈ e.peers) (by decide)
    fun x hx hknown => ⟨hknown, node_is_not_its_own_peer ?_ (by decide) hx⟩
  simp only [events, List.forall_mem_cons]
  exact ⟨startsApart_startWith (by decide), startsApart_startWith (by decide), trivial, trivial,
    trivial, List.forall_mem_nil _⟩

end Chirps.Gossip
