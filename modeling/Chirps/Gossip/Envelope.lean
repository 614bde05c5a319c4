/-
# The envelopes that an engine sends

Every stamp of a view is at most the timestamp of the clock, which ticks once more for an envelope,
so that all stamps in it are earlier than its own. At the last timestamp the clock goes back.
-/

import Chirps.Gossip.Actions

namespace Chirps.Gossip

open Chirps.Library
open Chirps.Tso (HybridTimestamp)

variable {ν α : Type*}

/-- The peer has both parts of a stamp or none, and the stamp is not later than `now`. -/
structure Peer.StampedBy (peer : Peer ν α) (now : HybridTimestamp) : Prop where
  both : peer.state.eventId.isSome = peer.state.timestamp.isSome
  le : ∀ t, peer.state.timestamp = some t → t ≤ now

namespace Peer.StampedBy

variable {peer other : Peer ν α} {now later : HybridTimestamp}

theorem mono (h : peer.StampedBy now) (hle : now ≤ later) : peer.StampedBy later :=
  ⟨h.both, fun t ht => (h.le t ht).trans hle⟩

theorem congr (h : peer.StampedBy now) (hid : other.state.eventId = peer.state.eventId)
    (htimestamp : other.state.timestamp = peer.state.timestamp) : other.StampedBy now :=
  ⟨by rw [hid, htimestamp, h.both], fun t ht => h.le t (htimestamp ▸ ht)⟩

theorem of_unstamped (hid : peer.state.eventId = none) (htimestamp : peer.state.timestamp = none) :
    peer.StampedBy now :=
  ⟨by rw [hid, htimestamp]; rfl, fun t ht => by cases htimestamp.symm.trans ht⟩

theorem stamped {eventId : HlcEventId ν} {timestamp : HybridTimestamp} (h : timestamp ≤ now) :
    (peer.stamped eventId timestamp).StampedBy now := by
  refine ⟨rfl, fun t ht => ?_⟩
  cases ht
  exact h

end Peer.StampedBy

namespace GossipEngine

def Timely (e : GossipEngine ν α) : Action ν α → Prop
  | .event event _ => event.timestamp ≤ e.hlc.current
  | _ => True

theorem timely_of_quiet {a : Action ν α} (h : a.Quiet) (e : GossipEngine ν α) : e.Timely a := by
  cases a with
  | event => exact h.elim
  | touch | ack | update | receive | remember | request | suspect | check | stamp | number | await
  | envelope => trivial

variable [DecidableEq ν] {e e' : GossipEngine ν α} {id : ν} {peer : Peer ν α}

def Stamps (e : GossipEngine ν α) : Prop :=
  ∀ id peer, e.peers.lookup id = some peer → peer.StampedBy e.hlc.current

/-- The clock has not reached the last timestamp, and does not accept it. -/
def NeverLast (e : GossipEngine ν α) (a : Action ν α) : Prop :=
  e.hlc.current ≠ .last ∧
    match a with
    | .receive message => e.hlc.Accepts message.timestamp → message.timestamp ≠ .last
    | _ => True

instance (e : GossipEngine ν α) : ∀ a : Action ν α, Decidable (e.NeverLast a)
  | .receive message => inferInstanceAs (Decidable (e.hlc.current ≠ .last ∧
      (e.hlc.Accepts message.timestamp → message.timestamp ≠ .last)))
  | .touch _ _ _ | .ack _ _ _ _ | .update _ _ | .remember _ | .event _ _ | .request _ _
  | .suspect _ _ | .check _ _ | .stamp _ | .number | .await _ _ | .envelope =>
    inferInstanceAs (Decidable (e.hlc.current ≠ .last ∧ True))

theorem hlc_applyOneMembershipUpdate (e : GossipEngine ν α) (update : MembershipUpdate ν α)
    (now : ℕ) : (e.applyOneMembershipUpdate update now).2.hlc = e.hlc := by
  rw [applyOneMembershipUpdate_eq]

/-! ## The stamps of a view -/

namespace Stamps

section

variable (h : e.Stamps)
include h

theorem setPeer (hpeer : peer.StampedBy e.hlc.current) : (e.setPeer id peer).Stamps := by
  intro other p hp
  by_cases hother : other = id
  · subst hother
    cases (lookup_setPeer_self e other peer).symm.trans hp
    exact hpeer
  · exact h other p ((lookup_setPeer_of_ne hother).symm.trans hp)

theorem setPeer_of_lookup {old : Peer ν α} (hold : e.peers.lookup id = some old)
    (hid : peer.state.eventId = old.state.eventId)
    (htimestamp : peer.state.timestamp = old.state.timestamp) : (e.setPeer id peer).Stamps :=
  h.setPeer ((h id old hold).congr hid htimestamp)

theorem of_le (hpeers : e'.peers = e.peers) (hle : e.hlc.current ≤ e'.hlc.current) : e'.Stamps :=
  fun id peer hpeer => (h id peer (hpeers ▸ hpeer)).mono hle

theorem removePending (seq : UInt64) : (e.removePending seq).Stamps := h

section

variable (below : e.hlc.current ≠ .last)
include below

theorem stampMembershipEvent (id : ν) : (e.stampMembershipEvent id).Stamps := by
  have hticked : e.tickAndCount.Stamps := h.of_le rfl (LocalHlc.lt_ticked below).le
  unfold GossipEngine.stampMembershipEvent
  split
  · exact hticked
  · rename_i peer hpeer
    have hstamped : (peer.stamped e.nextEventId e.hlc.ticked).StampedBy
        e.tickAndCount.hlc.current := Peer.StampedBy.stamped le_rfl
    exact hticked.setPeer hstamped

theorem stampIf (changed : Bool) (id : ν) : (e.stampIf changed id).Stamps := by
  rw [GossipEngine.stampIf]
  split
  · exact h.stampMembershipEvent below id
  · exact h

theorem touchPeer (id : ν) (addr : α)
    (status : Status) (now : ℕ) : (e.touchPeer id addr status now).Stamps := by
  rw [GossipEngine.touchPeer]
  refine stampIf (h.setPeer ?_) below _ id
  cases hpeer : e.peers.lookup id with
  | none => exact .of_unstamped rfl rfl
  | some peer => exact (h id peer hpeer).congr rfl rfl

theorem handleAck (id : ν) (seq : UInt64) (addr : α)
    (now : ℕ) : (e.handleAck id seq addr now).Stamps := by
  rw [GossipEngine.handleAck]
  split
  · rename_i peer hpeer
    split
    · exact h
    · refine (stampIf (h.setPeer ?_) below _ id).removePending seq
      exact (h id peer hpeer).congr rfl rfl
  · exact (h.touchPeer below id addr .alive now).removePending seq

end

theorem applyOneMembershipUpdate (update : MembershipUpdate ν α) (now : ℕ) :
    (e.applyOneMembershipUpdate update now).2.Stamps := by
  rw [GossipEngine.applyOneMembershipUpdate]
  split
  · exact h.setPeer (.of_unstamped rfl rfl)
  · rename_i peer hpeer
    split
    · exact h.setPeer_of_lookup hpeer rfl rfl
    · exact h

theorem receive {message : HlcGossipMessage ν α}
    (never : e.NeverLast (.receive message)) : (e.act (.receive message)).Stamps := by
  refine h.of_le rfl ?_
  rw [act, LocalHlc.receive]
  split
  · rename_i haccepts
    exact (LocalHlc.lt_merged never.1 (never.2 haccepts)).1.le
  · exact le_rfl

theorem event {event : StampedMembershipUpdate ν α} {now : ℕ}
    (timely : event.timestamp ≤ e.hlc.current) : (e.act (.event event now)).Stamps := by
  rw [act, applyEvent]
  split_ifs
  · exact h
  · dsimp only
    split_ifs
    · exact h
    · have hmarked : ((e.markEvent event.eventId).setLatest event.update.nodeId
          event.timestamp).Stamps := h
      have happlied := hmarked.applyOneMembershipUpdate event.update now
      have hhlc : (((e.markEvent event.eventId).setLatest event.update.nodeId
          event.timestamp).applyOneMembershipUpdate event.update now).2.hlc = e.hlc :=
        hlc_applyOneMembershipUpdate _ event.update now
      split
      · rename_i next hnext
        rw [hnext] at happlied hhlc
        dsimp only
        rw [stampWith]
        split
        · exact happlied
        · rename_i peer hpeer
          -- the stamp is that of the sender, which the clock has reached
          refine happlied.setPeer (.stamped ?_)
          rw [hhlc]
          exact timely
      · rename_i next hnext
        rw [hnext] at happlied
        exact happlied

end

omit [DecidableEq ν] in
theorem timestamp_timedOut {config : GossipConfig} {now : ℕ} {state next : PeerState ν}
    (h : timedOut config now state = some next) : next.timestamp = state.timestamp := by
  unfold timedOut at h
  split at h
  · split_ifs at h
    cases h
    rfl
  · split_ifs at h <;> cases h <;> rfl
  · cases h

theorem check (h : e.Stamps) (id : ν) (now : ℕ) : (e.act (.check id now)).Stamps := by
  rw [act, checkPeer]
  split
  · exact h
  · rename_i peer hpeer
    split
    · exact h
    · rename_i state hstate
      exact h.setPeer_of_lookup hpeer (eventId_timedOut hstate) (timestamp_timedOut hstate)

theorem suspect (h : e.Stamps) (below : e.hlc.current ≠ .last) (request : UInt64 × ν) (now : ℕ) :
    (e.act (.suspect request now)).Stamps := by
  rw [act, suspectTarget]
  split
  · exact h
  · rename_i peer hpeer
    have hlookup := (Option.filter_eq_some_iff.mp hpeer).1
    refine (stampIf (h.setPeer ?_) below true request.2).removePending request.1
    exact (h request.2 peer hlookup).congr rfl rfl

theorem preserved (h : e.Stamps) {a : Action ν α} (never : e.NeverLast a) (timely : e.Timely a) :
    (e.act a).Stamps := by
  cases a with
  | touch id addr now => exact h.touchPeer never.1 id addr .alive now
  | ack id seq addr now => exact h.handleAck never.1 id seq addr now
  | update update now =>
    refine stampIf (h.applyOneMembershipUpdate update now) ?_ _ _
    rw [hlc_applyOneMembershipUpdate]
    exact never.1
  | receive message => exact h.receive never
  | event event now => exact h.event timely
  | suspect request now => exact h.suspect never.1 request now
  | check id now => exact h.check id now
  | stamp id => exact h.stampMembershipEvent never.1 id
  | envelope => exact h.of_le rfl (LocalHlc.lt_ticked never.1).le
  | remember message => exact h
  | request request now => exact h
  | number => exact h
  | await target sentAt => exact h

end Stamps

/-! ## Events that are taken over -/

theorem hlc_act_event (e : GossipEngine ν α) (event : StampedMembershipUpdate ν α) (now : ℕ) :
    (e.act (.event event now)).hlc = e.hlc := by
  rw [act, applyEvent]
  split_ifs
  · rfl
  · dsimp only
    split_ifs
    · rfl
    · have hhlc : (((e.markEvent event.eventId).setLatest event.update.nodeId
          event.timestamp).applyOneMembershipUpdate event.update now).2.hlc = e.hlc :=
        hlc_applyOneMembershipUpdate _ event.update now
      split
      · rename_i next hnext
        rw [hnext] at hhlc
        dsimp only
        rw [stampWith_eq]
        exact hhlc
      · rename_i next hnext
        rwa [hnext] at hhlc

theorem timely_events {events : List (StampedMembershipUpdate ν α)}
    (h : ∀ event ∈ events, event.timestamp ≤ e.hlc.current) (now : ℕ) :
    Throughout act Timely e (events.map (.event · now)) := by
  induction events generalizing e with
  | nil => trivial
  | cons event rest ih =>
    refine throughout_cons.mpr ⟨h event List.mem_cons_self, ih fun other hother => ?_⟩
    rw [hlc_act_event]
    exact h other (List.mem_cons_of_mem event hother)

variable {actions : List (Action ν α)}

theorem timely_of_forall (h : ∀ a ∈ actions, ∀ e : GossipEngine ν α, e.Timely a) :
    Throughout act Timely e actions :=
  along_of_forall fun e a ha => h a ha e

theorem timely_frame {sender : ν} {frame : Frame ν α} {addr : α} {now : ℕ}
    (never : Throughout act NeverLast e (e.frameActions sender frame addr now)) :
    Throughout act Timely e (e.frameActions sender frame addr now) := by
  cases frame with
  | ping seq source => exact ⟨trivial, trivial⟩
  | ack seq source => exact ⟨trivial, trivial⟩
  | pingReq seq requester target => exact ⟨trivial, trivial⟩
  | gossip updates =>
    refine timely_of_forall fun a ha e => ?_
    obtain ⟨update, -, rfl⟩ := List.mem_map.mp ha
    trivial
  | hlcGossip message =>
    rw [frameActions] at never ⊢
    split_ifs at never ⊢ with hwell hopens
    · have hreceive := (throughout_cons.mp never).1
      -- the clock has gone above the envelope, and so above its events
      have hclock : message.timestamp < (e.act (.receive message)).hlc.current := by
        rw [act, LocalHlc.receive, if_pos hopens.1]
        exact (LocalHlc.lt_merged hreceive.1 (hreceive.2 hopens.1)).2
      have hevents : ∀ event ∈ message.updates, event.timestamp ≤
          ((e.act (.receive message)).act (.remember message)).hlc.current :=
        fun event hevent => (hwell.2 event hevent).trans hclock.le
      exact throughout_cons.mpr ⟨trivial, throughout_cons.mpr ⟨trivial, timely_events hevents now⟩⟩
    · exact ⟨trivial, trivial⟩
    · trivial

theorem timely_tick (e : GossipEngine ν α) (input : TickInput ν) :
    Throughout act Timely e (e.tickActions input) := by
  refine timely_of_forall fun a ha e => ?_
  rcases mem_tickActions_cases ha with hquiet | ⟨request, rfl⟩ | ⟨id, rfl⟩
  · exact timely_of_quiet hquiet e
  · trivial
  · trivial

theorem timely_traceOf {events : List (EngineEvent ν α)}
    (never : Throughout act NeverLast e (e.traceOf events)) :
    Throughout act Timely e (e.traceOf events) := by
  refine throughout_trace foldl_actionsOf (fun e event never => ?_) never
  cases event with
  | frame sender frame addr now => exact timely_frame never
  | tick input => exact timely_tick e input

theorem Stamps.foldl (h : e.Stamps) (never : Throughout act NeverLast e actions)
    (timely : Throughout act Timely e actions) : (actions.foldl act e).Stamps :=
  foldl_invariant (fun _ _ h guard => h.preserved guard.1 guard.2) h (Along.and never timely)

/-! ## Sending -/

def updateOf (e : GossipEngine ν α) (id : ν) : Option (MembershipUpdate ν α) :=
  (e.peers.lookup id).map Peer.update

theorem updateOf_stampMembershipEvent (e : GossipEngine ν α) (other id : ν) :
    (e.stampMembershipEvent other).updateOf id = e.updateOf id := by
  by_cases hid : id = other
  · subst hid
    rw [stampMembershipEvent]
    split
    · rfl
    · rename_i peer hpeer
      have hlookup :
          ((e.tickAndCount.setPeer id (peer.stamped e.nextEventId e.hlc.ticked)).setLatest id
          e.hlc.ticked).peers.lookup id = some (peer.stamped e.nextEventId e.hlc.ticked) :=
        lookup_setPeer_self _ _ _
      rw [updateOf, hlookup, updateOf, hpeer]
      rfl
  · rw [updateOf, lookup_stampMembershipEvent_of_ne hid, updateOf]

theorem updateOf_act_of_quiet {a : Action ν α} (h : a.Quiet) (e : GossipEngine ν α) (id : ν) :
    (e.act a).updateOf id = e.updateOf id := by
  cases a with
  | stamp other => exact updateOf_stampMembershipEvent e other id
  | receive | remember | request | number | await | envelope => rfl
  | touch | ack | update | event | suspect | check => exact h.elim

theorem updateOf_foldl_of_quiet (h : ∀ a ∈ actions, a.Quiet) (e : GossipEngine ν α) (id : ν) :
    (actions.foldl act e).updateOf id = e.updateOf id := by
  induction actions generalizing e with
  | nil => rfl
  | cons a rest ih =>
    rw [List.foldl_cons, ih fun b hb => h b (List.mem_cons_of_mem a hb),
      updateOf_act_of_quiet (h a List.mem_cons_self)]

def Stamped (e : GossipEngine ν α) (id : ν) : Prop :=
  ∀ peer, e.peers.lookup id = some peer → peer.state.timestamp.isSome

theorem stamped_stampMembershipEvent_self (e : GossipEngine ν α) (id : ν) :
    (e.stampMembershipEvent id).Stamped id := by
  intro peer hpeer
  rw [stampMembershipEvent] at hpeer
  split at hpeer
  · rename_i hnone
    cases hnone.symm.trans hpeer
  · cases (lookup_setPeer_self _ _ _).symm.trans hpeer
    rfl

theorem Stamped.stampMembershipEvent (h : e.Stamped id) (other : ν) :
    (e.stampMembershipEvent other).Stamped id := by
  by_cases hid : id = other
  · subst hid
    exact stamped_stampMembershipEvent_self e id
  · intro peer hpeer
    rw [lookup_stampMembershipEvent_of_ne hid] at hpeer
    exact h peer hpeer

theorem stamped_foldl {ids : List ν} (h : e.Stamped id ∨ id ∈ ids) :
    (ids.foldl stampMembershipEvent e).Stamped id := by
  induction ids generalizing e with
  | nil => exact h.resolve_right List.not_mem_nil
  | cons first rest ih =>
    refine ih ?_
    rcases h with hstamped | hmem
    · exact .inl (hstamped.stampMembershipEvent first)
    · rcases List.mem_cons.mp hmem with rfl | hrest
      · exact .inl (stamped_stampMembershipEvent_self e id)
      · exact .inr hrest

variable {order : List ν}

theorem stamped_ensureMembershipStamps (hid : id ∈ order) :
    (e.ensureMembershipStamps order).Stamped id := by
  refine stamped_foldl ?_
  cases hpeer : e.peers.lookup id with
  | none => exact .inl fun peer hlookup => by cases hpeer.symm.trans hlookup
  | some peer =>
    cases htimestamp : peer.state.timestamp with
    | none => exact .inr (List.mem_filter.mpr ⟨hid, by rw [hpeer]; simp [htimestamp]⟩)
    | some t =>
      refine .inl fun other hother => ?_
      cases hpeer.symm.trans hother
      rw [htimestamp]
      rfl

theorem stampedUpdates_of_stamped (stamps : e.Stamps) (hknown : ∀ id ∈ order, id ∈ e.peers)
    (hstamped : ∀ id ∈ order, e.Stamped id) :
    ∃ events, (e.peersIn order).mapM Peer.stampedUpdate = some events ∧
      List.Forall₂ (fun id event => e.updateOf id = some event.update) order events ∧
      ∀ event ∈ events, event.timestamp ≤ e.hlc.current := by
  induction order with
  | nil => exact ⟨[], rfl, .nil, List.forall_mem_nil _⟩
  | cons id rest ih =>
    obtain ⟨events, hevents, hall, hle⟩ := ih (fun i hi => hknown i (List.mem_cons_of_mem id hi))
      fun i hi => hstamped i (List.mem_cons_of_mem id hi)
    obtain ⟨peer, hpeer⟩ := Option.isSome_iff_exists.mp
      (AList.lookup_isSome.mpr (hknown id List.mem_cons_self))
    have hby := stamps id peer hpeer
    have hsome := hstamped id List.mem_cons_self peer hpeer
    obtain ⟨timestamp, htimestamp⟩ := Option.isSome_iff_exists.mp hsome
    obtain ⟨eventId, heventId⟩ := Option.isSome_iff_exists.mp (hby.both.trans hsome)
    have hupdate : peer.stampedUpdate = some ⟨eventId, timestamp, peer.update⟩ := by
      rw [Peer.stampedUpdate, heventId, htimestamp]
    refine ⟨⟨eventId, timestamp, peer.update⟩ :: events, ?_, .cons ?_ hall,
      List.forall_mem_cons.mpr ⟨hby.le timestamp htimestamp, hle⟩⟩
    · have hpeers : e.peersIn (id :: rest) = peer :: e.peersIn rest := by
        rw [peersIn, List.filterMap_cons, hpeer]
        rfl
      rw [hpeers, List.mapM_cons, hupdate, hevents]
      rfl
    · rw [updateOf, hpeer]
      rfl

/-- An envelope has one update for each of these peers, all with earlier stamps. -/
structure Sound (e : GossipEngine ν α) (order : List ν) (message : HlcGossipMessage ν α) :
    Prop where
  updates : List.Forall₂ (fun id event => e.updateOf id = some event.update) order message.updates
  lt : ∀ event ∈ message.updates, event.timestamp < message.timestamp

theorem Sound.congr {message : HlcGossipMessage ν α} (h : e.Sound order message)
    (hsame : ∀ id, e'.updateOf id = e.updateOf id) : e'.Sound order message :=
  ⟨h.updates.imp fun id _ hupdate => (hsame id).trans hupdate, h.lt⟩

def AllSound (e : GossipEngine ν α) (order : List ν) (frames : List (ν × Frame ν α)) : Prop :=
  ∀ target message, (target, Frame.hlcGossip message) ∈ frames → e.Sound order message

theorem gossipTo_sound (stamps : e.Stamps) (hknown : ∀ id ∈ order, id ∈ e.peers)
    (never : Throughout act NeverLast e (e.gossipActions order)) (target : ν) :
    ∃ next frames, e.gossipTo order target = some (next, frames) ∧ next.AllSound order frames := by
  rw [gossipActions] at never
  rw [gossipTo]
  by_cases hhlc : e.config.hlc
  · rw [if_pos hhlc] at never ⊢
    -- first what has no stamp is stamped, then the clock ticks for the envelope
    obtain ⟨hstamping, henvelope⟩ := throughout_append.mp never
    have htimely :
        Throughout act Timely e ((order.filter fun id => (e.peers.lookup id).any fun peer =>
        peer.state.timestamp.isNone).map Action.stamp) := by
      refine timely_of_forall fun a ha _ => ?_
      obtain ⟨id, -, rfl⟩ := List.mem_map.mp ha
      trivial
    have hstamps := stamps.foldl hstamping htimely
    rw [List.foldl_map] at hstamps henvelope
    change (e.ensureMembershipStamps order).Stamps at hstamps
    change Throughout act NeverLast (e.ensureMembershipStamps order) _ at henvelope
    have hevolves : Evolves ∅ ∅ ∅ e (e.ensureMembershipStamps order) :=
      evolves_ensureMembershipStamps e order
    obtain ⟨events, hevents, hall, hle⟩ := stampedUpdates_of_stamped hstamps
      (fun id hid => hevolves.peers_mono id (hknown id hid))
      fun id hid => stamped_ensureMembershipStamps hid
    dsimp only
    rw [hevents, Option.map_some]
    by_cases hnil : events = []
    · rw [if_pos hnil]
      exact ⟨_, [], rfl, fun _ _ hmem => (by cases hmem)⟩
    · -- the view is not empty, so the envelope has a tick of its own
      have hpeers : e.peersIn order ≠ [] := fun h => hnil
        ((stampedUpdates_eq_nil_iff hevents).mpr ((peersIn_eq_nil_iff hevolves order).mpr h))
      rw [if_neg hpeers] at henvelope
      have hlt := LocalHlc.lt_ticked (throughout_cons.mp henvelope).1.1
      rw [if_neg hnil]
      refine ⟨_, _, rfl, fun receiver message hmem => ?_⟩
      cases List.mem_singleton.mp hmem
      exact ⟨hall, fun event hevent => (hle event hevent).trans_lt hlt⟩
  · rw [if_neg hhlc]
    refine ⟨e, _, rfl, fun receiver message hmem => ?_⟩
    split_ifs at hmem
    · cases hmem
    · cases List.mem_singleton.mp hmem

theorem sendPing_sound {probe : Probe ν} (stamps : e.Stamps) (hknown : ∀ id ∈ order, id ∈ e.peers)
    (never : Throughout act NeverLast e (e.pingActions order probe)) :
    ∃ next frames, e.sendPing order probe = some (next, frames) ∧ next.AllSound order frames := by
  rw [pingActions] at never
  rw [sendPing]
  split_ifs at never ⊢ with hpending hsent
  · exact ⟨e, [], rfl, fun _ _ hmem => (by cases hmem)⟩
  · have hstamps : ((e.act .number).act (.await probe.target probe.sentAt)).Stamps := stamps
    obtain ⟨next, frames, hgossip, hsound⟩ := gossipTo_sound hstamps hknown
      (throughout_append.mp never).2 probe.target
    refine ⟨next, (probe.target, .ping (e.seq + 1) e.nodeId) :: frames, ?_,
      fun receiver message hmem => ?_⟩
    · exact Option.map_eq_some_iff.mpr ⟨_, hgossip, rfl⟩
    · rcases List.mem_cons.mp hmem with hping | hrest
      · cases hping
      · exact hsound receiver message hrest
  · refine ⟨_, _, rfl, fun receiver message hmem => ?_⟩
    cases List.mem_singleton.mp hmem

theorem sendPings_sound {probes : List (Probe ν)} (stamps : e.Stamps)
    (hknown : ∀ id ∈ order, id ∈ e.peers)
    (never : Throughout act NeverLast e (pingsActions order e probes)) :
    ∃ next frames, sendPings order e probes = some (next, frames) ∧ next.AllSound order frames := by
  induction probes generalizing e with
  | nil => exact ⟨e, [], rfl, nofun⟩
  | cons probe rest ih =>
    rw [pingsActions, throughout_append] at never
    obtain ⟨mid, first, hfirst, hsound⟩ := sendPing_sound stamps hknown never.1
    have hmid := sendPing_eq hfirst
    have htimely : Throughout act Timely e (e.pingActions order probe) :=
      timely_of_forall fun a ha e' => timely_of_quiet (quiet_of_mem_pingActions ha) e'
    have hstamps := stamps.foldl never.1 htimely
    have hmore : ∀ id ∈ order, id ∈ ((e.pingActions order probe).foldl act e).peers :=
      fun id hid => (evolves_foldl_act e _).peers_mono id (hknown id hid)
    rw [hmid] at hstamps hmore never
    obtain ⟨next, more, hrest, hsound'⟩ := ih hstamps hmore never.2
    refine ⟨next, first ++ more, ?_, fun receiver message hmem => ?_⟩
    · exact Option.bind_eq_some_iff.mpr ⟨_, hfirst, Option.map_eq_some_iff.mpr ⟨_, hrest, rfl⟩⟩
    · rcases List.mem_append.mp hmem with hold | hnew
      · -- the later probes change nothing but stamps
        refine (hsound receiver message hold).congr fun id => ?_
        rw [← sendPings_eq hrest]
        exact updateOf_foldl_of_quiet (fun a => quiet_of_mem_pingsActions) mid id
      · exact hsound' receiver message hnew

theorem tick_sound {input : TickInput ν} (stamps : e.Stamps) (possible : e.Possible input)
    (never : Throughout act NeverLast e (e.tickActions input)) :
    ∃ next changes frames, e.tick input = some (next, changes, frames) ∧
      next.AllSound input.peerOrder frames := by
  have htimely := timely_tick e input
  rw [tickActions, throughout_append] at never htimely
  have hstamps := stamps.foldl never.1 htimely.1
  have hknown : ∀ id ∈ input.peerOrder, id ∈ ((e.timeoutActions input).foldl act e).peers := by
    intro id hid
    have hmem : id ∈ e.peers := AList.mem_keys.mpr (possible.2.1.mem_iff.mp hid)
    exact (evolves_foldl_act e _).peers_mono id hmem
  obtain ⟨next, frames, hsend, hsound⟩ := sendPings_sound hstamps hknown never.2
  obtain ⟨requests, hrequests, htick⟩ := e.tick_eq_sendPings input
  refine ⟨next, e.reportsOf (e.timeoutActions input), requests ++ frames, ?_,
    fun receiver message hmem => ?_⟩
  · rw [htick, if_pos possible, hsend]
    rfl
  · rcases List.mem_append.mp hmem with hrequest | hsent
    · obtain ⟨seq, source, target, hframe⟩ := hrequests _ hrequest
      cases hframe
    · exact hsound receiver message hsent

theorem peerOrder_perm_of_tick {input : TickInput ν} {changes : List (StatusChange ν)}
    {frames : List (ν × Frame ν α)} (possible : e.Possible input)
    (htick : e.tick input = some (e', changes, frames)) : input.peerOrder.Perm e'.peers.keys := by
  have hevolves := (sends_tick htick).1.evolves
  have hnodup : input.peerOrder.Nodup := possible.2.1.nodup_iff.mpr e.peers.keys_nodup
  refine (List.perm_ext_iff_of_nodup hnodup e'.peers.keys_nodup).mpr fun id => ?_
  rw [possible.2.1.mem_iff, ← AList.mem_keys, ← AList.mem_keys]
  exact ⟨hevolves.peers_mono id,
    fun hid => (hevolves.mem_peers id hid).resolve_left (Set.notMem_empty id)⟩

end GossipEngine

theorem HlcGossipMessage.WellFormed.accepted {message : HlcGossipMessage ν α}
    (h : message.WellFormed)
    [DecidableEq ν] (receiver : GossipEngine ν α) (now : ℕ) (text : String) :
    (receiver.applyHlcGossip message now).1 ≠ .error (.invalidHlcEnvelope text) := by
  rw [GossipEngine.applyHlcGossip, if_pos h]
  split
  · intro heq
    cases heq
  · split_ifs <;> intro heq <;> cases heq

open GossipEngine in
/-- Before the last timestamp no tick panics, and every envelope has one update for each peer, with
earlier stamps than its own. -/
theorem hlc_envelopes_are_sound [DecidableEq ν] {nodeId : ν} {config : GossipConfig}
    {membership : AList fun _ : ν => Peer ν α} {hlc : LocalHlc} {life : ℕ}
    (unstamped : ∀ id peer, membership.lookup id = some peer →
      peer.state.eventId = none ∧ peer.state.timestamp = none)
    {events : List (EngineEvent ν α)} {e : GossipEngine ν α} {input : TickInput ν}
    (never : Throughout act NeverLast (new nodeId config membership hlc life)
      (traceOf (new nodeId config membership hlc life) events))
    (reach : run engineStep (new nodeId config membership hlc life) events = some e)
    (possible : e.Possible input) (never_tick : Throughout act NeverLast e (e.tickActions input)) :
    ∃ next changes frames, e.tick input = some (next, changes, frames) ∧
      input.peerOrder.Perm next.peers.keys ∧
      ∀ target message, (target, Frame.hlcGossip message) ∈ frames →
        List.Forall₂ (fun id event => next.updateOf id = some event.update) input.peerOrder
          message.updates ∧
        (∀ event ∈ message.updates, event.timestamp < message.timestamp) ∧
        ∀ (receiver : GossipEngine ν α) now text,
          (receiver.applyHlcGossip message now).1 ≠ .error (.invalidHlcEnvelope text) := by
  have hstart : (new nodeId config membership hlc life).Stamps := fun id peer hpeer =>
    .of_unstamped (unstamped id peer hpeer).1 (unstamped id peer hpeer).2
  have hstamps := hstart.foldl never (timely_traceOf never)
  rw [foldl_traceOf reach] at hstamps
  obtain ⟨next, changes, frames, htick, hsound⟩ := tick_sound hstamps possible never_tick
  refine ⟨next, changes, frames, htick, peerOrder_perm_of_tick possible htick,
    fun target message hmem => ?_⟩
  have hmessage := hsound target message hmem
  have hwell : message.WellFormed := fun event hevent => (hmessage.lt event hevent).le
  exact ⟨hmessage.updates, hmessage.lt, hwell.accepted⟩

open GossipEngine in
/-- Node 0 was started with node 1 in its view and has got a ping from node 2. It sends node 1
both of them. -/
theorem hlc_envelopes_are_sound_after_ping :
    let start : GossipEngine ℕ Unit :=
      .new 0 ⟨5, 5, 5, some 1, true⟩ (viewOf [1]) (.withClock 0 fun _ => 0) 0
    let input : TickInput ℕ := ⟨2, [1, 2], [], fun _ => [], [⟨1, 2, true⟩]⟩
    ∃ e next changes frames target message, run engineStep start [.frame 2 (.ping 7 2) () 1] =
      some e ∧
      e.tick input = some (next, changes, frames) ∧ (target, Frame.hlcGossip message) ∈ frames ∧
      message.updates.length = 2 ∧ ∀ event ∈ message.updates,
        event.timestamp < message.timestamp := by
  intro start input
  obtain ⟨next, changes, frames, htick, hperm, hsound⟩ := hlc_envelopes_are_sound
    (fun id peer hpeer => by rw [lookup_viewOf hpeer]; exact ⟨rfl, rfl⟩)
    (by decide +kernel : Throughout act NeverLast start (start.traceOf [.frame 2 (.ping 7 2) () 1]))
    rfl (by decide +kernel : Possible _ input)
    (by decide +kernel : Throughout act NeverLast _ (tickActions _ input))
  obtain ⟨target, message, hmem⟩ :
      ∃ target message, (target, Frame.hlcGossip message) ∈ frames := by
    have hgossips : (tick (start.handleFrame 2 (.ping 7 2) () 1).1 input).any fun result =>
        result.2.2.any fun sent => sent.2.casesOn (fun _ _ => false) (fun _ _ => false)
          (fun _ _ _ => false) (fun _ => false) fun _ => true := by decide +kernel
    rw [htick] at hgossips
    obtain ⟨⟨target, frame⟩, hmem, hframe⟩ := List.any_eq_true.mp hgossips
    cases frame with
    | hlcGossip message => exact ⟨target, message, hmem⟩
    | ping | pingReq | ack | gossip => cases hframe
  obtain ⟨hupdates, hlt, -⟩ := hsound target message hmem
  exact ⟨_, next, changes, frames, target, message, rfl, htick, hmem, hupdates.length_eq.symm, hlt⟩

end Chirps.Gossip
