/-
# Event ids over restarts

An event id is the node and a counter that starts at zero with each engine, so after a restart ids
are used again and dropped. Each id carries, unseen by the program, which engine made it.
-/

import Chirps.Gossip.Merge
import Chirps.Gossip.Mesh

namespace Chirps.Gossip

open Chirps.Library

variable {ν α : Type*}

def HlcEventId.Before (i j : HlcEventId ν) : Prop :=
  i.birth.1 < j.birth.1 ∨ i.birth.1 = j.birth.1 ∧ i.birth.2 < j.birth.2

instance (i j : HlcEventId ν) : Decidable (i.Before j) := inferInstanceAs (Decidable (_ ∨ _))

theorem HlcEventId.Before.birth_ne {i j : HlcEventId ν} (h : i.Before j) : i.birth ≠ j.birth := by
  intro heq
  rcases h with h | h <;> rw [heq] at h <;> omega

namespace GossipEngine

/-- The id was made after all ids of its node among these. -/
def Newest (ids : List (HlcEventId ν)) (id : HlcEventId ν) : Prop :=
  ∀ other ∈ ids, other.source = id.source → other.Before id

instance [DecidableEq ν] (ids : List (HlcEventId ν)) (id : HlcEventId ν) :
    Decidable (Newest ids id) :=
  inferInstanceAs (Decidable (∀ other ∈ ids, _ → _))

def opened (e : GossipEngine ν α) (message : HlcGossipMessage ν α) : GossipEngine ν α :=
  { e with hlc := (e.hlc.receive message.timestamp).2
           seenMessages := message.eventId :: e.seenMessages }

variable [DecidableEq ν]

theorem mem_seen_foldl_applyEvent {now count : ℕ} {e : GossipEngine ν α}
    {events : List (StampedMembershipUpdate ν α)} {i : HlcEventId ν}
    (h : i ∈ (events.foldl (applyEvent now) (count, e)).2.seenMembershipEvents) :
    i ∈ e.seenMembershipEvents ∨ ∃ event ∈ events, event.eventId = i := by
  induction events generalizing e count with
  | nil => exact .inl h
  | cons event rest ih =>
    have hrest : i ∈ (applyEvent now (count, e) event).2.seenMembershipEvents ∨
        ∃ other ∈ rest, other.eventId = i := ih h
    rcases hrest with hone | ⟨other, hother, heq⟩
    · have hseen : i = event.eventId ∨ i ∈ e.seenMembershipEvents := by
        rcases applyEvent_cases now count e event with ⟨-, hsame⟩ | ⟨-, hmark⟩ | happlies
        · rw [hsame] at hone
          exact .inr hone
        · rw [hmark] at hone
          exact List.mem_cons.mp hone
        · rw [happlies.seen] at hone
          exact List.mem_cons.mp hone
      rcases hseen with rfl | hold
      · exact .inr ⟨event, List.mem_cons_self, rfl⟩
      · exact .inl hold
    · exact .inr ⟨other, List.mem_cons_of_mem _ hother, heq⟩

end GossipEngine

namespace Mesh

open GossipEngine

/-- No engine has made more ids than its counter can count. -/
def FewEvents (x : Mesh ν α) : Prop := ∀ a, ∀ e ∈ x.engines a, e.events < 2 ^ 64

instance [Fintype ν] (x : Mesh ν α) : Decidable x.FewEvents :=
  have (a : ν) : Decidable (∀ e ∈ x.engines a, e.events < 2 ^ 64) := Option.decidableForallMem _
  Fintype.decidableForallFintype

structure Known (x : Mesh ν α) (i : HlcEventId ν) (e : GossipEngine ν α) : Prop where
  engine : x.engines i.source = some e
  life : i.birth.1 = e.life
  le : i.birth.2 ≤ e.events
  sequence : i.birth.2 < 2 ^ 64 → i.sequence.toNat = i.birth.2

variable {x : Mesh ν α}

theorem Known.birth_eq {i j : HlcEventId ν} {e e' : GossipEngine ν α} (hi : x.Known i e)
    (hj : x.Known j e') (few : x.FewEvents) (hkey : i.key = j.key) : i.birth = j.birth := by
  obtain ⟨hsource, hsequence⟩ : i.source = j.source ∧ i.sequence = j.sequence := Prod.mk.inj hkey
  have hengine := hi.engine
  rw [hsource, hj.engine] at hengine
  cases hengine
  have hfew := few _ _ hj.engine
  have hcount := hi.sequence (hi.le.trans_lt hfew)
  rw [hsequence, hj.sequence (hj.le.trans_lt hfew)] at hcount
  exact Prod.ext (hi.life.trans hj.life.symm) hcount.symm

variable [DecidableEq ν]

structure IdsInv (x : Mesh ν α) : Prop where
  own : ∀ a e, x.engines a = some e → e.nodeId = a ∧ e.Counted
  held : ∀ a e, x.engines a = some e → ∀ i, e.Holds i → ∃ maker, x.Known i maker
  sent : ∀ packet ∈ x.network, ∀ i ∈ packet.frame.ids, ∃ maker, x.Known i maker
  foreign : ∀ a e, x.engines a = some e → ∀ i, e.Holds i → i.source ≠ a →
    ∃ packet ∈ x.network, i ∈ packet.frame.ids

/-- The view a node starts with has no event ids. -/
def StartsUnstamped : MeshEvent ν α → Prop
  | .start _ _ membership _ =>
    ∀ id peer, membership.lookup id = some peer → peer.state.eventId = none
  | _ => True

/-- No frame under way names an event of a node that starts. -/
def StartsUnheard (x : Mesh ν α) : MeshEvent ν α → Prop
  | .start a _ _ _ => ∀ packet ∈ x.network, ∀ i ∈ packet.frame.ids, i.source ≠ a
  | _ => True

instance (x : Mesh ν α) : ∀ event, Decidable (x.StartsUnheard event)
  | .start _ _ _ _ => inferInstanceAs (Decidable (∀ packet ∈ x.network, _))
  | .tick _ _ => isTrue trivial
  | .deliver _ _ _ => isTrue trivial

theorem idsInv_initial : (initial : Mesh ν α).IdsInv where
  own _ _ h := by cases h
  held _ _ h := by cases h
  sent _ h := by cases h
  foreign _ _ h := by cases h

section Advance

variable {x : Mesh ν α} {a : ν} {e : GossipEngine ν α} {changes : List (StatusChange ν)}
  {frames : List (ν × Frame ν α)} {i : HlcEventId ν}

theorem Known.advance {maker : GossipEngine ν α} (h : x.Known i maker)
    (hgrows : i.source = a → x.engines a = some maker → e.life = maker.life ∧
      maker.events ≤ e.events) :
    ∃ maker, (x.advance a e changes frames).Known i maker := by
  by_cases ha : i.source = a
  · obtain ⟨hlife, hevents⟩ := hgrows ha (ha ▸ h.engine)
    refine ⟨e, ?_, h.life.trans hlife.symm, h.le.trans hevents, h.sequence⟩
    rw [ha]
    exact engines_advance_self
  · exact ⟨maker, (engines_advance_of_ne ha).trans h.engine, h.life, h.le, h.sequence⟩

theorem known_of_makes {old : GossipEngine ν α} (hmakes : Makes old e i) (hnode : old.nodeId = a)
    (hlife : e.life = old.life) (hcounted : old.Counted) :
    ∃ maker, (x.advance a e changes frames).Known i maker := by
  refine ⟨e, ?_, hmakes.life.trans hlife.symm, hmakes.le, hmakes.sequence hcounted⟩
  rw [hmakes.source, hnode]
  exact engines_advance_self

theorem IdsInv.advance (inv : x.IdsInv) (hnode : e.nodeId = a) (hcounted : e.Counted)
    (hkeep : ∀ i maker, x.Known i maker →
      (i.source = a → ∃ packet ∈ x.network, i ∈ packet.frame.ids) →
        ∃ maker, (x.advance a e changes frames).Known i maker)
    (hheld : ∀ i, e.Holds i → ∃ maker, (x.advance a e changes frames).Known i maker)
    (hsent : ∀ sent ∈ frames, ∀ i ∈ sent.2.ids,
      ∃ maker, (x.advance a e changes frames).Known i maker)
    (hforeign : ∀ i, e.Holds i → i.source ≠ a → ∃ packet ∈ x.network, i ∈ packet.frame.ids) :
    (x.advance a e changes frames).IdsInv := by
  refine ⟨?_, ?_, ?_, ?_⟩
  · exact forall_engines_advance (p := fun b e => e.nodeId = b ∧ e.Counted) ⟨hnode, hcounted⟩
      fun b e' _ => inv.own b e'
  · refine forall_engines_advance (p := fun _ e => ∀ i, e.Holds i → ∃ maker, Known _ i maker)
      hheld fun b e' hb hengine i hi => ?_
    obtain ⟨maker, hknown⟩ := inv.held b e' hengine i hi
    exact hkeep i maker hknown fun ha => inv.foreign b e' hengine i hi fun hib => hb (hib ▸ ha)
  · intro packet hpacket i hi
    rcases mem_network_advance.mp hpacket with hold | ⟨sent, hframe, rfl⟩
    · obtain ⟨maker, hknown⟩ := inv.sent packet hold i hi
      exact hkeep i maker hknown fun _ => ⟨packet, hold, hi⟩
    · exact hsent sent hframe i hi
  · have hmono : ∀ {i : HlcEventId ν}, (∃ packet ∈ x.network, i ∈ packet.frame.ids) →
        ∃ packet ∈ (x.advance a e changes frames).network, i ∈ packet.frame.ids := by
      rintro i ⟨packet, hpacket, hi⟩
      exact ⟨packet, mem_network_advance.mpr (.inl hpacket), hi⟩
    exact forall_engines_advance (p := fun b e => ∀ i, e.Holds i → i.source ≠ b →
        ∃ packet ∈ (x.advance a _ changes frames).network, i ∈ packet.frame.ids)
      (fun i hi hne => hmono (hforeign i hi hne))
      fun b e' _ hengine i hi hne => hmono (inv.foreign b e' hengine i hi hne)

theorem IdsInv.evolve (inv : x.IdsInv) {old : GossipEngine ν α} (hengine : x.engines a = some old)
    {heard : Set ν} {received : Set (HlcEventId ν)} {probed : Set (UInt64 × ν)}
    (hevolves : Evolves heard received probed old e)
    (hreceived : ∀ i ∈ received, ∃ packet ∈ x.network, i ∈ packet.frame.ids)
    (hsent : ∀ sent ∈ frames, ∀ i ∈ sent.2.ids, old.Holds i ∨ Makes old e i) :
    (x.advance a e changes frames).IdsInv := by
  obtain ⟨hnode, hcounted⟩ := inv.own a old hengine
  have hkeep : ∀ i, (∃ maker, x.Known i maker) →
      ∃ maker, (x.advance a e changes frames).Known i maker := by
    rintro i ⟨maker, hknown⟩
    refine hknown.advance fun _ hmaker => ?_
    cases hengine.symm.trans hmaker
    exact ⟨hevolves.life, hevolves.events⟩
  have hmade : ∀ i, Makes old e i → ∃ maker, (x.advance a e changes frames).Known i maker :=
    fun i hmakes => known_of_makes hmakes hnode hevolves.life hcounted
  refine inv.advance (hevolves.nodeId.trans hnode) (hevolves.counted hcounted)
    (fun i maker hknown _ => hkeep i ⟨maker, hknown⟩) (fun i hi => ?_) (fun sent hframe i hi => ?_)
    fun i hi hne => ?_
  · rcases hevolves.holds i hi with hnew | hold | hmakes
    · obtain ⟨packet, hpacket, hid⟩ := hreceived i hnew
      exact hkeep i (inv.sent packet hpacket i hid)
    · exact hkeep i (inv.held a old hengine i hold)
    · exact hmade i hmakes
  · rcases hsent sent hframe i hi with hold | hmakes
    · exact hkeep i (inv.held a old hengine i hold)
    · exact hmade i hmakes
  · rcases hevolves.holds i hi with hnew | hold | hmakes
    · exact hreceived i hnew
    · exact inv.foreign a old hengine i hold hne
    · exact absurd (hmakes.source.trans hnode) hne

end Advance

theorem not_holds_new {a : ν} {config : GossipConfig} {membership : AList fun _ : ν => Peer ν α}
    {hlc : LocalHlc} {life : ℕ} {i : HlcEventId ν}
    (h : ∀ id peer, membership.lookup id = some peer → peer.state.eventId = none) :
    ¬ (GossipEngine.new a config membership hlc life).Holds i := by
  rintro (⟨id, peer, hpeer, hi⟩ | hseen | hseen)
  · rw [h id peer hpeer] at hi
    cases hi
  · cases hseen
  · cases hseen

theorem IdsInv.step {next : Mesh ν α} {event : MeshEvent ν α} (inv : x.IdsInv)
    (unstamped : StartsUnstamped event) (unheard : x.StartsUnheard event)
    (h : x.step event = some next) : next.IdsInv := by
  cases acts_of_step h with
  | start a config membership hlc =>
    refine inv.advance rfl (fun _ => rfl) (fun i maker hknown hnetwork => ?_)
      (fun i hi => absurd hi (not_holds_new unstamped)) nofun
      fun i hi => absurd hi (not_holds_new unstamped)
    refine hknown.advance fun ha => ?_
    obtain ⟨packet, hpacket, hi⟩ := hnetwork ha
    exact absurd ha (unheard packet hpacket i hi)
  | tick engine ticks =>
    have hsends := (sends_tick ticks).1
    refine inv.evolve engine hsends.evolves (fun _ hi => hi.elim) fun sent hsent i hi => ?_
    obtain ⟨target, frame⟩ := sent
    have hemits := (hsends.emits _ hsent).2
    cases frame with
    | hlcGossip message =>
      rcases List.mem_cons.mp hi with rfl | hevent
      · exact .inr hemits.1
      · obtain ⟨event, hmem, rfl⟩ := List.mem_map.mp hevent
        exact (hemits.2 event hmem).2
    | ping seq source => cases hi
    | ack seq source => cases hi
    | pingReq seq source subject => cases hi
    | gossip updates => cases hi
  | deliver sent engine =>
    rename_i i addr now packet e
    refine inv.evolve engine (e.evolves_handleFrame packet.sender packet.frame addr now)
      (fun j hj => ⟨packet, List.mem_of_getElem? sent, hj⟩) fun reply hreply j hj => ?_
    rcases mem_handleFrame hreply with ⟨seq, source, -, rfl⟩ | ⟨seq, requester, subject, -, rfl⟩
    · cases hj
    · cases hj

/-- What was made after all that the receiver has seen of its node is not taken for seen. -/
def TakesFresh (x : Mesh ν α) : MeshEvent ν α → Prop
  | .deliver i _ now => ∀ packet ∈ x.network[i]?, ∀ e ∈ x.engines packet.target,
    ∀ message, packet.frame = .hlcGossip message →
      (Newest e.seenMessages message.eventId → ¬ Seen e.seenMessages message.eventId) ∧
      ∀ before event after, message.updates = before ++ event :: after →
        let seen := (before.foldl (applyEvent now) (0, e.opened message)).2.seenMembershipEvents
        Newest seen event.eventId → ¬ Seen seen event.eventId
  | _ => True

omit [DecidableEq ν] in
theorem not_seen_of_newest (few : x.FewEvents) {ids : List (HlcEventId ν)} {id : HlcEventId ν}
    (hids : ∀ other ∈ ids, ∃ maker, x.Known other maker) (hid : ∃ maker, x.Known id maker)
    (hnewest : Newest ids id) : ¬ Seen ids id := by
  intro hseen
  obtain ⟨other, hother, hkey⟩ := List.mem_map.mp hseen
  obtain ⟨maker, hknown⟩ := hids other hother
  obtain ⟨maker', hknown'⟩ := hid
  exact (hnewest other hother (congrArg Prod.fst hkey)).birth_ne (hknown.birth_eq hknown' few hkey)

theorem IdsInv.takesFresh (inv : x.IdsInv) (few : x.FewEvents) (event : MeshEvent ν α) :
    x.TakesFresh event := by
  cases event with
  | start a config membership hlc => trivial
  | tick a input => trivial
  | deliver i addr now =>
    intro packet hsent e hengine message hframe
    have hids : ∀ j ∈ (Frame.hlcGossip message).ids, ∃ maker, x.Known j maker := by
      rw [← hframe]
      exact inv.sent packet (List.mem_of_getElem? hsent)
    have hevents : ∀ event ∈ message.updates, ∃ maker, x.Known event.eventId maker :=
      fun event hevent => hids _ (List.mem_cons_of_mem _ (List.mem_map_of_mem hevent))
    refine ⟨not_seen_of_newest few (fun other hother => ?_) (hids _ List.mem_cons_self), ?_⟩
    · exact inv.held _ e hengine other (.inr (.inl hother))
    · intro before event after hupdates
      refine not_seen_of_newest few (fun other hother => ?_) (hevents event (by simp [hupdates]))
      rcases mem_seen_foldl_applyEvent hother with hold | ⟨earlier, hearlier, rfl⟩
      · exact inv.held _ e hengine other (.inr (.inr hold))
      · exact hevents earlier (by simp [hupdates, hearlier])

end Mesh

open Mesh in
/-- As long as no node restarts after a frame with one of its event ids was sent, fresh
gossip is not taken for a duplicate. -/
theorem fresh_gossip_is_taken [DecidableEq ν] (events : List (MeshEvent ν α))
    (unstamped : ∀ event ∈ events, StartsUnstamped event)
    (few : Along step (fun x _ => x.FewEvents) initial events)
    (unheard : Along step StartsUnheard initial events) :
    Along step TakesFresh (initial : Mesh ν α) events := by
  have hstamps : Along step (fun _ event => StartsUnstamped event) (initial : Mesh ν α) events :=
    along_of_forall fun _ => unstamped
  exact Along.of_invariant (I := IdsInv) (fun _ _ _ inv guard h => inv.step guard.1.1 guard.1.2 h)
    (fun _ event _ inv guard _ => inv.takesFresh guard.2 event) idsInv_initial
    ((hstamps.and unheard).and few)

theorem startsUnstamped_startWith [DecidableEq ν] {hlc : Bool} {a : ν} {fanout : Option ℕ}
    {ids : List ν} : Mesh.StartsUnstamped (startWith hlc a fanout ids) := by
  intro id peer hpeer
  rw [lookup_viewOf hpeer]
  rfl

/-- A node sends its view, restarts, and sends its view again, which is dropped. -/
theorem restarted_gossip_is_dropped :
    let events : List (MeshEvent Bool Unit) := [startWith true false (some 1) [true],
      startWith true true (some 1) [], plainTick false 1 [true] [] (fun _ => []) [true],
      .deliver 1 () 2, startWith true false (some 1) [true],
      plainTick false 3 [true] [] (fun _ => []) [true]]
    ∃ x message e, run Mesh.step Mesh.initial events = some x ∧
      x.network[3]? = some ⟨false, true, .hlcGossip message⟩ ∧ x.engines true = some e ∧
      (∀ i ∈ (Frame.hlcGossip message).ids,
        GossipEngine.Newest (e.seenMessages ++ e.seenMembershipEvents) i) ∧
      GossipEngine.Seen e.seenMessages message.eventId ∧
      ∀ event ∈ message.updates, GossipEngine.Seen e.seenMembershipEvents event.eventId := by
  intro events
  let message : HlcGossipMessage Bool Unit := ⟨⟨false, 2, (1, 2)⟩, ⟨0, 2⟩,
    [⟨⟨false, 1, (1, 1)⟩, ⟨0, 1⟩, ⟨true, 0, (), .alive⟩⟩]⟩
  obtain ⟨x, hx, hsent, e, hengine, hseen⟩ : ∃ x, run Mesh.step Mesh.initial events = some x ∧
      x.network[3]? = some ⟨false, true, .hlcGossip message⟩ ∧ ∃ e, x.engines true = some e ∧
        (∀ i ∈ (Frame.hlcGossip message).ids,
          GossipEngine.Newest (e.seenMessages ++ e.seenMembershipEvents) i) ∧
        GossipEngine.Seen e.seenMessages message.eventId ∧
        ∀ event ∈ message.updates, GossipEngine.Seen e.seenMembershipEvents event.eventId := by
    decide
  exact ⟨x, message, e, hx, hsent, hengine, hseen⟩

theorem fresh_gossip_is_taken_early_restart :
    let events : List (MeshEvent Bool Unit) := [startWith true false (some 1) [true],
      startWith true true (some 1) [], startWith true false (some 1) [true],
      plainTick false 1 [true] [] (fun _ => []) [true], .deliver 1 () 2,
      plainTick false 9 [true] [1] (fun _ => []) [true], .deliver 1 () 10]
    (run Mesh.step Mesh.initial events).isSome ∧
      Along Mesh.step Mesh.TakesFresh Mesh.initial events := by
  intro events
  refine ⟨by decide, fresh_gossip_is_taken events ?_ (by decide) (by decide)⟩
  simp only [events, List.forall_mem_cons]
  exact ⟨startsUnstamped_startWith, startsUnstamped_startWith, startsUnstamped_startWith, trivial,
    trivial, trivial, trivial, List.forall_mem_nil _⟩

end Chirps.Gossip
