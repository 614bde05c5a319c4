/-
# What the operations of a gossip engine can do

An operation sets a peer, makes a stamp, or notes an id or a probe. What follows for the peers, the
probes and the event ids is said once, as a relation that composes, and each operation is shown to
be in it.
-/

import Chirps.Gossip.Engine

namespace Chirps.Gossip

open Chirps.Tso (HybridTimestamp)
open List (mem_cons mem_cons_of_mem mem_cons_self mem_singleton)

namespace GossipEngine

variable {ν α : Type*} [DecidableEq ν]

def Keyed (e : GossipEngine ν α) : Prop :=
  ∀ id peer, e.peers.lookup id = some peer → peer.nodeId = id

def Counted (e : GossipEngine ν α) : Prop := e.events < 2 ^ 64 → e.eventSequence.toNat = e.events

def Holds (e : GossipEngine ν α) (i : HlcEventId ν) : Prop :=
  (∃ id peer, e.peers.lookup id = some peer ∧ peer.state.eventId = some i) ∨
    i ∈ e.seenMessages ∨ i ∈ e.seenMembershipEvents

structure Makes (e e' : GossipEngine ν α) (i : HlcEventId ν) : Prop where
  source : i.source = e.nodeId
  life : i.birth.1 = e.life
  lt : e.events < i.birth.2
  le : i.birth.2 ≤ e'.events
  sequence : e.Counted → i.birth.2 < 2 ^ 64 → i.sequence.toNat = i.birth.2

/-- What an engine may become when it hears of `heard`, receives `received`, and probes `probed`. -/
structure Evolves (heard : Set ν) (received : Set (HlcEventId ν)) (probed : Set (UInt64 × ν))
    (e e' : GossipEngine ν α) : Prop where
  nodeId : e'.nodeId = e.nodeId
  config : e'.config = e.config
  life : e'.life = e.life
  peers_mono : ∀ id ∈ e.peers, id ∈ e'.peers
  mem_peers : ∀ id ∈ e'.peers, id ∈ heard ∨ id ∈ e.peers
  keyed : e.Keyed → e'.Keyed
  pending : ∀ seq, ∀ p ∈ e'.pending.lookup seq, (seq, p.target) ∈ probed ∨
    ∃ old ∈ e.pending.lookup seq, old.target = p.target
  events : e.events ≤ e'.events
  counted : e.Counted → e'.Counted
  holds : ∀ i, e'.Holds i → i ∈ received ∨ e.Holds i ∨ Makes e e' i

variable {e e' : GossipEngine ν α} {i : HlcEventId ν}

theorem Makes.mono_left {heard : Set ν} {received : Set (HlcEventId ν)} {probed : Set (UInt64 × ν)}
    {e'' : GossipEngine ν α} (h : Evolves heard received probed e e') (hmakes : Makes e' e'' i) :
    Makes e e'' i where
  source := hmakes.source.trans h.nodeId
  life := hmakes.life.trans h.life
  lt := h.events.trans_lt hmakes.lt
  le := hmakes.le
  sequence hcounted := hmakes.sequence (h.counted hcounted)

omit [DecidableEq ν] in
theorem Makes.mono_right {e'' : GossipEngine ν α} (hmakes : Makes e e' i)
    (h : e'.events ≤ e''.events) : Makes e e'' i :=
  { hmakes with le := hmakes.le.trans h }

namespace Evolves

variable {heard : Set ν} {received : Set (HlcEventId ν)} {probed : Set (UInt64 × ν)}
  {e e' e'' : GossipEngine ν α}

theorem refl (e : GossipEngine ν α) : Evolves heard received probed e e where
  nodeId := rfl
  config := rfl
  life := rfl
  peers_mono _ h := h
  mem_peers _ h := .inr h
  keyed h := h
  pending _ p hp := .inr ⟨p, hp, rfl⟩
  events := le_rfl
  counted h := h
  holds _ h := .inr (.inl h)

theorem trans (h : Evolves heard received probed e e') (h' : Evolves heard received probed e' e'') :
    Evolves heard received probed e e'' where
  nodeId := h'.nodeId.trans h.nodeId
  config := h'.config.trans h.config
  life := h'.life.trans h.life
  peers_mono id hid := h'.peers_mono id (h.peers_mono id hid)
  mem_peers id hid := (h'.mem_peers id hid).elim .inl (h.mem_peers id)
  keyed hkeyed := h'.keyed (h.keyed hkeyed)
  pending seq p hp := by
    rcases h'.pending seq p hp with hprobed | ⟨mid, hmid, htarget⟩
    · exact .inl hprobed
    · rw [← htarget]
      exact h.pending seq mid hmid
  events := h.events.trans h'.events
  counted hcounted := h'.counted (h.counted hcounted)
  holds i hi := by
    rcases h'.holds i hi with hreceived | hheld | hmade
    · exact .inl hreceived
    · rcases h.holds i hheld with hreceived | hheld | hmade
      · exact .inl hreceived
      · exact .inr (.inl hheld)
      · exact .inr (.inr (hmade.mono_right h'.events))
    · exact .inr (.inr (hmade.mono_left h))

theorem mono {probed' : Set (UInt64 × ν)} (h : Evolves heard received probed e e')
    (hsub : probed ⊆ probed') : Evolves heard received probed' e e' :=
  { h with pending := fun seq p hp => (h.pending seq p hp).imp_left fun hq => hsub hq }

theorem foldl {β : Type*} {f : GossipEngine ν α → β → GossipEngine ν α} {l : List β}
    (h : ∀ e, ∀ x ∈ l, Evolves heard received probed e (f e x)) (e : GossipEngine ν α) :
    Evolves heard received probed e (l.foldl f e) := by
  induction l generalizing e with
  | nil => exact refl e
  | cons x rest ih =>
    exact (h e x mem_cons_self).trans (ih (fun e y hy => h e y (mem_cons_of_mem x hy)) _)

theorem of_view {pending : AList fun _ : UInt64 => PendingPing ν} {seq : UInt64} {hlc : LocalHlc}
    {messages events : List (HlcEventId ν)} {latest : ν → Option HybridTimestamp}
    (hpending : ∀ n, ∀ p ∈ pending.lookup n, (n, p.target) ∈ probed ∨
      ∃ old ∈ e.pending.lookup n, old.target = p.target)
    (hmessages : ∀ i ∈ messages, i ∈ received ∨ i ∈ e.seenMessages)
    (hevents : ∀ i ∈ events, i ∈ received ∨ i ∈ e.seenMembershipEvents) :
    Evolves heard received probed e
      { e with pending := pending, seq := seq, hlc := hlc, seenMessages := messages,
               seenMembershipEvents := events, latestMembershipTimestamps := latest } where
  nodeId := rfl
  config := rfl
  life := rfl
  peers_mono _ h := h
  mem_peers _ h := .inr h
  keyed h := h
  pending := hpending
  events := le_rfl
  counted h := h
  holds i hi := by
    rcases hi with hstamp | hmessage | hevent
    · exact .inr (.inl (.inl hstamp))
    · exact (hmessages i hmessage).imp_right fun h => .inl (.inr (.inl h))
    · exact (hevents i hevent).imp_right fun h => .inl (.inr (.inr h))

theorem of_clocks (e : GossipEngine ν α) (seq : UInt64) (hlc : LocalHlc)
    (latest : ν → Option HybridTimestamp) : Evolves heard received probed e
      { e with seq := seq, hlc := hlc, latestMembershipTimestamps := latest } :=
  of_view (fun _ p hp => .inr ⟨p, hp, rfl⟩) (fun _ => .inr) fun _ => .inr

theorem of_pending {pending : AList fun _ : UInt64 => PendingPing ν}
    (h : ∀ n, ∀ p ∈ pending.lookup n, (n, p.target) ∈ probed ∨
      ∃ old ∈ e.pending.lookup n, old.target = p.target) :
    Evolves heard received probed e { e with pending := pending } :=
  of_view h (fun _ => .inr) fun _ => .inr

end Evolves

variable {heard : Set ν} {received : Set (HlcEventId ν)} {probed : Set (UInt64 × ν)}

/-! ## Peers -/

variable {id : ν} {peer : Peer ν α}

theorem Keyed.setPeer (h : e.Keyed) (hid : peer.nodeId = id) : (e.setPeer id peer).Keyed := by
  intro other p hp
  by_cases hother : other = id
  · subst hother
    obtain rfl : peer = p := Option.some.inj ((lookup_setPeer_self e other peer).symm.trans hp)
    exact hid
  · exact h other p ((lookup_setPeer_of_ne hother).symm.trans hp)

theorem holds_of_holds_setPeer (h : (e.setPeer id peer).Holds i) :
    peer.state.eventId = some i ∨ e.Holds i := by
  rcases h with ⟨other, p, hp, hi⟩ | hseen
  · by_cases hother : other = id
    · subst hother
      obtain rfl : peer = p := Option.some.inj ((lookup_setPeer_self e other peer).symm.trans hp)
      exact .inl hi
    · exact .inr (.inl ⟨other, p, (lookup_setPeer_of_ne hother).symm.trans hp, hi⟩)
  · exact .inr (.inr hseen)

theorem evolves_setPeer (hmem : id ∈ heard ∨ id ∈ e.peers) (hkeyed : e.Keyed → peer.nodeId = id)
    (hids : ∀ i ∈ peer.state.eventId, i ∈ received ∨ e.Holds i) :
    Evolves heard received probed e (e.setPeer id peer) where
  nodeId := rfl
  config := rfl
  life := rfl
  peers_mono other hother := (AList.mem_insert _).mpr (.inr hother)
  mem_peers other hother := by
    rcases (AList.mem_insert _).mp hother with rfl | hold
    · exact hmem
    · exact .inr hold
  keyed h := h.setPeer (hkeyed h)
  pending _ p hp := .inr ⟨p, hp, rfl⟩
  events := le_rfl
  counted h := h
  holds i hi := by
    rcases holds_of_holds_setPeer hi with hnew | hold
    · exact (hids i hnew).imp_right .inl
    · exact .inr (.inl hold)

theorem mem_peers_of_lookup (h : e.peers.lookup id = some peer) : id ∈ e.peers := by
  rw [← AList.lookup_isSome, h]
  rfl

theorem evolves_setPeer_of_lookup {old : Peer ν α} (hold : e.peers.lookup id = some old)
    (hnode : peer.nodeId = old.nodeId) (hstamp : peer.state.eventId = old.state.eventId) :
    Evolves heard received probed e (e.setPeer id peer) := by
  refine evolves_setPeer (.inr (mem_peers_of_lookup hold)) (fun hkeyed => ?_) fun i hi => ?_
  · exact hnode.trans (hkeyed id old hold)
  · rw [hstamp] at hi
    exact .inr (.inl ⟨id, old, hold, hi⟩)

/-! ## Stamps -/

theorem evolves_setLatest (e : GossipEngine ν α) (id : ν) (timestamp : HybridTimestamp) :
    Evolves heard received probed e (e.setLatest id timestamp) :=
  Evolves.of_clocks e e.seq e.hlc _

omit [DecidableEq ν] in
theorem toNat_nextSequence (h : e.Counted) (hlt : e.events + 1 < 2 ^ 64) :
    e.nextSequence.toNat = e.events + 1 := by
  have hcount := h (by omega)
  have hadd : (e.eventSequence + 1).toNat = e.events + 1 := by
    rw [UInt64.toNat_add, hcount]
    exact Nat.mod_eq_of_lt hlt
  have hne : e.eventSequence + 1 ≠ 0 := by
    intro hzero
    rw [hzero] at hadd
    simp at hadd
  rw [nextSequence, if_neg hne, hadd]

omit [DecidableEq ν] in
theorem Counted.tickAndCount (h : e.Counted) : e.tickAndCount.Counted :=
  toNat_nextSequence h

omit [DecidableEq ν] in
theorem makes_nextEventId (e : GossipEngine ν α) : Makes e e.tickAndCount e.nextEventId where
  source := rfl
  life := rfl
  lt := Nat.lt_succ_self _
  le := le_rfl
  sequence := toNat_nextSequence

theorem evolves_tickAndCount (e : GossipEngine ν α) :
    Evolves heard received probed e e.tickAndCount where
  nodeId := rfl
  config := rfl
  life := rfl
  peers_mono _ h := h
  mem_peers _ h := .inr h
  keyed h := h
  pending _ p hp := .inr ⟨p, hp, rfl⟩
  events := Nat.le_succ _
  counted h := h.tickAndCount
  holds _ h := .inr (.inl h)

theorem evolves_stampMembershipEvent (e : GossipEngine ν α) (id : ν) :
    Evolves heard received probed e (e.stampMembershipEvent id) := by
  unfold stampMembershipEvent
  split
  · exact evolves_tickAndCount e
  · rename_i peer hpeer
    refine Evolves.trans ?_ (evolves_setLatest (e.tickAndCount.setPeer id
      (peer.stamped e.nextEventId e.hlc.ticked)) id e.hlc.ticked)
    have hcount : Evolves heard received probed e e.tickAndCount := evolves_tickAndCount e
    refine { hcount with peers_mono := ?_, mem_peers := ?_, keyed := ?_, holds := ?_ }
    · exact fun other hother => (AList.mem_insert _).mpr (.inr hother)
    · intro other hother
      rcases (AList.mem_insert _).mp hother with rfl | hold
      · exact .inr (mem_peers_of_lookup hpeer)
      · exact .inr hold
    · intro hkeyed
      exact Keyed.setPeer (e := e.tickAndCount) hkeyed (hkeyed id peer hpeer)
    · intro i hi
      rcases holds_of_holds_setPeer hi with hnew | hold
      · cases hnew
        exact .inr (.inr ((makes_nextEventId e).mono_right le_rfl))
      · exact .inr (.inl hold)

theorem evolves_stampIf (e : GossipEngine ν α) (changed : Bool) (id : ν) :
    Evolves heard received probed e (e.stampIf changed id) := by
  unfold stampIf
  split
  · exact evolves_stampMembershipEvent e id
  · exact Evolves.refl e

theorem evolves_ensureMembershipStamps (e : GossipEngine ν α) (order : List ν) :
    Evolves heard received probed e (e.ensureMembershipStamps order) :=
  Evolves.foldl (fun e id _ => evolves_stampMembershipEvent e id) e

/-! ## Probes -/

theorem evolves_touchPeer (e : GossipEngine ν α) (h : id ∈ heard) (addr : α) (status : Status)
    (now : ℕ) : Evolves heard received probed e (e.touchPeer id addr status now) := by
  refine Evolves.trans (evolves_setPeer (.inl h) ?_ ?_) (evolves_stampIf _ _ _)
  · intro hkeyed
    cases hpeer : e.peers.lookup id with
    | none => rfl
    | some peer => exact hkeyed id peer hpeer
  · intro i hi
    cases hpeer : e.peers.lookup id with
    | none =>
      rw [hpeer] at hi
      cases hi
    | some peer =>
      rw [hpeer] at hi
      exact .inr (.inl ⟨id, peer, hpeer, hi⟩)

omit [DecidableEq ν] in
theorem lookup_of_lookup_removePending {seq n : UInt64} {p : PendingPing ν}
    (h : (e.removePending seq).pending.lookup n = some p) : e.pending.lookup n = some p := by
  by_cases hn : n = seq
  · subst hn
    cases (AList.lookup_erase n e.pending).symm.trans h
  · exact (AList.lookup_erase_ne hn).symm.trans h

theorem evolves_removePending (e : GossipEngine ν α) (seq : UInt64) :
    Evolves heard received probed e (e.removePending seq) :=
  Evolves.of_pending fun _ p hp => .inr ⟨p, lookup_of_lookup_removePending hp, rfl⟩

theorem evolves_handleAck (e : GossipEngine ν α) {sender : ν} (h : sender ∈ heard) (seq : UInt64)
    (addr : α) (now : ℕ) : Evolves heard received probed e (e.handleAck sender seq addr now) := by
  unfold handleAck
  split
  · rename_i peer hpeer
    split
    · exact Evolves.refl e
    · refine Evolves.trans ?_ (evolves_removePending _ seq)
      refine Evolves.trans ?_ (evolves_stampIf _ _ sender)
      exact evolves_setPeer_of_lookup hpeer rfl rfl
  · exact (evolves_touchPeer e h addr .alive now).trans (evolves_removePending _ seq)

/-! ## Gossip -/

theorem evolves_applyOneMembershipUpdate (e : GossipEngine ν α) {update : MembershipUpdate ν α}
    (h : update.nodeId ∈ heard) (now : ℕ) :
    Evolves heard received probed e (e.applyOneMembershipUpdate update now).2 := by
  unfold applyOneMembershipUpdate
  split
  · exact evolves_setPeer (.inl h) (fun _ => rfl) nofun
  · rename_i peer hpeer
    split
    · exact evolves_setPeer_of_lookup hpeer rfl rfl
    · exact Evolves.refl e

theorem evolves_applyMembershipUpdate (e : GossipEngine ν α)
    {updates : List (MembershipUpdate ν α)} (h : ∀ update ∈ updates, update.nodeId ∈ heard)
    (now : ℕ) : Evolves heard received probed e (e.applyMembershipUpdate updates now) := by
  refine Evolves.foldl (fun e update hupdate => ?_) e
  exact (evolves_applyOneMembershipUpdate e (h update hupdate) now).trans (evolves_stampIf _ _ _)

theorem evolves_markEvent (e : GossipEngine ν α) {id : HlcEventId ν} (h : id ∈ received) :
    Evolves heard received probed e (e.markEvent id) := by
  refine Evolves.of_view (fun _ p hp => .inr ⟨p, hp, rfl⟩) (fun _ => .inr) fun i hi => ?_
  rcases mem_cons.mp hi with rfl | hold
  · exact .inl h
  · exact .inr hold

variable {event : StampedMembershipUpdate ν α}

theorem evolves_stampWith (e : GossipEngine ν α) (h : event.eventId ∈ received) :
    Evolves heard received probed e (e.stampWith event) := by
  unfold stampWith
  split
  · exact Evolves.refl e
  · rename_i peer hpeer
    refine evolves_setPeer (.inr (mem_peers_of_lookup hpeer))
      (fun hkeyed => hkeyed _ peer hpeer) fun i hi => ?_
    cases hi
    exact .inl h

theorem evolves_applyEvent (e : GossipEngine ν α) (hnode : event.update.nodeId ∈ heard)
    (hid : event.eventId ∈ received) (now count : ℕ) :
    Evolves heard received probed e (applyEvent now (count, e) event).2 := by
  rw [applyEvent]
  split
  · exact Evolves.refl e
  · refine (evolves_markEvent e hid).trans ?_
    dsimp only
    split
    · exact Evolves.refl _
    · have hone : Evolves heard received probed _ _ := evolves_applyOneMembershipUpdate
        ((e.markEvent event.eventId).setLatest event.update.nodeId event.timestamp) hnode now
      refine (evolves_setLatest _ event.update.nodeId event.timestamp).trans ?_
      split
      · rename_i next hnext
        rw [hnext] at hone
        exact hone.trans (evolves_stampWith next hid)
      · rename_i next hnext
        rwa [hnext] at hone

variable {events : List (StampedMembershipUpdate ν α)}

theorem evolves_foldl_applyEvent (hnodes : ∀ event ∈ events, event.update.nodeId ∈ heard)
    (hids : ∀ event ∈ events, event.eventId ∈ received) (now count : ℕ) (e : GossipEngine ν α) :
    Evolves heard received probed e (events.foldl (applyEvent now) (count, e)).2 := by
  induction events generalizing e count with
  | nil => exact Evolves.refl e
  | cons event rest ih =>
    have hone : Evolves heard received probed e _ := evolves_applyEvent e
      (hnodes event mem_cons_self) (hids event mem_cons_self) now count
    exact hone.trans (ih (fun x hx => hnodes x (mem_cons_of_mem _ hx))
      (fun x hx => hids x (mem_cons_of_mem _ hx)) _ _)

theorem evolves_applyHlcGossip (e : GossipEngine ν α) {message : HlcGossipMessage ν α}
    (hnodes : ∀ event ∈ message.updates, event.update.nodeId ∈ heard)
    (hid : message.eventId ∈ received) (hids : ∀ event ∈ message.updates, event.eventId ∈ received)
    (now : ℕ) : Evolves heard received probed e (e.applyHlcGossip message now).2 := by
  unfold applyHlcGossip
  split
  · split
    · exact Evolves.of_clocks e _ _ _
    · split
      · exact Evolves.of_clocks e _ _ _
      · refine Evolves.trans ?_ (evolves_foldl_applyEvent hnodes hids now 0 _)
        refine Evolves.of_view (fun _ p hp => .inr ⟨p, hp, rfl⟩) (fun i hi => ?_) fun _ => .inr
        rcases mem_cons.mp hi with rfl | hold
        · exact .inl hid
        · exact .inr hold
  · exact Evolves.refl e

/-! ## Timeouts -/

omit [DecidableEq ν] in
theorem eventId_timedOut {config : GossipConfig} {now : ℕ} {state next : PeerState ν}
    (h : timedOut config now state = some next) : next.eventId = state.eventId := by
  unfold timedOut at h
  repeat' split at h
  all_goals first
    | obtain rfl := Option.some.inj h; rfl
    | cases h

structure Reports (heard : Set ν) (received : Set (HlcEventId ν)) (probed : Set (UInt64 × ν))
    (e : GossipEngine ν α) (result : GossipEngine ν α × List (StatusChange ν)) : Prop where
  evolves : Evolves heard received probed e result.1
  changes : ∀ change ∈ result.2, change.nodeId ∈ result.1.peers

namespace Reports

variable {e : GossipEngine ν α} {result : GossipEngine ν α × List (StatusChange ν)}

theorem next (h : Reports heard received probed e result) {e' : GossipEngine ν α}
    (h' : Evolves heard received probed result.1 e') :
    Reports heard received probed e (e', result.2) :=
  ⟨h.evolves.trans h', fun change hchange => h'.peers_mono _ (h.changes change hchange)⟩

theorem report (h : Reports heard received probed e result) {e' : GossipEngine ν α}
    (h' : Evolves heard received probed result.1 e') {change : StatusChange ν}
    (hmem : change.nodeId ∈ result.1.peers) :
    Reports heard received probed e (e', result.2 ++ [change]) := by
  refine ⟨h.evolves.trans h', fun other hother => ?_⟩
  rcases List.mem_append.mp hother with hold | hnew
  · exact h'.peers_mono _ (h.changes other hold)
  · obtain rfl := mem_singleton.mp hnew
    exact h'.peers_mono _ hmem

theorem foldl {β : Type*}
    {f : GossipEngine ν α × List (StatusChange ν) → β → GossipEngine ν α × List (StatusChange ν)}
    {l : List β} (hf : ∀ result x, Reports heard received probed e result →
      Reports heard received probed e (f result x)) (h : Reports heard received probed e result) :
    Reports heard received probed e (l.foldl f result) := by
  induction l generalizing result with
  | nil => exact h
  | cons x rest ih => exact ih (hf result x h)

theorem checkPeer (h : Reports heard received probed e result) (now : ℕ) (id : ν) :
    Reports heard received probed e (checkPeer now result id) := by
  unfold GossipEngine.checkPeer
  dsimp only
  split
  · exact h
  · rename_i peer hpeer
    split
    · exact h
    · rename_i state hstate
      refine h.report ?_ ?_
      · exact evolves_setPeer_of_lookup hpeer rfl (eventId_timedOut hstate)
      · exact mem_peers_of_lookup hpeer

theorem suspectTarget (h : Reports heard received probed e result) (now : ℕ)
    (request : UInt64 × ν) :
    Reports heard received probed e (suspectTarget now result request) := by
  unfold GossipEngine.suspectTarget
  dsimp only
  split
  · exact h.next (evolves_removePending _ _)
  · rename_i peer halive
    obtain ⟨hpeer, -⟩ := Option.filter_eq_some_iff.mp halive
    refine h.report (Evolves.trans ?_ (evolves_removePending _ _)) (mem_peers_of_lookup hpeer)
    refine Evolves.trans ?_ (evolves_stampIf _ _ request.2)
    exact evolves_setPeer_of_lookup hpeer rfl rfl

end Reports

theorem reports_applyTimeouts (e : GossipEngine ν α) (now : ℕ) (order : List ν) :
    Reports heard received probed e (e.applyTimeouts now order) := by
  have hchecked : Reports heard received probed e (order.foldl (checkPeer now) (e, [])) :=
    Reports.foldl (fun _ id h => h.checkPeer now id) ⟨Evolves.refl e, nofun⟩
  exact hchecked.next (Evolves.foldl (fun e change _ => evolves_stampIf e true change.nodeId) _)

omit [DecidableEq ν] in
theorem lookup_of_mem_pendingWith {p : PendingPing ν → Bool} {order : List UInt64}
    {request : UInt64 × ν} (h : request ∈ e.pendingWith p order) :
    ∃ old ∈ e.pending.lookup request.1, old.target = request.2 := by
  obtain ⟨seq, -, hseq⟩ := List.mem_filterMap.mp h
  obtain ⟨old, hold, rfl⟩ := Option.map_eq_some_iff.mp hseq
  exact ⟨old, (Option.filter_eq_some_iff.mp hold).1, rfl⟩

theorem evolves_foldl_requestIndirect (e : GossipEngine ν α) (now : ℕ)
    {requests : List (UInt64 × ν)}
    (h : ∀ request ∈ requests, ∃ old ∈ e.pending.lookup request.1, old.target = request.2) :
    Evolves heard received probed e (requests.foldl (requestIndirect now) e) := by
  -- as if the probes of `e` were sent again
  have hagain : Evolves heard received
      {probe | ∃ old ∈ e.pending.lookup probe.1, old.target = probe.2} e
      (requests.foldl (requestIndirect now) e) := by
    refine Evolves.foldl (fun mid request hrequest => Evolves.of_pending fun n p hp => ?_) e
    by_cases hn : n = request.1
    · subst hn
      cases (AList.lookup_insert mid.pending).symm.trans hp
      exact .inl (h request hrequest)
    · exact .inr ⟨p, (AList.lookup_insert_ne hn).symm.trans hp, rfl⟩
  exact { hagain with pending := fun n p hp => .inr ((hagain.pending n p hp).elim id id) }

/-! ## Sending -/

def Emits (e e' : GossipEngine ν α) (sent : ν × Frame ν α) : Prop :=
  sent.1 ∈ e.peers ∧
    match sent.2 with
    | .ping _ source => source = e.nodeId
    | .ack _ _ => False
    | .pingReq _ source target => source = e.nodeId ∧ sent.1 ≠ target
    | .gossip updates => ∀ update ∈ updates, e.Keyed → update.nodeId ∈ e.peers
    | .hlcGossip message => Makes e e' message.eventId ∧ ∀ event ∈ message.updates,
        (e.Keyed → event.update.nodeId ∈ e.peers) ∧
          (e.Holds event.eventId ∨ Makes e e' event.eventId)

theorem Emits.mono {e₁ e₂ e₃ : GossipEngine ν α} (h : Evolves ∅ ∅ probed e e₁)
    {sent : ν × Frame ν α} (hsent : Emits e₁ e₂ sent) (hle : e₂.events ≤ e₃.events) :
    Emits e e₃ sent := by
  obtain ⟨target, frame⟩ := sent
  obtain ⟨htarget, hframe⟩ := hsent
  have hmem : ∀ id ∈ e₁.peers, id ∈ e.peers := fun id hid =>
    (h.mem_peers id hid).resolve_left (Set.notMem_empty id)
  refine ⟨hmem target htarget, ?_⟩
  cases frame with
  | ping seq source => exact hframe.trans h.nodeId
  | ack seq source => exact hframe
  | pingReq seq source subject => exact ⟨hframe.1.trans h.nodeId, hframe.2⟩
  | gossip updates => exact fun update hu hkeyed => hmem _ (hframe update hu (h.keyed hkeyed))
  | hlcGossip message =>
    refine ⟨(hframe.1.mono_left h).mono_right hle, fun event hevent => ?_⟩
    obtain ⟨hnode, hid⟩ := hframe.2 event hevent
    refine ⟨fun hkeyed => hmem _ (hnode (h.keyed hkeyed)), ?_⟩
    rcases hid with hheld | hmade
    · rcases h.holds _ hheld with hreceived | hheld | hmade
      · exact hreceived.elim
      · exact .inl hheld
      · exact .inr (hmade.mono_right (hframe.1.lt.le.trans (hframe.1.le.trans hle)))
    · exact .inr ((hmade.mono_left h).mono_right hle)

/-- The engine after sending and the frames. Its probes are among the pings. -/
structure Sends (e : GossipEngine ν α) (result : GossipEngine ν α × List (ν × Frame ν α)) :
    Prop where
  evolves :
    Evolves ∅ ∅ {probe | ∃ source, (probe.2, Frame.ping probe.1 source) ∈ result.2} e result.1
  emits : ∀ sent ∈ result.2, Emits e result.1 sent

omit [DecidableEq ν] in
theorem stampedUpdate_eq_some (h : peer.stampedUpdate = some event) :
    event.update = peer.update ∧ peer.state.eventId = some event.eventId := by
  unfold Peer.stampedUpdate at h
  split at h
  · rename_i eventId timestamp hid htimestamp
    cases h
    exact ⟨rfl, hid⟩
  · cases h

variable {order : List ν}

theorem lookup_of_mem_peersIn (h : peer ∈ e.peersIn order) :
    ∃ id, e.peers.lookup id = some peer := by
  obtain ⟨id, -, hid⟩ := List.mem_filterMap.mp h
  exact ⟨id, hid⟩

theorem nodeId_mem_of_mem_peersIn (h : peer ∈ e.peersIn order) (hkeyed : e.Keyed) :
    peer.nodeId ∈ e.peers := by
  obtain ⟨id, hid⟩ := lookup_of_mem_peersIn h
  rw [hkeyed id peer hid]
  exact mem_peers_of_lookup hid

omit [DecidableEq ν] in
theorem exists_of_mem_stampedUpdates {peers : List (Peer ν α)}
    (h : peers.mapM Peer.stampedUpdate = some events) :
    ∀ event ∈ events, ∃ peer ∈ peers, peer.stampedUpdate = some event := by
  induction peers generalizing events with
  | nil =>
    cases h
    exact nofun
  | cons peer rest ih =>
    rw [List.mapM_cons] at h
    obtain ⟨first, hfirst, h⟩ := Option.bind_eq_some_iff.mp h
    obtain ⟨others, hothers, h⟩ := Option.bind_eq_some_iff.mp h
    cases h
    intro event hevent
    rcases mem_cons.mp hevent with rfl | hrest
    · exact ⟨peer, mem_cons_self, hfirst⟩
    · obtain ⟨p, hp, heq⟩ := ih hothers event hrest
      exact ⟨p, mem_cons_of_mem _ hp, heq⟩

variable {target : ν}

theorem emits_hlcGossip (htarget : target ∈ e.peers)
    (h : (e.peersIn order).mapM Peer.stampedUpdate = some events) :
    Emits e e.tickAndCount (target, .hlcGossip ⟨e.nextEventId, e.hlc.ticked, events⟩) := by
  refine ⟨htarget, makes_nextEventId e, fun event hevent => ?_⟩
  obtain ⟨peer, hpeer, hstamped⟩ := exists_of_mem_stampedUpdates h event hevent
  obtain ⟨hupdate, hid⟩ := stampedUpdate_eq_some hstamped
  constructor
  · intro hkeyed
    rw [hupdate]
    exact nodeId_mem_of_mem_peersIn hpeer hkeyed
  · obtain ⟨id, hlookup⟩ := lookup_of_mem_peersIn hpeer
    exact .inl (.inl ⟨id, peer, hlookup, hid⟩)

variable {result : GossipEngine ν α × List (ν × Frame ν α)}

theorem sends_gossipTo (htarget : target ∈ e.peers) (h : e.gossipTo order target = some result) :
    Evolves ∅ ∅ ∅ e result.1 ∧ ∀ sent ∈ result.2, Emits e result.1 sent := by
  unfold gossipTo at h
  split at h
  · obtain ⟨events, hevents, rfl⟩ := Option.map_eq_some_iff.mp h
    have hstamps : Evolves ∅ ∅ ∅ e (e.ensureMembershipStamps order) :=
      evolves_ensureMembershipStamps e order
    split
    · exact ⟨hstamps, nofun⟩
    · refine ⟨hstamps.trans (evolves_tickAndCount _), fun sent hsent => ?_⟩
      obtain rfl := mem_singleton.mp hsent
      exact (emits_hlcGossip (hstamps.peers_mono target htarget) hevents).mono hstamps le_rfl
  · cases h
    refine ⟨Evolves.refl e, fun sent hsent => ?_⟩
    dsimp only at hsent
    split at hsent
    · cases hsent
    · obtain rfl := mem_singleton.mp hsent
      refine ⟨htarget, fun update hupdate hkeyed => ?_⟩
      obtain ⟨peer, hpeer, rfl⟩ := List.mem_map.mp hupdate
      exact nodeId_mem_of_mem_peersIn hpeer hkeyed

theorem evolves_insertPending (e : GossipEngine ν α) {seq : UInt64} {sentAt : ℕ}
    (h : (seq, target) ∈ probed) : Evolves heard received probed e
      { e with seq := seq, pending := e.pending.insert seq ⟨target, .direct sentAt⟩ } := by
  refine Evolves.of_view (fun n p hp => ?_) (fun _ => .inr) fun _ => .inr
  by_cases hn : n = seq
  · subst hn
    cases (AList.lookup_insert e.pending).symm.trans hp
    exact .inl h
  · exact .inr ⟨p, (AList.lookup_insert_ne hn).symm.trans hp, rfl⟩

theorem sends_sendPing {probe : Probe ν} (htarget : probe.target ∈ e.peers)
    (h : e.sendPing order probe = some result) : Sends e result := by
  unfold sendPing at h
  split at h
  · cases h
    exact ⟨Evolves.refl e, nofun⟩
  · dsimp only at h
    split at h
    · obtain ⟨⟨next, frames⟩, hgossip, rfl⟩ := Option.map_eq_some_iff.mp h
      let noted : GossipEngine ν α := { e with
        seq := e.seq + 1
        pending := e.pending.insert (e.seq + 1) ⟨probe.target, .direct probe.sentAt⟩ }
      obtain ⟨hevolves, hemits⟩ := sends_gossipTo (e := noted) htarget hgossip
      have hnoted : ∀ P : Set (UInt64 × ν), (e.seq + 1, probe.target) ∈ P → Evolves ∅ ∅ P e noted :=
        fun P hP => evolves_insertPending e hP
      constructor
      · refine (hnoted _ ?_).trans (hevolves.mono (Set.empty_subset _))
        exact ⟨e.nodeId, mem_cons_self⟩
      · intro sent hsent
        rcases mem_cons.mp hsent with rfl | hgossiped
        · exact ⟨htarget, rfl⟩
        · exact (hemits sent hgossiped).mono (hnoted Set.univ trivial) le_rfl
    · cases h
      refine ⟨Evolves.of_clocks e _ _ _, fun sent hsent => ?_⟩
      obtain rfl := mem_singleton.mp hsent
      exact ⟨htarget, rfl⟩

theorem Sends.trans {e₁ e₂ : GossipEngine ν α} {frames more : List (ν × Frame ν α)}
    (h : Sends e (e₁, frames)) (h' : Sends e₁ (e₂, more)) : Sends e (e₂, frames ++ more) := by
  constructor
  · refine (h.evolves.mono ?_).trans (h'.evolves.mono ?_)
    · exact fun probe ⟨source, hping⟩ => ⟨source, List.mem_append_left _ hping⟩
    · exact fun probe ⟨source, hping⟩ => ⟨source, List.mem_append_right _ hping⟩
  · intro sent hsent
    rcases List.mem_append.mp hsent with hfirst | hsecond
    · have hrefl : Evolves ∅ ∅ ∅ e e := Evolves.refl e
      exact (h.emits sent hfirst).mono hrefl h'.evolves.events
    · exact (h'.emits sent hsecond).mono h.evolves le_rfl

theorem sends_sendPings {probes : List (Probe ν)}
    (htargets : ∀ probe ∈ probes, probe.target ∈ e.peers)
    (h : sendPings order e probes = some result) : Sends e result := by
  induction probes generalizing e result with
  | nil =>
    cases h
    exact ⟨Evolves.refl e, nofun⟩
  | cons probe rest ih =>
    obtain ⟨⟨e₁, frames⟩, hfirst, h⟩ := Option.bind_eq_some_iff.mp h
    obtain ⟨⟨e₂, more⟩, hrest, rfl⟩ := Option.map_eq_some_iff.mp h
    have hsends := sends_sendPing (htargets probe mem_cons_self) hfirst
    refine hsends.trans (ih (fun p hp => ?_) hrest)
    exact hsends.evolves.peers_mono _ (htargets p (mem_cons_of_mem _ hp))

theorem mem_peers_of_selects {excluded : Option ν} {chosen : List ν} (h : e.Selects excluded chosen)
    (hid : id ∈ chosen) : id ∈ e.peers ∧ id ∉ excluded := by
  have hcandidate := List.mem_filter.mp (h.2.1 hid)
  exact ⟨AList.mem_keys.mpr hcandidate.1, (of_decide_eq_true hcandidate.2).1⟩

theorem reports_processPending (e : GossipEngine ν α) (now : ℕ) (order : List UInt64)
    (helpers : UInt64 → List ν) : Reports heard received probed e
      ((e.processPending now order helpers).1, (e.processPending now order helpers).2.1) := by
  refine Reports.foldl (fun _ request h => h.suspectTarget now request) ⟨?_, nofun⟩
  exact evolves_foldl_requestIndirect e now fun request hrequest =>
    lookup_of_mem_pendingWith hrequest

theorem emits_of_mem_requests {now : ℕ} {order : List UInt64} {helpers : UInt64 → List ν}
    (hselects : ∀ request ∈ e.pendingWith (Unanswered e.config now) order,
      e.Selects (some request.2) (helpers request.1)) {sent : ν × Frame ν α}
    (h : sent ∈ (e.processPending now order helpers).2.2) (e' : GossipEngine ν α) :
    Emits e e' sent := by
  obtain ⟨request, hrequest, h⟩ := List.mem_flatMap.mp h
  obtain ⟨helper, hhelper, rfl⟩ := List.mem_map.mp h
  obtain ⟨hmem, hne⟩ := mem_peers_of_selects (hselects request hrequest) hhelper
  exact ⟨hmem, rfl, fun heq => hne (congrArg some heq.symm)⟩

theorem sends_tick {input : TickInput ν} {changes : List (StatusChange ν)}
    {frames : List (ν × Frame ν α)} (h : e.tick input = some (e', changes, frames)) :
    Sends e (e', frames) ∧ ∀ change ∈ changes, change.nodeId ∈ e.peers := by
  unfold tick at h
  dsimp only at h
  obtain ⟨hpossible, h⟩ := Option.ite_none_right_eq_some.mp h
  obtain ⟨-, -, hhelpers, hprobes⟩ := hpossible
  obtain ⟨⟨next, more⟩, hsend, heq⟩ := Option.map_eq_some_iff.mp h
  obtain ⟨rfl, rfl, rfl⟩ : next = e' ∧ _ = changes ∧ _ = frames := by simpa using heq
  have hpending : Reports ∅ ∅ ∅ e _ :=
    reports_processPending e input.now input.pendingOrder input.helpers
  have htimed : Reports ∅ ∅ ∅ _ _ := reports_applyTimeouts
    (e.processPending input.now input.pendingOrder input.helpers).1 input.now input.peerOrder
  have hmid := hpending.evolves.trans htimed.evolves
  have hsends := sends_sendPings (fun probe hprobe =>
    (mem_peers_of_selects hprobes (List.mem_map_of_mem hprobe)).1) hsend
  refine ⟨Sends.trans ⟨hmid.mono (Set.empty_subset _), ?_⟩ hsends, ?_⟩
  · exact fun sent hsent => emits_of_mem_requests hhelpers hsent _
  · intro change hchange
    rcases List.mem_append.mp hchange with hsuspected | hchanged
    · exact (hpending.evolves.mem_peers _ (hpending.changes change hsuspected)).resolve_left
        (Set.notMem_empty _)
    · exact (hmid.mem_peers _ (htimed.changes change hchanged)).resolve_left (Set.notMem_empty _)

end GossipEngine

end Chirps.Gossip
