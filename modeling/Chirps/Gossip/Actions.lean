/-
# What an engine does, one thing at a time

A frame or a tick changes the view of an engine in several places. The actions are these single
changes, and what a handler does is the fold of its actions.
-/

import Chirps.Gossip.Merge
import Chirps.Gossip.Mesh
import Chirps.Library.Trace

namespace Chirps.Gossip

open Chirps.Library
open List (foldl_append foldl_cons foldl_map foldl_nil mem_append mem_map)

variable {ν α : Type*}

inductive Action (ν α : Type*)
  /-- A `Ping`, a `PingReq`, or the `Ack` of an unknown peer. -/
  | touch (id : ν) (addr : α) (now : ℕ)
  | ack (id : ν) (seq : UInt64) (addr : α) (now : ℕ)
  /-- An update of a gossip without stamps. -/
  | update (update : MembershipUpdate ν α) (now : ℕ)
  /-- The clock receives the timestamp of a message. -/
  | receive (message : HlcGossipMessage ν α)
  /-- A message is remembered. -/
  | remember (message : HlcGossipMessage ν α)
  /-- An update of a gossip with stamps. -/
  | event (event : StampedMembershipUpdate ν α) (now : ℕ)
  /-- A probe becomes an indirect one. -/
  | request (request : UInt64 × ν) (now : ℕ)
  /-- A probe is given up. -/
  | suspect (request : UInt64 × ν) (now : ℕ)
  /-- `check_timeouts` comes to a peer. -/
  | check (id : ν) (now : ℕ)
  | stamp (id : ν)
  /-- A probe takes a number. -/
  | number
  /-- A probe is pending. -/
  | await (target : ν) (sentAt : ℕ)
  /-- An envelope is stamped. -/
  | envelope

inductive EngineEvent (ν α : Type*)
  | frame (sender : ν) (frame : Frame ν α) (addr : α) (now : ℕ)
  | tick (input : GossipEngine.TickInput ν)

namespace GossipEngine

variable [DecidableEq ν] (e : GossipEngine ν α) (input : TickInput ν)

def act : Action ν α → GossipEngine ν α
  | .touch id addr now => e.touchPeer id addr .alive now
  | .ack id seq addr now => e.handleAck id seq addr now
  | .update update now => applyAndStamp now e update
  | .receive message => { e with hlc := (e.hlc.receive message.timestamp).2 }
  | .remember message => { e with seenMessages := message.eventId :: e.seenMessages }
  | .event event now => (applyEvent now (0, e) event).2
  | .request request now => requestIndirect now e request
  | .suspect request now => (suspectTarget now (e, []) request).1
  | .check id now => (checkPeer now (e, []) id).1
  | .stamp id => e.stampMembershipEvent id
  | .number => { e with seq := e.seq + 1 }
  | .await target sentAt => { e with pending := e.pending.insert e.seq ⟨target, .direct sentAt⟩ }
  | .envelope => e.tickAndCount

def reports : Action ν α → List (StatusChange ν)
  | .suspect request now => (suspectTarget now (e, []) request).2
  | .check id now => (checkPeer now (e, []) id).2
  | _ => []

def reportsOf : GossipEngine ν α → List (Action ν α) → List (StatusChange ν)
  | _, [] => []
  | e, a :: rest => e.reports a ++ reportsOf (e.act a) rest

theorem reportsOf_append (before after : List (Action ν α)) :
    e.reportsOf (before ++ after) = e.reportsOf before ++ reportsOf (before.foldl act e) after := by
  induction before generalizing e with
  | nil => rfl
  | cons a rest ih => rw [List.cons_append, reportsOf, reportsOf, ih, List.append_assoc, foldl_cons]

theorem evolves_act (a : Action ν α) : Evolves Set.univ Set.univ Set.univ e (e.act a) := by
  have hreports : Reports Set.univ Set.univ Set.univ e (e, []) :=
    ⟨Evolves.refl e, nofun⟩
  cases a with
  | touch id addr now => exact evolves_touchPeer e (Set.mem_univ id) addr .alive now
  | ack id seq addr now => exact evolves_handleAck e (Set.mem_univ id) seq addr now
  | update update now =>
    exact (evolves_applyOneMembershipUpdate e (Set.mem_univ _) now).trans (evolves_stampIf _ _ _)
  | receive message => exact Evolves.of_clocks e e.seq _ _
  | remember message =>
    exact Evolves.of_view (fun _ p hp => .inr ⟨p, hp, rfl⟩) (fun i _ => .inl (Set.mem_univ i))
      fun _ => .inr
  | event event now => exact evolves_applyEvent e (Set.mem_univ _) (Set.mem_univ _) now 0
  | request request now => exact Evolves.of_pending fun _ _ _ => .inl (Set.mem_univ _)
  | suspect request now => exact (hreports.suspectTarget now request).evolves
  | check id now => exact (hreports.checkPeer now id).evolves
  | stamp id => exact evolves_stampMembershipEvent e id
  | number => exact Evolves.of_clocks e _ e.hlc _
  | await target sentAt => exact Evolves.of_pending fun _ _ _ => .inl (Set.mem_univ _)
  | envelope => exact evolves_tickAndCount e

theorem config_act (a : Action ν α) : (e.act a).config = e.config :=
  (evolves_act e a).config

theorem evolves_foldl_act (actions : List (Action ν α)) :
    Evolves Set.univ Set.univ Set.univ e (actions.foldl act e) :=
  Evolves.foldl (fun e a _ => evolves_act e a) e

/-! ## The actions of a frame -/

def Opens (message : HlcGossipMessage ν α) : Prop :=
  e.hlc.Accepts message.timestamp ∧ ¬ Seen e.seenMessages message.eventId

instance (e : GossipEngine ν α) (message : HlcGossipMessage ν α) : Decidable (e.Opens message) :=
  inferInstanceAs (Decidable (_ ∧ _))

def frameActions (sender : ν) (frame : Frame ν α) (addr : α) (now : ℕ) : List (Action ν α) :=
  match frame with
  | .ping _ _ => [.touch sender addr now]
  | .ack seq _ => [.ack sender seq addr now]
  | .pingReq _ requester _ => [.touch requester addr now]
  | .gossip updates => updates.map (.update · now)
  | .hlcGossip message =>
    if e.config.hlc ∧ message.WellFormed then
      .receive message ::
        if e.Opens message then .remember message :: message.updates.map (.event · now) else []
    else []

theorem applyEvent_snd (now count : ℕ) (e : GossipEngine ν α)
    (event : StampedMembershipUpdate ν α) :
    (applyEvent now (count, e) event).2 = e.act (.event event now) := by
  simp only [act, applyEvent]
  split
  · rfl
  · split
    · rfl
    · split <;> rfl

theorem foldl_applyEvent_snd (now count : ℕ) (e : GossipEngine ν α)
    (events : List (StampedMembershipUpdate ν α)) :
    (events.foldl (applyEvent now) (count, e)).2 = (events.map (.event · now)).foldl act e := by
  induction events generalizing count e with
  | nil => rfl
  | cons event rest ih =>
    rw [foldl_cons, List.map_cons, foldl_cons, ← applyEvent_snd now count]
    exact ih _ _

theorem applyHlcGossip_eq_foldl {message : HlcGossipMessage ν α} (now : ℕ)
    (hwell : message.WellFormed) :
    (e.applyHlcGossip message now).2 = (Action.receive message ::
      if e.Opens message then .remember message :: message.updates.map (.event · now)
      else []).foldl act e := by
  rw [applyHlcGossip, if_pos hwell]
  by_cases haccepts : e.hlc.Accepts message.timestamp
  · have hreceive : e.hlc.receive message.timestamp = (.ok (e.hlc.merged message.timestamp),
        e.hlc.advance (e.hlc.merged message.timestamp)) := if_pos haccepts
    by_cases hseen : Seen e.seenMessages message.eventId
    · have hopens : ¬ e.Opens message := fun h => h.2 hseen
      -- the clock has advanced, and nothing else has changed
      rw [if_neg hopens, hreceive]
      simp only [if_pos hseen, foldl_cons, foldl_nil, act, hreceive]
    · rw [if_pos ⟨haccepts, hseen⟩, hreceive]
      simp only [if_neg hseen, foldl_cons, foldl_applyEvent_snd, act, hreceive]
  · have hopens : ¬ e.Opens message := fun h => haccepts h.1
    rw [if_neg hopens]
    simp only [foldl_cons, foldl_nil, act, LocalHlc.receive, if_neg haccepts]

theorem handleFrame_eq_foldl (sender : ν) (frame : Frame ν α) (addr : α)
    (now : ℕ) : (e.handleFrame sender frame addr now).1 =
      (e.frameActions sender frame addr now).foldl act e := by
  cases frame with
  | ping seq source => rfl
  | ack seq source => rfl
  | pingReq seq requester target => rfl
  | gossip updates =>
    rw [frameActions, foldl_map]
    rfl
  | hlcGossip message =>
    simp only [handleFrame, frameActions]
    by_cases hhlc : e.config.hlc
    · by_cases hwell : message.WellFormed
      · rw [if_pos hhlc, if_pos ⟨hhlc, hwell⟩, applyHlcGossip_eq_foldl e now hwell]
      · rw [if_pos hhlc, if_neg fun h => hwell h.2, applyHlcGossip, if_neg hwell]
        rfl
    · rw [if_neg hhlc, if_neg fun h => hhlc h.1]
      rfl

/-! ## The actions of a tick -/

/-- The actions of `process_pending`. -/
def pendingActions : List (Action ν α) :=
  (e.pendingWith (Unanswered e.config input.now) input.pendingOrder).map (.request · input.now) ++
    (e.pendingWith (Abandoned e.config input.now) input.pendingOrder).map (.suspect · input.now)

/-- The actions of `check_timeouts`. -/
def checkActions : List (Action ν α) :=
  input.peerOrder.map (.check · input.now)

def stampActions (config : GossipConfig) (changes : List (StatusChange ν)) : List (Action ν α) :=
  if config.hlc then changes.map (.stamp ·.nodeId) else []

/-- The actions of `gossip_to`. -/
def gossipActions (order : List ν) : List (Action ν α) :=
  if e.config.hlc then
    (order.filter fun id => (e.peers.lookup id).any fun peer =>
      peer.state.timestamp.isNone).map .stamp ++
      if e.peersIn order = [] then [] else [.envelope]
  else []

def pingActions (order : List ν) (probe : Probe ν) : List (Action ν α) :=
  if e.pending.entries.any fun entry => entry.2.target = probe.target then []
  else if probe.sent then
    [Action.number, .await probe.target probe.sentAt] ++
      gossipActions ((e.act .number).act (.await probe.target probe.sentAt)) order
  else [.number]

def pingsActions (order : List ν) : GossipEngine ν α → List (Probe ν) → List (Action ν α)
  | _, [] => []
  | e, probe :: rest =>
    e.pingActions order probe ++ pingsActions order ((e.pingActions order probe).foldl act e) rest

def timeoutActions : List (Action ν α) :=
  e.pendingActions input ++ (checkActions input ++ stampActions e.config
    (reportsOf ((e.pendingActions input).foldl act e) (checkActions input)))

def tickActions : List (Action ν α) :=
  e.timeoutActions input ++
    pingsActions input.peerOrder ((e.timeoutActions input).foldl act e) input.probes

theorem foldl_requestIndirect (now : ℕ) (requests : List (UInt64 × ν)) :
    requests.foldl (requestIndirect now) e = (requests.map (.request · now)).foldl act e := by
  rw [foldl_map]
  rfl

theorem foldl_reporting {β : Type*}
    {f : GossipEngine ν α × List (StatusChange ν) → β → GossipEngine ν α × List (StatusChange ν)}
    {g : β → Action ν α}
    (h : ∀ e changes x, f (e, changes) x = (e.act (g x), changes ++ e.reports (g x)))
    (e : GossipEngine ν α) (changes : List (StatusChange ν)) (l : List β) :
    l.foldl f (e, changes) = ((l.map g).foldl act e, changes ++ e.reportsOf (l.map g)) := by
  induction l generalizing e changes with
  | nil => simp [reportsOf]
  | cons x rest ih =>
    rw [foldl_cons, h, ih, List.map_cons, foldl_cons, reportsOf, List.append_assoc]

theorem suspectTarget_eq (now : ℕ) (e : GossipEngine ν α) (changes : List (StatusChange ν))
    (request : UInt64 × ν) : suspectTarget now (e, changes) request =
      (e.act (.suspect request now), changes ++ e.reports (.suspect request now)) := by
  simp only [act, reports, suspectTarget]
  split <;> simp

theorem checkPeer_eq (now : ℕ) (e : GossipEngine ν α) (changes : List (StatusChange ν)) (id : ν) :
    checkPeer now (e, changes) id =
      (e.act (.check id now), changes ++ e.reports (.check id now)) := by
  simp only [act, reports, checkPeer]
  split
  · simp
  · split <;> simp

theorem processPending_eq :
    ∃ requests, e.processPending input.now input.pendingOrder input.helpers =
        ((e.pendingActions input).foldl act e, e.reportsOf (e.pendingActions input), requests) ∧
      ∀ sent ∈ requests, ∃ seq source target, sent.2 = .pingReq seq source target := by
  have hquiet : ∀ (e : GossipEngine ν α) (l : List (UInt64 × ν)),
      e.reportsOf (l.map (.request · input.now)) = [] := by
    intro e l
    induction l generalizing e with
    | nil => rfl
    | cons request rest ih => exact ih _
  refine ⟨(e.processPending input.now input.pendingOrder input.helpers).2.2, ?_,
    fun sent hsent => ?_⟩
  · rw [processPending, foldl_reporting (suspectTarget_eq input.now), foldl_requestIndirect,
      pendingActions, foldl_append, reportsOf_append, hquiet]
  · obtain ⟨request, -, hrequest⟩ := List.mem_flatMap.mp hsent
    obtain ⟨helper, -, rfl⟩ := mem_map.mp hrequest
    exact ⟨request.1, e.nodeId, request.2, rfl⟩

theorem stampActions_foldl (changes : List (StatusChange ν)) :
    changes.foldl (fun e change => e.stampIf true change.nodeId) e =
      (stampActions e.config changes).foldl act e := by
  rw [stampActions]
  split
  · rename_i hhlc
    rw [foldl_map]
    induction changes generalizing e with
    | nil => rfl
    | cons change rest ih =>
      have hstamp : e.stampIf true change.nodeId = e.act (.stamp change.nodeId) := by
        rw [stampIf, hhlc]
        rfl
      rw [foldl_cons, foldl_cons, hstamp]
      exact ih _ ((congrArg GossipConfig.hlc (config_act e _)).trans hhlc)
  · rename_i hhlc
    induction changes with
    | nil => rfl
    | cons change rest ih =>
      have hstamp : e.stampIf true change.nodeId = e := by
        rw [stampIf, Bool.eq_false_of_not_eq_true hhlc]
        rfl
      rw [foldl_cons, hstamp, ih]

theorem applyTimeouts_eq :
    e.applyTimeouts input.now input.peerOrder =
      ((checkActions input ++ stampActions e.config (e.reportsOf (checkActions input))).foldl act e,
        e.reportsOf (checkActions input)) := by
  rw [applyTimeouts, foldl_reporting (checkPeer_eq input.now), foldl_append]
  change (List.foldl _ ((checkActions input).foldl act e) (e.reportsOf (checkActions input)),
    e.reportsOf (checkActions input)) = _
  rw [stampActions_foldl, (evolves_foldl_act e _).config]

variable {e e' : GossipEngine ν α}

theorem peersIn_eq_nil_iff (h : Evolves ∅ ∅ ∅ e e') (order : List ν) :
    e'.peersIn order = [] ↔ e.peersIn order = [] := by
  simp only [peersIn, List.filterMap_eq_nil_iff, AList.lookup_eq_none]
  refine forall₂_congr fun id _ => not_congr ⟨fun hmem => ?_, h.peers_mono id⟩
  exact (h.mem_peers id hmem).resolve_left (Set.notMem_empty id)

omit [DecidableEq ν] in
theorem stampedUpdates_eq_nil_iff {peers : List (Peer ν α)}
    {events : List (StampedMembershipUpdate ν α)}
    (h : peers.mapM Peer.stampedUpdate = some events) : events = [] ↔ peers = [] := by
  cases peers with
  | nil =>
    cases h
    simp
  | cons peer rest =>
    rw [List.mapM_cons] at h
    obtain ⟨first, -, h⟩ := Option.bind_eq_some_iff.mp h
    obtain ⟨others, -, h⟩ := Option.bind_eq_some_iff.mp h
    cases h
    simp

variable {order : List ν} {frames : List (ν × Frame ν α)}

theorem gossipTo_eq {target : ν} (h : e.gossipTo order target = some (e', frames)) :
    (e.gossipActions order).foldl act e = e' := by
  rw [gossipTo] at h
  rw [gossipActions]
  split at h
  · rename_i hhlc
    have hstamps : e.ensureMembershipStamps order =
        ((order.filter fun id => (e.peers.lookup id).any fun peer =>
          peer.state.timestamp.isNone).map Action.stamp).foldl act e := by
      rw [foldl_map]
      rfl
    obtain ⟨events, hevents, hresult⟩ := Option.map_eq_some_iff.mp h
    have hnil := (stampedUpdates_eq_nil_iff hevents).trans
      (peersIn_eq_nil_iff (evolves_ensureMembershipStamps e order) order)
    rw [if_pos hhlc, foldl_append, ← hstamps]
    split_ifs at hresult with hempty <;> cases hresult
    · rw [if_pos (hnil.mp hempty), foldl_nil]
    · rw [if_neg (mt hnil.mpr hempty)]
      rfl
  · rename_i hhlc
    cases h
    rw [if_neg hhlc, foldl_nil]

theorem sendPing_eq {probe : Probe ν} (h : e.sendPing order probe = some (e', frames)) :
    (e.pingActions order probe).foldl act e = e' := by
  rw [sendPing] at h
  rw [pingActions]
  split_ifs at h with hpending hsent
  · cases h
    rw [if_pos hpending, foldl_nil]
  · obtain ⟨⟨e₁, frames₁⟩, hgossip, hresult⟩ := Option.map_eq_some_iff.mp h
    cases hresult
    rw [if_neg hpending, if_pos hsent, foldl_append]
    exact gossipTo_eq hgossip
  · cases h
    rw [if_neg hpending, if_neg hsent]
    rfl

theorem sendPings_eq {probes : List (Probe ν)} (h : sendPings order e probes = some (e', frames)) :
    (pingsActions order e probes).foldl act e = e' := by
  induction probes generalizing e frames with
  | nil =>
    cases h
    rfl
  | cons probe rest ih =>
    obtain ⟨⟨e₁, first⟩, hfirst, h⟩ := Option.bind_eq_some_iff.mp h
    obtain ⟨⟨e₂, more⟩, hmore, hresult⟩ := Option.map_eq_some_iff.mp h
    cases hresult
    rw [pingsActions, foldl_append, sendPing_eq hfirst]
    exact ih hmore

end GossipEngine

def Action.Quiet : Action ν α → Prop
  | .receive _ | .remember _ | .request _ _ | .stamp _ | .number | .await _ _ | .envelope => True
  | .touch _ _ _ | .ack _ _ _ _ | .update _ _ | .event _ _ | .suspect _ _ | .check _ _ => False

namespace GossipEngine

variable {a : Action ν α}

theorem quiet_of_mem_stampActions {config : GossipConfig} {changes : List (StatusChange ν)}
    (h : a ∈ stampActions config changes) : a.Quiet := by
  rw [stampActions] at h
  split at h
  · obtain ⟨change, -, rfl⟩ := mem_map.mp h
    trivial
  · cases h

variable [DecidableEq ν]

variable {e : GossipEngine ν α} {order : List ν}

theorem quiet_of_mem_gossipActions (h : a ∈ e.gossipActions order) : a.Quiet := by
  rw [gossipActions] at h
  split at h
  · rcases mem_append.mp h with hstamp | henvelope
    · obtain ⟨id, -, rfl⟩ := mem_map.mp hstamp
      trivial
    · split at henvelope
      · cases henvelope
      · rw [List.mem_singleton.mp henvelope]
        trivial
  · cases h

theorem quiet_of_mem_pingActions {probe : Probe ν} (h : a ∈ e.pingActions order probe) :
    a.Quiet := by
  rw [pingActions] at h
  split_ifs at h
  · cases h
  · rcases mem_append.mp h with hprobe | hgossip
    · rcases List.mem_pair.mp hprobe with rfl | rfl <;> trivial
    · exact quiet_of_mem_gossipActions hgossip
  · rw [List.mem_singleton.mp h]
    trivial

theorem quiet_of_mem_pingsActions {probes : List (Probe ν)} (h : a ∈ pingsActions order e probes) :
    a.Quiet := by
  induction probes generalizing e with
  | nil => cases h
  | cons probe rest ih =>
    rcases mem_append.mp h with hfirst | hrest
    · exact quiet_of_mem_pingActions hfirst
    · exact ih hrest

theorem mem_tickActions_cases {input : TickInput ν} (h : a ∈ e.tickActions input) :
    a.Quiet ∨ (∃ request, a = .suspect request input.now) ∨ ∃ id, a = .check id input.now := by
  rw [tickActions, timeoutActions, pendingActions, checkActions] at h
  simp only [mem_append, mem_map] at h
  rcases h with ((⟨request, -, rfl⟩ | ⟨request, -, rfl⟩) | ⟨id, -, rfl⟩ | hstamp) | hping
  · exact .inl trivial
  · exact .inr (.inl ⟨request, rfl⟩)
  · exact .inr (.inr ⟨id, rfl⟩)
  · exact .inl (quiet_of_mem_stampActions hstamp)
  · exact .inl (quiet_of_mem_pingsActions hping)

theorem reports_of_quiet (h : a.Quiet) (e : GossipEngine ν α) : e.reports a = [] := by
  cases a <;> first | rfl | exact h.elim

theorem reportsOf_of_quiet {actions : List (Action ν α)} (h : ∀ a ∈ actions, a.Quiet)
    (e : GossipEngine ν α) : e.reportsOf actions = [] := by
  induction actions generalizing e with
  | nil => rfl
  | cons a rest ih =>
    rw [reportsOf, reports_of_quiet (h a List.mem_cons_self), List.nil_append]
    exact ih (fun b hb => h b (List.mem_cons_of_mem a hb)) _

/-- The orders and choices of a tick are ones the engine can make in this state. -/
def Possible (e : GossipEngine ν α) (input : TickInput ν) : Prop :=
  input.pendingOrder.Perm e.pending.keys ∧ input.peerOrder.Perm e.peers.keys ∧
    (∀ request ∈ e.pendingWith (Unanswered e.config input.now) input.pendingOrder,
      e.Selects (some request.2) (input.helpers request.1)) ∧
    ((e.timeoutActions input).foldl act e).Selects none (input.probes.map Probe.target)

instance (e : GossipEngine ν α) (input : TickInput ν) : Decidable (e.Possible input) :=
  inferInstanceAs (Decidable (_ ∧ _ ∧ _ ∧ _))

theorem tick_eq_sendPings (e : GossipEngine ν α) (input : TickInput ν) :
    ∃ requests : List (ν × Frame ν α),
      (∀ sent ∈ requests, ∃ seq source target, sent.2 = .pingReq seq source target) ∧
      e.tick input = if e.Possible input then
        (sendPings input.peerOrder ((e.timeoutActions input).foldl act e) input.probes).map
          fun (next, frames) => (next, e.reportsOf (e.timeoutActions input), requests ++ frames)
        else none := by
  obtain ⟨requests, hpending, hrequests⟩ := e.processPending_eq input
  have htimed := applyTimeouts_eq ((e.pendingActions input).foldl act e) input
  rw [(evolves_foldl_act e _).config] at htimed
  have hfold : (checkActions input ++ stampActions e.config (reportsOf
      ((e.pendingActions input).foldl act e) (checkActions input))).foldl act
        ((e.pendingActions input).foldl act e) = (e.timeoutActions input).foldl act e := by
    rw [timeoutActions]
    exact foldl_append.symm
  have hreports : e.reportsOf (e.pendingActions input) ++
      reportsOf ((e.pendingActions input).foldl act e) (checkActions input) =
        e.reportsOf (e.timeoutActions input) := by
    rw [timeoutActions, reportsOf_append, reportsOf_append,
      reportsOf_of_quiet fun _ => quiet_of_mem_stampActions, List.append_nil]
  refine ⟨requests, hrequests, ?_⟩
  -- the conditions of `tick` are now those of `Possible`
  rw [tick, hpending]
  simp only [htimed, hfold, hreports]
  rfl

theorem tick_eq {e' : GossipEngine ν α} {input : TickInput ν} {changes : List (StatusChange ν)}
    {frames : List (ν × Frame ν α)} (h : e.tick input = some (e', changes, frames)) :
    (e.tickActions input).foldl act e = e' ∧ e.reportsOf (e.tickActions input) = changes := by
  obtain ⟨requests, -, htick⟩ := e.tick_eq_sendPings input
  rw [htick] at h
  split_ifs at h
  obtain ⟨⟨next, sent⟩, hsent, hresult⟩ := Option.map_eq_some_iff.mp h
  cases hresult
  constructor
  · rw [tickActions, foldl_append, sendPings_eq hsent]
  · rw [tickActions, reportsOf_append, reportsOf_of_quiet fun _ => quiet_of_mem_pingsActions,
      List.append_nil]

/-! ## Runs of one engine -/

def engineStep (e : GossipEngine ν α) : EngineEvent ν α → Option (GossipEngine ν α)
  | .frame sender frame addr now => some (e.handleFrame sender frame addr now).1
  | .tick input => (e.tick input).map Prod.fst

def actionsOf (e : GossipEngine ν α) : EngineEvent ν α → List (Action ν α)
  | .frame sender frame addr now => e.frameActions sender frame addr now
  | .tick input => e.tickActions input

theorem foldl_actionsOf (e : GossipEngine ν α) (event : EngineEvent ν α) (next : GossipEngine ν α)
    (h : e.engineStep event = some next) : (e.actionsOf event).foldl act e = next := by
  cases event with
  | frame sender frame addr now =>
    cases h
    exact (handleFrame_eq_foldl e sender frame addr now).symm
  | tick input =>
    obtain ⟨⟨e', changes, frames⟩, htick, rfl⟩ := Option.map_eq_some_iff.mp h
    exact (tick_eq htick).1

def traceOf (e : GossipEngine ν α) (events : List (EngineEvent ν α)) : List (Action ν α) :=
  trace engineStep actionsOf e events

theorem foldl_traceOf {e' : GossipEngine ν α} {events : List (EngineEvent ν α)}
    (reach : run engineStep e events = some e') : (e.traceOf events).foldl act e = e' :=
  foldl_trace foldl_actionsOf reach

end GossipEngine

end Chirps.Gossip
