/-
# What a subscriber knows of the statuses

A subscriber applies the status changes that ticks return. Within a tick they are complete, but no
list has the changes that frames make between ticks.
-/

import Chirps.Gossip.Recovery

namespace Chirps.Gossip

open Chirps.Library

variable {ν α : Type*} [DecidableEq ν]

/-- A change is applied to the statuses of the known peers, if it fits. -/
def follow (known : ν → Prop) [DecidablePred known] (view : ν → Option Status)
    (change : StatusChange ν) : Option (ν → Option Status) :=
  if known change.nodeId then
    if view change.nodeId = some change.before then
      some (Function.update view change.nodeId (some change.after))
    else none
  else some view

namespace GossipEngine

inductive Reported (e : GossipEngine ν α) (a : Action ν α) : Prop
  | nothing (reports : e.reports a = []) (same : ∀ id, (e.act a).status id = e.status id)
  | change (c : StatusChange ν) (reports : e.reports a = [c])
      (before : e.status c.nodeId = some c.before)
        (after : (e.act a).status c.nodeId = some c.after)
      (others : ∀ id, id ≠ c.nodeId → (e.act a).status id = e.status id)

theorem status_congr {e e' : GossipEngine ν α} {id : ν} (h : e'.standing id = e.standing id) :
    e'.status id = e.status id := by
  rw [status, h, status]

variable {a : Action ν α}

theorem standing_act_of_quiet (h : a.Quiet) (e : GossipEngine ν α) (id : ν) :
    (e.act a).standing id = e.standing id := by
  cases a with
  | stamp other => exact standing_stampMembershipEvent e other id
  | receive | remember | request | number | await | envelope => rfl
  | touch | ack | update | event | suspect | check => exact h.elim

theorem reported_of_quiet (h : a.Quiet) (e : GossipEngine ν α) : e.Reported a :=
  .nothing (reports_of_quiet h e) fun id => status_congr (standing_act_of_quiet h e id)

theorem reported_suspect (e : GossipEngine ν α) (request : UInt64 × ν) (now : ℕ) :
    e.Reported (.suspect request now) := by
  cases hpeer : (e.peers.lookup request.2).filter fun peer => peer.state.status = .alive with
  | none =>
    have hresult : suspectTarget now (e, []) request = (e.removePending request.1, []) := by
      rw [suspectTarget, hpeer]
    exact .nothing (by rw [reports, hresult]) fun id => by rw [act, hresult]; rfl
  | some peer =>
    obtain ⟨hlookup, halive⟩ := Option.filter_eq_some_iff.mp hpeer
    have hresult : suspectTarget now (e, []) request =
        (((e.setPeer request.2 { peer with state := { peer.state with
          status := .suspect, suspectSince := some now } }).stampIf true request.2).removePending
            request.1, [⟨request.2, .alive, .suspect, peer.state.incarnation⟩]) := by
      rw [suspectTarget, hpeer]
      rfl
    refine .change ⟨request.2, .alive, .suspect, peer.state.incarnation⟩ (by rw [reports, hresult])
      ?_ ?_ fun id hid => ?_
    · rw [status, standing_of_lookup hlookup, Option.map_some, Peer.standing,
        of_decide_eq_true halive]
    · rw [act, hresult, status, standing_removePending, standing_stampIf, standing_setPeer_self]
      rfl
    · rw [act, hresult]
      refine status_congr ?_
      rw [standing_removePending, standing_stampIf, standing_setPeer_of_ne hid]

theorem reported_check (e : GossipEngine ν α) (id : ν) (now : ℕ) : e.Reported (.check id now) := by
  cases hpeer : e.peers.lookup id with
  | none =>
    have hresult : checkPeer now (e, []) id = (e, []) := by rw [checkPeer, hpeer]
    exact .nothing (by rw [reports, hresult]) fun id => by rw [act, hresult]
  | some peer =>
    cases hstate : timedOut e.config now peer.state with
    | none =>
      have hresult : checkPeer now (e, []) id = (e, []) := by
        rw [checkPeer, hpeer]
        dsimp only
        rw [hstate]
      exact .nothing (by rw [reports, hresult]) fun id => by rw [act, hresult]
    | some state =>
      have hresult : checkPeer now (e, []) id = (e.setPeer id { peer with state := state },
          [⟨id, peer.state.status, state.status, state.incarnation⟩]) := by
        rw [checkPeer, hpeer]
        dsimp only
        rw [hstate]
        rfl
      refine .change ⟨id, peer.state.status, state.status, state.incarnation⟩
        (by rw [reports, hresult]) ?_ ?_ fun other hother => ?_
      · rw [status, standing_of_lookup hpeer]
        rfl
      · rw [act, hresult, status, standing_setPeer_self]
        rfl
      · rw [act, hresult]
        exact status_congr (standing_setPeer_of_ne hother)

theorem reported_of_mem_tickActions {e : GossipEngine ν α} {input : TickInput ν}
    (h : a ∈ e.tickActions input) (e' : GossipEngine ν α) : e'.Reported a := by
  rcases mem_tickActions_cases h with hquiet | ⟨request, rfl⟩ | ⟨id, rfl⟩
  · exact reported_of_quiet hquiet e'
  · exact reported_suspect e' request input.now
  · exact reported_check e' id input.now

theorem foldlM_follow_iff (known : ν → Prop) [DecidablePred known] {actions : List (Action ν α)}
    (h : ∀ a ∈ actions, ∀ e : GossipEngine ν α, e.Reported a) (e : GossipEngine ν α)
    (view : ν → Option Status) :
    (∃ final, (e.reportsOf actions).foldlM (follow known) view = some final ∧
      ∀ id, known id → final id = (actions.foldl act e).status id) ↔
        ∀ id, known id → view id = e.status id := by
  induction actions generalizing e view with
  | nil => simp [reportsOf]
  | cons a rest ih =>
    have hrest := ih (fun b hb => h b (List.mem_cons_of_mem a hb)) (e.act a)
    rw [reportsOf, List.foldl_cons]
    cases h a List.mem_cons_self e with
    | nothing reports same =>
      rw [reports, List.nil_append, hrest]
      simp only [same]
    | change c reports before after others =>
      rw [reports, List.singleton_append, List.foldlM_cons]
      by_cases hknown : known c.nodeId
      · by_cases hfits : view c.nodeId = some c.before
        · rw [follow, if_pos hknown, if_pos hfits]
          refine (hrest _).trans (forall₂_congr fun id _ => ?_)
          by_cases hid : id = c.nodeId
          · subst hid
            rw [Function.update_self, after, hfits, before]
            simp
          · rw [Function.update_of_ne hid, others id hid]
        · -- the first change that does not fit shows that the status was stale
          rw [follow, if_pos hknown, if_neg hfits]
          constructor
          · rintro ⟨final, hfinal, -⟩
            cases hfinal
          · intro hview
            exact absurd ((hview c.nodeId hknown).trans before) hfits
      · rw [follow, if_neg hknown]
        refine (hrest _).trans (forall₂_congr fun id hid => ?_)
        rw [others id fun heq => hknown (heq ▸ hid)]

end GossipEngine

/-! ## The subscriber -/

/-- The statuses after the last tick, and the view of a subscriber, lost when a change does not fit.
-/
structure Subscribed (ν α : Type*) where
  engine : GossipEngine ν α
  ticked : ν → Option Status
  view : Option (ν → Option Status)

namespace Subscribed

open GossipEngine

def initial (e : GossipEngine ν α) : Subscribed ν α := ⟨e, e.status, some e.status⟩

def step (known : ν → Prop) [DecidablePred known] (x : Subscribed ν α) :
    EngineEvent ν α → Option (Subscribed ν α)
  | .frame sender frame addr now =>
    some { x with engine := (x.engine.handleFrame sender frame addr now).1 }
  | .tick input => (x.engine.tick input).map fun (e, changes, _) =>
    ⟨e, e.status, x.view.bind fun view => changes.foldlM (follow known) view⟩

def Informed (known : ν → Prop) (x : Subscribed ν α) : Prop :=
  ∃ view, x.view = some view ∧ ∀ id, known id → view id = x.engine.status id

/-- After a tick the subscriber has the statuses of the engine. -/
def InformedAfterTick (known : ν → Prop) [DecidablePred known] (x : Subscribed ν α) :
    EngineEvent ν α → Prop
  | .frame _ _ _ _ => True
  | .tick input => ∀ y, x.step known (.tick input) = some y → y.Informed known

/-- When a tick starts, the statuses are as they were after the last one. -/
def Unmoved (known : ν → Prop) (x : Subscribed ν α) : EngineEvent ν α → Prop
  | .frame _ _ _ _ => True
  | .tick _ => ∀ id, known id → x.ticked id = x.engine.status id

variable {known : ν → Prop} [DecidablePred known]

theorem informed_tick_iff {x y : Subscribed ν α} {input : TickInput ν} {view : ν → Option Status}
    (hview : x.view = some view) (hticked : ∀ id, known id → view id = x.ticked id)
    (h : x.step known (.tick input) = some y) :
    y.Informed known ↔ ∀ id, known id → x.ticked id = x.engine.status id := by
  obtain ⟨⟨e, changes, frames⟩, htick, rfl⟩ := Option.map_eq_some_iff.mp h
  obtain ⟨hfold, hchanges⟩ := tick_eq htick
  have hreported : ∀ a ∈ x.engine.tickActions input, ∀ e : GossipEngine ν α, e.Reported a :=
    fun a ha => reported_of_mem_tickActions ha
  have hfollow := foldlM_follow_iff known hreported x.engine view
  rw [hfold, hchanges] at hfollow
  rw [Informed, hview]
  refine hfollow.trans (forall₂_congr fun id hid => ?_)
  rw [hticked id hid]

end Subscribed

open GossipEngine Subscribed in
/-- The changes that ticks return give the statuses of the engine after each tick, exactly if each
tick starts with the statuses that there were after the last one. -/
theorem status_events_complete_iff (e : GossipEngine ν α) (events : List (EngineEvent ν α)) :
    Along (Subscribed.step (· ∈ e.peers)) (InformedAfterTick (· ∈ e.peers)) (initial e) events ↔
      Along (Subscribed.step (· ∈ e.peers)) (Unmoved (· ∈ e.peers)) (initial e) events := by
  -- up to here the subscriber has the statuses after the last tick
  refine along_congr_of_keeps (P := fun x => ∃ view, x.view = some view ∧
    ∀ id, id ∈ e.peers → view id = x.ticked id) ?_ ?_ ⟨e.status, rfl, fun _ _ => rfl⟩
  · rintro x event y ⟨view, hview, hticked⟩ hstep hinformed
    cases event with
    | frame sender frame addr now =>
      cases hstep
      exact ⟨view, hview, hticked⟩
    | tick input =>
      obtain ⟨final, hfinal, hstatus⟩ := hinformed y hstep
      obtain ⟨⟨e', changes, frames⟩, -, rfl⟩ := Option.map_eq_some_iff.mp hstep
      exact ⟨final, hfinal, hstatus⟩
  · rintro x event y ⟨view, hview, hticked⟩ hstep
    cases event with
    | frame sender frame addr now => exact Iff.rfl
    | tick input =>
      rw [Unmoved, ← informed_tick_iff hview hticked hstep]
      constructor
      · exact fun h => h y hstep
      · intro h z hz
        cases hstep.symm.trans hz
        exact h

/-- Between two ticks an engine hears that a peer is dead. No tick says so, and the subscriber
takes the peer for alive. -/
theorem gossiped_death_not_reported :
    let e : GossipEngine ℕ Unit :=
      .new 0 ⟨5, 5, 5, some 0, false⟩ (viewOf [1]) (.withClock 0 fun _ => 0) 0
    ∃ x view, run (Subscribed.step (· ∈ e.peers)) (.initial e)
        [.tick ⟨1, [1], [], fun _ => [], []⟩, .frame 2 (.gossip [⟨1, 1, (), .dead⟩]) () 2,
          .tick ⟨3, [1], [], fun _ => [], []⟩] = some x ∧
      x.engine.status 1 = some .dead ∧ x.view = some view ∧ view 1 = some .alive := by
  refine ⟨_, _, rfl, rfl, rfl, rfl⟩

end Chirps.Gossip
