/-
# Coming back from suspicion and from death

`check_timeouts` takes a suspect peer for alive that was seen a short time ago, and an update of a
later incarnation sets that time. A dead peer stays dead at an `Ack`, but not at a `Ping` or a
`PingReq`. Incarnations only go up.
-/

import Chirps.Gossip.Actions

namespace Chirps.Gossip

open Chirps.Library

theorem Status.rank_le_dead (status : Status) : status.rank ≤ Status.dead.rank := by
  cases status <;> decide

variable {ν α : Type*} [DecidableEq ν]

namespace GossipEngine

/-- The action applies the update, and it is not refused. -/
def AppliesUpdate (e : GossipEngine ν α) (update : MembershipUpdate ν α) : Action ν α → Prop
  | .update u now => u = update ∧ (e.applyOneMembershipUpdate u now).1 = true
  | .event event now => event.update = update ∧ (applyEvent now (0, e) event).1 = 1
  | _ => False

def Recent (e : GossipEngine ν α) (id : ν) (now : ℕ) : Prop :=
  ∃ peer ∈ e.peers.lookup id, now - peer.state.lastSeen < e.config.indirectPingTimeout

inductive Turn (e : GossipEngine ν α) (id : ν) : Action ν α → Option Standing → Prop
  | same (a : Action ν α) : Turn e id a (e.standing id)
  | touched (addr : α) (now : ℕ) (incarnation : UInt64)
      (known : ∀ s, e.standing id = some s → s.incarnation = incarnation) :
      Turn e id (.touch id addr now) (some ⟨incarnation, .alive⟩)
  | acked (seq : UInt64) (addr : α) (now : ℕ) (incarnation : UInt64)
      (known : ∀ s, e.standing id = some s → s.incarnation = incarnation ∧ s.status ≠ .dead) :
      Turn e id (.ack id seq addr now) (some ⟨incarnation, .alive⟩)
  | applied (a : Action ν α) (update : MembershipUpdate ν α) (about : update.nodeId = id)
      (applies : e.AppliesUpdate update a)
      (lt : ∀ s, e.standing id = some s → s < update.standing) :
      Turn e id a (some update.standing)
  | suspected (a : Action ν α) (incarnation : UInt64)
      (known : e.standing id = some ⟨incarnation, .alive⟩) :
      Turn e id a (some ⟨incarnation, .suspect⟩)
  | recovered (now : ℕ) (incarnation : UInt64)
      (known : e.standing id = some ⟨incarnation, .suspect⟩) (recent : e.Recent id now) :
      Turn e id (.check id now) (some ⟨incarnation, .alive⟩)
  | died (now : ℕ) (incarnation : UInt64)
      (known : e.standing id = some ⟨incarnation, .suspect⟩) :
      Turn e id (.check id now) (some ⟨incarnation, .dead⟩)

section Turns

variable {e : GossipEngine ν α} {id : ν} {peer : Peer ν α}

theorem standing_of_lookup (h : e.peers.lookup id = some peer) :
    e.standing id = some peer.standing := by
  rw [standing, h, Option.map_some]

theorem standing_removePending (e : GossipEngine ν α) (seq : UInt64) (id : ν) :
    (e.removePending seq).standing id = e.standing id := rfl

theorem turn_touch (e : GossipEngine ν α) (other : ν) (addr : α) (now : ℕ) (id : ν) :
    Turn e id (.touch other addr now) ((e.touchPeer other addr .alive now).standing id) := by
  rw [touchPeer, standing_stampIf]
  by_cases hid : id = other
  · subst hid
    rw [standing_setPeer_self]
    refine .touched addr now _ fun s hs => ?_
    cases hpeer : e.peers.lookup id with
    | none =>
      rw [standing, hpeer] at hs
      cases hs
    | some peer =>
      rw [standing_of_lookup hpeer] at hs
      cases hs
      rfl
  · rw [standing_setPeer_of_ne hid]
    exact .same _

theorem turn_ack (e : GossipEngine ν α) (other : ν) (seq : UInt64) (addr : α) (now : ℕ) (id : ν) :
    Turn e id (.ack other seq addr now) ((e.handleAck other seq addr now).standing id) := by
  rw [handleAck]
  split
  · rename_i peer hpeer
    split
    · exact .same _
    · rename_i hdead
      rw [standing_removePending, standing_stampIf]
      by_cases hid : id = other
      · subst hid
        rw [standing_setPeer_self]
        refine .acked seq addr now _ fun s hs => ?_
        rw [standing_of_lookup hpeer] at hs
        cases hs
        exact ⟨rfl, hdead⟩
      · rw [standing_setPeer_of_ne hid]
        exact .same _
  · rename_i hpeer
    rw [standing_removePending, touchPeer, standing_stampIf]
    by_cases hid : id = other
    · subst hid
      rw [standing_setPeer_self]
      refine .acked seq addr now _ fun s hs => ?_
      rw [standing, hpeer] at hs
      cases hs
    · rw [standing_setPeer_of_ne hid]
      exact .same _

structure Wins (e : GossipEngine ν α) (update : MembershipUpdate ν α) (next : GossipEngine ν α) :
    Prop where
  self : next.standing update.nodeId = some update.standing
  lt : ∀ s, e.standing update.nodeId = some s → s < update.standing
  others : ∀ id, id ≠ update.nodeId → next.standing id = e.standing id

theorem Wins.turn {update : MembershipUpdate ν α} {next : GossipEngine ν α} {a : Action ν α}
    (wins : e.Wins update next) (applies : e.AppliesUpdate update a) (id : ν) :
    Turn e id a (next.standing id) := by
  by_cases hid : id = update.nodeId
  · subst hid
    rw [wins.self]
    exact .applied a update rfl applies wins.lt
  · rw [wins.others id hid]
    exact .same a

theorem applyOneMembershipUpdate_cases (e : GossipEngine ν α) (update : MembershipUpdate ν α)
    (now : ℕ) :
    e.applyOneMembershipUpdate update now = (false, e) ∨
      (e.applyOneMembershipUpdate update now).1 = true ∧
        e.Wins update (e.applyOneMembershipUpdate update now).2 := by
  have hothers : ∀ id, id ≠ update.nodeId →
      (e.applyOneMembershipUpdate update now).2.standing id = e.standing id :=
    fun id hid => standing_congr (lookup_applyOneMembershipUpdate_of_ne hid)
  rw [applyOneMembershipUpdate] at hothers ⊢
  split at hothers
  · rename_i hpeer
    refine .inr ⟨rfl, standing_setPeer_self _ _ _, fun s hs => ?_, hothers⟩
    rw [standing, hpeer] at hs
    cases hs
  · rename_i peer hpeer
    split_ifs at hothers ⊢ with hwins
    · have hlt := Peer.standing_lt_iff.mpr hwins
      refine .inr ⟨rfl, ?_, fun s hs => ?_, hothers⟩
      · rw [standing_setPeer_self, Peer.standing_updated now hlt]
      · rw [standing_of_lookup hpeer] at hs
        cases hs
        exact hlt
    · exact .inl rfl

theorem act_update_cases (e : GossipEngine ν α) (update : MembershipUpdate ν α) (now : ℕ) :
    (∀ id, (e.act (.update update now)).standing id = e.standing id) ∧
        (e.applyOneMembershipUpdate update now).1 = false ∨
      (e.applyOneMembershipUpdate update now).1 = true ∧
        e.Wins update (e.act (.update update now)) := by
  have hstamp : ∀ id, (e.act (.update update now)).standing id =
      (e.applyOneMembershipUpdate update now).2.standing id := standing_stampIf _ _ _
  rcases applyOneMembershipUpdate_cases e update now with hsame | ⟨happlied, hwins⟩
  · refine .inl ⟨fun id => ?_, by rw [hsame]⟩
    rw [hstamp, hsame]
  · exact .inr ⟨happlied, (hstamp _).trans hwins.self, hwins.lt,
      fun id hid => (hstamp id).trans (hwins.others id hid)⟩

theorem act_event_cases (e : GossipEngine ν α) (event : StampedMembershipUpdate ν α) (now : ℕ) :
    (∀ id, (e.act (.event event now)).standing id = e.standing id) ∧
        (applyEvent now (0, e) event).1 = 0 ∨
      (applyEvent now (0, e) event).1 = 1 ∧ e.Wins event.update (e.act (.event event now)) := by
  rw [act, applyEvent]
  split_ifs with hseen
  · exact .inl ⟨fun _ => rfl, rfl⟩
  · dsimp only
    split_ifs with hstale
    · exact .inl ⟨fun _ => rfl, rfl⟩
    · -- the marks of the engine do not matter for the update
      rcases applyOneMembershipUpdate_cases ((e.markEvent event.eventId).setLatest
        event.update.nodeId event.timestamp) event.update now with hsame | ⟨happlied, hwins⟩
      · rw [hsame]
        exact .inl ⟨fun _ => rfl, rfl⟩
      · split
        · rename_i next hnext
          rw [hnext] at hwins
          have hstamp := standing_stampWith next event
          exact .inr ⟨rfl, (hstamp _).trans hwins.self, hwins.lt,
            fun id hid => (hstamp id).trans (hwins.others id hid)⟩
        · rename_i next hnext
          rw [hnext] at happlied
          cases happlied

theorem wins_of_appliesUpdate {update : MembershipUpdate ν α} {a : Action ν α}
    (h : e.AppliesUpdate update a) : e.Wins update (e.act a) := by
  cases a with
  | update u now =>
    obtain ⟨rfl, happlied⟩ := h
    rcases act_update_cases e u now with ⟨-, hfalse⟩ | ⟨-, hwins⟩
    · cases hfalse.symm.trans happlied
    · exact hwins
  | event event now =>
    obtain ⟨rfl, happlied⟩ := h
    rcases act_event_cases e event now with ⟨-, hzero⟩ | ⟨-, hwins⟩
    · cases hzero.symm.trans happlied
    · exact hwins
  | touch | ack | receive | remember | request | suspect | check | stamp | number | await
  | envelope => exact h.elim

theorem turn_update (e : GossipEngine ν α) (update : MembershipUpdate ν α) (now : ℕ) (id : ν) :
    Turn e id (.update update now) ((e.act (.update update now)).standing id) := by
  rcases act_update_cases e update now with ⟨hsame, -⟩ | ⟨happlied, hwins⟩
  · rw [hsame id]
    exact .same _
  · exact hwins.turn (a := .update update now) ⟨rfl, happlied⟩ id

theorem turn_event (e : GossipEngine ν α) (event : StampedMembershipUpdate ν α) (now : ℕ) (id : ν) :
    Turn e id (.event event now) ((e.act (.event event now)).standing id) := by
  rcases act_event_cases e event now with ⟨hsame, -⟩ | ⟨happlied, hwins⟩
  · rw [hsame id]
    exact .same _
  · exact hwins.turn (a := .event event now) ⟨rfl, happlied⟩ id

theorem turn_suspect (e : GossipEngine ν α) (request : UInt64 × ν) (now : ℕ) (id : ν) :
    Turn e id (.suspect request now) ((suspectTarget now (e, []) request).1.standing id) := by
  rw [suspectTarget]
  dsimp only
  split
  · exact .same _
  · rename_i peer hpeer
    obtain ⟨hlookup, halive⟩ := Option.filter_eq_some_iff.mp hpeer
    rw [standing_removePending, standing_stampIf]
    by_cases hid : id = request.2
    · subst hid
      rw [standing_setPeer_self]
      refine .suspected _ peer.state.incarnation ?_
      rw [standing_of_lookup hlookup, Peer.standing, of_decide_eq_true halive]
    · rw [standing_setPeer_of_ne hid]
      exact .same _

theorem turn_check (e : GossipEngine ν α) (other : ν) (now : ℕ) (id : ν) :
    Turn e id (.check other now) ((checkPeer now (e, []) other).1.standing id) := by
  rw [checkPeer]
  split
  · exact .same _
  · rename_i peer hpeer
    split
    · exact .same _
    · rename_i state hstate
      by_cases hid : id = other
      · subst hid
        have hold := standing_of_lookup hpeer
        rw [standing_setPeer_self]
        rw [timedOut] at hstate
        split at hstate
        · rename_i halive
          split_ifs at hstate
          cases hstate
          exact .suspected _ _ (by rw [hold, Peer.standing, halive])
        · rename_i hsuspect
          have hknown : e.standing id = some ⟨peer.state.incarnation, .suspect⟩ := by
            rw [hold, Peer.standing, hsuspect]
          split_ifs at hstate with hrecent hlong
          · cases hstate
            exact .recovered now _ hknown ⟨peer, hpeer, hrecent⟩
          · cases hstate
            exact .died now _ hknown
        · cases hstate
      · rw [standing_setPeer_of_ne hid]
        exact .same _

theorem turn_act (e : GossipEngine ν α) (a : Action ν α) (id : ν) :
    Turn e id a ((e.act a).standing id) := by
  cases a with
  | touch other addr now => exact turn_touch e other addr now id
  | ack other seq addr now => exact turn_ack e other seq addr now id
  | update update now => exact turn_update e update now id
  | event event now => exact turn_event e event now id
  | suspect request now => exact turn_suspect e request now id
  | check other now => exact turn_check e other now id
  | stamp other =>
    rw [act, standing_stampMembershipEvent]
    exact .same _
  | receive message => exact .same _
  | remember message => exact .same _
  | request request now => exact .same _
  | number => exact .same _
  | await target sentAt => exact .same _
  | envelope => exact .same _

end Turns

/-! ## Suspicion -/

def status (e : GossipEngine ν α) (id : ν) : Option Status := (e.standing id).map Standing.status

/-- A frame of the peer is handled, or an update that it is alive in a later incarnation. -/
def Evidence (e : GossipEngine ν α) (id : ν) : Action ν α → Prop
  | .touch other _ _ | .ack other _ _ _ => other = id
  | a => ∃ update, e.AppliesUpdate update a ∧ update.nodeId = id ∧ update.status = .alive ∧
    ∀ s, e.standing id = some s → s.incarnation < update.incarnation

def BecomesSuspect (e : GossipEngine ν α) (id : ν) (a : Action ν α) : Prop :=
  e.status id ≠ some .suspect ∧ (e.act a).status id = some .suspect

/-- A check of a suspect peer finds that it was not seen for a while. -/
def ChecksSilent (e : GossipEngine ν α) : Action ν α → Prop
  | .check id now => e.status id = some .suspect → ¬ e.Recent id now
  | _ => True

theorem status_touch (e : GossipEngine ν α) (id : ν) (addr : α) (now : ℕ) :
    (e.act (.touch id addr now)).status id = some .alive := by
  rw [act, touchPeer, status, standing_stampIf, standing_setPeer_self]
  rfl

theorem status_ack_ne (e : GossipEngine ν α) (id : ν) (seq : UInt64) (addr : α) (now : ℕ) :
    (e.act (.ack id seq addr now)).status id ≠ some .suspect := by
  rw [act, handleAck]
  split
  · rename_i peer hpeer
    split
    · rename_i hdead
      rw [status, standing_of_lookup hpeer, Option.map_some, Peer.standing, hdead]
      intro h
      cases h
    · rw [status, standing_removePending, standing_stampIf, standing_setPeer_self]
      simp [Peer.standing]
  · rw [status, standing_removePending]
    have halive : (e.touchPeer id addr .alive now).status id = some .alive :=
      status_touch e id addr now
    rw [← status, halive]
    decide

variable {e : GossipEngine ν α} {id : ν}

theorem Evidence.not_suspect {a : Action ν α} (h : e.Evidence id a) :
    (e.act a).status id ≠ some .suspect := by
  have hupdate : (∃ update, e.AppliesUpdate update a ∧ update.nodeId = id ∧ update.status = .alive ∧
      ∀ s, e.standing id = some s → s.incarnation < update.incarnation) →
      (e.act a).status id ≠ some .suspect := by
    rintro ⟨update, happlies, rfl, halive, -⟩
    rw [status, (wins_of_appliesUpdate happlies).self, Option.map_some, MembershipUpdate.standing,
      halive]
    exact nofun
  cases a with
  | touch other addr now =>
    obtain rfl : other = id := h
    rw [status_touch]
    decide
  | ack other seq addr now =>
    obtain rfl : other = id := h
    exact status_ack_ne e other seq addr now
  | update | event | receive | remember | request | suspect | check | stamp | number | await
  | envelope => exact hupdate h

theorem evidence_or_recent {a : Action ν α} (hsuspect : e.status id = some .suspect)
    (halive : (e.act a).status id = some .alive) :
    e.Evidence id a ∨ ∃ now, a = .check id now ∧ e.Recent id now := by
  obtain ⟨⟨incarnation, status⟩, hold, hstatus⟩ := Option.map_eq_some_iff.mp hsuspect
  obtain rfl : status = .suspect := hstatus
  have hturn := turn_act e a id
  obtain ⟨⟨incarnation', status'⟩, hnew, hstatus'⟩ := Option.map_eq_some_iff.mp halive
  obtain rfl : status' = .alive := hstatus'
  rw [hnew] at hturn
  generalize hresult : some (⟨incarnation', .alive⟩ : Standing) = result at hturn
  -- of what may have happened to the peer, only some ends with it alive
  cases hturn with
  | same => cases hresult.trans hold
  | touched addr now => exact .inl rfl
  | acked seq addr now => exact .inl rfl
  | applied a update about applies lt =>
    have hevidence : ∃ update, e.AppliesUpdate update a ∧ update.nodeId = id ∧
        update.status = .alive ∧ ∀ s, e.standing id = some s →
          s.incarnation < update.incarnation := by
      refine ⟨update, applies, about, ?_, fun s hs => ?_⟩
      · have hstanding := Option.some.inj hresult
        exact (congrArg Standing.status hstanding).symm
      · cases hold.symm.trans hs
        rcases Standing.lt_iff.mp (lt _ hold) with hlt | ⟨-, hrank⟩
        · exact hlt
        · -- in the same incarnation alive does not win against suspect
          rw [← Option.some.inj hresult] at hrank
          cases hrank
    cases a with
    | touch | ack => exact applies.elim
    | update | event | receive | remember | request | suspect | check | stamp | number | await
    | envelope => exact .inl hevidence
  | suspected a incarnation known => cases hresult
  | recovered now incarnation known recent => exact .inr ⟨now, rfl, recent⟩
  | died now incarnation known => cases hresult

theorem status_check_of_recent {now : ℕ} (hsuspect : e.status id = some .suspect)
    (recent : e.Recent id now) : (e.act (.check id now)).status id = some .alive := by
  obtain ⟨peer, hpeer, hlt⟩ := recent
  rw [status, standing_of_lookup hpeer, Option.map_some, Option.some_inj] at hsuspect
  have hstatus : peer.state.status = .suspect := hsuspect
  have htimed : timedOut e.config now peer.state =
      some { peer.state with status := .alive, suspectSince := none } := by
    rw [timedOut, hstatus]
    exact if_pos hlt
  have hcheck : e.act (.check id now) = e.setPeer id { peer with state :=
      { peer.state with status := .alive, suspectSince := none } } := by
    rw [act, checkPeer, hpeer]
    dsimp only
    rw [htimed]
  rw [hcheck, status, standing_setPeer_self]
  rfl

end GossipEngine

open GossipEngine in
/-- A suspect peer is taken for alive only by evidence, exactly if every check of a suspect peer
finds that it was not seen for a while. -/
theorem suspicion_lifted_by_evidence_iff (e : GossipEngine ν α) (events : List (EngineEvent ν α)) :
    (∀ before a after id, e.traceOf events = before ++ a :: after →
      (before.foldl act e).status id = some .suspect →
      ((before.foldl act e).act a).status id = some .alive →
        ∃ earlier evidence later, before ++ [a] = earlier ++ evidence :: later ∧
          (earlier.foldl act e).Evidence id evidence ∧
          Throughout act (fun e b => ¬ e.BecomesSuspect id b)
            ((earlier.foldl act e).act evidence) later) ↔
      Throughout act ChecksSilent e (e.traceOf events) := by
  constructor
  · intro lifted
    refine throughout_iff.mpr fun before a after hsplit => ?_
    cases a with
    | check id now =>
      intro hsuspect hrecent
      obtain ⟨earlier, evidence, later, hbefore, hevidence, hthroughout⟩ := lifted before _ after id
        hsplit hsuspect (status_check_of_recent hsuspect hrecent)
      rcases List.eq_nil_or_concat later with rfl | ⟨rest, last, rfl⟩
      · -- the check itself is not evidence
        obtain ⟨rfl, hcheck⟩ := List.append_inj' hbefore rfl
        obtain rfl := List.singleton_inj.mp hcheck
        obtain ⟨update, happlies, -⟩ := hevidence
        exact happlies
      · -- after the evidence the peer is not suspect, and does not become so
        rw [List.concat_eq_append] at hbefore hthroughout
        have hconcat :
            before ++ [Action.check id now] = (earlier ++ evidence :: rest) ++ [last] := by
          rw [hbefore, List.append_assoc, List.cons_append]
        obtain ⟨rfl, -⟩ := List.append_inj' hconcat rfl
        have hrest := (throughout_append.mp hthroughout).1
        have hnot : (rest.foldl act ((earlier.foldl act e).act evidence)).status id ≠
            some .suspect := by
          refine foldl_invariant (I := fun e => e.status id ≠ some .suspect)
            (fun e b hne hstays => ?_) hevidence.not_suspect hrest
          exact fun hbecomes => hstays ⟨hne, hbecomes⟩
        rw [List.foldl_append, List.foldl_cons] at hsuspect
        exact hnot hsuspect
    | touch | ack | update | receive | remember | event | request | suspect | stamp | number | await
    | envelope => trivial
  · intro silent before a after id hsplit hsuspect halive
    rcases evidence_or_recent hsuspect halive with hevidence | ⟨now, rfl, hrecent⟩
    · exact ⟨before, a, [], rfl, hevidence, trivial⟩
    · exact absurd hrecent (throughout_iff.mp silent before _ after hsplit hsuspect)

/-- An engine hears that a peer is suspect. Its next check takes the peer for alive, although
there was no evidence. -/
theorem gossiped_suspicion_lifted_by_check :
    let e : GossipEngine ℕ Unit :=
      .new 0 ⟨5, 5, 5, some 0, false⟩ (viewOf [1]) (.withClock 0 fun _ => 0) 0
    let suspicion : Action ℕ Unit := .update ⟨1, 1, (), .suspect⟩ 3
    e.traceOf
      [.frame 2 (.gossip [⟨1, 1, (), .suspect⟩]) () 3, .tick ⟨4, [1], [], fun _ => [], []⟩] =
        [suspicion, .check 1 4] ∧
      e.status 1 = some .alive ∧ (e.act suspicion).status 1 = some .suspect ∧
      ((e.act suspicion).act (.check 1 4)).status 1 = some .alive ∧
      ¬ e.Evidence 1 suspicion ∧ ¬ (e.act suspicion).Evidence 1 (.check 1 4) := by
  refine ⟨rfl, rfl, rfl, rfl, ?_, ?_⟩
  · rintro ⟨update, ⟨rfl, -⟩, -, halive, -⟩
    cases halive
  · rintro ⟨update, happlies, -⟩
    exact happlies

/-! ## Death -/

namespace GossipEngine

/-- No `Ping` or `PingReq` of a dead peer is handled. -/
def TouchesNoDead (e : GossipEngine ν α) : Action ν α → Prop
  | .touch id _ _ => e.status id ≠ some .dead
  | _ => True

theorem dead_of_throughout {e : GossipEngine ν α} {id : ν} {i : UInt64}
    {actions : List (Action ν α)}
    (hdead : e.standing id = some ⟨i, .dead⟩) (untouched : Throughout act TouchesNoDead e actions) :
    (actions.foldl act e).standing id = some ⟨i, .dead⟩ ∨
      ∃ earlier a later update, actions = earlier ++ a :: later ∧
        (earlier.foldl act e).AppliesUpdate update a ∧ update.nodeId = id ∧
        i < update.incarnation := by
  induction actions generalizing e with
  | nil => exact .inl hdead
  | cons a rest ih =>
    obtain ⟨hfirst, hrest⟩ := throughout_cons.mp untouched
    have hturn := turn_act e a id
    generalize hnew : (e.act a).standing id = result at hturn
    cases hturn with
    | same =>
      rcases ih (hnew.trans hdead) hrest with hkept | ⟨earlier, b, later, update, rfl, happlies⟩
      · exact .inl hkept
      · exact .inr ⟨a :: earlier, b, later, update, rfl, happlies⟩
    | touched addr now incarnation known =>
      exact absurd (by rw [status, hdead]; rfl) hfirst
    | acked seq addr now incarnation known =>
      -- `handle_ack` looks at the status
      exact absurd rfl (known _ hdead).2
    | applied a update about applies lt =>
      refine .inr ⟨[], a, rest, update, rfl, applies, about, ?_⟩
      -- in the same incarnation nothing wins against dead
      rcases Standing.lt_iff.mp (lt _ hdead) with hlt | ⟨-, hrank⟩
      · exact hlt
      · exact absurd hrank (Nat.not_lt.mpr (Status.rank_le_dead update.status))
    | suspected a incarnation known => cases hdead.symm.trans known
    | recovered now incarnation known recent => cases hdead.symm.trans known
    | died now incarnation known => cases hdead.symm.trans known

end GossipEngine

open GossipEngine in
/-- A dead peer stays dead until an update of a later incarnation, exactly if no `Ping` or `PingReq`
of a dead peer is handled. -/
theorem dead_until_later_incarnation_iff (e : GossipEngine ν α) (events : List (EngineEvent ν α)) :
    (∀ before middle after id i, e.traceOf events = before ++ (middle ++ after) →
      (before.foldl act e).standing id = some ⟨i, .dead⟩ →
        (middle.foldl act (before.foldl act e)).status id = some .dead ∨
          ∃ earlier a later update, middle = earlier ++ a :: later ∧
            (earlier.foldl act (before.foldl act e)).AppliesUpdate update a ∧
            update.nodeId = id ∧ i < update.incarnation) ↔
      Throughout act TouchesNoDead e (e.traceOf events) := by
  constructor
  · intro terminal
    refine throughout_iff.mpr fun before a after hsplit => ?_
    cases a with
    | touch id addr now =>
      intro hdead
      obtain ⟨⟨i, status⟩, hstanding, hstatus⟩ := Option.map_eq_some_iff.mp hdead
      obtain rfl : status = .dead := hstatus
      rcases terminal before [.touch id addr now] after id i hsplit hstanding with
        hstays | ⟨earlier, a, later, update, hmiddle, happlies, -⟩
      · rw [List.foldl_cons, List.foldl_nil, status_touch] at hstays
        cases hstays
      · cases earlier with
        | nil =>
          cases hmiddle
          exact happlies
        | cons b rest =>
          have hnil := (List.cons.inj hmiddle).2.symm
          exact List.append_ne_nil_of_right_ne_nil rest (List.cons_ne_nil a later) hnil
    | ack | update | receive | remember | event | request | suspect | check | stamp | number | await
    | envelope => trivial
  · intro untouched before middle after id i hsplit hdead
    rw [hsplit, throughout_append, throughout_append] at untouched
    rcases dead_of_throughout hdead untouched.2.1 with hkept | hlater
    · exact .inl (by rw [status, hkept]; rfl)
    · exact .inr hlater

/-- A peer is silent until it is dead, and a `Ping` of it brings it back in the same
incarnation. -/
theorem ping_revives_dead_peer :
    let e : GossipEngine ℕ Unit :=
      .new 0 ⟨5, 5, 5, some 0, false⟩ (viewOf [1]) (.withClock 0 fun _ => 0) 0
    let tick (now : ℕ) : EngineEvent ℕ Unit := .tick ⟨now, [1], [], fun _ => [], []⟩
    e.traceOf [tick 10, tick 20, .frame 1 (.ping 7 1) () 21] =
        [.check 1 10, .check 1 20, .touch 1 () 21] ∧
      ((e.act (.check 1 10)).act (.check 1 20)).standing 1 = some ⟨0, .dead⟩ ∧
      (((e.act (.check 1 10)).act (.check 1 20)).act (.touch 1 () 21)).standing 1 =
        some ⟨0, .alive⟩ := by
  refine ⟨rfl, rfl, rfl⟩

/-! ## Incarnations -/

namespace GossipEngine

/-- The peer is in the view, in this incarnation or a later one. -/
def KnownFrom (e : GossipEngine ν α) (id : ν) (i : UInt64) : Prop :=
  ∃ s ∈ e.standing id, i ≤ s.incarnation

variable {e : GossipEngine ν α} {id : ν} {i : UInt64}

theorem KnownFrom.act (h : e.KnownFrom id i) (a : Action ν α) : (e.act a).KnownFrom id i := by
  obtain ⟨s, hs, hle⟩ := h
  have hturn := turn_act e a id
  rw [KnownFrom]
  generalize (e.act a).standing id = result at hturn
  cases hturn with
  | same => exact ⟨s, hs, hle⟩
  | touched addr now incarnation known => exact ⟨_, rfl, known s hs ▸ hle⟩
  | acked seq addr now incarnation known => exact ⟨_, rfl, (known s hs).1 ▸ hle⟩
  | applied a update about applies lt =>
    refine ⟨_, rfl, ?_⟩
    rcases Standing.lt_iff.mp (lt s hs) with hlt | ⟨heq, -⟩
    · exact UInt64.le_of_lt (UInt64.lt_of_le_of_lt hle hlt)
    · exact heq ▸ hle
  | suspected a incarnation known | recovered now incarnation known | died now incarnation known =>
    cases Option.some.inj (hs.symm.trans known)
    exact ⟨_, rfl, hle⟩

theorem KnownFrom.foldl (h : e.KnownFrom id i) (actions : List (Action ν α)) :
    (actions.foldl GossipEngine.act e).KnownFrom id i :=
  List.foldlRecOn (motive := (KnownFrom · id i)) actions _ h fun _ h a _ => h.act a

end GossipEngine

open GossipEngine

theorem Mesh.knownFrom_step {x next : Mesh ν α} {event : MeshEvent ν α} {a id : ν} {i : UInt64}
    (h : ∃ e ∈ x.engines a, e.KnownFrom id i) (hstep : x.step event = some next)
    (stays : ∀ config membership hlc, event ≠ .start a config membership hlc) :
    ∃ e ∈ next.engines a, e.KnownFrom id i := by
  obtain ⟨e, he, hfrom⟩ := h
  -- a step puts one engine in place of another
  have moved {b e' changes frames} (h : a = b → e'.KnownFrom id i) :
      ∃ e ∈ (x.advance b e' changes frames).engines a, e.KnownFrom id i := by
    by_cases hb : a = b
    · exact ⟨e', hb ▸ engines_advance_self, h hb⟩
    · exact ⟨e, (engines_advance_of_ne hb).trans he, hfrom⟩
  cases acts_of_step hstep with
  | start b => exact moved fun h => (stays _ _ _ (by rw [h])).elim
  | tick engine ticks =>
    refine moved fun h => ?_
    cases engine.symm.trans (h ▸ he)
    exact (tick_eq ticks).1 ▸ KnownFrom.foldl hfrom _
  | deliver sent engine =>
    refine moved fun h => ?_
    cases engine.symm.trans (h ▸ he)
    exact handleFrame_eq_foldl e .. ▸ KnownFrom.foldl hfrom _

/-- Unless it restarts, a node forgets no peer, and the incarnation that it has for one never goes
back, whatever the network does. -/
theorem incarnations_never_go_back {x y : Mesh ν α} {events : List (MeshEvent ν α)} {a id : ν}
    {e : GossipEngine ν α} {s : Standing} (engine : x.engines a = some e)
    (known : e.standing id = some s) (reach : run Mesh.step x events = some y)
    (stays : ∀ config membership hlc, .start a config membership hlc ∉ events) :
    ∃ e' s', y.engines a = some e' ∧ e'.standing id = some s' ∧ s.incarnation ≤ s'.incarnation := by
  obtain ⟨e', he', s', hs'⟩ := run_invariant_of_along (G := fun _ event => event ∈ events)
    (fun _ _ _ h mem hstep => Mesh.knownFrom_step h hstep fun _ _ _ heq =>
      stays _ _ _ (heq ▸ mem)) ⟨e, engine, s, known, UInt64.le_refl _⟩
    (along_of_forall fun _ _ h => h) reach
  exact ⟨e', s', he', hs'⟩

/-- A death in an earlier incarnation is heard of late. -/
theorem incarnations_never_go_back_rejoin :
    let start : GossipEngine ℕ Unit :=
      .new 0 ⟨5, 5, 5, some 0, false⟩ (viewOf [1]) (.withClock 0 fun _ => 0) 0
    let e := start.act (.update ⟨1, 5, (), .alive⟩ 1)
    let x : Mesh ℕ Unit := ⟨fun _ => some e, [⟨2, 0, .gossip [⟨1, 3, (), .dead⟩]⟩], []⟩
    ∃ y e' s', run Mesh.step x [.deliver 0 () 2] = some y ∧ y.engines 0 = some e' ∧
      e'.standing 1 = some s' ∧ 5 ≤ s'.incarnation := by
  intro start e x
  have known : e.standing 1 = some ⟨5, .alive⟩ := rfl
  obtain ⟨y, reach⟩ : ∃ y, run Mesh.step x [.deliver 0 () 2] = some y := ⟨_, rfl⟩
  obtain ⟨e', s', h⟩ := incarnations_never_go_back rfl known reach (by simp)
  exact ⟨y, e', s', reach, h⟩

end Chirps.Gossip
