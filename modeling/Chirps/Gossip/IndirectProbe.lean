/-
# The way back of an indirect probe

A helper pings the target in the name of the requester, but the target acks to the sender of the
frame, the helper. The probe of the requester stays open, and its target is suspected.
-/

import Chirps.Gossip.Probes

namespace Chirps.Gossip

open Chirps.Library

variable {ν α : Type*} [DecidableEq ν]

namespace GossipEngine

def TakesForDead (e : GossipEngine ν α) (id : ν) : Prop :=
  ∃ peer ∈ e.peers.lookup id, peer.state.status = .dead

instance (e : GossipEngine ν α) (id : ν) : Decidable (e.TakesForDead id) :=
  Option.decidableExistsMem _

theorem lookup_handleAck_self {e : GossipEngine ν α} {sender : ν} {seq : UInt64} {addr : α}
    {now : ℕ} : (e.handleAck sender seq addr now).pending.lookup seq = none ↔
      e.pending.lookup seq = none ∨ ¬ e.TakesForDead sender := by
  have herase : ∀ e : GossipEngine ν α, (e.removePending seq).pending.lookup seq = none :=
    fun e => AList.lookup_erase _ _
  unfold handleAck TakesForDead
  cases hpeer : e.peers.lookup sender with
  | none => simp [herase]
  | some peer =>
    by_cases hdead : peer.state.status = .dead
    · simp [hdead]
    · simp [hdead, herase]

omit [DecidableEq ν] in
theorem notMem_abandoned {e : GossipEngine ν α} {seq : UInt64}
    (h : e.pending.lookup seq = none) (now : ℕ) (order : List UInt64) (target : ν) :
    (seq, target) ∉ e.pendingWith (Abandoned e.config now) order := by
  intro hmem
  obtain ⟨other, -, hother⟩ := List.mem_filterMap.mp hmem
  obtain ⟨pending, hpending, heq⟩ := Option.map_eq_some_iff.mp hother
  cases heq
  rw [h] at hpending
  cases hpending

end GossipEngine

namespace Mesh

open GossipEngine

variable {x next : Mesh ν α}

theorem network_of_step {event : MeshEvent ν α} (h : x.step event = some next) :
    x.network <+: next.network := by
  cases acts_of_step h with
  | start _ _ _ _ => exact List.prefix_append _ _
  | tick _ _ => exact List.prefix_append _ _
  | deliver _ _ => exact List.prefix_append _ _

variable {i : ℕ}

theorem getElem?_network_of_run {events : List (MeshEvent ν α)} {packet : Packet ν α}
    (h : x.network[i]? = some packet) (reach : run step x events = some next) :
    next.network[i]? = some packet := by
  obtain ⟨later, hlater⟩ : x.network <+: next.network :=
    run_invariant (I := fun y => x.network <+: y.network)
      (fun _ _ _ hgrows hstep => hgrows.trans (network_of_step hstep))
      (List.prefix_refl _) reach
  rw [← hlater, List.getElem?_append_left (List.getElem?_eq_some_iff.mp h).1, h]

theorem getElem?_network_advance (x : Mesh ν α) (a : ν) (e : GossipEngine ν α)
    (changes : List (StatusChange ν)) (sent : ν × Frame ν α) (frames : List (ν × Frame ν α)) :
    (x.advance a e changes (sent :: frames)).network[x.network.length]? =
      some ⟨a, sent.1, sent.2⟩ := by
  simp [advance]

variable {addr : α} {now : ℕ}

theorem eq_of_deliver {packet : Packet ν α} (hpacket : x.network[i]? = some packet)
    (h : x.step (.deliver i addr now) = some next) :
    ∃ e, x.engines packet.target = some e ∧
      next = x.advance packet.target (e.handleFrame packet.sender packet.frame addr now).1 []
        (e.handleFrame packet.sender packet.frame addr now).2 := by
  cases acts_of_step h with
  | deliver hsent hengine =>
    cases hpacket.symm.trans hsent
    exact ⟨_, hengine, rfl⟩

variable {target : ν} {seq : UInt64}

theorem forwards {requester helper : ν}
    (hpacket : x.network[i]? = some ⟨requester, helper, .pingReq seq requester target⟩)
    (h : x.step (.deliver i addr now) = some next) :
    next.network[x.network.length]? = some ⟨helper, target, .ping seq requester⟩ := by
  obtain ⟨e, -, rfl⟩ := eq_of_deliver hpacket h
  exact getElem?_network_advance ..

theorem answers {sender source : ν}
    (hpacket : x.network[i]? = some ⟨sender, target, .ping seq source⟩)
    (h : x.step (.deliver i addr now) = some next) :
    ∃ name, next.network[x.network.length]? = some ⟨target, sender, .ack seq name⟩ := by
  obtain ⟨e, -, rfl⟩ := eq_of_deliver hpacket h
  exact ⟨e.nodeId, getElem?_network_advance ..⟩

theorem closes_iff {a receiver name : ν}
    (hpacket : x.network[i]? = some ⟨target, receiver, .ack seq name⟩)
    (h : x.step (.deliver i addr now) = some next) {e : GossipEngine ν α}
    (hengine : x.engines a = some e) : ∃ e', next.engines a = some e' ∧
      (e'.pending.lookup seq = none ↔
        e.pending.lookup seq = none ∨ receiver = a ∧ ¬ e.TakesForDead target) := by
  obtain ⟨e₀, he₀, rfl⟩ := eq_of_deliver hpacket h
  by_cases ha : receiver = a
  · subst ha
    cases hengine.symm.trans he₀
    refine ⟨_, engines_advance_self, ?_⟩
    simpa [handleFrame] using lookup_handleAck_self
  · refine ⟨e, (engines_advance_of_ne (Ne.symm ha)).trans hengine, ?_⟩
    simp [ha]

end Mesh

open Mesh GossipEngine in
/-- When the request, the forwarded ping and the ack arrive, the probe is closed exactly when the
helper is the requester itself and does not take the target for dead, unless it was closed before.
-/
theorem indirect_probe_closes_iff {mid after : List (MeshEvent ν α)}
    {requester helper target : ν} {seq : UInt64} {i : ℕ} {addr₁ addr₂ addr₃ : α}
    {now₁ now₂ now₃ : ℕ} {x₁ x₂ x₃ x : Mesh ν α}
    (request : x₁.network[i]? = some ⟨requester, helper, .pingReq seq requester target⟩)
    (requested : run step x₁ (.deliver i addr₁ now₁ :: mid) = some x₂)
    (pinged : run step x₂ (.deliver x₁.network.length addr₂ now₂ :: after) = some x₃)
    (acked : x₃.step (.deliver x₂.network.length addr₃ now₃) = some x)
    {e : GossipEngine ν α} (engine : x₃.engines requester = some e) :
    ∃ e', x.engines requester = some e' ∧
      (e'.pending.lookup seq = none ↔
        e.pending.lookup seq = none ∨ helper = requester ∧ ¬ e.TakesForDead target) ∧
      (e'.pending.lookup seq = none → ∀ now order id,
        (seq, id) ∉ e'.pendingWith (Abandoned e'.config now) order) := by
  obtain ⟨y₁, hforward, hmid⟩ := run_cons_eq_some.mp requested
  obtain ⟨y₂, hanswer, hafter⟩ := run_cons_eq_some.mp pinged
  have hping := getElem?_network_of_run (forwards request hforward) hmid
  obtain ⟨name, hack⟩ := answers hping hanswer
  obtain ⟨e', he', hiff⟩ := closes_iff (getElem?_network_of_run hack hafter) acked engine
  exact ⟨e', he', hiff, notMem_abandoned⟩

def askedHelper (peers : List ℕ) (target helper : ℕ) : List (MeshEvent ℕ Unit) :=
  let start (a : ℕ) (peers : List ℕ) : MeshEvent ℕ Unit :=
    .start a ⟨1, 5, 5, some 1, false⟩ (viewOf peers) (.withClock 0 fun _ => 0)
  [start 0 peers, start 1 [], start 2 [], plainTick 0 1 peers [] (fun _ => []) [target],
    plainTick 0 2 peers [1] (fun _ => [helper]) [target]]

/-- Node 0 asks node 1 to probe node 2. The only ack arrives at node 1, and node 0 suspects node 2.
-/
theorem indirect_probe_stays_open :
    ∃ x, run Mesh.step Mesh.initial
        (askedHelper [1, 2] 2 1 ++ [MeshEvent.deliver 2 () 3, .deliver 3 () 4, .deliver 4 () 5]) =
          some x ∧
      x.network.drop 2 =
        [⟨0, 1, .pingReq 1 0 2⟩, ⟨1, 2, .ping 1 0⟩, ⟨2, 1, .ack 1 2⟩] ∧
      ∃ e, x.engines 0 = some e ∧ e.pending.lookup 1 = some ⟨2, .indirect 2⟩ ∧
        (e.processPending 7 [1] fun _ => []).2.1 = [⟨2, .alive, .suspect, 0⟩] := by
  decide

/-- A node that is in its own view asks itself, and its probe is closed. -/
theorem indirect_probe_closes_own_helper :
    ∃ x₁ x e, run Mesh.step Mesh.initial (askedHelper [0, 1] 1 0) = some x₁ ∧
      run Mesh.step x₁ [.deliver 2 () 3, .deliver 3 () 4, .deliver 4 () 5] = some x ∧
        x.engines 0 = some e ∧ e.pending.lookup 1 = none := by
  have hrun : (run Mesh.step Mesh.initial (askedHelper [0, 1] 1 0)).any fun x₁ =>
      decide (x₁.network[2]? = some ⟨0, 0, .pingReq 1 0 1⟩) && decide (x₁.network.length = 3) &&
        (x₁.step (.deliver 2 () 3)).any fun x₂ => decide (x₂.network.length = 4) &&
          (x₂.step (.deliver 3 () 4)).any fun x₃ => (x₃.step (.deliver 4 () 5)).isSome &&
            (x₃.engines 0).any fun e => decide (¬ e.TakesForDead 1) := by
    decide
  simp only [Bool.and_eq_true, decide_eq_true_eq, Option.any_eq_true,
    Option.isSome_iff_exists] at hrun
  obtain ⟨x₁, hx₁, ⟨hrequest, hlength⟩, x₂, hx₂, hlength', x₃, hx₃, ⟨x, hx⟩, e, he, halive⟩ := hrun
  obtain ⟨e', he', hiff, -⟩ := indirect_probe_closes_iff hrequest
    (run_cons_eq_some.mpr ⟨x₂, hx₂, run_nil x₂⟩)
    (run_cons_eq_some.mpr ⟨x₃, hlength ▸ hx₃, run_nil x₃⟩) (hlength' ▸ hx) he
  refine ⟨x₁, x, e', hx₁, ?_, he', hiff.mpr (.inr ⟨rfl, halive⟩)⟩
  exact run_cons_eq_some.mpr ⟨x₂, hx₂, run_cons_eq_some.mpr ⟨x₃, hx₃,
    run_cons_eq_some.mpr ⟨x, hx, rfl⟩⟩⟩

end Chirps.Gossip
