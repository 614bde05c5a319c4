/-
# Which ack clears which probe

An ack clears the probe with its number, whoever sent it. A node that probes for another one uses
the number of the requester, so the ack may clear a probe of its own.
-/

import Chirps.Gossip.Mesh

namespace Chirps.Gossip

open Chirps.Library

variable {ν α : Type*}

namespace GossipEngine

variable [DecidableEq ν]

theorem pending_stampMembershipEvent (e : GossipEngine ν α) (id : ν) :
    (e.stampMembershipEvent id).pending = e.pending := by
  unfold stampMembershipEvent
  split <;> rfl

theorem pending_stampIf (e : GossipEngine ν α) (changed : Bool) (id : ν) :
    (e.stampIf changed id).pending = e.pending := by
  unfold stampIf
  split
  · exact pending_stampMembershipEvent e id
  · rfl

theorem lookup_handleAck_of_ne {e : GossipEngine ν α} {sender : ν} {seq n : UInt64} {addr : α}
    {now : ℕ} (h : n ≠ seq) :
    (e.handleAck sender seq addr now).pending.lookup n = e.pending.lookup n := by
  unfold handleAck
  split
  · split
    · rfl
    · refine (AList.lookup_erase_ne h).trans ?_
      rw [pending_stampIf]
      rfl
  · refine (AList.lookup_erase_ne h).trans ?_
    rw [touchPeer, pending_stampIf]
    rfl

end GossipEngine

def Packet.probe (packet : Packet ν α) : Option (ν × UInt64) :=
  match packet.frame with
  | .ping seq _ => some (packet.sender, seq)
  | _ => none

namespace Mesh

open GossipEngine

/-- No node has sent pings with the same number to two nodes. -/
def PingsApart (x : Mesh ν α) : Prop :=
  ∀ p ∈ x.network, ∀ q ∈ x.network, p.probe.isSome → p.probe = q.probe → p.target = q.target

instance [DecidableEq ν] (x : Mesh ν α) : Decidable x.PingsApart :=
  inferInstanceAs (Decidable (∀ p ∈ x.network, ∀ q ∈ x.network, _ → _ → _))

def Pinged (x : Mesh ν α) (a : ν) (seq : UInt64) (target : ν) : Prop :=
  ∃ source, ⟨a, target, .ping seq source⟩ ∈ x.network

variable {x : Mesh ν α}

theorem PingsApart.eq (h : x.PingsApart) {a target target' : ν} {seq : UInt64}
    (hping : x.Pinged a seq target) (hping' : x.Pinged a seq target') : target = target' := by
  obtain ⟨source, hp⟩ := hping
  obtain ⟨source', hq⟩ := hping'
  exact h _ hp _ hq rfl rfl

variable [DecidableEq ν]

structure ProbesInv (x : Mesh ν α) : Prop where
  pending : ∀ a e, x.engines a = some e → ∀ seq, ∀ p ∈ e.pending.lookup seq, x.Pinged a seq p.target
  acks : ∀ packet ∈ x.network, ∀ seq source, packet.frame = .ack seq source →
    x.Pinged packet.target seq packet.sender

omit [DecidableEq ν] in
theorem probesInv_initial : (initial : Mesh ν α).ProbesInv :=
  ⟨nofun, nofun⟩

theorem ProbesInv.advance (inv : x.ProbesInv) {a : ν} {e : GossipEngine ν α}
    {changes : List (StatusChange ν)} {frames : List (ν × Frame ν α)}
    (hpending : ∀ seq, ∀ p ∈ e.pending.lookup seq,
      (∃ source, (p.target, .ping seq source) ∈ frames) ∨ x.Pinged a seq p.target)
    (hacks : ∀ target seq source, (target, .ack seq source) ∈ frames → x.Pinged target seq a) :
    (x.advance a e changes frames).ProbesInv := by
  have hmono : ∀ {b seq target}, x.Pinged b seq target →
      (x.advance a e changes frames).Pinged b seq target := by
    rintro b seq target ⟨source, hping⟩
    exact ⟨source, mem_network_advance.mpr (.inl hping)⟩
  constructor
  · refine forall_engines_advance (p := fun b e => ∀ seq, ∀ p ∈ e.pending.lookup seq,
      (x.advance a _ changes frames).Pinged b seq p.target) (fun seq p hp => ?_)
      fun b e' _ hengine seq p hp => hmono (inv.pending b e' hengine seq p hp)
    rcases hpending seq p hp with ⟨source, hsent⟩ | hold
    · exact ⟨source, mem_network_advance.mpr (.inr ⟨_, hsent, rfl⟩)⟩
    · exact hmono hold
  · intro packet hpacket seq source hack
    rcases mem_network_advance.mp hpacket with hold | ⟨⟨target, frame⟩, hsent, rfl⟩
    · exact hmono (inv.acks packet hold seq source hack)
    · obtain rfl : frame = .ack seq source := hack
      exact hmono (hacks target seq source hsent)

theorem ProbesInv.step {next : Mesh ν α} {event : MeshEvent ν α} (inv : x.ProbesInv)
    (h : x.step event = some next) : next.ProbesInv := by
  cases acts_of_step h with
  | start a config membership hlc =>
    exact inv.advance nofun nofun
  | tick engine ticks =>
    rename_i a input e e' changes frames
    have hsends := (sends_tick ticks).1
    refine inv.advance (fun seq p hp => ?_) fun target seq source hsent => ?_
    · refine (hsends.evolves.pending seq p hp).imp_right ?_
      rintro ⟨old, hold, htarget⟩
      exact htarget ▸ inv.pending a e engine seq old hold
    · exact (hsends.emits _ hsent).2.elim
  | deliver sent engine =>
    rename_i i addr now packet e
    have hevolves := e.evolves_handleFrame packet.sender packet.frame addr now
    refine inv.advance (fun seq p hp => .inr ?_) fun target seq source hsent => ?_
    · obtain ⟨old, hold, htarget⟩ :=
        (hevolves.pending seq p hp).resolve_left (Set.notMem_empty _)
      exact htarget ▸ inv.pending packet.target e engine seq old hold
    · -- the ack goes to the node that the ping came from
      rcases mem_handleFrame hsent with ⟨n, pinger, hframe, hreply⟩ | ⟨n, r, t, -, hreply⟩
      · obtain ⟨rfl, hack⟩ := Prod.mk.inj hreply
        obtain ⟨rfl, -⟩ := Frame.ack.inj hack
        exact ⟨pinger, hframe ▸ List.mem_of_getElem? sent⟩
      · cases hreply

/-- An ack leaves the probes of other nodes than its sender. -/
def ClearsOwn (x : Mesh ν α) : MeshEvent ν α → Prop
  | .deliver i addr now => ∀ packet ∈ x.network[i]?, ∀ e ∈ x.engines packet.target,
    ∀ seq source, packet.frame = .ack seq source → ∀ n, ∀ p ∈ e.pending.lookup n,
      p.target ≠ packet.sender → (e.handleAck packet.sender seq addr now).pending.lookup n = some p
  | _ => True

theorem ProbesInv.clearsOwn (inv : x.ProbesInv) (apart : x.PingsApart) (event : MeshEvent ν α) :
    x.ClearsOwn event := by
  cases event with
  | start a config membership hlc => trivial
  | tick a input => trivial
  | deliver i addr now =>
    intro packet hsent e hengine seq source hack n p hp hne
    by_cases hn : n = seq
    · subst hn
      have hprobe := inv.pending packet.target e hengine n p hp
      have hanswered := inv.acks packet (List.mem_of_getElem? hsent) n source hack
      exact absurd (apart.eq hprobe hanswered) hne
    · rw [lookup_handleAck_of_ne hn]
      exact hp

end Mesh

open Mesh in
/-- As long as no node has sent pings with one number to two nodes, an ack clears only a
probe of the node that sent the ack. -/
theorem acks_clear_own_probe [DecidableEq ν] (events : List (MeshEvent ν α))
    (apart : Along step (fun x _ => x.PingsApart) initial events) :
    Along step ClearsOwn (initial : Mesh ν α) events :=
  Along.of_invariant (I := ProbesInv) (fun _ _ _ inv _ h => inv.step h)
    (fun _ event _ inv apart _ => inv.clearsOwn apart event) probesInv_initial apart

/-- Node 1 has probed node 3 under the number under which node 0 asks it to probe node 2. -/
theorem ack_clears_probe_of_another :
    let events :=
      [plainStart 0 (some 1) [1, 2], plainStart 1 (some 1) [3], plainStart 2 (some 1) [],
      plainTick 0 1 [1, 2] [] (fun _ => []) [2], plainTick 0 7 [1, 2] [1] (fun _ => [1]) [2],
      plainTick 1 8 [3] [] (fun _ => []) [3], .deliver 2 () 9, .deliver 5 () 10]
    ∃ x, run Mesh.step Mesh.initial events = some x ∧ x.network[6]? = some ⟨2, 1, .ack 1 2⟩ ∧
      ∃ e, x.engines 1 = some e ∧ e.pending.lookup 1 = some ⟨3, .direct 8⟩ ∧
        (e.handleAck 2 1 () 11).pending.lookup 1 = none := by
  decide

/-- The probe of node 2 is answered through node 1, which has no probe of its own. -/
theorem acks_clear_own_probe_helper :
    let events := [plainStart 0 (some 1) [1, 2], plainStart 1 (some 1) [], plainStart 2 (some 1) [],
      plainTick 0 1 [1, 2] [] (fun _ => []) [2], plainTick 0 7 [1, 2] [1] (fun _ => [1]) [2],
      .deliver 2 () 8, .deliver 3 () 9, .deliver 4 () 10, .deliver 0 () 11, .deliver 5 () 12]
    (run Mesh.step Mesh.initial events).isSome ∧
      Along Mesh.step Mesh.ClearsOwn Mesh.initial events :=
  ⟨by decide, acks_clear_own_probe _ (by decide)⟩

end Chirps.Gossip
