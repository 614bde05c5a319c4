/-
# Merging gossip

`apply_membership_update` keeps the greatest update of each peer, so that the order of arrival does
not matter. `apply_hlc_gossip` first drops what is earlier than an event about the same peer.
-/

import Chirps.Gossip.Engine
import Chirps.Library.Greatest

namespace Chirps.Gossip

open Chirps.Library
open Chirps.Tso (HybridTimestamp)

theorem Status.rank_injective : Function.Injective Status.rank := by
  intro a b h
  cases a <;> cases b <;> first | rfl | cases h

@[ext] structure Standing where
  incarnation : UInt64
  status : Status
  deriving DecidableEq

namespace Standing

/-- Standings are compared by incarnation first, then by status. -/
instance : LinearOrder Standing :=
  LinearOrder.lift' (fun s => toLex (s.incarnation.toNat, s.status.rank)) (by
    intro a b h
    have hpair := toLex.injective h
    rw [Prod.mk.injEq] at hpair
    exact Standing.ext (UInt64.toNat_inj.mp hpair.1) (Status.rank_injective hpair.2))

theorem lt_iff {a b : Standing} :
    a < b ↔ a.incarnation < b.incarnation ∨
      a.incarnation = b.incarnation ∧ a.status.rank < b.status.rank := by
  rw [UInt64.lt_iff_toNat_lt, ← UInt64.toNat_inj]
  exact Prod.Lex.toLex_lt_toLex

end Standing

variable {ν α : Type*}

def MembershipUpdate.standing (update : MembershipUpdate ν α) : Standing :=
  ⟨update.incarnation, update.status⟩

namespace Peer

def standing (peer : Peer ν α) : Standing := ⟨peer.state.incarnation, peer.state.status⟩

@[simp] theorem standing_stamped (peer : Peer ν α) (eventId : HlcEventId ν)
    (timestamp : HybridTimestamp) : (peer.stamped eventId timestamp).standing = peer.standing := rfl

theorem standing_lt_iff {peer : Peer ν α} {update : MembershipUpdate ν α} :
    peer.standing < update.standing ↔ peer.Newer update ∨ peer.Stronger update := by
  rw [Standing.lt_iff, Newer, Stronger, eq_comm (a := update.incarnation)]
  rfl

theorem standing_updated {peer : Peer ν α} {update : MembershipUpdate ν α} (now : ℕ)
    (h : peer.standing < update.standing) :
    (peer.updated update now).standing = update.standing := by
  refine Standing.ext ?_ rfl
  change (if peer.Newer update then _ else _) = update.incarnation
  split
  · rfl
  · rename_i hnewer
    exact ((standing_lt_iff.mp h).resolve_left hnewer).1.symm

end Peer

namespace GossipEngine

variable [DecidableEq ν]

def standing (e : GossipEngine ν α) (id : ν) : Option Standing :=
  (e.peers.lookup id).map Peer.standing

variable {e : GossipEngine ν α} {id : ν}

theorem standing_congr {e' : GossipEngine ν α} (h : e'.peers.lookup id = e.peers.lookup id) :
    e'.standing id = e.standing id := by
  rw [standing, h, standing]

theorem standing_setPeer_self (e : GossipEngine ν α) (id : ν) (peer : Peer ν α) :
    (e.setPeer id peer).standing id = some peer.standing := by
  rw [standing, lookup_setPeer_self, Option.map_some]

variable {other : ν}

theorem standing_setPeer_of_ne {peer : Peer ν α} (h : other ≠ id) :
    (e.setPeer id peer).standing other = e.standing other :=
  standing_congr (lookup_setPeer_of_ne h)

theorem standing_setPeer_of_eq {old peer : Peer ν α} (hold : e.peers.lookup id = some old)
    (h : peer.standing = old.standing) (other : ν) :
    (e.setPeer id peer).standing other = e.standing other := by
  by_cases hother : other = id
  · subst hother
    rw [standing_setPeer_self, standing, hold, Option.map_some, h]
  · exact standing_setPeer_of_ne hother

/-! ## One update -/

theorem lookup_stampMembershipEvent_of_ne (h : other ≠ id) :
    (e.stampMembershipEvent id).peers.lookup other = e.peers.lookup other := by
  unfold stampMembershipEvent
  split
  · rfl
  · exact lookup_setPeer_of_ne (e := e.tickAndCount) h

theorem standing_stampMembershipEvent (e : GossipEngine ν α) (id other : ν) :
    (e.stampMembershipEvent id).standing other = e.standing other := by
  unfold stampMembershipEvent
  split
  · rfl
  · rename_i peer hpeer
    have hsame := Peer.standing_stamped peer e.nextEventId e.hlc.ticked
    exact standing_setPeer_of_eq (e := e.tickAndCount) hpeer hsame other

variable {update : MembershipUpdate ν α} {now : ℕ}

theorem lookup_applyOneMembershipUpdate_of_ne (h : other ≠ update.nodeId) :
    (e.applyOneMembershipUpdate update now).2.peers.lookup other = e.peers.lookup other := by
  unfold applyOneMembershipUpdate
  split
  · exact lookup_setPeer_of_ne h
  · split
    · exact lookup_setPeer_of_ne h
    · rfl

structure Joins (update : MembershipUpdate ν α) (e next : GossipEngine ν α) : Prop where
  self : next.standing update.nodeId = some (join (e.standing update.nodeId) update.standing)
  others : ∀ id, id ≠ update.nodeId → next.standing id = e.standing id

variable {next : GossipEngine ν α}

theorem Joins.congr {next' : GossipEngine ν α} (h : Joins update e next)
    (hstanding : ∀ id, next'.standing id = next.standing id) : Joins update e next' :=
  ⟨(hstanding _).trans h.self, fun id hid => (hstanding id).trans (h.others id hid)⟩

theorem joins_applyOneMembershipUpdate (e : GossipEngine ν α) (update : MembershipUpdate ν α)
    (now : ℕ) : Joins update e (e.applyOneMembershipUpdate update now).2 := by
  refine ⟨?_, fun id hid => standing_congr (lookup_applyOneMembershipUpdate_of_ne hid)⟩
  unfold applyOneMembershipUpdate
  split
  · rename_i hpeer
    rw [standing_setPeer_self, standing, hpeer]
    rfl
  · rename_i peer hpeer
    have hold : e.standing update.nodeId = some peer.standing := by rw [standing, hpeer]; rfl
    rw [hold]
    split
    · rename_i hwins
      have hlt := Peer.standing_lt_iff.mpr hwins
      rw [standing_setPeer_self, Peer.standing_updated now hlt]
      exact congrArg some (max_eq_right hlt.le).symm
    · rename_i hloses
      have hle := not_lt.mp (mt Peer.standing_lt_iff.mp hloses)
      rw [hold]
      exact congrArg some (max_eq_left hle).symm

/-! ## Any number of updates -/

theorem lookup_stampIf_of_ne {changed : Bool} (h : other ≠ id) :
    (e.stampIf changed id).peers.lookup other = e.peers.lookup other := by
  unfold stampIf
  split
  · exact lookup_stampMembershipEvent_of_ne h
  · rfl

theorem standing_stampIf (e : GossipEngine ν α) (changed : Bool) (id other : ν) :
    (e.stampIf changed id).standing other = e.standing other := by
  unfold stampIf
  split
  · exact standing_stampMembershipEvent e id other
  · rfl

theorem lookup_applyAndStamp_of_ne (h : id ≠ update.nodeId) :
    (applyAndStamp now e update).peers.lookup id = e.peers.lookup id :=
  (lookup_stampIf_of_ne h).trans (lookup_applyOneMembershipUpdate_of_ne h)

def offered (updates : Set (MembershipUpdate ν α)) (id : ν) : Set Standing :=
  {s | ∃ update ∈ updates, update.nodeId = id ∧ update.standing = s}

omit [DecidableEq ν] in
theorem offered_insert_self (update : MembershipUpdate ν α) (U : Set (MembershipUpdate ν α)) :
    offered (insert update U) update.nodeId = insert update.standing (offered U update.nodeId) := by
  ext s
  simp [offered, eq_comm]

omit [DecidableEq ν] in
theorem offered_insert_of_ne {U : Set (MembershipUpdate ν α)} (h : id ≠ update.nodeId) :
    offered (insert update U) id = offered U id := by
  ext s
  simp [offered, h.symm]

def Joined (e₀ : GossipEngine ν α) (U : Set (MembershipUpdate ν α)) (e : GossipEngine ν α) : Prop :=
  ∀ id, Tops (e.standing id) ({s | s ∈ e₀.standing id} ∪ offered U id)

namespace Joined

variable {e₀ e e' : GossipEngine ν α} {U : Set (MembershipUpdate ν α)}
  {update : MembershipUpdate ν α}

theorem refl (e : GossipEngine ν α) : Joined e ∅ e := by
  intro id
  have hempty : offered (∅ : Set (MembershipUpdate ν α)) id = ∅ := by simp [offered]
  rw [hempty, Set.union_empty]
  exact Tops.self _

theorem apply (h : Joined e₀ U e) (hjoins : Joins update e e') :
    Joined e₀ (insert update U) e' := by
  intro id
  by_cases hid : id = update.nodeId
  · subst hid
    rw [hjoins.self, offered_insert_self, Set.union_insert]
    exact (h update.nodeId).insert update.standing
  · rw [hjoins.others id hid, offered_insert_of_ne hid]
    exact h id

theorem insert_of_le (h : Joined e₀ U e)
    (hle : ∃ s ∈ e.standing update.nodeId, update.standing ≤ s) :
    Joined e₀ (insert update U) e := by
  intro id
  by_cases hid : id = update.nodeId
  · subst hid
    rw [offered_insert_self, Set.union_insert]
    exact (h update.nodeId).insert_of_le hle
  · rw [offered_insert_of_ne hid]
    exact h id

theorem applyMembershipUpdate (h : Joined e₀ U e) (updates : List (MembershipUpdate ν α))
    (now : ℕ) :
    Joined e₀ ({update | update ∈ updates} ∪ U) (e.applyMembershipUpdate updates now) := by
  induction updates generalizing e U with
  | nil => simpa [GossipEngine.applyMembershipUpdate] using h
  | cons update rest ih =>
    have hjoins : Joins update e (applyAndStamp now e update) :=
      (joins_applyOneMembershipUpdate e update now).congr (standing_stampIf _ _ _)
    rw [List.setOfPred_mem_cons, Set.insert_union, ← Set.union_insert]
    exact ih (h.apply hjoins)

end Joined

def applyBatches (e : GossipEngine ν α) (batches : List (List (MembershipUpdate ν α) × ℕ)) :
    GossipEngine ν α :=
  batches.foldl (fun e batch => e.applyMembershipUpdate batch.1 batch.2) e

def updatesOf (batches : List (List (MembershipUpdate ν α) × ℕ)) : List (MembershipUpdate ν α) :=
  batches.flatMap Prod.fst

variable {e₀ : GossipEngine ν α}

theorem Joined.applyBatches {U : Set (MembershipUpdate ν α)} (h : Joined e₀ U e)
    (batches : List (List (MembershipUpdate ν α) × ℕ)) :
    Joined e₀ ({update | update ∈ updatesOf batches} ∪ U) (e.applyBatches batches) := by
  induction batches generalizing e U with
  | nil => simpa [GossipEngine.applyBatches, updatesOf] using h
  | cons batch rest ih =>
    have hset : {u | u ∈ updatesOf (batch :: rest)} ∪ U =
        {u | u ∈ updatesOf rest} ∪ ({u | u ∈ batch.1} ∪ U) := by
      ext u
      simp only [updatesOf, List.flatMap_cons, List.mem_append, Set.mem_union, Set.mem_ofPred_eq,
        or_assoc, or_left_comm]
    rw [hset]
    exact ih (h.applyMembershipUpdate batch.1 batch.2)

theorem lookup_applyMembershipUpdate_of_forall_ne {updates : List (MembershipUpdate ν α)}
    (h : ∀ update ∈ updates, update.nodeId ≠ id) :
    (e.applyMembershipUpdate updates now).peers.lookup id = e.peers.lookup id := by
  induction updates generalizing e with
  | nil => rfl
  | cons update rest ih =>
    refine Eq.trans (ih fun u hu => h u (List.mem_cons_of_mem _ hu)) ?_
    exact lookup_applyAndStamp_of_ne (h update List.mem_cons_self).symm

theorem lookup_applyBatches_of_forall_ne {batches : List (List (MembershipUpdate ν α) × ℕ)}
    (h : ∀ update ∈ updatesOf batches, update.nodeId ≠ id) :
    (e.applyBatches batches).peers.lookup id = e.peers.lookup id := by
  induction batches generalizing e with
  | nil => rfl
  | cons batch rest ih =>
    refine Eq.trans (ih fun u hu => h u ?_) ?_
    · exact List.mem_append_right _ hu
    · exact lookup_applyMembershipUpdate_of_forall_ne fun u hu => h u (List.mem_append_left _ hu)

/-- However updates are ordered, repeated and cut into calls, each peer ends with the greatest of
its standing before and those of its updates. -/
theorem membership_merge_is_join (e : GossipEngine ν α)
    (batches : List (List (MembershipUpdate ν α) × ℕ)) :
    (∀ id s, (e.applyBatches batches).standing id = some s ↔
      IsGreatest ({s | s ∈ e.standing id} ∪ offered {update | update ∈ updatesOf batches} id) s) ∧
    (∀ others, (∀ update, update ∈ updatesOf batches ↔ update ∈ updatesOf others) →
      ∀ id, (e.applyBatches batches).standing id = (e.applyBatches others).standing id) ∧
    ∀ id, (∀ update ∈ updatesOf batches, update.nodeId ≠ id) →
      (e.applyBatches batches).peers.lookup id = e.peers.lookup id := by
  have hjoined : ∀ batches id, Tops ((e.applyBatches batches).standing id)
      ({s | s ∈ e.standing id} ∪ offered {update | update ∈ updatesOf batches} id) := by
    intro batches id
    have h := (Joined.refl e).applyBatches batches id
    rwa [Set.union_empty] at h
  refine ⟨fun id s => (hjoined batches id).eq_some_iff, fun others hsame id => ?_,
    fun id => lookup_applyBatches_of_forall_ne⟩
  have hset : {update | update ∈ updatesOf batches} = {update | update ∈ updatesOf others} :=
    Set.ext hsame
  refine (hjoined batches id).unique ?_
  rw [hset]
  exact hjoined others id

/-- A suspicion, a rejoin and a death of the incarnation before it, in two orders. -/
theorem membership_merge_is_join_rejoin :
    let e : GossipEngine ℕ Unit := .new 0 ⟨5, 5, 5, none, true⟩ ∅ (.withClock 5 fun _ => 1) 0
    let suspect : MembershipUpdate ℕ Unit := ⟨1, 4, (), .suspect⟩
    let rejoin : MembershipUpdate ℕ Unit := ⟨1, 5, (), .alive⟩
    let dead : MembershipUpdate ℕ Unit := ⟨1, 4, (), .dead⟩
    (e.applyBatches [([suspect, rejoin], 2), ([dead], 3)]).standing 1 = some ⟨5, .alive⟩ ∧
    (e.applyBatches [([suspect, rejoin], 2), ([dead], 3)]).standing 1 =
      (e.applyBatches [([dead], 2), ([rejoin, dead, suspect], 3)]).standing 1 := by
  intro e suspect rejoin dead
  refine ⟨by decide, (membership_merge_is_join e _).2.1 _ (fun update => ?_) 1⟩
  simp only [updatesOf, List.flatMap_cons, List.flatMap_nil, List.mem_append, List.mem_cons]
  tauto

/-! ## Stamped events -/

theorem applyOneMembershipUpdate_eq (e : GossipEngine ν α) (update : MembershipUpdate ν α)
    (now : ℕ) : (e.applyOneMembershipUpdate update now).2 =
      { e with peers := (e.applyOneMembershipUpdate update now).2.peers } := by
  unfold applyOneMembershipUpdate
  split
  · rfl
  · split <;> rfl

theorem stampWith_eq (e : GossipEngine ν α) (event : StampedMembershipUpdate ν α) :
    e.stampWith event = { e with peers := (e.stampWith event).peers } := by
  unfold stampWith
  split <;> rfl

theorem standing_stampWith (e : GossipEngine ν α) (event : StampedMembershipUpdate ν α) (id : ν) :
    (e.stampWith event).standing id = e.standing id := by
  unfold stampWith
  split
  · rfl
  · rename_i peer hpeer
    exact standing_setPeer_of_eq hpeer (Peer.standing_stamped peer event.eventId event.timestamp) id

structure Applies (event : StampedMembershipUpdate ν α) (e next : GossipEngine ν α) : Prop where
  fresh : ¬ Seen e.seenMembershipEvents event.eventId
  current : ¬ e.Stale event
  seen : next.seenMembershipEvents = event.eventId :: e.seenMembershipEvents
  latest : next.latestMembershipTimestamps =
    Function.update e.latestMembershipTimestamps event.update.nodeId (some event.timestamp)
  messages : next.seenMessages = e.seenMessages
  joins : Joins event.update e next

variable {event : StampedMembershipUpdate ν α}

theorem applies_of_eq (now : ℕ) (hfresh : ¬ Seen e.seenMembershipEvents event.eventId)
    (hcurrent : ¬ e.Stale event)
    (hnext : next = { (e.markEvent event.eventId).setLatest event.update.nodeId event.timestamp with
      peers := next.peers }) (hstanding : ∀ id, next.standing id =
      (((e.markEvent event.eventId).setLatest event.update.nodeId
        event.timestamp).applyOneMembershipUpdate event.update now).2.standing id) :
    Applies event e next := by
  have hjoins := (joins_applyOneMembershipUpdate ((e.markEvent event.eventId).setLatest
    event.update.nodeId event.timestamp) event.update now).congr hstanding
  rw [hnext] at hjoins ⊢
  exact ⟨hfresh, hcurrent, rfl, rfl, rfl, hjoins.self, hjoins.others⟩

theorem applyEvent_cases (now count : ℕ) (e : GossipEngine ν α)
    (event : StampedMembershipUpdate ν α) :
    (Seen e.seenMembershipEvents event.eventId ∧ (applyEvent now (count, e) event).2 = e) ∨
    (e.Stale event ∧ (applyEvent now (count, e) event).2 = e.markEvent event.eventId) ∨
    Applies event e (applyEvent now (count, e) event).2 := by
  rw [applyEvent]
  split
  · rename_i hseen
    exact .inl ⟨hseen, rfl⟩
  · rename_i hfresh
    dsimp only
    split
    · rename_i hstale
      exact .inr (.inl ⟨hstale, rfl⟩)
    · rename_i hcurrent
      refine .inr (.inr (applies_of_eq now hfresh hcurrent ?_ fun id => ?_))
      · have honly := applyOneMembershipUpdate_eq ((e.markEvent event.eventId).setLatest
          event.update.nodeId event.timestamp) event.update now
        split
        · rename_i next hnext
          rw [hnext] at honly
          refine (stampWith_eq next event).trans ?_
          exact congrArg (fun e => { e with peers := (next.stampWith event).peers }) honly
        · rename_i next hnext
          rwa [hnext] at honly
      · split
        · rename_i next hnext
          rw [standing_stampWith, hnext]
        · rename_i next hnext
          rw [hnext]

def Fresh (e : GossipEngine ν α) (event : StampedMembershipUpdate ν α) : Prop :=
  ¬ Seen e.seenMembershipEvents event.eventId ∧ ¬ e.Stale event

def freshUpdates (e₀ : GossipEngine ν α) (P : Set (StampedMembershipUpdate ν α)) :
    Set (MembershipUpdate ν α) :=
  {update | ∃ event ∈ P, e₀.Fresh event ∧ event.update = update}

omit [DecidableEq ν] in
theorem freshUpdates_insert (h : e₀.Fresh event) (P : Set (StampedMembershipUpdate ν α)) :
    e₀.freshUpdates (insert event P) = insert event.update (e₀.freshUpdates P) := by
  ext update
  simp [freshUpdates, h, eq_comm]

omit [DecidableEq ν] in
theorem freshUpdates_insert_of_not (h : ¬ e₀.Fresh event) (P : Set (StampedMembershipUpdate ν α)) :
    e₀.freshUpdates (insert event P) = e₀.freshUpdates P := by
  ext update
  simp [freshUpdates, h]

/-- An event id stands for one update. -/
def Identified (P : Set (StampedMembershipUpdate ν α)) : Prop :=
  ∀ x ∈ P, ∀ y ∈ P, x.eventId.key = y.eventId.key → x = y

/-- Of two events about a peer the later one has no smaller standing. -/
def Agreeing (P : Set (StampedMembershipUpdate ν α)) : Prop :=
  ∀ x ∈ P, ∀ y ∈ P, x.update.nodeId = y.update.nodeId → x.timestamp ≤ y.timestamp →
    x.update.standing ≤ y.update.standing

structure Merged (e₀ : GossipEngine ν α) (P : Set (StampedMembershipUpdate ν α))
    (e : GossipEngine ν α) : Prop where
  joined : Joined e₀ (e₀.freshUpdates P) e
  latest_from : ∀ id, ∀ t ∈ e.latestMembershipTimestamps id, t ∈ e₀.latestMembershipTimestamps id ∨
    ∃ y ∈ P, e₀.Fresh y ∧ y.update.nodeId = id ∧ y.timestamp = t
  le_latest : ∀ id, ∀ t ∈ e₀.latestMembershipTimestamps id,
    ∃ t' ∈ e.latestMembershipTimestamps id, t ≤ t'
  seen_iff : ∀ id, Seen e.seenMembershipEvents id ↔
    Seen e₀.seenMembershipEvents id ∨ ∃ y ∈ P, y.eventId.key = id.key

omit [DecidableEq ν] in
theorem seen_cons {ids : List (HlcEventId ν)} {id other : HlcEventId ν} :
    Seen (id :: ids) other ↔ id.key = other.key ∨ Seen ids other := by
  simp [Seen, eq_comm]

/-! The ids in a list are those that were there and those of a set, to which one is added. -/

section SeenInsert

variable {β : Type*} {idOf : β → HlcEventId ν} {old ids : List (HlcEventId ν)} {P : Set β} {x : β}

omit [DecidableEq ν] in
theorem seen_insert_of_cons
    (h : ∀ id, Seen ids id ↔ Seen old id ∨ ∃ y ∈ P, (idOf y).key = id.key) (id : HlcEventId ν) :
    Seen (idOf x :: ids) id ↔ Seen old id ∨ ∃ y ∈ insert x P, (idOf y).key = id.key := by
  rw [seen_cons, h, Set.exists_mem_insert, or_left_comm]

omit [DecidableEq ν] in
theorem seen_insert_of_seen
    (h : ∀ id, Seen ids id ↔ Seen old id ∨ ∃ y ∈ P, (idOf y).key = id.key)
    (hx : Seen old (idOf x)) (id : HlcEventId ν) :
    Seen ids id ↔ Seen old id ∨ ∃ y ∈ insert x P, (idOf y).key = id.key := by
  -- an id with the key of the new one was there as well
  have hcopy : (idOf x).key = id.key → Seen old id := by
    intro hkey
    rwa [Seen, ← hkey]
  rw [h, Set.exists_mem_insert, ← or_assoc, or_iff_left_of_imp hcopy]

end SeenInsert

namespace Merged

variable {e₀ e next : GossipEngine ν α} {P all : Set (StampedMembershipUpdate ν α)}
  {event : StampedMembershipUpdate ν α}

theorem refl (e : GossipEngine ν α) : Merged e ∅ e where
  joined := by simpa [freshUpdates] using Joined.refl e
  latest_from _ _ ht := .inl ht
  le_latest _ t ht := ⟨t, ht, le_rfl⟩
  seen_iff id := by simp

section

variable (h : Merged e₀ P e)
include h

theorem seen_iff_insert
    (hseen : next.seenMembershipEvents = event.eventId :: e.seenMembershipEvents)
    (id : HlcEventId ν) : Seen next.seenMembershipEvents id ↔
      Seen e₀.seenMembershipEvents id ∨ ∃ y ∈ insert event P, y.eventId.key = id.key := by
  rw [hseen]
  exact seen_insert_of_cons h.seen_iff id

theorem latest_from_insert (id : ν) {t : HybridTimestamp}
    (ht : t ∈ e.latestMembershipTimestamps id) : t ∈ e₀.latestMembershipTimestamps id ∨
      ∃ y ∈ insert event P, e₀.Fresh y ∧ y.update.nodeId = id ∧ y.timestamp = t :=
  (h.latest_from id t ht).imp_right fun ⟨y, hy, hrest⟩ => ⟨y, .inr hy, hrest⟩

theorem fresh (hseen : ¬ Seen e.seenMembershipEvents event.eventId)
    (hstale : ¬ e.Stale event) : e₀.Fresh event := by
  refine ⟨fun hseen₀ => hseen ((h.seen_iff _).mpr (.inl hseen₀)), ?_⟩
  rintro ⟨t, ht, hle⟩
  obtain ⟨t', ht', hle'⟩ := h.le_latest _ t ht
  exact hstale ⟨t', ht', hle.trans hle'⟩

theorem reached_of_stale (agree : Agreeing all) (hP : P ⊆ all)
    (hevent : event ∈ all) (hfresh : e₀.Fresh event) (hstale : e.Stale event) :
    ∃ s ∈ e.standing event.update.nodeId, event.update.standing ≤ s := by
  obtain ⟨t, ht, hle⟩ := hstale
  rcases h.latest_from _ t ht with hold | ⟨y, hy, hyfresh, hid, rfl⟩
  · exact absurd ⟨t, hold, hle⟩ hfresh.2
  · have hstanding := agree event hevent y (hP hy) hid.symm hle
    obtain ⟨s, hs, hys⟩ := (h.joined event.update.nodeId).le y.update.standing
      (.inr ⟨y.update, ⟨y, hy, hyfresh, rfl⟩, hid, rfl⟩)
    exact ⟨s, hs, hstanding.trans hys⟩

theorem applyEvent (ids : Identified all) (agree : Agreeing all) (hP : P ⊆ all)
    (hevent : event ∈ all) (now count : ℕ) :
    Merged e₀ (insert event P) (applyEvent now (count, e) event).2 := by
  rcases applyEvent_cases now count e event with ⟨hseen, heq⟩ | ⟨hstale, heq⟩ | happlies
  · rw [heq]
    rcases (h.seen_iff _).mp hseen with hold | ⟨y, hy, hkey⟩
    · refine ⟨?_, fun id t => h.latest_from_insert id, h.le_latest,
        seen_insert_of_seen h.seen_iff hold⟩
      rw [freshUpdates_insert_of_not fun hfresh => hfresh.1 hold]
      exact h.joined
    · -- the same event arrived before
      obtain rfl := ids y (hP hy) event hevent hkey
      rwa [Set.insert_eq_of_mem hy]
  · rw [heq]
    refine ⟨?_, fun id t => h.latest_from_insert id, h.le_latest, h.seen_iff_insert rfl⟩
    by_cases hfresh : e₀.Fresh event
    · rw [freshUpdates_insert hfresh]
      exact h.joined.insert_of_le (h.reached_of_stale agree hP hevent hfresh hstale)
    · rw [freshUpdates_insert_of_not hfresh]
      exact h.joined
  · have hfresh := h.fresh happlies.fresh happlies.current
    refine ⟨?_, fun id t ht => ?_, fun id t ht => ?_, h.seen_iff_insert happlies.seen⟩
    · rw [freshUpdates_insert hfresh]
      exact h.joined.apply happlies.joins
    · rw [happlies.latest] at ht
      by_cases hid : id = event.update.nodeId
      · subst hid
        rw [Function.update_self] at ht
        exact .inr ⟨event, .inl rfl, hfresh, rfl, Option.some.inj ht⟩
      · rw [Function.update_of_ne hid] at ht
        exact h.latest_from_insert id ht
    · rw [happlies.latest]
      by_cases hid : id = event.update.nodeId
      · subst hid
        have hlt : t < event.timestamp := not_le.mp fun hle => hfresh.2 ⟨t, ht, hle⟩
        exact ⟨event.timestamp, Function.update_self .., hlt.le⟩
      · rw [Function.update_of_ne hid]
        exact h.le_latest id t ht

theorem foldl_applyEvent (ids : Identified all) (agree : Agreeing all)
    (hP : P ⊆ all) {events : List (StampedMembershipUpdate ν α)} (hevents : ∀ x ∈ events, x ∈ all)
    (now count : ℕ) :
    Merged e₀ ({x | x ∈ events} ∪ P) (events.foldl (GossipEngine.applyEvent now) (count, e)).2 := by
  induction events generalizing e P count with
  | nil => simpa using h
  | cons x rest ih =>
    have hx := hevents x List.mem_cons_self
    have hone := h.applyEvent ids agree hP hx now count
    rw [List.setOfPred_mem_cons, Set.insert_union, ← Set.union_insert]
    exact ih hone (Set.insert_subset hx hP) (fun y hy => hevents y (List.mem_cons_of_mem _ hy)) _

end

end Merged

theorem seenMessages_applyEvent (now count : ℕ) (e : GossipEngine ν α)
    (event : StampedMembershipUpdate ν α) :
    (applyEvent now (count, e) event).2.seenMessages = e.seenMessages := by
  rcases applyEvent_cases now count e event with ⟨-, heq⟩ | ⟨-, heq⟩ | happlies
  · rw [heq]
  · rw [heq]
    rfl
  · exact happlies.messages

theorem seenMessages_foldl_applyEvent (now count : ℕ) (e : GossipEngine ν α)
    (events : List (StampedMembershipUpdate ν α)) :
    (events.foldl (applyEvent now) (count, e)).2.seenMessages = e.seenMessages := by
  induction events generalizing e count with
  | nil => rfl
  | cons x rest ih => exact (ih _ _).trans (seenMessages_applyEvent now count e x)

/-! ## Stamped messages -/

def accept (e : GossipEngine ν α) (call : HlcGossipMessage ν α × ℕ) : Option (GossipEngine ν α) :=
  match e.applyHlcGossip call.1 call.2 with
  | (.ok _, next) => some next
  | (.error _, _) => none

theorem accept_cases {call : HlcGossipMessage ν α × ℕ} (h : e.accept call = some next) :
    (Seen e.seenMessages call.1.eventId ∧ ∃ hlc, next = { e with hlc := hlc }) ∨
    (¬ Seen e.seenMessages call.1.eventId ∧ ∃ hlc, next = (call.1.updates.foldl (applyEvent call.2)
      (0, { e with hlc := hlc, seenMessages := call.1.eventId :: e.seenMessages })).2) := by
  unfold accept applyHlcGossip at h
  split at h
  · rename_i count next' hok
    cases h
    split at hok
    · split at hok
      · cases hok
      · rename_i hlc _
        split at hok
        · rename_i hseen
          exact .inl ⟨hseen, hlc, (congrArg Prod.snd hok).symm⟩
        · rename_i hfresh
          exact .inr ⟨hfresh, hlc, (congrArg Prod.snd hok).symm⟩
    · cases hok
  · cases h

def openedEvents (e₀ : GossipEngine ν α) (M : Set (HlcGossipMessage ν α)) :
    Set (StampedMembershipUpdate ν α) :=
  {x | ∃ m ∈ M, ¬ Seen e₀.seenMessages m.eventId ∧ x ∈ m.updates}

structure Heard (e₀ : GossipEngine ν α) (M : Set (HlcGossipMessage ν α)) (e : GossipEngine ν α) :
    Prop where
  merged : Merged e₀ (e₀.openedEvents M) e
  seen_iff : ∀ id, Seen e.seenMessages id ↔
    Seen e₀.seenMessages id ∨ ∃ m ∈ M, m.eventId.key = id.key

/-- An event id stands for one message. -/
def DistinctIds (M : Set (HlcGossipMessage ν α)) : Prop :=
  ∀ m ∈ M, ∀ m' ∈ M, m.eventId.key = m'.eventId.key → m = m'

def eventsIn (M : Set (HlcGossipMessage ν α)) : Set (StampedMembershipUpdate ν α) :=
  {x | ∃ m ∈ M, x ∈ m.updates}

namespace Heard

variable {e₀ e next : GossipEngine ν α} {M all : Set (HlcGossipMessage ν α)}

theorem refl (e : GossipEngine ν α) : Heard e ∅ e where
  merged := by simpa [openedEvents] using Merged.refl e
  seen_iff id := by simp

theorem accept (h : Heard e₀ M e) (messages : DistinctIds all) (ids : Identified (eventsIn all))
    (agree : Agreeing (eventsIn all)) (hM : M ⊆ all) {call : HlcGossipMessage ν α × ℕ}
    (hcall : call.1 ∈ all) (hnext : e.accept call = some next) :
    Heard e₀ (insert call.1 M) next := by
  rcases accept_cases hnext with ⟨hseen, hlc, rfl⟩ | ⟨hunseen, hlc, rfl⟩
  · have hmerged : Merged e₀ (e₀.openedEvents M) { e with hlc := hlc } :=
      ⟨h.merged.joined, h.merged.latest_from, h.merged.le_latest, h.merged.seen_iff⟩
    rcases (h.seen_iff _).mp hseen with hold | ⟨m, hm, hkey⟩
    · refine ⟨?_, seen_insert_of_seen h.seen_iff hold⟩
      have hset : e₀.openedEvents (insert call.1 M) = e₀.openedEvents M := by
        ext x
        simp [openedEvents, hold]
      rwa [hset]
    · -- the same message arrived before
      obtain rfl := messages m (hM hm) call.1 hcall hkey
      rw [Set.insert_eq_of_mem hm]
      exact ⟨hmerged, h.seen_iff⟩
  · have hmerged : Merged e₀ (e₀.openedEvents M)
        { e with hlc := hlc, seenMessages := call.1.eventId :: e.seenMessages } :=
      ⟨h.merged.joined, h.merged.latest_from, h.merged.le_latest, h.merged.seen_iff⟩
    have hnew : ¬ Seen e₀.seenMessages call.1.eventId := fun hold =>
      hunseen ((h.seen_iff _).mpr (.inl hold))
    have hset : e₀.openedEvents (insert call.1 M) =
        {x | x ∈ call.1.updates} ∪ e₀.openedEvents M := by
      ext x
      simp [openedEvents, hnew]
    refine ⟨?_, fun id => ?_⟩
    · rw [hset]
      refine hmerged.foldl_applyEvent ids agree ?_ (fun x hx => ⟨call.1, hcall, hx⟩) call.2 0
      rintro x ⟨m, hm, -, hx⟩
      exact ⟨m, hM hm, hx⟩
    · rw [seenMessages_foldl_applyEvent]
      exact seen_insert_of_cons h.seen_iff id

theorem run (h : Heard e₀ M e) (messages : DistinctIds all) (ids : Identified (eventsIn all))
    (agree : Agreeing (eventsIn all)) (hM : M ⊆ all) {calls : List (HlcGossipMessage ν α × ℕ)}
    (hcalls : ∀ call ∈ calls, call.1 ∈ all)
    (hrun : Library.run GossipEngine.accept e calls = some next) :
    Heard e₀ ({m | m ∈ calls.map Prod.fst} ∪ M) next := by
  induction calls generalizing e M with
  | nil =>
    cases hrun
    simpa using h
  | cons call rest ih =>
    obtain ⟨mid, hmid, hrest⟩ := run_cons_eq_some.mp hrun
    have hcall := hcalls call List.mem_cons_self
    have hone := h.accept messages ids agree hM hcall hmid
    rw [List.map_cons, List.setOfPred_mem_cons, Set.insert_union, ← Set.union_insert]
    exact ih hone (Set.insert_subset hcall hM)
      (fun c hc => hcalls c (List.mem_cons_of_mem _ hc)) hrest

end Heard

/-- Two deliveries of the same messages end alike, if of two events about a peer the later one has
no smaller standing. -/
theorem hlc_gossip_converges {e e₁ e₂ : GossipEngine ν α} {M : Set (HlcGossipMessage ν α)}
    {first second : List (HlcGossipMessage ν α × ℕ)} (messages : DistinctIds M)
    (ids : Identified (eventsIn M)) (agree : Agreeing (eventsIn M))
    (hfirst : ∀ m, m ∈ first.map Prod.fst ↔ m ∈ M) (hsecond : ∀ m, m ∈ second.map Prod.fst ↔ m ∈ M)
    (reach₁ : Library.run accept e first = some e₁)
    (reach₂ : Library.run accept e second = some e₂) (id : ν) :
    e₁.standing id = e₂.standing id := by
  -- both end with what the same set of messages makes of the engine
  have hheard : ∀ {calls next}, (∀ m, m ∈ calls.map Prod.fst ↔ m ∈ M) →
      Library.run accept e calls = some next → Heard e M next := by
    intro calls next hcalls hrun
    have hset : {m | m ∈ calls.map Prod.fst} ∪ ∅ = M := by
      rw [Set.union_empty]
      exact Set.ext hcalls
    rw [← hset]
    exact (Heard.refl e).run messages ids agree (Set.empty_subset M)
      (fun call hcall => (hcalls call.1).mp (List.mem_map_of_mem hcall)) hrun
  exact ((hheard hfirst reach₁).merged.joined id).unique ((hheard hsecond reach₂).merged.joined id)

def announcement (source : ℕ) (physical incarnation : UInt64) (status : Status) :
    HlcGossipMessage ℕ Unit :=
  ⟨⟨source, 2, (0, 2)⟩, ⟨physical, 0⟩,
    [⟨⟨source, 1, (0, 1)⟩, ⟨physical, 0⟩, ⟨7, incarnation, (), status⟩⟩]⟩

/-- The rejoin of a peer is stamped by a slow clock, the death before it by a fast one. The
rejoin is lost if it arrives second. -/
theorem hlc_gossip_diverges :
    let e : GossipEngine ℕ Unit := .new 0 ⟨5, 5, 5, none, true⟩ ∅ (.withClock 1000 fun _ => 4) 0
    let dead := announcement 1 5 1 .dead
    let rejoin := announcement 2 3 2 .alive
    DistinctIds {dead, rejoin} ∧ Identified (eventsIn {dead, rejoin}) ∧
      (Library.run accept e [(dead, 0), (rejoin, 0)]).bind (fun e => e.standing 7) =
        some ⟨1, .dead⟩ ∧
      (Library.run accept e [(rejoin, 0), (dead, 0)]).bind (fun e => e.standing 7) =
        some ⟨2, .alive⟩ := by
  refine ⟨?_, ?_, by decide, by decide⟩
  · simp [DistinctIds, announcement, HlcEventId.key]
  · simp [Identified, eventsIn, announcement, HlcEventId.key]

/-- The same events with clocks that agree with the incarnations. -/
theorem hlc_gossip_converges_rejoin :
    let e : GossipEngine ℕ Unit := .new 0 ⟨5, 5, 5, none, true⟩ ∅ (.withClock 1000 fun _ => 4) 0
    let dead := announcement 1 3 1 .dead
    let rejoin := announcement 2 5 2 .alive
    ∃ e₁ e₂, Library.run accept e [(dead, 0), (rejoin, 0)] = some e₁ ∧
      Library.run accept e [(rejoin, 0), (dead, 0), (rejoin, 1)] = some e₂ ∧
      e₁.standing 7 = some ⟨2, .alive⟩ ∧ e₁.standing 7 = e₂.standing 7 := by
  intro e dead rejoin
  have hstanding : (Library.run accept e [(dead, 0), (rejoin, 0)]).bind (fun e => e.standing 7) =
      some ⟨2, .alive⟩ := by decide
  have hsome : (Library.run accept e [(rejoin, 0), (dead, 0), (rejoin, 1)]).isSome := by decide
  obtain ⟨e₁, hfirst, hlast⟩ := Option.bind_eq_some_iff.mp hstanding
  obtain ⟨e₂, hsecond⟩ := Option.isSome_iff_exists.mp hsome
  refine ⟨e₁, e₂, hfirst, hsecond, hlast, ?_⟩
  refine hlc_gossip_converges (M := {dead, rejoin}) ?_ ?_ ?_ ?_ ?_ hfirst hsecond 7
  · simp [DistinctIds, dead, rejoin, announcement, HlcEventId.key]
  · simp [Identified, eventsIn, dead, rejoin, announcement, HlcEventId.key]
  · simp [Agreeing, eventsIn, dead, rejoin, announcement]
    decide
  · simp
  · simp [or_comm]

end GossipEngine

end Chirps.Gossip
