/-
# No timestamp twice

The ranges on the network are disjoint, and a client owns those that answer its requests. As long as
no client is given the answer to another's request, no timestamp is returned twice.
-/

import Chirps.Tso.Cluster

namespace Chirps.Tso

open Chirps.Library Chirps.RaftStorage
open Function (update update_of_ne update_self)

namespace Cluster

variable {codec : TsoCodec} {ν τ κ : Type*} [DecidableEq τ] [DecidableEq κ]

/-! ## Ranges and their clients -/

/-- Ranges on the network are among the allocated, in order, and who waits on a channel has opened
it. -/
structure Sound (x : Cluster codec ν τ κ) : Prop where
  ordered : x.oracle.Ordered
  ranges : (x.envelopes.filterMap Envelope.range).Sublist x.oracle.allocated
  waiting : ∀ t id waiter, (x.transports t).pending id = some waiter →
    x.opened[waiter.channel]? = some waiter.client

def Owned (x : Cluster codec ν τ κ) (c : κ) (range : TimestampRange) : Prop :=
  ∃ envelope ∈ x.envelopes, envelope.range = some range ∧ x.opened[envelope.channel]? = some c

omit [DecidableEq τ] [DecidableEq κ] in
theorem sound_initial (D : Deployment ν τ κ) : (initial codec D).Sound where
  ordered := Issuing.ordered_initial
  ranges := by simp [initial]
  waiting t id waiter h := by simp [initial, ChirpsTsoTransport.new] at h

namespace Sound

variable {D : Deployment ν τ κ} {x next : Cluster codec ν τ κ} {event : ClusterEvent τ κ}

omit [DecidableEq τ] [DecidableEq κ] in
theorem wellFormed (sound : x.Sound) {envelope : Envelope ν} {range : TimestampRange}
    (hmem : envelope ∈ x.envelopes) (hrange : envelope.range = some range) : range.WellFormed :=
  sound.ordered.wellFormed range
    (sound.ranges.subset (List.mem_filterMap.mpr ⟨envelope, hmem, hrange⟩))

omit [DecidableEq κ] in
theorem waiting_setTransport {t : τ} {transport : ChirpsTsoTransport κ} (sound : x.Sound)
    (fewer : transport.Fewer (x.transports t)) (u : τ) (id : UInt64) (waiter : PendingResponse κ)
    (h : (update x.transports t transport u).pending id = some waiter) :
    x.opened[waiter.channel]? = some waiter.client := by
  by_cases hu : u = t
  · subst hu
    rw [update_self] at h
    exact sound.waiting u id waiter (fewer.pending id waiter h)
  · rw [update_of_ne hu] at h
    exact sound.waiting u id waiter h

theorem change (roundTrips : codec.RoundTrips) (sound : x.Sound) (h : x.Change D event next) :
    next.Sound := by
  cases h with
  | oracle h =>
    exact ⟨sound.ordered.step roundTrips h,
      sound.ranges.trans (Issuing.allocated_prefix h).sublist, sound.waiting⟩
  | serve asked h =>
    refine ⟨sound.ordered.step roundTrips h, ?_, sound.waiting⟩
    rw [send, List.filterMap_append, Issuing.allocated_apply h]
    refine sound.ranges.append ?_
    -- the only range sent is the one allocated
    generalize (transition _ _).1 = response
    cases response
      <;> simp [Envelope.range, TsoFrame.timestamps, allocationResult, TsoResponse.range,
      Except.toOption]
  | reply hasked replies h =>
    refine ⟨sound.ordered, ?_, sound.waiting⟩
    rw [send, List.filterMap_append]
    simpa [h] using sound.ranges
  | client fewer moves =>
    exact ⟨sound.ordered, sound.ranges, sound.waiting_setTransport fewer⟩
  | idle fewer => exact ⟨sound.ordered, sound.ranges, sound.waiting_setTransport fewer⟩
  | receives =>
    exact ⟨sound.ordered, sound.ranges,
      sound.waiting_setTransport (ChirpsTsoTransport.fewer_remove _ _)⟩
  | @opens event c t frame moved hrange hid moves =>
    refine ⟨sound.ordered, ?_, ?_⟩
    · have hranges := sound.ranges
      simpa [settle, send, setTransport, List.filterMap_append, Envelope.range, hrange]
        using hranges
    · intro u id waiter hpending
      change (update x.transports t _ u).pending id = some waiter at hpending
      change (x.opened ++ [c])[waiter.channel]? = some waiter.client
      have hold : (x.transports u).pending id = some waiter →
          (x.opened ++ [c])[waiter.channel]? = some waiter.client := by
        intro hwaits
        have hopened := sound.waiting u id waiter hwaits
        rw [List.getElem?_append_left (List.getElem?_eq_some_iff.mp hopened).1]
        exact hopened
      by_cases hu : u = t
      · subst hu
        rw [update_self] at hpending
        rcases ChirpsTsoTransport.pending_of_register hpending with hwaits | ⟨-, rfl⟩
        · exact hold hwaits
        · simp
      · rw [update_of_ne hu] at hpending
        exact hold hpending

omit [DecidableEq τ] [DecidableEq κ] in
theorem eq_of_owned (sound : x.Sound) {c d : κ} {r r' : TimestampRange} {t : HybridTimestamp}
    (hc : x.Owned c r) (hd : x.Owned d r') (hr : t ∈ Set.Icc r.start r.endAt)
    (hr' : t ∈ Set.Icc r'.start r'.endAt) : c = d := by
  obtain ⟨envelope, hmem, hrange, hopened⟩ := hc
  obtain ⟨envelope', hmem', hrange', hopened'⟩ := hd
  have hpairwise : x.envelopes.Pairwise fun a b => ∀ r ∈ a.range, ∀ r' ∈ b.range,
      Disjoint (Set.Icc r.start r.endAt) (Set.Icc r'.start r'.endAt) :=
    List.pairwise_filterMap.mp ((sound.ordered.increasing.sublist sound.ranges).imp
      TimestampRange.disjoint_of_endAt_lt)
  by_cases hsame : envelope = envelope'
  · subst hsame
    exact Option.some.inj (hopened.symm.trans hopened')
  · have : Std.Symm fun a b : Envelope ν => ∀ r ∈ a.range, ∀ r' ∈ b.range,
        Disjoint (Set.Icc r.start r.endAt) (Set.Icc r'.start r'.endAt) :=
      ⟨fun _ _ h r hr r' hr' => (h r' hr' r hr).symm⟩
    have hdisjoint := hpairwise.forall hmem hmem' hsame r hrange r' hrange'
    exact absurd hr' (Set.disjoint_left.mp hdisjoint hr)

end Sound

/-! ## What the clients return -/

section Clients

variable {D : Deployment ν τ κ} {x next : Cluster codec ν τ κ} {event : ClusterEvent τ κ}
  {Owns : κ → TimestampRange → Prop}

def ClientsSound (Owns : κ → TimestampRange → Prop) (x : Cluster codec ν τ κ) : Prop :=
  ∀ c, (x.clients c).Inv (Owns c) (x.returned c)

omit [DecidableEq τ] in
theorem ClientsSound.settle (sound : x.ClientsSound Owns) {c : κ} {moved : CallResult × TsoClient}
    (moves : moved.2.Inv (Owns c) (x.returned c ++ TsoClient.handedOut moved.1)) :
    (x.settle c moved).ClientsSound Owns := by
  intro d
  change (update x.clients c moved.2 d).Inv (Owns d) (update x.returned c _ d)
  by_cases hd : d = c
  · subst hd
    rw [update_self, update_self]
    exact moves
  · rw [update_of_ne hd, update_of_ne hd]
    exact sound d

theorem ClientsSound.change (sound : x.ClientsSound Owns)
    (wellFormed : ∀ c range, Owns c range → range.WellFormed)
    (received : ∀ i t envelope correlationId waiter range, event = .deliver i t →
      x.envelopes[i]? = some envelope → envelope.frame.responseTo = some correlationId →
      (x.transports t).pending correlationId = some waiter → envelope.range = some range →
      Owns waiter.client range)
    (h : x.Change D event next) : next.ClientsSound Owns := by
  cases h with
  | oracle | serve | reply | idle => exact sound
  | client fewer moves =>
    exact settle (x := x.setTransport _ _) sound (moves _ _ (wellFormed _) (sound _))
  | @opens event c t frame moved hrange hid moves =>
    exact settle (x := ({ x with opened := x.opened ++ [c] }.setTransport t _).send _) sound
      (moves _ _ (wellFormed c) (sound c))
  | @receives i t envelope correlationId waiter henvelope hresponse hwaiter =>
    refine settle (x := x.setTransport _ _) sound
      ((sound waiter.client).resume (fun range hrange => ?_) _)
    refine received i t envelope correlationId waiter range rfl henvelope hresponse hwaiter ?_
    rw [Envelope.range, hrange]
    rfl

omit [DecidableEq τ] [DecidableEq κ] in
theorem clientsSound_initial (D : Deployment ν τ κ) : (initial codec D).ClientsSound Owns :=
  fun _ => TsoClient.inv_new _ _ _ _

omit [DecidableEq τ] [DecidableEq κ] in
theorem ClientsSound.mono {Owns' : κ → TimestampRange → Prop} (sound : x.ClientsSound Owns)
    (owns : ∀ c range, Owns c range → Owns' c range) : x.ClientsSound Owns' :=
  fun c => (sound c).mono (owns c)

theorem Change.grows (h : x.Change D event next) :
    x.envelopes <+: next.envelopes ∧ x.opened <+: next.opened := by
  cases h with
  | serve | reply => exact ⟨List.prefix_append _ _, List.prefix_rfl⟩
  | opens => exact ⟨List.prefix_append _ _, List.prefix_append _ _⟩
  | oracle | client | idle | receives => exact ⟨List.prefix_rfl, List.prefix_rfl⟩

theorem Owned.change {c : κ} {range : TimestampRange} (owned : x.Owned c range)
    (h : x.Change D event next) : next.Owned c range := by
  obtain ⟨envelope, hmem, hrange, hopened⟩ := owned
  obtain ⟨later, hlater⟩ := h.grows.2
  refine ⟨envelope, h.grows.1.subset hmem, hrange, ?_⟩
  rw [← hlater, List.getElem?_append_left (List.getElem?_eq_some_iff.mp hopened).1]
  exact hopened

end Clients

/-! ## Uniqueness -/

section Runs

variable [DecidableEq ν] {D : Deployment ν τ κ} {x : Cluster codec ν τ κ}
  {events : List (ClusterEvent τ κ)}

section

variable (roundTrips : codec.RoundTrips)
include roundTrips

section

variable (reach : run (step D) (initial codec D) events = some x)
include reach

theorem sound_run : x.Sound :=
  run_invariant (fun _ _ _ sound h => sound.change roundTrips (change_of_step h))
    (sound_initial D) reach

theorem returned_increasing (c : κ) : (x.returned c).Pairwise (· < ·) := by
  have hinv : x.Sound ∧ x.ClientsSound fun _ range => range.WellFormed := by
    refine run_invariant (I := fun x => x.Sound ∧ x.ClientsSound fun _ range => range.WellFormed)
      (fun y event next ⟨sound, clients⟩ h => ?_) ⟨sound_initial D, clientsSound_initial D⟩ reach
    refine ⟨sound.change roundTrips (change_of_step h),
      clients.change (fun _ _ => id) ?_ (change_of_step h)⟩
    intro i t envelope id waiter range _ henvelope _ _ hrange
    exact sound.wellFormed (List.mem_of_getElem? henvelope) hrange
  exact (List.pairwise_append.mp (hinv.2 c).increasing).1

theorem owned_run
    (answered : Along (step D) Answered (initial codec D) events) : x.ClientsSound x.Owned := by
  refine (run_invariant_of_along (I := fun x => x.Sound ∧ x.ClientsSound x.Owned)
    (fun y event next ⟨sound, clients⟩ hanswered h => ?_)
    ⟨sound_initial D, clientsSound_initial D⟩ answered reach).2
  have hchange := change_of_step h
  refine ⟨sound.change roundTrips hchange, ?_⟩
  refine (clients.change ?_ ?_ hchange).mono fun c range owned => owned.change hchange
  · rintro c range ⟨envelope, hmem, hrange, -⟩
    exact sound.wellFormed hmem hrange
  · -- the response was asked for by the client that waits for it
    rintro i t envelope id waiter range rfl henvelope hresponse hwaiter hrange
    have hchannel := hanswered envelope henvelope id hresponse waiter hwaiter
    exact ⟨envelope, List.mem_of_getElem? henvelope, hrange,
      hchannel ▸ sound.waiting t id waiter hwaiter⟩

end

end

end Runs

end Cluster

open Cluster in
/-- If a response reaches only the request that it answers, no timestamp is returned twice. -/
theorem timestamps_unique {ν τ κ : Type*} [DecidableEq ν] [DecidableEq τ] [DecidableEq κ]
    (codec : TsoCodec) (roundTrips : codec.RoundTrips) (D : Deployment ν τ κ)
    (events : List (ClusterEvent τ κ)) (x : Cluster codec ν τ κ)
    (reach : run (step D) (initial codec D) events = some x)
    (answered : Along (step D) Answered (initial codec D) events) :
    (∀ c, (x.returned c).Pairwise (· < ·)) ∧
      ∀ c d, c ≠ d → ∀ t ∈ x.returned c, t ∉ x.returned d := by
  refine ⟨returned_increasing roundTrips reach, fun c d hne t hc hd => hne ?_⟩
  have clients := owned_run roundTrips reach answered
  obtain ⟨r, hr, hstart, hend⟩ := (clients c).issued t (List.mem_append_left _ hc)
  obtain ⟨r', hr', hstart', hend'⟩ := (clients d).issued t (List.mem_append_left _ hd)
  exact (sound_run roundTrips reach).eq_of_owned hr hr' ⟨hstart, hend⟩ ⟨hstart', hend'⟩

def neighbours : Deployment Unit Bool Bool where
  nodeOf _ := ()
  transport _ := (1, [])
  transportOf c := c
  requester _ := 1
  credential _ := []
  leader _ := some 1
  config _ := ⟨1, 0, 0, by decide⟩
  authenticate _ _ := true

def bothAsk : List (ClusterEvent Bool Bool) :=
  [.oracle (.apply (.acquireLease 1 0 100)),
    .call false 1, .advance false, .request false,
    .call true 1, .advance true, .request true,
    .serve 0 1 0 7, .deliver 2 false]

/-- The node hands the response to both transports. Both requests have correlation id 1,
and both clients return the timestamp. -/
theorem neighbours_share_timestamp :
    (run (Cluster.step neighbours) (Cluster.initial TsoCodec.bincode neighbours)
      (bothAsk ++ [.deliver 2 true, .advance false, .advance false, .advance true,
        .advance true])).map (fun x => (x.returned false, x.returned true)) =
      some ([⟨7, 0⟩], [⟨7, 0⟩]) := by
  decide +kernel

/-- Both are served, and each response goes to the transport that asked. -/
theorem neighbours_served_apart :
    ∃ x, run (Cluster.step neighbours) (Cluster.initial TsoCodec.bincode neighbours)
        (bothAsk ++ [.serve 1 1 0 7, .deliver 3 true, .advance false, .advance false,
          .advance true, .advance true]) = some x ∧
      x.returned false = [⟨7, 0⟩] ∧ x.returned true = [⟨7, 1⟩] ∧
      (∀ c, (x.returned c).Pairwise (· < ·)) ∧
      ∀ c d, c ≠ d → ∀ t ∈ x.returned c, t ∉ x.returned d := by
  exact exists_of_evaluated
    (fun x => x.returned false = [⟨7, 0⟩] ∧ x.returned true = [⟨7, 1⟩]) (by decide +kernel)
    fun x hx ⟨hfalse, htrue⟩ => ⟨hfalse, htrue, timestamps_unique TsoCodec.bincode
      TsoCodec.bincode_roundTrips neighbours _ x hx (by decide +kernel)⟩

end Chirps.Tso
