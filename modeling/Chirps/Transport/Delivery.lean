/-
# Delivery between endpoints

What a receiver has accepted is what its deduplication state says. Without restarts every number in
use is below the sender's next one, and no acknowledgement exceeds what was accepted without a
gap.
-/

import Chirps.Transport.Network

namespace Chirps.Transport

open Chirps.Library
open Option (map_eq_some_iff)

/-! ## The receiver -/

namespace Link

variable {φ : Type*}

def acceptedSeqs (link : Link φ) : Set ℕ := {n | ∃ e ∈ link.accepted, e.seq = n}

structure Sound (link : Link φ) : Prop where
  wellFormed : ∀ buf ∈ link.buffer, buf.WellFormed
  knows : link.dedup.Knows link.acceptedSeqs
  nodup : (link.accepted.map Envelope.seq).Nodup
  accepted_subset : link.accepted ⊆ link.envelopes
  accepted_arrived : link.accepted ⊆ link.arrived
  processing_subset : link.processing ⊆ link.accepted
  settled : (link.delivered ++ link.processing.map Envelope.frame).Perm
    (link.accepted.map Envelope.frame)

theorem sound_initial : (initial : Link φ).Sound where
  wellFormed := by simp [initial]
  knows := by
    have hnone : (initial : Link φ).acceptedSeqs = ∅ := by simp [acceptedSeqs, initial]
    rw [hnone]
    exact PeerDedupState.knows_new
  nodup := .nil
  accepted_subset := List.nil_subset _
  accepted_arrived := List.nil_subset _
  processing_subset := List.nil_subset _
  settled := .nil

namespace Sound

variable {link next : Link φ}

theorem of_sender (sound : link.Sound) (buffer : ∀ buf ∈ next.buffer, buf.WellFormed)
    (envelopes : link.envelopes ⊆ next.envelopes)
    (receiver : (next.dedup, next.processing, next.delivered, next.arrived, next.accepted) =
      (link.dedup, link.processing, link.delivered, link.arrived, link.accepted)) : next.Sound := by
  simp only [Prod.mk.injEq] at receiver
  obtain ⟨hdedup, hprocessing, hdelivered, harrived, haccepted⟩ := receiver
  constructor
  · exact buffer
  · rw [acceptedSeqs, hdedup, haccepted]
    exact sound.knows
  · rw [haccepted]
    exact sound.nodup
  · rw [haccepted]
    exact List.Subset.trans sound.accepted_subset envelopes
  · rw [haccepted, harrived]
    exact sound.accepted_arrived
  · rw [haccepted, hprocessing]
    exact sound.processing_subset
  · rw [haccepted, hprocessing, hdelivered]
    exact sound.settled

theorem getD_wellFormed (sound : link.Sound) : (link.buffer.getD .new).WellFormed := by
  cases hbuffer : link.buffer with
  | none => exact PeerBuffer.wellFormed_new
  | some buf => exact sound.wellFormed buf hbuffer

theorem take {config : RetransmitConfig} {now sizeBytes : ℕ} {frame : φ} (sound : link.Sound)
    (h : link.take config now frame sizeBytes = some next) : next.Sound := by
  obtain ⟨buf, hbuf, rfl⟩ := take_eq_some h
  refine sound.of_sender (fun buf' hbuf' => ?_) (List.Subset.refl _) rfl
  cases hbuf'
  exact (sound.getD_wellFormed.bufferWithSize hbuf).1

variable {ackSeq i : ℕ}

section

variable (sound : link.Sound)
include sound

theorem write (h : link.write ackSeq i = some next) : next.Sound := by
  obtain ⟨⟨seq, frame⟩, -, rfl⟩ := map_eq_some_iff.mp h
  exact sound.of_sender sound.wellFormed (List.subset_append_left _ _) rfl

theorem drain (config : RetransmitConfig) (now : ℕ) : (link.drain config now).Sound := by
  rw [Link.drain]
  split
  · exact sound.of_sender sound.wellFormed (List.Subset.refl _) rfl
  · rename_i buf hbuffer
    refine sound.of_sender (fun buf' hbuf' => ?_) (List.Subset.refl _) rfl
    cases hbuf'
    exact (sound.wellFormed buf hbuffer).handleOverflow

theorem retransmit (h : link.retransmit ackSeq i = some next) : next.Sound := by
  obtain ⟨messages, -, rfl⟩ := map_eq_some_iff.mp h
  exact sound.of_sender sound.wellFormed (List.subset_append_left _ _) rfl

theorem acknowledge (ackSeq : ℕ) : (link.acknowledge ackSeq).Sound := by
  refine sound.of_sender (fun buf hbuf => ?_) (List.Subset.refl _) rfl
  obtain ⟨old, hold, rfl⟩ := map_eq_some_iff.mp hbuf
  exact (sound.wellFormed old hold).processAck ackSeq

theorem receive (h : link.receive i = some next) : next.Sound := by
  obtain ⟨envelope, hget, ⟨dedup, hcheck, rfl⟩ | ⟨-, rfl⟩⟩ := receive_eq_some h
  · have hnew : envelope.seq ∉ link.acceptedSeqs :=
      sound.knows.notMem_of_accepted (by rw [hcheck])
    constructor
    · exact sound.wellFormed
    · convert (sound.knows.insert hcheck).1 using 1
      ext n
      simp only [acceptedSeqs, List.mem_append, List.mem_singleton, Set.mem_ofPred_eq,
        Set.mem_insert_iff]
      constructor
      · rintro ⟨e, he | rfl, rfl⟩
        · exact .inr ⟨e, he, rfl⟩
        · exact .inl rfl
      · rintro (rfl | ⟨e, he, rfl⟩)
        · exact ⟨envelope, .inr rfl, rfl⟩
        · exact ⟨e, .inl he, rfl⟩
    · rw [List.map_append, List.nodup_append]
      refine ⟨sound.nodup, List.nodup_singleton _, ?_⟩
      rintro a ha b hb rfl
      obtain ⟨e, he, rfl⟩ := List.mem_map.mp ha
      exact hnew ⟨e, he, by simpa using hb⟩
    · exact List.append_subset.mpr ⟨sound.accepted_subset, by
        simpa using List.mem_of_getElem? hget⟩
    · exact List.append_subset.mpr ⟨List.subset_append_of_subset_left _ sound.accepted_arrived,
        List.subset_append_right _ _⟩
    · exact List.append_subset.mpr ⟨List.subset_append_of_subset_left _ sound.processing_subset,
        List.subset_append_right _ _⟩
    · simpa [List.append_assoc] using sound.settled.append_right [envelope.frame]
  · exact ⟨sound.wellFormed, sound.knows, sound.nodup, sound.accepted_subset,
      List.subset_append_of_subset_left _ sound.accepted_arrived, sound.processing_subset,
      sound.settled⟩

theorem finish (h : link.finish i = some (ackSeq, next)) : next.Sound := by
  obtain ⟨envelope, hget, -, rfl⟩ := finish_eq_some h
  refine ⟨sound.wellFormed, sound.knows, sound.nodup, sound.accepted_subset,
    sound.accepted_arrived, List.Subset.trans List.eraseIdx_subset sound.processing_subset, ?_⟩
  -- the frame moves from the one list to the other
  obtain ⟨hlt, rfl⟩ := List.getElem?_eq_some_iff.mp hget
  have hperm :=
    ((List.getElem_cons_eraseIdx_perm hlt).map Envelope.frame).append_left link.delivered
  simpa [List.append_assoc] using hperm.trans sound.settled

theorem restartSender : link.restartSender.Sound :=
  sound.of_sender (by simp [Link.restartSender]) (List.Subset.refl _) rfl

theorem restartReceiver : link.restartReceiver.Sound where
  wellFormed := sound.wellFormed
  knows := by
    have hnone : link.restartReceiver.acceptedSeqs = ∅ := by
      simp [acceptedSeqs, Link.restartReceiver]
    rw [hnone]
    exact PeerDedupState.knows_new
  nodup := .nil
  accepted_subset := List.nil_subset _
  accepted_arrived := List.nil_subset _
  processing_subset := List.nil_subset _
  settled := .nil

theorem mem_acceptedSeqs {seq : ℕ} (pos : 0 < seq)
    (h : seq ≤ link.dedup.contiguousSeq) : seq ∈ link.acceptedSeqs :=
  sound.knows.describes.mem_of_le pos h

theorem processing_mem {envelope : Envelope φ}
    (h : envelope ∈ link.processing) : envelope ∈ link.envelopes :=
  sound.accepted_subset (sound.processing_subset h)

theorem carries_of_accepted {envelope : Envelope φ}
    (h : envelope ∈ link.accepted) : link.Carries envelope.seq envelope.frame :=
  carries_of_mem_envelopes (sound.accepted_subset h)

end

end Sound

end Link

/-! ## Both ends -/

namespace Network

variable {ι φ : Type*} [DecidableEq ι] {config : RetransmitConfig} {x next : Network ι φ}
  {event : Event ι φ}

def Sound (x : Network ι φ) : Prop := ∀ l, (x l).Sound

omit [DecidableEq ι] in
theorem Sound.knows (sound : x.Sound) (l : ι × ι) : ∃ A, (x l).dedup.Knows A :=
  ⟨_, (sound l).knows⟩

theorem Sound.step (sound : x.Sound) (h : x.step config event = some next) : next.Sound := by
  have hothers : ∀ (l m : ι × ι), l ≠ m → (x l).Sound := fun l _ _ => sound l
  cases event with
  | buffer m frame sizeBytes now =>
    obtain ⟨link, htake, rfl⟩ := map_eq_some_iff.mp h
    exact forall_update (p := fun _ => Link.Sound) ((sound m).take htake) (hothers · m)
  | write m i =>
    obtain ⟨link, hwrite, rfl⟩ := map_eq_some_iff.mp h
    exact forall_update (p := fun _ => Link.Sound) ((sound m).write hwrite) (hothers · m)
  | drain m now =>
    cases h
    exact forall_update (p := fun _ => Link.Sound) ((sound m).drain config now) (hothers · m)
  | retransmit m i =>
    obtain ⟨link, hwrite, rfl⟩ := map_eq_some_iff.mp h
    exact forall_update (p := fun _ => Link.Sound) ((sound m).retransmit hwrite) (hothers · m)
  | receive m i =>
    obtain ⟨link, hreceive, rfl⟩ := map_eq_some_iff.mp h
    exact forall_update (p := fun _ => Link.Sound) ((sound m).receive hreceive) (hothers · m)
  | finish m i =>
    obtain ⟨⟨ackSeq, link⟩, hfinish, rfl⟩ := map_eq_some_iff.mp h
    have hfirst : ∀ l, (Function.update x m link l).Sound :=
      forall_update (p := fun _ => Link.Sound) ((sound m).finish hfinish) (hothers · m)
    exact forall_update (p := fun _ => Link.Sound) ((hfirst m.swap).acknowledge ackSeq)
      fun l _ => hfirst l
  | restart a =>
    cases h
    intro l
    dsimp only
    have hsender : (if l.1 = a then (x l).restartSender else x l).Sound := by
      split
      · exact (sound l).restartSender
      · exact sound l
    split
    · exact hsender.restartReceiver
    · exact hsender

structure InStep (x : Network ι φ) (l : ι × ι) : Prop where
  carried : ∀ seq frame, (x l).Carries seq frame → seq < (x l).nextSeq
  acks : ∀ envelope ∈ (x l.swap).envelopes, envelope.ackSeq ≤ (x l).dedup.contiguousSeq
  acked : ∀ buf ∈ (x l).buffer, buf.ackedSeq ≤ (x l).dedup.contiguousSeq

omit [DecidableEq ι] in
theorem not_carries_initial {seq : ℕ} {frame : φ} : ¬(Link.initial : Link φ).Carries seq frame := by
  simp [Link.Carries, Link.initial]

omit [DecidableEq ι] in
theorem inStep_initial (l : ι × ι) : (initial : Network ι φ).InStep l where
  carried _ _ h := absurd h not_carries_initial
  acks := by simp [initial, Link.initial]
  acked := by simp [initial, Link.initial]

theorem InStep.step {l : ι × ι} (sound : x.Sound) (inStep : x.InStep l) (spares : event.Spares l)
    (h : x.step config event = some next) : next.InStep l := by
  have moves := moves_of_spares sound.knows spares h
  refine ⟨fun seq frame hcarries => ?_, fun envelope hmem => ?_, ?_⟩
  · rw [moves.nextSeq_eq]
    rcases moves.carries seq frame hcarries with hold | ⟨hnew, hseq, -⟩
    · exact (inStep.carried seq frame hold).trans_le (Nat.le_add_right _ _)
    · rw [hnew, hseq]
      exact Nat.lt_succ_self _
  · rcases (evolves_of_step sound.knows h l.swap).acks envelope hmem with hold | hnew
    · exact (inStep.acks envelope hold).trans moves.contiguousSeq_le
    · rw [hnew, Prod.swap_swap]
      exact moves.contiguousSeq_le
  · refine moves.acked _ (fun buf hbuf => ?_) fun envelope hmem => ?_
    · exact (inStep.acked buf hbuf).trans moves.contiguousSeq_le
    · exact (inStep.acks envelope ((sound l.swap).processing_mem hmem)).trans
        moves.contiguousSeq_le

structure Numbered (x : Network ι φ) (l : ι × ι) : Prop where
  pos : ∀ seq frame, (x l).Carries seq frame → 0 < seq
  fits : ∀ seq frame, (x l).Carries seq frame → seq < u64Max
  unique : ∀ seq frame frame', (x l).Carries seq frame → (x l).Carries seq frame' → frame = frame'

theorem Numbered.step {l : ι × ι} (sound : x.Sound) (inStep : x.InStep l) (numbered : x.Numbered l)
    (h : x.step config event = some next) : next.Numbered l := by
  have evolves := evolves_of_step sound.knows h l
  have hpos : 0 < (x l).nextSeq := (sound l).getD_wellFormed.nextSeq_pos
  -- the next number is not in use
  have hfresh : ∀ frame, ¬(x l).Carries (x l).nextSeq frame := fun frame hcarries =>
    lt_irrefl _ (inStep.carried _ frame hcarries)
  refine ⟨fun seq frame hcarries => ?_, fun seq frame hcarries => ?_,
    fun seq frame frame' hcarries hcarries' => ?_⟩
  · rcases evolves.carries seq frame hcarries with hold | ⟨-, rfl, -⟩
    · exact numbered.pos seq frame hold
    · exact hpos
  · rcases evolves.carries seq frame hcarries with hold | ⟨-, -, hlt⟩
    · exact numbered.fits seq frame hold
    · exact hlt
  · rcases evolves.carries seq frame hcarries with hold | ⟨hnew, rfl, -⟩ <;>
      rcases evolves.carries _ frame' hcarries' with hold' | ⟨hnew', hseq', -⟩
    · exact numbered.unique seq frame frame' hold hold'
    · exact absurd (hseq' ▸ hold) (hfresh frame)
    · exact absurd hold' (hfresh frame')
    · exact Option.some.inj (hnew.symm.trans hnew')

theorem keeps_run {events : List (Event ι φ)}
    (reach : run (step config) (initial : Network ι φ) events = some x)
    (keeps : ∀ event ∈ events, event.Keeps) : x.Sound ∧ ∀ l, x.InStep l ∧ x.Numbered l := by
  refine run_invariant_of_along
    (I := fun x : Network ι φ => x.Sound ∧ ∀ l, x.InStep l ∧ x.Numbered l)
    (G := fun _ event => event.Keeps) (fun y event next ⟨sound, hlinks⟩ keeps h => ?_)
    ⟨fun _ => Link.sound_initial, fun l => ⟨inStep_initial l, ?_⟩⟩
    (along_of_forall fun _ => keeps) reach
  · exact ⟨sound.step h, fun l =>
      ⟨(hlinks l).1.step sound (keeps.spares l) h, (hlinks l).2.step sound (hlinks l).1 h⟩⟩
  · exact ⟨fun _ _ h => absurd h not_carries_initial, fun _ _ h => absurd h not_carries_initial,
      fun _ _ _ h => absurd h not_carries_initial⟩

end Network

/-- The receiver has taken the message. -/
def Link.Accepted {φ : Type*} (link : Link φ) (message : BufferedMessage φ) : Prop :=
  ∃ e ∈ link.accepted, e.seq = message.seq ∧ e.frame = message.frame

theorem Network.accepted_of_le {ι φ : Type*} {x : Network ι φ} {l : ι × ι}
    {buf : PeerBuffer φ} {message : BufferedMessage φ} (sound : (x l).Sound)
    (numbered : x.Numbered l) (hbuf : buf ∈ (x l).buffer) (hmem : message ∈ buf.messages)
    (h : message.seq ≤ (x l).dedup.contiguousSeq) : (x l).Accepted message := by
  have hcarries := Link.carries_of_mem_messages hbuf hmem
  obtain ⟨e, he, hseq⟩ := sound.mem_acceptedSeqs (numbered.pos _ _ hcarries) h
  refine ⟨e, he, hseq, numbered.unique message.seq _ _ ?_ hcarries⟩
  exact hseq ▸ sound.carries_of_accepted he

open Network in
/-- Without restarts no sequence number is accepted twice, what the sender takes for acknowledged
was accepted, and the buffer keeps its order and its limits. -/
theorem reliable_delivery {ι φ : Type*} [DecidableEq ι] (config : RetransmitConfig)
    (events : List (Event ι φ)) (x : Network ι φ)
    (reach : run (step config) initial events = some x)
    (keeps : ∀ event ∈ events, event.Keeps) (l : ι × ι) :
    ((x l).accepted.map Envelope.seq).Nodup ∧
    (IsGreatest {n | ∀ m, 0 < m → m ≤ n → m ∈ (x l).acceptedSeqs} (x l).dedup.contiguousSeq ∧
      (∀ n, n ∈ (x l).dedup.outOfOrder ↔
        n ∈ (x l).acceptedSeqs ∧ (x l).dedup.contiguousSeq < n) ∧
      ∀ n ∈ (x l).dedup.outOfOrder, n ≤ (x l).dedup.contiguousSeq + windowSize) ∧
    (∀ buf ∈ (x l).buffer, buf.ackedSeq ≤ (x l).dedup.contiguousSeq ∧
      (∀ envelope ∈ (x l.swap).processing, ∀ message ∈ buf.messages,
        message ∉ (buf.processAck envelope.ackSeq).messages → (x l).Accepted message) ∧
      ∀ now, ∀ message ∈ (buf.handleOverflow config now).messages,
        message ∉ (buf.handleOverflow config now).unacked → (x l).Accepted message) ∧
    (∀ buf ∈ (x l).buffer, (buf.messages.map BufferedMessage.seq).Pairwise (· < ·) ∧
      (∀ message ∈ buf.messages, message.seq < buf.nextSeq) ∧
      buf.totalBytes = (buf.messages.map BufferedMessage.sizeBytes).sum) ∧
    ∀ frame sizeBytes now seq buf,
      ((x l).buffer.getD .new).bufferWithSize config now frame sizeBytes = some (seq, buf) →
        buf.totalBytes ≤ config.maxBufferBytes ∧
          buf.messages.length ≤ config.maxMessagesPerPeer := by
  obtain ⟨sound, hlinks⟩ := keeps_run reach keeps
  obtain ⟨inStep, numbered⟩ := hlinks l
  have hdescribes := (sound l).knows.describes
  refine ⟨(sound l).nodup, ⟨hdescribes.isGreatest, fun n => hdescribes.mem_above_iff,
    (sound l).knows.window⟩, fun buf hbuf => ⟨inStep.acked buf hbuf, ?_, ?_⟩, ?_, ?_⟩
  · intro envelope henvelope message hmem hgone
    have hack := inStep.acks envelope ((sound l.swap).processing_mem henvelope)
    exact accepted_of_le (sound l) numbered hbuf hmem
      ((PeerBuffer.seq_le_of_processAck hmem hgone).trans hack)
  · intro now message hmem hwithheld
    have hle := PeerBuffer.seq_le_of_notMem_unacked hmem hwithheld
    exact accepted_of_le (sound l) numbered hbuf (PeerBuffer.handleOverflow_suffix.subset hmem)
      (hle.trans (inStep.acked buf hbuf))
  · intro buf hbuf
    have wellFormed := (sound l).wellFormed buf hbuf
    exact ⟨wellFormed.increasing, wellFormed.below, wellFormed.totalBytes_eq⟩
  · intro frame sizeBytes now seq buf hbuf
    exact ((sound l).getD_wellFormed.bufferWithSize hbuf).2

theorem reliable_delivery_of_answer :
    ∃ x, run (Network.step .standard) (Network.initial : Network Bool ℕ)
        [.buffer (false, true) 7 100 0, .write (false, true) 0, .receive (false, true) 0,
          .finish (false, true) 0, .buffer (true, false) 8 100 0, .write (true, false) 0,
          .receive (true, false) 0, .finish (true, false) 0] = some x ∧
      (x (false, true)).delivered = [7] ∧
      (x (false, true)).buffer.map PeerBuffer.messages = some [] ∧
      ((x (false, true)).accepted.map Envelope.seq).Nodup ∧
      ∀ buf ∈ (x (false, true)).buffer, buf.ackedSeq ≤ (x (false, true)).dedup.contiguousSeq := by
  refine exists_of_evaluated (fun x => (x (false, true)).delivered = [7] ∧
      (x (false, true)).buffer.map PeerBuffer.messages = some [])
    (by decide +kernel) fun x hx ⟨hdelivered, hbuffer⟩ => ?_
  have hall := reliable_delivery .standard _ x hx (by simp [Event.Keeps]) (false, true)
  exact ⟨hdelivered, hbuffer, hall.1, fun buf hbuf => (hall.2.2.1 buf hbuf).1⟩

end Chirps.Transport
