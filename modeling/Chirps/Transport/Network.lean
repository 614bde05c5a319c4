/-
# Endpoints and the network between them

A link has the sender's retransmission buffer, everything sent on it and the receiver's
deduplication state. Envelopes arrive at any time, any number of times or never. Where the source
gives up a lock there are two events.
-/

import Chirps.Library.Run
import Chirps.Transport.Retransmit

namespace Chirps.Transport

open Chirps.Library
open List (mem_append mem_singleton)
open Option (map_eq_some_iff)
open Function (update)

/-- `FrameEnvelopeV2`. Its kind follows from the frame. -/
structure Envelope (φ : Type*) where
  seq : ℕ
  ackSeq : ℕ
  frame : φ
  deriving DecidableEq

/-- A link. What the sender and the receiver know is lost when they restart. -/
structure Link (φ : Type*) where
  buffer : Option (PeerBuffer φ)
  /-- Sends that have taken a sequence number and are going to write an envelope. -/
  taken : List (ℕ × φ)
  /-- What reconnecting tasks have drained and are going to write. -/
  drained : List (List (BufferedMessage φ))
  envelopes : List (Envelope φ)
  dedup : PeerDedupState
  /-- Accepted envelopes whose acknowledgement has not been processed. -/
  processing : List (Envelope φ)
  /-- What was passed to the subscriber. -/
  delivered : List φ
  /-- All envelopes that the receiver has checked, and those it accepted. -/
  arrived : List (Envelope φ)
  accepted : List (Envelope φ)

namespace Link

variable {φ : Type*}

def initial : Link φ := ⟨none, [], [], [], .new, [], [], [], []⟩

/-- The next sequence number; a buffer is created when it is first used. -/
def nextSeq (link : Link φ) : ℕ := (link.buffer.getD .new).nextSeq

/-- `send_to_peer` takes a sequence number. -/
def take (config : RetransmitConfig) (now : ℕ) (frame : φ) (sizeBytes : ℕ) (link : Link φ) :
    Option (Link φ) :=
  ((link.buffer.getD .new).bufferWithSize config now frame sizeBytes).map fun (seq, buf) =>
    { link with buffer := some buf, taken := link.taken ++ [(seq, frame)] }

/-- `send_to_peer` reads the acknowledgement and writes the envelope. -/
def write (ackSeq i : ℕ) (link : Link φ) : Option (Link φ) :=
  link.taken[i]?.map fun (seq, frame) =>
    { link with
      taken := link.taken.eraseIdx i
      envelopes := link.envelopes ++ [⟨seq, ackSeq, frame⟩] }

/-- `drain_for_retransmit` when a connection is made. -/
def drain (config : RetransmitConfig) (now : ℕ) (link : Link φ) : Link φ :=
  match link.buffer with
  | none => { link with drained := link.drained ++ [[]] }
  | some buf =>
    let buf := buf.handleOverflow config now
    { link with buffer := some buf, drained := link.drained ++ [buf.unacked] }

def retransmit (ackSeq i : ℕ) (link : Link φ) : Option (Link φ) :=
  link.drained[i]?.map fun messages =>
    { link with
      drained := link.drained.eraseIdx i
      envelopes := link.envelopes ++ messages.map fun message =>
        ⟨message.seq, ackSeq, message.frame⟩ }

/-- `process_envelope` up to `check_and_update`. -/
def receive (i : ℕ) (link : Link φ) : Option (Link φ) :=
  link.envelopes[i]?.map fun envelope =>
    match link.dedup.checkAndUpdate envelope.seq with
    | (false, dedup) =>
      { link with dedup := dedup, arrived := link.arrived ++ [envelope] }
    | (true, dedup) =>
      { link with
        dedup := dedup
        arrived := link.arrived ++ [envelope]
        accepted := link.accepted ++ [envelope]
        processing := link.processing ++ [envelope] }

def finish (i : ℕ) (link : Link φ) : Option (ℕ × Link φ) :=
  link.processing[i]?.map fun envelope =>
    (envelope.ackSeq,
      { link with
        processing := link.processing.eraseIdx i
        delivered := link.delivered ++ [envelope.frame] })

/-- `process_ack`, which does nothing where there is no buffer. -/
def acknowledge (ackSeq : ℕ) (link : Link φ) : Link φ :=
  { link with buffer := link.buffer.map (PeerBuffer.processAck ackSeq) }

def restartSender (link : Link φ) : Link φ :=
  { link with buffer := none, taken := [], drained := [] }

def restartReceiver (link : Link φ) : Link φ :=
  { link with dedup := .new, processing := [], delivered := [], arrived := [], accepted := [] }

end Link

/-- All links between the endpoints `ι`. -/
abbrev Network (ι φ : Type*) := ι × ι → Link φ

inductive Event (ι φ : Type*)
  | buffer (l : ι × ι) (frame : φ) (sizeBytes now : ℕ)
  | write (l : ι × ι) (i : ℕ)
  | drain (l : ι × ι) (now : ℕ)
  | retransmit (l : ι × ι) (i : ℕ)
  | receive (l : ι × ι) (i : ℕ)
  | finish (l : ι × ι) (i : ℕ)
  | restart (a : ι)

namespace Network

variable {ι φ : Type*} [DecidableEq ι]

def initial : Network ι φ := fun _ => .initial

/-- The acknowledgement that goes with an envelope of the link. -/
def ackSeq (x : Network ι φ) (l : ι × ι) : ℕ := (x l.swap).dedup.contiguousSeq

def step (config : RetransmitConfig) (x : Network ι φ) : Event ι φ → Option (Network ι φ)
  | .buffer l frame sizeBytes now =>
    ((x l).take config now frame sizeBytes).map (update x l)
  | .write l i => ((x l).write (x.ackSeq l) i).map (update x l)
  | .drain l now => some (update x l ((x l).drain config now))
  | .retransmit l i => ((x l).retransmit (x.ackSeq l) i).map (update x l)
  | .receive l i => ((x l).receive i).map (update x l)
  | .finish l i =>
    ((x l).finish i).map fun (ackSeq, link) =>
      let x := update x l link
      update x l.swap ((x l.swap).acknowledge ackSeq)
  | .restart a => some fun l =>
    let link := if l.1 = a then (x l).restartSender else x l
    if l.2 = a then link.restartReceiver else link

end Network

def Event.Keeps {ι φ : Type*} (event : Event ι φ) : Prop := ∀ a, event ≠ .restart a

/-- Neither end of the link restarts. -/
def Event.Spares {ι φ : Type*} (l : ι × ι) (event : Event ι φ) : Prop :=
  ∀ a, event = .restart a → l.1 ≠ a ∧ l.2 ≠ a

theorem Event.Keeps.spares {ι φ : Type*} {event : Event ι φ} (keeps : event.Keeps) (l : ι × ι) :
    event.Spares l :=
  fun a h => absurd h (keeps a)

def Event.buffered {ι φ : Type*} [DecidableEq ι] (l : ι × ι) : Event ι φ → Option φ
  | .buffer m frame _ _ => if m = l then some frame else none
  | _ => none

/-! ## One link -/

namespace Link

variable {φ : Type*}

/-- The frame has the number and is buffered, on its way, or on the network. -/
def Carries (link : Link φ) (seq : ℕ) (frame : φ) : Prop :=
  (∃ buf ∈ link.buffer, ∃ message ∈ buf.messages, message.seq = seq ∧ message.frame = frame) ∨
  (seq, frame) ∈ link.taken ∨
  (∃ messages ∈ link.drained, ∃ message ∈ messages, message.seq = seq ∧ message.frame = frame) ∨
  ∃ envelope ∈ link.envelopes, envelope.seq = seq ∧ envelope.frame = frame

variable {link : Link φ} {message : BufferedMessage φ}

theorem carries_of_mem_messages {buf : PeerBuffer φ} (hbuf : buf ∈ link.buffer)
    (hmem : message ∈ buf.messages) : link.Carries message.seq message.frame :=
  .inl ⟨buf, hbuf, message, hmem, rfl, rfl⟩

theorem carries_of_mem_drained {messages : List (BufferedMessage φ)}
    (hdrained : messages ∈ link.drained) (hmem : message ∈ messages) :
    link.Carries message.seq message.frame :=
  .inr (.inr (.inl ⟨messages, hdrained, message, hmem, rfl, rfl⟩))

theorem carries_of_mem_envelopes {envelope : Envelope φ} (h : envelope ∈ link.envelopes) :
    link.Carries envelope.seq envelope.frame :=
  .inr (.inr (.inr ⟨envelope, h, rfl, rfl⟩))

/-- One event of a link, with the reverse link `back` and the buffered frame `new`. -/
structure Evolves (back link next : Link φ) (new : Option φ) : Prop where
  carries : ∀ seq frame, next.Carries seq frame → link.Carries seq frame ∨
    (new = some frame ∧ seq = link.nextSeq ∧ seq < u64Max)
  acks : ∀ envelope ∈ next.envelopes, envelope ∈ link.envelopes ∨
    envelope.ackSeq = back.dedup.contiguousSeq
  acked : ∀ bound, (∀ buf ∈ link.buffer, buf.ackedSeq ≤ bound) →
    (∀ envelope ∈ back.processing, envelope.ackSeq ≤ bound) →
      ∀ buf ∈ next.buffer, buf.ackedSeq ≤ bound

structure Advances (link next : Link φ) (new : Option φ) : Prop where
  nextSeq_eq : next.nextSeq = link.nextSeq + new.toList.length
  contiguousSeq_le : link.dedup.contiguousSeq ≤ next.dedup.contiguousSeq

structure Moves (back link next : Link φ) (new : Option φ) : Prop extends
    Evolves back link next new, Advances link next new

structure SameSender (link next : Link φ) : Prop where
  buffer : next.buffer = link.buffer
  taken : next.taken = link.taken
  drained : next.drained = link.drained
  envelopes : next.envelopes = link.envelopes

variable {back link mid next : Link φ} {new : Option φ}

variable {frame : φ}

section

variable (same : SameSender link next)
include same

theorem SameSender.carries {seq : ℕ} : next.Carries seq frame ↔ link.Carries seq frame := by
  rw [Carries, Carries, same.buffer, same.taken, same.drained, same.envelopes]

theorem SameSender.nextSeq : next.nextSeq = link.nextSeq := by
  rw [Link.nextSeq, Link.nextSeq, same.buffer]

theorem SameSender.evolves : Evolves back link next new :=
  ⟨fun _ _ h => .inl (same.carries.mp h), fun _ h => .inl (same.envelopes ▸ h),
    fun _ hacked _ => same.buffer ▸ hacked⟩

theorem SameSender.moves
    (contiguousSeq_le : link.dedup.contiguousSeq ≤ next.dedup.contiguousSeq) :
    Moves back link next none :=
  ⟨same.evolves, ⟨same.nextSeq, contiguousSeq_le⟩⟩

end

theorem Moves.refl : Moves back link link none :=
  SameSender.moves ⟨rfl, rfl, rfl, rfl⟩ le_rfl

theorem SameSender.trans_moves (same : SameSender link mid)
    (contiguousSeq_le : link.dedup.contiguousSeq ≤ mid.dedup.contiguousSeq)
    (moves : Moves back mid next new) : Moves back link next new where
  carries seq frame h := by
    rw [← same.carries, ← same.nextSeq]
    exact moves.carries seq frame h
  acks envelope h := same.envelopes ▸ moves.acks envelope h
  acked bound hacked := moves.acked bound (same.buffer ▸ hacked)
  nextSeq_eq := by rw [moves.nextSeq_eq, same.nextSeq]
  contiguousSeq_le := contiguousSeq_le.trans moves.contiguousSeq_le

theorem carries_of_messages {buf : PeerBuffer φ} {seq : ℕ} (h : next.Carries seq frame)
    (hbuffer : next.buffer = some buf)
    (messages : ∀ message ∈ buf.messages, link.Carries message.seq message.frame)
    (taken : next.taken ⊆ link.taken) (drained : ∀ messages ∈ next.drained, ∀ message ∈ messages,
      link.Carries message.seq message.frame) (envelopes : next.envelopes = link.envelopes) :
    link.Carries seq frame := by
  rcases h with ⟨buf', hbuf', message, hmem, rfl, rfl⟩ | hmem | ⟨ms, hms, message, hmem, rfl, rfl⟩ |
    ⟨envelope, hmem, rfl, rfl⟩
  · cases hbuffer.symm.trans hbuf'
    exact messages message hmem
  · exact .inr (.inl (taken hmem))
  · exact drained ms hms message hmem
  · exact carries_of_mem_envelopes (envelopes ▸ hmem)

theorem take_eq_some {config : RetransmitConfig} {now sizeBytes : ℕ}
    (h : link.take config now frame sizeBytes = some next) :
    ∃ buf, (link.buffer.getD .new).bufferWithSize config now frame sizeBytes =
        some (link.nextSeq, buf) ∧
      next = { link with buffer := some buf, taken := link.taken ++ [(link.nextSeq, frame)] } := by
  obtain ⟨⟨seq, buf⟩, hbuf, rfl⟩ := map_eq_some_iff.mp h
  obtain rfl := (PeerBuffer.bufferWithSize_eq_some hbuf).1
  exact ⟨buf, hbuf, rfl⟩

theorem carries_of_mem_getD (h : message ∈ (link.buffer.getD .new).messages) :
    link.Carries message.seq message.frame := by
  cases hbuffer : link.buffer with
  | none =>
    rw [hbuffer] at h
    cases h
  | some buf =>
    rw [hbuffer] at h
    exact carries_of_mem_messages hbuffer h

theorem moves_take {config : RetransmitConfig} {now sizeBytes : ℕ}
    (h : link.take config now frame sizeBytes = some next) : Moves back link next (some frame) := by
  obtain ⟨buf, hbuf, rfl⟩ := take_eq_some h
  obtain ⟨-, hlt, hnext, hacked, hsuffix⟩ := PeerBuffer.bufferWithSize_eq_some hbuf
  refine ⟨⟨fun seq frame' hcarries => ?_, fun _ => .inl, fun bound hold _ buf' hbuf' => ?_⟩,
    ⟨hnext, le_rfl⟩⟩
  · -- the new message and the new send have the number that was next
    have hnew : (some frame = some frame' ∧ seq = link.nextSeq) → link.Carries seq frame' ∨
        (some frame = some frame' ∧ seq = link.nextSeq ∧ seq < u64Max) :=
      fun ⟨hframe, hseq⟩ => .inr ⟨hframe, hseq, hseq ▸ hlt⟩
    rcases hcarries with ⟨buf', hbuf', message, hmem, rfl, rfl⟩ | hmem | hold
    · cases hbuf'
      rcases mem_append.mp (hsuffix.subset hmem) with hold | hmessage
      · exact .inl (carries_of_mem_getD hold)
      · obtain rfl := mem_singleton.mp hmessage
        exact hnew ⟨rfl, rfl⟩
    · rcases mem_append.mp hmem with hold | hpair
      · exact .inl (.inr (.inl hold))
      · obtain ⟨rfl, rfl⟩ := Prod.mk.inj (mem_singleton.mp hpair)
        exact hnew ⟨rfl, rfl⟩
    · exact .inl (.inr (.inr hold))
  · cases hbuf'
    rw [hacked]
    cases hbuffer : link.buffer with
    | none => exact Nat.zero_le _
    | some old => exact hold old hbuffer

variable {i : ℕ}

theorem moves_write (h : link.write back.dedup.contiguousSeq i = some next) :
    Moves back link next none := by
  obtain ⟨⟨seq, frame⟩, hget, rfl⟩ := map_eq_some_iff.mp h
  refine ⟨⟨fun seq' frame' hcarries => .inl ?_, fun envelope hmem => ?_, fun _ hold _ => hold⟩,
    ⟨rfl, le_rfl⟩⟩
  · rcases hcarries with hbuf | hmem | hdrained | ⟨envelope, hmem, rfl, rfl⟩
    · exact .inl hbuf
    · exact .inr (.inl (List.mem_of_mem_eraseIdx hmem))
    · exact .inr (.inr (.inl hdrained))
    · rcases mem_append.mp hmem with hold | hnew
      · exact carries_of_mem_envelopes hold
      · rw [mem_singleton.mp hnew]
        exact .inr (.inl (List.mem_of_getElem? hget))
  · rcases mem_append.mp hmem with hold | hnew
    · exact .inl hold
    · rw [mem_singleton.mp hnew]
      exact .inr rfl

theorem moves_drain (config : RetransmitConfig) (now : ℕ) :
    Moves back link (link.drain config now) none := by
  rw [drain]
  split
  · refine ⟨⟨fun seq frame hcarries => .inl ?_, fun _ => .inl, fun _ hold _ => hold⟩,
      ⟨rfl, le_rfl⟩⟩
    rcases hcarries with hbuf | hmem | ⟨ms, hms, message, hmem, rfl, rfl⟩ | henvelope
    · exact .inl hbuf
    · exact .inr (.inl hmem)
    · rcases mem_append.mp hms with hold | hnew
      · exact carries_of_mem_drained hold hmem
      · rw [mem_singleton.mp hnew] at hmem
        cases hmem
    · exact .inr (.inr (.inr henvelope))
  · rename_i buf hbuffer
    have hmessages : ∀ message ∈ (buf.handleOverflow config now).messages,
        link.Carries message.seq message.frame := fun message hmem =>
      carries_of_mem_messages hbuffer (PeerBuffer.handleOverflow_suffix.subset hmem)
    refine ⟨⟨fun seq frame hcarries => .inl ?_, fun _ => .inl, fun bound hold _ buf' hbuf' => ?_⟩,
      ⟨?_, le_rfl⟩⟩
    · refine carries_of_messages hcarries rfl hmessages (List.Subset.refl _)
        (fun ms hms message hmem => ?_) rfl
      rcases mem_append.mp hms with hold | hnew
      · exact carries_of_mem_drained hold hmem
      · rw [mem_singleton.mp hnew] at hmem
        exact hmessages message (List.mem_of_mem_filter hmem)
    · cases hbuf'
      exact hold buf hbuffer
    · rw [nextSeq, nextSeq, hbuffer]
      rfl

theorem moves_retransmit (h : link.retransmit back.dedup.contiguousSeq i = some next) :
    Moves back link next none := by
  obtain ⟨messages, hget, rfl⟩ := map_eq_some_iff.mp h
  refine ⟨⟨fun seq' frame' hcarries => .inl ?_, fun envelope hmem => ?_, fun _ hold _ => hold⟩,
    ⟨rfl, le_rfl⟩⟩
  · rcases hcarries with hbuf | hmem | ⟨ms, hms, hmessage⟩ | ⟨envelope, hmem, rfl, rfl⟩
    · exact .inl hbuf
    · exact .inr (.inl hmem)
    · exact .inr (.inr (.inl ⟨ms, List.mem_of_mem_eraseIdx hms, hmessage⟩))
    · rcases mem_append.mp hmem with hold | hnew
      · exact carries_of_mem_envelopes hold
      · obtain ⟨message, hmessage, rfl⟩ := List.mem_map.mp hnew
        exact carries_of_mem_drained (List.mem_of_getElem? hget) hmessage
  · rcases mem_append.mp hmem with hold | hnew
    · exact .inl hold
    · obtain ⟨message, -, rfl⟩ := List.mem_map.mp hnew
      exact .inr rfl

theorem moves_acknowledge {e : Envelope φ} (h : e ∈ back.processing) :
    Moves back link (link.acknowledge e.ackSeq) none := by
  cases hbuffer : link.buffer with
  | none =>
    have hsame : (link.acknowledge e.ackSeq).buffer = link.buffer := by simp [acknowledge, hbuffer]
    exact SameSender.moves ⟨hsame, rfl, rfl, rfl⟩ le_rfl
  | some buf =>
    have hnext : (link.acknowledge e.ackSeq).buffer = some (buf.processAck e.ackSeq) := by
      simp [acknowledge, hbuffer]
    refine
      ⟨⟨fun seq frame hcarries => .inl ?_, fun _ => .inl, fun bound hold hacks buf' hbuf' => ?_⟩,
      ⟨?_, le_rfl⟩⟩
    · refine carries_of_messages hcarries hnext (fun message hmem => ?_)
        (List.Subset.refl _) (fun ms hms message hmem => ?_) rfl
      · exact carries_of_mem_messages hbuffer (PeerBuffer.processAck_suffix.subset hmem)
      · exact carries_of_mem_drained hms hmem
    · cases hnext.symm.trans hbuf'
      exact max_le (hold buf hbuffer) (hacks e h)
    · rw [nextSeq, nextSeq, hbuffer, hnext]
      rfl

theorem receive_eq_some (h : link.receive i = some next) :
    ∃ envelope, link.envelopes[i]? = some envelope ∧
      ((∃ dedup, link.dedup.checkAndUpdate envelope.seq = (true, dedup) ∧
          next = { link with
            dedup := dedup
            arrived := link.arrived ++ [envelope]
            accepted := link.accepted ++ [envelope]
            processing := link.processing ++ [envelope] }) ∨
        ((link.dedup.checkAndUpdate envelope.seq).1 = false ∧
          next = { link with arrived := link.arrived ++ [envelope] })) := by
  obtain ⟨envelope, hget, rfl⟩ := map_eq_some_iff.mp h
  refine ⟨envelope, hget, ?_⟩
  rcases hcheck : link.dedup.checkAndUpdate envelope.seq with ⟨_ | _, dedup⟩
  · obtain rfl := PeerDedupState.Knows.rejected hcheck
    exact .inr ⟨rfl, rfl⟩
  · exact .inl ⟨dedup, rfl, rfl⟩

theorem finish_eq_some {ackSeq : ℕ} (h : link.finish i = some (ackSeq, next)) :
    ∃ envelope, link.processing[i]? = some envelope ∧ ackSeq = envelope.ackSeq ∧
      next = { link with
        processing := link.processing.eraseIdx i
        delivered := link.delivered ++ [envelope.frame] } := by
  obtain ⟨envelope, hget, heq⟩ := map_eq_some_iff.mp h
  cases heq
  exact ⟨envelope, hget, rfl, rfl⟩

theorem moves_receive (h : link.receive i = some next) (knows : ∃ A, link.dedup.Knows A) :
    Moves back link next none := by
  obtain ⟨envelope, -, ⟨dedup, hcheck, rfl⟩ | ⟨-, rfl⟩⟩ := receive_eq_some h
  · obtain ⟨A, knows⟩ := knows
    exact SameSender.moves ⟨rfl, rfl, rfl, rfl⟩ (knows.insert hcheck).2
  · exact SameSender.moves ⟨rfl, rfl, rfl, rfl⟩ le_rfl

end Link

/-! ## All links -/

namespace Network

variable {ι φ : Type*} [DecidableEq ι] {config : RetransmitConfig} {x next : Network ι φ}
  {event : Event ι φ}

theorem forall_update {m : ι × ι} {link : Link φ} {p : ι × ι → Link φ → Prop} (self : p m link)
    (others : ∀ l, l ≠ m → p l (x l)) (l : ι × ι) : p l (update x m link l) := by
  by_cases hl : l = m
  · subst hl
    rw [Function.update_self]
    exact self
  · rw [Function.update_of_ne hl]
    exact others l hl

theorem moves_of_spares {l : ι × ι} (knows : ∀ l, ∃ A, (x l).dedup.Knows A)
    (spares : event.Spares l) (h : x.step config event = some next) :
    Link.Moves (x l.swap) (x l) (next l) (event.buffered l) := by
  cases event with
  | buffer m frame sizeBytes now =>
    obtain ⟨link, htake, rfl⟩ := map_eq_some_iff.mp h
    refine forall_update (p := fun l link => Link.Moves (x l.swap) (x l) link
      (Event.buffered l (.buffer m frame sizeBytes now))) ?_ (fun l hl => ?_) l
    · rw [Event.buffered, if_pos rfl]
      exact Link.moves_take htake
    · rw [Event.buffered, if_neg (Ne.symm hl)]
      exact .refl
  | write m i =>
    obtain ⟨link, hwrite, rfl⟩ := map_eq_some_iff.mp h
    exact forall_update (p := fun l link => Link.Moves (x l.swap) (x l) link none)
      (Link.moves_write hwrite) (fun l _ => .refl) l
  | drain m now =>
    cases h
    exact forall_update (p := fun l link => Link.Moves (x l.swap) (x l) link none)
      (Link.moves_drain config now) (fun l _ => .refl) l
  | retransmit m i =>
    obtain ⟨link, hwrite, rfl⟩ := map_eq_some_iff.mp h
    exact forall_update (p := fun l link => Link.Moves (x l.swap) (x l) link none)
      (Link.moves_retransmit hwrite) (fun l _ => .refl) l
  | receive m i =>
    obtain ⟨link, hreceive, rfl⟩ := map_eq_some_iff.mp h
    exact forall_update (p := fun l link => Link.Moves (x l.swap) (x l) link none)
      (Link.moves_receive hreceive (knows m)) (fun l _ => .refl) l
  | finish m i =>
    obtain ⟨⟨ackSeq, link⟩, hfinish, rfl⟩ := map_eq_some_iff.mp h
    obtain ⟨envelope, hget, rfl, hlink⟩ := Link.finish_eq_some hfinish
    -- the receiver's half of the link first, and then the buffer of the reverse link
    have hsame : ∀ l, Link.SameSender (x l) (update x m link l) ∧
        (x l).dedup.contiguousSeq ≤ (update x m link l).dedup.contiguousSeq := by
      refine forall_update (p := fun l link => Link.SameSender (x l) link ∧
        (x l).dedup.contiguousSeq ≤ link.dedup.contiguousSeq) ?_
        fun l _ => ⟨⟨rfl, rfl, rfl, rfl⟩, le_rfl⟩
      rw [hlink]
      exact ⟨⟨rfl, rfl, rfl, rfl⟩, le_rfl⟩
    refine forall_update (p := fun l link => Link.Moves (x l.swap) (x l) link none) ?_
      (fun l _ => (hsame l).1.moves (hsame l).2) l
    refine (hsame m.swap).1.trans_moves (hsame m.swap).2 (Link.moves_acknowledge ?_)
    rw [Prod.swap_swap]
    exact List.mem_of_getElem? hget
  | restart a =>
    cases h
    obtain ⟨hsender, hreceiver⟩ := spares a rfl
    dsimp only
    rw [if_neg hsender, if_neg hreceiver]
    exact .refl

theorem evolves_of_step (knows : ∀ l, ∃ A, (x l).dedup.Knows A)
    (h : x.step config event = some next) (l : ι × ι) :
    Link.Evolves (x l.swap) (x l) (next l) (event.buffered l) := by
  cases event with
  | restart a =>
    cases h
    have hsender : Link.Evolves (x l.swap) (x l)
        (if l.1 = a then (x l).restartSender else x l) none := by
      split
      · refine ⟨fun seq frame hcarries => .inl ?_, fun _ => .inl, fun _ _ _ buf hbuf => ?_⟩
        · rcases hcarries with ⟨_, hbuf, -⟩ | hmem | ⟨_, hmem, -⟩ | henvelope
          · cases hbuf
          · cases hmem
          · cases hmem
          · exact .inr (.inr (.inr henvelope))
        · cases hbuf
      · exact Link.Moves.refl.toEvolves
    dsimp only
    split
    · exact ⟨fun seq frame hcarries => hsender.carries seq frame hcarries, hsender.acks,
        hsender.acked⟩
    · exact hsender
  | _ => exact (moves_of_spares knows (fun a ha => by cases ha) h).toEvolves

end Network

end Chirps.Transport
