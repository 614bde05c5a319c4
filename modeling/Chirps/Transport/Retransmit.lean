/-
# Deduplication and retransmission

What an endpoint keeps for one peer: which of its sequence numbers it has accepted, and which frames
it has not acknowledged. The arithmetic on sequence numbers saturates or is checked.
-/

import Chirps.Library.Frontier

namespace Chirps.Transport

open Chirps.Library

def u64Max : ℕ := 2 ^ 64 - 1

def saturatingAdd (a b : ℕ) : ℕ := min (a + b) u64Max

/-! ## Deduplication -/

structure PeerDedupState where
  contiguousSeq : ℕ
  outOfOrder : Finset ℕ

/-- The `window_size` of `DeduplicationTable::new`. -/
def windowSize : ℕ := 1000

namespace PeerDedupState

/-- `PeerDedupState::default()`. -/
def new : PeerDedupState := ⟨0, ∅⟩

/-- The loop of `check_and_update`. -/
def advance : ℕ → PeerDedupState → PeerDedupState
  | 0, s => s
  | fuel + 1, s =>
    if saturatingAdd s.contiguousSeq 1 ∈ s.outOfOrder then
      advance fuel ⟨saturatingAdd s.contiguousSeq 1,
        s.outOfOrder.erase (saturatingAdd s.contiguousSeq 1)⟩
    else s

/-- `check_and_update`. Each round of the loop removes a number from the set. -/
def checkAndUpdate (s : PeerDedupState) (seq : ℕ) : Bool × PeerDedupState :=
  if seq ≤ s.contiguousSeq ∨ seq ∈ s.outOfOrder then (false, s)
  else if saturatingAdd s.contiguousSeq windowSize < seq then (false, s)
  else (true, advance (insert seq s.outOfOrder).card ⟨s.contiguousSeq, insert seq s.outOfOrder⟩)

theorem advance_eq_absorb {fuel : ℕ} {s : PeerDedupState}
    (fits : ∀ n ∈ s.outOfOrder, s.contiguousSeq < n ∧ n ≤ u64Max) :
    s.advance fuel =
      ⟨(absorb fuel s.contiguousSeq s.outOfOrder).1,
        (absorb fuel s.contiguousSeq s.outOfOrder).2⟩ := by
  induction fuel generalizing s with
  | zero => rfl
  | succ fuel ih =>
    have hnext : saturatingAdd s.contiguousSeq 1 ∈ s.outOfOrder ↔
        s.contiguousSeq + 1 ∈ s.outOfOrder := by
      by_cases hlt : s.contiguousSeq < u64Max
      · rw [saturatingAdd, min_eq_left hlt]
      · -- nothing is left above the greatest number
        have hnone : ∀ n, n ∉ s.outOfOrder := fun n hn => by
          have := fits n hn
          omega
        exact iff_of_false (hnone _) (hnone _)
    rw [advance, absorb]
    by_cases hmem : s.contiguousSeq + 1 ∈ s.outOfOrder
    · have heq : saturatingAdd s.contiguousSeq 1 = s.contiguousSeq + 1 :=
        min_eq_left (fits _ hmem).2
      rw [if_pos (hnext.mpr hmem), if_pos hmem, heq]
      refine ih fun n hn => ?_
      have hfits := fits n (Finset.mem_of_mem_erase hn)
      have hne := Finset.ne_of_mem_erase hn
      exact ⟨by dsimp only; omega, hfits.2⟩
    · rw [if_neg (mt hnext.mp hmem), if_neg hmem]

structure Knows (s : PeerDedupState) (accepted : Set ℕ) : Prop where
  describes : Describes accepted s.contiguousSeq s.outOfOrder
  window : ∀ n ∈ s.outOfOrder, n ≤ s.contiguousSeq + windowSize
  fits : ∀ n ∈ accepted, n ≤ u64Max

theorem knows_new : new.Knows ∅ := ⟨.empty, by simp [new], by simp⟩

namespace Knows

variable {s next : PeerDedupState} {accepted : Set ℕ} {seq : ℕ}

theorem checkAndUpdate_iff (knows : s.Knows accepted) (pos : 0 < seq) :
    (s.checkAndUpdate seq).1 = true ↔
      seq ∉ accepted ∧ seq ≤ saturatingAdd s.contiguousSeq windowSize := by
  rw [knows.describes.mem_iff seq, checkAndUpdate]
  split
  · rename_i hold
    simp [pos, hold]
  · rename_i hnew
    split
    · rename_i hfar
      simp [hfar]
    · rename_i hnear
      simpa [pos] using ⟨⟨not_le.mp (not_or.mp hnew).1, (not_or.mp hnew).2⟩, not_lt.mp hnear⟩

theorem rejected (h : s.checkAndUpdate seq = (false, next)) : next = s := by
  rw [checkAndUpdate] at h
  split at h
  · exact (Prod.mk.inj h).2.symm
  · split at h
    · exact (Prod.mk.inj h).2.symm
    · cases (Prod.mk.inj h).1

theorem notMem_of_accepted (knows : s.Knows accepted) (h : (s.checkAndUpdate seq).1 = true) :
    seq ∉ accepted := by
  rw [knows.describes.mem_iff seq]
  rw [checkAndUpdate] at h
  split at h
  · cases h
  · rename_i hnew
    exact fun hold => hnew (hold.imp_left And.right)

theorem insert (knows : s.Knows accepted) (h : s.checkAndUpdate seq = (true, next)) :
    next.Knows (insert seq accepted) ∧ s.contiguousSeq ≤ next.contiguousSeq := by
  rw [checkAndUpdate] at h
  split at h
  · cases (Prod.mk.inj h).1
  · rename_i hnew
    split at h
    · cases (Prod.mk.inj h).1
    · rename_i hnear
      have hlt : s.contiguousSeq < seq := not_le.mp (not_or.mp hnew).1
      have hle : seq ≤ s.contiguousSeq + windowSize ∧ seq ≤ u64Max :=
        le_min_iff.mp (not_lt.mp hnear)
      have hfits : ∀ n ∈ Insert.insert seq s.outOfOrder,
          s.contiguousSeq < n ∧ n ≤ u64Max := by
        intro n hn
        rcases Finset.mem_insert.mp hn with rfl | hn
        · exact ⟨hlt, hle.2⟩
        · have habove := knows.describes.mem_above_iff.mp hn
          exact ⟨habove.2, knows.fits n habove.1⟩
      obtain rfl := (Prod.mk.inj h).2
      rw [advance_eq_absorb hfits]
      have hmono := le_absorb (Insert.insert seq s.outOfOrder).card s.contiguousSeq
        (Insert.insert seq s.outOfOrder)
      refine ⟨⟨knows.describes.insert hlt, fun n hn => ?_, fun n hn => ?_⟩, hmono⟩
      · refine le_trans ?_ (Nat.add_le_add_right hmono windowSize)
        rcases Finset.mem_insert.mp (absorb_subset _ _ _ hn) with rfl | hn
        · exact hle.1
        · exact knows.window n hn
      · rcases hn with rfl | hn
        · exact hle.2
        · exact knows.fits n hn

end Knows

end PeerDedupState

/-! ## Retransmission -/

structure RetransmitConfig where
  maxBufferBytes : ℕ
  maxMessagesPerPeer : ℕ
  messageTtl : ℕ

/-- `RetransmitConfig::default()`, the time in nanoseconds. -/
def RetransmitConfig.standard : RetransmitConfig := ⟨32 * 1024 * 1024, 10000, 60 * 10 ^ 9⟩

structure BufferedMessage (φ : Type*) where
  seq : ℕ
  frame : φ
  sizeBytes : ℕ
  timestamp : ℕ
  deriving DecidableEq

/-- `PeerBuffer`. The frames are in memory, and so the sum of their sizes fits. -/
structure PeerBuffer (φ : Type*) where
  messages : List (BufferedMessage φ)
  totalBytes : ℕ
  nextSeq : ℕ
  ackedSeq : ℕ

/-- Pop the front while the condition on it, the bytes and the length holds. -/
def popFront {φ : Type*} (drop : BufferedMessage φ → ℕ → ℕ → Bool) :
    List (BufferedMessage φ) → ℕ → List (BufferedMessage φ) × ℕ
  | [], totalBytes => ([], totalBytes)
  | front :: rest, totalBytes =>
    if drop front totalBytes (rest.length + 1) then
      popFront drop rest (totalBytes - front.sizeBytes)
    else (front :: rest, totalBytes)

namespace PeerBuffer

variable {φ : Type*}

def new : PeerBuffer φ := ⟨[], 0, 1, 0⟩

def popWhile (buf : PeerBuffer φ) (drop : BufferedMessage φ → ℕ → ℕ → Bool) : PeerBuffer φ :=
  { buf with
    messages := (popFront drop buf.messages buf.totalBytes).1
    totalBytes := (popFront drop buf.messages buf.totalBytes).2 }

/-- `handle_overflow`: first the messages at the front that are too old, then as many as
are too much. -/
def handleOverflow (config : RetransmitConfig) (now : ℕ) (buf : PeerBuffer φ) : PeerBuffer φ :=
  (buf.popWhile fun front _ _ => config.messageTtl < now - front.timestamp).popWhile
    fun _ totalBytes length =>
      config.maxBufferBytes < totalBytes ∨ config.maxMessagesPerPeer < length

/-- `buffer_with_size`; `none` is `SequenceExhausted`, which changes nothing. -/
def bufferWithSize (config : RetransmitConfig) (now : ℕ) (buf : PeerBuffer φ) (frame : φ)
    (sizeBytes : ℕ) : Option (ℕ × PeerBuffer φ) :=
  if buf.nextSeq < u64Max then
    some (buf.nextSeq, handleOverflow config now
      { buf with
        nextSeq := buf.nextSeq + 1
        totalBytes := buf.totalBytes + sizeBytes
        messages := buf.messages ++ [⟨buf.nextSeq, frame, sizeBytes, now⟩] })
  else none

def processAck (ackSeq : ℕ) (buf : PeerBuffer φ) : PeerBuffer φ :=
  -- the queue is compared with this acknowledgement, not with the largest one
  { buf with ackedSeq := max buf.ackedSeq ackSeq }.popWhile fun front _ _ => front.seq ≤ ackSeq

/-- What `drain_for_retransmit` returns, after its call of `handle_overflow`. -/
def unacked (buf : PeerBuffer φ) : List (BufferedMessage φ) :=
  buf.messages.filter fun message => buf.ackedSeq < message.seq

structure WellFormed (buf : PeerBuffer φ) : Prop where
  increasing : (buf.messages.map BufferedMessage.seq).Pairwise (· < ·)
  pos : ∀ message ∈ buf.messages, 0 < message.seq
  below : ∀ message ∈ buf.messages, message.seq < buf.nextSeq
  totalBytes_eq : buf.totalBytes = (buf.messages.map BufferedMessage.sizeBytes).sum
  nextSeq_pos : 0 < buf.nextSeq

theorem wellFormed_new : (new : PeerBuffer φ).WellFormed :=
  ⟨.nil, by simp [new], by simp [new], rfl, Nat.one_pos⟩

section Pop

variable {drop : BufferedMessage φ → ℕ → ℕ → Bool} {messages : List (BufferedMessage φ)}

theorem popFront_suffix (totalBytes : ℕ) : (popFront drop messages totalBytes).1 <:+ messages := by
  induction messages generalizing totalBytes with
  | nil => exact List.suffix_rfl
  | cons front rest ih =>
    rw [popFront]
    split
    · exact (ih _).trans (List.suffix_cons _ _)
    · exact List.suffix_rfl

theorem popFront_totalBytes :
    (popFront drop messages (messages.map BufferedMessage.sizeBytes).sum).2 =
      ((popFront drop messages (messages.map BufferedMessage.sizeBytes).sum).1.map
        BufferedMessage.sizeBytes).sum := by
  induction messages with
  | nil => rfl
  | cons front rest ih =>
    rw [popFront]
    split
    · rw [List.map_cons, List.sum_cons, Nat.add_sub_cancel_left]
      exact ih
    · rfl

theorem popFront_stops {front : BufferedMessage φ} {rest : List (BufferedMessage φ)}
    {totalBytes : ℕ} (h : (popFront drop messages totalBytes).1 = front :: rest) :
    drop front (popFront drop messages totalBytes).2 (rest.length + 1) = false := by
  induction messages generalizing totalBytes with
  | nil => cases h
  | cons head tail ih =>
    rw [popFront] at h ⊢
    split at h
    · rename_i hdrop
      rw [if_pos hdrop]
      exact ih h
    · rename_i hdrop
      rw [if_neg hdrop]
      obtain ⟨rfl, rfl⟩ := List.cons.inj h
      exact Bool.eq_false_iff.mpr hdrop

theorem mem_popFront {message : BufferedMessage φ} {p : BufferedMessage φ → Prop}
    (hdrop : ∀ m t l, drop m t l = true → p m) {totalBytes : ℕ} (hmem : message ∈ messages)
    (hgone : message ∉ (popFront drop messages totalBytes).1) : p message := by
  induction messages generalizing totalBytes with
  | nil => cases hmem
  | cons front rest ih =>
    rw [popFront] at hgone
    split at hgone
    · rename_i hpop
      rcases List.mem_cons.mp hmem with rfl | hmem
      · exact hdrop _ _ _ hpop
      · exact ih hmem hgone
    · exact absurd hmem hgone

variable {buf : PeerBuffer φ}

theorem popWhile_suffix : (buf.popWhile drop).messages <:+ buf.messages := popFront_suffix _

theorem WellFormed.popWhile (wellFormed : buf.WellFormed) : (buf.popWhile drop).WellFormed where
  increasing := wellFormed.increasing.sublist (popWhile_suffix.sublist.map _)
  pos message h := wellFormed.pos message (popWhile_suffix.subset h)
  below message h := wellFormed.below message (popWhile_suffix.subset h)
  totalBytes_eq := by
    change (popFront drop buf.messages buf.totalBytes).2 =
      ((popFront drop buf.messages buf.totalBytes).1.map _).sum
    rw [wellFormed.totalBytes_eq]
    exact popFront_totalBytes
  nextSeq_pos := wellFormed.nextSeq_pos

end Pop

variable {config : RetransmitConfig} {now : ℕ} {buf next : PeerBuffer φ}

theorem handleOverflow_suffix : (buf.handleOverflow config now).messages <:+ buf.messages :=
  popWhile_suffix.trans popWhile_suffix

theorem processAck_suffix {ackSeq : ℕ} : (buf.processAck ackSeq).messages <:+ buf.messages :=
  popWhile_suffix

theorem WellFormed.handleOverflow (wellFormed : buf.WellFormed) :
    (buf.handleOverflow config now).WellFormed :=
  wellFormed.popWhile.popWhile

theorem WellFormed.processAck (wellFormed : buf.WellFormed) (ackSeq : ℕ) :
    (buf.processAck ackSeq).WellFormed :=
  WellFormed.popWhile ⟨wellFormed.increasing, wellFormed.pos, wellFormed.below,
    wellFormed.totalBytes_eq, wellFormed.nextSeq_pos⟩

theorem WellFormed.limits (wellFormed : buf.WellFormed) :
    (buf.handleOverflow config now).totalBytes ≤ config.maxBufferBytes ∧
      (buf.handleOverflow config now).messages.length ≤ config.maxMessagesPerPeer := by
  have hafter : (buf.handleOverflow config now).WellFormed := wellFormed.handleOverflow
  have htotal := hafter.totalBytes_eq
  cases hmessages : (buf.handleOverflow config now).messages with
  | nil =>
    rw [hmessages] at htotal
    rw [htotal]
    exact ⟨Nat.zero_le _, Nat.zero_le _⟩
  | cons front rest =>
    have hstops : ¬(config.maxBufferBytes < (buf.handleOverflow config now).totalBytes ∨
        config.maxMessagesPerPeer < rest.length + 1) :=
      of_decide_eq_false (popFront_stops hmessages)
    exact ⟨not_lt.mp (not_or.mp hstops).1, not_lt.mp (not_or.mp hstops).2⟩

theorem seq_le_of_processAck {ackSeq : ℕ} {message : BufferedMessage φ}
    (hmem : message ∈ buf.messages) (hgone : message ∉ (buf.processAck ackSeq).messages) :
    message.seq ≤ ackSeq :=
  mem_popFront (p := fun m => m.seq ≤ ackSeq) (fun _ _ _ h => of_decide_eq_true h) hmem hgone

theorem seq_le_of_notMem_unacked {message : BufferedMessage φ} (hmem : message ∈ buf.messages)
    (hwithheld : message ∉ buf.unacked) : message.seq ≤ buf.ackedSeq := by
  by_contra hlt
  exact hwithheld (List.mem_filter.mpr ⟨hmem, decide_eq_true (not_le.mp hlt)⟩)

theorem bufferWithSize_eq_some {frame : φ} {sizeBytes seq : ℕ}
    (h : buf.bufferWithSize config now frame sizeBytes = some (seq, next)) :
    seq = buf.nextSeq ∧ seq < u64Max ∧ next.nextSeq = buf.nextSeq + 1 ∧
      next.ackedSeq = buf.ackedSeq ∧
      next.messages <:+ buf.messages ++ [⟨seq, frame, sizeBytes, now⟩] := by
  obtain ⟨hlt, ⟨⟩⟩ := Option.ite_none_right_eq_some.mp h
  exact ⟨rfl, hlt, rfl, rfl, handleOverflow_suffix⟩

theorem WellFormed.bufferWithSize (wellFormed : buf.WellFormed) {frame : φ} {sizeBytes seq : ℕ}
    (h : buf.bufferWithSize config now frame sizeBytes = some (seq, next)) :
    next.WellFormed ∧ next.totalBytes ≤ config.maxBufferBytes ∧
      next.messages.length ≤ config.maxMessagesPerPeer := by
  obtain ⟨-, ⟨⟩⟩ := Option.ite_none_right_eq_some.mp h
  have hpushed : WellFormed { buf with
      nextSeq := buf.nextSeq + 1
      totalBytes := buf.totalBytes + sizeBytes
      messages := buf.messages ++ [⟨buf.nextSeq, frame, sizeBytes, now⟩] } := by
    refine ⟨?_, fun message hmem => ?_, fun message hmem => ?_, ?_, Nat.succ_pos _⟩
    · rw [List.map_append, List.pairwise_append]
      refine ⟨wellFormed.increasing, List.pairwise_singleton _ _, fun a ha b hb => ?_⟩
      obtain ⟨message, hmem, rfl⟩ := List.mem_map.mp ha
      obtain rfl : b = buf.nextSeq := by simpa using hb
      exact wellFormed.below message hmem
    · rcases List.mem_append.mp hmem with hold | hnew
      · exact wellFormed.pos message hold
      · rw [List.mem_singleton.mp hnew]
        exact wellFormed.nextSeq_pos
    · rcases List.mem_append.mp hmem with hold | hnew
      · exact (wellFormed.below message hold).trans (Nat.lt_succ_self _)
      · rw [List.mem_singleton.mp hnew]
        exact Nat.lt_succ_self _
    · simp [wellFormed.totalBytes_eq]
  exact ⟨hpushed.handleOverflow, hpushed.limits⟩

end PeerBuffer

end Chirps.Transport
