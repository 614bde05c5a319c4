/-
# Restarts

A restarted endpoint counts its sequence numbers from one again and forgets what it has accepted,
while the other side goes on. A frame carries the number of the event that buffered it, to say what
becomes of it.
-/

import Chirps.Transport.Delivery

namespace Chirps.Transport

open Chirps.Library

variable {ι φ : Type*}

def Event.tag (token : ℕ) : Event ι φ → Event ι (ℕ × φ)
  | .buffer l frame sizeBytes now => .buffer l (token, frame) sizeBytes now
  | .write l i => .write l i
  | .drain l now => .drain l now
  | .retransmit l i => .retransmit l i
  | .receive l i => .receive l i
  | .finish l i => .finish l i
  | .restart a => .restart a

/-- With the marks of the frames buffered since either end of a link last restarted. -/
structure Tagged (ι φ : Type*) where
  net : Network ι (ℕ × φ)
  next : ℕ
  fresh : ι × ι → List ℕ

variable [DecidableEq ι]

def Event.freshAfter (event : Event ι φ) (token : ℕ) (l : ι × ι) (fresh : List ℕ) : List ℕ :=
  match event with
  | .buffer m _ _ _ => if m = l then fresh ++ [token] else fresh
  | .restart a => if l.1 = a ∨ l.2 = a then [] else fresh
  | _ => fresh

namespace Tagged

def initial : Tagged ι φ := ⟨Network.initial, 0, fun _ => []⟩

def step (config : RetransmitConfig) (x : Tagged ι φ) (event : Event ι φ) : Option (Tagged ι φ) :=
  (x.net.step config (event.tag x.next)).map fun net =>
    ⟨net, x.next + 1, fun l => event.freshAfter x.next l (x.fresh l)⟩

def Accepted (x : Tagged ι φ) (l : ι × ι) (token : ℕ) : Prop :=
  ∃ e ∈ (x.net l).accepted, e.frame.1 = token

/-- A frame buffered since the last restart is accepted when it first arrives after all before it,
and is removed or left out only if it was accepted. What `handle_overflow` drops for its age or the
limits of the buffer is set aside. -/
def Survives (config : RetransmitConfig) (x : Tagged ι φ) : Event ι φ → Prop
  | .receive l i => ∀ envelope ∈ (x.net l).envelopes[i]?, envelope.frame.1 ∈ x.fresh l →
    (∀ earlier ∈ (x.net l).arrived, earlier.frame.1 ≠ envelope.frame.1) →
    (∀ token ∈ x.fresh l, token < envelope.frame.1 → x.Accepted l token) →
      ((x.net l).dedup.checkAndUpdate envelope.seq).1 = true
  | .finish l i => ∀ envelope ∈ (x.net l).processing[i]?, ∀ buf ∈ (x.net l.swap).buffer,
    ∀ message ∈ buf.messages, message ∉ (buf.processAck envelope.ackSeq).messages →
      message.frame.1 ∈ x.fresh l.swap → x.Accepted l.swap message.frame.1
  | .drain l now => ∀ buf ∈ (x.net l).buffer, ∀ message ∈ (buf.handleOverflow config now).messages,
    message ∉ (buf.handleOverflow config now).unacked →
      message.frame.1 ∈ x.fresh l → x.Accepted l message.frame.1
  | _ => True

/-- The receiver expects the number of the first frame after a restart, and nothing on the network
is ahead of it. -/
def Resumes (x : Tagged ι φ) : Event ι φ → Prop
  | .buffer l _ _ _ => x.fresh l = [] →
    x.net.InStep l ∧ (x.net l).dedup.contiguousSeq + 1 = (x.net l).nextSeq
  | _ => True

/-! ## Frames since the last restart -/

/-- From `base` on, the sequence numbers of the link are those of the fresh frames, in
order. -/
structure Tracked (x : Tagged ι φ) (l : ι × ι) (base : ℕ) : Prop where
  inStep : x.net.InStep l
  token_of_le : ∀ seq frame, (x.net l).Carries seq frame → base ≤ seq →
    (x.fresh l)[seq - base]? = some frame.1
  le_of_token : ∀ seq frame, (x.net l).Carries seq frame → frame.1 ∈ x.fresh l → base ≤ seq
  nextSeq_eq : (x.net l).nextSeq = base + (x.fresh l).length
  base_le : base ≤ (x.net l).dedup.contiguousSeq + 1

structure Inv (x : Tagged ι φ) : Prop where
  sound : x.net.Sound
  pos : ∀ l seq frame, (x.net l).Carries seq frame → 0 < seq
  fits : ∀ l seq frame, (x.net l).Carries seq frame → seq < u64Max
  token_lt : ∀ l seq frame, (x.net l).Carries seq frame → frame.1 < x.next
  fresh_lt : ∀ l, ∀ token ∈ x.fresh l, token < x.next
  increasing : ∀ l, (x.fresh l).Pairwise (· < ·)
  tracked : ∀ l, x.fresh l ≠ [] → ∃ base, x.Tracked l base

omit [DecidableEq ι] in
theorem inv_initial : (initial : Tagged ι φ).Inv where
  sound _ := Link.sound_initial
  pos _ _ _ h := absurd h Network.not_carries_initial
  fits _ _ _ h := absurd h Network.not_carries_initial
  token_lt _ _ _ h := absurd h Network.not_carries_initial
  fresh_lt _ _ h := by cases h
  increasing _ := .nil
  tracked _ h := absurd rfl h

variable {config : RetransmitConfig} {x next : Tagged ι φ} {event : Event ι φ} {l : ι × ι}

variable {token : ℕ}

theorem token_of_buffered {frame : ℕ × φ} (h : (event.tag token).buffered l = some frame) :
    frame.1 = token := by
  cases event with
  | buffer m f sizeBytes now =>
    rw [Event.tag, Event.buffered] at h
    split at h
    · rw [← Option.some.inj h]
    · cases h
  | _ => cases h

theorem freshAfter_eq {fresh : List ℕ} (spares : event.Spares l) :
    event.freshAfter token l fresh =
      fresh ++ ((event.tag token).buffered l).toList.map Prod.fst := by
  cases event with
  | buffer m f sizeBytes now =>
    rw [Event.freshAfter, Event.tag, Event.buffered]
    split <;> simp
  | restart a =>
    obtain ⟨hsender, hreceiver⟩ := spares a rfl
    simp [Event.freshAfter, Event.tag, Event.buffered, hsender, hreceiver]
  | _ => exact (List.append_nil fresh).symm

omit [DecidableEq ι] in
theorem spares_tag (spares : event.Spares l) : (event.tag token).Spares l := by
  intro a h
  cases event with
  | restart b =>
    cases h
    exact spares a rfl
  | _ => cases h

theorem step_eq_some (h : x.step config event = some next) :
    x.net.step config (event.tag x.next) = some next.net ∧ next.next = x.next + 1 ∧
      ∀ l, next.fresh l = event.freshAfter x.next l (x.fresh l) := by
  obtain ⟨net, hnet, rfl⟩ := Option.map_eq_some_iff.mp h
  exact ⟨hnet, rfl, fun _ => rfl⟩

theorem Tracked.step {base : ℕ} (inv : x.Inv) (tracked : x.Tracked l base)
    (spares : event.Spares l) (h : x.step config event = some next) : next.Tracked l base := by
  obtain ⟨hnet, -, hfresh⟩ := step_eq_some h
  have moves := Network.moves_of_spares inv.sound.knows (spares_tag spares) hnet
  have hfresh := (hfresh l).trans (freshAfter_eq spares)
  have hlength : (x.fresh l).length + ((event.tag x.next).buffered l).toList.length =
      (next.fresh l).length := by
    rw [hfresh, List.length_append, List.length_map]
  refine ⟨tracked.inStep.step inv.sound (spares_tag spares) hnet, fun seq frame hcarries hle => ?_,
    fun seq frame hcarries hmem => ?_, ?_, tracked.base_le.trans (Nat.succ_le_succ
      moves.contiguousSeq_le)⟩
  · rcases moves.carries seq frame hcarries with hold | ⟨hnew, rfl, -⟩
    · have hget := tracked.token_of_le seq frame hold hle
      rw [hfresh, List.getElem?_append_left (List.getElem?_eq_some_iff.mp hget).1]
      exact hget
    · rw [hfresh, hnew, tracked.nextSeq_eq, Nat.add_sub_cancel_left]
      simp
  · rcases moves.carries seq frame hcarries with hold | ⟨-, rfl, -⟩
    · -- a frame that was there does not have the new mark
      refine tracked.le_of_token seq frame hold ?_
      rw [hfresh, List.mem_append] at hmem
      refine hmem.resolve_right fun hnew => ?_
      obtain ⟨frame', hframe', heq⟩ := List.mem_map.mp hnew
      have htoken := token_of_buffered (Option.mem_toList.mp hframe')
      exact absurd (inv.token_lt l seq frame hold) (by rw [← heq, htoken]; exact lt_irrefl _)
    · rw [tracked.nextSeq_eq]
      exact Nat.le_add_right _ _
  · rw [moves.nextSeq_eq, tracked.nextSeq_eq, ← hlength, Nat.add_assoc]

omit [DecidableEq ι] in
theorem tracked_of_resumes {frame : φ} {sizeBytes now : ℕ} (hempty : x.fresh l = [])
    (resumes : x.Resumes (.buffer l frame sizeBytes now)) : x.Tracked l (x.net l).nextSeq := by
  obtain ⟨inStep, hnext⟩ := resumes hempty
  refine ⟨inStep, fun seq frame hcarries hle => ?_, fun seq frame _ hmem => ?_, ?_, hnext.ge⟩
  · exact absurd (inStep.carried seq frame hcarries) (not_lt.mpr hle)
  · rw [hempty] at hmem
    cases hmem
  · rw [hempty]
    rfl

theorem Inv.step (inv : x.Inv) (resumes : x.Resumes event) (h : x.step config event = some next) :
    next.Inv := by
  obtain ⟨hnet, hnext, hfresh⟩ := step_eq_some h
  have evolves := fun l => Network.evolves_of_step inv.sound.knows hnet l
  have hkept : ∀ l, ∀ token ∈ next.fresh l, token ∈ x.fresh l ∨ token = x.next := by
    intro l token hmem
    rw [hfresh] at hmem
    cases event <;> simp only [Event.freshAfter] at hmem <;> grind
  refine ⟨inv.sound.step hnet, fun l seq frame hcarries => ?_, fun l seq frame hcarries => ?_,
    fun l seq frame hcarries => ?_, fun l token hmem => ?_, fun l => ?_, fun l hne => ?_⟩
  · rcases (evolves l).carries seq frame hcarries with hold | ⟨-, rfl, -⟩
    · exact inv.pos l seq frame hold
    · exact (inv.sound l).getD_wellFormed.nextSeq_pos
  · rcases (evolves l).carries seq frame hcarries with hold | ⟨-, -, hlt⟩
    · exact inv.fits l seq frame hold
    · exact hlt
  · rw [hnext]
    rcases (evolves l).carries seq frame hcarries with hold | ⟨hnew, -, -⟩
    · exact (inv.token_lt l seq frame hold).trans (Nat.lt_succ_self _)
    · rw [token_of_buffered hnew]
      exact Nat.lt_succ_self _
  · rw [hnext]
    rcases hkept l token hmem with hold | rfl
    · exact (inv.fresh_lt l token hold).trans (Nat.lt_succ_self _)
    · exact Nat.lt_succ_self _
  · rw [hfresh]
    have hincreasing := inv.increasing l
    have hlt := inv.fresh_lt l
    cases event <;> simp only [Event.freshAfter] <;> grind
  · rw [hfresh] at hne
    have spares : event.Spares l := by
      rintro a rfl
      by_contra hend
      rw [← not_or, not_not] at hend
      exact hne (if_pos hend)
    by_cases hempty : x.fresh l = []
    · -- a frame is buffered now
      cases event with
      | buffer m frame sizeBytes now =>
        obtain rfl : m = l := by
          by_contra hml
          exact hne (by rw [Event.freshAfter, if_neg hml, hempty])
        exact ⟨_, (tracked_of_resumes hempty resumes).step inv spares h⟩
      | restart a =>
        obtain ⟨hsender, hreceiver⟩ := spares a rfl
        exact absurd hempty (by simpa [Event.freshAfter, hsender, hreceiver] using hne)
      | _ => exact absurd hempty hne
    · obtain ⟨base, tracked⟩ := inv.tracked l hempty
      exact ⟨base, tracked.step inv spares h⟩

/-! ## What becomes of them -/

namespace Tracked

variable {base : ℕ}

omit [DecidableEq ι] in
theorem accepted_of_seq (inv : x.Inv) (tracked : x.Tracked l base) {seq : ℕ} {frame : ℕ × φ}
    (hcarries : (x.net l).Carries seq frame) (hfresh : frame.1 ∈ x.fresh l)
    (h : seq ∈ (x.net l).acceptedSeqs) : x.Accepted l frame.1 := by
  obtain ⟨e, he, rfl⟩ := h
  have hle := tracked.le_of_token _ _ hcarries hfresh
  have htoken := tracked.token_of_le _ _ ((inv.sound l).carries_of_accepted he) hle
  have htoken' := tracked.token_of_le _ _ hcarries hle
  exact ⟨e, he, Option.some.inj (htoken.symm.trans htoken')⟩

omit [DecidableEq ι] in
theorem accepted_of_le (inv : x.Inv) (tracked : x.Tracked l base) {buf : PeerBuffer (ℕ × φ)}
    {message : BufferedMessage (ℕ × φ)} (hbuf : buf ∈ (x.net l).buffer)
    (hmem : message ∈ buf.messages) (hfresh : message.frame.1 ∈ x.fresh l)
    (h : message.seq ≤ (x.net l).dedup.contiguousSeq) : x.Accepted l message.frame.1 := by
  have hcarries := Link.carries_of_mem_messages hbuf hmem
  exact tracked.accepted_of_seq inv hcarries hfresh
    ((inv.sound l).mem_acceptedSeqs (inv.pos l _ _ hcarries) h)

omit [DecidableEq ι] in
theorem filled_below (inv : x.Inv) (tracked : x.Tracked l base) {seq : ℕ} {frame : ℕ × φ}
    (hcarries : (x.net l).Carries seq frame) (hfresh : frame.1 ∈ x.fresh l)
    (hearlier : ∀ token ∈ x.fresh l, token < frame.1 → x.Accepted l token) {m : ℕ} (pos : 0 < m)
    (hm : m < seq) : m ∈ (x.net l).acceptedSeqs := by
  by_cases hbase : m < base
  · have hle := tracked.base_le
    exact (inv.sound l).mem_acceptedSeqs pos (by omega)
  · have hle := tracked.le_of_token seq frame hcarries hfresh
    have hget := tracked.token_of_le seq frame hcarries hle
    obtain ⟨hlt, htoken⟩ := List.getElem?_eq_some_iff.mp hget
    -- the mark at the place of `m` is smaller, so its frame was accepted
    have hindex : m - base < seq - base := by omega
    have hsmaller := List.pairwise_iff_getElem.mp (inv.increasing l) (m - base) (seq - base)
      (hindex.trans hlt) hlt hindex
    rw [htoken] at hsmaller
    obtain ⟨e, he, heq⟩ := hearlier _ (List.getElem_mem _) hsmaller
    have hcarries' := (inv.sound l).carries_of_accepted he
    have hle' := tracked.le_of_token _ _ hcarries' (heq ▸ List.getElem_mem _)
    obtain ⟨hlt', htoken'⟩ := List.getElem?_eq_some_iff.mp
      (tracked.token_of_le _ _ hcarries' hle')
    have hsame : e.seq - base = m - base :=
      (List.Nodup.getElem_inj_iff ((inv.increasing l).imp Nat.ne_of_lt)).mp (htoken'.trans heq)
    exact ⟨e, he, by omega⟩

end Tracked

omit [DecidableEq ι] in
theorem Inv.survives (inv : x.Inv) (event : Event ι φ) : x.Survives config event := by
  have htracked : ∀ {l token}, token ∈ x.fresh l → ∃ base, x.Tracked l base := fun hmem =>
    inv.tracked _ (List.ne_nil_of_mem hmem)
  cases event with
  | receive l i =>
    intro envelope hget hfresh hfirst hearlier
    obtain ⟨base, tracked⟩ := htracked hfresh
    have hcarries := Link.carries_of_mem_envelopes (List.mem_of_getElem? hget)
    have hpos := inv.pos l _ _ hcarries
    have hgreatest := (inv.sound l).knows.describes.isGreatest
    have hbelow : envelope.seq - 1 ≤ (x.net l).dedup.contiguousSeq :=
      hgreatest.2 fun m pos hm =>
        tracked.filled_below inv hcarries hfresh hearlier pos (by omega)
    rw [(inv.sound l).knows.checkAndUpdate_iff hpos]
    refine ⟨fun hold => ?_, le_min ?_ (inv.fits l _ _ hcarries).le⟩
    · obtain ⟨e, he, heq⟩ := tracked.accepted_of_seq inv hcarries hfresh hold
      exact hfirst e ((inv.sound l).accepted_arrived he) heq
    · rw [windowSize]
      omega
  | finish l i =>
    intro envelope hget buf hbuf message hmem hgone hfresh
    obtain ⟨base, tracked⟩ := htracked hfresh
    have hacks := tracked.inStep.acks envelope
    rw [Prod.swap_swap] at hacks
    exact tracked.accepted_of_le inv hbuf hmem hfresh
      ((PeerBuffer.seq_le_of_processAck hmem hgone).trans
        (hacks ((inv.sound l).processing_mem (List.mem_of_getElem? hget))))
  | drain l now =>
    intro buf hbuf message hmem hwithheld hfresh
    obtain ⟨base, tracked⟩ := htracked hfresh
    have hle := PeerBuffer.seq_le_of_notMem_unacked hmem hwithheld
    exact tracked.accepted_of_le inv hbuf (PeerBuffer.handleOverflow_suffix.subset hmem) hfresh
      (hle.trans (tracked.inStep.acked buf hbuf))
  | _ => trivial

end Tagged

open Tagged in
/-- If the first frame after each restart finds the two sides in step, frames buffered since are
accepted, and kept until they are. -/
theorem fresh_frames_survive (config : RetransmitConfig) (events : List (Event ι φ))
    (resumes : Along (step config) Resumes initial events) :
    Along (step config) (Survives config) (initial : Tagged ι φ) events :=
  Along.of_invariant (fun _ _ _ inv resumes h => inv.step resumes h)
    (fun _ event _ inv _ _ => inv.survives event) inv_initial resumes

/-- The sender restarts, and its next frame has the number of one that was delivered. -/
theorem restarted_sender_is_rejected :
    ∃ x : Tagged Bool ℕ, run (Tagged.step .standard) Tagged.initial
        [.buffer (false, true) 7 100 0, .write (false, true) 0, .receive (false, true) 0,
          .finish (false, true) 0, .restart false, .buffer (false, true) 8 100 0,
          .write (false, true) 0] = some x ∧
      ¬x.Survives .standard (.receive (false, true) 1) := by
  refine exists_of_evaluated (fun x => (x.net (false, true)).envelopes[1]? = some ⟨1, 0, 5, 8⟩ ∧
      ((x.net (false, true)).arrived.map fun e => e.frame.1) = [0] ∧ x.fresh (false, true) = [5] ∧
      (x.net (false, true)).dedup.contiguousSeq = 1)
    (by decide +kernel) fun x _ ⟨henvelope, harrived, hfresh, hdedup⟩ survives => ?_
  have hfirst : ∀ earlier ∈ (x.net (false, true)).arrived, earlier.frame.1 ≠ 5 := by
    intro earlier hmem heq
    have htoken : earlier.frame.1 ∈ [0] := harrived ▸ List.mem_map_of_mem hmem
    simp [heq] at htoken
  have haccepted := survives ⟨1, 0, 5, 8⟩ henvelope (by simp [hfresh]) hfirst (by simp [hfresh])
  simp [PeerDedupState.checkAndUpdate, hdedup] at haccepted

/-- A sender that restarts before anything was written goes on as if it were new. -/
theorem fresh_frames_survive_early_restart :
    Along (Tagged.step .standard) (Tagged.Survives .standard) (Tagged.initial : Tagged Bool ℕ)
      [.buffer (false, true) 7 100 0, .restart false, .buffer (false, true) 8 100 0,
        .write (false, true) 0, .receive (false, true) 0] := by
  refine fresh_frames_survive .standard _ ?_
  have hidle : ∀ x : Network Bool (ℕ × ℕ), (x (false, true)).buffer = none →
      (x (false, true)).taken = [] → (x (false, true)).drained = [] →
      (x (false, true)).envelopes = [] → (x (true, false)).envelopes = [] →
        x.InStep (false, true) := by
    intro x hbuffer htaken hdrained henvelopes hback
    refine ⟨fun seq frame hcarries => ?_, fun e he => ?_, fun buf hbuf => ?_⟩
    · simp [Link.Carries, hbuffer, htaken, hdrained, henvelopes] at hcarries
    · rw [Prod.swap, hback] at he
      cases he
    · cases hbuffer.symm.trans hbuf
  refine (along_cons rfl).mpr ⟨fun _ => ⟨hidle _ rfl rfl rfl rfl rfl, rfl⟩, ?_⟩
  refine (along_cons rfl).mpr ⟨trivial, ?_⟩
  refine (along_cons rfl).mpr ⟨fun _ => ⟨hidle _ rfl rfl rfl rfl rfl, rfl⟩, ?_⟩
  refine (along_cons rfl).mpr ⟨trivial, ?_⟩
  exact (along_cons rfl).mpr ⟨trivial, trivial⟩

end Chirps.Transport
