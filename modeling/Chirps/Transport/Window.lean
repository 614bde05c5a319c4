/-
# The receive window

A receiver accepts numbers up to a fixed distance behind the first one it misses. A
number that the sender has used and will never send again is missed for ever, and then
the window does not move.
-/

import Chirps.Transport.Delivery

namespace Chirps.Transport

open Chirps.Library

theorem Link.Sound.le_window_iff {φ : Type*} {link : Link φ} (sound : link.Sound) {seq : ℕ}
    (fits : seq ≤ u64Max) :
    seq ≤ saturatingAdd link.dedup.contiguousSeq windowSize ↔
      ∀ n, 0 < n → n + windowSize ≤ seq → n ∈ link.acceptedSeqs := by
  have hgreatest := sound.knows.describes.isGreatest
  constructor
  · intro hle n pos hn
    have hwindow : seq ≤ link.dedup.contiguousSeq + windowSize := (le_min_iff.mp hle).1
    exact hgreatest.1 n pos (by omega)
  · intro hall
    refine le_min ?_ fits
    by_contra hlt
    -- otherwise one more than the floor would be accepted without a gap
    have hfilled : ∀ m, 0 < m → m ≤ link.dedup.contiguousSeq + 1 → m ∈ link.acceptedSeqs :=
      fun m pos hm => hall m pos (by omega)
    have hle : link.dedup.contiguousSeq + 1 ≤ link.dedup.contiguousSeq := hgreatest.2 hfilled
    omega

open Network in
/-- Without restarts, a frame that arrives first is accepted if and only if all frames a window or
more below it have been accepted. -/
theorem first_arrival_accepted_iff {ι φ : Type*} [DecidableEq ι] (config : RetransmitConfig)
    (events : List (Event ι φ)) (x : Network ι φ)
    (reach : run (step config) initial events = some x)
    (keeps : ∀ event ∈ events, event.Keeps) (l : ι × ι) (envelope : Envelope φ)
    (sent : envelope ∈ (x l).envelopes)
    (first : ∀ earlier ∈ (x l).arrived, earlier.seq ≠ envelope.seq) :
    ((x l).dedup.checkAndUpdate envelope.seq).1 = true ↔
      ∀ n, 0 < n → n + windowSize ≤ envelope.seq → n ∈ (x l).acceptedSeqs := by
  obtain ⟨sound, hlinks⟩ := keeps_run reach keeps
  have numbered := (hlinks l).2
  have hcarries := Link.carries_of_mem_envelopes sent
  have hnew : envelope.seq ∉ (x l).acceptedSeqs := by
    rintro ⟨earlier, haccepted, hseq⟩
    exact first earlier ((sound l).accepted_arrived haccepted) hseq
  rw [(sound l).knows.checkAndUpdate_iff (numbered.pos _ _ hcarries),
    (sound l).le_window_iff (numbered.fits _ _ hcarries).le]
  exact and_iff_right hnew

/-! ## A sender that is locked out -/

def oneMessage : RetransmitConfig := ⟨1000, 1, 10 ^ 9⟩

theorem run_failed_sends (n : ℕ) (hn : n < 2000) :
    ∃ x, run (Network.step oneMessage) (Network.initial : Network Bool Unit)
        (List.replicate (n + 1) (.buffer (false, true) () 1 0)) = some x ∧
      (x (false, true)).buffer = some ⟨[⟨n + 1, (), 1, 0⟩], 1, n + 2, 0⟩ ∧
      (x (false, true)).taken[n]? = some (n + 1, ()) ∧ (x (false, true)).taken.length = n + 1 ∧
      (x (false, true)).envelopes = [] ∧ (x (false, true)).arrived = [] ∧
      (x (false, true)).dedup = .new := by
  induction n with
  | zero => exact ⟨_, rfl, rfl, rfl, rfl, rfl, rfl, rfl⟩
  | succ n ih =>
    obtain ⟨x, hrun, hbuffer, -, hlength, henvelopes, harrived, hdedup⟩ := ih (by omega)
    have hbuf : ((x (false, true)).buffer.getD .new).bufferWithSize oneMessage 0 () 1 =
        some (n + 2, ⟨[⟨n + 2, (), 1, 0⟩], 1, n + 3, 0⟩) := by
      have hlt : n + 2 < u64Max := lt_trans (Nat.add_lt_add_right hn 1) (by decide)
      rw [hbuffer, Option.getD_some, PeerBuffer.bufferWithSize, if_pos hlt]
      rfl
    have hstep : Network.step oneMessage x (.buffer (false, true) () 1 0) =
        some (Function.update x (false, true) { x (false, true) with
          buffer := some ⟨[⟨n + 2, (), 1, 0⟩], 1, n + 3, 0⟩
          taken := (x (false, true)).taken ++ [(n + 2, ())] }) := by
      rw [Network.step, Link.take, hbuf]
      rfl
    rw [List.replicate_succ']
    refine ⟨_, run_append_eq_some.mpr ⟨x, hrun, run_cons hstep⟩, ?_⟩
    rw [Function.update_self]
    refine ⟨rfl, ?_, ?_, henvelopes, harrived, hdedup⟩
    · rw [List.getElem?_append_right hlength.le, hlength, Nat.sub_self]
      rfl
    · rw [List.length_append, hlength]
      rfl

/-- A thousand writes fail. The next frame is written and arrives while the sender holds
it, and it is rejected. -/
theorem locked_out_after_failed_writes :
    ∃ (x : Network Bool Unit) (envelope : Envelope Unit),
      run (Network.step oneMessage) Network.initial
        (List.replicate 1001 (.buffer (false, true) () 1 0) ++ [.write (false, true) 1000]) =
          some x ∧
      envelope ∈ (x (false, true)).envelopes ∧
      (∀ earlier ∈ (x (false, true)).arrived, earlier.seq ≠ envelope.seq) ∧
      (∃ buf ∈ (x (false, true)).buffer, ∃ message ∈ buf.messages, message.seq = envelope.seq) ∧
      ((x (false, true)).dedup.checkAndUpdate envelope.seq).1 = false := by
  obtain ⟨x, hrun, hbuffer, hget, -, henvelopes, harrived, hdedup⟩ :=
    run_failed_sends 1000 (by decide)
  have hwrite : Network.step oneMessage x (.write (false, true) 1000) =
      some (Function.update x (false, true) { x (false, true) with
        taken := (x (false, true)).taken.eraseIdx 1000
        envelopes := [⟨1001, x.ackSeq (false, true), ()⟩] }) := by
    rw [Network.step, Link.write, hget, henvelopes]
    rfl
  refine ⟨_, ⟨1001, x.ackSeq (false, true), ()⟩,
    run_append_eq_some.mpr ⟨x, hrun, run_cons hwrite⟩, ?_⟩
  rw [Function.update_self]
  refine ⟨List.mem_singleton_self _, ?_, ⟨_, hbuffer, _, List.mem_singleton_self _, rfl⟩, ?_⟩
  · rw [harrived]
    simp
  · rw [hdedup]
    rfl

theorem first_arrival_accepted_second_frame :
    ∃ x : Network Bool ℕ, run (Network.step .standard) Network.initial
        [.buffer (false, true) 7 100 0, .buffer (false, true) 8 100 0, .write (false, true) 1] =
          some x ∧
      ((x (false, true)).dedup.checkAndUpdate 2).1 = true := by
  refine exists_of_evaluated (fun x =>
      (x (false, true)).envelopes = [⟨2, 0, 8⟩] ∧ (x (false, true)).arrived = [])
    (by decide +kernel) fun x hx ⟨henvelopes, harrived⟩ =>
      (first_arrival_accepted_iff .standard _ x hx (by simp [Event.Keeps]) (false, true)
        ⟨2, 0, 8⟩ (by simp [henvelopes]) (by simp [harrived])).mpr fun n _ hn => ?_
  exact absurd hn (by simp [windowSize])

end Chirps.Transport
