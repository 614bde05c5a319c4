/-
# Calls of send and broadcast

A call sends its frame to one target or to all connected peers and starts over when an attempt does
not end in time. Each attempt takes a sequence number, by which alone the receiver tells frames
apart.
-/

import Chirps.Transport.Delivery

namespace Chirps.Transport

open Chirps.Library

variable {ι κ φ : Type*}

def sendRetryAttempts : ℕ := 1

inductive SendCommand (ι φ : Type*)
  | unicast (target : ι) (frame : φ)
  | broadcast (frame : φ)

namespace SendCommand

def frame : SendCommand ι φ → φ
  | unicast _ frame => frame
  | broadcast frame => frame

/-- The peers that an attempt sends to; `peers` are those connected when it starts. -/
def targets (peers : List ι) : SendCommand ι φ → List ι
  | unicast target _ => [target]
  | broadcast _ => peers

end SendCommand

/-- `send_with_retry` or `broadcast_with_retry` under way. -/
structure SendCall (ι φ : Type*) where
  source : ι
  command : SendCommand ι φ
  attempts : ℕ
  /-- The targets that the attempt has not finished; none are left when the call has
  returned. -/
  remaining : List ι
  /-- The first of them has been given a sequence number. -/
  sending : Bool
  /-- The targets for which some attempt has taken a number. -/
  took : List ι

inductive SendEvent (ι κ φ : Type*)
  /-- A call starts its first attempt. -/
  | send (c : κ) (source : ι) (command : SendCommand ι φ) (peers : List ι)
  /-- `send_to_peer` takes a sequence number for the next target. -/
  | take (c : κ) (sizeBytes now : ℕ)
  /-- `send_to_peer` returns, with an error or not, before or after it took a number. -/
  | pass (c : κ)
  /-- The attempt times out. -/
  | timeout (c : κ) (peers : List ι)
  /-- Anything else on the network: writes, reconnects and receipts. -/
  | net (event : Event ι (κ × φ))

structure Sending (ι κ φ : Type*) where
  net : Network ι (κ × φ)
  calls : κ → Option (SendCall ι φ)

namespace Sending

variable [DecidableEq ι] [DecidableEq κ]

def initial : Sending ι κ φ := ⟨Network.initial, fun _ => none⟩

def setCall (x : Sending ι κ φ) (c : κ) (call : SendCall ι φ) : Sending ι κ φ :=
  { x with calls := Function.update x.calls c (some call) }

def step (config : RetransmitConfig) (retryAttempts : ℕ) (x : Sending ι κ φ) :
    SendEvent ι κ φ → Option (Sending ι κ φ)
  | .send c source command peers =>
    match x.calls c with
    | some _ => none
    | none => some (x.setCall c ⟨source, command, 0, command.targets peers, false, []⟩)
  | .take c sizeBytes now =>
    match x.calls c with
    | none => none
    | some call =>
      match call.remaining, call.sending with
      | target :: _, false =>
        (x.net.step config
          (.buffer (call.source, target) (c, call.command.frame) sizeBytes now)).map fun net =>
            { x with net := net }.setCall c
              { call with sending := true, took := call.took ++ [target] }
      | _, _ => none
  | .pass c =>
    match x.calls c with
    | none => none
    | some call =>
      match call.remaining with
      | [] => none
      | _ :: rest => some (x.setCall c { call with remaining := rest, sending := false })
  | .timeout c peers =>
    match x.calls c with
    | none => none
    | some call =>
      if call.remaining = [] then none
      else if call.attempts < retryAttempts then
        some (x.setCall c { call with
          attempts := call.attempts + 1
          remaining := call.command.targets peers
          sending := false })
      else some (x.setCall c { call with remaining := [], sending := false })
  | .net (.buffer _ _ _ _) => none
  | .net event => (x.net.step config event).map fun net => { x with net := net }

/-- No attempt takes a number for a target for which an earlier one has taken a number. -/
def TakesOnce (x : Sending ι κ φ) : SendEvent ι κ φ → Prop
  | .take c _ _ => ∀ call ∈ x.calls c, ∀ target ∈ call.remaining.head?, target ∉ call.took
  | _ => True

instance (x : Sending ι κ φ) (event : SendEvent ι κ φ) : Decidable (x.TakesOnce event) :=
  match event with
  | .take c _ _ => inferInstanceAs (Decidable
      (∀ call ∈ x.calls c, ∀ target ∈ call.remaining.head?, target ∉ call.took))
  | .send _ _ _ _ | .pass _ | .timeout _ _ | .net _ => isTrue trivial

def Keeps (event : SendEvent ι κ φ) : Prop := ∀ a, event ≠ .net (.restart a)

/-! ## What one event does -/

def Remembers (x next : Sending ι κ φ) : Prop :=
  ∀ c call, x.calls c = some call → ∃ call', next.calls c = some call' ∧
    call'.source = call.source ∧ call.took ⊆ call'.took

/-- The network stays, a call takes a number, or the network does something else. -/
inductive Change (config : RetransmitConfig) (x : Sending ι κ φ) :
    SendEvent ι κ φ → Sending ι κ φ → Prop
  | calls {event : SendEvent ι κ φ} {next : Sending ι κ φ} (net : next.net = x.net)
      (remembers : x.Remembers next) : Change config x event next
  | take {c : κ} {sizeBytes now : ℕ} {call : SendCall ι φ} {target : ι} {next : Sending ι κ φ}
      (hcall : x.calls c = some call) (htarget : call.remaining.head? = some target)
      (hnet : x.net.step config
        (.buffer (call.source, target) (c, call.command.frame) sizeBytes now) = some next.net)
      (remembers : x.Remembers next)
      (took : ∃ call', next.calls c = some call' ∧ call'.source = call.source ∧
        target ∈ call'.took) :
      Change config x (.take c sizeBytes now) next
  | net {event : Event ι (κ × φ)} {next : Sending ι κ φ}
      (hnet : x.net.step config event = some next.net) (hbuffered : ∀ l, event.buffered l = none)
      (calls : next.calls = x.calls) : Change config x (.net event) next

omit [DecidableEq ι] in
theorem remembers_setCall {x : Sending ι κ φ} {c : κ} {call' : SendCall ι φ}
    (h : ∀ call, x.calls c = some call → call'.source = call.source ∧ call.took ⊆ call'.took) :
    x.Remembers (x.setCall c call') := by
  intro d call hcall
  by_cases hd : d = c
  · subst hd
    exact ⟨call', Function.update_self .., h call hcall⟩
  · exact ⟨call, (Function.update_of_ne hd ..).trans hcall, rfl, List.Subset.refl _⟩

theorem change_of_step {config : RetransmitConfig} {retryAttempts : ℕ} {x next : Sending ι κ φ}
    {event : SendEvent ι κ φ} (h : x.step config retryAttempts event = some next) :
    x.Change config event next := by
  cases event with
  | send c source command peers =>
    simp only [step] at h
    split at h
    · cases h
    · rename_i hnone
      cases h
      exact .calls rfl (remembers_setCall fun call hcall => by rw [hnone] at hcall; cases hcall)
  | take c sizeBytes now =>
    simp only [step] at h
    split at h
    · cases h
    · rename_i call hcall
      split at h
      · rename_i target rest hremaining hsending
        obtain ⟨net, hnet, rfl⟩ := Option.map_eq_some_iff.mp h
        refine .take hcall (by rw [hremaining]; rfl) hnet
          (remembers_setCall (x := { x with net := net })
          fun call' hcall' => ?_) ⟨_, Function.update_self .., rfl, by simp⟩
        cases hcall.symm.trans hcall'
        exact ⟨rfl, List.subset_append_left _ _⟩
      · cases h
  | pass c =>
    simp only [step] at h
    split at h
    · cases h
    · rename_i call hcall
      split at h
      · cases h
      · cases h
        refine .calls rfl (remembers_setCall fun call' hcall' => ?_)
        cases hcall.symm.trans hcall'
        exact ⟨rfl, List.Subset.refl _⟩
  | timeout c peers =>
    simp only [step] at h
    split at h
    · cases h
    · rename_i call hcall
      have hsame : ∀ call', x.calls c = some call' →
          call.source = call'.source ∧ call'.took ⊆ call.took := by
        intro call' hcall'
        cases hcall.symm.trans hcall'
        exact ⟨rfl, List.Subset.refl _⟩
      obtain ⟨-, h⟩ := Option.ite_none_left_eq_some.mp h
      split at h
      · cases h
        exact .calls rfl (remembers_setCall hsame)
      · cases h
        exact .calls rfl (remembers_setCall hsame)
  | net event =>
    have hnet : (∀ l, event.buffered l = none) ∧
        (x.net.step config event).map (fun net => { x with net := net }) = some next := by
      cases event with
      | buffer => cases h
      | _ => exact ⟨fun _ => rfl, h⟩
    obtain ⟨net, hstep, rfl⟩ := Option.map_eq_some_iff.mp hnet.2
    exact .net hstep hnet.1 rfl

/-! ## One number for each call and target -/

structure Inv (x : Sending ι κ φ) : Prop where
  sound : x.net.Sound
  inStep : ∀ l, x.net.InStep l
  took : ∀ l seq c frame, (x.net l).Carries seq (c, frame) →
    ∃ call, x.calls c = some call ∧ call.source = l.1 ∧ l.2 ∈ call.took
  single : ∀ l seq seq' c frame frame', (x.net l).Carries seq (c, frame) →
    (x.net l).Carries seq' (c, frame') → seq = seq'

omit [DecidableEq ι] [DecidableEq κ] in
theorem inv_initial : (initial : Sending ι κ φ).Inv where
  sound _ := Link.sound_initial
  inStep l := Network.inStep_initial l
  took _ _ _ _ h := absurd h Network.not_carries_initial
  single _ _ _ _ _ _ h := absurd h Network.not_carries_initial

variable {config : RetransmitConfig} {retryAttempts : ℕ} {x next : Sending ι κ φ}
  {event : SendEvent ι κ φ}

omit [DecidableEq ι] [DecidableEq κ] in
theorem Remembers.took (remembers : x.Remembers next) {c : κ} {l : ι × ι}
    (h : ∃ call, x.calls c = some call ∧ call.source = l.1 ∧ l.2 ∈ call.took) :
    ∃ call, next.calls c = some call ∧ call.source = l.1 ∧ l.2 ∈ call.took := by
  obtain ⟨call, hcall, hsource, hmem⟩ := h
  obtain ⟨call', hcall', hsource', hsubset⟩ := remembers c call hcall
  exact ⟨call', hcall', hsource'.trans hsource, hsubset hmem⟩

omit [DecidableEq κ] in
theorem Inv.step (inv : x.Inv) (keeps : Keeps event) (takesOnce : x.TakesOnce event)
    (h : x.Change config event next) : next.Inv := by
  cases h with
  | calls net remembers =>
    refine ⟨net ▸ inv.sound, net ▸ inv.inStep, fun l seq c frame hcarries => ?_, net ▸ inv.single⟩
    exact remembers.took (inv.took l seq c frame (net ▸ hcarries))
  | @net event next hnet hbuffered calls =>
    have evolves := fun l => Network.evolves_of_step inv.sound.knows hnet l
    have hold : ∀ l seq frame, (next.net l).Carries seq frame → (x.net l).Carries seq frame := by
      intro l seq frame hcarries
      refine ((evolves l).carries seq frame hcarries).resolve_right fun hnew => ?_
      rw [hbuffered l] at hnew
      cases hnew.1
    have hkeeps : event.Keeps := fun a ha => keeps a (by rw [ha])
    refine ⟨inv.sound.step hnet, fun l => (inv.inStep l).step inv.sound
      (hkeeps.spares l) hnet, ?_, ?_⟩
    · intro l seq c frame hcarries
      rw [calls]
      exact inv.took l seq c frame (hold l seq _ hcarries)
    · intro l seq seq' c frame frame' hcarries hcarries'
      exact inv.single l seq seq' c frame frame' (hold l seq _ hcarries) (hold l seq' _ hcarries')
  | @take c sizeBytes now call target next hcall htarget hnet remembers took =>
    have evolves := fun l => Network.evolves_of_step inv.sound.knows hnet l
    have hfresh := takesOnce call hcall target htarget
    -- a new pair is the frame of this call at this target
    have hnew : ∀ l seq d frame, (next.net l).Carries seq (d, frame) →
        (x.net l).Carries seq (d, frame) ∨
          (l = (call.source, target) ∧ d = c ∧ seq = (x.net l).nextSeq) := by
      intro l seq d frame hcarries
      refine ((evolves l).carries seq _ hcarries).imp_right fun ⟨hbuffered, hseq, _⟩ => ?_
      obtain ⟨hl, hbuffered⟩ := Option.ite_none_right_eq_some.mp hbuffered
      exact ⟨hl.symm, (Prod.mk.inj (Option.some.inj hbuffered)).1.symm, hseq⟩
    have hunused : ∀ seq frame, ¬(x.net (call.source, target)).Carries seq (c, frame) := by
      intro seq frame hcarries
      obtain ⟨call', hcall', -, hmem⟩ := inv.took _ seq c frame hcarries
      cases hcall.symm.trans hcall'
      exact hfresh hmem
    refine ⟨inv.sound.step hnet, fun l => (inv.inStep l).step inv.sound
      (fun a ha => by cases ha) hnet,
      ?_, ?_⟩
    · intro l seq d frame hcarries
      rcases hnew l seq d frame hcarries with hold | ⟨rfl, rfl, -⟩
      · exact remembers.took (inv.took l seq d frame hold)
      · exact took
    · intro l seq seq' d frame frame' hcarries hcarries'
      rcases hnew l seq d frame hcarries with hold | ⟨rfl, rfl, hseq⟩ <;>
        rcases hnew _ seq' d frame' hcarries' with hold' | ⟨heq, hd, hseq'⟩
      · exact inv.single l seq seq' d frame frame' hold hold'
      · subst heq hd
        exact absurd hold (hunused seq frame)
      · exact absurd hold' (hunused seq' frame')
      · rw [hseq, hseq']

end Sending

theorem Link.Sound.countP_delivered_le {link : Link φ} (sound : link.Sound) {p : φ → Bool}
    (h : ∀ seq seq' frame frame', link.Carries seq frame → link.Carries seq' frame' → p frame →
      p frame' → seq = seq') : link.delivered.countP p ≤ 1 := by
  have hdelivered : link.delivered.countP p ≤ (link.accepted.map Envelope.frame).countP p := by
    rw [← sound.settled.countP_eq, List.countP_append]
    exact Nat.le_add_right _ _
  refine hdelivered.trans ?_
  rw [List.countP_map, List.countP_eq_length_filter]
  -- the numbers of these frames are distinct and all the same
  have hnodup : ((link.accepted.filter (p ∘ Envelope.frame)).map Envelope.seq).Nodup :=
    sound.nodup.sublist (List.filter_sublist.map _)
  have hsame : ∀ e ∈ link.accepted.filter (p ∘ Envelope.frame),
      ∀ e' ∈ link.accepted.filter (p ∘ Envelope.frame), e.seq = e'.seq := by
    intro e he e' he'
    obtain ⟨hmem, hp⟩ := List.mem_filter.mp he
    obtain ⟨hmem', hp'⟩ := List.mem_filter.mp he'
    exact h _ _ _ _ (sound.carries_of_accepted hmem) (sound.carries_of_accepted hmem') hp hp'
  generalize link.accepted.filter (p ∘ Envelope.frame) = es at hnodup hsame
  match es with
  | [] => exact Nat.zero_le _
  | [_] => exact le_rfl
  | e :: e' :: rest =>
    have heq := hsame e (by simp) e' (by simp)
    simp [heq] at hnodup

open Sending in
/-- Without restarts, if no retry takes another number for a target, a frame is passed to each
target's subscriber at most once. -/
theorem delivered_at_most_once [DecidableEq ι] [DecidableEq κ] (config : RetransmitConfig)
    (retryAttempts : ℕ) (events : List (SendEvent ι κ φ)) (x : Sending ι κ φ)
    (reach : run (step config retryAttempts) initial events = some x)
    (keeps : ∀ event ∈ events, Keeps event)
    (takesOnce : Along (step config retryAttempts) TakesOnce initial events) (c : κ) (l : ι × ι) :
    (x.net l).delivered.countP (fun frame => frame.1 = c) ≤ 1 := by
  have inv : x.Inv := run_invariant_of_along (I := Inv)
    (G := fun x event => Keeps event ∧ x.TakesOnce event)
    (fun _ _ _ inv ⟨keeps, takesOnce⟩ h => inv.step keeps takesOnce (change_of_step h))
    inv_initial ((along_of_forall fun _ => keeps).and takesOnce) reach
  refine (inv.sound l).countP_delivered_le fun seq seq' frame frame' hcarries hcarries' hc hc' => ?_
  obtain ⟨d, f⟩ := frame
  obtain ⟨d', f'⟩ := frame'
  obtain rfl : d = c := of_decide_eq_true hc
  obtain rfl : d' = d := of_decide_eq_true hc'
  exact inv.single l seq seq' d' f f' hcarries hcarries'

/-- The first attempt times out after its bytes were handed over. The second one takes
another number, and the receiver passes on both. -/
theorem retried_frame_is_delivered_twice :
    (run (Sending.step .standard sendRetryAttempts) (Sending.initial : Sending Bool Unit ℕ)
      [.send () false (.unicast true 7) [], .take () 100 0, .net (.write (false, true) 0),
        .timeout () [], .take () 100 0, .net (.write (false, true) 0), .pass (),
        .net (.receive (false, true) 0), .net (.finish (false, true) 0),
        .net (.receive (false, true) 1), .net (.finish (false, true) 0)]).map
      (fun x => (x.net (false, true)).delivered) = some [((), 7), ((), 7)] := by
  decide +kernel

/-- The first attempt times out before it takes a number. -/
theorem retried_frame_is_delivered_once :
    ∃ x, run (Sending.step .standard sendRetryAttempts) (Sending.initial : Sending Bool Unit ℕ)
        [.send () false (.unicast true 7) [], .timeout () [], .take () 100 0,
          .net (.write (false, true) 0), .pass (), .net (.receive (false, true) 0),
          .net (.finish (false, true) 0), .net (.receive (false, true) 0)] = some x ∧
      (x.net (false, true)).delivered = [((), 7)] ∧
      (x.net (false, true)).delivered.countP (fun frame => frame.1 = ()) ≤ 1 := by
  exact exists_of_evaluated (fun x => (x.net (false, true)).delivered = [((), 7)])
    (by decide +kernel) fun x hx hdelivered => ⟨hdelivered,
      delivered_at_most_once .standard sendRetryAttempts _ x hx (by simp [Sending.Keeps])
        (by decide +kernel) () (false, true)⟩

end Chirps.Transport
