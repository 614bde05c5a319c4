/-
# What the receiver has when a file is finalized

When the loop ends, each chunk was listed or acknowledged by the receiver, unless a resumed session
counts it as completed and the receiver does not list it.
-/

import Chirps.FileTransfer.Move

namespace Chirps.FileTransfer

open Chirps.Library

variable {κ ν σ : Type*}

/-! ## Attempts -/

def SendStage.confirms : SendStage → TaskInput ν → List ℕ
  | .responding, .response (.ok response) => response.existingChunks
  | .acknowledging _, .manifestAck (.ok ack) => ack.skipChunks
  | .sending _, .loop (.message (.ok (.chunkAck ack))) => if ack.verified then [ack.index] else []
  | _, _ => []

/-- A retry that is dropped is one of a confirmed chunk, or of one that is in flight. -/
def SendStage.Resends (confirmed : Finset ℕ) : SendStage → TaskInput ν → Prop
  | .sending loop, .loop (.retry index) =>
    index ∈ loop.completed → index ∉ loop.inFlight → index ∈ confirmed
  | _, _ => True

instance (confirmed : Finset ℕ) (stage : SendStage) (input : TaskInput ν) :
    Decidable (stage.Resends confirmed input) := by
  unfold SendStage.Resends
  split <;> infer_instance

/-- The sender, with the chunks that each task's target has listed or acknowledged to it. -/
structure Attempts (κ ν : Type*) where
  sender : Sender κ ν
  confirmed : ℕ → Finset ℕ

namespace Attempts

def initial (files : Files) : Attempts κ ν := ⟨.initial files, fun _ => ∅⟩

variable [DecidableEq ν]

def hear (x : Attempts κ ν) (node : ν) (e : SenderEvent κ ν) (n : ℕ) : Finset ℕ :=
  match e, x.sender.tasks n with
  | .task m input _, some t =>
    if m = n ∧ t.session.targetNodes.head? = some node then
      x.confirmed n ∪ (t.stage.confirms input).toFinset
    else x.confirmed n
  | _, _ => x.confirmed n

def step [DecidableEq κ] (c : SendConfig ν) (h : Hashing σ) (x : Attempts κ ν)
    (e : SenderEvent κ ν × ν) : Option (Attempts κ ν) :=
  (x.sender.step c h e.1).map fun next => ⟨next, x.hear e.2 e.1⟩

/-- What a task is told about chunks comes from its target. -/
def FromTarget (x : Attempts κ ν) : SenderEvent κ ν × ν → Prop
  | (.task n input _, node) => ∀ t ∈ x.sender.tasks n,
      t.stage.confirms input ≠ [] → t.session.targetNodes.head? = some node
  | _ => True

/-- No retry of a chunk that the target may lack is dropped. -/
def RetriesMissing (x : Attempts κ ν) : SenderEvent κ ν × ν → Prop
  | (.task n input _, _) => ∀ t ∈ x.sender.tasks n, t.stage.Resends (x.confirmed n) input
  | _ => True

/-- A task that asks for the file to be finalized has a confirmation of every chunk. -/
def FinalizesConfirmed (x : Attempts κ ν) : Prop :=
  ∀ n t data, x.sender.tasks n = some t → t.stage = .finalizing data →
    ∀ chunk ∈ t.session.manifest.chunks, chunk.index ∈ x.confirmed n

instance (x : Attempts κ ν) (e : SenderEvent κ ν × ν) : Decidable (x.FromTarget e) := by
  unfold FromTarget
  split <;> infer_instance

instance (x : Attempts κ ν) (e : SenderEvent κ ν × ν) : Decidable (x.RetriesMissing e) := by
  unfold RetriesMissing
  split <;> infer_instance

end Attempts

/-! ## The loop loses no chunk -/

namespace SendLoop

def Holds (l : SendLoop) (index : ℕ) : Prop :=
  index ∈ l.producer.unread.map ChunkMeta.index ∨ index ∈ l.producer.queue ∨ index ∈ l.pending ∨
    index ∈ l.inFlight ∨ index ∈ l.timers

structure Accounts (confirmed : Finset ℕ) (chunks : List ChunkMeta) (l : SendLoop) : Prop where
  skip : ∀ index ∈ l.skip, index ∈ confirmed
  held : ∀ chunk ∈ chunks, chunk.index ∈ confirmed ∨ l.Holds chunk.index
  timers : l.timers.length = l.scheduledRetries
  done : l.producerDone → l.producer.ended ∧ l.producer.queue = []

variable {confirmed more : Finset ℕ} {chunks : List ChunkMeta} {l l' : SendLoop}
  {concurrency maxRetries index : ℕ} {control : TransferControlState}

theorem step_eq_left {input : LoopInput}
    (h : l.step concurrency maxRetries control input = some (.left l')) :
    l' = l ∧ l.outstanding = false := by
  rcases step_cases h with ⟨result, producer, -, -, houtcome⟩ | ⟨-, hhead⟩ |
    ⟨result, hselect, hback⟩
  · cases houtcome
  · unfold atHead at hhead
    split_ifs at hhead with houtstanding
    · split at hhead
      · cases hhead
      · cases hhead
      · split at hhead <;> cases hhead
    · cases hhead
      exact ⟨rfl, Bool.eq_false_iff.mpr houtstanding⟩
  · obtain rfl := back_eq_left hback.symm
    obtain ⟨mid, heq⟩ | ⟨mid, err, heq⟩ | ⟨mid, heq⟩ := select_cases hselect
    · cases heq
    · cases heq
    · cases heq

namespace Accounts

theorem mono (h : l.Accounts confirmed chunks) (hsub : confirmed ⊆ more) : l.Accounts more chunks :=
  ⟨fun index hindex => hsub (h.skip index hindex),
    fun chunk hchunk => (h.held chunk hchunk).imp_left (@hsub _), h.timers, h.done⟩

protected theorem new {completed : Finset ℕ} {skip : List ℕ}
    (hskip : ∀ index ∈ skip, index ∈ confirmed) :
    (SendLoop.new chunks completed skip).Accounts confirmed chunks :=
  ⟨hskip, fun _ hchunk => .inr (.inl (List.mem_map_of_mem hchunk)), rfl, nofun⟩

section

variable (h : l.Accounts confirmed chunks)
include h

theorem of_holds (hskip : l'.skip = l.skip)
    (hholds : ∀ index, l.Holds index → index ∈ confirmed ∨ l'.Holds index)
    (htimers : l'.timers.length = l'.scheduledRetries)
    (hdone : l'.producerDone → l'.producer.ended ∧ l'.producer.queue = []) :
    l'.Accounts confirmed chunks :=
  ⟨hskip ▸ h.skip, fun chunk hchunk => (h.held chunk hchunk).elim .inl (hholds chunk.index),
    htimers, hdone⟩

theorem produce {result : Except SendError Bytes} {producer : Producer}
    (hproduce : l.producer.produce l.skip result = some producer) :
    { l with producer }.Accounts confirmed chunks := by
  unfold Producer.produce at hproduce
  split_ifs at hproduce with hended
  have hdone : l.producerDone → False := fun hdone => hended (h.done hdone).1
  split at hproduce
  · cases hproduce
  · cases hproduce
    exact h.of_holds rfl (fun _ => .inr) h.timers fun hd => (hdone hd).elim
  · rename_i chunk rest bytes hunread
    split_ifs at hproduce with hsize hskipped
    · -- the receiver has the chunk, and it goes into the hash only
      cases hproduce
      refine h.of_holds rfl (fun index hindex => ?_) h.timers fun hd => (hdone hd).elim
      unfold Holds at hindex ⊢
      rw [hunread, List.map_cons, List.mem_cons] at hindex
      rcases hindex with (rfl | hrest) | hlater
      · exact .inl (h.skip chunk.index hskipped)
      · exact .inr (.inl hrest)
      · exact .inr (.inr hlater)
    · cases hproduce
      refine h.of_holds rfl (fun index hindex => .inr ?_) h.timers fun hd => (hdone hd).elim
      unfold Holds at hindex ⊢
      rw [hunread, List.map_cons, List.mem_cons] at hindex
      rw [List.mem_append, List.mem_singleton]
      grind

theorem dispatch
    (hdispatch : SendLoop.dispatch concurrency l.pending l = some l') :
    l'.Accounts confirmed chunks := by
  obtain ⟨taken, rest, hpending, -, rfl⟩ := dispatch_eq hdispatch
  refine h.of_holds rfl (fun index hindex => .inr ?_) h.timers h.done
  unfold Holds at hindex ⊢
  rw [hpending, List.mem_append] at hindex
  rw [Finset.mem_union, List.mem_toFinset]
  grind

theorem takePrepared (hopen : l.producerDone = false)
    (htake : l.takePrepared = some l') : l'.Accounts confirmed chunks := by
  rw [SendLoop.takePrepared] at htake
  split at htake
  · rename_i index rest hqueue
    cases htake
    refine h.of_holds rfl (fun other hother => .inr ?_) h.timers fun hdone => by
      cases hopen.symm.trans hdone
    unfold Holds at hother ⊢
    rw [hqueue, List.mem_cons] at hother
    rw [List.mem_append, List.mem_singleton]
    grind
  · rename_i hqueue
    split_ifs at htake with hended
    cases htake
    exact h.of_holds rfl (fun _ => .inr) h.timers fun _ => ⟨hended, hqueue⟩

theorem scheduleRetry {sends : List ℕ}
    (hretry : SendLoop.scheduleRetry maxRetries index
      { l with sends, inFlight := l.inFlight.erase index } = some l') : l'.Accounts confirmed
        chunks := by
  obtain ⟨-, rfl⟩ := scheduleRetry_eq hretry
  refine h.of_holds rfl (fun other hother => .inr ?_) ?_ h.done
  · unfold Holds at hother ⊢
    rw [Finset.mem_erase, List.mem_append, List.mem_singleton]
    grind
  · rw [List.length_append, h.timers]
    rfl

theorem takeSent {result : Except SendError Unit}
    (htake : l.takeSent maxRetries index result = .continued l') :
    l'.Accounts confirmed chunks := by
  unfold SendLoop.takeSent at htake
  split at htake
  · cases htake
    exact h.of_holds rfl (fun _ => .inr) h.timers h.done
  · dsimp only at htake
    split at htake
    · cases htake
    · rename_i hretry
      cases htake
      exact h.scheduleRetry hretry

theorem takeRetry (hindex : index ∈ l.timers)
    (hresends : index ∈ l.completed → index ∉ l.inFlight → index ∈ confirmed) :
    (l.takeRetry index).Accounts confirmed chunks := by
  refine h.of_holds rfl (fun other hother => ?_) ?_ h.done
  · unfold Holds at hother ⊢
    rw [SendLoop.takeRetry]
    by_cases hself : other = index
    · -- the chunk is pending again, in flight, or confirmed
      subst hself
      dsimp only
      split_ifs <;> grind
    · have hkept : other ∈ l.timers → other ∈ l.timers.erase index :=
        (List.mem_erase_of_ne hself).mpr
      dsimp only
      split_ifs <;> grind
  · rw [SendLoop.takeRetry]
    dsimp only
    rw [List.length_erase_of_mem hindex, h.timers]

theorem acknowledge {ack : ChunkAck}
    (hverified : ack.verified → ack.index ∈ confirmed)
    (hack : l.acknowledge maxRetries ack = .continued l') : l'.Accounts confirmed chunks := by
  rw [SendLoop.acknowledge] at hack
  split_ifs at hack with hflight hok
  · -- the chunk leaves the loop as a confirmed one
    cases hack
    refine h.of_holds rfl (fun index hindex => ?_) h.timers h.done
    have hconfirmed := hverified hok
    unfold Holds at hindex ⊢
    rw [Finset.mem_erase]
    by_cases hindex' : index = ack.index
    · exact .inl (hindex' ▸ hconfirmed)
    · grind
  · dsimp only at hack
    split at hack
    · cases hack
    · rename_i retrying hretry
      cases hack
      have hretrying : retrying.Accounts confirmed chunks := h.scheduleRetry hretry
      exact hretrying.of_holds rfl (fun _ => .inr) hretrying.timers hretrying.done
  · cases hack
    exact h

theorem select {input : LoopInput}
    (hverified : ∀ ack, input = .message (.ok (.chunkAck ack)) → ack.verified →
      ack.index ∈ confirmed)
    (hresends : ∀ index, input = .retry index → index ∈ l.completed → index ∉ l.inFlight →
      index ∈ confirmed)
    (hselect : l.select maxRetries control input = some (.continued l')) :
    l'.Accounts confirmed chunks := by
  cases input with
  | head | produce => cases hselect
  | prepared =>
    rw [SendLoop.select] at hselect
    split_ifs at hselect with hdone
    obtain ⟨taken, htaken, heq⟩ := Option.map_eq_some_iff.mp hselect
    cases heq
    exact h.takePrepared (Bool.eq_false_iff.mpr hdone) htaken
  | control =>
    rw [SendLoop.select] at hselect
    split_ifs at hselect
    · cases hselect
    · cases hselect
      exact h
  | sent index result =>
    rw [SendLoop.select] at hselect
    split_ifs at hselect
    exact h.takeSent (Option.some_inj.mp hselect)
  | retry index =>
    rw [SendLoop.select] at hselect
    split_ifs at hselect with hindex
    cases hselect
    exact h.takeRetry hindex (hresends index rfl)
  | message message =>
    have hreceive := Option.some_inj.mp hselect
    rcases message with err | (ack | completion | text | reason | _)
    · cases hreceive
    · exact h.acknowledge (hverified ack rfl) hreceive
    · cases hreceive
      exact h
    · cases hreceive
    · cases hreceive
    · cases hreceive
      exact h

theorem step {input : LoopInput}
    (hverified : ∀ ack, input = .message (.ok (.chunkAck ack)) → ack.verified →
      ack.index ∈ confirmed)
    (hresends : ∀ index, input = .retry index → index ∈ l.completed → index ∉ l.inFlight →
      index ∈ confirmed)
    (hstep : l.step concurrency maxRetries control input = some (.continued l')) :
    l'.Accounts confirmed chunks := by
  rcases step_cases hstep with ⟨result, producer, -, hproduce, houtcome⟩ | ⟨-, hhead⟩ |
    ⟨result, hselect, hback⟩
  · cases houtcome
    exact h.produce hproduce
  · unfold atHead at hhead
    split_ifs at hhead
    · split at hhead
      · cases hhead
      · cases hhead
      · split at hhead
        · cases hhead
        · rename_i sending hdispatch
          cases hhead
          have hsending := h.dispatch hdispatch
          exact hsending.of_holds rfl (fun _ => .inr) hsending.timers hsending.done
    · cases hhead
  · obtain ⟨mid, rfl, rfl⟩ := back_eq_continued hback.symm
    have hmid := h.select hverified hresends hselect
    exact hmid.of_holds rfl (fun _ => .inr) hmid.timers hmid.done

theorem confirmed_of_not_outstanding
    (houtstanding : l.outstanding = false) (herror : l.producer.error = none) :
    ∀ chunk ∈ chunks, chunk.index ∈ confirmed := by
  intro chunk hchunk
  simp only [outstanding, Bool.or_eq_false_iff, Bool.not_eq_false', List.isEmpty_iff,
    decide_eq_false_iff_not, not_not, bne_eq_false_iff_eq] at houtstanding
  obtain ⟨⟨⟨hdone, hpending⟩, hflight⟩, hretries⟩ := houtstanding
  obtain ⟨hended, hqueue⟩ := h.done hdone
  have hunread : l.producer.unread = [] := by simpa [Producer.ended, herror] using hended
  have htimers : l.timers = [] := List.eq_nil_of_length_eq_zero (h.timers.trans hretries)
  refine (h.held chunk hchunk).resolve_right fun hholds => ?_
  simp [Holds, hunread, hqueue, hpending, hflight, htimers] at hholds

end

end Accounts

end SendLoop

/-! ## Tasks -/

def SendStage.Backed (confirmed : Finset ℕ) (chunks : List ChunkMeta) : SendStage → Prop
  | .announcing existing | .acknowledging existing => ∀ index ∈ existing, index ∈ confirmed
  | .sending loop => loop.Accounts confirmed chunks
  | .finalizing _ => ∀ chunk ∈ chunks, chunk.index ∈ confirmed
  | .queued | .requesting | .responding | .completing _ | .removing => True

theorem SendStage.Backed.mono {confirmed more : Finset ℕ} {chunks : List ChunkMeta}
    {stage : SendStage} (h : stage.Backed confirmed chunks) (hsub : confirmed ⊆ more) :
    stage.Backed more chunks := by
  cases stage with
  | announcing | acknowledging => exact fun index hindex => hsub (h index hindex)
  | sending loop => exact SendLoop.Accounts.mono h hsub
  | finalizing => exact fun chunk hchunk => hsub (h chunk hchunk)
  | queued | requesting | responding | completing | removing => trivial

def Sender.Backed (confirmed : ℕ → Finset ℕ) (x : Sender κ ν) : Prop :=
  ∀ n t, x.tasks n = some t → t.stage.Backed (confirmed n) t.session.manifest.chunks

namespace Sender.Backed

variable {confirmed more : ℕ → Finset ℕ} {x y : Sender κ ν} {n : ℕ} {t : SendTask κ ν}
  {c : SendConfig ν} {h : Hashing σ}

section

variable (hb : x.Backed confirmed)
include hb

theorem mono (hsub : ∀ n, confirmed n ⊆ more n) : x.Backed more :=
  fun n t ht => (hb n t ht).mono (hsub n)

theorem putTask {entry : Option (SendTask κ ν)}
    (hentry : ∀ t, entry = some t → t.stage.Backed (confirmed n) t.session.manifest.chunks) :
    (x.putTask n entry).Backed confirmed :=
  forall_update_some hb hentry

theorem goto {stage : SendStage}
    (hstage : stage.Backed (confirmed n) t.session.manifest.chunks) :
    (x.goto n t stage).Backed confirmed :=
  hb.putTask (by rintro _ ⟨⟩; exact hstage)

theorem spawn
    (hstage : t.stage.Backed (confirmed x.spawned) t.session.manifest.chunks) :
    (x.spawn t).Backed confirmed :=
  forall_update_some hb (by rintro _ ⟨⟩; exact hstage)

theorem leave (m : Member) : (x.leave n t m).Backed confirmed := by
  have hleft : (x.putTask n none).Backed confirmed := hb.putTask fun _ ht => by cases ht
  rw [Sender.leave]
  split
  · exact hleft
  · exact hleft

theorem setControl (s : SendSession κ ν) (control : TransferControlState) :
    (x.setControl s control).Backed confirmed := by
  rw [Sender.setControl]
  split
  · exact hb
  · refine hb.putTask fun t ht => ?_
    obtain ⟨old, hold, rfl⟩ := Option.map_eq_some_iff.mp ht
    exact hb _ old hold

theorem hear (id : κ) (sender : ν) (message : FileTransferMessage) :
    (x.hear id sender message).Backed confirmed := by
  cases message <;> exact hb

end

variable [DecidableEq κ]

section

variable (hb : x.Backed confirmed)
include hb

theorem record (saved : Bool) (s : SendSession κ ν) :
    (x.record saved s).Backed confirmed := hb

theorem failSession (saved : Bool) (err : SendError) :
    (x.failSession n t saved err).Backed confirmed :=
  (hb.record saved _).leave _

theorem cancelSession (saved : Bool) : (x.cancelSession n t saved).Backed confirmed :=
  (hb.record saved _).leave _

theorem completeSession (saved : Bool) : (x.completeSession n t saved).Backed confirmed :=
  (hb.record saved _).leave _

end

variable {saved : Bool}

theorem afterLoop (hb : x.Backed confirmed) {loop : SendLoop} {input : LoopInput}
    {outcome : LoopOutcome} (haccounts : loop.Accounts (confirmed n) t.session.manifest.chunks)
    (hverified : ∀ ack, input = .message (.ok (.chunkAck ack)) → ack.verified →
      ack.index ∈ confirmed n)
    (hresends : ∀ index, input = .retry index → index ∈ loop.completed → index ∉ loop.inFlight →
      index ∈ confirmed n)
    (houtcome : loop.step t.session.options.concurrency t.session.options.maxRetries t.control
      input = some outcome) (hstep : x.afterLoop h n t saved outcome = some y) :
    y.Backed confirmed := by
  cases outcome with
  | continued loop' =>
    cases hstep
    exact hb.goto (haccounts.step hverified hresends houtcome)
  | failed loop' err =>
    cases hstep
    exact hb.failSession saved err
  | cancelled loop' =>
    cases hstep
    exact hb.cancelSession saved
  | panicked =>
    cases hstep
    exact hb.leave _
  | left loop' =>
    -- `is_complete` counts what was completed earlier too, so it says nothing here
    obtain ⟨rfl, houtstanding⟩ := SendLoop.step_eq_left houtcome
    rw [Sender.afterLoop] at hstep
    split_ifs at hstep
    · rw [Sender.afterChunks] at hstep
      split at hstep
      · cases hstep
        exact hb.leave _
      · rename_i herror
        split_ifs at hstep
        cases hstep
        exact goto hb (haccounts.confirmed_of_not_outstanding houtstanding herror)
    · cases hstep
      exact hb.failSession saved _

variable [DecidableEq ν]

theorem afterCompletion (hb : x.Backed confirmed) {target sender : ν} {data : Bytes}
    {message : FileTransferMessage} :
    (x.afterCompletion h n t saved target data sender message).Backed confirmed := by
  have heard := hb.hear t.session.id sender message
  rw [Sender.afterCompletion]
  split
  · exact heard.failSession saved _
  · split
    · exact heard.goto trivial
    · exact heard.completeSession saved

theorem next (hb : x.Backed confirmed) (ht : x.tasks n = some t) {target : ν} {input : TaskInput ν}
    (htold : ∀ index ∈ t.stage.confirms input, index ∈ confirmed n)
    (hresends : t.stage.Resends (confirmed n) input)
    (hstep : x.next c h n t target saved t.stage input = some y) : y.Backed confirmed := by
  have hstage := hb n t ht
  revert hstage htold hresends hstep
  generalize t.stage = stage
  intro htold hresends hstep hstage
  unfold Sender.next at hstep
  split at hstep
  · cases hstep
    exact hb.leave _
  · -- a resumed session is opened again
    split at hstep
    · cases hstep
      exact hb.leave _
    · cases hstep
      exact goto hb trivial
  -- the request and its response
  · cases hstep
    exact hb.goto trivial
  · cases hstep
    exact hb.failSession saved _
  · cases hstep
    exact hb.failSession saved _
  · split at hstep
    · cases hstep
      exact hb.goto htold
    · cases hstep
      exact hb.failSession saved _
  -- the manifest and its acknowledgement
  · cases hstep
    exact hb.goto hstage
  · cases hstep
    exact hb.failSession saved _
  · cases hstep
    exact hb.failSession saved _
  · split at hstep
    · cases hstep
      refine hb.goto (SendLoop.Accounts.new fun index hindex => ?_)
      exact (List.mem_append.mp hindex).elim (hstage index) (htold index)
    · cases hstep
      exact hb.failSession saved _
  · -- the chunks
    rename_i loop input
    obtain ⟨outcome, houtcome, hstep⟩ := Option.bind_eq_some_iff.mp hstep
    refine hb.afterLoop hstage (fun ack hinput hverified => ?_)
      (fun index hinput => ?_) houtcome hstep
    · subst hinput
      refine htold ack.index ?_
      rw [SendStage.confirms, if_pos hverified]
      exact List.mem_singleton_self _
    · subst hinput
      exact hresends
  -- the finalization, and the receiver's report
  · cases hstep
    exact hb.goto trivial
  · cases hstep
    exact hb.leave _
  · cases hstep
    exact hb.failSession saved _
  · split at hstep
    · cases hstep
      exact hb.afterCompletion
    · cases hstep
  · split at hstep
    · cases hstep
      exact completeSession (x := x.removeFile t.session.operation t.session.sourcePath) hb saved
    · cases hstep
  · cases hstep
    exact hb.failSession saved _
  · cases hstep

theorem call (hb : x.Backed confirmed) {e : SenderEvent κ ν}
    (hcall : ∀ n input saved, e ≠ .task n input saved) (hstep : x.step c h e = some y) :
    y.Backed confirmed := by
  cases e with
  | sendFile kind target sourcePath destPath options id saved =>
    rw [Sender.step] at hstep
    split_ifs at hstep
    cases hstep
    rw [Sender.sendFile]
    split
    · exact hb
    · exact spawn hb trivial
  | broadcastFile request =>
    cases hstep
    rw [Sender.broadcastFile]
    split <;> exact hb
  | member n slot id saved =>
    rw [Sender.step] at hstep
    split at hstep
    · cases hstep
    · split at hstep
      · cases hstep
        rw [Sender.startMember]
        split
        · exact hb
        · exact spawn hb trivial
      · cases hstep
  | task n input saved => exact absurd rfl (hcall n input saved)
  | finish n removed =>
    rw [Sender.step] at hstep
    split at hstep
    · cases hstep
    · split at hstep
      · cases hstep
        rw [Sender.finishBroadcast]
        split <;> exact hb
      · cases hstep
  | abandon n =>
    cases hstep
    exact fun m t ht => hb m t (Option.filter_eq_some_iff.mp ht).1
  | pauseTransfer id saved =>
    cases hstep
    rw [Sender.pauseTransfer]
    split
    · exact hb
    · split
      · exact (hb.record saved _).setControl _ _
      · exact hb
  | resumeTransfer id saved =>
    cases hstep
    rw [Sender.resumeTransfer]
    split
    · split
      · exact (hb.record saved _).setControl _ _
      · exact hb
    · split
      · exact hb
      · split
        · exact hb
        · exact hb.spawn trivial
  | cancelTransfer id sent saved =>
    cases hstep
    rw [Sender.cancelTransfer]
    split
    · exact hb
    · dsimp only
      split
      · exact ((hb.record false _).record saved _).setControl _ _
      · exact hb
  | remoteCancel id reason saved =>
    cases hstep
    rw [Sender.remoteCancel]
    split
    · exact hb
    · exact (hb.record saved _).setControl _ _
  | received s saved =>
    rw [Sender.step] at hstep
    split_ifs at hstep
    cases hstep
    exact hb
  | forget | discard | write =>
    cases hstep
    exact hb
  | restart =>
    cases hstep
    exact fun _ _ ht => by cases ht

end Sender.Backed

/-! ## Runs -/

theorem SendStage.Resends.mono {confirmed more : Finset ℕ} {stage : SendStage} {input : TaskInput ν}
    (h : stage.Resends confirmed input) (hsub : confirmed ⊆ more) : stage.Resends more input := by
  unfold Resends at h ⊢
  split at h
  · exact fun hcompleted hflight => hsub (h hcompleted hflight)
  · trivial

namespace Attempts

variable [DecidableEq ν] {c : SendConfig ν} {h : Hashing σ} {x y : Attempts κ ν}

theorem subset_hear (x : Attempts κ ν) (node : ν) (e : SenderEvent κ ν) (n : ℕ) :
    x.confirmed n ⊆ x.hear node e n := by
  unfold hear
  split
  · split_ifs
    · exact Finset.subset_union_left
    · exact subset_rfl
  · exact subset_rfl

theorem confirms_subset_hear {node : ν} {n : ℕ} {input : TaskInput ν} {saved : Bool}
    {t : SendTask κ ν} (ht : x.sender.tasks n = some t)
    (htarget : x.FromTarget (.task n input saved, node)) :
    ∀ index ∈ t.stage.confirms input, index ∈ x.hear node (.task n input saved) n := by
  intro index hindex
  have hfrom := htarget t ht (List.ne_nil_of_mem hindex)
  have hheard : x.hear node (.task n input saved) n =
      x.confirmed n ∪ (t.stage.confirms input).toFinset := by
    simp [hear, ht, hfrom]
  rw [hheard]
  exact Finset.mem_union_right _ (List.mem_toFinset.mpr hindex)

theorem backed_step [DecidableEq κ] {e : SenderEvent κ ν × ν} (hb : x.sender.Backed x.confirmed)
    (htarget : x.FromTarget e) (hretries : x.RetriesMissing e) (hstep : x.step c h e = some y) :
    y.sender.Backed y.confirmed := by
  obtain ⟨event, node⟩ := e
  obtain ⟨next, hnext, rfl⟩ := Option.map_eq_some_iff.mp hstep
  have hb' := hb.mono (x.subset_hear node event)
  by_cases htask : ∃ n input saved, event = .task n input saved
  · obtain ⟨n, input, saved, rfl⟩ := htask
    rw [Sender.step] at hnext
    split at hnext
    · cases hnext
    · rename_i t ht
      split at hnext
      · cases hnext
      · exact hb'.next ht (confirms_subset_hear ht htarget)
          ((hretries t ht).mono (x.subset_hear node _ n)) hnext
  · exact hb'.call (fun n input saved hevent => htask ⟨n, input, saved, hevent⟩) hnext

end Attempts

/-- A file is finalized only when its target has confirmed every chunk in this attempt, if all
answers come from the target and no retry of an unconfirmed chunk is dropped. -/
theorem finalized_chunks_confirmed [DecidableEq κ] [DecidableEq ν] {c : SendConfig ν}
    {h : Hashing σ}
    {files : Files} {events : List (SenderEvent κ ν × ν)} {x : Attempts κ ν}
    (reach : run (Attempts.step c h) (.initial files) events = some x)
    (from_target : Along (Attempts.step c h) Attempts.FromTarget (.initial files) events)
    (retries_missing : Along (Attempts.step c h) Attempts.RetriesMissing (.initial files) events) :
    x.FinalizesConfirmed := by
  have hbacked : x.sender.Backed x.confirmed :=
    run_invariant_of_along (I := fun x => x.sender.Backed x.confirmed)
      (fun _ _ _ hb hguards hstep => Attempts.backed_step hb hguards.1 hguards.2 hstep)
      (fun _ _ ht => by cases ht) (from_target.and retries_missing) reach
  intro n t data ht hstage
  have htask := hbacked n t ht
  rw [hstage] at htask
  exact htask

/-! ### A session that is resumed -/

def accepted (skip : List ℕ) : List (TaskInput ℕ) :=
  [.sent (.ok ()), .response (.ok ⟨true, none, []⟩), .sent (.ok ()),
    .manifestAck (.ok ⟨true, skip, none⟩), .loop .head, .loop (.produce (.ok [7]))]

def sentInVain : List (TaskInput ℕ) :=
  [.loop .prepared, .loop .head, .loop (.sent 0 (.error (.transport "stream closed"))), .loop .head,
    .loop (.retry 0), .loop .head]

def acknowledged : List (TaskInput ℕ) :=
  [.loop (.message (.ok (.chunkAck ⟨0, true, none⟩))), .loop .head,
    .loop (.message (.ok (.error "disk full")))]

def attempt (n : ℕ) (inputs : List (TaskInput ℕ)) : List (SenderEvent ℕ ℕ × ℕ) :=
  inputs.map fun input => (.task n input true, 1)

def resumed : List (SenderEvent ℕ ℕ × ℕ) :=
  [(SenderEvent.sendFile .send 1 ["in"] ["out"] {} 10 true, 1)] ++
    attempt 0 (accepted [] ++ sentInVain ++ acknowledged) ++
    [(SenderEvent.restart, 1), (.resumeTransfer 10 true, 1), (.task 1 .slot true, 1)]

def drained : List (TaskInput ℕ) := [.loop .prepared, .loop .head]

/-- Node 1 has lost the chunk and lists nothing. The chunk is sent in vain and not sent again,
and the file is finalized. -/
theorem resumed_chunk_not_sent_again :
    ∃ x t data,
      run (Attempts.step ownNode plainHashing) (.initial oneFile)
        (resumed ++ attempt 1 (accepted [] ++ sentInVain ++ drained)) = some x ∧
      x.sender.tasks 1 = some t ∧ t.stage = .finalizing data ∧
      t.session.manifest.chunks.map ChunkMeta.index = [0] ∧ x.confirmed 1 = ∅ := by
  refine ⟨_, _, _, rfl, rfl, rfl, rfl, rfl⟩

theorem finalized_chunks_confirmed_resumed :
    ∃ x t data,
      run (Attempts.step ownNode plainHashing) (.initial oneFile)
        (resumed ++ attempt 1 (accepted [0] ++ drained)) = some x ∧
      x.sender.tasks 1 = some t ∧ t.stage = .finalizing data ∧
      ∀ chunk ∈ t.session.manifest.chunks, chunk.index ∈ x.confirmed 1 := by
  have hrun : (run (Attempts.step ownNode plainHashing) (.initial oneFile)
      (resumed ++ attempt 1 (accepted [0] ++ drained))).any fun x =>
        (x.sender.tasks 1).any fun t => t.stage matches .finalizing _ := by
    decide +kernel
  obtain ⟨x, hx, hfinalizing⟩ := (Option.any_eq_true _ _).mp hrun
  obtain ⟨t, ht, hstage⟩ := (Option.any_eq_true _ _).mp hfinalizing
  obtain ⟨data, hdata⟩ : ∃ data, t.stage = .finalizing data := by
    cases hstage' : t.stage with
    | finalizing data => exact ⟨data, rfl⟩
    | _ =>
      rw [hstage'] at hstage
      cases hstage
  exact ⟨x, t, data, hx, ht, hdata, finalized_chunks_confirmed hx (by decide +kernel)
    (by decide +kernel) 1 t data ht hdata⟩

end Chirps.FileTransfer
