/-
# The counters of the QoS controller

Over any calls, the counters of a stream kind are about its frames that the scheduler holds and
below its limits, and the frames of a kind leave in the order in which they were accepted.
-/

import Chirps.Transport.Qos

namespace Chirps.Transport

variable {Frame : Type*}

def QosController.held (s : QosController Frame) (kind : StreamKind) :
    List (ScheduledMessage (QueuedFrame Frame)) :=
  (s.scheduler.queues Priority.high.index ++ s.scheduler.queues Priority.normal.index ++
    s.scheduler.queues Priority.low.index).filter fun message => message.payload.kind = kind

structure QosUse (Frame : Type*) where
  controller : QosController Frame
  accepted : List (StreamKind × Frame)
  taken : List (StreamKind × Frame)

namespace QosUse

def new (limits : QueueLimits) : QosUse Frame := ⟨.new limits, [], []⟩

def step (frameSize : Frame → Except String UInt64) (x : QosUse Frame) :
    QosEvent Frame → QosUse Frame
  | .enqueue kind frame throttled =>
    match x.controller.enqueue frameSize kind frame throttled with
    | (.ok (), controller) => { x with controller, accepted := x.accepted ++ [(kind, frame)] }
    | (.error _, controller) => { x with controller }
  | .dequeue =>
    match x.controller.dequeue with
    | (some sent, controller) => { x with controller, taken := x.taken ++ [sent] }
    | (none, controller) => { x with controller }

structure Exact (limits : QueueLimits) (x : QosUse Frame) : Prop where
  balanced : x.controller.Balanced limits
  below :
    ∀ kind, (x.controller.queues kind).currentItems < (queueLimitsForKind limits kind).2.toNat ∧
    (x.controller.queues kind).currentBytes < (queueLimitsForKind limits kind).1.toNat
  order : ∀ kind, x.accepted.filter (·.1 = kind) = x.taken.filter (·.1 = kind) ++
    (x.controller.queued kind).map fun message => (kind, message.payload.frame)

variable {limits : QueueLimits} {x : QosUse Frame} {frameSize : Frame → Except String UInt64}

theorem held_eq_queued {s : QosController Frame} (balanced : s.Balanced limits)
    (kind : StreamKind) : s.held kind = s.queued kind := by
  have hnil : ∀ p : Priority, kind.priority.index ≠ p.index →
      (s.scheduler.queues p.index).filter (fun message => message.payload.kind = kind) = [] := by
    refine fun p hp => List.filter_eq_nil_iff.mpr fun message hmessage hkind => hp ?_
    rw [← of_decide_eq_true hkind]
    exact balanced.placed _ message hmessage
  rw [QosController.held, QosController.queued, List.filter_append, List.filter_append]
  generalize kind.priority = p at hnil ⊢
  cases p with
  | high => rw [hnil .normal (by decide), hnil .low (by decide), List.append_nil, List.append_nil]
  | normal => rw [hnil .high (by decide), hnil .low (by decide), List.append_nil, List.nil_append]
  | low => rw [hnil .high (by decide), hnil .normal (by decide), List.nil_append, List.nil_append]

theorem lt_of_utilizationRatio_lt {bytes items : ℕ} {queue : StreamQueue}
    (hbytes : 0 < queue.maxBytes.toNat) (hitems : 0 < queue.maxItems.toNat)
    (h : utilizationRatio bytes items queue < softLimitRatio) :
    items < queue.maxItems.toNat ∧ bytes < queue.maxBytes.toNat := by
  have hone : utilizationRatio bytes items queue < 1 := h.trans (by norm_num [softLimitRatio])
  obtain ⟨hb, hi⟩ := max_lt_iff.mp hone
  rw [div_lt_one (by exact_mod_cast hbytes)] at hb
  rw [div_lt_one (by exact_mod_cast hitems)] at hi
  exact ⟨by exact_mod_cast hi, by exact_mod_cast hb⟩

theorem counters_recover (queue : StreamQueue) :
    queue.recover.currentItems = queue.currentItems ∧
      queue.recover.currentBytes = queue.currentBytes := by
  obtain ⟨flag, heq⟩ := queue.recover_eq
  rw [heq]
  exact ⟨rfl, rfl⟩

theorem enqueue_error {s : QosController Frame} {kind : StreamKind} {frame : Frame}
    {throttled : Bool} {error : QosError}
    (h : (s.enqueue frameSize kind frame throttled).1 = .error error) :
    (s.enqueue frameSize kind frame throttled).2.scheduler = s.scheduler ∧ ∀ other,
      ((s.enqueue frameSize kind frame throttled).2.queues other).currentItems =
        (s.queues other).currentItems ∧
      ((s.enqueue frameSize kind frame throttled).2.queues other).currentBytes =
        (s.queues other).currentBytes := by
  rcases s.enqueue_cases frameSize kind frame throttled with
    ⟨hsame, -⟩ | ⟨size, -, ⟨-, _, items, util, hard, heq⟩ | ⟨-, -, heq⟩⟩
  · rw [hsame]
    exact ⟨rfl, fun _ => ⟨rfl, rfl⟩⟩
  · rw [heq]
    refine ⟨rfl, fun other => ?_⟩
    rw [QosController.queues_reject]
    by_cases hother : other = kind
    · subst hother
      simp
    · simp [hother]
  · rw [heq] at h
    cases h

theorem Exact.new (positive : limits.Positive) : (new limits : QosUse Frame).Exact limits :=
  ⟨.new limits, fun kind => ⟨(positive kind).2, (positive kind).1⟩, fun _ => rfl⟩

theorem Exact.enqueue (exact : x.Exact limits) (positive : limits.Positive) (kind : StreamKind)
    (frame : Frame) (throttled : Bool) :
    (x.step frameSize (.enqueue kind frame throttled)).Exact limits := by
  have hbalanced := exact.balanced.step positive
    (h := (rfl : x.controller.step frameSize (.enqueue kind frame throttled) = _))
  have herror := @enqueue_error _ frameSize x.controller kind frame throttled
  have hcases := x.controller.enqueue_cases frameSize kind frame throttled
  rw [step]
  revert hbalanced herror hcases
  rcases x.controller.enqueue frameSize kind frame throttled with ⟨error | -, next⟩
  · intro hbalanced herror _
    obtain ⟨hscheduler, hcounters⟩ := herror rfl
    refine ⟨hbalanced, fun other => ?_, fun other => ?_⟩
    · rw [(hcounters other).1, (hcounters other).2]
      exact exact.below other
    · rw [exact.order other, QosController.queued, QosController.queued, hscheduler]
  · intro hbalanced _ hcases
    rcases hcases with ⟨-, ⟨_, h⟩, -⟩ | ⟨size, -, ⟨-, _, _, _, _, h⟩ | ⟨hsoft, -, h⟩⟩
    · cases h
    · cases h
    · cases h
      refine ⟨hbalanced, fun other => ?_, fun other => ?_⟩
      · dsimp only
        rw [QosController.queues_accept]
        by_cases hother : other = kind
        · subst hother
          have hcounts := exact.balanced.counts other
          rw [Function.update_self, (counters_recover _).1, (counters_recover _).2,
            ← hcounts.maxItems, ← hcounts.maxBytes]
          refine lt_of_utilizationRatio_lt ?_ ?_ hsoft
          · rw [hcounts.maxBytes]
            exact (positive other).1
          · rw [hcounts.maxItems]
            exact (positive other).2
        · rw [Function.update_of_ne hother]
          exact exact.below other
      · dsimp only
        rw [List.filter_append, exact.order other]
        by_cases hother : other = kind
        · subst hother
          simp [QosController.queued_accept]
        · simp [QosController.queued_accept_of_ne hother, Ne.symm hother]

theorem Exact.dequeue (exact : x.Exact limits) : (x.step frameSize .dequeue).Exact limits := by
  have hbalanced := exact.balanced.dequeue
  have hcases := x.controller.dequeue_cases
  rw [step]
  rcases hcases with ⟨hscheduler, hqueues, hnone⟩ | ⟨i, front, hfront, hrest, hqueues, hsome⟩
  · rw [show x.controller.dequeue = (none, x.controller.dequeue.2) from Prod.ext hnone rfl]
    refine ⟨hbalanced, fun kind => ?_, fun kind => ?_⟩
    · rw [hqueues]
      exact exact.below kind
    · rw [exact.order kind, QosController.queued, QosController.queued, hscheduler]
  · rw [show x.controller.dequeue = (_, x.controller.dequeue.2) from Prod.ext hsome rfl]
    obtain ⟨hkind, hothers⟩ := exact.balanced.queued_of_front hfront hrest
    refine ⟨hbalanced, fun kind => ?_, fun kind => ?_⟩
    · by_cases hother : kind = front.payload.kind
      · subst hother
        dsimp only
        have hbelow := exact.below front.payload.kind
        rw [hqueues, Function.update_self, (counters_recover _).1, (counters_recover _).2]
        exact ⟨(Nat.sub_le _ _).trans_lt hbelow.1, (Nat.sub_le _ _).trans_lt hbelow.2⟩
      · dsimp only
        rw [hqueues, Function.update_of_ne hother]
        exact exact.below kind
    · have horder := exact.order kind
      by_cases hother : kind = front.payload.kind
      · subst hother
        rw [hkind] at horder
        simpa [List.filter_append] using horder
      · rw [← hothers kind hother] at horder
        simpa [List.filter_append, Ne.symm hother] using horder

theorem Exact.run (positive : limits.Positive) (exact : x.Exact limits)
    (events : List (QosEvent Frame)) : (events.foldl (step frameSize) x).Exact limits := by
  induction events generalizing x with
  | nil => exact exact
  | cons event events ih =>
    cases event with
    | enqueue kind frame throttled => exact ih (exact.enqueue positive kind frame throttled)
    | dequeue => exact ih exact.dequeue

end QosUse

/-- After any calls the counters of a kind are those of its queued frames, a rejected frame changes
nothing, and frames of a kind leave in order. -/
theorem qos_accounting_is_exact {limits : QueueLimits} (positive : limits.Positive)
    (frameSize : Frame → Except String UInt64) (events : List (QosEvent Frame)) :
    let x := events.foldl (QosUse.step frameSize) (QosUse.new limits)
    (∀ kind, let queue := x.controller.queues kind
      queue.currentItems = (x.controller.held kind).length ∧
      queue.currentBytes = ((x.controller.held kind).map (·.sizeBytes)).sum ∧
      queue.currentItems < (queueLimitsForKind limits kind).2.toNat ∧
      queue.currentBytes < (queueLimitsForKind limits kind).1.toNat) ∧
    (∀ kind frame throttled error,
      let (result, next) := x.controller.enqueue frameSize kind frame throttled
      result = .error error → next.scheduler = x.controller.scheduler ∧ ∀ other,
        (next.queues other).currentItems = (x.controller.queues other).currentItems ∧
        (next.queues other).currentBytes = (x.controller.queues other).currentBytes) ∧
    ∀ kind, x.accepted.filter (·.1 = kind) = x.taken.filter (·.1 = kind) ++
      (x.controller.held kind).map fun message => (kind, message.payload.frame) := by
  intro x
  have hx : x.Exact limits := (QosUse.Exact.new positive).run positive events
  refine ⟨fun kind => ?_, fun _ _ _ _ => QosUse.enqueue_error, fun kind => ?_⟩
  · rw [QosUse.held_eq_queued hx.balanced]
    exact ⟨(hx.balanced.counts kind).items, (hx.balanced.counts kind).bytes, hx.below kind⟩
  · rw [QosUse.held_eq_queued hx.balanced]
    exact hx.order kind

theorem qos_accounting_is_exact_two_frames :
    let x := [QosEvent.enqueue .gossip true false, .enqueue .gossip false false, .dequeue].foldl
      (QosUse.step fun _ => .ok 1) (QosUse.new .standard)
    (x.controller.queues .gossip).currentItems = (x.controller.held .gossip).length ∧
      x.accepted.filter (·.1 = .gossip) = x.taken.filter (·.1 = .gossip) ++
        (x.controller.held .gossip).map fun message => (.gossip, message.payload.frame) :=
  have h := qos_accounting_is_exact QueueLimits.standard_positive (fun _ : Bool => .ok 1) _
  ⟨(h.1 .gossip).1, h.2.2 .gossip⟩

end Chirps.Transport
