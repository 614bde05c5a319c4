/-
# Backpressure per stream kind

A frame that would fill the queue of its kind to nine tenths is rejected, and so are all of the kind
until the queue is below eight tenths. Whether a snapshot passes its token bucket is any choice.
-/

import Chirps.Transport.Priority

namespace Chirps.Transport

open Chirps.Library
open Function (forall_update_iff update update_apply update_of_ne update_self)

inductive StreamKind
  | control
  | gossip
  | user
  | raft
  | raftSnapshot
  | fileTransfer
  deriving DecidableEq

def StreamKind.priority : StreamKind → Priority
  | control | raft => .high
  | gossip | raftSnapshot | fileTransfer => .normal
  | user => .low

structure QueueLimits where
  raftMaxBytes : UInt64
  raftMaxItems : UInt64
  userMaxBytes : UInt64
  userMaxItems : UInt64
  gossipMaxBytes : UInt64
  gossipMaxItems : UInt64

def QueueLimits.standard : QueueLimits where
  raftMaxBytes := 16 * 1024 * 1024
  raftMaxItems := 10000
  userMaxBytes := 64 * 1024 * 1024
  userMaxItems := 50000
  gossipMaxBytes := 8 * 1024 * 1024
  gossipMaxItems := 5000

/-- `queue_limits_for_kind`: the bytes and the frames. -/
def queueLimitsForKind (limits : QueueLimits) : StreamKind → UInt64 × UInt64
  | .control | .raft | .raftSnapshot => (limits.raftMaxBytes, limits.raftMaxItems)
  | .user => (limits.userMaxBytes, limits.userMaxItems)
  | .gossip | .fileTransfer => (limits.gossipMaxBytes, limits.gossipMaxItems)

structure StreamQueue where
  currentBytes : ℕ
  currentItems : ℕ
  maxBytes : UInt64
  maxItems : UInt64
  backpressured : Bool

def StreamQueue.new (maxBytes maxItems : UInt64) : StreamQueue := ⟨0, 0, maxBytes, maxItems, false⟩

def softLimitRatio : ℚ := 9 / 10

def hardLimitRatio : ℚ := 1

def recoveryRatio : ℚ := 8 / 10

def utilizationRatio (bytes items : ℕ) (queue : StreamQueue) : ℚ :=
  max ((bytes : ℚ) / queue.maxBytes.toNat) ((items : ℚ) / queue.maxItems.toNat)

def usizeMax : ℕ := 2 ^ 64 - 1

/-- A queue below the recovery ratio is no longer backpressured. -/
def StreamQueue.recover (queue : StreamQueue) : StreamQueue :=
  if utilizationRatio queue.currentBytes queue.currentItems queue < recoveryRatio then
    { queue with backpressured := false }
  else queue

inductive QosError
  | queueFull (kind : StreamKind) (size : ℕ) (limit : UInt64)
  | throttleTimeout
  | invalidStreamKind
  | serialize (message : String)

/-- `QosMetrics`, without the time that snapshots have waited. -/
structure QosMetrics where
  backpressureTriggeredTotal : UInt64
  queueOverflowTotal : UInt64
  queueUtilization : StreamKind → ℕ

structure BackpressureTriggered where
  streamKind : StreamKind
  queueSize : ℕ
  queueLimit : UInt64

structure QueuedFrame (Frame : Type*) where
  kind : StreamKind
  frame : Frame

/-- `QosController`, with the events it has emitted. -/
structure QosController (Frame : Type*) where
  queues : StreamKind → StreamQueue
  metrics : QosMetrics
  scheduler : PriorityScheduler (QueuedFrame Frame)
  events : List BackpressureTriggered

def SchedulerConfig.standard : SchedulerConfig := ⟨![4, 2, 1], 1024⟩

namespace QosController

variable {Frame : Type*} (s : QosController Frame)

def new (limits : QueueLimits) : QosController Frame where
  queues kind := .new (queueLimitsForKind limits kind).1 (queueLimitsForKind limits kind).2
  metrics := ⟨0, 0, fun _ => 0⟩
  scheduler := .new .standard
  events := []

/-- `(util * 100.0) as u64` is stored for the kind. -/
def storeUtilization (kind : StreamKind) (util : ℚ) :
    QosController Frame :=
  { s with metrics := { s.metrics with
      queueUtilization := update s.metrics.queueUtilization kind
        (min ⌊util * 100⌋₊ usizeMax) } }

/-- One counter is for a full queue, another for one that is only backpressured. -/
def reject (kind : StreamKind) (prospectiveItems : ℕ) (util : ℚ)
    (hard : Bool) : QosController Frame :=
  let queue := s.queues kind
  let s := { s with
    queues := update s.queues kind { queue with backpressured := true }
    metrics :=
      if hard then
        { s.metrics with queueOverflowTotal := s.metrics.queueOverflowTotal + 1 }
      else
        { s.metrics with
          backpressureTriggeredTotal := s.metrics.backpressureTriggeredTotal + 1 }
    events :=
      if queue.backpressured then s.events
      else s.events ++ [BackpressureTriggered.mk kind prospectiveItems queue.maxItems] }
  s.storeUtilization kind util

def accept (kind : StreamKind) (frame : Frame) (size : UInt64)
    (prospectiveBytes prospectiveItems : ℕ) : QosController Frame :=
  let queue :=
    { s.queues kind with currentBytes := prospectiveBytes, currentItems := prospectiveItems }
  let s := { s with
    queues := update s.queues kind queue.recover
    scheduler := s.scheduler.enqueue ⟨kind.priority, size.toNat, ⟨kind, frame⟩⟩ kind.priority }
  s.storeUtilization kind (utilizationRatio queue.currentBytes queue.currentItems queue)

def enqueue (frameSize : Frame → Except String UInt64) (s : QosController Frame)
    (kind : StreamKind) (frame : Frame) (throttled : Bool) :
    Except QosError Unit × QosController Frame :=
  match frameSize frame with
  | .error message => (.error (.serialize message), s)
  | .ok size =>
    -- `throttle_snapshot`
    if kind = .raftSnapshot ∧ throttled = true then (.error .throttleTimeout, s)
    else
      let queue := s.queues kind
      let prospectiveBytes := min (queue.currentBytes + size.toNat) usizeMax
      let prospectiveItems := queue.currentItems + 1
      let util := utilizationRatio prospectiveBytes prospectiveItems queue
      if hardLimitRatio ≤ util then
        (.error (.queueFull kind prospectiveItems queue.maxItems),
          s.reject kind prospectiveItems util true)
      else if softLimitRatio ≤ util ∨ queue.backpressured = true then
        (.error (.queueFull kind prospectiveItems queue.maxItems),
          s.reject kind prospectiveItems util false)
      else (.ok (), s.accept kind frame size prospectiveBytes prospectiveItems)

def dequeue (s : QosController Frame) : Option (StreamKind × Frame) × QosController Frame :=
  match s.scheduler.dequeue with
  | (none, scheduler) => (none, { s with scheduler := scheduler })
  | (some next, scheduler) =>
    let kind := next.payload.kind
    let queue := s.queues kind
    let queue :=
      { queue with
        currentItems := queue.currentItems - 1
        currentBytes := queue.currentBytes - next.sizeBytes }
    let s := { s with
      queues := update s.queues kind queue.recover
      scheduler := scheduler }
    (some (kind, next.payload.frame),
      s.storeUtilization kind (utilizationRatio queue.currentBytes queue.currentItems queue))

def isBackpressured (kind : StreamKind) : Bool :=
  (s.queues kind).backpressured

end QosController

inductive QosEvent (Frame : Type*)
  | enqueue (kind : StreamKind) (frame : Frame) (throttled : Bool)
  | dequeue

namespace QosController

variable {Frame : Type*}

def step (frameSize : Frame → Except String UInt64) (s : QosController Frame) :
    QosEvent Frame → Option (QosController Frame)
  | .enqueue kind frame throttled => some (s.enqueue frameSize kind frame throttled).2
  | .dequeue => some s.dequeue.2

/-! ## What is queued -/

def queued (s : QosController Frame) (kind : StreamKind) :
    List (ScheduledMessage (QueuedFrame Frame)) :=
  (s.scheduler.queues kind.priority.index).filter fun message => message.payload.kind = kind

/-- No message of the kind waits to be sent. -/
def NoneQueued (s : QosController Frame) (kind : StreamKind) : Prop :=
  ∀ i, ∀ message ∈ s.scheduler.queues i, message.payload.kind ≠ kind

instance (s : QosController Frame) (kind : StreamKind) : Decidable (s.NoneQueued kind) :=
  inferInstanceAs (Decidable (∀ i, ∀ message ∈ s.scheduler.queues i, message.payload.kind ≠ kind))

end QosController

namespace PriorityScheduler

variable {α : Type*}

def Takes (s t : PriorityScheduler α) : Option (ScheduledMessage α) → Prop
  | none => t.queues = s.queues
  | some message => ∃ i front, s.queues i = front :: t.queues i ∧
      t.queues = update s.queues i (t.queues i) ∧
      message.sizeBytes = front.sizeBytes ∧ message.payload = front.payload

theorem visit_takes (s : PriorityScheduler α) : s.Takes s.visit.2 s.visit.1 := by
  rw [visit]
  split
  · rfl
  · rename_i front rest hqueue
    split
    · -- whether or not the turn goes on, only the current queue is changed
      have hqueues : (s.serve front rest).queues = update s.queues s.current rest := by
        simp only [serve]
        split <;> rfl
      refine ⟨s.current, front, ?_, ?_, rfl, rfl⟩
      · rw [hqueues, update_self, hqueue]
      · rw [hqueues, update_self]
    · rfl

theorem dequeueLoop_takes (s : PriorityScheduler α) (n : ℕ) :
    s.Takes (s.dequeueLoop n).2 (s.dequeueLoop n).1 := by
  induction n generalizing s with
  | zero => rfl
  | succ n ih =>
    have hvisit := s.visit_takes
    rw [dequeueLoop]
    split
    · rename_i heq
      rwa [heq] at hvisit
    · rename_i next heq
      rw [heq] at hvisit
      -- a turn without a message leaves the queues to the rest of the loop
      have hqueues : next.queues = s.queues := hvisit
      have hrest := ih next
      simp only [Takes, hqueues] at hrest ⊢
      exact hrest

theorem dequeue_takes (s : PriorityScheduler α) : s.Takes s.dequeue.2 s.dequeue.1 :=
  s.dequeueLoop_takes 3

end PriorityScheduler

def QueueLimits.Positive (limits : QueueLimits) : Prop :=
  ∀ kind, 0 < (queueLimitsForKind limits kind).1.toNat ∧
    0 < (queueLimitsForKind limits kind).2.toNat

def ownUtilization (limits : QueueLimits) (kind : StreamKind) (size : UInt64) : ℚ :=
  utilizationRatio size.toNat 1
    (.new (queueLimitsForKind limits kind).1 (queueLimitsForKind limits kind).2)

namespace QosController

variable {Frame : Type*}

structure Counts (limits : QueueLimits) (s : QosController Frame) (kind : StreamKind)
    (queue : StreamQueue) : Prop where
  maxBytes : queue.maxBytes = (queueLimitsForKind limits kind).1
  maxItems : queue.maxItems = (queueLimitsForKind limits kind).2
  items : queue.currentItems = (s.queued kind).length
  bytes : queue.currentBytes = ((s.queued kind).map ScheduledMessage.sizeBytes).sum

structure Balanced (limits : QueueLimits) (s : QosController Frame) : Prop where
  counts : ∀ kind, s.Counts limits kind (s.queues kind)
  placed : ∀ i, ∀ message ∈ s.scheduler.queues i, message.payload.kind.priority.index = i

/-- The utilization that `enqueue` computes. -/
def prospectiveUtilization (s : QosController Frame) (kind : StreamKind) (size : UInt64) : ℚ :=
  utilizationRatio (min ((s.queues kind).currentBytes + size.toNat) usizeMax)
    ((s.queues kind).currentItems + 1) (s.queues kind)

/-- The frame has a size and gets past the throttle, if it is a snapshot. -/
def Offered (frameSize : Frame → Except String UInt64) (kind : StreamKind) (frame : Frame)
    (throttled : Bool) (size : UInt64) : Prop :=
  frameSize frame = .ok size ∧ ¬(kind = .raftSnapshot ∧ throttled = true)

/-- A frame is rejected where the utilization would reach the soft limit or the kind is
backpressured, and is queued otherwise. -/
theorem enqueue_cases (frameSize : Frame → Except String UInt64) (s : QosController Frame)
    (kind : StreamKind) (frame : Frame) (throttled : Bool) :
    ((s.enqueue frameSize kind frame throttled).2 = s ∧
      (∃ error, (s.enqueue frameSize kind frame throttled).1 = .error error) ∧
      ∀ size, ¬Offered frameSize kind frame throttled size) ∨
    ∃ size, Offered frameSize kind frame throttled size ∧
      (((softLimitRatio ≤ s.prospectiveUtilization kind size ∨
          (s.queues kind).backpressured = true) ∧
        ∃ error items util hard, s.enqueue frameSize kind frame throttled =
          (.error error, s.reject kind items util hard)) ∨
      (s.prospectiveUtilization kind size < softLimitRatio ∧
        (s.queues kind).backpressured = false ∧
        s.enqueue frameSize kind frame throttled = (.ok (), s.accept kind frame size
          (min ((s.queues kind).currentBytes + size.toNat) usizeMax)
          ((s.queues kind).currentItems + 1)))) := by
  cases hsize : frameSize frame with
  | error message =>
    exact .inl ⟨by rw [enqueue, hsize], ⟨_, by rw [enqueue, hsize]⟩, by simp [Offered, hsize]⟩
  | ok size =>
    by_cases hthrottled : kind = .raftSnapshot ∧ throttled = true
    · rw [enqueue, hsize]
      simp only [if_pos hthrottled]
      exact .inl ⟨trivial, ⟨_, rfl⟩, fun _ hoffered => hoffered.2 hthrottled⟩
    · refine .inr ⟨size, ⟨hsize, hthrottled⟩, ?_⟩
      rw [enqueue, hsize]
      simp only [if_neg hthrottled]
      split
      · rename_i hhard
        -- the hard limit is above the soft one
        have hsoft : softLimitRatio ≤ s.prospectiveUtilization kind size :=
          le_trans (by norm_num [softLimitRatio, hardLimitRatio]) hhard
        exact .inl ⟨.inl hsoft, _, _, _, _, rfl⟩
      · split
        · rename_i hsoft
          exact .inl ⟨hsoft, _, _, _, _, rfl⟩
        · rename_i hsoft
          rw [not_or, not_le, Bool.not_eq_true] at hsoft
          exact .inr ⟨hsoft.1, hsoft.2, rfl⟩

theorem queues_reject (s : QosController Frame) (kind : StreamKind) (items : ℕ)
    (util : ℚ) (hard : Bool) : (s.reject kind items util hard).queues =
      update s.queues kind { s.queues kind with backpressured := true } := rfl

theorem queues_accept (s : QosController Frame) (kind : StreamKind) (frame : Frame)
    (size : UInt64) (bytes items : ℕ) : (s.accept kind frame size bytes items).queues =
      update s.queues kind
        { s.queues kind with currentBytes := bytes, currentItems := items }.recover := rfl

theorem scheduler_accept (s : QosController Frame) (kind : StreamKind) (frame : Frame)
    (size : UInt64) (bytes items : ℕ) : (s.accept kind frame size bytes items).scheduler =
      s.scheduler.enqueue ⟨kind.priority, size.toNat, ⟨kind, frame⟩⟩ kind.priority := rfl

end QosController

theorem StreamQueue.recover_eq (queue : StreamQueue) :
    ∃ flag, queue.recover = { queue with backpressured := flag } := by
  rw [recover]
  split
  · exact ⟨false, rfl⟩
  · exact ⟨queue.backpressured, rfl⟩

theorem StreamQueue.recover_of_empty {queue : StreamQueue} (items : queue.currentItems = 0)
    (bytes : queue.currentBytes = 0) : queue.recover.backpressured = false := by
  have hutil : utilizationRatio queue.currentBytes queue.currentItems queue < recoveryRatio := by
    rw [items, bytes]
    norm_num [utilizationRatio, recoveryRatio]
  rw [recover, if_pos hutil]

namespace QosController

variable {Frame : Type*}

variable {limits : QueueLimits} {s : QosController Frame} {kind : StreamKind} {queue : StreamQueue}

section

variable (counts : s.Counts limits kind queue)
include counts

theorem Counts.flag (flag : Bool) : s.Counts limits kind { queue with backpressured := flag } :=
  ⟨counts.maxBytes, counts.maxItems, counts.items, counts.bytes⟩

theorem Counts.recover : s.Counts limits kind queue.recover := by
  obtain ⟨flag, heq⟩ := queue.recover_eq
  rw [heq]
  exact counts.flag flag

theorem Counts.congr {t : QosController Frame}
    (h : t.queued kind = s.queued kind) : t.Counts limits kind queue := by
  refine ⟨counts.maxBytes, counts.maxItems, ?_, ?_⟩
  · rw [h, counts.items]
  · rw [h, counts.bytes]

end

theorem queued_accept (s : QosController Frame) (kind : StreamKind) (frame : Frame)
    (size : UInt64) (bytes items : ℕ) :
    (s.accept kind frame size bytes items).queued kind =
      s.queued kind ++ [⟨kind.priority, size.toNat, ⟨kind, frame⟩⟩] := by
  simp [queued, scheduler_accept, PriorityScheduler.enqueue]

theorem queued_accept_of_ne {other : StreamKind} (h : other ≠ kind) (frame : Frame) (size : UInt64)
    (bytes items : ℕ) : (s.accept kind frame size bytes items).queued other = s.queued other := by
  rw [queued, queued, scheduler_accept, PriorityScheduler.enqueue]
  by_cases hindex : other.priority.index = kind.priority.index
  · -- the two kinds share a queue, and the filter leaves the new frame out
    simp [hindex, h.symm]
  · simp [update_of_ne hindex]

theorem dequeue_cases (s : QosController Frame) :
    (s.dequeue.2.scheduler.queues = s.scheduler.queues ∧ s.dequeue.2.queues = s.queues ∧
      s.dequeue.1 = none) ∨
    ∃ i front, s.scheduler.queues i = front :: s.dequeue.2.scheduler.queues i ∧
      s.dequeue.2.scheduler.queues =
        update s.scheduler.queues i (s.dequeue.2.scheduler.queues i) ∧
      s.dequeue.2.queues = update s.queues front.payload.kind
        { s.queues front.payload.kind with
          currentItems := (s.queues front.payload.kind).currentItems - 1
          currentBytes := (s.queues front.payload.kind).currentBytes - front.sizeBytes }.recover ∧
      s.dequeue.1 = some (front.payload.kind, front.payload.frame) := by
  have htakes := s.scheduler.dequeue_takes
  rcases hresult : s.scheduler.dequeue with ⟨_ | next, scheduler⟩
  · rw [hresult] at htakes
    rw [dequeue, hresult]
    exact .inl ⟨htakes, rfl, rfl⟩
  · rw [hresult] at htakes
    obtain ⟨i, front, hfront, hrest, hsize, hpayload⟩ := htakes
    refine .inr ⟨i, front, ?_⟩
    rw [dequeue, hresult, ← hpayload, ← hsize]
    exact ⟨hfront, hrest, rfl, rfl⟩

namespace Balanced

variable {limits : QueueLimits} {s : QosController Frame}

variable {kind : StreamKind}

theorem noneQueued_iff (balanced : s.Balanced limits) : s.NoneQueued kind ↔ s.queued kind = [] := by
  rw [queued, List.filter_eq_nil_iff]
  constructor
  · intro hnone message hmessage
    simpa using hnone _ message hmessage
  · intro hall i message hmessage hkind
    have hi := balanced.placed i message hmessage
    rw [hkind] at hi
    subst hi
    exact hall message hmessage (by simpa using hkind)

theorem counters_of_noneQueued (balanced : s.Balanced limits) (none : s.NoneQueued kind) :
    (s.queues kind).currentItems = 0 ∧ (s.queues kind).currentBytes = 0 := by
  rw [(balanced.counts kind).items, (balanced.counts kind).bytes,
    balanced.noneQueued_iff.mp none]
  exact ⟨rfl, rfl⟩

theorem prospectiveUtilization_of_noneQueued (balanced : s.Balanced limits)
    (none : s.NoneQueued kind) (size : UInt64) :
    s.prospectiveUtilization kind size = ownUtilization limits kind size := by
  obtain ⟨hitems, hbytes⟩ := balanced.counters_of_noneQueued none
  have hsize : min size.toNat usizeMax = size.toNat :=
    min_eq_left (Nat.le_of_lt_succ size.toNat_lt)
  rw [prospectiveUtilization, ownUtilization, hitems, hbytes, Nat.zero_add, Nat.zero_add, hsize]
  simp only [utilizationRatio, StreamQueue.new, (balanced.counts kind).maxBytes,
    (balanced.counts kind).maxItems]

theorem new (limits : QueueLimits) :
    (QosController.new limits : QosController Frame).Balanced limits :=
  ⟨fun _ => ⟨rfl, rfl, rfl, rfl⟩, nofun⟩

section

variable (balanced : s.Balanced limits)
include balanced

theorem reject (kind : StreamKind) (items : ℕ) (util : ℚ)
    (hard : Bool) : (s.reject kind items util hard).Balanced limits := by
  refine ⟨?_, balanced.placed⟩
  rw [queues_reject, forall_update_iff s.queues
    (p := fun kind queue => Counts limits _ kind queue)]
  exact ⟨((balanced.counts kind).flag true).congr rfl,
    fun other _ => (balanced.counts other).congr rfl⟩

theorem bytes_of_lt_soft (positive : limits.Positive) {size : UInt64}
    (h : s.prospectiveUtilization kind size < softLimitRatio) :
    min ((s.queues kind).currentBytes + size.toNat) usizeMax =
      (s.queues kind).currentBytes + size.toNat := by
  have hpos : (0 : ℚ) < (s.queues kind).maxBytes.toNat := by
    rw [(balanced.counts kind).maxBytes]
    exact_mod_cast (positive kind).1
  have hratio := lt_of_le_of_lt (le_max_left _ _) h
  have hone : softLimitRatio ≤ 1 := by norm_num [softLimitRatio]
  have hlt := (div_lt_one hpos).mp (lt_of_lt_of_le hratio hone)
  have hmax := (s.queues kind).maxBytes.toNat_lt
  have hcast : min ((s.queues kind).currentBytes + size.toNat) usizeMax <
      (s.queues kind).maxBytes.toNat := by
    exact_mod_cast hlt
  rw [usizeMax] at hcast ⊢
  omega

theorem accept (kind : StreamKind) (frame : Frame)
    {size : UInt64} {bytes items : ℕ}
    (hbytes : bytes = (s.queues kind).currentBytes + size.toNat)
    (hitems : items = (s.queues kind).currentItems + 1) :
    (s.accept kind frame size bytes items).Balanced limits := by
  have hkind := balanced.counts kind
  constructor
  · rw [queues_accept, forall_update_iff s.queues
      (p := fun kind queue => Counts limits _ kind queue)]
    refine ⟨Counts.recover ⟨hkind.maxBytes, hkind.maxItems, ?_, ?_⟩, fun other hother => ?_⟩
    · rw [queued_accept, List.length_append, hitems, hkind.items]
      rfl
    · rw [queued_accept, List.map_append, List.sum_append, hbytes, hkind.bytes]
      simp
    · exact (balanced.counts other).congr (queued_accept_of_ne hother ..)
  · intro i message hmessage
    rw [scheduler_accept, PriorityScheduler.enqueue] at hmessage
    simp only [update_apply] at hmessage
    split at hmessage
    · rename_i hi
      subst hi
      rcases List.mem_append.mp hmessage with hold | hnew
      · exact balanced.placed _ message hold
      · rw [List.mem_singleton.mp hnew]
    · exact balanced.placed i message hmessage

theorem queued_of_front {t : QosController Frame} {i : Fin 3}
    {front : ScheduledMessage (QueuedFrame Frame)}
    (hfront : s.scheduler.queues i = front :: t.scheduler.queues i)
    (hrest : t.scheduler.queues = update s.scheduler.queues i (t.scheduler.queues i)) :
    s.queued front.payload.kind = front :: t.queued front.payload.kind ∧
      ∀ other, other ≠ front.payload.kind → t.queued other = s.queued other := by
  have hi := balanced.placed i front (by simp [hfront])
  constructor
  · rw [queued, queued, hi, hfront, List.filter_cons_of_pos (by simp)]
  · intro other hother
    by_cases hindex : other.priority.index = i
    · rw [queued, queued, hindex, hfront, List.filter_cons_of_neg (by simpa using hother.symm)]
    · rw [queued, queued, hrest, update_of_ne hindex]

theorem dequeue : s.dequeue.2.Balanced limits := by
  rcases s.dequeue_cases with ⟨hscheduler, hqueues, -⟩ | ⟨i, front, hfront, hrest, hqueues, -⟩
  · refine ⟨fun kind => ?_, fun i => ?_⟩
    · rw [hqueues]
      exact (balanced.counts kind).congr (by rw [queued, queued, hscheduler])
    · rw [hscheduler]
      exact balanced.placed i
  · obtain ⟨hkind, hothers⟩ := balanced.queued_of_front hfront hrest
    have hcounts := balanced.counts front.payload.kind
    constructor
    · rw [hqueues, forall_update_iff s.queues
        (p := fun kind queue => Counts limits _ kind queue)]
      refine ⟨Counts.recover ⟨hcounts.maxBytes, hcounts.maxItems, ?_, ?_⟩,
        fun other hother => (balanced.counts other).congr (hothers other hother)⟩
      · change (s.queues front.payload.kind).currentItems - 1 = _
        rw [hcounts.items, hkind, List.length_cons, Nat.add_sub_cancel]
      · change (s.queues front.payload.kind).currentBytes - front.sizeBytes = _
        rw [hcounts.bytes, hkind, List.map_cons, List.sum_cons, Nat.add_sub_cancel_left]
    · intro j message hmessage
      rw [hrest] at hmessage
      by_cases hj : j = i
      · subst hj
        rw [update_self] at hmessage
        exact balanced.placed j message (by simp [hfront, hmessage])
      · rw [update_of_ne hj] at hmessage
        exact balanced.placed j message hmessage

theorem step (positive : limits.Positive)
    {frameSize : Frame → Except String UInt64} {event : QosEvent Frame}
    {next : QosController Frame} (h : s.step frameSize event = some next) :
    next.Balanced limits := by
  cases event with
  | dequeue =>
    cases h
    exact balanced.dequeue
  | enqueue kind frame throttled =>
    cases h
    rcases s.enqueue_cases frameSize kind frame throttled with
      ⟨hsame, -⟩ | ⟨size, -, ⟨-, _, items, util, hard, heq⟩ | ⟨hsoft, -, heq⟩⟩
    · rw [hsame]
      exact balanced
    · rw [heq]
      exact balanced.reject kind items util hard
    · rw [heq]
      exact balanced.accept kind frame (balanced.bytes_of_lt_soft positive hsoft) rfl

end

end Balanced

/-! ## Empty queues -/

def Recovered (s : QosController Frame) : Prop :=
  ∀ kind, s.NoneQueued kind → s.isBackpressured kind = false

/-- A frame offered to an empty queue fills less than nine tenths of it. -/
def FitsWhenEmpty (limits : QueueLimits) (frameSize : Frame → Except String UInt64)
    (s : QosController Frame) : QosEvent Frame → Prop
  | .enqueue kind frame throttled => ∀ size, Offered frameSize kind frame throttled size →
      s.NoneQueued kind → ownUtilization limits kind size < softLimitRatio
  | .dequeue => True

theorem recovered_reject_iff (recovered : s.Recovered) (kind : StreamKind) (items : ℕ) (util : ℚ)
    (hard : Bool) : (s.reject kind items util hard).Recovered ↔ ¬s.NoneQueued kind := by
  constructor
  · intro hnext hnone
    have hflag := hnext kind hnone
    simp [isBackpressured, queues_reject] at hflag
  · intro hqueued other hnone
    have hother : other ≠ kind := fun heq => hqueued (heq ▸ hnone)
    rw [isBackpressured, queues_reject, update_of_ne hother]
    exact recovered other hnone

theorem recovered_accept (recovered : s.Recovered) (kind : StreamKind) (frame : Frame)
    (size : UInt64) (bytes items : ℕ) : (s.accept kind frame size bytes items).Recovered := by
  intro other hnone
  have hmem : ∀ i, ∀ message ∈ s.scheduler.queues i,
      message ∈ (s.accept kind frame size bytes items).scheduler.queues i := by
    intro i message hmessage
    rw [scheduler_accept, PriorityScheduler.enqueue]
    simp only [update_apply]
    split
    · rename_i hi
      exact List.mem_append_left _ (hi ▸ hmessage)
    · exact hmessage
  have hother : other ≠ kind := by
    rintro rfl
    refine hnone other.priority.index ⟨other.priority, size.toNat, ⟨other, frame⟩⟩ ?_ rfl
    simp [scheduler_accept, PriorityScheduler.enqueue]
  rw [isBackpressured, queues_accept, update_of_ne hother]
  exact recovered other fun i message hmessage => hnone i message (hmem i message hmessage)

theorem recovered_dequeue (balanced : s.Balanced limits) (recovered : s.Recovered) :
    s.dequeue.2.Recovered := by
  intro kind hnone
  rcases s.dequeue_cases with ⟨hscheduler, hqueues, -⟩ | ⟨i, front, hfront, hrest, hqueues, -⟩
  · rw [isBackpressured, hqueues]
    exact recovered kind fun j => by simpa [hscheduler] using hnone j
  · by_cases hkind : kind = front.payload.kind
    · obtain ⟨hitems, hbytes⟩ := balanced.dequeue.counters_of_noneQueued hnone
      rw [hqueues, hkind, update_self] at hitems hbytes
      obtain ⟨flag, heq⟩ := StreamQueue.recover_eq { s.queues front.payload.kind with
        currentItems := (s.queues front.payload.kind).currentItems - 1
        currentBytes := (s.queues front.payload.kind).currentBytes - front.sizeBytes }
      rw [heq] at hitems hbytes
      rw [isBackpressured, hqueues, hkind, update_self]
      exact StreamQueue.recover_of_empty hitems hbytes
    · rw [isBackpressured, hqueues, update_of_ne hkind]
      have hothers := (balanced.queued_of_front hfront hrest).2 kind hkind
      refine recovered kind (balanced.noneQueued_iff.mpr ?_)
      rw [← hothers]
      exact balanced.dequeue.noneQueued_iff.mp hnone

variable {frameSize : Frame → Except String UInt64}

theorem recovered_step_iff {next : QosController Frame} {event : QosEvent Frame}
    (balanced : s.Balanced limits) (recovered : s.Recovered)
    (h : s.step frameSize event = some next) :
    next.Recovered ↔ s.FitsWhenEmpty limits frameSize event := by
  cases event with
  | dequeue =>
    cases h
    exact iff_of_true (recovered_dequeue balanced recovered) trivial
  | enqueue kind frame throttled =>
    cases h
    rcases s.enqueue_cases frameSize kind frame throttled with
      ⟨hsame, -, hnot⟩ | ⟨size, hoffered, ⟨hfull, _, items, util, hard, heq⟩ | ⟨hsoft, -, heq⟩⟩
    · rw [hsame]
      exact iff_of_true recovered fun size hoffered => absurd hoffered (hnot size)
    · rw [heq, recovered_reject_iff recovered]
      constructor
      · exact fun hqueued _ _ hnone => absurd hnone hqueued
      · intro hfits hnone
        have hown := hfits size hoffered hnone
        rw [← balanced.prospectiveUtilization_of_noneQueued hnone] at hown
        -- the flag is down, so it was the frame
        rcases hfull with hle | hflag
        · exact absurd hown (not_lt.mpr hle)
        · exact absurd hflag (by simpa [isBackpressured] using recovered kind hnone)
    · rw [heq]
      refine iff_of_true (recovered_accept recovered _ _ _ _ _) fun other hother hnone => ?_
      cases hoffered.1.symm.trans hother.1
      rwa [← balanced.prospectiveUtilization_of_noneQueued hnone]

theorem enqueue_ok_of_recovered (balanced : s.Balanced limits) (recovered : s.Recovered)
    (none : s.NoneQueued kind) {frame : Frame} {size : UInt64} (hsize : frameSize frame = .ok size)
    (hfits : ownUtilization limits kind size < softLimitRatio) :
    (s.enqueue frameSize kind frame false).1 = .ok () := by
  have hoffered : Offered frameSize kind frame false size := ⟨hsize, by simp⟩
  rcases s.enqueue_cases frameSize kind frame false with
    ⟨-, -, hnot⟩ | ⟨other, hother, ⟨hfull, -⟩ | ⟨-, -, heq⟩⟩
  · exact absurd hoffered (hnot size)
  · cases hsize.symm.trans hother.1
    rw [balanced.prospectiveUtilization_of_noneQueued none] at hfull
    rcases hfull with hle | hflag
    · exact absurd hfits (not_lt.mpr hle)
    · exact absurd hflag (by simpa [isBackpressured] using recovered kind none)
  · rw [heq]

def Blocked (s : QosController Frame) (kind : StreamKind) : Prop :=
  s.NoneQueued kind ∧ s.isBackpressured kind = true

theorem enqueue_of_blocked (h : s.Blocked kind) (frameSize : Frame → Except String UInt64)
    (frame : Frame) (throttled : Bool) : (s.enqueue frameSize kind frame throttled).1 ≠ .ok () := by
  rw [enqueue]
  split
  · simp
  · simp only
    split
    · simp
    · split
      · simp
      · have hflag : (s.queues kind).backpressured = true := h.2
        simp [hflag]

theorem blocked_step {next : QosController Frame} {event : QosEvent Frame} (h : s.Blocked kind)
    (hstep : s.step frameSize event = some next) : next.Blocked kind := by
  obtain ⟨hnone, hflag⟩ := h
  rw [isBackpressured] at hflag
  cases event with
  | dequeue =>
    cases hstep
    rcases s.dequeue_cases with ⟨hscheduler, hqueues, -⟩ | ⟨i, front, hfront, hrest, hqueues, -⟩
    · refine ⟨fun j => ?_, by rw [isBackpressured, hqueues, hflag]⟩
      rw [hscheduler]
      exact hnone j
    · -- the frame that leaves is of another kind
      have hkind : kind ≠ front.payload.kind := (hnone i front (by simp [hfront])).symm
      refine ⟨fun j message hmessage => ?_, ?_⟩
      · by_cases hj : j = i
        · subst hj
          exact hnone j message (by simp [hfront, hmessage])
        · rw [hrest, update_of_ne hj] at hmessage
          exact hnone j message hmessage
      · rw [isBackpressured, hqueues, update_of_ne hkind, hflag]
  | enqueue other frame throttled =>
    cases hstep
    rcases s.enqueue_cases frameSize other frame throttled with
      ⟨hsame, -⟩ | ⟨size, -, ⟨-, _, items, util, hard, heq⟩ | ⟨-, hfree, heq⟩⟩
    · rw [hsame]
      exact ⟨hnone, hflag⟩
    · rw [heq]
      refine ⟨hnone, ?_⟩
      rw [isBackpressured, queues_reject, update_apply]
      split
      · rfl
      · exact hflag
    · have hkind : kind ≠ other := by
        rintro rfl
        cases hfree.symm.trans hflag
      rw [heq]
      constructor
      · intro i message hmessage
        simp only [scheduler_accept, PriorityScheduler.enqueue, update_apply] at hmessage
        split at hmessage
        · rcases List.mem_append.mp hmessage with hold | hnew
          · exact hnone _ message hold
          · rw [List.mem_singleton.mp hnew]
            exact hkind.symm
        · exact hnone i message hmessage
      · rw [isBackpressured, queues_accept, update_of_ne hkind, hflag]

end QosController

/-- Empty queues take every frame below nine tenths of them, if and only if no larger frame is ever
offered to an empty queue. -/
theorem empty_queue_recovers_iff {Frame : Type*} {limits : QueueLimits}
    (positive : limits.Positive) (frameSize : Frame → Except String UInt64)
    (events : List (QosEvent Frame)) :
    (∀ before t, before <+: events →
      run (QosController.step frameSize) (.new limits) before = some t →
      ∀ kind, t.NoneQueued kind → t.isBackpressured kind = false ∧
        ∀ frame size, frameSize frame = .ok size →
          ownUtilization limits kind size < softLimitRatio →
          (t.enqueue frameSize kind frame false).1 = .ok ()) ↔
      Along (QosController.step frameSize)
        (QosController.FitsWhenEmpty limits frameSize) (.new limits) events := by
  have hbalanced : ∀ s event next, QosController.Balanced limits s →
      QosController.step frameSize s event = some next → next.Balanced limits :=
    fun _ _ _ balanced hstep => balanced.step positive hstep
  have hnew : (QosController.new limits : QosController Frame).Balanced limits := .new limits
  rw [← always_iff_along (P := QosController.Recovered) hbalanced
    (fun _ _ _ balanced recovered hstep =>
      QosController.recovered_step_iff balanced recovered hstep) hnew (fun _ _ => rfl)]
  constructor
  · exact fun h before t hbefore hrun kind hnone => (h before t hbefore hrun kind hnone).1
  · intro h before t hbefore hrun kind hnone
    have hrecovered := h before t hbefore hrun
    refine ⟨hrecovered kind hnone, fun frame size hsize hfits => ?_⟩
    exact QosController.enqueue_ok_of_recovered (run_invariant hbalanced hnew hrun) hrecovered
      hnone hsize hfits

def plainSize (size : UInt64) : Except String UInt64 := .ok size

theorem QueueLimits.standard_positive : QueueLimits.standard.Positive := by
  intro kind
  cases kind <;> decide

/-- After a user frame of 100 bytes has passed through, the queue takes another one. -/
theorem empty_queue_recovers_user :
    ∃ t, run (QosController.step plainSize) (.new .standard)
        [.enqueue .user 100 false, .dequeue] = some t ∧
      t.NoneQueued .user ∧ t.isBackpressured .user = false ∧
        (t.enqueue plainSize .user 200 false).1 = .ok () := by
  refine exists_of_evaluated (·.NoneQueued .user) (by decide +kernel) fun t ht hqueued => ?_
  have hfits : Along (QosController.step plainSize)
      (QosController.FitsWhenEmpty .standard plainSize) (.new .standard)
      [.enqueue .user 100 false, .dequeue] := by
    refine along_of_forall fun s event hevent => ?_
    simp only [List.mem_cons, List.not_mem_nil, or_false] at hevent
    rcases hevent with rfl | rfl
    · rintro size ⟨hsize, -⟩ -
      cases hsize
      decide +kernel
    · trivial
  obtain ⟨hfree, htakes⟩ := (empty_queue_recovers_iff QueueLimits.standard_positive plainSize
    [.enqueue .user 100 false, .dequeue]).mpr hfits _ t List.prefix_rfl ht .user hqueued
  exact ⟨hqueued, hfree, htakes 200 200 rfl (by decide +kernel)⟩

/-- One gossip frame of 7.6 MB blocks the empty queue for ever. -/
theorem large_frame_blocks_empty_queue :
    ∃ s, run (QosController.step plainSize) (.new .standard)
        [.enqueue .gossip 7600000 false] = some s ∧
      ownUtilization .standard .gossip 100 < softLimitRatio ∧
      ∀ events t, run (QosController.step plainSize) s events = some t →
        t.NoneQueued .gossip ∧ t.isBackpressured .gossip = true ∧
          (t.enqueue plainSize .gossip 100 false).1 ≠ .ok () := by
  refine ⟨_, rfl, by decide +kernel, fun events t hrun => ?_⟩
  have hblocked : t.Blocked .gossip := by
    refine run_invariant (I := fun s => s.Blocked .gossip)
      (fun s event next h hstep => QosController.blocked_step h hstep) ?_ hrun
    exact ⟨by decide +kernel, by decide +kernel⟩
  exact ⟨hblocked.1, hblocked.2, QosController.enqueue_of_blocked hblocked _ _ _⟩

end Chirps.Transport
