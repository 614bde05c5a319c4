/-
# The priority scheduler

Messages wait in three queues, served by deficit round robin: a queue whose turn comes gets a
quantum of bytes for each unit of its weight, and serves its front message if that is no longer.
-/

import Chirps.Library.Run

namespace Chirps.Transport

open Chirps.Library
open Function (update)

inductive Priority
  | high
  | normal
  | low

def Priority.index : Priority → Fin 3
  | high => 0
  | normal => 1
  | low => 2

def Priority.fromIndex (i : Fin 3) : Priority :=
  if i = 0 then high else if i = 1 then normal else low

structure SchedulerConfig where
  weights : Fin 3 → UInt32
  quantumBytes : ℕ

structure ScheduledMessage (α : Type*) where
  priority : Priority
  sizeBytes : ℕ
  payload : α

/-- `PriorityScheduler`, with deficits of any size. -/
structure PriorityScheduler (α : Type*) where
  queues : Fin 3 → List (ScheduledMessage α)
  deficitCounters : Fin 3 → ℤ
  shouldAddQuantum : Fin 3 → Bool
  servedInTurn : Fin 3 → ℕ
  current : Fin 3
  config : SchedulerConfig

def u32Max : ℕ := 2 ^ 32 - 1

namespace PriorityScheduler

variable {α : Type*} (s : PriorityScheduler α)

def new (config : SchedulerConfig) : PriorityScheduler α where
  queues _ := []
  deficitCounters _ := 0
  shouldAddQuantum _ := true
  servedInTurn _ := 0
  current := 0
  config := config

def enqueue (message : ScheduledMessage α) (priority : Priority) : PriorityScheduler α :=
  { s with
    queues := update s.queues priority.index
      (s.queues priority.index ++ [{ message with priority := priority }]) }

def quantum (i : Fin 3) : ℤ :=
  s.config.quantumBytes * (s.config.weights i).toNat

def available (i : Fin 3) : ℤ :=
  if s.shouldAddQuantum i then s.deficitCounters i + s.quantum i else s.deficitCounters i

def endTurn (deficit : ℤ) : PriorityScheduler α :=
  { s with
    deficitCounters := update s.deficitCounters s.current deficit
    shouldAddQuantum := update s.shouldAddQuantum s.current true
    servedInTurn := update s.servedInTurn s.current 0
    current := s.current + 1 }

def serve (front : ScheduledMessage α)
    (rest : List (ScheduledMessage α)) : PriorityScheduler α :=
  let i := s.current
  let deficit := s.available i - front.sizeBytes
  let served := min (s.servedInTurn i + 1) u32Max
  -- a turn serves at most as many messages as the weight, whatever bytes are left
  let hasMore := rest ≠ [] ∧ 0 < deficit ∧ served < max (s.config.weights i).toNat 1
  let s := { s with queues := update s.queues i rest }
  if hasMore then
    { s with
      deficitCounters := update s.deficitCounters i deficit
      shouldAddQuantum := update s.shouldAddQuantum i false
      servedInTurn := update s.servedInTurn i served }
  else s.endTurn deficit

/-- One round of the loop of `dequeue`. -/
def visit : Option (ScheduledMessage α) × PriorityScheduler α :=
  match s.queues s.current with
  -- an empty queue does not keep its bytes
  | [] => (none, s.endTurn 0)
  | front :: rest =>
    if front.sizeBytes ≤ s.available s.current then
      (some { front with priority := .fromIndex s.current }, s.serve front rest)
    else (none, s.endTurn (s.available s.current))

/-- The loop of `dequeue`, with the number of queues not visited. -/
def dequeueLoop : ℕ → PriorityScheduler α → Option (ScheduledMessage α) × PriorityScheduler α
  | 0, s => (none, s)
  | n + 1, s =>
    match s.visit with
    | (some message, s) => (some message, s)
    | (none, s) => dequeueLoop n s

def dequeue : Option (ScheduledMessage α) × PriorityScheduler α :=
  s.dequeueLoop 3

/-! ## When there is nothing to serve -/

/-- What the queue may send in this turn is enough for its first message. -/
def Covers (i : Fin 3) : Prop :=
  ∃ front ∈ (s.queues i).head?, front.sizeBytes ≤ s.available i

theorem visit_cases :
    (s.Covers s.current ∧ s.visit.1.isSome) ∨
      (¬s.Covers s.current ∧ ∃ deficit, s.visit = (none, s.endTurn deficit)) := by
  cases hqueue : s.queues s.current with
  | nil =>
    refine .inr ⟨?_, 0, by rw [visit, hqueue]⟩
    rintro ⟨front, hfront, -⟩
    rw [hqueue] at hfront
    cases hfront
  | cons front rest =>
    have hcovers : s.Covers s.current ↔ front.sizeBytes ≤ s.available s.current := by
      simp [Covers, hqueue]
    rw [hcovers]
    by_cases hsize : front.sizeBytes ≤ s.available s.current
    · exact .inl ⟨hsize, by simp [visit, hqueue, hsize]⟩
    · exact .inr ⟨hsize, _, by simp only [visit, hqueue, if_neg hsize]; rfl⟩

variable {s : PriorityScheduler α}

theorem covers_endTurn {i : Fin 3} (h : i ≠ s.current) (deficit : ℤ) :
    (s.endTurn deficit).Covers i ↔ s.Covers i := by
  simp [Covers, endTurn, available, quantum, Function.update_of_ne h]

theorem dequeueLoop_eq_none_iff {n : ℕ} (hn : n ≤ 3) :
    (s.dequeueLoop n).1 = none ↔ ∀ k < n, ¬s.Covers (s.current + Fin.ofNat 3 k) := by
  induction n generalizing s with
  | zero => simp [dequeueLoop]
  | succ n ih =>
    rcases s.visit_cases with ⟨hcovers, hsome⟩ | ⟨hnot, deficit, hvisit⟩
    · obtain ⟨message, hmessage⟩ := Option.isSome_iff_exists.mp hsome
      rcases hvisit : s.visit with ⟨result, next⟩
      rw [hvisit] at hmessage
      obtain rfl : result = some message := hmessage
      rw [dequeueLoop, hvisit]
      refine iff_of_false (by simp) fun hall => ?_
      exact hall 0 (Nat.succ_pos n) (by simpa using hcovers)
    · rw [dequeueLoop, hvisit]
      simp only
      rw [ih (by omega)]
      -- the queues behind the current one are as before
      have hshift : ∀ k < n, ((s.endTurn deficit).Covers
          ((s.endTurn deficit).current + Fin.ofNat 3 k) ↔
            s.Covers (s.current + Fin.ofNat 3 (k + 1))) := by
        intro k hk
        have heq : (s.endTurn deficit).current + Fin.ofNat 3 k =
            s.current + Fin.ofNat 3 (k + 1) := by
          change s.current + 1 + Fin.ofNat 3 k = _
          ext
          simp [Fin.val_add]
          omega
        have hne : s.current + Fin.ofNat 3 (k + 1) ≠ s.current := by
          intro hsame
          have hval := congrArg Fin.val hsame
          simp [Fin.val_add] at hval
          omega
        rw [heq, covers_endTurn hne]
      constructor
      · intro hall k hk
        cases k with
        | zero => simpa using hnot
        | succ k =>
          have hk' : k < n := by omega
          exact fun hcovers => hall k hk' ((hshift k hk').mpr hcovers)
      · intro hall k hk hcovers
        exact hall (k + 1) (by omega) ((hshift k hk).mp hcovers)

theorem dequeue_eq_none_iff : s.dequeue.1 = none ↔ ∀ i, ¬s.Covers i := by
  rw [dequeue, dequeueLoop_eq_none_iff le_rfl]
  constructor
  · intro hall i
    have hsum : ∀ a b : Fin 3, a + (b - a) = b := by decide
    have hi := hall (i - s.current).val (i - s.current).isLt
    rwa [Fin.ofNat_val_eq_self, hsum] at hi
  · exact fun hall k _ => hall _

def IsEmpty (s : PriorityScheduler α) : Prop := ∀ i, s.queues i = []

theorem not_covers_of_isEmpty (h : s.IsEmpty) (i : Fin 3) : ¬s.Covers i := by
  simp [Covers, h i]

end PriorityScheduler

/-- `dequeue` returns `None` just when there are no messages, if and only if there are none or some
front message is no longer than the bytes its queue has in its turn. -/
theorem dequeue_work_conserving_iff {α : Type*} (s : PriorityScheduler α) :
    (s.dequeue.1 = none ↔ s.IsEmpty) ↔ (s.IsEmpty ∨ ∃ i, s.Covers i) := by
  rw [PriorityScheduler.dequeue_eq_none_iff]
  constructor
  · intro hiff
    by_cases hcovers : ∃ i, s.Covers i
    · exact .inr hcovers
    · exact .inl (hiff.mp (not_exists.mp hcovers))
  · rintro (hempty | ⟨i, hcovers⟩)
    · exact iff_of_true (PriorityScheduler.not_covers_of_isEmpty hempty) hempty
    · exact iff_of_false (fun hall => hall i hcovers)
        fun hempty => PriorityScheduler.not_covers_of_isEmpty hempty i hcovers

def sendLoopConfig : SchedulerConfig := ⟨![4, 2, 1], 64 * 1024⟩

/-- A user frame of 100 kB is longer than the quantum of its queue. -/
theorem long_frame_is_not_served :
    ((PriorityScheduler.new sendLoopConfig).enqueue ⟨.low, 100000, ()⟩ .low).dequeue.1 = none ∧
      ¬((PriorityScheduler.new sendLoopConfig).enqueue ⟨.low, 100000, ()⟩ .low).IsEmpty := by
  refine ⟨by decide +kernel, fun hempty => ?_⟩
  exact absurd (hempty 2) (by decide)

end Chirps.Transport
