/-
# Turns of the priority scheduler

A queue keeps the bytes that it does not use in a turn. The burst limit ends turns with bytes to
spare, and nothing bounds what is carried over.
-/

import Chirps.Transport.Priority

namespace Chirps.Transport

open Function (update update_self update_of_ne)

variable {α : Type*}

inductive SchedulerEvent (α : Type*)
  | enqueue (message : ScheduledMessage α) (priority : Priority)
  | dequeue

namespace PriorityScheduler

inductive Visit (s : PriorityScheduler α) :
    Option (ScheduledMessage α) → PriorityScheduler α → Prop
  | empty (hqueue : s.queues s.current = []) : Visit s none (s.endTurn 0)
  | short {front : ScheduledMessage α} {rest : List (ScheduledMessage α)}
      (hqueue : s.queues s.current = front :: rest)
      (hshort : s.available s.current < front.sizeBytes) :
      Visit s none (s.endTurn (s.available s.current))
  | more {front : ScheduledMessage α} {rest : List (ScheduledMessage α)}
      (hqueue : s.queues s.current = front :: rest)
      (hcovers : front.sizeBytes ≤ s.available s.current)
      (hserved : s.servedInTurn s.current + 1 < max (s.config.weights s.current).toNat 1) :
      Visit s (some { front with priority := .fromIndex s.current })
        { s with
          queues := update s.queues s.current rest
          deficitCounters := update s.deficitCounters s.current
            (s.available s.current - front.sizeBytes)
          shouldAddQuantum := update s.shouldAddQuantum s.current false
          servedInTurn := update s.servedInTurn s.current (s.servedInTurn s.current + 1) }
  | last {front : ScheduledMessage α} {rest : List (ScheduledMessage α)}
      (hqueue : s.queues s.current = front :: rest)
      (hcovers : front.sizeBytes ≤ s.available s.current) :
      Visit s (some { front with priority := .fromIndex s.current })
        ({ s with queues := update s.queues s.current rest }.endTurn
          (s.available s.current - front.sizeBytes))

theorem visit_spec (s : PriorityScheduler α) : s.Visit s.visit.1 s.visit.2 := by
  rw [visit]
  split
  · rename_i hqueue
    exact .empty hqueue
  · rename_i front rest hqueue
    split
    · rename_i hcovers
      simp only [serve]
      split
      · rename_i hmore
        have hweight := (s.config.weights s.current).toNat_lt
        have hserved :
            min (s.servedInTurn s.current + 1) u32Max = s.servedInTurn s.current + 1 := by
          have hlt := hmore.2.2
          rw [u32Max] at hlt ⊢
          omega
        rw [hserved] at hmore ⊢
        exact .more hqueue hcovers hmore.2.2
      · exact .last hqueue hcovers
    · rename_i hshort
      exact .short hqueue (lt_of_not_ge hshort)

/-- Only the queue whose turn it is has got its quantum, and no queue is in debt. -/
structure Solvent (s : PriorityScheduler α) : Prop where
  nonneg : ∀ i, 0 ≤ s.deficitCounters i
  idle : ∀ i, i ≠ s.current → s.shouldAddQuantum i = true

variable {s next : PriorityScheduler α} {sent : Option (ScheduledMessage α)}

theorem Solvent.available_nonneg (solvent : s.Solvent) (i : Fin 3) : 0 ≤ s.available i := by
  have hquantum : 0 ≤ s.quantum i := by
    rw [quantum]
    positivity
  rw [available]
  split
  · exact Int.add_nonneg (solvent.nonneg i) hquantum
  · exact solvent.nonneg i

theorem Solvent.endTurn (solvent : s.Solvent) {deficit : ℤ} (h : 0 ≤ deficit) :
    (s.endTurn deficit).Solvent := by
  constructor <;> intro i
  · simp only [PriorityScheduler.endTurn, Function.update_apply]
    split
    · exact h
    · exact solvent.nonneg i
  · intro _
    simp only [PriorityScheduler.endTurn, Function.update_apply]
    split
    · rfl
    · rename_i hi
      exact solvent.idle i hi

theorem Solvent.visit (solvent : s.Solvent) (visit : s.Visit sent next) : next.Solvent := by
  cases visit with
  | empty => exact solvent.endTurn le_rfl
  | short => exact solvent.endTurn (solvent.available_nonneg _)
  | more _ hcovers =>
    refine ⟨fun i => ?_, fun i hi => ?_⟩
    · simp only [Function.update_apply]
      split
      · exact Int.sub_nonneg_of_le hcovers
      · exact solvent.nonneg i
    · exact (update_of_ne hi ..).trans (solvent.idle i hi)
  | last _ hcovers =>
    have h := solvent.endTurn (Int.sub_nonneg_of_le hcovers)
    exact ⟨h.nonneg, h.idle⟩

theorem current_endTurn_ne (s : PriorityScheduler α) (deficit : ℤ) :
    (s.endTurn deficit).current ≠ s.current := by
  have h : ∀ i : Fin 3, i + 1 ≠ i := by decide
  exact h s.current

end PriorityScheduler

/-- What a queue had left when its turn came, and what it has sent in the turn. -/
structure SchedulerTurn where
  queue : Fin 3
  carried : ℤ
  bytes : ℕ

structure TurnLog (α : Type*) where
  scheduler : PriorityScheduler α
  turn : SchedulerTurn
  ended : List SchedulerTurn

namespace TurnLog

def new (config : SchedulerConfig) : TurnLog α := ⟨.new config, ⟨Priority.high.index, 0, 0⟩, []⟩

def visit (x : TurnLog α) : TurnLog α :=
  let (sent, next) := x.scheduler.visit
  let turn := { x.turn with bytes := x.turn.bytes + sent.elim 0 (·.sizeBytes) }
  if next.current = x.scheduler.current then ⟨next, turn, x.ended⟩
  else ⟨next, ⟨next.current, next.deficitCounters next.current, 0⟩, x.ended ++ [turn]⟩

/-- `PriorityScheduler.dequeueLoop`, with the turns. -/
def dequeueLoop : ℕ → TurnLog α → TurnLog α
  | 0, x => x
  | n + 1, x => if x.scheduler.visit.1.isSome then x.visit else dequeueLoop n x.visit

def step (x : TurnLog α) : SchedulerEvent α → TurnLog α
  | .enqueue message priority => { x with scheduler := x.scheduler.enqueue message priority }
  | .dequeue => x.dequeueLoop 3

theorem scheduler_visit (x : TurnLog α) : x.visit.scheduler = x.scheduler.visit.2 := by
  rw [visit]
  split
  dsimp only
  split <;> simp_all

theorem scheduler_dequeueLoop (n : ℕ) (x : TurnLog α) :
    (x.dequeueLoop n).scheduler = (x.scheduler.dequeueLoop n).2 := by
  induction n generalizing x with
  | zero => rfl
  | succ n ih =>
    rw [dequeueLoop, PriorityScheduler.dequeueLoop]
    rcases hvisit : x.scheduler.visit with ⟨_ | sent, next⟩
    · simp [ih, scheduler_visit, hvisit]
    · simp [scheduler_visit, hvisit]

/-- The bytes of a turn are what was carried over and the quantum, less what is left. -/
structure Metered (config : SchedulerConfig) (x : TurnLog α) : Prop where
  solvent : x.scheduler.Solvent
  config_eq : x.scheduler.config = config
  queue_eq : x.turn.queue = x.scheduler.current
  spent : x.scheduler.available x.scheduler.current + x.turn.bytes =
    x.turn.carried + x.scheduler.quantum x.scheduler.current
  ended : ∀ turn ∈ x.ended, turn.bytes ≤
    turn.carried + config.quantumBytes * (config.weights turn.queue).toNat

variable {config : SchedulerConfig} {x : TurnLog α}

section

variable (metered : x.Metered config)
include metered

theorem Metered.turn_le : x.turn.bytes ≤
    x.turn.carried + config.quantumBytes * (config.weights x.turn.queue).toNat := by
  have hspent := metered.spent
  have hleft := metered.solvent.available_nonneg x.scheduler.current
  rw [PriorityScheduler.quantum, metered.config_eq] at hspent
  rw [metered.queue_eq]
  omega

theorem Metered.turn_over {next : PriorityScheduler α}
    {turn : SchedulerTurn} (hsolvent : next.Solvent) (hconfig : next.config = config)
    (hadd : next.shouldAddQuantum next.current = true) (hturn : turn.bytes ≤
      turn.carried + config.quantumBytes * (config.weights turn.queue).toNat) :
    Metered config ⟨next, ⟨next.current, next.deficitCounters next.current, 0⟩,
      x.ended ++ [turn]⟩ := by
  refine ⟨hsolvent, hconfig, rfl, ?_, fun t ht => ?_⟩
  · simp [PriorityScheduler.available, hadd]
  · rcases List.mem_append.mp ht with hold | hnew
    · exact metered.ended t hold
    · rw [List.mem_singleton.mp hnew]
      exact hturn

theorem Metered.visit : x.visit.Metered config := by
  have hsolvent := metered.solvent.visit x.scheduler.visit_spec
  have hvisit := x.scheduler.visit_spec
  have hle := metered.turn_le
  have hadd : x.scheduler.shouldAddQuantum (x.scheduler.current + 1) = true :=
    metered.solvent.idle _ (x.scheduler.current_endTurn_ne 0)
  have hadd' : update x.scheduler.shouldAddQuantum x.scheduler.current true
      (x.scheduler.current + 1) = true :=
    (update_of_ne (x.scheduler.current_endTurn_ne 0) ..).trans hadd
  rw [TurnLog.visit]
  revert hsolvent hvisit
  rcases x.scheduler.visit with ⟨sent, next⟩
  intro hsolvent hvisit
  dsimp only at hsolvent hvisit ⊢
  cases hvisit with
  | empty | short =>
    rw [if_neg (x.scheduler.current_endTurn_ne _)]
    exact metered.turn_over hsolvent metered.config_eq hadd' hle
  | more _ hcovers =>
    rw [if_pos rfl]
    refine ⟨hsolvent, metered.config_eq, metered.queue_eq, ?_, metered.ended⟩
    have hspent := metered.spent
    simp only [PriorityScheduler.available, update_self, Option.elim_some] at hspent ⊢
    push_cast
    simp only [PriorityScheduler.quantum] at hspent ⊢
    linarith
  | last _ hcovers =>
    rw [if_neg (PriorityScheduler.current_endTurn_ne _ _)]
    refine metered.turn_over hsolvent metered.config_eq hadd' ?_
    have hspent := metered.spent
    rw [PriorityScheduler.quantum, metered.config_eq] at hspent
    dsimp only [Option.elim_some]
    rw [metered.queue_eq]
    push_cast
    linarith

theorem Metered.dequeueLoop (n : ℕ) : (x.dequeueLoop n).Metered config := by
  induction n generalizing x with
  | zero => exact metered
  | succ n ih =>
    rw [TurnLog.dequeueLoop]
    split
    · exact metered.visit
    · exact ih metered.visit

theorem Metered.run (events : List (SchedulerEvent α)) : (events.foldl step x).Metered config := by
  induction events generalizing x with
  | nil => exact metered
  | cons event events ih =>
    cases event with
    | enqueue message priority =>
      exact ih ⟨⟨metered.solvent.nonneg, metered.solvent.idle⟩, metered.config_eq,
        metered.queue_eq, metered.spent, metered.ended⟩
    | dequeue => exact ih (metered.dequeueLoop 3)

end

theorem metered_new (config : SchedulerConfig) : (new config : TurnLog α).Metered config :=
  ⟨⟨fun _ => le_rfl, fun _ _ => rfl⟩, rfl, rfl, by simp [new, PriorityScheduler.new,
    PriorityScheduler.available], nofun⟩

end TurnLog

/-- A turn of a queue sends at most its quantum and what it has carried over. -/
theorem turn_bytes_bounded (config : SchedulerConfig) (M : ℕ)
    (events : List (SchedulerEvent α)) :
    let x := events.foldl TurnLog.step (.new config)
    ∀ turn ∈ x.turn :: x.ended, turn.carried ≤ M →
      turn.bytes ≤ (config.weights turn.queue).toNat * config.quantumBytes + M := by
  intro x turn hturn hcarried
  have metered : x.Metered config := (TurnLog.metered_new config).run events
  have hle : turn.bytes ≤
      turn.carried + config.quantumBytes * (config.weights turn.queue).toNat := by
    rcases List.mem_cons.mp hturn with rfl | hended
    · exact metered.turn_le
    · exact metered.ended turn hended
  have hint : (turn.bytes : ℤ) ≤
      ((config.weights turn.queue).toNat * config.quantumBytes + M : ℕ) := by
    push_cast
    linarith
  exact_mod_cast hint

def smallThenLarge : List (SchedulerEvent Unit) :=
  [1, 1, 1, 1, 1, 1, 5, 5].map (fun size => .enqueue ⟨.high, size, ()⟩ .high) ++
    List.replicate 8 .dequeue

theorem turn_bytes_bounded_first :
    (smallThenLarge.foldl TurnLog.step (.new ⟨![2, 1, 1], 2⟩)).ended.head?.map (·.bytes) = some 2 ∧
      ∀ turn ∈ (smallThenLarge.foldl TurnLog.step (.new ⟨![2, 1, 1], 2⟩)).ended.head?,
        turn.bytes ≤ ((![2, 1, 1] : Fin 3 → UInt32) turn.queue).toNat * 2 + 5 := by
  refine ⟨by decide +kernel, fun turn hturn => ?_⟩
  have hcarried : turn.carried ≤ 5 := by
    revert turn
    decide +kernel
  exact turn_bytes_bounded ⟨![2, 1, 1], 2⟩ 5 smallThenLarge turn
    (List.mem_cons_of_mem _ (List.mem_of_mem_head? hturn)) hcarried

/-- The queue saves two bytes in each of three turns and sends ten in the fourth, where its quantum
and a message are nine. -/
theorem saved_bytes_exceed_turn :
    ∃ turn ∈ (smallThenLarge.foldl TurnLog.step (.new ⟨![2, 1, 1], 2⟩)).ended,
      turn.queue = 0 ∧ turn.bytes = 10 := by
  decide +kernel

end Chirps.Transport
