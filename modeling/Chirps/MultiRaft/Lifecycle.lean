/-
# The shutdown of a group

Operations of a group hold a read guard of `operation_gate`, and the shutdown runs under its write
guard, inside the initializer of a `OnceCell`. A task may be dropped wherever it waits.
-/

import Mathlib

namespace Chirps.MultiRaft

open Relation (ReflTransGen)

/-- Where a task stands: in `acquire` and the operation after it, or in `shutdown_with`. -/
inductive Phase (R : Type*)
  | idle
  | waiting
  | granted
  | operating
  | closed
  | initializing
  | shuttingDown
  | storing (result : R)

namespace Phase

variable {R : Type*}

/-- The task holds a read guard. -/
def reads : Phase R → Bool
  | granted | operating => true
  | _ => false

/-- The task has the permit of the `OnceCell`. -/
def initializes : Phase R → Bool
  | initializing | shuttingDown | storing _ => true
  | _ => false

/-- The task waits, or is between the check of `accepting` and its end: there it may be dropped. -/
def stops : Phase R → Bool
  | idle | storing _ => false
  | _ => true

end Phase

/-- `GroupLifecycle` and its tasks, with the results of complete shutdowns and of callers. -/
structure Lifecycle (R : Type*) where
  accepting : Bool
  shutdownResult : Option R
  phase : ℕ → Phase R
  completed : List R
  returned : List R

namespace Lifecycle

variable {R : Type*} {s t : Lifecycle R}

def new : Lifecycle R := ⟨true, none, fun _ => .idle, [], []⟩

def goto (s : Lifecycle R) (i : ℕ) (phase : Phase R) : Lifecycle R :=
  { s with phase := Function.update s.phase i phase }

/-- The locks may be granted in any order. The guards are dropped before the cell is set. -/
inductive Step (s : Lifecycle R) : Lifecycle R → Prop
  | acquire (i : ℕ) (at_ : s.phase i = .idle) (accepting : s.accepting = true) :
    Step s (s.goto i .waiting)
  | read (i : ℕ) (at_ : s.phase i = .waiting) (free : ∀ j, s.phase j ≠ .shuttingDown) :
    Step s (s.goto i .granted)
  | permit (i : ℕ) (at_ : s.phase i = .granted) (accepting : s.accepting = true) :
    Step s (s.goto i .operating)
  | stop (i : ℕ) (at_ : (s.phase i).stops = true) : Step s (s.goto i .idle)
  | closeAdmission (i : ℕ) (at_ : s.phase i = .idle) :
    Step s { s.goto i .closed with accepting := false }
  | getOrInit (i : ℕ) (at_ : s.phase i = .closed) (unset : s.shutdownResult = none)
      (free : ∀ j, (s.phase j).initializes = false) : Step s (s.goto i .initializing)
  | write (i : ℕ) (at_ : s.phase i = .initializing)
      (free : ∀ j, (s.phase j).reads = false ∧ s.phase j ≠ .shuttingDown) :
    Step s (s.goto i .shuttingDown)
  | complete (i : ℕ) (result : R) (at_ : s.phase i = .shuttingDown) :
    Step s { s.goto i (.storing result) with completed := s.completed ++ [result] }
  | set (i : ℕ) (result : R) (at_ : s.phase i = .storing result) :
    Step s { s.goto i .idle with
      shutdownResult := some result, returned := s.returned ++ [result] }
  | get (i : ℕ) (result : R) (at_ : s.phase i = .closed) (stored : s.shutdownResult = some result) :
    Step s { s.goto i .idle with returned := s.returned ++ [result] }

structure Inv (s : Lifecycle R) : Prop where
  exclusive : ∀ i j, (s.phase i).reads = true → s.phase j ≠ .shuttingDown
  single : ∀ i j, (s.phase i).initializes = true → (s.phase j).initializes = true → i = j
  closed : ∀ i, (s.phase i).initializes = true ∨ s.phase i = .closed → s.accepting = false
  storing : ∀ i r, s.phase i = .storing r → s.completed = [r]
  unset : ∀ i, (s.phase i).initializes = true → s.shutdownResult = none
  stored : ∀ r, s.shutdownResult = some r → s.completed = [r]
  fresh : s.shutdownResult = none → (∀ i r, s.phase i ≠ .storing r) → s.completed = []
  returned : ∀ r ∈ s.returned, s.shutdownResult = some r

@[local grind =] theorem phase_goto (s : Lifecycle R) (i j : ℕ) (phase : Phase R) :
    (s.goto i phase).phase j = if j = i then phase else s.phase j :=
  Function.update_apply _ _ _ _

attribute [local grind] Phase.reads Phase.initializes Phase.stops goto

theorem Inv.completed_eq_nil (inv : s.Inv) {i : ℕ} (at_ : s.phase i = .shuttingDown) :
    s.completed = [] := by
  have hinit : (s.phase i).initializes = true := by rw [at_]; rfl
  refine inv.fresh (inv.unset i hinit) fun j r hj => ?_
  have hij := inv.single i j hinit (by rw [hj]; rfl)
  rw [hij, hj] at at_
  cases at_

/-- Unless it completes, a step leaves the results of complete shutdowns as they are. -/
theorem Inv.fresh_step (inv : s.Inv) (step : Step s t) (unset : t.shutdownResult = none)
    (idle : ∀ i r, t.phase i ≠ .storing r) : t.completed = [] := by
  have hidle : ∀ i r, s.phase i ≠ .storing r := fun i r hi => by
    have := idle i r
    cases step <;> grind -ring -linarith
  have hfresh := fun h => inv.fresh h hidle
  cases step with
  | complete i result => exact absurd (by simp [phase_goto]) (idle i result)
  | set => cases unset
  | _ => exact hfresh unset

/-- The two locks are granted only where the other side is not in. -/
theorem Inv.exclusive_step (inv : s.Inv) (step : Step s t) (a b : ℕ)
    (reads : (t.phase a).reads = true) : t.phase b ≠ .shuttingDown := by
  have hbefore := inv.exclusive a b
  cases step with
  | read i _ free =>
    rw [phase_goto]
    split
    · exact nofun
    · exact free b
  | write i _ free =>
    rw [phase_goto] at reads
    split at reads
    · cases reads
    · rw [(free a).1] at reads
      cases reads
  | _ => grind -ring -linarith

/-- The cell admits one initializer at a time, and none once it is set. -/
theorem Inv.single_step (inv : s.Inv) (step : Step s t) (a b : ℕ)
    (ha : (t.phase a).initializes = true) :
    ((t.phase b).initializes = true → a = b) ∧ t.shutdownResult = none := by
  have hbefore := inv.single a b
  have hunset := inv.unset a
  cases step with
  | getOrInit i _ unset free =>
    have hother : ∀ j, ((s.goto i .initializing).phase j).initializes = true → j = i := by
      intro j hj
      by_contra hne
      rw [phase_goto, if_neg hne, free j] at hj
      cases hj
    exact ⟨fun hb => (hother a ha).trans (hother b hb).symm, unset⟩
  | set i result at_ =>
    -- the task that stores was the only initializer
    have honly := inv.single a i
    grind -ring -linarith
  | _ => grind -ring -linarith

/-- What a complete shutdown has recorded is its result only, stored or about to be. -/
theorem Inv.completed_step (inv : s.Inv) (step : Step s t) (r : R)
    (result : (∃ i, t.phase i = .storing r) ∨ t.shutdownResult = some r) : t.completed = [r] := by
  have hstored := inv.stored r
  have hstoring := fun i => inv.storing i r
  cases step with
  | complete i result at_ =>
    have hnone := inv.unset i (by rw [at_]; rfl)
    have hnil := inv.completed_eq_nil at_
    have honly := inv.single i
    grind -ring -linarith
  | _ => grind -ring -linarith

theorem Inv.step (inv : s.Inv) (step : Step s t) : t.Inv where
  exclusive := inv.exclusive_step step
  single a b ha := (inv.single_step step a b ha).1
  closed := by
    have hclosed := inv.closed
    cases step with
    | closeAdmission => exact fun _ _ => rfl
    | _ => grind -ring -linarith
  storing i r hi := inv.completed_step step r (.inl ⟨i, hi⟩)
  unset a ha := (inv.single_step step a a ha).2
  stored r hr := inv.completed_step step r (.inr hr)
  fresh := inv.fresh_step step
  returned := by
    have hreturned := inv.returned
    cases step with
    | set i result at_ =>
      -- nobody has returned before: the cell was not set
      have hnone := inv.unset i (by rw [at_]; rfl)
      grind -ring -linarith
    | _ => grind -ring -linarith

theorem Inv.of_reach (reach : ReflTransGen Step new s) : s.Inv := by
  induction reach with
  | refl => constructor <;> simp [new, Phase.reads, Phase.initializes]
  | tail _ step inv => exact inv.step step

/-- Once admission is closed it stays closed, and no task gets a permit. -/
theorem operating_of_closed (closed : s.accepting = false) (later : ReflTransGen Step s t) :
    t.accepting = false ∧ ∀ i, t.phase i = .operating → s.phase i = .operating := by
  induction later with
  | refl => exact ⟨closed, fun _ h => h⟩
  | tail _ step ih => cases step <;> grind -ring -linarith

/-- No operation has its permit while a shutdown runs or gets one after admission is closed,
shutdowns do not overlap, at most one completes, and its result is what callers get. -/
theorem shutdown_is_exclusive (reach : ReflTransGen Step new s) :
    (∀ i j, s.phase i = .operating → s.phase j ≠ .shuttingDown) ∧
    (∀ i j, s.phase i = .shuttingDown → s.phase j = .shuttingDown → i = j) ∧
    (∀ i, s.phase i = .shuttingDown → s.accepting = false) ∧
    (s.accepting = false → ∀ t, ReflTransGen Step s t →
      ∀ i, t.phase i = .operating → s.phase i = .operating) ∧
    s.completed.length ≤ 1 ∧ ∀ r ∈ s.returned, s.completed = [r] := by
  have inv := Inv.of_reach reach
  have hinit : ∀ i, s.phase i = .shuttingDown → (s.phase i).initializes = true := fun i hi => by
    rw [hi]
    rfl
  refine ⟨fun i j hi => inv.exclusive i j (by rw [hi]; rfl), fun i j hi hj =>
    inv.single i j (hinit i hi) (hinit j hj), fun i hi => inv.closed i (.inl (hinit i hi)),
    fun closed t later => (operating_of_closed closed later).2, ?_, fun r hr =>
    inv.stored r (inv.returned r hr)⟩
  by_cases hstoring : ∃ i r, s.phase i = .storing r
  · obtain ⟨i, r, hi⟩ := hstoring
    exact Nat.le_of_eq (congrArg List.length (inv.storing i r hi))
  · cases hresult : s.shutdownResult with
    | none =>
      rw [inv.fresh hresult fun i r hi => hstoring ⟨i, r, hi⟩]
      exact Nat.zero_le _
    | some r => exact Nat.le_of_eq (congrArg List.length (inv.stored r hresult))

/-- Task 0 has its permit when tasks 1 and 2 call the shutdown. -/
def twoCalls : Lifecycle ℕ :=
  { ((((new.goto 0 .waiting).goto 0 .granted).goto 0 .operating).goto 1 .closed).goto 2 .closed with
    accepting := false }

theorem twoCalls_reach : ReflTransGen Step new twoCalls := by
  refine .head (.acquire 0 rfl rfl) (.head (.read 0 rfl fun j => ?_) ?_)
  · rw [phase_goto]
    split <;> exact nofun
  · exact .head (.permit 0 rfl rfl)
      (.head (.closeAdmission 1 rfl) (.single (.closeAdmission 2 rfl)))

/-- Task 1 runs the shutdown once the operation is over, and both calls return its result. -/
theorem twoCalls_later : ∃ after, ReflTransGen Step twoCalls after ∧
    after.completed = [7] ∧ after.returned = [7, 7] := by
  refine ⟨_, .head (.stop 0 rfl)
    (.head (.getOrInit 1 rfl rfl fun j => ?_) (.head (.write 1 rfl fun j => ?_)
    (.head (.complete 1 7 rfl) (.head (.set 1 7 rfl) (.single (.get 2 7 rfl rfl)))))), rfl, rfl⟩
  all_goals
    simp only [twoCalls, phase_goto, new]
    grind

theorem shutdown_is_exclusive_two_calls :
    twoCalls.phase 0 = .operating ∧ ∃ after, ReflTransGen Step twoCalls after ∧
      after.returned = [7, 7] ∧ (∀ r ∈ after.returned, after.completed = [r]) ∧
      ∀ i, after.phase i = .operating → twoCalls.phase i = .operating := by
  obtain ⟨after, hlater, -, hreturned⟩ := twoCalls_later
  obtain ⟨-, -, -, -, -, hresult⟩ := shutdown_is_exclusive (twoCalls_reach.trans hlater)
  obtain ⟨-, -, -, hclosed, -⟩ := shutdown_is_exclusive twoCalls_reach
  exact ⟨rfl, after, hlater, hreturned, hresult, hclosed rfl after hlater⟩

end Lifecycle
end Chirps.MultiRaft
