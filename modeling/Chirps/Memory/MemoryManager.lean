/-
# The memory manager

The manager keeps a budget, a limit for each component and what the components have reported to
use. A garbage collection cuts the usage of each component to its limit.
-/

import Chirps.Memory.MessageBuffer

namespace Chirps.Memory

inductive MemoryComponent
  | messageBuffer
  | raftLogCache
  | connectionPool
  | blockCache

/-- A threshold that is not a finite number is `none`. -/
structure MemoryConfig where
  totalBudget : ℕ
  messageBufferLimit : ℕ
  raftLogCacheLimit : ℕ
  connectionPoolLimit : ℕ
  backpressureThreshold : Option ℚ
  emergencyThreshold : Option ℚ

inductive MemoryError
  | zeroBudget
  | invalidThreshold
  | componentLimitExceedsBudget

structure MemoryStats where
  totalBudget : ℕ
  currentUsage : ℕ := 0
  messageBufferBytes : ℕ := 0
  raftLogCacheBytes : ℕ := 0
  connectionPoolBytes : ℕ := 0
  blockCacheBytes : ℕ := 0
  budgetExceeded : Bool := false

structure MemoryState where
  config : MemoryConfig
  stats : MemoryStats

def validateConfig (config : MemoryConfig) : Except MemoryError Unit :=
  if config.totalBudget = 0 then .error .zeroBudget
  else if config.totalBudget < config.messageBufferLimit ∨
      config.totalBudget < config.raftLogCacheLimit ∨
      config.totalBudget < config.connectionPoolLimit then .error .componentLimitExceedsBudget
  else
    match config.backpressureThreshold, config.emergencyThreshold with
    | some low, some high =>
      if 0 ≤ low ∧ low ≤ 1 ∧ 0 ≤ high ∧ high ≤ 1 ∧ low ≤ high then .ok ()
      else .error .invalidThreshold
    | _, _ => .error .invalidThreshold

def refreshBudgetFlag (stats : MemoryStats) : MemoryStats :=
  let usage := saturatingAdd (saturatingAdd (saturatingAdd stats.messageBufferBytes
    stats.raftLogCacheBytes) stats.connectionPoolBytes) stats.blockCacheBytes
  { stats with currentUsage := usage, budgetExceeded := stats.totalBudget < usage }

namespace MemoryState

def new (config : MemoryConfig) : Except MemoryError MemoryState :=
  (validateConfig config).map fun _ => ⟨config, { totalBudget := config.totalBudget }⟩

def resizeMemoryBudget (s : MemoryState) (newBudget : ℕ) : Except MemoryError MemoryState :=
  if newBudget = 0 then .error .zeroBudget
  else .ok ⟨{ s.config with totalBudget := newBudget },
    refreshBudgetFlag { s.stats with totalBudget := newBudget }⟩

def setComponentUsage (s : MemoryState) (component : MemoryComponent) (bytes : ℕ) : MemoryState :=
  { s with stats := refreshBudgetFlag (match component with
    | .messageBuffer => { s.stats with messageBufferBytes := bytes }
    | .raftLogCache => { s.stats with raftLogCacheBytes := bytes }
    | .connectionPool => { s.stats with connectionPoolBytes := bytes }
    | .blockCache => { s.stats with blockCacheBytes := bytes }) }

def setComponentLimit (s : MemoryState) (component : MemoryComponent) (bytes : ℕ) : MemoryState :=
  let limit := min bytes s.config.totalBudget
  { s with config := match component with
    | .messageBuffer => { s.config with messageBufferLimit := limit }
    | .raftLogCache => { s.config with raftLogCacheLimit := limit }
    | .connectionPool => { s.config with connectionPoolLimit := limit }
    | .blockCache => s.config }

def fixed (s : MemoryState) : ℕ :=
  saturatingAdd (saturatingAdd (min s.stats.messageBufferBytes s.config.messageBufferLimit)
    (min s.stats.raftLogCacheBytes s.config.raftLogCacheLimit))
    (min s.stats.connectionPoolBytes s.config.connectionPoolLimit)

def triggerGc (s : MemoryState) : MemoryState :=
  { s with stats := refreshBudgetFlag { s.stats with
      messageBufferBytes := min s.stats.messageBufferBytes s.config.messageBufferLimit
      raftLogCacheBytes := min s.stats.raftLogCacheBytes s.config.raftLogCacheLimit
      connectionPoolBytes := min s.stats.connectionPoolBytes s.config.connectionPoolLimit
      blockCacheBytes := min s.stats.blockCacheBytes (s.config.totalBudget - s.fixed) } }

end MemoryState

inductive MemoryCall
  | resizeMemoryBudget (newBudget : ℕ)
  | setComponentLimit (component : MemoryComponent) (bytes : ℕ)
  | setComponentUsage (component : MemoryComponent) (bytes : ℕ)
  | triggerGc

def MemoryState.step (s : MemoryState) : MemoryCall → MemoryState
  | .resizeMemoryBudget newBudget => (s.resizeMemoryBudget newBudget).toOption.getD s
  | .setComponentLimit component bytes => s.setComponentLimit component bytes
  | .setComponentUsage component bytes => s.setComponentUsage component bytes
  | .triggerGc => s.triggerGc

theorem MemoryState.totalBudget_step {s : MemoryState} (call : MemoryCall)
    (h : s.stats.totalBudget = s.config.totalBudget) :
    (s.step call).stats.totalBudget = (s.step call).config.totalBudget := by
  cases call with
  | resizeMemoryBudget newBudget =>
    by_cases hzero : newBudget = 0
    · simpa [step, resizeMemoryBudget, hzero, Except.toOption] using h
    · simp [step, resizeMemoryBudget, hzero, Except.toOption, refreshBudgetFlag]
  | setComponentLimit component bytes => cases component <;> exact h
  | setComponentUsage component bytes => cases component <;> exact h
  | triggerGc => exact h

theorem MemoryState.totalBudget_run {s : MemoryState} (calls : List MemoryCall)
    (h : s.stats.totalBudget = s.config.totalBudget) :
    (calls.foldl step s).stats.totalBudget = (calls.foldl step s).config.totalBudget := by
  induction calls generalizing s with
  | nil => exact h
  | cons call rest ih => exact ih (s.totalBudget_step call h)

/-- After any calls, `trigger_gc` brings the usage within the budget if and only if what the
components use, each cut to its limit, is within it. -/
theorem gc_restores_budget_iff {config : MemoryConfig} {start : MemoryState}
    (valid : MemoryState.new config = .ok start) (calls : List MemoryCall) :
    let s := calls.foldl MemoryState.step start
    (s.triggerGc.stats.currentUsage ≤ s.triggerGc.stats.totalBudget ∧
      s.triggerGc.stats.budgetExceeded = false) ↔ s.fixed ≤ s.config.totalBudget := by
  intro s
  have hstart : start.stats.totalBudget = start.config.totalBudget := by
    rw [MemoryState.new] at valid
    cases hvalid : validateConfig config <;> simp only [hvalid, Except.map] at valid <;> cases valid
    rfl
  have hbudget := MemoryState.totalBudget_run calls hstart
  change s.stats.totalBudget = s.config.totalBudget at hbudget
  have husage : s.triggerGc.stats.currentUsage = saturatingAdd s.fixed
    (min s.stats.blockCacheBytes (s.config.totalBudget - s.fixed)) := rfl
  have hfixed : s.fixed ≤ usizeMax := Nat.min_le_right _ _
  have htotal : s.triggerGc.stats.totalBudget = s.stats.totalBudget := rfl
  have hflag : s.triggerGc.stats.budgetExceeded =
    decide (s.stats.totalBudget < s.triggerGc.stats.currentUsage) := rfl
  rw [hflag, decide_eq_false_iff_not, htotal, husage, saturatingAdd, hbudget]
  omega

def threeLimits : MemoryConfig := ⟨100, 60, 60, 60, some (4 / 5), some (19 / 20)⟩

theorem gc_restores_budget_of_one_component :
    MemoryState.new threeLimits = .ok ⟨threeLimits, { totalBudget := 100 }⟩ ∧
    let s := [MemoryCall.setComponentUsage .messageBuffer 200].foldl MemoryState.step
      ⟨threeLimits, { totalBudget := 100 }⟩
    s.triggerGc.stats.currentUsage ≤ s.triggerGc.stats.totalBudget := by
  have valid : MemoryState.new threeLimits = .ok ⟨threeLimits, { totalBudget := 100 }⟩ := by
    simp [MemoryState.new, validateConfig, threeLimits, Except.map]
    norm_num
  exact ⟨valid, ((gc_restores_budget_iff valid _).mpr (by decide)).1⟩

/-- Two components within their limits are beyond the budget. -/
theorem gc_leaves_budget_exceeded :
    MemoryState.new threeLimits = .ok ⟨threeLimits, { totalBudget := 100 }⟩ ∧
    let s := [MemoryCall.setComponentUsage .messageBuffer 60,
      .setComponentUsage .raftLogCache 60, .triggerGc].foldl MemoryState.step
        ⟨threeLimits, { totalBudget := 100 }⟩
    s.stats.currentUsage = 120 ∧ s.stats.totalBudget = 100 ∧ s.stats.budgetExceeded = true := by
  refine ⟨?_, by decide⟩
  simp [MemoryState.new, validateConfig, threeLimits, Except.map]
  norm_num

end Chirps.Memory
