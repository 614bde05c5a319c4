/-
# The bandwidth limit

A token bucket shared by the tasks of a transfer. Each turn of `acquire` refills it by the time
since the last refill, rounded down, and a call for more bytes than there are comes back for the
rest.
-/

import Chirps.Library.Run

namespace Chirps.FileTransfer

open Chirps.Library

structure BandwidthThrottle where
  limit : ℕ
  tokens : ℕ
  lastRefill : ℕ

namespace BandwidthThrottle

def new (limitBytesPerSec now : ℕ) : BandwidthThrottle :=
  { limit := limitBytesPerSec
    tokens := if limitBytesPerSec = 0 then 0 else limitBytesPerSec
    lastRefill := now }

/-- The product saturates at the end of `u128`, the quotient at the end of `u64`. -/
def tokensForElapsed (limit elapsed : ℕ) : ℕ :=
  if limit = 0 then 0
  else min (min (elapsed * limit) (2 ^ 128 - 1) / 1000000000) (2 ^ 64 - 1)

def missingWait (limit missing : ℕ) : Option ℕ :=
  if limit = 0 then none
  else some (min (max (min (missing * 1000000000) (2 ^ 128 - 1) / limit) 1) (2 ^ 64 - 1))

/-- A clock that reads earlier than the last refill has let no time pass. -/
def refill (t : BandwidthThrottle) (now : ℕ) : BandwidthThrottle :=
  let add := tokensForElapsed t.limit (now - t.lastRefill)
  if 0 < add then
    { t with tokens := min (min (t.tokens + add) (2 ^ 64 - 1)) t.limit, lastRefill := now }
  else t

/-- A turn of `acquire`: the throttle, the bytes still missing, and how long it sleeps. -/
def turn (t : BandwidthThrottle) (remaining now : ℕ) : BandwidthThrottle × ℕ × Option ℕ :=
  let t := t.refill now
  if remaining ≤ t.tokens then ({ t with tokens := t.tokens - remaining }, 0, none)
  else
    let missing := remaining - t.tokens
    ({ t with tokens := 0 }, missing, missingWait t.limit missing)

theorem tokensForElapsed_le (limit elapsed : ℕ) :
    tokensForElapsed limit elapsed ≤ limit * elapsed / 1000000000 := by
  unfold tokensForElapsed
  split
  · exact Nat.zero_le _
  · calc _ ≤ min (elapsed * limit) (2 ^ 128 - 1) / 1000000000 := min_le_left _ _
      _ ≤ elapsed * limit / 1000000000 := Nat.div_le_div_right (min_le_left _ _)
      _ = limit * elapsed / 1000000000 := by rw [Nat.mul_comm]

end BandwidthThrottle

/-! ### Any number of calls -/

/-- A call that sleeps comes back at any reading of the clock, and may be dropped where it waits. -/
inductive ThrottleEvent where
  | acquire (call bytes : ℕ)
  | turn (call now : ℕ)
  | cancel (call : ℕ)

/-- The clock was read at `time` or before. -/
def ThrottleEvent.ReadBy (time : ℕ) : ThrottleEvent → Prop
  | .turn _ now => now ≤ time
  | _ => True

/-- The bytes each call still misses, and as a ghost those that all calls were granted. -/
structure ThrottleUse where
  throttle : BandwidthThrottle
  calls : ℕ → Option ℕ
  granted : ℕ

namespace ThrottleUse

def new (limit now : ℕ) : ThrottleUse := ⟨.new limit now, fun _ => none, 0⟩

def step (s : ThrottleUse) : ThrottleEvent → Option ThrottleUse
  | .acquire call bytes =>
    if bytes = 0 ∨ s.throttle.limit = 0 then some { s with granted := s.granted + bytes }
    else some { s with calls := Function.update s.calls call (some bytes) }
  | .turn call now => do
    let remaining ← s.calls call
    let (throttle, missing, wait) := s.throttle.turn remaining now
    -- the call returns without a wait, and leaves the loop when nothing is missing
    let left := if wait = none ∨ missing = 0 then none else some missing
    some ⟨throttle, Function.update s.calls call left, s.granted + (remaining - missing)⟩
  | .cancel call => some { s with calls := Function.update s.calls call none }

variable {limit start time : ℕ} {s next : ThrottleUse}

def allowance (limit start time : ℕ) : ℕ := limit + limit * (time - start) / 1000000000

structure Within (limit start time : ℕ) (s : ThrottleUse) : Prop where
  limit_eq : s.throttle.limit = limit
  tokens_le : s.throttle.tokens ≤ limit
  start_le : start ≤ s.throttle.lastRefill
  read : s.throttle.lastRefill ≤ max start time
  granted_le : s.granted + s.throttle.tokens ≤ allowance limit start s.throttle.lastRefill

theorem within_new (limited : 0 < limit) : Within limit start time (new limit start) where
  limit_eq := rfl
  tokens_le := by simp [new, BandwidthThrottle.new, limited.ne']
  start_le := le_rfl
  read := le_max_left _ _
  granted_le := by simp [new, BandwidthThrottle.new, allowance, limited.ne']

theorem allowance_add_le (limit : ℕ) {last now : ℕ} (started : start ≤ last) (passed : last ≤ now) :
    allowance limit start last + limit * (now - last) / 1000000000 ≤ allowance limit start now := by
  have spans : limit * (last - start) + limit * (now - last) = limit * (now - start) := by
    rw [← Nat.mul_add]
    congr 1
    omega
  unfold allowance
  omega

theorem Within.refill {now : ℕ} (h : Within limit start time s) (hnow : now ≤ time) :
    Within limit start time { s with throttle := s.throttle.refill now } := by
  obtain ⟨rfl, tokens_le, start_le, read, granted_le⟩ := h
  unfold BandwidthThrottle.refill
  dsimp only
  split
  · -- tokens are added only after some time has passed
    rename_i added
    have worth :=
      BandwidthThrottle.tokensForElapsed_le s.throttle.limit (now - s.throttle.lastRefill)
    have passed : s.throttle.lastRefill ≤ now := by
      by_contra early
      rw [Nat.sub_eq_zero_of_le (by omega), Nat.mul_zero] at worth
      rw [Nat.sub_eq_zero_of_le (by omega)] at added
      omega
    have whole := allowance_add_le s.throttle.limit start_le passed
    exact ⟨rfl, min_le_right _ _, start_le.trans passed, hnow.trans (le_max_right _ _), by
      dsimp only
      omega⟩
  · exact ⟨rfl, tokens_le, start_le, read, granted_le⟩

theorem Within.step {e : ThrottleEvent} (limited : 0 < limit) (h : Within limit start time s)
    (readBy : e.ReadBy time) (hstep : s.step e = some next) : Within limit start time next := by
  cases e with
  | acquire call bytes =>
    have := h.limit_eq
    simp only [ThrottleUse.step] at hstep
    split at hstep <;> cases hstep
    · obtain rfl : bytes = 0 := by omega
      exact ⟨h.limit_eq, h.tokens_le, h.start_le, h.read, h.granted_le⟩
    · exact ⟨h.limit_eq, h.tokens_le, h.start_le, h.read, h.granted_le⟩
  | turn call now =>
    obtain ⟨limit_eq, tokens_le, start_le, read, granted_le⟩ := h.refill readBy
    simp only [ThrottleUse.step, Option.bind_eq_bind, Option.bind_eq_some_iff] at hstep
    obtain ⟨remaining, -, hstep⟩ := hstep
    -- what is taken from the bucket is what the call is granted
    cases hstep
    unfold BandwidthThrottle.turn
    dsimp only at tokens_le granted_le ⊢
    split
    · exact ⟨limit_eq, (Nat.sub_le _ _).trans tokens_le, start_le, read, by dsimp only; omega⟩
    · exact ⟨limit_eq, Nat.zero_le _, start_le, read, by dsimp only; omega⟩
  | cancel call =>
    cases hstep
    exact ⟨h.limit_eq, h.tokens_le, h.start_le, h.read, h.granted_le⟩

/-- What has been granted by a time is at most a full bucket and what the time since the start is
worth. -/
theorem granted_bytes_bounded {events : List ThrottleEvent} (limited : 0 < limit)
    (readBy : ∀ e ∈ events, e.ReadBy time) (reach : run step (new limit start) events = some s) :
    s.throttle.tokens ≤ limit ∧ s.granted ≤ limit + limit * (time - start) / 1000000000 := by
  have h : Within limit start time s :=
    run_invariant_of_along (fun _ _ _ => Within.step limited) (within_new limited)
      (along_of_forall fun _ => readBy) reach
  refine ⟨h.tokens_le, (Nat.le_add_right _ _).trans (h.granted_le.trans ?_)⟩
  have last := h.read
  exact Nat.add_le_add_left (Nat.div_le_div_right (Nat.mul_le_mul_left _ (by omega))) _

def pieces : List ThrottleEvent :=
  [.acquire 0 25, .turn 0 0, .turn 0 1000000000, .turn 0 1500000000]

/-- After a second and a half the bound is met exactly. -/
theorem granted_bytes_bounded_pieces :
    ∃ s, run step (new 10 0) pieces = some s ∧ s.granted = 25 ∧
      s.throttle.tokens ≤ 10 ∧ s.granted ≤ 10 + 10 * (1500000000 - 0) / 1000000000 := by
  have reach : run step (new 10 0) pieces = some _ := rfl
  refine ⟨_, reach, by decide, granted_bytes_bounded (by decide) ?_ reach⟩
  simp [pieces, ThrottleEvent.ReadBy]

end ThrottleUse
end Chirps.FileTransfer
