/-
# The retries of the timestamp client

A whole `refill` against a transport that may reply anything: how often it asks for timestamps, how
long it waits in between, and what it leaves in the cache.
-/

import Chirps.Tso.Client

namespace Chirps.Tso

/-- `Duration::MAX` in nanoseconds. -/
def durationMax : ℕ := 2 ^ 64 * 10 ^ 9 - 1

/-- The delays of `TsoClientConfig` in nanoseconds, as `with_sleeper` accepts them. -/
structure Backoff where
  initial : ℕ
  max : ℕ
  initial_pos : 0 < initial
  initial_le : initial ≤ max
  max_le : max ≤ durationMax

/-- `backoff`. The shift is at most 31, so that it never overflows. -/
def Backoff.delay (backoff : Backoff) (failures : ℕ) : ℕ :=
  min (min (backoff.initial * 2 ^ min failures 31) durationMax) backoff.max

theorem Backoff.delay_mono (backoff : Backoff) {m n : ℕ} (h : m ≤ n) :
    backoff.delay m ≤ backoff.delay n :=
  min_le_min_right _ (min_le_min_right _ (Nat.mul_le_mul_left _
    (Nat.pow_le_pow_right Nat.two_pos (min_le_min_right _ h))))

theorem Backoff.initial_le_delay (backoff : Backoff) (n : ℕ) : backoff.initial ≤ backoff.delay n :=
  le_min (le_min (Nat.le_mul_of_pos_right _ (Nat.two_pow_pos _))
    (backoff.initial_le.trans backoff.max_le)) backoff.initial_le

/-- The replies, by the number of the call: those to `discover_leader` and to `get_timestamps`. -/
structure Replies where
  leader : ℕ → Except TsoError UInt64
  timestamps : ℕ → UInt64 → Except TsoError TimestampRange

structure RefillRun where
  client : TsoClient
  result : CallResult
  discoveries : ℕ
  attempts : ℕ
  waits : List ℕ

namespace RefillRun

variable (backoff : Backoff) (replies : Replies)

/-- The sleep before a retry, if there is one. -/
def wait (run : RefillRun) (refill : Refill) (retried : Bool) : List ℕ :=
  if retried ∧ refill.failures < run.client.config.maxRetries then
    run.waits ++ [backoff.delay refill.failures.toNat]
  else run.waits

def turn (run : RefillRun) (call : Call) (refill : Refill) : RefillRun :=
  match run.client.leader with
  | none =>
    let reply := replies.leader run.discoveries
    let retried := match reply with
      | .error (.transport _) => true
      | _ => false
    let (result, client) := run.client.onLeader call refill reply
    ⟨client, result, run.discoveries + 1, run.attempts, run.wait backoff refill retried⟩
  | some target =>
    let reply := replies.timestamps run.attempts target
    let retried := match reply with
      | .error (.transport _) | .error (.leaseNotReady _) => true
      | _ => false
    let (result, client) := run.client.onTimestamps call refill reply
    ⟨client, result, run.discoveries, run.attempts + 1, run.wait backoff refill retried⟩

/-- `refill` from the head of its loop, or `none` if it takes more turns. -/
def refill : ℕ → RefillRun → Option RefillRun
  | 0, _ => none
  | turns + 1, run =>
    match run.client.call with
    | some ⟨count, values, .refilling state⟩ =>
      refill turns (run.turn backoff replies ⟨count, values, .refilling state⟩ state)
    | _ => some run

def start (client : TsoClient) (call : Call) (size : UInt32) (prefetch : Bool) : RefillRun :=
  ⟨{ client with call := some { call with stage := .refilling ⟨size, 0, prefetch⟩ } }, none,
    0, 0, []⟩

/-- At the head of the loop after `failures` failures, having begun with the cache `cache`. -/
structure Bounded (cache : List CachedRange) (failures : ℕ) (run : RefillRun) : Prop where
  attempts : run.attempts ≤ failures
  increasing : run.waits.Pairwise (· ≤ ·)
  waited : ∀ w ∈ run.waits, ∃ n < failures, w = backoff.delay n
  cache_eq : run.client.cache = cache

structure Ended (cache : List CachedRange) (retries : ℕ) (run : RefillRun) : Prop where
  attempts : run.attempts ≤ retries + 1
  increasing : run.waits.Pairwise (· ≤ ·)
  within : ∀ w ∈ run.waits, backoff.initial ≤ w ∧ w ≤ backoff.max
  failed : ∀ error, run.result = some (.error error) → run.client.cache = cache

/-- The loop goes on, with a failure more or with a leader it had not, or it is left. -/
inductive Next (cache : List CachedRange) (run : RefillRun) (refill : Refill) (next : RefillRun) :
    Prop
  | again (state : Refill) {call : Call}
      (stage : next.client.call = some { call with stage := .refilling state })
      (config : next.client.config = run.client.config)
      (bounded : next.Bounded backoff cache state.failures.toNat)
      (le : state.failures ≤ run.client.config.maxRetries)
      (progress : state.failures.toNat = refill.failures.toNat + 1 ∨
        state.failures = refill.failures ∧ run.client.leader = none ∧ next.client.leader.isSome)
  | left (stage : ∀ call state, next.client.call = some call → call.stage ≠ .refilling state)
      (ended : next.Ended backoff cache run.client.config.maxRetries.toNat)

variable {backoff replies} {cache : List CachedRange} {run next : RefillRun} {call : Call}
  {refill : Refill} {n : ℕ}

theorem Bounded.again (bounded : run.Bounded backoff cache n)
    (attempts : next.attempts ≤ run.attempts + 1)
    (waits : next.waits = run.waits ∨ next.waits = run.waits ++ [backoff.delay n])
    (same : next.client.cache = run.client.cache) : next.Bounded backoff cache (n + 1) := by
  have hwaited : ∀ w ∈ run.waits, ∃ m < n + 1, w = backoff.delay m := fun w hw =>
    let ⟨m, hm, heq⟩ := bounded.waited w hw
    ⟨m, hm.trans n.lt_succ_self, heq⟩
  have hattempts := attempts.trans (Nat.succ_le_succ bounded.attempts)
  rcases waits with hwaits | hwaits
  · exact ⟨hattempts, hwaits ▸ bounded.increasing, hwaits ▸ hwaited, same.trans bounded.cache_eq⟩
  · refine ⟨hattempts, ?_, ?_, same.trans bounded.cache_eq⟩ <;> rw [hwaits]
    · refine List.pairwise_append.mpr ⟨bounded.increasing, List.pairwise_singleton _ _, ?_⟩
      intro w hw v hv
      obtain ⟨m, hm, rfl⟩ := bounded.waited w hw
      exact List.mem_singleton.mp hv ▸ backoff.delay_mono hm.le
    · intro w hw
      rcases List.mem_append.mp hw with hw | hw
      · exact hwaited w hw
      · exact ⟨n, n.lt_succ_self, List.mem_singleton.mp hw⟩

theorem Bounded.ended {retries : ℕ} (bounded : run.Bounded backoff cache n) (le : n ≤ retries)
    (attempts : next.attempts ≤ run.attempts + 1) (waits : next.waits = run.waits)
    (failed : ∀ error, next.result = some (.error error) → next.client.cache = run.client.cache) :
    next.Ended backoff cache retries := by
  refine ⟨attempts.trans (Nat.succ_le_succ (bounded.attempts.trans le)),
    waits ▸ bounded.increasing, fun w hw => ?_, fun error h =>
      (failed error h).trans bounded.cache_eq⟩
  obtain ⟨m, -, rfl⟩ := bounded.waited w (waits ▸ hw)
  exact ⟨backoff.initial_le_delay m, min_le_right _ _⟩

section Turn

variable (bounded : run.Bounded backoff cache refill.failures.toNat)
  (le : refill.failures ≤ run.client.config.maxRetries)
include bounded le

theorem next_of_finish {error : TsoError} {leader : Option UInt64} {discoveries attempts : ℕ}
    (hattempts : attempts ≤ run.attempts + 1) :
    Next backoff cache run refill
      ⟨(TsoClient.finish { run.client with leader := leader } (.error error)).2,
        some (.error error), discoveries, attempts, run.waits⟩ :=
  .left nofun (bounded.ended (UInt32.le_iff_toNat_le.mp le) hattempts rfl fun _ _ => rfl)

variable (below : run.client.config.maxRetries < 4294967295)
include below

omit bounded in
theorem toNat_failures_succ : (refill.failures + 1).toNat = refill.failures.toNat + 1 := by
  have hlt := (UInt32.le_iff_toNat_le.mp le).trans_lt (UInt32.lt_iff_toNat_lt.mp below)
  rw [UInt32.toNat_add]
  exact Nat.mod_eq_of_lt (Nat.succ_lt_succ hlt)

theorem next_of_retry {error : TsoError} {discoveries attempts : ℕ}
    (hattempts : attempts ≤ run.attempts + 1) :
    Next backoff cache run refill ⟨(run.client.retry call refill error).2,
      (run.client.retry call refill error).1, discoveries, attempts,
      run.wait backoff refill true⟩ := by
  have hsucc := toNat_failures_succ le below
  rw [TsoClient.retry, wait]
  split
  · rename_i hlast
    rw [if_neg (by grind)]
    exact next_of_finish bounded le hattempts
  · rename_i hmore
    rw [if_pos ⟨rfl, by grind⟩]
    exact .again _ rfl rfl (hsucc ▸ bounded.again hattempts (.inr rfl) rfl) (by grind) (.inl hsucc)

theorem next_turn : Next backoff cache run refill (run.turn backoff replies call refill) := by
  have hsucc := toNat_failures_succ le below
  simp only [turn]
  cases hleader : run.client.leader with
  | none =>
    cases replies.leader run.discoveries with
    | ok leader =>
      exact .again refill rfl rfl ⟨bounded.attempts, bounded.increasing, bounded.waited,
        bounded.cache_eq⟩ le (.inr ⟨rfl, hleader, rfl⟩)
    | error error =>
      cases error
      case transport => exact next_of_retry bounded le below (Nat.le_succ _)
      all_goals exact next_of_finish bounded le (Nat.le_succ _)
  | some target =>
    simp only
    cases replies.timestamps run.attempts target with
    | ok range =>
      simp only [TsoClient.onTimestamps]
      split
      · exact next_of_finish bounded le le_rfl
      · refine .left (fun c state hc hstage => ?_) (bounded.ended (UInt32.le_iff_toNat_le.mp le)
          le_rfl rfl fun _ herror => (by cases herror))
        cases hc
        cases hprefetch : refill.prefetch <;> simp [hprefetch] at hstage
    | error error =>
      cases error
      case transport => exact next_of_retry bounded le below le_rfl
      case leaseNotReady => exact next_of_retry bounded le below le_rfl
      case notLeader hint =>
        simp only [TsoClient.onTimestamps]
        split
        · exact next_of_finish bounded le le_rfl
        · exact .again _ rfl rfl (hsucc ▸ bounded.again le_rfl (.inl rfl) rfl) (by grind)
            (.inl hsucc)
      all_goals exact next_of_finish bounded le le_rfl

end Turn

/-- The turns left are counted by the failures left, twice, and by the missing leader. -/
theorem refill_ended {turns : ℕ}
    (hcall : run.client.call = some { call with stage := .refilling refill })
    (bounded : run.Bounded backoff cache refill.failures.toNat)
    (le : refill.failures ≤ run.client.config.maxRetries)
    (below : run.client.config.maxRetries < 4294967295)
    (enough : 2 * (run.client.config.maxRetries.toNat - refill.failures.toNat) +
      (if run.client.leader = none then 1 else 0) + 2 ≤ turns) :
    ∃ final, RefillRun.refill backoff replies turns run = some final ∧
      final.Ended backoff cache run.client.config.maxRetries.toNat := by
  induction turns generalizing run call refill with
  | zero => omega
  | succ turns ih =>
    simp only [RefillRun.refill, hcall]
    have hnext : Next backoff cache run refill
        (run.turn backoff replies { call with stage := .refilling refill } refill) :=
      next_turn bounded le below
    cases hnext with
    | again state stage config bounded' le' progress =>
      rw [← config] at le' below ⊢
      refine ih stage bounded' le' below ?_
      have hle := UInt32.le_iff_toNat_le.mp le'
      rw [config] at hle ⊢
      rcases progress with hmore | ⟨heq, hnone, hsome⟩
      · split <;> split at enough <;> omega
      · rw [if_pos hnone] at enough
        rw [if_neg (by intro h; rw [h] at hsome; cases hsome), heq]
        omega
    | left stage ended =>
      refine ⟨_, ?_, ended⟩
      obtain _ | turns := turns
      · omega
      rw [RefillRun.refill]
      split
      · rename_i h
        exact absurd rfl (stage _ _ h)
      · rfl

end RefillRun

/-- Whatever the transport replies, `refill` returns after at most `max_retries + 1` attempts, its
waits never decrease and keep between the backoffs, and a failure leaves the cache. -/
theorem refill_is_bounded (backoff : Backoff) (replies : Replies) (client : TsoClient) (call : Call)
    (size : UInt32) (prefetch : Bool) (below : client.config.maxRetries < 4294967295) :
    ∃ turns final, RefillRun.refill backoff replies turns (.start client call size prefetch) =
      some final ∧ final.attempts ≤ client.config.maxRetries.toNat + 1 ∧
    final.waits.Pairwise (· ≤ ·) ∧
    (∀ w ∈ final.waits, backoff.initial ≤ w ∧ w ≤ backoff.max) ∧
    ∀ error, final.result = some (.error error) → final.client.cache = client.cache := by
  obtain ⟨final, hfinal, ended⟩ := @RefillRun.refill_ended backoff replies client.cache
    (.start client call size prefetch) call ⟨size, 0, prefetch⟩ _ rfl ⟨le_rfl, .nil, nofun, rfl⟩
      (by grind) below le_rfl
  exact ⟨_, final, hfinal, ended.attempts, ended.increasing, ended.within, ended.failed⟩

theorem refill_is_bounded_unreachable :
    ∃ turns final, RefillRun.refill ⟨10, 1000, by decide, by decide, by decide⟩
      ⟨fun _ => .error (.transport "down"), fun _ _ => .error (.transport "down")⟩ turns
      (.start (.new 1 [] none ⟨8, 2, 3, by decide⟩) ⟨1, [], .head⟩ 8 false) = some final ∧
      final.attempts ≤ 4 :=
  (refill_is_bounded _ _ _ _ _ _ (by decide)).imp fun _ =>
    Exists.imp fun _ ⟨hfinal, attempts, _⟩ => ⟨hfinal, attempts⟩

end Chirps.Tso
