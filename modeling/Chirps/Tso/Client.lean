/-
# The timestamp client

`get_timestamps` hands out timestamps of cached ranges and waits wherever it asks for a leader or a
range. A call is a state of the client with the place where it stands; `TsoClient.Inv` is kept by
every function.
-/

import Chirps.Tso.StateMachine

namespace Chirps.Tso

open Chirps.RaftStorage
open List (append_nil)

inductive TsoError
  | invalidCount
  | invalidTsoGroup (expected actual : GroupId)
  | notLeader (leader : Option UInt64)
  | leaseNotReady (notBeforeMs : UInt64)
  | unauthenticated (nodeId : UInt64)
  | transport (message : String)
  | raft (message : String)
  | codec (message : String)
  | timestampOverflow
  | nonMonotonicResponse
  | invalidConfig (message : String)

/-- `TsoClientConfig` without the delays of the backoff. `with_sleeper` refuses a batch
size of zero. -/
structure TsoClientConfig where
  batchSize : UInt32
  prefetchThreshold : UInt32
  maxRetries : UInt32
  batchSize_ne_zero : batchSize ≠ 0

structure TsoRequest where
  requester : UInt64
  credential : Bytes
  count : UInt32

inductive TsoFrame
  | request (correlationId : UInt64) (request : TsoRequest)
  | discoverLeader (correlationId requester : UInt64) (credential : Bytes)
  | timestampResponse (correlationId : UInt64) (response : Except TsoError TimestampRange)
  | leaderResponse (correlationId : UInt64) (response : Except TsoError UInt64)

namespace TsoFrame

def correlationId : TsoFrame → UInt64
  | request correlationId _ => correlationId
  | discoverLeader correlationId _ _ => correlationId
  | timestampResponse correlationId _ => correlationId
  | leaderResponse correlationId _ => correlationId

def responseTo : TsoFrame → Option UInt64
  | timestampResponse correlationId _ => some correlationId
  | leaderResponse correlationId _ => some correlationId
  | _ => none

/-- What `get_timestamps` of the transport makes of a response. -/
def timestamps : TsoFrame → Except TsoError TimestampRange
  | timestampResponse _ response => response
  | _ => .error (.codec "unexpected TSO timestamp response")

/-- What `discover_leader` makes of a response. -/
def leader : TsoFrame → Except TsoError UInt64
  | leaderResponse _ response => response
  | _ => .error (.codec "unexpected TSO leader response")

end TsoFrame

structure CachedRange where
  range : TimestampRange
  nextOffset : UInt32

def CachedRange.pop (cached : CachedRange) : Option (HybridTimestamp × CachedRange) :=
  (cached.range.at' cached.nextOffset).map fun value =>
    (value, { cached with nextOffset := cached.nextOffset + 1 })

def CachedRange.exhausted (cached : CachedRange) : Bool :=
  decide (cached.range.count ≤ cached.nextOffset)

structure Refill where
  size : UInt32
  failures : UInt32
  /-- A refill ahead of time goes on with `pop_cache`, one of an empty cache with the
  head of the loop. -/
  prefetch : Bool

/-- A request waits on a channel of its own and is known by its correlation id. -/
inductive Stage
  | head
  | popping
  | refilling (refill : Refill)
  | discovering (refill : Refill) (correlationId : UInt64) (channel : ℕ)
  | requesting (refill : Refill) (correlationId : UInt64) (channel : ℕ)

/-- A call of `get_timestamps`. -/
structure Call where
  count : UInt32
  values : List HybridTimestamp
  stage : Stage

/-- `TsoClient`, with the call that is under way. -/
structure TsoClient where
  requester : UInt64
  credential : Bytes
  leader : Option UInt64
  config : TsoClientConfig
  cache : List CachedRange
  lastReturned : Option HybridTimestamp
  call : Option Call

/-- How a function leaves a call: under way (`none`), or with its result. -/
abbrev CallResult := Option (Except TsoError (List HybridTimestamp))

namespace TsoClient

variable (client : TsoClient)

def new (requester : UInt64) (credential : Bytes) (leader : Option UInt64)
    (config : TsoClientConfig) : TsoClient :=
  ⟨requester, credential, leader, config, [], none, none⟩

def cacheRemaining : ℕ :=
  (client.cache.map fun cached => cached.range.count.toNat - cached.nextOffset.toNat).sum

def popCache : Except TsoError (Option HybridTimestamp) × TsoClient :=
  match client.cache.dropWhile CachedRange.exhausted with
  | [] => (.ok none, { client with cache := [] })
  | front :: rest =>
    match front.pop with
    | none => (.ok none, { client with cache := front :: rest })
    | some (value, front) =>
      if client.lastReturned.any fun last => value ≤ last then
        (.error .nonMonotonicResponse, { client with cache := [] })
      else
        (.ok (some value),
          { client with cache := front :: rest, lastReturned := some value })

def finish (result : Except TsoError (List HybridTimestamp)) : CallResult × TsoClient :=
  (some result, { client with call := none })

def goto (call : Call) (stage : Stage) : CallResult × TsoClient :=
  (none, { client with call := some { call with stage := stage } })

/-- `get_timestamps` up to its loop. -/
def getTimestamps (count : UInt32) : CallResult × TsoClient :=
  if count = 0 then client.finish (.error .invalidCount)
  else (none, { client with call := some ⟨count, [], .head⟩ })

def popStage (call : Call) : CallResult × TsoClient :=
  match client.popCache with
  | (.error error, client) => client.finish (.error error)
  | (.ok (some value), client) =>
    (none,
      { client with call := some { call with values := call.values ++ [value], stage := .head } })
  | (.ok none, client) =>
    let remaining := call.count - UInt32.ofNat call.values.length
    client.goto call (.refilling ⟨max client.config.batchSize remaining, 0, false⟩)

def headStage (call : Call) : CallResult × TsoClient :=
  if call.count.toNat ≤ call.values.length then client.finish (.ok call.values)
  else if 0 < client.cacheRemaining ∧
      client.cacheRemaining ≤ client.config.prefetchThreshold.toNat then
    client.goto call (.refilling ⟨client.config.batchSize, 0, true⟩)
  else client.popStage call

def refilled (call : Call) (refill : Refill) : CallResult × TsoClient :=
  client.goto call (if refill.prefetch then .popping else .head)

/-- A failure that `refill` retries after a delay. -/
def retry (call : Call) (refill : Refill) (error : TsoError) : CallResult × TsoClient :=
  if client.config.maxRetries ≤ refill.failures then client.finish (.error error)
  else client.goto call (.refilling { refill with failures := refill.failures + 1 })

def onTimestamps (call : Call) (refill : Refill) :
    Except TsoError TimestampRange → CallResult × TsoClient
  | .ok range =>
    if range.count ≠ refill.size ∨ range.at' (refill.size - 1) ≠ some range.endAt then
      client.finish
        (.error (.codec "server returned a non-contiguous or wrong-sized range"))
    else
      refilled { client with cache := client.cache ++ [⟨range, 0⟩] } call refill
  | .error (.notLeader hint) =>
    if client.config.maxRetries < refill.failures + 1 then
      finish { client with leader := hint } (.error (.notLeader hint))
    else
      goto { client with leader := hint } call
        (.refilling { refill with failures := refill.failures + 1 })
  | .error (.transport message) => client.retry call refill (.transport message)
  | .error (.leaseNotReady notBeforeMs) => client.retry call refill (.leaseNotReady notBeforeMs)
  | .error error => client.finish (.error error)

/-- `refill` when `refresh_leader` has returned. -/
def onLeader (call : Call) (refill : Refill) :
    Except TsoError UInt64 → CallResult × TsoClient
  | .ok leader => goto { client with leader := some leader } call (.refilling refill)
  | .error (.transport message) => client.retry call refill (.transport message)
  | .error error => client.finish (.error error)

def waitsFor : Option (UInt64 × ℕ) :=
  match client.call.map Call.stage with
  | some (.discovering _ correlationId channel) => some (correlationId, channel)
  | some (.requesting _ correlationId channel) => some (correlationId, channel)
  | _ => none

/-- The call goes on with the range, or the leader, that the transport has returned. -/
def resume (range : Except TsoError TimestampRange)
    (leader : Except TsoError UInt64) : CallResult × TsoClient :=
  match client.call with
  | none => (none, client)
  | some call =>
    match call.stage with
    | .discovering refill _ _ => client.onLeader call refill leader
    | .requesting refill _ _ => client.onTimestamps call refill range
    | _ => (none, client)

/-- The caller drops the call, and with it what the call has taken. -/
def cancel : CallResult × TsoClient := (none, { client with call := none })

def advance : Option (CallResult × TsoClient) :=
  match client.call with
  | none => none
  | some call =>
    match call.stage with
    | .head => some (client.headStage call)
    | .popping => some (client.popStage call)
    | _ => none

/-! ## What has been handed out -/

def taken : List HybridTimestamp := (client.call.map Call.values).getD []

def handedOut : CallResult → List HybridTimestamp
  | some (.ok values) => values
  | _ => []

/-- A client that has handed out the timestamps `returned`, all of its ranges being
`Owned`. -/
structure Inv (Owned : TimestampRange → Prop) (returned : List HybridTimestamp)
    (client : TsoClient) : Prop where
  increasing : (returned ++ client.taken).Pairwise (· < ·)
  upToLast : ∀ t ∈ returned ++ client.taken, ∃ last, client.lastReturned = some last ∧ t ≤ last
  cached : ∀ cached ∈ client.cache, Owned cached.range
  issued : ∀ t ∈ returned ++ client.taken, ∃ range, Owned range ∧ range.start ≤ t ∧ t ≤ range.endAt

variable {Owned : TimestampRange → Prop} {returned : List HybridTimestamp} {client : TsoClient}

theorem inv_new (requester : UInt64) (credential : Bytes) (leader : Option UInt64)
    (config : TsoClientConfig) : Inv Owned [] (new requester credential leader config) :=
  ⟨.nil, by simp [taken, new], by simp [new], by simp [taken, new]⟩

namespace Inv

/-- Nothing but the leader, the place of the call and the owned ranges of the cache may
change, or the call ends without a result. -/
theorem of_taken {next : TsoClient} (inv : Inv Owned returned client)
    (last : next.lastReturned = client.lastReturned)
    (taken : next.taken = client.taken ∨ next.taken = [])
    (cached : ∀ cached ∈ next.cache, Owned cached.range) : Inv Owned returned next := by
  have hsub : (returned ++ next.taken).Sublist (returned ++ client.taken) := by
    rcases taken with htaken | htaken
    · rw [htaken]
    · rw [htaken, append_nil]
      exact List.sublist_append_left _ _
  exact ⟨inv.increasing.sublist hsub, fun t ht => last ▸ inv.upToLast t (hsub.subset ht), cached,
    fun t ht => inv.issued t (hsub.subset ht)⟩

theorem finish_error (inv : Inv Owned returned client) (error : TsoError) :
    Inv Owned (returned ++ handedOut (client.finish (.error error)).1)
      (client.finish (.error error)).2 := by
  rw [show handedOut (client.finish (.error error)).1 = [] from rfl, append_nil]
  exact inv.of_taken rfl (.inr rfl) inv.cached

variable {call : Call}

section

variable (inv : Inv Owned returned client)
include inv

theorem goto (hcall : client.call = some call) (stage : Stage) :
    Inv Owned (returned ++ handedOut (client.goto call stage).1) (client.goto call stage).2 := by
  rw [show handedOut (client.goto call stage).1 = [] from rfl, append_nil]
  refine inv.of_taken rfl (.inl ?_) inv.cached
  rw [taken, taken, hcall]
  rfl

theorem setLeader (leader : Option UInt64) : Inv Owned returned { client with leader := leader } :=
  inv.of_taken rfl (.inl rfl) inv.cached

theorem getTimestamps (count : UInt32) :
    Inv Owned (returned ++ handedOut (client.getTimestamps count).1)
      (client.getTimestamps count).2 := by
  rw [TsoClient.getTimestamps]
  split
  · exact inv.finish_error _
  · rw [show handedOut none = [] from rfl, append_nil]
    exact inv.of_taken rfl (.inr rfl) inv.cached

theorem popCache
    (wellFormed : ∀ range, Owned range → range.WellFormed)
    {result : Except TsoError (Option HybridTimestamp)} {next : TsoClient}
    (h : client.popCache = (result, next)) :
    next.call = client.call ∧ (∀ cached ∈ next.cache, Owned cached.range) ∧
      ((next.lastReturned = client.lastReturned ∧ ∀ value, result ≠ .ok (some value)) ∨
        ∃ value, result = .ok (some value) ∧ next.lastReturned = some value ∧
          (∀ last, client.lastReturned = some last → last < value) ∧
          ∃ range, Owned range ∧ range.start ≤ value ∧ value ≤ range.endAt) := by
  have hsuffix : ∀ cached ∈ client.cache.dropWhile CachedRange.exhausted, Owned cached.range :=
    fun cached hmem => inv.cached cached ((List.dropWhile_sublist _).subset hmem)
  rw [TsoClient.popCache] at h
  split at h
  · cases h
    exact ⟨rfl, by simp, .inl ⟨rfl, by simp⟩⟩
  · rename_i front rest hcache
    rw [hcache] at hsuffix
    have hfront := hsuffix front List.mem_cons_self
    have hrest : ∀ cached ∈ rest, Owned cached.range := fun cached hmem =>
      hsuffix cached (List.mem_cons_of_mem front hmem)
    split at h
    · cases h
      exact ⟨rfl, hsuffix, .inl ⟨rfl, by simp⟩⟩
    · rename_i value popped hpop
      obtain ⟨t, hat, heq⟩ := Option.map_eq_some_iff.mp hpop
      obtain ⟨rfl, rfl⟩ := Prod.mk.inj heq
      split at h
      · obtain ⟨rfl, rfl⟩ := Prod.mk.inj h
        exact ⟨rfl, by simp, .inl ⟨rfl, by simp⟩⟩
      · rename_i hmonotonic
        obtain ⟨rfl, rfl⟩ := Prod.mk.inj h
        refine ⟨rfl, ?_, .inr ⟨t, rfl, rfl, fun last hlast => ?_, front.range, hfront, ?_⟩⟩
        · simpa using ⟨hfront, hrest⟩
        · simpa [hlast] using hmonotonic
        · -- an offset below the count is between start and end
          obtain ⟨hoffset, hrank⟩ := TimestampRange.at'_eq_some.mp hat
          have hend := (wellFormed _ hfront).rank_endAt
          rw [UInt32.lt_iff_toNat_lt] at hoffset
          rw [← HybridTimestamp.rank_le_rank, ← HybridTimestamp.rank_le_rank]
          omega

theorem popStage
    (wellFormed : ∀ range, Owned range → range.WellFormed) (hcall : client.call = some call) :
    Inv Owned (returned ++ handedOut (client.popStage call).1) (client.popStage call).2 := by
  rcases hpop : client.popCache with ⟨result, next⟩
  obtain ⟨hnextCall, hcached, hlast⟩ := inv.popCache wellFormed hpop
  rw [TsoClient.popStage, hpop]
  have htaken : client.taken = call.values := by
    rw [taken, hcall]
    rfl
  -- without a value the client is as before, up to its cache
  have hsame : next.lastReturned = client.lastReturned → Inv Owned returned next := by
    intro hsame
    refine inv.of_taken hsame (.inl ?_) hcached
    rw [taken, hnextCall, taken]
  rcases hlast with ⟨heq, hnone⟩ | ⟨value, rfl, hvalue, hnew, range, hrange, hstart, hend⟩
  · rcases result with error | _ | value
    · exact (hsame heq).finish_error error
    · exact (hsame heq).goto (hnextCall.trans hcall) _
    · exact absurd rfl (hnone value)
  · rw [show handedOut _ = [] from rfl, append_nil]
    have hbehind : ∀ t ∈ returned ++ call.values, t < value := by
      intro t ht
      obtain ⟨last, hlast, hle⟩ := inv.upToLast t (htaken ▸ ht)
      exact hle.trans_lt (hnew last hlast)
    have hincreasing := inv.increasing
    have hissued := inv.issued
    rw [htaken] at hincreasing hissued
    refine ⟨?_, ?_, hcached, ?_⟩
    · change (returned ++ (call.values ++ [value])).Pairwise (· < ·)
      rw [← List.append_assoc, List.pairwise_append]
      exact ⟨hincreasing, List.pairwise_singleton _ _, by simpa using hbehind⟩
    · change ∀ t ∈ returned ++ (call.values ++ [value]), _
      intro t ht
      rw [← List.append_assoc, List.mem_append, List.mem_singleton] at ht
      refine ⟨value, hvalue, ?_⟩
      rcases ht with ht | rfl
      · exact (hbehind t ht).le
      · exact le_rfl
    · change ∀ t ∈ returned ++ (call.values ++ [value]), _
      intro t ht
      rw [← List.append_assoc, List.mem_append, List.mem_singleton] at ht
      rcases ht with ht | rfl
      · exact hissued t ht
      · exact ⟨range, hrange, hstart, hend⟩

theorem headStage
    (wellFormed : ∀ range, Owned range → range.WellFormed) (hcall : client.call = some call) :
    Inv Owned (returned ++ handedOut (client.headStage call).1) (client.headStage call).2 := by
  rw [TsoClient.headStage]
  split
  · -- what was taken is handed out
    have htaken : client.taken = call.values := by
      rw [taken, hcall]
      rfl
    have hall : returned ++ handedOut (client.finish (.ok call.values)).1 ++
        (client.finish (.ok call.values)).2.taken = returned ++ client.taken := by
      rw [htaken]
      exact append_nil _
    exact ⟨by rw [hall]; exact inv.increasing, by rw [hall]; exact inv.upToLast, inv.cached,
      by rw [hall]; exact inv.issued⟩
  · split
    · exact inv.goto hcall _
    · exact inv.popStage wellFormed hcall

theorem retry (hcall : client.call = some call) (refill : Refill)
    (error : TsoError) :
    Inv Owned (returned ++ handedOut (client.retry call refill error).1)
      (client.retry call refill error).2 := by
  rw [TsoClient.retry]
  split
  · exact inv.finish_error error
  · exact inv.goto hcall _

theorem onTimestamps (hcall : client.call = some call)
    (refill : Refill) {response : Except TsoError TimestampRange}
    (owned : ∀ range, response = .ok range → Owned range) :
    Inv Owned (returned ++ handedOut (client.onTimestamps call refill response).1)
      (client.onTimestamps call refill response).2 := by
  cases response with
  | ok range =>
    rw [TsoClient.onTimestamps]
    split
    · exact inv.finish_error _
    · have hpushed : Inv Owned returned { client with cache := client.cache ++ [⟨range, 0⟩] } := by
        refine inv.of_taken rfl (.inl rfl) fun cached hmem => ?_
        rcases List.mem_append.mp hmem with hold | hnew
        · exact inv.cached cached hold
        · rw [List.mem_singleton.mp hnew]
          exact owned range rfl
      exact hpushed.goto hcall _
  | error error =>
    cases error with
    | notLeader hint =>
      rw [TsoClient.onTimestamps]
      split
      · exact (inv.setLeader hint).finish_error _
      · exact (inv.setLeader hint).goto hcall _
    | transport message => exact inv.retry hcall refill _
    | leaseNotReady notBeforeMs => exact inv.retry hcall refill _
    | _ => exact inv.finish_error _

theorem onLeader (hcall : client.call = some call)
    (refill : Refill) (response : Except TsoError UInt64) :
    Inv Owned (returned ++ handedOut (client.onLeader call refill response).1)
      (client.onLeader call refill response).2 := by
  cases response with
  | ok leader => exact (inv.setLeader (some leader)).goto hcall _
  | error error =>
    cases error with
    | transport message => exact inv.retry hcall refill _
    | _ => exact inv.finish_error _

theorem resume {range : Except TsoError TimestampRange}
    (owned : ∀ r, range = .ok r → Owned r) (leader : Except TsoError UInt64) :
    Inv Owned (returned ++ handedOut (client.resume range leader).1)
      (client.resume range leader).2 := by
  have hstay : Inv Owned (returned ++ handedOut none) client := by
    rw [show handedOut none = [] from rfl, append_nil]
    exact inv
  rw [TsoClient.resume]
  split
  · exact hstay
  · rename_i call hcall
    split
    · exact inv.onLeader hcall _ leader
    · exact inv.onTimestamps hcall _ owned
    · exact hstay

theorem cancel : Inv Owned (returned ++ handedOut client.cancel.1) client.cancel.2 := by
  rw [show handedOut client.cancel.1 = [] from rfl, append_nil]
  exact inv.of_taken rfl (.inr rfl) inv.cached

theorem advance
    (wellFormed : ∀ range, Owned range → range.WellFormed) {moved : CallResult × TsoClient}
    (h : client.advance = some moved) : Inv Owned (returned ++ handedOut moved.1) moved.2 := by
  rw [TsoClient.advance] at h
  split at h
  · cases h
  · rename_i call hcall
    split at h
    · cases h
      exact inv.headStage wellFormed hcall
    · cases h
      exact inv.popStage wellFormed hcall
    · cases h

theorem mono {Owned' : TimestampRange → Prop}
    (owned : ∀ range, Owned range → Owned' range) : Inv Owned' returned client :=
  ⟨inv.increasing, inv.upToLast, fun cached h => owned _ (inv.cached cached h), fun t h =>
    let ⟨range, hrange, hin⟩ := inv.issued t h
    ⟨range, owned range hrange, hin⟩⟩

end

end Inv

end TsoClient

end Chirps.Tso
