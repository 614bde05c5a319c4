/-
# The replicated timestamp oracle

What one command can do is said once, in `transition_cases`. From it follow, for every sequence of
commands, that ranges increase without overlap and that the lease is exclusive.
-/

import Chirps.Library.Run
import Chirps.RaftStorage.WalStorage
import Chirps.Tso.Timestamp

namespace Chirps.Tso

open Chirps.Library Chirps.RaftStorage

structure TsoState where
  last : Option HybridTimestamp
  leaseOwner : Option UInt64
  leaseExpiresAtMs : UInt64
  committedRanges : UInt64

def TsoState.initial : TsoState := ⟨none, none, 0, 0⟩

inductive TsoCommand
  | acquireLease (leaderId nowMs leaseDurationMs : UInt64)
  | allocate (leaderId leaseNowMs physicalMs : UInt64) (count : UInt32)

inductive TsoResponse
  | leaseAcquired (expiresAtMs : UInt64)
  | leasePending (notBeforeMs : UInt64)
  | allocated (range : TimestampRange)
  | invalidCount
  | timestampOverflow

def TsoResponse.range : TsoResponse → Option TimestampRange
  | .allocated range => some range
  | _ => none

/-- The first timestamp of the next range: the clock's, unless that does not advance. -/
def TsoState.allocationStart (s : TsoState) (physicalMs : UInt64) :
    Except TimestampError HybridTimestamp :=
  match s.last with
  | some last => if physicalMs ≤ last.physical then last.checkedNext else .ok ⟨physicalMs, 0⟩
  | none => .ok ⟨physicalMs, 0⟩

def transition (s : TsoState) : TsoCommand → TsoResponse × TsoState
  | .acquireLease leaderId nowMs leaseDurationMs =>
    if (s.leaseOwner.any fun owner => owner ≠ leaderId) ∧ nowMs < s.leaseExpiresAtMs then
      (.leasePending s.leaseExpiresAtMs, s)
    else if s.leaseOwner = some leaderId ∧ nowMs < s.leaseExpiresAtMs then
      (.leaseAcquired s.leaseExpiresAtMs, s)
    else
      match checkedAddU64 nowMs leaseDurationMs with
      | none => (.timestampOverflow, s)
      | some expiresAtMs =>
        (.leaseAcquired expiresAtMs,
          { s with leaseOwner := some leaderId, leaseExpiresAtMs := expiresAtMs })
  | .allocate leaderId leaseNowMs physicalMs count =>
    if count = 0 then (.invalidCount, s)
    else if s.leaseOwner ≠ some leaderId ∨ s.leaseExpiresAtMs ≤ leaseNowMs then
      (.leasePending s.leaseExpiresAtMs, s)
    else
      match s.allocationStart physicalMs with
      | .error _ => (.timestampOverflow, s)
      | .ok start =>
        match TimestampRange.fromStart start count with
        | .error _ => (.timestampOverflow, s)
        | .ok range =>
          (.allocated range,
            { s with
              last := some range.endAt
              committedRanges := (checkedAddU64 s.committedRanges 1).getD u64Max })

/-! ## What one command does -/

variable {s : TsoState}

theorem TsoState.last_lt_allocationStart {physicalMs : UInt64} {start last : HybridTimestamp}
    (h : s.allocationStart physicalMs = .ok start) (hlast : s.last = some last) : last < start := by
  rw [allocationStart, hlast] at h
  simp only at h
  split at h
  · have hnext : start.rank = last.rank + 1 :=
      (HybridTimestamp.checkedAdd_eq_ok (by decide)).mp h
    rw [← HybridTimestamp.rank_lt_rank]
    omega
  · rename_i hclock
    cases h
    exact .inl (UInt64.not_le.mp hclock)

/-- A command is refused, or it is one that needs no change, and the state stays as it
is; or it grants the lease; or it allocates a range. -/
theorem transition_cases {next : TsoState} {command : TsoCommand} {response : TsoResponse}
    (h : transition s command = (response, next)) :
    (next = s ∧ ∀ range, response ≠ .allocated range) ∨
    (∃ leaderId nowMs leaseDurationMs expiresAtMs,
      command = .acquireLease leaderId nowMs leaseDurationMs ∧
      (s.leaseOwner = none ∨ s.leaseExpiresAtMs ≤ nowMs) ∧
      expiresAtMs.toNat = nowMs.toNat + leaseDurationMs.toNat ∧
      response = .leaseAcquired expiresAtMs ∧
      next = { s with leaseOwner := some leaderId, leaseExpiresAtMs := expiresAtMs }) ∨
    (∃ leaderId leaseNowMs physicalMs count range committed,
      command = .allocate leaderId leaseNowMs physicalMs count ∧
      s.leaseOwner = some leaderId ∧ leaseNowMs < s.leaseExpiresAtMs ∧
      range.WellFormed ∧ range.count = count ∧ (∀ last, s.last = some last → last < range.start) ∧
      response = .allocated range ∧
      next = { s with last := some range.endAt, committedRanges := committed }) := by
  cases command with
  | acquireLease leaderId nowMs leaseDurationMs =>
    rw [transition] at h
    split at h
    · cases h
      exact .inl ⟨rfl, by simp⟩
    · rename_i hpending
      split at h
      · cases h
        exact .inl ⟨rfl, by simp⟩
      · rename_i hheld
        split at h
        · cases h
          exact .inl ⟨rfl, by simp⟩
        · rename_i expiresAtMs hadd
          cases h
          -- neither another owner's lease nor an own one is running
          have hfree : s.leaseOwner = none ∨ s.leaseExpiresAtMs ≤ nowMs := by
            cases howner : s.leaseOwner with
            | none => exact .inl rfl
            | some owner =>
              right
              rw [howner] at hpending hheld
              rw [← UInt64.not_lt]
              intro hlt
              by_cases hsame : owner = leaderId
              · exact hheld ⟨by rw [hsame], hlt⟩
              · exact hpending ⟨by simpa using hsame, hlt⟩
          exact .inr (.inl ⟨leaderId, nowMs, leaseDurationMs, expiresAtMs, rfl, hfree,
            checkedAddU64_eq_some.mp hadd, rfl, rfl⟩)
  | allocate leaderId leaseNowMs physicalMs count =>
    rw [transition] at h
    split at h
    · cases h
      exact .inl ⟨rfl, by simp⟩
    · split at h
      · cases h
        exact .inl ⟨rfl, by simp⟩
      · rename_i hlease
        obtain ⟨howner, hexpiry⟩ := not_or.mp hlease
        split at h
        · cases h
          exact .inl ⟨rfl, by simp⟩
        · rename_i start hstart
          split at h
          · cases h
            exact .inl ⟨rfl, by simp⟩
          · rename_i range hrange
            cases h
            obtain ⟨wellFormed, rfl, hcount⟩ := TimestampRange.wellFormed_of_fromStart hrange
            exact .inr (.inr ⟨leaderId, leaseNowMs, physicalMs, count, range, _, rfl,
              not_not.mp howner, UInt64.not_le.mp hexpiry, wellFormed, hcount,
              fun _ hlast => TsoState.last_lt_allocationStart hstart hlast, rfl, rfl⟩)

/-! ## The state machine -/

/-- What the state machine has from `bincode`. -/
structure TsoCodec where
  deserializeCommand : Bytes → Except String TsoCommand
  serializeResponse : TsoResponse → Except String Bytes
  serializeState : TsoState → Except String Bytes
  deserializeState : Bytes → Except String TsoState

/-- Every state is serialized and read back. -/
def TsoCodec.RoundTrips (codec : TsoCodec) : Prop :=
  ∀ s, ∃ bytes, codec.serializeState s = .ok bytes ∧ codec.deserializeState bytes = .ok s

structure TsoStateMachine (codec : TsoCodec) where
  state : TsoState

def TsoStateMachine.initial (codec : TsoCodec) : TsoStateMachine codec := ⟨.initial⟩

instance (codec : TsoCodec) : StateMachine (TsoStateMachine codec) where
  apply machine _ bytes :=
    match codec.deserializeCommand bytes with
    | .error message => (.error message, machine)
    | .ok command =>
      -- the state has changed even if the response cannot be serialized
      (codec.serializeResponse (transition machine.state command).1,
        ⟨(transition machine.state command).2⟩)
  snapshot machine := codec.serializeState machine.state
  restore machine bytes :=
    match codec.deserializeState bytes with
    | .error message => (.error message, machine)
    | .ok restored => (.ok (), ⟨restored⟩)

def TsoStateMachine.roundTrip {codec : TsoCodec} (machine : TsoStateMachine codec) :
    TsoStateMachine codec :=
  match StateMachine.snapshot machine with
  | .error _ => machine
  | .ok bytes => (StateMachine.restore (TsoStateMachine.initial codec) bytes).2

theorem TsoStateMachine.roundTrip_eq {codec : TsoCodec} (roundTrips : codec.RoundTrips)
    (machine : TsoStateMachine codec) : machine.roundTrip = machine := by
  obtain ⟨bytes, hserialize, hdeserialize⟩ := roundTrips machine.state
  have hsnapshot : StateMachine.snapshot machine = .ok bytes := hserialize
  have hrestore : StateMachine.restore (TsoStateMachine.initial codec) bytes =
      (.ok (), machine) := by
    simp only [StateMachine.restore, hdeserialize]
  rw [roundTrip, hsnapshot]
  simp only [hrestore]

/-! ## Allocated ranges -/

/-- A command of the log, or a snapshot that is restored in its place. -/
inductive TsoEvent
  | apply (command : TsoCommand)
  | roundTrip

/-- The machine, with the ranges it has given out. -/
structure Issuing (codec : TsoCodec) where
  machine : TsoStateMachine codec
  allocated : List TimestampRange

namespace Issuing

variable {codec : TsoCodec}

def initial (codec : TsoCodec) : Issuing codec := ⟨.initial codec, []⟩

def step (x : Issuing codec) : TsoEvent → Option (Issuing codec)
  | .apply command =>
    match transition x.machine.state command with
    | (.allocated range, next) => some ⟨⟨next⟩, x.allocated ++ [range]⟩
    | (_, next) => some ⟨⟨next⟩, x.allocated⟩
  | .roundTrip => some ⟨x.machine.roundTrip, x.allocated⟩

variable {x next : Issuing codec}

theorem machine_apply {command : TsoCommand} {bytes : Bytes} (id : LogId)
    (hbytes : codec.deserializeCommand bytes = .ok command)
    (h : x.step (.apply command) = some next) :
    next.machine = (StateMachine.apply x.machine id bytes).2 := by
  simp only [StateMachine.apply, hbytes]
  rw [step] at h
  split at h
  all_goals
    rename_i hcommand
    cases h
    rw [hcommand]

theorem allocated_apply {command : TsoCommand} (h : x.step (.apply command) = some next) :
    next.allocated =
      x.allocated ++ (transition x.machine.state command).1.range.toList := by
  rw [step] at h
  split at h
  · rename_i range state hcommand
    cases h
    rw [hcommand]
    rfl
  · rename_i response state hnone hcommand
    cases h
    rw [hcommand]
    cases response <;> first | exact (List.append_nil _).symm | exact absurd rfl (hnone _)

theorem allocated_prefix {event : TsoEvent} (h : x.step event = some next) :
    x.allocated <+: next.allocated := by
  cases event with
  | roundTrip =>
    cases h
    exact List.prefix_rfl
  | apply command =>
    rw [allocated_apply h]
    exact List.prefix_append _ _

structure Ordered (x : Issuing codec) : Prop where
  increasing : x.allocated.Pairwise fun a b => a.endAt < b.start
  wellFormed : ∀ range ∈ x.allocated, range.WellFormed
  upToLast : ∀ range ∈ x.allocated, ∃ last, x.machine.state.last = some last ∧ range.endAt ≤ last

theorem ordered_initial : (initial codec).Ordered := ⟨.nil, by simp [initial], by simp [initial]⟩

theorem Ordered.step {event : TsoEvent} (roundTrips : codec.RoundTrips) (ordered : x.Ordered)
    (h : x.step event = some next) : next.Ordered := by
  cases event with
  | roundTrip =>
    cases h
    rw [x.machine.roundTrip_eq roundTrips]
    exact ordered
  | apply command =>
    rw [Issuing.step] at h
    rcases hcommand : transition x.machine.state command with ⟨response, state⟩
    rw [hcommand] at h
    rcases transition_cases hcommand with ⟨rfl, hnone⟩ |
      ⟨_, _, _, _, -, -, -, rfl, rfl⟩ |
      ⟨_, _, _, _, range, _, -, -, -, wellFormed, -, hstart, rfl, rfl⟩
    · obtain rfl : x = next := by
        cases response <;> first | exact Option.some.inj h | exact absurd rfl (hnone _)
      exact ordered
    · cases h
      exact ⟨ordered.increasing, ordered.wellFormed, ordered.upToLast⟩
    · cases h
      -- the new range starts behind `last`, and so behind all others
      have hbehind : ∀ a ∈ x.allocated, a.endAt < range.start := by
        intro a ha
        obtain ⟨last, hlast, hle⟩ := ordered.upToLast a ha
        exact hle.trans_lt (hstart last hlast)
      refine ⟨?_, ?_, ?_⟩
      · rw [List.pairwise_append]
        exact ⟨ordered.increasing, List.pairwise_singleton _ _, by simpa using hbehind⟩
      · intro a ha
        rcases List.mem_append.mp ha with hold | hnew
        · exact ordered.wellFormed a hold
        · rw [List.mem_singleton.mp hnew]
          exact wellFormed
      · intro a ha
        refine ⟨range.endAt, rfl, ?_⟩
        rcases List.mem_append.mp ha with hold | hnew
        · exact (hbehind a hold).le.trans wellFormed.start_le_endAt
        · rw [List.mem_singleton.mp hnew]

theorem ordered_run {events : List TsoEvent} (roundTrips : codec.RoundTrips)
    (reach : run step (initial codec) events = some x) : x.Ordered :=
  run_invariant (fun _ _ _ ordered h => ordered.step roundTrips h) ordered_initial reach

end Issuing

theorem TimestampRange.disjoint_of_endAt_lt {a b : TimestampRange} (h : a.endAt < b.start) :
    Disjoint (Set.Icc a.start a.endAt) (Set.Icc b.start b.endAt) := by
  rw [Set.disjoint_left]
  intro t ha hb
  exact absurd (ha.2.trans_lt h) (not_lt.mpr hb.1)

/-- The allocated ranges are strictly increasing and disjoint, as long as they were asked for, and
only an allocation changes `last`. -/
theorem allocations_increase (codec : TsoCodec) (roundTrips : codec.RoundTrips)
    (events : List TsoEvent) (x : Issuing codec)
    (reach : run Issuing.step (Issuing.initial codec) events = some x) :
    (x.allocated.Pairwise fun a b => a.endAt < b.start) ∧
    (x.allocated.Pairwise fun a b =>
      Disjoint (Set.Icc a.start a.endAt) (Set.Icc b.start b.endAt)) ∧
    (∀ range ∈ x.allocated, range.Consecutive) ∧
    (∀ leaderId leaseNowMs physicalMs count range next,
      transition x.machine.state (.allocate leaderId leaseNowMs physicalMs count) =
        (.allocated range, next) → range.count = count) ∧
    (∀ command response next, transition x.machine.state command = (response, next) →
      (∀ range, response ≠ .allocated range) → next.last = x.machine.state.last) := by
  have ordered := Issuing.ordered_run roundTrips reach
  refine ⟨ordered.increasing, ?_, fun range h => (ordered.wellFormed range h).consecutive, ?_, ?_⟩
  · exact ordered.increasing.imp TimestampRange.disjoint_of_endAt_lt
  · intro leaderId leaseNowMs physicalMs count range next h
    rcases transition_cases h with ⟨-, hnone⟩ | ⟨_, _, _, _, hcommand, -⟩ |
      ⟨_, _, _, _, _, _, hcommand, -, -, -, hcount, -, hresponse, -⟩
    · exact absurd rfl (hnone range)
    · cases hcommand
    · cases hcommand
      cases hresponse
      exact hcount
  · intro command response next h hnone
    rcases transition_cases h with ⟨rfl, -⟩ | ⟨_, _, _, _, -, -, -, -, rfl⟩ |
      ⟨_, _, _, _, range, _, -, -, -, -, -, -, hresponse, -⟩
    · rfl
    · rfl
    · exact absurd hresponse (hnone range)

/-! ## The encoding -/

namespace TsoCodec

open LittleEndian

def putU64 (value : UInt64) : Bytes := toLe 8 value.toNat

def putU32 (value : UInt32) : Bytes := toLe 4 value.toNat

def putTimestamp (t : HybridTimestamp) : Bytes := putU64 t.physical ++ putU32 t.logical

/-- An `Option` field: a tag, then the value. -/
def putOption {α : Type*} (put : α → Bytes) : Option α → Bytes
  | none => [0]
  | some value => 1 :: put value

def getU64 (bytes : Bytes) : Option (UInt64 × Bytes) :=
  (readLe 8 bytes).map fun (value, rest) => (UInt64.ofNat value, rest)

def getU32 (bytes : Bytes) : Option (UInt32 × Bytes) :=
  (readLe 4 bytes).map fun (value, rest) => (UInt32.ofNat value, rest)

def getTimestamp (bytes : Bytes) : Option (HybridTimestamp × Bytes) := do
  let (physical, bytes) ← getU64 bytes
  let (logical, bytes) ← getU32 bytes
  return (⟨physical, logical⟩, bytes)

def getOption {α : Type*} (get : Bytes → Option (α × Bytes)) : Bytes → Option (Option α × Bytes)
  | 0 :: bytes => some (none, bytes)
  | 1 :: bytes => (get bytes).map fun (value, rest) => (some value, rest)
  | _ => none

theorem getU64_putU64 (value : UInt64) (rest : Bytes) :
    getU64 (putU64 value ++ rest) = some (value, rest) := by
  rw [getU64, putU64, readLe_toLe_append value.toNat_lt]
  simp

theorem getU32_putU32 (value : UInt32) (rest : Bytes) :
    getU32 (putU32 value ++ rest) = some (value, rest) := by
  rw [getU32, putU32, readLe_toLe_append value.toNat_lt]
  simp

theorem getTimestamp_putTimestamp (t : HybridTimestamp) (rest : Bytes) :
    getTimestamp (putTimestamp t ++ rest) = some (t, rest) := by
  rw [getTimestamp, putTimestamp, List.append_assoc, getU64_putU64]
  simp [getU32_putU32]

theorem getOption_putOption {α : Type*} {put : α → Bytes} {get : Bytes → Option (α × Bytes)}
    (inverse : ∀ value rest, get (put value ++ rest) = some (value, rest)) (value : Option α)
    (rest : Bytes) : getOption get (putOption put value ++ rest) = some (value, rest) := by
  cases value with
  | none => rfl
  | some value => simp [putOption, getOption, inverse]

def putState (s : TsoState) : Bytes :=
  putOption putTimestamp s.last ++ (putOption putU64 s.leaseOwner ++
    (putU64 s.leaseExpiresAtMs ++ putU64 s.committedRanges))

def getState (bytes : Bytes) : Option (TsoState × Bytes) := do
  let (last, bytes) ← getOption getTimestamp bytes
  let (leaseOwner, bytes) ← getOption getU64 bytes
  let (leaseExpiresAtMs, bytes) ← getU64 bytes
  let (committedRanges, bytes) ← getU64 bytes
  return (⟨last, leaseOwner, leaseExpiresAtMs, committedRanges⟩, bytes)

theorem getState_putState (s : TsoState) : getState (putState s) = some (s, []) := by
  have hlast := getU64_putU64 s.committedRanges []
  rw [List.append_nil] at hlast
  rw [getState, putState, getOption_putOption getTimestamp_putTimestamp]
  simp [getOption_putOption getU64_putU64, getU64_putU64, hlast]

def getCommand (bytes : Bytes) : Option TsoCommand := do
  let (variant, bytes) ← getU32 bytes
  let (leaderId, bytes) ← getU64 bytes
  let (nowMs, bytes) ← getU64 bytes
  let (third, bytes) ← getU64 bytes
  if variant = 0 then return .acquireLease leaderId nowMs third
  else if variant = 1 then
    let (count, _) ← getU32 bytes
    return .allocate leaderId nowMs third count
  else none

def putResponse : TsoResponse → Bytes
  | .leaseAcquired expiresAtMs => putU32 0 ++ putU64 expiresAtMs
  | .leasePending notBeforeMs => putU32 1 ++ putU64 notBeforeMs
  | .allocated range =>
    putU32 2 ++ putTimestamp range.start ++ putTimestamp range.endAt ++ putU32 range.count
  | .invalidCount => putU32 3
  | .timestampOverflow => putU32 4

/-- `bincode` with its default options: fixed-width little-endian fields in order. -/
def bincode : TsoCodec where
  deserializeCommand bytes :=
    match getCommand bytes with
    | some command => .ok command
    | none => .error "io error: unexpected end of file"
  serializeResponse response := .ok (putResponse response)
  serializeState s := .ok (putState s)
  deserializeState bytes :=
    match getState bytes with
    | some (s, _) => .ok s
    | none => .error "io error: unexpected end of file"

theorem bincode_roundTrips : bincode.RoundTrips := by
  intro s
  refine ⟨putState s, rfl, ?_⟩
  simp only [bincode, getState_putState]

end TsoCodec

/-- A lease, an allocation, a restored snapshot, and an allocation with a clock that has
gone back: the second range follows the first. -/
theorem allocations_increase_after_rollback :
    ∃ x, run Issuing.step (Issuing.initial .bincode)
        [.apply (.acquireLease 1 0 100), .apply (.allocate 1 5 7 3), .roundTrip,
          .apply (.allocate 1 6 2 2)] = some x ∧
      x.allocated = [⟨⟨7, 0⟩, ⟨7, 2⟩, 3⟩, ⟨⟨7, 3⟩, ⟨7, 4⟩, 2⟩] ∧
      (x.allocated.Pairwise fun a b => a.endAt < b.start) := by
  exact exists_of_evaluated
    (fun x => x.allocated = [⟨⟨7, 0⟩, ⟨7, 2⟩, 3⟩, ⟨⟨7, 3⟩, ⟨7, 4⟩, 2⟩]) ⟨_, rfl, by decide⟩
    fun x hx hallocated => ⟨hallocated,
      (allocations_increase .bincode TsoCodec.bincode_roundTrips _ x hx).1⟩

/-! ## The lease -/

def stateAfter (commands : List TsoCommand) : TsoState :=
  commands.foldl (fun s command => (transition s command).2) .initial

theorem stateAfter_append (before after : List TsoCommand) :
    stateAfter (before ++ after) =
      after.foldl (fun s command => (transition s command).2) (stateAfter before) := by
  rw [stateAfter, List.foldl_append]
  rfl

/-- Before the first grant the expiry is zero, so that a grant cannot move it back. -/
def TsoState.LeaseSound (s : TsoState) : Prop := s.leaseOwner = none → s.leaseExpiresAtMs = 0

theorem TsoState.LeaseSound.transition {next : TsoState} {command : TsoCommand}
    {response : TsoResponse} (sound : s.LeaseSound)
    (h : Tso.transition s command = (response, next)) :
    next.LeaseSound ∧ s.leaseExpiresAtMs ≤ next.leaseExpiresAtMs := by
  rcases transition_cases h with ⟨rfl, -⟩ | ⟨_, nowMs, _, expiresAtMs, -, hfree, hsum, -, rfl⟩ |
    ⟨_, _, _, _, _, _, -, -, -, -, -, -, -, rfl⟩
  · exact ⟨sound, UInt64.le_refl _⟩
  · refine ⟨nofun, ?_⟩
    rcases hfree with hnone | hexpired
    · rw [sound hnone]
      exact UInt64.zero_le
    · rw [UInt64.le_iff_toNat_le] at hexpired ⊢
      simp only
      omega
  · exact ⟨sound, UInt64.le_refl _⟩

theorem leaseSound_foldl (sound : s.LeaseSound) (commands : List TsoCommand) :
    (commands.foldl (fun s command => (transition s command).2) s).LeaseSound ∧
      s.leaseExpiresAtMs ≤
        (commands.foldl (fun s command => (transition s command).2) s).leaseExpiresAtMs := by
  induction commands generalizing s with
  | nil => exact ⟨sound, UInt64.le_refl _⟩
  | cons command rest ih =>
    obtain ⟨hsound, hle⟩ := sound.transition (Prod.mk.eta (p := transition s command)).symm
    obtain ⟨hrest, hle'⟩ := ih hsound
    exact ⟨hrest, UInt64.le_trans hle hle'⟩

/-- Only an expired lease changes hands, and only its owner is given timestamps. -/
structure LeaseExclusive (s next : TsoState) (command : TsoCommand) (response : TsoResponse) :
    Prop where
  expiry : s.leaseExpiresAtMs ≤ next.leaseExpiresAtMs
  handover : ∀ owner, s.leaseOwner = some owner → next.leaseOwner ≠ some owner →
    ∃ leaderId nowMs leaseDurationMs, command = .acquireLease leaderId nowMs leaseDurationMs ∧
      next.leaseOwner = some leaderId ∧ s.leaseExpiresAtMs ≤ nowMs
  allocation : ∀ range, response = .allocated range →
    ∃ leaderId leaseNowMs physicalMs count,
      command = .allocate leaderId leaseNowMs physicalMs count ∧
        s.leaseOwner = some leaderId ∧ leaseNowMs < s.leaseExpiresAtMs
  refusal : (∃ notBeforeMs, response = .leasePending notBeforeMs) ∨ response = .invalidCount ∨
    response = .timestampOverflow → next = s

/-- The lease changes hands only at or past its expiry, only its owner allocates and only before the
expiry, and a refusal changes nothing. -/
theorem lease_exclusive (commands : List TsoCommand) :
    (∀ before after, commands = before ++ after →
      (stateAfter before).leaseExpiresAtMs ≤ (stateAfter commands).leaseExpiresAtMs) ∧
    ∀ before command after response next, commands = before ++ command :: after →
      transition (stateAfter before) command = (response, next) →
        LeaseExclusive (stateAfter before) next command response := by
  have hinitial : TsoState.initial.LeaseSound := fun _ => rfl
  have hsound : ∀ before, (stateAfter before).LeaseSound := fun before =>
    (leaseSound_foldl hinitial before).1
  constructor
  · rintro before after rfl
    rw [stateAfter_append]
    exact (leaseSound_foldl (hsound before) after).2
  · rintro before command after response next - h
    have hexpiry := ((hsound before).transition h).2
    rcases transition_cases h with ⟨rfl, hnone⟩ |
      ⟨leaderId, nowMs, duration, _, rfl, hfree, -, rfl, rfl⟩ |
      ⟨leaderId, leaseNowMs, physicalMs, count, range, _, rfl, howner, hlease, -, -, -, rfl, rfl⟩
    · exact ⟨hexpiry, fun owner howner hother => absurd howner hother,
        fun range hrange => absurd hrange (hnone range), fun _ => rfl⟩
    · refine ⟨hexpiry, fun owner howner hother => ?_, by simp, by simp⟩
      rcases hfree with hfree | hexpired
      · cases hfree.symm.trans howner
      · exact ⟨leaderId, nowMs, duration, rfl, rfl, hexpired⟩
    · exact ⟨hexpiry, fun owner howner hother => absurd howner hother,
        fun _ _ => ⟨leaderId, leaseNowMs, physicalMs, count, rfl, howner, hlease⟩, by simp⟩

end Chirps.Tso
