/-
# The message buffer

Messages wait in three queues, one for each profile, under one limit on their bytes. A push is
refused by the level the buffer would be at, a pop takes the oldest message of the most urgent
profile. The ratio of floats behind the level is any function.
-/

import Mathlib

namespace Chirps.Memory

open Function (update)

inductive MessageProfile
  | control
  | durable
  | ephemeral
  deriving DecidableEq

/-- `profile_index`. The lower, the more urgent. -/
def MessageProfile.index : MessageProfile → ℕ
  | .control => 0
  | .durable => 1
  | .ephemeral => 2

inductive BackpressureLevel
  | normal
  | warning
  | limited
  | reject
  deriving DecidableEq

structure BufferedMessage where
  profile : MessageProfile
  payload : List UInt8
  deriving DecidableEq

inductive BufferError
  | backpressure (level : BackpressureLevel) (requestedBytes : ℕ)

def usizeMax : ℕ := 2 ^ 64 - 1

def saturatingAdd (a b : ℕ) : ℕ := min (a + b) usizeMax

abbrev PriorityQueue := MessageProfile → List BufferedMessage

def PriorityQueue.pop (q : PriorityQueue) :
    Option (MessageProfile × BufferedMessage × PriorityQueue) :=
  match q .control, q .durable, q .ephemeral with
  | message :: rest, _, _ => some (.control, message, update q .control rest)
  | [], message :: rest, _ => some (.durable, message, update q .durable rest)
  | [], [], message :: rest => some (.ephemeral, message, update q .ephemeral rest)
  | [], [], [] => none

/-- `BackpressureController::level`, with a level for every usage below the limit. -/
def level (below : ℕ → ℕ → BackpressureLevel) (usedBytes maxBytes : ℕ) : BackpressureLevel :=
  if maxBytes = 0 ∨ maxBytes ≤ usedBytes then .reject else below usedBytes maxBytes

def allows (profile : MessageProfile) : BackpressureLevel → Bool
  | .normal | .warning => true
  | .limited => profile ≠ .ephemeral
  | .reject => false

structure MessageBuffer where
  maxBufferBytes : ℕ
  usedBytes : ℕ
  queue : PriorityQueue
  profileBytes : MessageProfile → ℕ

namespace MessageBuffer

def new (maxBufferBytes : ℕ) : MessageBuffer := ⟨maxBufferBytes, 0, fun _ => [], fun _ => 0⟩

/-- The level `push` acts on. A payload that fills the buffer exactly is not rejected. -/
def pushLevel (below : ℕ → ℕ → BackpressureLevel) (b : MessageBuffer) (payload : List UInt8) :
    BackpressureLevel :=
  let projected := saturatingAdd b.usedBytes payload.length
  if projected = b.maxBufferBytes then .limited else level below projected b.maxBufferBytes

def accept (b : MessageBuffer) (profile : MessageProfile) (payload : List UInt8) : MessageBuffer :=
  { b with
    usedBytes := saturatingAdd b.usedBytes payload.length
    profileBytes := update b.profileBytes profile (b.profileBytes profile + payload.length)
    queue := update b.queue profile (b.queue profile ++ [⟨profile, payload⟩]) }

def push (below : ℕ → ℕ → BackpressureLevel) (b : MessageBuffer) (profile : MessageProfile)
    (payload : List UInt8) : Except BufferError Unit × MessageBuffer :=
  if allows profile (b.pushLevel below payload) then (.ok (), b.accept profile payload)
  else (.error (.backpressure (b.pushLevel below payload) payload.length), b)

def pop (b : MessageBuffer) : Option BufferedMessage × MessageBuffer :=
  match b.queue.pop with
  | none => (none, b)
  | some (profile, message, queue) =>
    let bytes := message.payload.length
    (some message, { b with
      usedBytes := b.usedBytes - bytes
      profileBytes := update b.profileBytes profile (b.profileBytes profile - bytes)
      queue := queue })

end MessageBuffer

theorem PriorityQueue.pop_cases (q : PriorityQueue) :
    (q.pop = none ∧ ∀ p, q p = []) ∨
    ∃ p message rest, q p = message :: rest ∧ (∀ p', p'.index < p.index → q p' = []) ∧
      q.pop = some (p, message, update q p rest) := by
  cases hcontrol : q .control with
  | cons message rest =>
    exact .inr ⟨.control, message, rest, hcontrol, nofun, by simp [pop, hcontrol]⟩
  | nil =>
    cases hdurable : q .durable with
    | cons message rest =>
      refine .inr ⟨.durable, message, rest, hdurable, fun p hp => ?_, by
        simp [pop, hcontrol, hdurable]⟩
      cases p <;> simp_all [MessageProfile.index]
    | nil =>
      cases hephemeral : q .ephemeral with
      | cons message rest =>
        refine .inr ⟨.ephemeral, message, rest, hephemeral, fun p hp => ?_, by
          simp [pop, hcontrol, hdurable, hephemeral]⟩
        cases p <;> simp_all [MessageProfile.index]
      | nil =>
        refine .inl ⟨by simp [pop, hcontrol, hdurable, hephemeral], fun p => ?_⟩
        cases p <;> assumption

/-! ## Runs -/

inductive BufferCall
  | push (profile : MessageProfile) (payload : List UInt8)
  | pop

structure BufferUse where
  buffer : MessageBuffer
  accepted : List BufferedMessage
  popped : List BufferedMessage

def bytes (messages : List BufferedMessage) : ℕ := (messages.map (·.payload.length)).sum

def total (f : MessageProfile → ℕ) : ℕ := f .control + f .durable + f .ephemeral

theorem total_update (f : MessageProfile → ℕ) (p : MessageProfile) (n : ℕ) :
    total (update f p n) + f p = total f + n := by
  cases p <;> simp only [total, update] <;> simp <;> omega

namespace BufferUse

def step (below : ℕ → ℕ → BackpressureLevel) (x : BufferUse) : BufferCall → BufferUse
  | .push profile payload =>
    match x.buffer.push below profile payload with
    | (.ok (), buffer) => { x with buffer, accepted := x.accepted ++ [⟨profile, payload⟩] }
    | (.error _, buffer) => { x with buffer }
  | .pop =>
    match x.buffer.pop with
    | (none, buffer) => { x with buffer }
    | (some message, buffer) => { x with buffer, popped := x.popped ++ [message] }

structure Sound (limit : ℕ) (x : BufferUse) : Prop where
  limit_eq : x.buffer.maxBufferBytes = limit
  used : x.buffer.usedBytes = total fun p => bytes (x.buffer.queue p)
  profiles : ∀ p, x.buffer.profileBytes p = bytes (x.buffer.queue p)
  le : x.buffer.usedBytes ≤ limit
  lt : limit < usizeMax
  order : ∀ p, x.accepted.filter (·.profile = p) =
    x.popped.filter (·.profile = p) ++ x.buffer.queue p

variable {below : ℕ → ℕ → BackpressureLevel} {x : BufferUse} {profile : MessageProfile}
  {payload : List UInt8} {limit : ℕ}

theorem Sound.profile_eq (sound : x.Sound limit) {p : MessageProfile} {message : BufferedMessage}
    (h : message ∈ x.buffer.queue p) : message.profile = p := by
  have hmem : message ∈ x.accepted.filter (·.profile = p) := by
    rw [sound.order p]
    exact List.mem_append_right _ h
  exact of_decide_eq_true (List.mem_filter.mp hmem).2

theorem bytes_update (q : PriorityQueue) (p : MessageProfile) (l : List BufferedMessage) :
    (fun p' => bytes (update q p l p')) = update (fun p' => bytes (q p')) p (bytes l) := by
  funext p'
  by_cases h : p' = p
  · subst h
    simp
  · simp [h]

theorem le_of_allows {b : MessageBuffer} (h : allows profile (b.pushLevel below payload) = true) :
    saturatingAdd b.usedBytes payload.length ≤ b.maxBufferBytes := by
  by_contra hlt
  rw [MessageBuffer.pushLevel, if_neg (by omega), level, if_pos (.inr (by omega))] at h
  cases h

section

variable (sound : x.Sound limit)
include sound

theorem Sound.push : (x.step below (.push profile payload)).Sound limit := by
  by_cases hallows : allows profile (x.buffer.pushLevel below payload) = true
  · simp only [step, MessageBuffer.push, if_pos hallows]
    have hle := sound.limit_eq ▸ le_of_allows hallows
    have hlt := sound.lt
    have hadd : saturatingAdd x.buffer.usedBytes payload.length =
        x.buffer.usedBytes + payload.length := by
      unfold saturatingAdd at hle ⊢
      omega
    have hbytes : bytes (x.buffer.queue profile ++ [⟨profile, payload⟩]) =
        bytes (x.buffer.queue profile) + payload.length := by
      simp [bytes]
    have htotal := total_update (fun p => bytes (x.buffer.queue p)) profile
      (bytes (x.buffer.queue profile) + payload.length)
    refine ⟨sound.limit_eq, ?_, fun p => ?_, hle, hlt, fun p => ?_⟩
    · simp only [MessageBuffer.accept]
      rw [bytes_update, hbytes, hadd, sound.used]
      omega
    · by_cases h : p = profile
      · subst h
        simp [MessageBuffer.accept, hbytes, sound.profiles]
      · simp [MessageBuffer.accept, h, sound.profiles]
    · by_cases h : p = profile
      · subst h
        simp [MessageBuffer.accept, sound.order p]
      · simp [MessageBuffer.accept, h, Ne.symm h, sound.order p]
  · simpa only [step, MessageBuffer.push, if_neg hallows]

theorem pop_cases :
    (x.buffer.pop = (none, x.buffer) ∧ ∀ p, x.buffer.queue p = []) ∨
    ∃ message rest, x.buffer.pop.1 = some message ∧
      x.buffer.queue message.profile = message :: rest ∧
      (∀ p, p.index < message.profile.index → x.buffer.queue p = []) ∧
      x.buffer.pop.2 = { x.buffer with
        usedBytes := x.buffer.usedBytes - message.payload.length
        profileBytes := update x.buffer.profileBytes message.profile
          (x.buffer.profileBytes message.profile - message.payload.length)
        queue := update x.buffer.queue message.profile rest } := by
  rcases x.buffer.queue.pop_cases with ⟨hpop, hall⟩ | ⟨p, message, rest, hqueue, hurgent, hpop⟩
  · exact .inl ⟨by rw [MessageBuffer.pop, hpop], hall⟩
  · obtain rfl : message.profile = p := sound.profile_eq (hqueue ▸ List.mem_cons_self)
    refine .inr ⟨message, rest, ?_, hqueue, hurgent, ?_⟩ <;> rw [MessageBuffer.pop, hpop]

theorem Sound.pop : (x.step below .pop).Sound limit := by
  rcases pop_cases sound with ⟨hpop, -⟩ | ⟨message, rest, hpop, hqueue, -, hafter⟩
  · rwa [step, hpop]
  · rw [step, show x.buffer.pop = (some message, x.buffer.pop.2) from Prod.ext hpop rfl, hafter]
    have hbytes : bytes (x.buffer.queue message.profile) =
        message.payload.length + bytes rest := by
      simp [hqueue, bytes]
    have htotal := total_update (fun p => bytes (x.buffer.queue p)) message.profile (bytes rest)
    have hused := sound.used
    refine ⟨sound.limit_eq, ?_, fun p => ?_, Nat.le_trans (Nat.sub_le _ _) sound.le, sound.lt,
      fun p => ?_⟩
    · dsimp only
      rw [bytes_update]
      omega
    · by_cases h : p = message.profile
      · subst h
        simp [hbytes, sound.profiles]
      · simp [h, sound.profiles]
    · by_cases h : p = message.profile
      · subst h
        simp [sound.order, hqueue]
      · simp [h, Ne.symm h, sound.order p]

theorem Sound.run (calls : List BufferCall) : (calls.foldl (step below) x).Sound limit := by
  induction calls generalizing x with
  | nil => exact sound
  | cons call rest ih =>
    refine ih ?_
    cases call with
    | push profile payload => exact sound.push
    | pop => exact sound.pop

end

def new (maxBufferBytes : ℕ) : BufferUse := ⟨.new maxBufferBytes, [], []⟩

theorem sound_new {maxBufferBytes : ℕ} (h : maxBufferBytes < usizeMax) :
    (new maxBufferBytes).Sound maxBufferBytes :=
  ⟨rfl, rfl, fun _ => rfl, Nat.zero_le _, h, fun _ => rfl⟩

end BufferUse

/-- After any calls the counters are the queued bytes and within the limit, the order of each
profile is kept, a pop takes the most urgent oldest message, and a refused push changes nothing. -/
theorem message_buffer_is_exact {maxBufferBytes : ℕ} (h : maxBufferBytes < usizeMax)
    (below : ℕ → ℕ → BackpressureLevel) (calls : List BufferCall) :
    let x := calls.foldl (BufferUse.step below) (.new maxBufferBytes)
    (x.buffer.usedBytes = total (fun p => bytes (x.buffer.queue p)) ∧
      x.buffer.usedBytes = total x.buffer.profileBytes ∧
      x.buffer.usedBytes ≤ maxBufferBytes) ∧
    (∀ p, x.accepted.filter (·.profile = p) =
      x.popped.filter (·.profile = p) ++ x.buffer.queue p) ∧
    ((x.buffer.pop.1 = none ∧ ∀ p, x.buffer.queue p = []) ∨ ∃ message,
      x.buffer.pop.1 = some message ∧ (x.buffer.queue message.profile).head? = some message ∧
      ∀ p, p.index < message.profile.index → x.buffer.queue p = []) ∧
    ∀ profile payload error, (x.buffer.push below profile payload).1 = .error error →
      (x.buffer.push below profile payload).2 = x.buffer := by
  intro x
  have sound : x.Sound maxBufferBytes := (BufferUse.sound_new h).run calls
  refine ⟨⟨sound.used, ?_, sound.le⟩, sound.order, ?_, fun profile payload error hrefused => ?_⟩
  · rw [sound.used]
    exact congrArg total (funext fun p => (sound.profiles p).symm)
  · rcases BufferUse.pop_cases sound with ⟨hpop, hall⟩ | ⟨message, rest, hpop, hqueue, hurgent, -⟩
    · exact .inl ⟨by rw [hpop], hall⟩
    · exact .inr ⟨message, hpop, by rw [hqueue]; rfl, hurgent⟩
  · rw [MessageBuffer.push] at hrefused ⊢
    split at hrefused
    · cases hrefused
    · rename_i hallows
      rw [if_neg hallows]

/-- Two bytes fill a buffer of two. The durable message leaves before the ephemeral one. -/
theorem message_buffer_is_exact_full :
    let x := [BufferCall.push .ephemeral [1], .push .durable [2], .push .control [3], .pop].foldl
      (BufferUse.step fun _ _ => .normal) (.new 2)
    x.popped = [⟨.durable, [2]⟩] ∧ x.buffer.usedBytes ≤ 2 :=
  ⟨by decide, (message_buffer_is_exact (by decide) _ _).1.2.2⟩

end Chirps.Memory
