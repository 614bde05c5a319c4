/-
# Group commit: callers, waiters and passes interleaved

A caller of `sync` becomes the syncer if no pass is under way, and else waits for a new generation
and returns its published result. Each event holds one lock or touches one atomic flag.
-/

import Chirps.Library.Run
import Chirps.RaftStorage.Durability

namespace Chirps.RaftStorage

open Chirps.Library
open Function (update update_apply)

structure CoordinatorGate where
  syncing : Bool
  generation : UInt64
  lastError : Option String

/-- Where the thread of a participant stands. `mark` is the number of records when it entered
`sync`, `generation` the local variable of that name. -/
inductive Phase (ι : Type*)
  /-- The sink does not exist yet. -/
  | unopened
  /-- Between two calls. -/
  | idle
  /-- In `append`: the record is buffered, the dirty flag not yet stored. -/
  | buffered
  /-- In `sync`, waiting for the pass under way. -/
  | waiting (generation : UInt64) (mark : ℕ)
  /-- In `sync` as the syncer, before the swap of the dirty flags. -/
  | syncing (generation : UInt64) (mark : ℕ)
  /-- The syncer after the swap, with the writers it still has to sync. -/
  | flushing (generation : UInt64) (mark : ℕ) (writers : List ι)
  /-- The syncer after a writer has failed. -/
  | failed (generation : UInt64) (mark : ℕ) (message : String)
  /-- The sink has been dropped. -/
  | dropped

namespace Phase

variable {ι : Type*}

def IsSyncer : Phase ι → Prop
  | .syncing _ _ | .flushing _ _ _ | .failed _ _ _ => True
  | _ => False

def IsOpen : Phase ι → Prop
  | .unopened | .dropped => False
  | _ => True

def Swapped : Phase ι → Prop
  | .flushing _ _ _ | .failed _ _ _ => True
  | _ => False

def mark : Phase ι → Option ℕ
  | .waiting _ m | .syncing _ m | .flushing _ m _ | .failed _ m _ => some m
  | _ => none

def writers : Phase ι → List ι
  | .flushing _ _ ps => ps
  | _ => []

theorem isSyncer_of_mem_writers {ph : Phase ι} {p : ι} (h : p ∈ ph.writers) : ph.IsSyncer := by
  cases ph <;> simp [writers, IsSyncer] at h ⊢

theorem IsSyncer.isOpen {ph : Phase ι} (h : ph.IsSyncer) : ph.IsOpen := by
  cases ph <;> simp [IsSyncer, IsOpen] at h ⊢

instance : DecidablePred (Swapped : Phase ι → Prop)
  | .flushing _ _ _ | .failed _ _ _ => isTrue trivial
  | .unopened | .idle | .buffered | .waiting _ _ | .syncing _ _ | .dropped => isFalse id

end Phase

structure System (ι ρ : Type*) where
  registry : Registry ι ρ
  phase : ι → Phase ι
  gate : CoordinatorGate

inductive Event (ι ρ : Type*)
  /-- `RealWalSink::new`: open the file and `register` the pair. -/
  | register (p : ι)
  /-- The sink and with it the pair go away. -/
  | drop (p : ι)
  /-- `append`, first half: buffer the record under the writer's lock. -/
  | appendRecord (p : ι) (record : ρ)
  /-- `append`, second half: `dirty.store(true)`. -/
  | storeDirty (p : ι)
  /-- `sync`, first locked section of the gate. -/
  | enterSync (p : ι)
  /-- The locked section of `sync_participants`. -/
  | swapDirty (p : ι)
  /-- One turn of the loop of `sync_participants`. -/
  | syncWriter (p : ι) (outcome : SyncOutcome)
  /-- `sync`, last locked section: publish the result and return it. -/
  | publish (p : ι)
  /-- A waiter finds the pass over and returns its result. -/
  | wake (p : ι)

/-- No sync of a writer fails. -/
def Event.Succeeds {ι ρ : Type*} : Event ι ρ → Prop
  | .syncWriter _ outcome => outcome = .synced
  | _ => True

namespace System

variable {ι ρ : Type*}

/-- A coordinator no sink has registered with: `WalDurabilityCoordinator::new`. -/
def initial : System ι ρ where
  registry := ⟨[], List.nodup_nil, fun _ => ⟨WalWriter.fresh, false⟩, fun _ => false⟩
  phase _ := .unopened
  gate := ⟨false, 0, none⟩

def writer (s : System ι ρ) (p : ι) : WalWriter ρ := (s.registry.sinks p).writer

def dirty (s : System ι ρ) (p : ι) : Bool := (s.registry.sinks p).dirty

def returned (s : System ι ρ) : Event ι ρ → Option (ι × ℕ × Except String Unit)
  | .publish p =>
    match s.phase p with
    | .flushing _ mark [] => some (p, mark, .ok ())
    | .failed _ mark message => some (p, mark, .error message)
    | _ => none
  | .wake p =>
    match s.phase p with
    | .waiting _ mark =>
      match s.gate.lastError with
      | none => some (p, mark, .ok ())
      | some message => some (p, mark, .error message)
    | _ => none
  | _ => none

/-- When the step returns `Ok` from `sync`, the caller's earlier records are durable. -/
def ReturnsDurable (s : System ι ρ) (e : Event ι ρ) : Prop :=
  ∀ p mark, s.returned e = some (p, mark, .ok ()) →
    (s.writer p).records.take mark <+: (s.writer p).durable

variable [DecidableEq ι] (s : System ι ρ)

def Pending (p : ι) : Prop :=
  ∃ q ∈ s.registry.participants, p ∈ (s.phase q).writers

instance (s : System ι ρ) (p : ι) : Decidable (s.Pending p) :=
  inferInstanceAs (Decidable (∃ q ∈ s.registry.participants, p ∈ (s.phase q).writers))

/-- Forget the pairs nobody holds. A pass under way holds those it has collected. -/
def register (p : ι) (new : p ∉ s.registry.participants) : System ι ρ where
  registry :=
    { participants :=
        (s.registry.participants.filter fun q => s.registry.alive q || s.Pending q) ++ [p]
      nodup := by
        refine List.Nodup.append (s.registry.nodup.filter _) (List.nodup_singleton p) ?_
        rw [List.disjoint_singleton]
        exact fun h => new (List.mem_of_mem_filter h)
      sinks := update s.registry.sinks p ⟨WalWriter.fresh, false⟩
      alive := update s.registry.alive p true }
  phase := update s.phase p .idle
  gate := s.gate

def goto (p : ι) (phase : Phase ι) : System ι ρ :=
  { s with phase := update s.phase p phase }

def step : Event ι ρ → Option (System ι ρ)
  | .register p =>
    match s.phase p with
    | .unopened =>
      if new : p ∉ s.registry.participants then some (s.register p new) else none
    | _ => none
  | .drop p =>
    match s.phase p with
    | .idle =>
      some { s.goto p .dropped with
        registry := { s.registry with alive := update s.registry.alive p false } }
    | _ => none
  | .appendRecord p record =>
    match s.phase p with
    | .idle =>
      some { s.goto p .buffered with
        registry := s.registry.modify p fun sink =>
          { sink with writer := sink.writer.appendRecord record } }
    | _ => none
  | .storeDirty p =>
    match s.phase p with
    | .buffered =>
      some { s.goto p .idle with
        registry := s.registry.modify p fun sink => { sink with dirty := true } }
    | _ => none
  | .enterSync p =>
    match s.phase p with
    | .idle =>
      let mark := (s.writer p).records.length
      -- a pass is under way: wait for its generation to be published
      if s.gate.syncing then some (s.goto p (.waiting s.gate.generation mark))
      else
        some { s.goto p (.syncing (s.gate.generation + 1) mark) with
          gate := { s.gate with syncing := true } }
    | _ => none
  | .swapDirty p =>
    match s.phase p with
    | .syncing generation mark =>
      some { s.goto p (.flushing generation mark s.registry.dirtyParticipants) with
        registry := s.registry.swapDirty }
    | _ => none
  | .syncWriter p outcome =>
    match s.phase p with
    | .flushing generation mark (q :: rest) =>
      match (s.writer q).syncWriter outcome with
      | (.ok (), w) =>
        some { s.goto p (.flushing generation mark rest) with
          registry := s.registry.modify q fun sink => { sink with writer := w } }
      -- the first error ends the loop, and only this writer's flag is set again
      | (.error message, w) =>
        some { s.goto p (.failed generation mark message) with
          registry := s.registry.modify q fun _ => ⟨w, true⟩ }
    | _ => none
  | .publish p =>
    match s.phase p with
    | .flushing generation _ [] =>
      some { s.goto p .idle with gate := ⟨false, generation, none⟩ }
    | .failed generation _ message =>
      some { s.goto p .idle with gate := ⟨false, generation, some message⟩ }
    | _ => none
  | .wake p =>
    match s.phase p with
    | .waiting generation _ =>
      -- the loop around the condition variable tests both again after each wake-up
      if s.gate.syncing || s.gate.generation == generation then none else some (s.goto p .idle)
    | _ => none

@[simp] theorem goto_phase (p q : ι) (phase : Phase ι) :
    (s.goto p phase).phase q = if q = p then phase else s.phase q := by
  simp [goto, update_apply]

@[simp] theorem goto_registry (p : ι) (phase : Phase ι) :
    (s.goto p phase).registry = s.registry := rfl

@[simp] theorem goto_gate (p : ι) (phase : Phase ι) :
    (s.goto p phase).gate = s.gate := rfl

/-! ## Inversion of the steps -/

section Inversion

variable {s t : System ι ρ} {p : ι}

theorem step_register (h : s.step (.register p) = some t) :
    s.phase p = .unopened ∧ ∃ new, t = s.register p new := by
  simp only [step] at h
  cases hp : s.phase p <;> simp only [hp] at h <;> try cases h
  split at h <;> cases h
  exact ⟨rfl, ‹_›, rfl⟩

theorem step_drop (h : s.step (.drop p) = some t) :
    s.phase p = .idle ∧ t = { s.goto p .dropped with
      registry := { s.registry with alive := update s.registry.alive p false } } := by
  simp only [step] at h
  cases hp : s.phase p <;> simp only [hp] at h <;> cases h
  exact ⟨rfl, rfl⟩

theorem step_appendRecord {record : ρ} (h : s.step (.appendRecord p record) = some t) :
    s.phase p = .idle ∧ t = { s.goto p .buffered with
      registry := s.registry.modify p fun sink =>
        { sink with writer := sink.writer.appendRecord record } } := by
  simp only [step] at h
  cases hp : s.phase p <;> simp only [hp] at h <;> cases h
  exact ⟨rfl, rfl⟩

theorem step_storeDirty (h : s.step (.storeDirty p) = some t) :
    s.phase p = .buffered ∧ t = { s.goto p .idle with
      registry := s.registry.modify p fun sink => { sink with dirty := true } } := by
  simp only [step] at h
  cases hp : s.phase p <;> simp only [hp] at h <;> cases h
  exact ⟨rfl, rfl⟩

theorem step_enterSync (h : s.step (.enterSync p) = some t) :
    s.phase p = .idle ∧
      (s.gate.syncing = true ∧
          t = s.goto p (.waiting s.gate.generation (s.writer p).records.length) ∨
        s.gate.syncing = false ∧
          t = { s.goto p (.syncing (s.gate.generation + 1) (s.writer p).records.length) with
            gate := { s.gate with syncing := true } }) := by
  simp only [step] at h
  cases hp : s.phase p <;> simp only [hp] at h <;> try cases h
  cases hsyncing : s.gate.syncing <;> simp [hsyncing] at h <;> simp [h]

theorem step_swapDirty (h : s.step (.swapDirty p) = some t) :
    ∃ generation mark, s.phase p = .syncing generation mark ∧
      t = { s.goto p (.flushing generation mark s.registry.dirtyParticipants) with
        registry := s.registry.swapDirty } := by
  simp only [step] at h
  cases hp : s.phase p <;> simp only [hp] at h <;> cases h
  exact ⟨_, _, rfl, rfl⟩

theorem step_syncWriter_synced (h : s.step (.syncWriter p .synced) = some t) :
    ∃ generation mark q rest, s.phase p = .flushing generation mark (q :: rest) ∧
      t = { s.goto p (.flushing generation mark rest) with
        registry := s.registry.modify q fun sink =>
          { sink with writer := ((s.writer q).syncWriter .synced).2 } } := by
  simp only [step] at h
  cases hp : s.phase p with
  | flushing generation mark writers =>
    cases writers with
    | nil => simp [hp] at h
    | cons q rest =>
      simp only [hp, WalWriter.syncWriter, Option.some.injEq] at h
      exact ⟨generation, mark, q, rest, rfl, h.symm⟩
  | _ => simp [hp] at h

theorem step_publish (h : s.step (.publish p) = some t) :
    (∃ generation mark, s.phase p = .flushing generation mark [] ∧
        t = { s.goto p .idle with gate := ⟨false, generation, none⟩ }) ∨
      ∃ generation mark message, s.phase p = .failed generation mark message ∧
        t = { s.goto p .idle with gate := ⟨false, generation, some message⟩ } := by
  simp only [step] at h
  cases hp : s.phase p with
  | flushing generation mark writers =>
    cases writers with
    | nil =>
      simp only [hp, Option.some.injEq] at h
      exact .inl ⟨generation, mark, rfl, h.symm⟩
    | cons q rest => simp [hp] at h
  | failed generation mark message =>
    simp only [hp, Option.some.injEq] at h
    exact .inr ⟨generation, mark, message, rfl, h.symm⟩
  | _ => simp [hp] at h

theorem step_wake (h : s.step (.wake p) = some t) :
    ∃ generation mark, s.phase p = .waiting generation mark ∧ s.gate.syncing = false ∧
      s.gate.generation ≠ generation ∧ t = s.goto p .idle := by
  simp only [step] at h
  cases hp : s.phase p with
  | waiting generation mark =>
    simp only [hp] at h
    split at h
    · cases h
    · rename_i hover
      simp only [Bool.or_eq_true, beq_iff_eq, not_or, Bool.not_eq_true] at hover
      exact ⟨generation, mark, rfl, hover.1, hover.2, (Option.some.inj h).symm⟩
  | _ => simp [hp] at h

end Inversion

/-! ## The invariant of runs without a failing writer -/

def recorded (p : ι) : ℕ :=
  match s.phase p with
  | .buffered => (s.writer p).records.length - 1
  | _ => (s.writer p).records.length

/-- The first `n` records of `p` are durable, or the pass has its writer or is yet to swap its flag.
-/
def Cover (p : ι) (n : ℕ) : Prop :=
  n ≤ (s.writer p).synced ∨ s.Pending p ∨
    s.dirty p = true ∧ ∃ q generation mark, s.phase q = .syncing generation mark

/-- What holds in every run whose writers never fail and whose waiters are
covered when they enter. -/
structure Sound (s : System ι ρ) : Prop where
  listed : ∀ p, (s.phase p).IsOpen → p ∈ s.registry.participants ∧ s.registry.alive p = true
  unique : ∀ p q, (s.phase p).IsSyncer → (s.phase q).IsSyncer → p = q
  syncing_iff : s.gate.syncing = true ↔ ∃ p, (s.phase p).IsSyncer
  nextGeneration : ∀ p generation mark,
    s.phase p = .syncing generation mark ∨
      (∃ ps, s.phase p = .flushing generation mark ps) → generation = s.gate.generation + 1
  noFailure : s.gate.lastError = none ∧ ∀ p generation mark message,
    s.phase p ≠ .failed generation mark message
  accounted : ∀ p, (s.phase p).IsOpen →
    s.recorded p ≤ (s.writer p).synced ∨ s.dirty p = true ∨ s.Pending p
  covered : ∀ p mark, (s.phase p).mark = some mark →
    mark ≤ (s.writer p).records.length ∧ s.Cover p mark
  waits : ∀ p generation mark, s.phase p = .waiting generation mark →
    mark ≤ (s.writer p).synced ∨ s.gate.generation = generation

omit [DecidableEq ι] in
theorem initial_sound : (initial : System ι ρ).Sound where
  listed _ h := h.elim
  unique _ _ h := h.elim
  syncing_iff := ⟨fun h => by simp [initial] at h, fun ⟨_, h⟩ => h.elim⟩
  nextGeneration _ _ _ h := by simp [initial] at h
  noFailure := ⟨rfl, fun _ _ _ _ h => by simp [initial] at h⟩
  accounted _ h := h.elim
  covered _ _ h := by simp [initial, Phase.mark] at h
  waits _ _ _ h := by simp [initial] at h

variable {s : System ι ρ} {p : ι}

omit [DecidableEq ι] in
theorem Sound.pending_iff (sound : s.Sound) : s.Pending p ↔ ∃ q, p ∈ (s.phase q).writers := by
  constructor
  · rintro ⟨q, -, hq⟩
    exact ⟨q, hq⟩
  · rintro ⟨q, hq⟩
    exact ⟨q, (sound.listed q (Phase.isSyncer_of_mem_writers hq).isOpen).1, hq⟩

variable {t : System ι ρ}

/-- What a step of the thread `p` leaves as it is. -/
structure OthersKept (s t : System ι ρ) (p : ι) : Prop where
  gate : t.gate = s.gate
  phase : ∀ q, q ≠ p → t.phase q = s.phase q
  sinks : ∀ q, q ≠ p → t.registry.sinks q = s.registry.sinks q

section

variable (sound : s.Sound)
include sound

/-- A step of one thread that is not a syncer, before and after, keeps the
invariant when it keeps the part of it that is about that thread. -/
theorem Sound.of_thread (before : ¬ (s.phase p).IsSyncer)
    (after : ¬ (t.phase p).IsSyncer)
    (listed : ∀ q, (t.phase q).IsOpen → q ∈ t.registry.participants ∧ t.registry.alive q = true)
    (others : OthersKept s t p) (accounted : (t.phase p).IsOpen →
      t.recorded p ≤ (t.writer p).synced ∨ t.dirty p = true ∨ s.Pending p)
    (covered : ∀ mark, (t.phase p).mark = some mark →
      mark ≤ (t.writer p).records.length ∧ t.Cover p mark)
    (waits : ∀ generation mark, t.phase p = .waiting generation mark →
      mark ≤ (t.writer p).synced ∨ s.gate.generation = generation) : t.Sound := by
  obtain ⟨gate, phase, sinks⟩ := others
  -- the syncer, if there is one, is another thread and unchanged
  have hne : ∀ {q}, (s.phase q).IsSyncer → q ≠ p := by
    rintro q hq rfl
    exact before hq
  have hne' : ∀ {q}, (t.phase q).IsSyncer → q ≠ p := by
    rintro q hq rfl
    exact after hq
  have hpending : ∀ {q}, s.Pending q → t.Pending q := by
    rintro q ⟨r, -, hr⟩
    have hsyncer := Phase.isSyncer_of_mem_writers hr
    have hphase := phase r (hne hsyncer)
    exact ⟨r, (listed r (hphase ▸ hsyncer.isOpen)).1, hphase ▸ hr⟩
  -- so whoever the syncer covered, it covers still
  have hcover : ∀ {q n}, q ≠ p → s.Cover q n → t.Cover q n := by
    rintro q n hq (h | h | ⟨hdirty, r, generation, mark, hr⟩)
    · exact .inl (by simpa only [writer, sinks q hq] using h)
    · exact .inr (.inl (hpending h))
    · refine .inr (.inr ⟨by simpa only [dirty, sinks q hq] using hdirty,
        r, generation, mark, ?_⟩)
      rw [phase r (hne (by simp [hr, Phase.IsSyncer])), hr]
  refine ⟨listed, ?_, ?_, ?_, ?_, ?_, ?_, ?_⟩
  · intro q r hq hr
    exact sound.unique q r (phase q (hne' hq) ▸ hq) (phase r (hne' hr) ▸ hr)
  · rw [gate, sound.syncing_iff]
    constructor
    · rintro ⟨q, hq⟩
      exact ⟨q, (phase q (hne hq)).symm ▸ hq⟩
    · rintro ⟨q, hq⟩
      exact ⟨q, phase q (hne' hq) ▸ hq⟩
  · rintro q generation mark h
    have hq : q ≠ p := hne' (by rcases h with h | ⟨ps, h⟩ <;> simp [h, Phase.IsSyncer])
    rw [gate]
    exact sound.nextGeneration q generation mark (by rwa [phase q hq] at h)
  · refine ⟨gate ▸ sound.noFailure.1, fun q generation mark message h => ?_⟩
    have hq : q ≠ p := hne' (by simp [h, Phase.IsSyncer])
    exact sound.noFailure.2 q generation mark message (phase q hq ▸ h)
  · intro q hq
    by_cases hqp : q = p
    · subst hqp
      exact (accounted hq).imp_right (Or.imp_right hpending)
    · have := sound.accounted q (phase q hqp ▸ hq)
      simp only [recorded, writer, dirty, phase q hqp, sinks q hqp] at this ⊢
      exact this.imp_right (Or.imp_right hpending)
  · intro q mark hq
    by_cases hqp : q = p
    · subst hqp
      exact covered mark hq
    · obtain ⟨hlength, hc⟩ := sound.covered q mark (phase q hqp ▸ hq)
      exact ⟨by simpa only [writer, sinks q hqp] using hlength, hcover hqp hc⟩
  · intro q generation mark hq
    rw [gate]
    by_cases hqp : q = p
    · subst hqp
      exact waits generation mark hq
    · have := sound.waits q generation mark (phase q hqp ▸ hq)
      simpa only [writer, sinks q hqp] using this

theorem Sound.listed_of_others (others : OthersKept s t p) (hopen : (s.phase p).IsOpen)
    (participants : t.registry.participants = s.registry.participants)
    (alive : t.registry.alive = s.registry.alive) (q : ι) (hq : (t.phase q).IsOpen) :
    q ∈ t.registry.participants ∧ t.registry.alive q = true := by
  rw [participants, alive]
  by_cases hqp : q = p
  · subst hqp
    exact sound.listed q hopen
  · exact sound.listed q (others.phase q hqp ▸ hq)

theorem Sound.of_unmarked (before : (s.phase p).IsOpen ∧ ¬ (s.phase p).IsSyncer)
    (after : ¬ (t.phase p).IsSyncer ∧ (t.phase p).mark = none) (others : OthersKept s t p)
    (participants : t.registry.participants = s.registry.participants)
    (alive : t.registry.alive = s.registry.alive)
    (accounted : t.recorded p ≤ (t.writer p).synced ∨ t.dirty p = true ∨ s.Pending p) :
    t.Sound := by
  refine sound.of_thread before.2 after.1
    (sound.listed_of_others others before.1 participants alive) others (fun _ => accounted) ?_ ?_
  · intro mark hmark
    cases after.2.symm.trans hmark
  · intro generation mark hwait
    rw [hwait] at after
    cases after.2

theorem Sound.appendRecord {record : ρ}
    (h : s.step (.appendRecord p record) = some t) : t.Sound := by
  obtain ⟨hp, rfl⟩ := step_appendRecord h
  refine sound.of_unmarked (p := p) ?_ ?_
    ⟨rfl, fun q hq => by simp [hq], fun q hq => by simp [Registry.modify_sinks, hq]⟩ rfl rfl ?_
  · simp [hp, Phase.IsOpen, Phase.IsSyncer]
  · simp [Phase.IsSyncer, Phase.mark]
  · -- the new record is not accounted for before its flag is stored
    have := sound.accounted p (by simp [hp, Phase.IsOpen])
    simp only [recorded, hp, writer, dirty] at this
    simp only [recorded, writer, dirty, goto_phase, Registry.modify_sinks, if_pos,
      WalWriter.appendRecord_records, WalWriter.appendRecord_synced, List.length_append,
      List.length_singleton, Nat.add_sub_cancel]
    exact this

theorem Sound.storeDirty (h : s.step (.storeDirty p) = some t) : t.Sound := by
  obtain ⟨hp, rfl⟩ := step_storeDirty h
  refine sound.of_unmarked (p := p) ?_ ?_
    ⟨rfl, fun q hq => by simp [hq], fun q hq => by simp [Registry.modify_sinks, hq]⟩ rfl rfl ?_
  · simp [hp, Phase.IsOpen, Phase.IsSyncer]
  · simp [Phase.IsSyncer, Phase.mark]
  · simp [dirty, Registry.modify_sinks]

theorem Sound.wake (h : s.step (.wake p) = some t) : t.Sound := by
  obtain ⟨generation, mark, hp, -, -, rfl⟩ := step_wake h
  refine sound.of_unmarked (p := p) ?_ ?_ ⟨rfl, fun q hq => by simp [hq], fun _ _ => rfl⟩
    rfl rfl ?_
  · simp [hp, Phase.IsOpen, Phase.IsSyncer]
  · simp [Phase.IsSyncer, Phase.mark]
  · have := sound.accounted p (by simp [hp, Phase.IsOpen])
    simpa only [recorded, hp, goto_phase, if_pos, writer, dirty, goto_registry] using this

end

/-- The pass has yet to swap the flags, has the caller's writer, or the caller has nothing unsynced.
-/
def WaiterCovered (s : System ι ρ) : Event ι ρ → Prop
  | .enterSync p =>
    s.gate.syncing = true →
      (¬ ∃ q ∈ s.registry.participants, (s.phase q).Swapped) ∨ s.Pending p ∨
        ¬ (s.writer p).Unsynced
  | _ => True

section

variable (sound : s.Sound)
include sound

theorem Sound.enterSync_waiting (guard : s.WaiterCovered (.enterSync p))
    (hp : s.phase p = .idle) (hsyncing : s.gate.syncing = true) :
    (s.goto p (.waiting s.gate.generation (s.writer p).records.length)).Sound := by
  have others :
      OthersKept s (s.goto p (.waiting s.gate.generation (s.writer p).records.length)) p :=
    ⟨rfl, fun q hq => by simp [hq], fun _ _ => rfl⟩
  have hopen : (s.phase p).IsOpen := by simp [hp, Phase.IsOpen]
  refine sound.of_thread (p := p) ?_ ?_ (sound.listed_of_others others hopen rfl rfl) others
    (fun _ => ?_) ?_ ?_
  · simp [hp, Phase.IsSyncer]
  · simp [Phase.IsSyncer]
  · have := sound.accounted p (by simp [hp, Phase.IsOpen])
    simpa only [recorded, hp, goto_phase, if_pos, writer, dirty, goto_registry] using this
  · intro mark hmark
    obtain rfl : (s.writer p).records.length = mark := by simpa [Phase.mark] using hmark
    refine ⟨le_rfl, ?_⟩
    -- the syncer is another thread, whose phase is untouched
    obtain ⟨q, hq⟩ := sound.syncing_iff.mp hsyncing
    have hqp : q ≠ p := by
      rintro rfl
      simp [hp, Phase.IsSyncer] at hq
    have hpending : s.Pending p → (s.goto p (.waiting s.gate.generation
        (s.writer p).records.length)).Pending p := by
      rintro ⟨r, hr, hmem⟩
      have hrp : r ≠ p := by
        rintro rfl
        simp [hp, Phase.writers] at hmem
      exact ⟨r, hr, by rwa [others.phase r hrp]⟩
    -- the three ways in which the pass under way covers the caller
    rcases guard hsyncing with hswap | hpend | hsynced
    · have := sound.accounted p (by simp [hp, Phase.IsOpen])
      simp only [recorded, hp] at this
      rcases this with hle | hdirty | hpend
      · exact .inl hle
      · refine .inr (.inr ⟨hdirty, q, ?_⟩)
        simp only [others.phase q hqp]
        cases hphase : s.phase q with
        | syncing generation mark => exact ⟨generation, mark, rfl⟩
        | flushing generation mark ps =>
          exact (hswap ⟨q, (sound.listed q hq.isOpen).1, by simp [hphase, Phase.Swapped]⟩).elim
        | failed generation mark message =>
          exact (sound.noFailure.2 q _ _ _ hphase).elim
        | _ => simp [hphase, Phase.IsSyncer] at hq
      · exact .inr (.inl (hpending hpend))
    · exact .inr (.inl (hpending hpend))
    · exact .inl (not_lt.mp hsynced)
  · intro generation mark hwait
    simp only [goto_phase, if_pos, Phase.waiting.injEq] at hwait
    exact .inr hwait.1

theorem Sound.enterSync_syncing (hp : s.phase p = .idle)
    (hsyncing : s.gate.syncing = false) :
    Sound { s.goto p (.syncing (s.gate.generation + 1) (s.writer p).records.length) with
      gate := { s.gate with syncing := true } } := by
  -- the gate is open, so that nobody is syncing and nothing is collected
  have hnone : ∀ q, ¬ (s.phase q).IsSyncer := by
    intro q hq
    rw [sound.syncing_iff.mpr ⟨q, hq⟩] at hsyncing
    cases hsyncing
  have hidle : ∀ q, ¬ s.Pending q := by
    intro q hq
    obtain ⟨r, hr⟩ := sound.pending_iff.mp hq
    exact hnone r (Phase.isSyncer_of_mem_writers hr)
  refine ⟨?_, ?_, ?_, ?_, ?_, ?_, ?_, ?_⟩
  · intro q hq
    by_cases hqp : q = p
    · subst hqp
      exact sound.listed q (by simp [hp, Phase.IsOpen])
    · exact sound.listed q (by simpa [hqp] using hq)
  · intro q r hq hr
    have hq' : q = p := by
      by_contra hne
      exact hnone q (by simpa [hne] using hq)
    have hr' : r = p := by
      by_contra hne
      exact hnone r (by simpa [hne] using hr)
    rw [hq', hr']
  · exact iff_of_true rfl ⟨p, by simp [Phase.IsSyncer]⟩
  · rintro q generation mark hq
    by_cases hqp : q = p
    · subst hqp
      simp only [goto_phase, if_pos, Phase.syncing.injEq, reduceCtorEq, exists_false,
        or_false] at hq
      exact hq.1.symm
    · simp only [goto_phase, if_neg hqp] at hq
      rcases hq with hq | ⟨ps, hq⟩ <;> exact (hnone q (by simp [hq, Phase.IsSyncer])).elim
  · refine ⟨sound.noFailure.1, fun q generation mark message hq => ?_⟩
    by_cases hqp : q = p
    · simp [hqp] at hq
    · exact sound.noFailure.2 q _ _ _ (by simpa [hqp] using hq)
  · intro q hq
    have hopen : (s.phase q).IsOpen := by
      by_cases hqp : q = p
      · simp [hqp, hp, Phase.IsOpen]
      · simpa [hqp] using hq
    have := sound.accounted q hopen
    rcases this with hle | hdirty | hpend
    · refine .inl (le_trans (le_of_eq ?_) hle)
      by_cases hqp : q = p
      · simp [recorded, hqp, hp, writer]
      · simp [recorded, hqp, writer]
    · exact .inr (.inl hdirty)
    · exact (hidle q hpend).elim
  · intro q mark hq
    -- the new syncer has yet to swap the flags, which covers everyone who is dirty
    have hsyncing' : ∃ r generation mark,
        ({ s.goto p (.syncing (s.gate.generation + 1) (s.writer p).records.length) with
          gate := { s.gate with syncing := true } } : System ι ρ).phase r =
            .syncing generation mark :=
      ⟨p, s.gate.generation + 1, (s.writer p).records.length, by simp⟩
    by_cases hqp : q = p
    · subst hqp
      obtain rfl : (s.writer q).records.length = mark := by simpa [Phase.mark] using hq
      have := sound.accounted q (by simp [hp, Phase.IsOpen])
      simp only [recorded, hp] at this
      refine ⟨le_rfl, ?_⟩
      rcases this with hle | hdirty | hpend
      · exact .inl hle
      · exact .inr (.inr ⟨hdirty, hsyncing'⟩)
      · exact (hidle q hpend).elim
    · obtain ⟨hlength, hcover⟩ := sound.covered q mark (by simpa [hqp] using hq)
      refine ⟨hlength, ?_⟩
      rcases hcover with hle | hpend | ⟨hdirty, -⟩
      · exact .inl hle
      · exact (hidle q hpend).elim
      · exact .inr (.inr ⟨hdirty, hsyncing'⟩)
  · intro q generation mark hq
    by_cases hqp : q = p
    · simp [hqp] at hq
    · exact sound.waits q generation mark (by simpa [hqp] using hq)

theorem Sound.enterSync (guard : s.WaiterCovered (.enterSync p))
    (h : s.step (.enterSync p) = some t) : t.Sound := by
  obtain ⟨hp, ⟨hsyncing, rfl⟩ | ⟨hsyncing, rfl⟩⟩ := step_enterSync h
  · exact sound.enterSync_waiting guard hp hsyncing
  · exact sound.enterSync_syncing hp hsyncing

theorem Sound.register (h : s.step (.register p) = some t) : t.Sound := by
  obtain ⟨hp, new, rfl⟩ := step_register h
  have hphase : ∀ q, (s.register p new).phase q = if q = p then .idle else s.phase q := by
    intro q
    simp [System.register, update_apply]
  refine sound.of_thread (p := p) ?_ ?_ ?_
    ⟨rfl, fun q hq => by simp [hphase, hq], fun q hq => by simp [System.register, hq]⟩ ?_ ?_ ?_
  · simp [hp, Phase.IsSyncer]
  · simp [hphase, Phase.IsSyncer]
  · intro q hq
    by_cases hqp : q = p
    · simp [System.register, hqp]
    · obtain ⟨hmem, halive⟩ := sound.listed q (by simpa [hphase, hqp] using hq)
      simp [System.register, hqp, hmem, halive]
  · intro _
    left
    simp [recorded, writer, System.register, WalWriter.fresh]
  · intro mark hmark
    simp [hphase, Phase.mark] at hmark
  · intro generation mark hwait
    simp [hphase] at hwait

theorem Sound.drop (h : s.step (.drop p) = some t) : t.Sound := by
  obtain ⟨hp, rfl⟩ := step_drop h
  refine sound.of_thread (p := p) ?_ ?_ ?_ ⟨rfl, fun q hq => by simp [hq], fun _ _ => rfl⟩ ?_ ?_ ?_
  · simp [hp, Phase.IsSyncer]
  · simp [Phase.IsSyncer]
  · intro q hq
    by_cases hqp : q = p
    · simp [hqp, Phase.IsOpen] at hq
    · obtain ⟨hmem, halive⟩ := sound.listed q (by simpa [hqp] using hq)
      exact ⟨hmem, by simpa [update_apply, hqp] using halive⟩
  · intro hopen
    simp [Phase.IsOpen] at hopen
  · intro mark hmark
    simp [Phase.mark] at hmark
  · intro generation mark hwait
    simp at hwait

end

variable {generation : UInt64} {mark : ℕ}

/-- A step of the syncer inside its pass keeps the invariant when no writer
loses ground and everything it was to cover is synced or still to be synced. -/
theorem Sound.of_pass (sound : s.Sound) {writers : List ι}
    (before : s.phase p = .syncing generation mark ∨
      ∃ ps, s.phase p = .flushing generation mark ps)
    (after : t.phase p = .flushing generation mark writers)
    (listed : ∀ q ∈ s.registry.participants, s.registry.alive q = true →
      q ∈ t.registry.participants ∧ t.registry.alive q = true) (gate : t.gate = s.gate)
    (phase : ∀ q, q ≠ p → t.phase q = s.phase q)
    (records : ∀ q, (t.writer q).records = (s.writer q).records)
    (synced : ∀ q, (s.writer q).synced ≤ (t.writer q).synced)
    (dirty : ∀ q, (s.phase q).IsOpen → s.dirty q = true → t.dirty q = true ∨ q ∈ writers)
    (pending : ∀ q, q ∈ (s.phase p).writers →
      q ∈ writers ∨ (t.writer q).synced = (t.writer q).records.length)
    (swapped : ∀ q, (s.phase q).IsOpen → s.phase p = .syncing generation mark →
      s.dirty q = true → q ∈ writers) : t.Sound := by
  have hsyncer : (s.phase p).IsSyncer := by
    rcases before with h | ⟨ps, h⟩ <;> simp [h, Phase.IsSyncer]
  have hopen : ∀ q, (t.phase q).IsOpen ↔ (s.phase q).IsOpen := by
    intro q
    by_cases hqp : q = p
    · subst hqp
      exact iff_of_true (by simp [after, Phase.IsOpen]) hsyncer.isOpen
    · rw [phase q hqp]
  -- inside a pass the syncer stays the same thread
  have hisSyncer : ∀ q, (t.phase q).IsSyncer ↔ (s.phase q).IsSyncer := by
    intro q
    by_cases hqp : q = p
    · subst hqp
      exact iff_of_true (by simp [after, Phase.IsSyncer]) hsyncer
    · rw [phase q hqp]
  have hmark : ∀ q, (t.phase q).mark = (s.phase q).mark := by
    intro q
    by_cases hqp : q = p
    · subst hqp
      rcases before with h | ⟨ps, h⟩ <;> simp [after, h, Phase.mark]
    · rw [phase q hqp]
  have hlisted : ∀ q, (t.phase q).IsOpen →
      q ∈ t.registry.participants ∧ t.registry.alive q = true := by
    intro q hq
    obtain ⟨hmem, halive⟩ := sound.listed q ((hopen q).mp hq)
    exact listed q hmem halive
  have hcollected : ∀ {q}, q ∈ writers → t.Pending q := by
    intro q hq
    exact ⟨p,
      (hlisted p (by simp [after, Phase.IsOpen])).1, by simpa [after, Phase.writers] using hq⟩
  -- a writer that was still to be synced is synced now, or still to be synced
  have hpending : ∀ {q n}, n ≤ (s.writer q).records.length → s.Pending q →
      n ≤ (t.writer q).synced ∨ t.Pending q := by
    intro q n hn hq
    obtain ⟨r, hr⟩ := sound.pending_iff.mp hq
    obtain rfl := sound.unique r p (Phase.isSyncer_of_mem_writers hr) hsyncer
    rcases pending q hr with hmem | hsynced
    · exact .inr (hcollected hmem)
    · exact .inl (by rw [hsynced, records]; exact hn)
  refine ⟨hlisted, ?_, ?_, ?_, ?_, ?_, ?_, ?_⟩
  · intro q r hq hr
    exact sound.unique q r ((hisSyncer q).mp hq) ((hisSyncer r).mp hr)
  · simp only [gate, sound.syncing_iff, hisSyncer]
  · intro q generation' mark' hq
    rw [gate]
    by_cases hqp : q = p
    · subst hqp
      simp only [after, reduceCtorEq, Phase.flushing.injEq, false_or] at hq
      obtain ⟨ps, rfl, rfl, -⟩ := hq
      exact sound.nextGeneration q generation mark before
    · exact sound.nextGeneration q generation' mark' (by rwa [phase q hqp] at hq)
  · refine ⟨gate ▸ sound.noFailure.1, fun q generation mark message hq => ?_⟩
    by_cases hqp : q = p
    · simp [hqp, after] at hq
    · exact sound.noFailure.2 q generation mark message (phase q hqp ▸ hq)
  · intro q hq
    have hrecorded : t.recorded q = s.recorded q := by
      by_cases hqp : q = p
      · subst hqp
        rcases before with h | ⟨ps, h⟩ <;> simp [recorded, after, h, records]
      · simp [recorded, phase q hqp, records]
    have hle : s.recorded q ≤ (s.writer q).records.length := by
      simp only [recorded]
      split <;> omega
    rw [hrecorded]
    rcases sound.accounted q ((hopen q).mp hq) with h | h | h
    · exact .inl (h.trans (synced q))
    · rcases dirty q ((hopen q).mp hq) h with h | h
      · exact .inr (.inl h)
      · exact .inr (.inr (hcollected h))
    · exact (hpending hle h).imp_right .inr
  · intro q mark' hq
    rw [hmark] at hq
    obtain ⟨hlength, hcover⟩ := sound.covered q mark' hq
    refine ⟨by rwa [records], ?_⟩
    rcases hcover with h | h | ⟨hdirty, r, generation', mark'', hr⟩
    · exact .inl (h.trans (synced q))
    · exact (hpending hlength h).imp_right .inl
    -- a flag that was still to be swapped: this step is the swap
    · obtain rfl := sound.unique r p (by simp [hr, Phase.IsSyncer]) hsyncer
      have hsame : s.phase r = .syncing generation mark := by
        rcases before with h | ⟨ps, h⟩
        · exact h
        · simp [h] at hr
      have hq' : (s.phase q).IsOpen := by
        cases hphase : s.phase q <;> simp [hphase, Phase.mark, Phase.IsOpen] at hq ⊢
      exact .inr (.inl (hcollected (swapped q hq' hsame hdirty)))
  · intro q generation' mark' hq
    have hqp : q ≠ p := by
      rintro rfl
      simp [after] at hq
    rw [gate]
    exact (sound.waits q generation' mark' (phase q hqp ▸ hq)).imp_left fun h =>
      h.trans (synced q)

theorem Sound.swapDirty (sound : s.Sound) (h : s.step (.swapDirty p) = some t) : t.Sound := by
  obtain ⟨generation, mark, hp, rfl⟩ := step_swapDirty h
  -- every open dirty participant is listed and alive, so the swap collects it
  have hcollects : ∀ q, (s.phase q).IsOpen → s.dirty q = true →
      q ∈ s.registry.dirtyParticipants := by
    intro q hq hdirty
    obtain ⟨hmem, halive⟩ := sound.listed q hq
    exact Registry.mem_dirtyParticipants.mpr ⟨hmem, halive, hdirty⟩
  refine sound.of_pass (p := p) (.inl hp) (by simp; rfl) ?_ rfl ?_ ?_ ?_ ?_ ?_ ?_
  · intro q hmem halive
    simp [hmem, halive]
  · intro q hq
    simp [hq]
  · intro q
    simp [writer]
  · intro q
    simp [writer]
  · intro q hq hdirty
    exact .inr (hcollects q hq hdirty)
  · intro q hq
    simp [hp, Phase.writers] at hq
  · intro q hq _ hdirty
    exact hcollects q hq hdirty

theorem Sound.syncWriter (sound : s.Sound) (h : s.step (.syncWriter p .synced) = some t) :
    t.Sound := by
  obtain ⟨generation, mark, q, rest, hp, rfl⟩ := step_syncWriter_synced h
  have hwriter : ∀ r, (({ s.goto p (.flushing generation mark rest) with
      registry := s.registry.modify q fun sink =>
        { sink with writer := ((s.writer q).syncWriter .synced).2 } } : System ι ρ).writer r) =
      if r = q then ((s.writer q).syncWriter .synced).2 else s.writer r := by
    intro r
    simp only [writer, Registry.modify_sinks]
    split <;> rfl
  refine sound.of_pass (p := p) (.inr ⟨_, hp⟩) (by simp; rfl) ?_ rfl ?_ ?_ ?_ ?_ ?_ ?_
  · intro r hmem halive
    exact ⟨hmem, halive⟩
  · intro r hr
    simp [hr]
  · intro r
    rw [hwriter]
    split
    · simp [*]
    · rfl
  · intro r
    rw [hwriter]
    split
    · subst r
      exact (s.writer q).le_synced_syncWriter .synced
    · exact le_rfl
  · intro r _ hdirty
    left
    simp only [System.dirty, Registry.modify_sinks]
    split
    · subst r
      exact hdirty
    · exact hdirty
  -- the writer at the head is synced now, the others remain
  · intro r hr
    rw [hp] at hr
    rcases List.mem_cons.mp hr with rfl | hr
    · right
      rw [hwriter, if_pos rfl]
      rfl
    · exact .inl hr
  · intro r _ hphase
    simp [hp] at hphase

omit [DecidableEq ι] in
theorem Sound.synced_of_finished (sound : s.Sound) (hp : s.phase p = .flushing generation mark []) :
    (∀ q, ¬ s.Pending q) ∧
      ∀ q mark', (s.phase q).mark = some mark' → mark' ≤ (s.writer q).synced := by
  have hsyncer : (s.phase p).IsSyncer := by simp [hp, Phase.IsSyncer]
  have hidle : ∀ q, ¬ s.Pending q := by
    intro q hq
    obtain ⟨r, hr⟩ := sound.pending_iff.mp hq
    obtain rfl := sound.unique r p (Phase.isSyncer_of_mem_writers hr) hsyncer
    simp [hp, Phase.writers] at hr
  -- the other two ways of being covered need writers left or flags to swap
  refine ⟨hidle, fun q mark' hq => ?_⟩
  rcases (sound.covered q mark' hq).2 with h | h | ⟨-, r, generation', mark'', hr⟩
  · exact h
  · exact (hidle q h).elim
  · obtain rfl := sound.unique r p (by simp [hr, Phase.IsSyncer]) hsyncer
    simp [hp] at hr

theorem Sound.publish (sound : s.Sound) (h : s.step (.publish p) = some t) : t.Sound := by
  obtain ⟨generation, mark, hp, rfl⟩ | ⟨generation, mark, message, hp, -⟩ := step_publish h
  swap
  · exact (sound.noFailure.2 p generation mark message hp).elim
  have hsyncer : (s.phase p).IsSyncer := by simp [hp, Phase.IsSyncer]
  obtain ⟨hidle, hsynced⟩ := sound.synced_of_finished hp
  -- the only syncer has left
  have hnone : ∀ q, ¬ (({ s.goto p .idle with gate := ⟨false, generation, none⟩ } :
      System ι ρ).phase q).IsSyncer := by
    intro q hq
    by_cases hqp : q = p
    · simp [hqp, Phase.IsSyncer] at hq
    · exact hqp (sound.unique q p (by simpa [hqp] using hq) hsyncer)
  refine ⟨?_, ?_, ?_, ?_, ?_, ?_, ?_, ?_⟩
  · intro q hq
    by_cases hqp : q = p
    · exact hqp ▸ sound.listed p hsyncer.isOpen
    · exact sound.listed q (by simpa [hqp] using hq)
  · intro q r hq _
    exact (hnone q hq).elim
  · exact iff_of_false Bool.false_ne_true fun ⟨q, hq⟩ => hnone q hq
  · rintro q generation' mark' (hq | ⟨ps, hq⟩) <;>
      exact (hnone q (by rw [hq]; simp [Phase.IsSyncer])).elim
  · refine ⟨rfl, fun q generation mark message hq => ?_⟩
    exact hnone q (by rw [hq]; simp [Phase.IsSyncer])
  · intro q hq
    by_cases hqp : q = p
    · subst hqp
      have := sound.accounted q hsyncer.isOpen
      simp only [recorded, hp] at this
      rcases this with h | h | h
      · exact .inl (by simpa [recorded, writer] using h)
      · exact .inr (.inl h)
      · exact (hidle q h).elim
    · rcases sound.accounted q (by simpa [hqp] using hq) with h | h | h
      · exact .inl (by simpa [recorded, hqp, writer] using h)
      · exact .inr (.inl h)
      · exact (hidle q h).elim
  · intro q mark' hq
    by_cases hqp : q = p
    · simp [hqp, Phase.mark] at hq
    · have hq' : (s.phase q).mark = some mark' := by simpa [hqp] using hq
      exact ⟨(sound.covered q mark' hq').1, .inl (hsynced q mark' hq')⟩
  · intro q generation' mark' hq
    by_cases hqp : q = p
    · simp [hqp] at hq
    · have hq' : s.phase q = .waiting generation' mark' := by simpa [hqp] using hq
      exact .inl (hsynced q mark' (by simp [hq', Phase.mark]))

/-- One step: every atomic step without a failing writer keeps the invariant,
provided that a caller that starts to wait is covered. -/
theorem Sound.step {e : Event ι ρ} (sound : s.Sound) (succeeds : e.Succeeds)
    (guard : s.WaiterCovered e) (h : s.step e = some t) : t.Sound := by
  cases e with
  | register p => exact sound.register h
  | drop p => exact sound.drop h
  | appendRecord p record => exact sound.appendRecord h
  | storeDirty p => exact sound.storeDirty h
  | enterSync p => exact sound.enterSync guard h
  | swapDirty p => exact sound.swapDirty h
  | syncWriter p outcome =>
    obtain rfl : outcome = .synced := succeeds
    exact sound.syncWriter h
  | publish p => exact sound.publish h
  | wake p => exact sound.wake h

/-! ## What `Ok` says -/

theorem Sound.returnsDurable {e : Event ι ρ} (sound : s.Sound) (h : s.step e = some t) :
    s.ReturnsDurable e := by
  intro p mark hreturned
  -- durable is what is synced; only `publish` and `wake` return
  suffices hle : mark ≤ (s.writer p).synced from List.take_prefix_take_left hle
  cases e with
  | publish q =>
    have hmark : (s.phase q).mark = some mark ∧ q = p := by
      simp only [returned] at hreturned
      split at hreturned <;> simp_all [Phase.mark]
    obtain ⟨hmark, rfl⟩ := hmark
    obtain ⟨_, _, hq, -⟩ | ⟨_, _, _, hq, -⟩ := step_publish h
    · exact (sound.synced_of_finished hq).2 q mark hmark
    · exact (sound.noFailure.2 q _ _ _ hq).elim
  | wake q =>
    obtain ⟨generation, mark', hq, -, hmoved, -⟩ := step_wake h
    simp only [returned, hq, sound.noFailure.1, Option.some.injEq, Prod.mk.injEq] at hreturned
    obtain ⟨rfl, rfl, -⟩ := hreturned
    -- the generation has moved on, so the waiter's records are synced
    exact (sound.waits q generation mark' hq).resolve_right hmoved
  | _ => simp [returned] at hreturned

def flushEvents (outcome : ι → SyncOutcome) (p : ι) : List ι → List (Event ι ρ)
  | [] => []
  | q :: rest =>
    .syncWriter p (outcome q) :: if (outcome q).fails then [] else flushEvents outcome p rest

def afterFlush (generation : UInt64) (mark : ℕ) : Except String Unit → Phase ι
  | .ok () => .flushing generation mark []
  | .error message => .failed generation mark message

theorem run_flushEvents (outcome : ι → SyncOutcome) {ps : List ι}
    (hp : s.phase p = .flushing generation mark ps) :
    ∃ t, run step s (flushEvents outcome p ps) = some t ∧
      t.registry = (Registry.flushWriters outcome ps s.registry).2 ∧
      t.phase p = afterFlush generation mark (Registry.flushWriters outcome ps s.registry).1 ∧
      (∀ q, q ≠ p → t.phase q = s.phase q) ∧ t.gate = s.gate := by
  induction ps generalizing s with
  | nil => exact ⟨s, rfl, rfl, hp, fun _ _ => rfl, rfl⟩
  | cons q rest ih =>
    rcases hsync : (s.registry.sinks q).writer.syncWriter (outcome q) with ⟨result, w⟩
    have hcases := (s.registry.sinks q).writer.syncWriter_cases (outcome q)
    rw [hsync] at hcases
    rcases hcases with ⟨hfails, hresult, -⟩ | ⟨hfails, ⟨message, hresult⟩, -⟩
    · -- the writer is synced and the loop goes on from the next state
      obtain rfl : result = .ok () := hresult
      have hstep : s.step (.syncWriter p (outcome q)) =
          some { s.goto p (.flushing generation mark rest) with
            registry := s.registry.modify q fun sink => { sink with writer := w } } := by
        simp [step, hp, writer, hsync]
      obtain ⟨t, hrun, hregistry, hphase, hothers, hgate⟩ := ih (s :=
        { s.goto p (.flushing generation mark rest) with
          registry := s.registry.modify q fun sink => { sink with writer := w } }) (by simp)
      have hflush : Registry.flushWriters outcome (q :: rest) s.registry =
          Registry.flushWriters outcome rest
            (s.registry.modify q fun sink => { sink with writer := w }) := by
        simp [Registry.flushWriters, hsync]
      refine ⟨t, ?_, ?_, ?_, ?_, hgate⟩
      · simpa [flushEvents, hfails, run_cons hstep] using hrun
      · rw [hregistry, hflush]
      · rw [hphase, hflush]
      · intro r hr
        rw [hothers r hr]
        simp [hr]
    · obtain rfl : result = .error message := hresult
      have hstep : s.step (.syncWriter p (outcome q)) =
          some { s.goto p (.failed generation mark message) with
            registry := s.registry.modify q fun _ => ⟨w, true⟩ } := by
        simp [step, hp, writer, hsync]
      refine ⟨{ s.goto p (.failed generation mark message) with
        registry := s.registry.modify q fun _ => ⟨w, true⟩ }, ?_, ?_, ?_, ?_, ?_⟩
      · simp only [flushEvents, hfails, if_true]
        exact run_cons hstep
      all_goals simp +contextual [Registry.flushWriters, hsync, afterFlush]

/-- A pass that nothing interrupts ends as `sync_participants` does. -/
theorem run_pass (outcome : ι → SyncOutcome) (hp : s.phase p = .syncing generation mark) :
    ∃ t, run step s (.swapDirty p ::
        flushEvents outcome p s.registry.dirtyParticipants) = some t ∧
      t.registry = (s.registry.syncParticipants outcome).2 ∧
      t.phase p = afterFlush generation mark (s.registry.syncParticipants outcome).1 := by
  have hstep : s.step (.swapDirty p) =
      some { s.goto p (.flushing generation mark s.registry.dirtyParticipants) with
        registry := s.registry.swapDirty } := by
    simp [step, hp]
  have hflushing : ({ s.goto p (.flushing generation mark s.registry.dirtyParticipants) with
      registry := s.registry.swapDirty } : System ι ρ).phase p =
        .flushing generation mark s.registry.dirtyParticipants := by
    simp
  obtain ⟨t, hrun, hregistry, hphase, -⟩ := run_flushEvents outcome hflushing
  exact ⟨t, by rw [run_cons hstep]; exact hrun, hregistry, hphase⟩

omit [DecidableEq ι] in
theorem flushEvents_synced {ps : List ι} :
    ∀ e ∈ (flushEvents (fun _ => .synced) p ps : List (Event ι ρ)),
      e = .syncWriter p .synced := by
  induction ps with
  | nil => simp [flushEvents]
  | cons q rest ih => simpa [flushEvents, SyncOutcome.fails] using ih

omit [DecidableEq ι] in
theorem not_prefix_durable {w : WalWriter ρ} (unsynced : w.Unsynced) :
    ¬ w.records.take w.records.length <+: w.durable := by
  intro h
  have hlength := h.length_le
  rw [WalWriter.durable, List.length_take, List.length_take] at hlength
  have : w.synced < w.records.length := unsynced
  omega

/-- An uncovered caller is let down: the pass under way ends without its writer,
and the caller returns `Ok` with a record that is not fsynced. -/
theorem Sound.exists_undurable_return (sound : s.Sound) (h : s.step (.enterSync p) = some t)
    (uncovered : ¬ s.WaiterCovered (.enterSync p)) :
    ∃ more, (∀ e ∈ more, e.Succeeds) ∧ Along System.step WaiterCovered t more ∧
      ¬ Along System.step ReturnsDurable t more := by
  simp only [WaiterCovered, Classical.not_imp, not_or, not_not] at uncovered
  obtain ⟨hsyncing, ⟨q, -, hswapped⟩, hpending, hunsynced⟩ := uncovered
  obtain ⟨hp, ⟨-, rfl⟩ | ⟨hidle, -⟩⟩ := step_enterSync h
  swap
  · simp [hsyncing] at hidle
  obtain ⟨generation, mark, ps, hq⟩ : ∃ generation mark ps,
      s.phase q = .flushing generation mark ps := by
    cases hq : s.phase q with
    | flushing generation mark ps => exact ⟨generation, mark, ps, rfl⟩
    | failed generation mark message => exact (sound.noFailure.2 q _ _ _ hq).elim
    | _ => simp [hq, Phase.Swapped] at hswapped
  have hqp : q ≠ p := by
    rintro rfl
    simp [hp] at hq
  have hmem : p ∉ ps := fun hmem =>
    hpending (sound.pending_iff.mpr ⟨q, by simpa [hq, Phase.writers] using hmem⟩)
  -- the syncer finishes its loop, which does not touch the writer of `p`
  have hflushing : (s.goto p
      (.waiting s.gate.generation (s.writer p).records.length)).phase q = _ :=
    (by simpa [hqp] using hq : _ = Phase.flushing _ _ ps)
  obtain ⟨u, hrun, hregistry, hphase, hothers, hgate⟩ :=
    run_flushEvents (fun _ => .synced) hflushing
  rw [Registry.flushWriters_of_synced] at hphase
  have hsink : u.registry.sinks p = s.registry.sinks p := by
    rw [hregistry]
    exact (Registry.flushWriters_frame _ ps _).2.2 p hmem
  have hwait : u.phase p = .waiting s.gate.generation (s.writer p).records.length := by
    rw [hothers p hqp.symm]
    simp
  -- it publishes the next generation, which releases `p`
  have hpublish : u.step (.publish q) =
      some { u.goto q .idle with gate := ⟨false, generation, none⟩ } := by
    simp [System.step, hphase, afterFlush]
  have hmoved : generation ≠ s.gate.generation := by
    rw [sound.nextGeneration q generation mark (.inr ⟨ps, hq⟩)]
    grind
  have hwake : ({ u.goto q .idle with gate := ⟨false, generation, none⟩ } :
      System ι ρ).step (.wake p) =
        some (System.goto { u.goto q .idle with gate := ⟨false, generation, none⟩ } p .idle) := by
    simp [System.step, hqp.symm, hwait, hmoved]
  refine ⟨flushEvents (fun _ => .synced) q ps ++ [Event.publish q, .wake p], ?_, ?_, ?_⟩
  · intro e he
    rcases List.mem_append.mp he with he | he
    · rw [flushEvents_synced e he]
      rfl
    · rcases List.mem_pair.mp he with rfl | rfl <;> trivial
  · refine along_of_forall fun u e he => ?_
    rcases List.mem_append.mp he with he | he
    · rw [flushEvents_synced e he]
      trivial
    · rcases List.mem_pair.mp he with rfl | rfl <;> trivial
  · rw [along_append hrun, along_cons hpublish, along_cons hwake]
    rintro ⟨-, -, hdurable, -⟩
    have := hdurable p (s.writer p).records.length (by simp [returned, hqp.symm, hwait])
    simp only [writer, goto_registry, hsink] at this
    exact not_prefix_durable hunsynced this

theorem Sound.along_returnsDurable (sound : s.Sound) {events : List (Event ι ρ)}
    (succeeds : ∀ e ∈ events, e.Succeeds) (covered : Along System.step WaiterCovered s events) :
    Along System.step ReturnsDurable s events := by
  have hguard : Along System.step (fun s e => e.Succeeds ∧ s.WaiterCovered e) s events :=
    (along_of_forall fun _ e he => succeeds e he).and covered
  refine hguard.of_invariant (I := Sound) ?_ ?_ sound
  · intro s e next sound guard hstep
    exact sound.step guard.1 guard.2 hstep
  · intro s e next sound _ hstep
    exact sound.returnsDurable hstep

/-- If each caller that starts to wait is covered by the pass under way, every `sync` that returns
`Ok` has made the caller's records durable; a caller that enters uncovered can be released with an
unsynced record. -/
theorem sync_durable_iff_waiters_covered (events : List (Event ι ρ))
    (succeeds : ∀ e ∈ events, e.Succeeds)
    (covered : Along System.step WaiterCovered (initial : System ι ρ) events) :
    Along System.step ReturnsDurable (initial : System ι ρ) events ∧
      ∀ s p t, run System.step initial events = some s → s.step (.enterSync p) = some t →
        (s.WaiterCovered (.enterSync p) ↔
          ∀ more, (∀ e ∈ more, e.Succeeds) → Along System.step WaiterCovered t more →
            Along System.step ReturnsDurable t more) := by
  refine ⟨initial_sound.along_returnsDurable succeeds covered, ?_⟩
  intro s p t reach hstep
  have hguard : Along System.step (fun s e => e.Succeeds ∧ s.WaiterCovered e) initial events :=
    (along_of_forall fun _ e he => succeeds e he).and covered
  have sound : s.Sound := by
    refine run_invariant_of_along (I := Sound) ?_ initial_sound hguard reach
    intro s e next sound guard hstep
    exact sound.step guard.1 guard.2 hstep
  constructor
  · intro hcovered more hmore hmoreCovered
    exact (sound.enterSync hcovered hstep).along_returnsDurable hmore hmoreCovered
  · intro hdurable
    by_contra uncovered
    obtain ⟨more, hmore, hmoreCovered, hnot⟩ := sound.exists_undurable_return hstep uncovered
    exact hnot (hdurable more hmore hmoreCovered)

instance (s : System ι ρ) : DecidablePred s.WaiterCovered
  | .enterSync p => inferInstanceAs (Decidable (s.gate.syncing = true →
      (¬ ∃ q ∈ s.registry.participants, (s.phase q).Swapped) ∨ s.Pending p ∨
        ¬ (s.writer p).Unsynced))
  | .register _ | .drop _ | .appendRecord _ _ | .storeDirty _ | .swapDirty _ | .syncWriter _ _
  | .publish _ | .wake _ => isTrue trivial

omit [DecidableEq ι] in
instance : DecidablePred (Event.Succeeds : Event ι ρ → Prop)
  | .syncWriter _ outcome => inferInstanceAs (Decidable (outcome = .synced))
  | .register _ | .drop _ | .appendRecord _ _ | .storeDirty _ | .enterSync _ | .swapDirty _
  | .publish _ | .wake _ => isTrue trivial

def lateCaller : List (Event ℕ String) :=
  [.register 0, .register 1, .enterSync 0, .swapDirty 0, .appendRecord 1 "entry",
    .storeDirty 1, .enterSync 1, .publish 0, .wake 1]

/-- The late caller returns `Ok` with its record still in the buffer. -/
theorem late_caller_returns_before_fsync :
    (∀ e ∈ lateCaller, e.Succeeds) ∧
      (run System.step initial lateCaller).isSome = true ∧
      ∃ s, run System.step initial (lateCaller.take 8) = some s ∧
        s.returned (.wake 1) = some (1, 1, .ok ()) ∧
        (s.writer 1).records = ["entry"] ∧ (s.writer 1).durable = [] ∧
        ¬ s.ReturnsDurable (.wake 1) := by
  refine ⟨by decide, rfl, _, rfl, rfl, rfl, rfl, fun durable => ?_⟩
  have := durable 1 1 rfl
  revert this
  decide

def timelyCaller : List (Event ℕ String) :=
  [.register 0, .register 1, .enterSync 0, .appendRecord 1 "entry", .storeDirty 1,
    .enterSync 1, .swapDirty 0, .syncWriter 0 .synced, .publish 0, .wake 1]

theorem sync_durable_timely_caller :
    (run System.step initial timelyCaller).isSome = true ∧
      Along System.step ReturnsDurable (initial : System ℕ String) timelyCaller :=
  ⟨rfl, (sync_durable_iff_waiters_covered timelyCaller (by decide) (by decide)).1⟩

theorem run_pass_timely_caller :
    ∃ s t, run System.step initial (timelyCaller.take 6) = some s ∧
      run System.step s
        (.swapDirty 0 :: flushEvents (fun _ => .synced) 0 s.registry.dirtyParticipants) =
        some t ∧ t.registry = (s.registry.syncParticipants fun _ => .synced).2 := by
  obtain ⟨s, hs⟩ : ∃ s, run System.step initial (timelyCaller.take 6) = some s := ⟨_, rfl⟩
  have hp : s.phase 0 = .syncing 1 0 := by
    cases hs
    rfl
  obtain ⟨t, ht, hregistry, -⟩ := run_pass (fun _ => .synced) hp
  exact ⟨s, t, hs, ht, hregistry⟩

end System

end Chirps.RaftStorage
