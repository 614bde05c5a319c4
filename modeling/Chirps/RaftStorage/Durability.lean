/-
# One pass of the durability coordinator

The Raft groups of a node, each with a WAL file, share one `WalDurabilityCoordinator`. A pass swaps
all dirty flags first and then flushes and fsyncs the dirty writers, up to the first error.
-/

import Mathlib

namespace Chirps.RaftStorage

/-! ## One writer -/

/-- The records handed to a `BufWriter<File>`, how many are in the file, and how many are fsynced.
-/
structure WalWriter (ρ : Type*) where
  records : List ρ
  flushed : ℕ
  synced : ℕ
  synced_le_flushed : synced ≤ flushed
  flushed_le_length : flushed ≤ records.length

/-- What the operating system does with one `flush` followed by `sync_all`. -/
inductive SyncOutcome
  | synced
  | flushFailed (message : String) (written : ℕ)
  | fsyncFailed (message : String)
  deriving DecidableEq

/-- Whether `sync_writer` returns an error. -/
def SyncOutcome.fails : SyncOutcome → Bool
  | .synced => false
  | .flushFailed _ _ => true
  | .fsyncFailed _ => true

namespace WalWriter

variable {ρ : Type*}

def fresh : WalWriter ρ := ⟨[], 0, 0, le_rfl, Nat.zero_le _⟩

def durable (w : WalWriter ρ) : List ρ := w.records.take w.synced

def Unsynced (w : WalWriter ρ) : Prop := w.synced < w.records.length

instance (w : WalWriter ρ) : Decidable w.Unsynced :=
  inferInstanceAs (Decidable (w.synced < w.records.length))

/-- `append_record`: the record goes into the buffer. -/
def appendRecord (w : WalWriter ρ) (record : ρ) : WalWriter ρ where
  records := w.records ++ [record]
  flushed := w.flushed
  synced := w.synced
  synced_le_flushed := w.synced_le_flushed
  flushed_le_length := by
    have := w.flushed_le_length
    simp
    omega

/-- A failed flush may have written part of the buffer; a failed fsync comes after the flush. -/
def syncWriter (w : WalWriter ρ) : SyncOutcome → Except String Unit × WalWriter ρ
  | .synced =>
    (.ok (), ⟨w.records, w.records.length, w.records.length, le_rfl, le_rfl⟩)
  | .flushFailed message written =>
    (.error message,
      ⟨w.records, min (w.flushed + written) w.records.length, w.synced,
        le_min (w.synced_le_flushed.trans (Nat.le_add_right _ _))
          (w.synced_le_flushed.trans w.flushed_le_length),
        min_le_right _ _⟩)
  | .fsyncFailed message =>
    (.error message,
      ⟨w.records, w.records.length, w.synced,
        w.synced_le_flushed.trans w.flushed_le_length, le_rfl⟩)

variable (w : WalWriter ρ)

@[simp] theorem appendRecord_records (record : ρ) :
    (w.appendRecord record).records = w.records ++ [record] := rfl

@[simp] theorem appendRecord_synced (record : ρ) : (w.appendRecord record).synced = w.synced := rfl

@[simp] theorem syncWriter_records (o : SyncOutcome) : (w.syncWriter o).2.records = w.records := by
  cases o <;> rfl

theorem syncWriter_cases (o : SyncOutcome) :
    (o.fails = false ∧ (w.syncWriter o).1 = .ok () ∧
        (w.syncWriter o).2.synced = w.records.length) ∨
      (o.fails = true ∧ (∃ message, (w.syncWriter o).1 = .error message) ∧
        (w.syncWriter o).2.synced = w.synced) := by
  cases o with
  | synced => exact .inl ⟨rfl, rfl, rfl⟩
  | flushFailed message written => exact .inr ⟨rfl, ⟨message, rfl⟩, rfl⟩
  | fsyncFailed message => exact .inr ⟨rfl, ⟨message, rfl⟩, rfl⟩

theorem synced_le_length : w.synced ≤ w.records.length :=
  w.synced_le_flushed.trans w.flushed_le_length

theorem le_synced_syncWriter (o : SyncOutcome) : w.synced ≤ (w.syncWriter o).2.synced := by
  rcases w.syncWriter_cases o with ⟨-, -, h⟩ | ⟨-, -, h⟩
  · exact h ▸ w.synced_le_length
  · exact h.ge

end WalWriter

/-! ## One pass over the participants -/

/-- A `DurabilityParticipant`: the writer of one WAL and its dirty flag. -/
structure DurabilityParticipant (ρ : Type*) where
  writer : WalWriter ρ
  dirty : Bool

/-- The participants in the order they registered, none of them twice. `alive` says which sinks
still hold their pair, so that the weak references upgrade. -/
structure Registry (ι ρ : Type*) where
  participants : List ι
  nodup : participants.Nodup
  sinks : ι → DurabilityParticipant ρ
  alive : ι → Bool

namespace Registry

variable {ι ρ : Type*}

def Unsynced (r : Registry ι ρ) (p : ι) : Prop := (r.sinks p).writer.Unsynced

instance (r : Registry ι ρ) (p : ι) : Decidable (r.Unsynced p) :=
  inferInstanceAs (Decidable (r.sinks p).writer.Unsynced)

def dirtyParticipants (r : Registry ι ρ) : List ι :=
  r.participants.filter fun p => r.alive p && (r.sinks p).dirty

variable {r : Registry ι ρ} {p : ι}

theorem mem_dirtyParticipants :
    p ∈ r.dirtyParticipants ↔
      p ∈ r.participants ∧ r.alive p = true ∧ (r.sinks p).dirty = true := by
  simp [dirtyParticipants]

theorem nodup_dirtyParticipants (r : Registry ι ρ) : r.dirtyParticipants.Nodup :=
  r.nodup.filter _

def afterFailure (outcome : ι → SyncOutcome) : List ι → List ι
  | [] => []
  | p :: rest => if (outcome p).fails then rest else afterFailure outcome rest

variable {outcome : ι → SyncOutcome} {ps : List ι} {q : ι}

theorem mem_of_mem_afterFailure (h : q ∈ afterFailure outcome ps) : q ∈ ps := by
  induction ps with
  | nil => exact h
  | cons p rest ih =>
    simp only [afterFailure] at h
    split at h
    · exact List.mem_cons_of_mem _ h
    · exact List.mem_cons_of_mem _ (ih h)

variable [DecidableEq ι]

def modify (r : Registry ι ρ) (p : ι)
    (f : DurabilityParticipant ρ → DurabilityParticipant ρ) : Registry ι ρ :=
  { r with sinks := Function.update r.sinks p (f (r.sinks p)) }

@[simp] theorem modify_participants (r : Registry ι ρ) (p : ι)
    (f : DurabilityParticipant ρ → DurabilityParticipant ρ) :
    (r.modify p f).participants = r.participants := rfl

@[simp] theorem modify_alive (r : Registry ι ρ) (p : ι)
    (f : DurabilityParticipant ρ → DurabilityParticipant ρ) : (r.modify p f).alive = r.alive := rfl

theorem modify_sinks (r : Registry ι ρ) (p q : ι)
    (f : DurabilityParticipant ρ → DurabilityParticipant ρ) :
    (r.modify p f).sinks q = if q = p then f (r.sinks p) else r.sinks q := by
  simp [modify, Function.update_apply]

/-- The locked section of `sync_participants`: swap the flags and forget those that are gone. -/
def swapDirty (r : Registry ι ρ) : Registry ι ρ where
  participants := r.participants.filter r.alive
  nodup := r.nodup.filter _
  sinks p :=
    -- `swap(false)` on what upgrades; a pair that is gone is not touched
    if p ∈ r.participants ∧ r.alive p = true then { r.sinks p with dirty := false }
    else r.sinks p
  alive := r.alive

/-- The loop of `sync_participants`. The first error sets that flag again and ends it. -/
def flushWriters (outcome : ι → SyncOutcome) :
    List ι → Registry ι ρ → Except String Unit × Registry ι ρ
  | [], r => (.ok (), r)
  | p :: rest, r =>
    match (r.sinks p).writer.syncWriter (outcome p) with
    -- `?` ends the loop: the writers behind this one keep their cleared flags
    | (.error message, w) => (.error message, r.modify p fun _ => ⟨w, true⟩)
    | (.ok (), w) => flushWriters outcome rest (r.modify p fun sink => { sink with writer := w })

def syncParticipants (r : Registry ι ρ) (outcome : ι → SyncOutcome) :
    Except String Unit × Registry ι ρ :=
  flushWriters outcome r.dirtyParticipants r.swapDirty

/-- `RealWalSink::append` without its closing `sync`: buffer the record, then
set the flag. -/
def append (r : Registry ι ρ) (p : ι) (record : ρ) : Registry ι ρ :=
  r.modify p fun sink => ⟨sink.writer.appendRecord record, true⟩

@[simp] theorem swapDirty_participants (r : Registry ι ρ) :
    r.swapDirty.participants = r.participants.filter r.alive := rfl

@[simp] theorem swapDirty_alive (r : Registry ι ρ) : r.swapDirty.alive = r.alive := rfl

@[simp] theorem swapDirty_writer (r : Registry ι ρ) (p : ι) :
    (r.swapDirty.sinks p).writer = (r.sinks p).writer := by
  simp only [swapDirty]
  split <;> rfl

theorem swapDirty_dirty (r : Registry ι ρ) (p : ι) :
    (r.swapDirty.sinks p).dirty =
      if p ∈ r.participants ∧ r.alive p = true then false else (r.sinks p).dirty := by
  simp only [swapDirty]
  split <;> rfl

theorem flushWriters_cons (outcome : ι → SyncOutcome) (p : ι) (rest : List ι)
    (r : Registry ι ρ) :
    ((outcome p).fails = false ∧
        flushWriters outcome (p :: rest) r =
          flushWriters outcome rest (r.modify p fun sink =>
            { sink with writer := ((r.sinks p).writer.syncWriter (outcome p)).2 })) ∨
      ((outcome p).fails = true ∧ ∃ message,
        flushWriters outcome (p :: rest) r =
          (.error message, r.modify p fun _ =>
            ⟨((r.sinks p).writer.syncWriter (outcome p)).2, true⟩)) := by
  rcases hsync : (r.sinks p).writer.syncWriter (outcome p) with ⟨result, w⟩
  rcases (r.sinks p).writer.syncWriter_cases (outcome p) with
    ⟨hfails, hok, -⟩ | ⟨hfails, ⟨message, herr⟩, -⟩
  · rw [hsync] at hok
    obtain rfl : result = .ok () := hok
    exact .inl ⟨hfails, by simp [flushWriters, hsync]⟩
  · rw [hsync] at herr
    obtain rfl : result = .error message := herr
    exact .inr ⟨hfails, message, by simp [flushWriters, hsync]⟩

theorem flushWriters_frame (outcome : ι → SyncOutcome) (ps : List ι) (r : Registry ι ρ) :
    (flushWriters outcome ps r).2.participants = r.participants ∧
      (flushWriters outcome ps r).2.alive = r.alive ∧
      ∀ q, q ∉ ps → (flushWriters outcome ps r).2.sinks q = r.sinks q := by
  induction ps generalizing r with
  | nil => exact ⟨rfl, rfl, fun _ _ => rfl⟩
  | cons p rest ih =>
    rcases flushWriters_cons outcome p rest r with ⟨-, h⟩ | ⟨-, message, h⟩
    · obtain ⟨hparticipants, halive, hsinks⟩ := ih (r.modify p fun sink =>
        { sink with writer := ((r.sinks p).writer.syncWriter (outcome p)).2 })
      rw [h]
      refine ⟨hparticipants, halive, fun q hq => ?_⟩
      rw [List.mem_cons, not_or] at hq
      rw [hsinks q hq.2, modify_sinks, if_neg hq.1]
    · rw [h]
      refine ⟨rfl, rfl, fun q hq => ?_⟩
      rw [List.mem_cons, not_or] at hq
      rw [modify_sinks, if_neg hq.1]

theorem flushWriters_records (outcome : ι → SyncOutcome) (ps : List ι) (r : Registry ι ρ) (q : ι) :
    ((flushWriters outcome ps r).2.sinks q).writer.records = (r.sinks q).writer.records := by
  induction ps generalizing r with
  | nil => rfl
  | cons p rest ih =>
    rcases flushWriters_cons outcome p rest r with ⟨-, h⟩ | ⟨-, message, h⟩
    · rw [h, ih, modify_sinks]
      split
      · simp [*]
      · rfl
    · rw [h, modify_sinks]
      split
      · simp [*]
      · rfl

theorem le_synced_flushWriters (outcome : ι → SyncOutcome) (ps : List ι) (r : Registry ι ρ)
    (q : ι) :
    (r.sinks q).writer.synced ≤ ((flushWriters outcome ps r).2.sinks q).writer.synced := by
  induction ps generalizing r with
  | nil => exact le_rfl
  | cons p rest ih =>
    have hsynced := (r.sinks p).writer.le_synced_syncWriter (outcome p)
    rcases flushWriters_cons outcome p rest r with ⟨-, h⟩ | ⟨-, message, h⟩
    · rw [h]
      refine le_trans ?_ (ih _)
      rw [modify_sinks]
      split
      · rename_i hq
        exact hq ▸ hsynced
      · exact le_rfl
    · rw [h, modify_sinks]
      split
      · rename_i hq
        exact hq ▸ hsynced
      · exact le_rfl

theorem flushWriters_of_synced (ps : List ι) (r : Registry ι ρ) :
    (flushWriters (fun _ => .synced) ps r).1 = .ok () := by
  induction ps generalizing r with
  | nil => rfl
  | cons p rest ih => exact ih _

theorem flushWriters_unreached (outcome : ι → SyncOutcome) (nodup : ps.Nodup) (r : Registry ι ρ)
    (hq : q ∈ afterFailure outcome ps) : (flushWriters outcome ps r).2.sinks q = r.sinks q := by
  induction ps generalizing r with
  | nil => simp [afterFailure] at hq
  | cons p rest ih =>
    obtain ⟨hnew, hrest⟩ := List.nodup_cons.mp nodup
    -- `q` stands behind the failure, so it is not the head of the list
    have hne : q ≠ p := by
      rintro rfl
      simp only [afterFailure] at hq
      split at hq
      · exact hnew hq
      · exact hnew (mem_of_mem_afterFailure hq)
    rcases flushWriters_cons outcome p rest r with ⟨hfails, h⟩ | ⟨-, message, h⟩
    · have hq' : q ∈ afterFailure outcome rest := by simpa [afterFailure, hfails] using hq
      rw [h, ih hrest _ hq', modify_sinks, if_neg hne]
    · rw [h, modify_sinks, if_neg hne]

theorem flushWriters_reached (outcome : ι → SyncOutcome) (nodup : ps.Nodup) (r : Registry ι ρ)
    (hq : q ∈ ps) (hreached : q ∉ afterFailure outcome ps) :
    ¬ (flushWriters outcome ps r).2.Unsynced q ∨
      ((flushWriters outcome ps r).2.sinks q).dirty = true ∧
        ∃ message, (flushWriters outcome ps r).1 = .error message := by
  induction ps generalizing r with
  | nil => simp at hq
  | cons p rest ih =>
    obtain ⟨hnew, hrest⟩ := List.nodup_cons.mp nodup
    rcases flushWriters_cons outcome p rest r with ⟨hfails, h⟩ | ⟨hfails, message, h⟩
    · rw [h]
      by_cases hqp : q = p
      · -- `q` has just been synced, and the rest of the loop leaves it alone
        subst hqp
        left
        have hsame := (flushWriters_frame outcome rest (r.modify q fun sink =>
          { sink with writer := ((r.sinks q).writer.syncWriter (outcome q)).2 })).2.2 q hnew
        have hsynced : ((r.sinks q).writer.syncWriter (outcome q)).2.synced =
            (r.sinks q).writer.records.length := by
          rcases (r.sinks q).writer.syncWriter_cases (outcome q) with ⟨-, -, hs⟩ | ⟨hf, -⟩
          · exact hs
          · simp [hfails] at hf
        simp [Unsynced, WalWriter.Unsynced, hsame, modify_sinks, hsynced]
      · have hmem : q ∈ rest := (List.mem_cons.mp hq).resolve_left hqp
        exact ih hrest _ hmem (by simpa [afterFailure, hfails] using hreached)
    -- the head fails, and `q` is not behind it
    · have hqp : q = p := by
        rcases List.mem_cons.mp hq with hqp | hmem
        · exact hqp
        · exact absurd (by simpa [afterFailure, hfails] using hmem) hreached
      subst hqp
      right
      rw [h]
      exact ⟨by simp [modify_sinks], message, rfl⟩

theorem afterFailure_eq_nil_of_ok (passed : (flushWriters outcome ps r).1 = .ok ()) :
    afterFailure outcome ps = [] := by
  induction ps generalizing r with
  | nil => rfl
  | cons p rest ih =>
    rcases flushWriters_cons outcome p rest r with ⟨hfails, h⟩ | ⟨-, message, h⟩
    · rw [h] at passed
      simpa [afterFailure, hfails] using ih passed
    · rw [h] at passed
      cases passed

/-! ## What a pass does to the durability obligations -/

/-- Every participant with unsynced records has its dirty flag set. -/
def Obliged (r : Registry ι ρ) : Prop :=
  ∀ p ∈ r.participants, r.Unsynced p → (r.sinks p).dirty = true

def appendAll (r : Registry ι ρ) (appends : List (ι × ρ)) : Registry ι ρ :=
  appends.foldl (fun r a => r.append a.1 a.2) r

theorem append_obliged (h : r.Obliged) (p : ι) (record : ρ) : (r.append p record).Obliged := by
  intro q hq hunsynced
  by_cases hqp : q = p
  · simp [append, modify_sinks, hqp]
  · simp only [Unsynced, append, modify_sinks, if_neg hqp] at hunsynced ⊢
    exact h q hq hunsynced

theorem appendAll_obliged (h : r.Obliged) (appends : List (ι × ρ)) :
    (r.appendAll appends).Obliged := by
  induction appends generalizing r with
  | nil => exact h
  | cons a rest ih => exact ih (append_obliged h a.1 a.2)

theorem appendAll_frame (r : Registry ι ρ) (appends : List (ι × ρ)) :
    (r.appendAll appends).participants = r.participants ∧
      (r.appendAll appends).alive = r.alive := by
  induction appends generalizing r with
  | nil => exact ⟨rfl, rfl⟩
  | cons a rest ih => exact ih (r.append a.1 a.2)

theorem syncParticipants_participants (r : Registry ι ρ) (outcome : ι → SyncOutcome) :
    (r.syncParticipants outcome).2.participants = r.participants.filter r.alive :=
  (flushWriters_frame outcome r.dirtyParticipants r.swapDirty).1

theorem syncParticipants_clean (r : Registry ι ρ) (outcome : ι → SyncOutcome)
    (clean : (r.sinks p).dirty = false) : (r.syncParticipants outcome).2.sinks p = r.sinks p := by
  have hnot : p ∉ r.dirtyParticipants := by simp [mem_dirtyParticipants, clean]
  have hsame := (flushWriters_frame outcome r.dirtyParticipants r.swapDirty).2.2 p hnot
  rw [syncParticipants, hsame]
  simp only [swapDirty]
  split
  · rw [← clean]
  · rfl

theorem not_unsynced_of_syncParticipants_ok {after : Registry ι ρ} (obliged : r.Obliged)
    (passed : r.syncParticipants outcome = (.ok (), after)) (hp : p ∈ r.participants)
    (halive : r.alive p = true) : ¬ after.Unsynced p := by
  have hafter : (r.syncParticipants outcome).2 = after := by rw [passed]
  cases hdirty : (r.sinks p).dirty with
  | false =>
    have hsame := syncParticipants_clean r outcome hdirty
    rw [hafter] at hsame
    intro hunsynced
    rw [Unsynced, hsame] at hunsynced
    exact absurd (obliged p hp hunsynced) (by simp [hdirty])
  | true =>
    have hmem : p ∈ r.dirtyParticipants := mem_dirtyParticipants.mpr ⟨hp, halive, hdirty⟩
    -- a pass without an error reaches every writer it has collected
    have hreached : p ∉ afterFailure outcome r.dirtyParticipants := by
      rw [afterFailure_eq_nil_of_ok (r := r.swapDirty) (congrArg Prod.fst passed)]
      exact List.not_mem_nil
    rcases flushWriters_reached outcome r.nodup_dirtyParticipants r.swapDirty hmem hreached with
      hsynced | ⟨-, message, herror⟩
    · rwa [← hafter]
    · exact absurd ((congrArg Prod.fst passed).symm.trans herror) (by simp)

/-- Live participants with unsynced records are dirty and not behind the first writer that fails. -/
def NoneLeftBehind (r : Registry ι ρ) (outcome : ι → SyncOutcome) : Prop :=
  ∀ p ∈ r.participants, r.alive p = true → r.Unsynced p →
    (r.sinks p).dirty = true ∧ p ∉ afterFailure outcome r.dirtyParticipants

theorem unsynced_of_syncParticipants_unsynced (h : (r.syncParticipants outcome).2.Unsynced p) :
    r.Unsynced p := by
  -- generalised to the loop, since the swap leaves the writers alone
  suffices hmono : ∀ (ps : List ι) (r : Registry ι ρ),
      (flushWriters outcome ps r).2.Unsynced p → r.Unsynced p by
    simpa [Unsynced] using hmono _ _ h
  intro ps
  induction ps with
  | nil => exact fun _ h => h
  | cons q rest ih =>
    intro r h
    have hwriter : ∀ dirty, (r.modify q fun _ =>
        ⟨((r.sinks q).writer.syncWriter (outcome q)).2, dirty⟩).Unsynced p → r.Unsynced p := by
      intro dirty h
      by_cases hpq : p = q
      · subst hpq
        simp only [Unsynced, WalWriter.Unsynced, modify_sinks, if_pos,
          WalWriter.syncWriter_records] at h ⊢
        exact lt_of_le_of_lt ((r.sinks p).writer.le_synced_syncWriter (outcome p)) h
      · simpa [Unsynced, modify_sinks, hpq] using h
    rcases flushWriters_cons outcome q rest r with ⟨-, heq⟩ | ⟨-, message, heq⟩
    · rw [heq] at h
      exact hwriter _ (ih _ h)
    · rw [heq] at h
      exact hwriter _ h

theorem obliged_of_failed_pass_iff {after : Registry ι ρ} {message : String}
    (failed : r.syncParticipants outcome = (.error message, after)) :
    after.Obliged ↔ r.NoneLeftBehind outcome := by
  have hafter : (r.syncParticipants outcome).2 = after := by rw [failed]
  -- a pass forgets the participants that are gone, and only those
  have hparticipants : ∀ p, p ∈ after.participants ↔ p ∈ r.participants ∧ r.alive p = true := by
    intro p
    rw [← hafter, syncParticipants_participants, List.mem_filter]
  constructor
  · intro obliged p hp halive hunsynced
    have hmem := (hparticipants p).mpr ⟨hp, halive⟩
    cases hdirty : (r.sinks p).dirty with
    | false =>
      -- the pass does not see `p`, so it stays unsynced and clean
      have hsame := syncParticipants_clean r outcome hdirty
      rw [hafter] at hsame
      have := obliged p hmem (by rwa [Unsynced, hsame])
      rw [hsame, hdirty] at this
      cases this
    | true =>
      refine ⟨rfl, fun hbehind => ?_⟩
      -- the pass has cleared the flag of `p` and stopped before its writer
      have hsame := flushWriters_unreached outcome r.nodup_dirtyParticipants r.swapDirty hbehind
      rw [← syncParticipants, hafter] at hsame
      have := obliged p hmem (by rw [Unsynced, hsame, swapDirty_writer]; exact hunsynced)
      rw [hsame, swapDirty_dirty, if_pos ⟨hp, halive⟩] at this
      cases this
  · intro none p hp hunsynced
    obtain ⟨hp, halive⟩ := (hparticipants p).mp hp
    -- what is unsynced now was unsynced, hence dirty and reached
    have hbefore : r.Unsynced p :=
      unsynced_of_syncParticipants_unsynced (hafter ▸ hunsynced)
    obtain ⟨hdirty, hreached⟩ := none p hp halive hbefore
    rcases flushWriters_reached outcome r.nodup_dirtyParticipants r.swapDirty
      (mem_dirtyParticipants.mpr ⟨hp, halive, hdirty⟩) hreached with hsynced | ⟨hset, -⟩
    · rw [← syncParticipants, hafter] at hsynced
      exact absurd hunsynced hsynced
    · rwa [← syncParticipants, hafter] at hset

/-- A failed pass loses no obligation, and the next one that succeeds makes all earlier records
durable, exactly when the failed pass left none behind. -/
theorem failed_pass_keeps_obligations_iff (r after : Registry ι ρ) (outcome : ι → SyncOutcome)
    (message : String) (failed : r.syncParticipants outcome = (.error message, after)) :
    (after.Obliged ∧
      ∀ (appends : List (ι × ρ)) (outcome' : ι → SyncOutcome) (later : Registry ι ρ),
        (after.appendAll appends).syncParticipants outcome' = (.ok (), later) →
          ∀ p ∈ after.participants, ¬ later.Unsynced p) ↔
      r.NoneLeftBehind outcome := by
  rw [← obliged_of_failed_pass_iff failed]
  refine ⟨And.left, fun obliged => ⟨obliged, ?_⟩⟩
  intro appends outcome' later passed p hp
  obtain ⟨hparticipants, halive⟩ := appendAll_frame after appends
  -- appends set the flag of their participant, so obligations stay on record
  refine not_unsynced_of_syncParticipants_ok (appendAll_obliged obliged appends) passed
    (by rwa [hparticipants]) ?_
  have hafter : (r.syncParticipants outcome).2 = after := by rw [failed]
  rw [← hafter, syncParticipants_participants, List.mem_filter] at hp
  rw [halive, ← hafter, syncParticipants, (flushWriters_frame _ _ _).2.1]
  exact hp.2

def twoDirtyGroups : Registry ℕ String where
  participants := [0, 1]
  nodup := by decide
  sinks p := ⟨WalWriter.fresh.appendRecord (if p = 0 then "left" else "right"), true⟩
  alive _ := true

def fsyncFailsAt (failing : ℕ) (p : ℕ) : SyncOutcome :=
  if p = failing then .fsyncFailed "No space left on device" else .synced

/-- The first fsync fails, and the second group is left with an unsynced record and a clean flag. -/
theorem failed_pass_forgets_second_group :
    (twoDirtyGroups.syncParticipants (fsyncFailsAt 0)).1 = .error "No space left on device" ∧
      ¬ (twoDirtyGroups.syncParticipants (fsyncFailsAt 0)).2.Obliged ∧
      ∃ later, (twoDirtyGroups.syncParticipants (fsyncFailsAt 0)).2.syncParticipants
          (fun _ => .synced) = (.ok (), later) ∧ later.Unsynced 1 := by
  refine ⟨rfl, fun obliged => ?_, _, rfl, by decide⟩
  have := obliged 1 (by decide) (by decide)
  revert this
  decide

/-- When only the last group's fsync fails, nothing is left behind. -/
theorem failed_pass_keeps_obligations_last_group :
    (twoDirtyGroups.syncParticipants (fsyncFailsAt 1)).2.Obliged ∧
      ∀ (appends : List (ℕ × String)) (outcome' : ℕ → SyncOutcome) (later : Registry ℕ String),
        ((twoDirtyGroups.syncParticipants (fsyncFailsAt 1)).2.appendAll appends).syncParticipants
            outcome' = (.ok (), later) →
          ∀ p ∈ (twoDirtyGroups.syncParticipants (fsyncFailsAt 1)).2.participants,
            ¬ later.Unsynced p := by
  refine (failed_pass_keeps_obligations_iff twoDirtyGroups _ (fsyncFailsAt 1)
    "No space left on device" rfl).mpr ?_
  intro p hp _ _
  have : p = 0 ∨ p = 1 := by simpa [twoDirtyGroups] using hp
  rcases this with rfl | rfl <;> exact ⟨rfl, by decide⟩

end Registry

end Chirps.RaftStorage
