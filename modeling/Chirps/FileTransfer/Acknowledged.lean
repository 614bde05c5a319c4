/-
# Acknowledged chunks

A handler writes a journal record for a chunk, marks the chunk in memory and acknowledges it. After
a save between the first two, a crash loses an acknowledged chunk.
-/

import Chirps.FileTransfer.Handlers
import Chirps.FileTransfer.Install
import Chirps.Library.Table

namespace Chirps.FileTransfer

open Chirps.Library
open Function (update update_self)
open Option (ite_none_left_eq_some ite_none_right_eq_some any_eq_true map_eq_some_iff some_ne_none)

variable {κ : Type*}

def isDurable (c : ReceiveConfig κ) (m : TransferManifest κ) : Bool :=
  c.persistence && m.options.resumable

namespace Stage

/-- The task has a copy of the session to put into memory or to save, or has just put it there. -/
def isCopy : Stage κ → Bool
  | .copied _ | .built _ | .inserted | .saving _ _ _ => true
  | _ => false

def isPending : Stage κ → Bool
  | .inserted | .saving _ _ .manifest => true
  | _ => false

def isPlain : Stage κ → Bool
  | .acking _ _ _ | .saving _ .toRemove _ => false
  | _ => true

theorem isCopy_of_isPending {stage : Stage κ} (h : stage.isPending = true) :
    stage.isCopy = true := by
  cases stage with
  | inserted => rfl
  | saving s stage saver => rfl
  | _ => cases h

end Stage

namespace Handlers

/-- No task has a copy of the session. -/
def Uncopied (x : Handlers κ) : Prop :=
  ∀ task stage, x.tasks task = some stage → stage.isCopy = false

/-- No handler is between its record and its mark while another one has a copy. -/
def Exclusive (x : Handlers κ) : Prop :=
  ∀ task index, x.tasks task = some (.marking index) → x.Uncopied

/-- Chunks acknowledged in this life are in memory and, if the session is kept on disk, those of all
lives are loaded. -/
structure Remembers (c : ReceiveConfig κ) (m : TransferManifest κ) (x : Handlers κ) : Prop where
  memory : ∀ s, x.session = some s → ∀ i, (x.life, i) ∈ x.acks → i ∈ s.completed
  disk : isDurable c m = true → ∀ life i, (life, i) ∈ x.acks →
    ∃ s, x.load = some s ∧ i ∈ s.completed

/-! ## What is owed -/

def Owed (x : Handlers κ) (life i : ℕ) : Prop :=
  (life, i) ∈ x.acks ∨
    ∃ task index last, x.tasks task = some (.acking index life last) ∧ index.toNat = i

def Needed (c : ReceiveConfig κ) (m : TransferManifest κ) (x : Handlers κ) (i : ℕ) : Prop :=
  ∃ life, x.Owed life i ∧ (life = x.life ∨ isDurable c m = true)

def Stored (x : Handlers κ) (i : ℕ) : Prop := ∃ s, x.load = some s ∧ i ∈ s.completed

/-- There is a session file, and the journal has no unfinished record. -/
def Settled (x : Handlers κ) : Prop := (x.file ≠ none) ∧ progressRecord.Aligned x.progress

def Pending (x : Handlers κ) : Prop :=
  ∃ task stage, x.tasks task = some stage ∧ stage.isPending = true

structure Ours (m : TransferManifest κ) (s : TransferSession κ) : Prop where
  chunks : s.manifest.chunks.length = m.chunkCount
  count : s.manifest.chunkCount = m.chunkCount
  options : s.manifest.options = m.options

def TaskOk (c : ReceiveConfig κ) (m : TransferManifest κ) (x : Handlers κ) : Stage κ → Prop
  | .received index | .written index => index.toNat < m.chunkCount
  | .checkpointing index =>
    index.toNat < m.chunkCount ∧ isDurable c m = true ∧ (x.session = none → x.Settled)
  | .marking index =>
    index.toNat < m.chunkCount ∧ (isDurable c m = true → x.Stored index.toNat)
  | .acking index life _ => index.toNat < m.chunkCount ∧ life ≤ x.life
  | .loading => isDurable c m = true
  | .copied none => ∀ i, ¬ x.Needed c m i
  | .copied (some s) | .built s | .saving s _ _ => Ours m s ∧ ∀ i, x.Needed c m i → i ∈ s.completed
  | .inserted => isDurable c m = true → x.session = none → x.Settled
  | .finishing | .verifying | .placing => isDurable c m = true → x.Settled
  | .waiting _ | .stopping | .ready _ | .finalizing _ => True

structure Inv (c : ReceiveConfig κ) (m : TransferManifest κ) (x : Handlers κ) : Prop where
  session_ours : ∀ s, x.session = some s → Ours m s
  file_ours : ∀ s, x.file = some s → Ours m s
  life_le : ∀ life i, x.Owed life i → life ≤ x.life
  lt_count : ∀ i, x.Needed c m i → i < m.chunkCount
  memory : ∀ s, x.session = some s → ∀ i, x.Needed c m i → i ∈ s.completed
  absent : x.session = none → isDurable c m = false → ∀ i, ¬ x.Needed c m i
  stored : isDurable c m = true → ∀ i, x.Needed c m i → x.Stored i
  settled : isDurable c m = true → ∀ s, x.session = some s → x.Settled ∨ x.Pending
  removing : ∀ task s saver, x.guard = some task →
    x.tasks task = some (.saving s .toRemove saver) → x.file = some s
  tasks : ∀ task stage, x.tasks task = some stage → x.TaskOk c m stage

theorem Inv.remembers {c : ReceiveConfig κ} {m : TransferManifest κ} {x : Handlers κ}
    (inv : x.Inv c m) : x.Remembers c m where
  memory s hs i hi := inv.memory s hs i ⟨x.life, .inl hi, .inl rfl⟩
  disk hdurable life i hi := inv.stored hdurable i ⟨life, .inl hi, .inr hdurable⟩

theorem inv_initial {c : ReceiveConfig κ} {m : TransferManifest κ} :
    (initial : Handlers κ).Inv c m := by
  have howed : ∀ life i, ¬ (initial : Handlers κ).Owed life i := by
    rintro life i (hack | ⟨task, index, last, htask, -⟩)
    · exact absurd hack (Finset.notMem_empty _)
    · cases htask
  have hneeded : ∀ i, ¬ (initial : Handlers κ).Needed c m i :=
    fun i ⟨life, howes, _⟩ => howed life i howes
  exact {
    session_ours := fun s hs => by cases hs
    file_ours := fun s hs => by cases hs
    life_le := fun life i h => absurd h (howed life i)
    lt_count := fun i h => absurd h (hneeded i)
    memory := fun s hs => by cases hs
    absent := fun _ _ => hneeded
    stored := fun _ i h => absurd h (hneeded i)
    settled := fun _ s hs => by cases hs
    removing := fun task s saver hguard => by cases hguard
    tasks := fun task stage htask => by cases htask }

/-! ## Loading -/

variable {c : ReceiveConfig κ} {m : TransferManifest κ} {x y : Handlers κ} {task : ℕ}
  {stage : Option (Stage κ)}

variable {i : ℕ}

theorem stored_iff : x.Stored i ↔ ∃ s, x.file = some s ∧ (i ∈ s.completed ∨
    i < s.manifest.chunkCount ∧ ∃ index ∈ progressRecord.records x.progress, index.toNat = i) := by
  unfold Stored load Entry.load entry
  constructor
  · rintro ⟨s, hs, hi⟩
    obtain ⟨s, hfile, rfl⟩ := map_eq_some_iff.mp hs
    refine ⟨s, hfile, ?_⟩
    rcases Finset.mem_union.mp hi with hi | hi
    · exact .inl hi
    · obtain ⟨hmem, hlt⟩ := List.mem_filter.mp (List.mem_toFinset.mp hi)
      exact .inr ⟨of_decide_eq_true hlt, List.mem_map.mp hmem⟩
  · rintro ⟨s, hfile, hi⟩
    refine ⟨_, map_eq_some_iff.mpr ⟨s, hfile, rfl⟩, ?_⟩
    rcases hi with hi | ⟨hlt, hmem⟩
    · exact Finset.mem_union_left _ hi
    · exact Finset.mem_union_right _ (List.mem_toFinset.mpr
        (List.mem_filter.mpr ⟨List.mem_map.mpr hmem, decide_eq_true hlt⟩))

theorem Stored.append (h : x.Stored i) (hfile : y.file = x.file) {rest : Bytes}
    (hprogress : y.progress = x.progress ++ rest) : y.Stored i := by
  obtain ⟨s, hs, hi⟩ := stored_iff.mp h
  refine stored_iff.mpr ⟨s, hfile.trans hs, ?_⟩
  rcases hi with hi | ⟨hlt, index, hindex, rfl⟩
  · exact .inl hi
  · refine .inr ⟨hlt, index, ?_, rfl⟩
    rw [hprogress]
    exact (RecordCodec.records_prefix x.progress rest).subset hindex

variable {index : UInt32}

theorem Settled.append (h : x.Settled) (hfile : y.file = x.file)
    (hprogress : y.progress = x.progress ++ progressRecord.encode index) : y.Settled := by
  refine ⟨hfile ▸ h.1, ?_⟩
  rw [hprogress]
  exact h.2.append index

theorem Stored.same (h : x.Stored i) (hfile : y.file = x.file)
    (hprogress : y.progress = x.progress) : y.Stored i :=
  h.append hfile (hprogress.trans (List.append_nil _).symm)

theorem Settled.same (h : x.Settled) (hfile : y.file = x.file)
    (hprogress : y.progress = x.progress) : y.Settled := by
  rwa [Settled, hfile, hprogress]

/-! ## Steps that lose nothing -/

theorem section_cases {gone : Option (Handlers κ)} {found : TransferSession κ → Option (Handlers κ)}
    (h : (if x.locked then none else
      match x.session with
      | none => gone
      | some s => found s) = some y) :
    x.session = none ∧ gone = some y ∨ ∃ s, x.session = some s ∧ found s = some y := by
  obtain ⟨-, h⟩ := ite_none_left_eq_some.mp h
  split at h
  · rename_i hs
    exact .inl ⟨hs, h⟩
  · rename_i s hs
    exact .inr ⟨s, hs, h⟩

theorem tasks_of_put {task' : ℕ} {stage' : Stage κ}
    (htasks : y.tasks = update x.tasks task stage) (h : y.tasks task' = some stage') :
    task' = task ∧ stage = some stage' ∨ task' ≠ task ∧ x.tasks task' = some stage' := by
  rw [htasks] at h
  exact update_eq_some_iff.mp h

theorem TaskOk.mono {stage : Stage κ} (h : x.TaskOk c m stage)
    (needed : stage.isCopy = true → ∀ i, y.Needed c m i → x.Needed c m i)
    (stored : ∀ index, stage = .marking index → x.Stored index.toNat → y.Stored index.toNat)
    (settled : x.Settled → y.Settled) (life : x.life ≤ y.life)
    (hnone : isDurable c m = true → y.session = none → x.session = none ∨ y.Settled) :
    y.TaskOk c m stage := by
  cases stage with
  | checkpointing index =>
    refine ⟨h.1, h.2.1, fun hsession => ?_⟩
    rcases hnone h.2.1 hsession with hx | hy
    · exact settled (h.2.2 hx)
    · exact hy
  | marking index => exact ⟨h.1, fun hdurable => stored index rfl (h.2 hdurable)⟩
  | acking index life' last => exact ⟨h.1, h.2.trans life⟩
  | copied resume =>
    cases resume with
    | none => exact fun i hi => h i (needed rfl i hi)
    | some s => exact ⟨h.1, fun i hi => h.2 i (needed rfl i hi)⟩
  | built s => exact ⟨h.1, fun i hi => h.2 i (needed rfl i hi)⟩
  | saving s stage saver => exact ⟨h.1, fun i hi => h.2 i (needed rfl i hi)⟩
  | inserted =>
    intro hdurable hsession
    rcases hnone hdurable hsession with hx | hy
    · exact settled (h hdurable hx)
    · exact hy
  | finishing => exact fun hdurable => settled (h hdurable)
  | verifying => exact fun hdurable => settled (h hdurable)
  | placing => exact fun hdurable => settled (h hdurable)
  | _ => exact h

theorem Needed.of_owed (h : y.Needed c m i) (hlife : y.life = x.life)
    (howed : ∀ life i, y.Owed life i → x.Owed life i) : x.Needed c m i := by
  obtain ⟨life, howes, hcounts⟩ := h
  exact ⟨life, howed life i howes, hlife ▸ hcounts⟩

theorem Owed.of_put {life : ℕ} (h : y.Owed life i)
    (htasks : y.tasks = update x.tasks task stage) (hacks : y.acks = x.acks)
    (hstage : ∀ index life last, stage ≠ some (.acking index life last)) : x.Owed life i := by
  rcases h with hack | ⟨task', index, last, htask, hi⟩
  · exact .inl (hacks ▸ hack)
  · rcases tasks_of_put htasks htask with ⟨-, hnew⟩ | ⟨-, hold⟩
    · exact absurd hnew (hstage index life last)
    · exact .inr ⟨task', index, last, hold, hi⟩

theorem Pending.of_put (h : x.Pending) (htasks : y.tasks = update x.tasks task stage)
    (hold : ∀ old, x.tasks task = some old → old.isPending = true →
      ∃ new, stage = some new ∧ new.isPending = true) : y.Pending := by
  obtain ⟨task', old, htask, hpending⟩ := h
  by_cases heq : task' = task
  · obtain ⟨new, hnew, hpending⟩ := hold old (heq ▸ htask) hpending
    exact ⟨task, new, by rw [htasks, update_self, hnew], hpending⟩
  · exact ⟨task', old, by rw [htasks, Function.update_of_ne heq, htask], hpending⟩

structure Calm (m : TransferManifest κ) (x y : Handlers κ) (task : ℕ) (stage : Option (Stage κ)) :
    Prop where
  tasks : y.tasks = update x.tasks task stage
  file : y.file = x.file
  progress : y.progress = x.progress
  life : y.life = x.life
  owed : ∀ life i, y.Owed life i → x.Owed life i
  session : ∀ s, y.session = some s → Ours m s ∧
    ∃ s', x.session = some s' ∧ s'.completed ⊆ s.completed
  absent : y.session = none → x.session = none
  guard : ∀ task', task' ≠ task → y.guard = some task' → x.guard = some task'
  removing : ∀ s saver, stage ≠ some (.saving s .toRemove saver)

theorem Calm.stored (calm : Calm m x y task stage) (h : x.Stored i) : y.Stored i :=
  h.same calm.file calm.progress

theorem Calm.settled (calm : Calm m x y task stage) (h : x.Settled) : y.Settled :=
  h.same calm.file calm.progress

theorem Calm.inv (calm : Calm m x y task stage) (inv : x.Inv c m)
    (hpending : ∀ old, x.tasks task = some old → old.isPending = true →
      (∃ new, stage = some new ∧ new.isPending = true) ∨
        (isDurable c m = true → y.session ≠ none → x.Settled))
    (hstage : ∀ new, stage = some new → x.TaskOk c m new) : y.Inv c m := by
  have hneeded : ∀ i, y.Needed c m i → x.Needed c m i :=
    fun i h => h.of_owed calm.life calm.owed
  have hmono : ∀ stage, x.TaskOk c m stage → y.TaskOk c m stage := fun stage h =>
    h.mono (fun _ => hneeded) (fun _ _ => calm.stored) calm.settled calm.life.ge
      fun _ hnone => .inl (calm.absent hnone)
  exact {
    session_ours := fun s hs => (calm.session s hs).1
    file_ours := fun s hs => inv.file_ours s (calm.file ▸ hs)
    life_le := fun life i h => calm.life ▸ inv.life_le life i (calm.owed life i h)
    lt_count := fun i hi => inv.lt_count i (hneeded i hi)
    memory := fun s hs i hi => by
      obtain ⟨-, s', hs', hsub⟩ := calm.session s hs
      exact hsub (inv.memory s' hs' i (hneeded i hi))
    absent := fun hnone hdurable i hi => inv.absent (calm.absent hnone) hdurable i (hneeded i hi)
    stored := fun hdurable i hi => calm.stored (inv.stored hdurable i (hneeded i hi))
    settled := fun hdurable s hs => by
      obtain ⟨-, s', hs', -⟩ := calm.session s hs
      rcases inv.settled hdurable s' hs' with hsettled | hpend
      · exact .inl (calm.settled hsettled)
      by_cases hold : ∃ old, x.tasks task = some old ∧ old.isPending = true
      · obtain ⟨old, htask, hpend'⟩ := hold
        rcases hpending old htask hpend' with hnew | hsettled
        · exact .inr (hpend.of_put calm.tasks fun _ _ _ => hnew)
        · exact .inl (calm.settled (hsettled hdurable (by rw [hs]; exact some_ne_none s)))
      · exact .inr (hpend.of_put calm.tasks fun old htask h => absurd ⟨old, htask, h⟩ hold)
    removing := fun task' s saver hguard htask => by
      rcases tasks_of_put calm.tasks htask with ⟨-, hnew⟩ | ⟨hne, hold⟩
      · exact absurd hnew (calm.removing s saver)
      · rw [calm.file]
        exact inv.removing task' s saver (calm.guard task' hne hguard) hold
    tasks := fun task' stage' htask => by
      rcases tasks_of_put calm.tasks htask with ⟨-, hnew⟩ | ⟨-, hold⟩
      · exact hmono stage' (hstage stage' hnew)
      · exact hmono stage' (inv.tasks task' stage' hold) }

def Idle (x : Handlers κ) (task : ℕ) : Prop :=
  ∀ old, x.tasks task = some old → old.isPending = false

theorem idle_of_task {old : Stage κ} (htask : x.tasks task = some old)
    (hold : old.isPending = false) : x.Idle task := by
  intro old' htask'
  cases htask.symm.trans htask'
  exact hold

theorem Inv.goto (inv : x.Inv c m) {new : Stage κ}
    (hpending : ∀ old, x.tasks task = some old → old.isPending = true →
      new.isPending = true ∨ (isDurable c m = true → x.session ≠ none → x.Settled))
    (hplain : new.isPlain = true) (hok : x.TaskOk c m new) : (x.put task (some new)).Inv c m := by
  have calm : Calm m x (x.put task (some new)) task (some new) := {
    tasks := rfl
    file := rfl
    progress := rfl
    life := rfl
    owed := fun _ _ h => h.of_put rfl rfl fun _ _ _ heq => by
      cases heq
      cases hplain
    session := fun s hs => ⟨inv.session_ours s hs, s, hs, subset_rfl⟩
    absent := id
    guard := fun _ _ => id
    removing := fun _ _ heq => by
      cases heq
      cases hplain }
  refine calm.inv inv (fun old htask hold => ?_) fun new' hnew => ?_
  · exact (hpending old htask hold).imp_left fun h => ⟨new, rfl, h⟩
  · cases hnew
    exact hok

theorem Inv.done (inv : x.Inv c m) (idle : x.Idle task) : (x.put task none).Inv c m := by
  have calm : Calm m x (x.put task none) task none :=
    ⟨rfl, rfl, rfl, rfl, fun _ _ h => h.of_put rfl rfl fun _ _ _ heq => (by cases heq),
      fun s hs => ⟨inv.session_ours s hs, s, hs, subset_rfl⟩, id, fun _ _ => id,
      fun _ _ heq => (by cases heq)⟩
  refine calm.inv inv (fun old htask hold => ?_) fun _ hnew => (by cases hnew)
  rw [idle old htask] at hold
  cases hold

/-- A save that fails, other than that of a manifest, leaves everything as it was. -/
theorem Inv.saved (inv : x.Inv c m) (idle : x.Idle task) {saver : Saver}
    (hsaver : saver ≠ .manifest) : (x.saved task saver x.progress).Inv c m := by
  have calm : Calm m x (x.saved task saver x.progress) task none := {
    tasks := congrArg (update x.tasks task) (if_neg hsaver)
    file := rfl
    progress := rfl
    life := rfl
    owed := fun _ _ h => h.of_put (congrArg (update x.tasks task) (if_neg hsaver)) rfl
      fun _ _ _ heq => (by cases heq)
    session := fun s hs => ⟨inv.session_ours s hs, s, hs, subset_rfl⟩
    absent := id
    guard := fun _ _ h => (by cases h)
    removing := fun _ _ heq => (by cases heq) }
  refine calm.inv inv (fun old htask hold => ?_) fun _ hnew => (by cases hnew)
  rw [idle old htask] at hold
  cases hold

theorem Inv.goto_of_idle (inv : x.Inv c m) (idle : x.Idle task) {new : Stage κ}
    (hplain : new.isPlain = true) (hok : x.TaskOk c m new) : (x.put task (some new)).Inv c m := by
  refine inv.goto (fun old htask hold => ?_) hplain hok
  rw [idle old htask] at hold
  cases hold

variable {s s' : TransferSession κ}

theorem Inv.setSession (inv : x.Inv c m) (idle : x.Idle task) (hs : x.session = some s)
    (hours : Ours m s') (hcompleted : s'.completed = s.completed)
    (htasks : y.tasks = update x.tasks task stage) (hlife : y.life = x.life)
    (hacks : y.acks = x.acks) (hsession : y.session = some s') (hfile : y.file = x.file)
    (hprogress : y.progress = x.progress) (hguard : y.guard = x.guard)
    (hstage : ∀ new, stage = some new → ∃ saver, new = .saving s' .toWrite saver) : y.Inv c m := by
  have calm : Calm m x y task stage := {
    tasks := htasks
    file := hfile
    progress := hprogress
    life := hlife
    owed := fun _ _ h => h.of_put htasks hacks fun _ _ _ heq => by
      obtain ⟨saver, hnew⟩ := hstage _ heq
      cases hnew
    session := fun s'' hs'' => by
      cases hsession.symm.trans hs''
      exact ⟨hours, s, hs, hcompleted.ge⟩
    absent := fun h => by
      cases hsession.symm.trans h
    guard := fun _ _ h => hguard ▸ h
    removing := fun _ _ heq => by
      obtain ⟨saver, hnew⟩ := hstage _ heq
      cases hnew }
  refine calm.inv inv (fun old htask hold => ?_) fun new hnew => ?_
  · rw [idle old htask] at hold
    cases hold
  · obtain ⟨saver, rfl⟩ := hstage new hnew
    exact ⟨hours, fun i hi => hcompleted ▸ inv.memory s hs i hi⟩

theorem Inv.ack (inv : x.Inv c m) {index : UInt32} {life : ℕ} {last : Bool}
    (htask : x.tasks task = some (.acking index life last))
    (htasks : y.tasks = update x.tasks task (if last then some (.finalizing none) else none))
    (hlife : y.life = x.life) (hacks : y.acks = Insert.insert (life, index.toNat) x.acks)
    (hsession : y.session = x.session) (hfile : y.file = x.file)
    (hprogress : y.progress = x.progress) (hguard : y.guard = x.guard) : y.Inv c m := by
  have hstage : ∀ new : Stage κ, (if last then some (.finalizing none) else none) = some new →
      new = .finalizing none := by
    intro new hnew
    cases last with
    | true => exact (Option.some.inj hnew).symm
    | false => cases hnew
  have calm : Calm m x y task (if last then some (.finalizing none) else none) := {
    tasks := htasks
    file := hfile
    progress := hprogress
    life := hlife
    owed := by
      rintro life' i (hack | ⟨task', index', last', htask', hi⟩)
      · rw [hacks] at hack
        rcases Finset.mem_insert.mp hack with heq | hack
        · cases heq
          exact .inr ⟨task, index, last, htask, rfl⟩
        · exact .inl hack
      · rcases tasks_of_put htasks htask' with ⟨-, hnew⟩ | ⟨-, hold⟩
        · cases hstage _ hnew
        · exact .inr ⟨task', index', last', hold, hi⟩
    session := fun s hs => ⟨inv.session_ours s (hsession ▸ hs), s, hsession ▸ hs, subset_rfl⟩
    absent := fun h => hsession ▸ h
    guard := fun _ _ h => hguard ▸ h
    removing := fun _ _ heq => by cases hstage _ heq }
  refine calm.inv inv (fun old hold hpending => ?_) fun new hnew => ?_
  · cases htask.symm.trans hold
    cases hpending
  · obtain rfl := hstage new hnew
    trivial

/-! ## The journal and the session file -/

theorem Uncopied.not_pending (uncopied : x.Uncopied) : ¬ x.Pending := by
  rintro ⟨task, stage, htask, hpending⟩
  have hcopy := uncopied task stage htask
  rw [Stage.isCopy_of_isPending hpending] at hcopy
  cases hcopy

structure Moves (x y : Handlers κ) (task : ℕ) (stage : Option (Stage κ)) : Prop where
  tasks : y.tasks = update x.tasks task stage
  life : y.life = x.life
  acks : y.acks = x.acks
  acking : ∀ index life last, stage ≠ some (.acking index life last)

namespace Moves

variable {i : ℕ}

theorem owed (moves : Moves x y task stage) {life : ℕ} (h : y.Owed life i) : x.Owed life i :=
  h.of_put moves.tasks moves.acks moves.acking

theorem needed (moves : Moves x y task stage) (h : y.Needed c m i) : x.Needed c m i :=
  h.of_owed moves.life fun _ _ => moves.owed

theorem life_le (moves : Moves x y task stage) (inv : x.Inv c m) {life : ℕ} (h : y.Owed life i) :
    life ≤ y.life :=
  moves.life ▸ inv.life_le life i (moves.owed h)

end Moves

theorem Inv.checkpoint (inv : x.Inv c m) (htask : x.tasks task = some (.checkpointing index))
    (uncopied : x.Uncopied) (moves : Moves x y task (some (.marking index)))
    (hsession : y.session = x.session) (hfile : y.file = x.file) (hguard : y.guard = none)
    (hprogress : y.progress = x.progress ++ progressRecord.encode index) : y.Inv c m := by
  obtain ⟨hlt, hdurable, habsent⟩ := inv.tasks task _ htask
  have hsettled : x.Settled := by
    cases hs : x.session with
    | none => exact habsent hs
    | some s =>
      exact (inv.settled hdurable s hs).resolve_right uncopied.not_pending
  have hstored : ∀ {i}, x.Stored i → y.Stored i := fun h => h.append hfile hprogress
  have hsettled' : x.Settled → y.Settled := fun h => h.append hfile hprogress
  exact {
    session_ours := fun s hs => inv.session_ours s (hsession ▸ hs)
    file_ours := fun s hs => inv.file_ours s (hfile ▸ hs)
    life_le := fun _ _ => moves.life_le inv
    lt_count := fun i hi => inv.lt_count i (moves.needed hi)
    memory := fun s hs i hi => inv.memory s (hsession ▸ hs) i (moves.needed hi)
    absent := fun hnone hdurable i hi => inv.absent (hsession ▸ hnone) hdurable i (moves.needed hi)
    stored := fun hdurable i hi => hstored (inv.stored hdurable i (moves.needed hi))
    settled := fun _ _ _ => .inl (hsettled' hsettled)
    removing := fun task' s saver hguard' => by
      cases hguard.symm.trans hguard'
    tasks := fun task' stage' htask' => by
      rcases tasks_of_put moves.tasks htask' with ⟨-, hstage⟩ | ⟨-, hold⟩
      · cases hstage
        refine ⟨hlt, fun _ => ?_⟩
        obtain ⟨s, hs⟩ := Option.ne_none_iff_exists'.mp hsettled.1
        refine stored_iff.mpr ⟨s, hfile.trans hs, .inr ⟨?_, index, ?_, rfl⟩⟩
        · rw [(inv.file_ours s hs).count]
          exact hlt
        · rw [hprogress]
          exact hsettled.2.mem_records_append index
      · exact (inv.tasks task' stage' hold).mono (fun _ _ => moves.needed) (fun _ _ => hstored)
          hsettled' moves.life.ge fun _ hnone => .inl (hsession ▸ hnone) }

theorem Inv.insert (inv : x.Inv c m) (htask : x.tasks task = some (.built s))
    (moves : Moves x y task (some .inserted)) (hsession : y.session = some s)
    (hfile : y.file = x.file) (hprogress : y.progress = x.progress) (hguard : y.guard = x.guard) :
    y.Inv c m := by
  obtain ⟨hours, hcovers⟩ := inv.tasks task _ htask
  have hstored : ∀ {i}, x.Stored i → y.Stored i := fun h => h.same hfile hprogress
  have hsettled : x.Settled → y.Settled := fun h => h.same hfile hprogress
  exact {
    session_ours := fun s' hs' => by
      cases hsession.symm.trans hs'
      exact hours
    file_ours := fun s hs => inv.file_ours s (hfile ▸ hs)
    life_le := fun _ _ => moves.life_le inv
    lt_count := fun i hi => inv.lt_count i (moves.needed hi)
    memory := fun s' hs' i hi => by
      cases hsession.symm.trans hs'
      exact hcovers i (moves.needed hi)
    absent := fun hnone => by
      cases hsession.symm.trans hnone
    stored := fun hdurable i hi => hstored (inv.stored hdurable i (moves.needed hi))
    settled := fun _ _ _ => .inr
      ⟨task, .inserted, by rw [moves.tasks, update_self], rfl⟩
    removing := fun task' s' saver hguard' htask' => by
      rcases tasks_of_put moves.tasks htask' with ⟨-, hstage⟩ | ⟨-, hold⟩
      · cases hstage
      · exact hfile.trans (inv.removing task' s' saver (hguard ▸ hguard') hold)
    tasks := fun task' stage' htask' => by
      have hnone : y.session ≠ none := by
        rw [hsession]
        exact some_ne_none s
      rcases tasks_of_put moves.tasks htask' with ⟨-, hstage⟩ | ⟨-, hold⟩
      · cases hstage
        exact fun _ h => absurd h hnone
      · exact (inv.tasks task' stage' hold).mono (fun _ _ => moves.needed) (fun _ _ => hstored)
          hsettled moves.life.ge fun _ h => absurd h hnone }

variable {saver : Saver}

theorem Inv.opens (inv : x.Inv c m) (htask : x.tasks task = some (.saving s .toWrite saver))
    (htasks : y.tasks = update x.tasks task (some (.saving s .toRename saver)))
    (hlife : y.life = x.life) (hacks : y.acks = x.acks) (hsession : y.session = x.session)
    (hfile : y.file = x.file) (hprogress : y.progress = x.progress) (hguard : y.guard = some task) :
    y.Inv c m := by
  have calm : Calm m x y task (some (.saving s .toRename saver)) := {
    tasks := htasks
    file := hfile
    progress := hprogress
    life := hlife
    owed := fun _ _ h => h.of_put htasks hacks fun _ _ _ heq => (by cases heq)
    session := fun s hs => ⟨inv.session_ours s (hsession ▸ hs), s, hsession ▸ hs, subset_rfl⟩
    absent := fun h => hsession ▸ h
    guard := fun task' hne h => absurd (Option.some.inj (h.symm.trans hguard)) hne
    removing := fun _ _ heq => (by cases heq) }
  refine calm.inv inv (fun old hold hpending => .inl ⟨_, rfl, ?_⟩) fun new hnew => ?_
  · cases htask.symm.trans hold
    cases saver with
    | manifest => rfl
    | _ => cases hpending
  · cases hnew
    have hok : x.TaskOk c m (.saving s .toWrite saver) := inv.tasks task _ htask
    exact hok

theorem Inv.rename (inv : x.Inv c m) (exclusive : x.Exclusive)
    (htask : x.tasks task = some (.saving s .toRename saver))
    (moves : Moves x y task (some (.saving s .toRemove saver))) (hsession : y.session = x.session)
    (hfile : y.file = some s) (hprogress : y.progress = x.progress) (hguard : y.guard = some task) :
    y.Inv c m := by
  obtain ⟨hours, hcovers⟩ := inv.tasks task _ htask
  have hsettled : x.Settled → y.Settled := fun h => by
    refine ⟨?_, ?_⟩
    · rw [hfile]
      exact some_ne_none s
    · rw [hprogress]
      exact h.2
  exact {
    session_ours := fun s hs => inv.session_ours s (hsession ▸ hs)
    file_ours := fun s' hs' => by
      cases hfile.symm.trans hs'
      exact hours
    life_le := fun _ _ => moves.life_le inv
    lt_count := fun i hi => inv.lt_count i (moves.needed hi)
    memory := fun s hs i hi => inv.memory s (hsession ▸ hs) i (moves.needed hi)
    absent := fun hnone hdurable i hi => inv.absent (hsession ▸ hnone) hdurable i (moves.needed hi)
    stored := fun _ i hi => stored_iff.mpr ⟨s, hfile, .inl (hcovers i (moves.needed hi))⟩
    settled := fun hdurable s' hs' => by
      rcases inv.settled hdurable s' (hsession ▸ hs') with h | hpending
      · exact .inl (hsettled h)
      · refine .inr (hpending.of_put moves.tasks fun old hold hpending' => ⟨_, rfl, ?_⟩)
        cases htask.symm.trans hold
        cases saver with
        | manifest => rfl
        | _ => cases hpending'
    removing := fun task' s' saver' hguard' htask' => by
      rcases tasks_of_put moves.tasks htask' with ⟨-, hstage⟩ | ⟨hne, -⟩
      · cases hstage
        exact hfile
      · exact absurd (Option.some.inj (hguard'.symm.trans hguard)) hne
    tasks := fun task' stage' htask' => by
      rcases tasks_of_put moves.tasks htask' with ⟨-, hstage⟩ | ⟨-, hold⟩
      · cases hstage
        exact ⟨hours, fun i hi => hcovers i (moves.needed hi)⟩
      · refine (inv.tasks task' stage' hold).mono (fun _ _ => moves.needed) ?_ hsettled
          moves.life.ge fun _ hnone => .inl (hsession ▸ hnone)
        -- a handler between record and mark would meet this copy
        rintro index rfl -
        cases exclusive task' index hold task _ htask }

theorem Inv.remove (inv : x.Inv c m) (exclusive : x.Exclusive)
    (htask : x.tasks task = some (.saving s .toRemove saver)) (hguard : x.guard = some task)
    (moves : Moves x y task stage) (hsession : y.session = x.session) (hfile : y.file = x.file)
    (hprogress : y.progress = []) (hguard' : y.guard = none)
    (hstage : ∀ new, stage = some new → new = .finishing) : y.Inv c m := by
  obtain ⟨hours, hcovers⟩ := inv.tasks task _ htask
  have hs : y.file = some s := hfile.trans (inv.removing task s saver hguard htask)
  have hsettled : y.Settled := by
    refine ⟨?_, ?_⟩
    · rw [hs]
      exact some_ne_none s
    · rw [hprogress]
      exact RecordCodec.aligned_nil
  exact {
    session_ours := fun s hs => inv.session_ours s (hsession ▸ hs)
    file_ours := fun s hs => inv.file_ours s (hfile ▸ hs)
    life_le := fun _ _ => moves.life_le inv
    lt_count := fun i hi => inv.lt_count i (moves.needed hi)
    memory := fun s hs i hi => inv.memory s (hsession ▸ hs) i (moves.needed hi)
    absent := fun hnone hdurable i hi => inv.absent (hsession ▸ hnone) hdurable i (moves.needed hi)
    stored := fun _ i hi => stored_iff.mpr ⟨s, hs, .inl (hcovers i (moves.needed hi))⟩
    settled := fun _ _ _ => .inl hsettled
    removing := fun task' s saver h => by
      cases hguard'.symm.trans h
    tasks := fun task' stage' htask' => by
      rcases tasks_of_put moves.tasks htask' with ⟨-, hnew⟩ | ⟨-, hold⟩
      · obtain rfl := hstage stage' hnew
        exact fun _ => hsettled
      · refine (inv.tasks task' stage' hold).mono (fun _ _ => moves.needed) ?_ (fun _ => hsettled)
          moves.life.ge fun _ _ => .inr hsettled
        rintro index rfl -
        cases exclusive task' index hold task _ htask }

/-! ## Marking and forgetting -/

theorem Inv.mark (inv : x.Inv c m) (exclusive : x.Exclusive) {last : Bool}
    (htask : x.tasks task = some (.marking index)) (hs : x.session = some s)
    (htasks : y.tasks = update x.tasks task (some (.acking index x.life last)))
    (hlife : y.life = x.life) (hacks : y.acks = x.acks)
    (hsession : y.session = some (s.advance index.toNat)) (hfile : y.file = x.file)
    (hprogress : y.progress = x.progress) : y.Inv c m := by
  obtain ⟨hlt, hrecord⟩ := inv.tasks task _ htask
  have howed : ∀ life i, y.Owed life i → x.Owed life i ∨ life = x.life ∧ i = index.toNat := by
    rintro life i (hack | ⟨task', index', last', htask', rfl⟩)
    · exact .inl (.inl (hacks ▸ hack))
    · rcases tasks_of_put htasks htask' with ⟨-, hstage⟩ | ⟨-, hold⟩
      · cases hstage
        exact .inr ⟨rfl, rfl⟩
      · exact .inl (.inr ⟨task', index', last', hold, rfl⟩)
  have hneeded : ∀ i, y.Needed c m i → x.Needed c m i ∨ i = index.toNat := by
    rintro i ⟨life, howes, hcounts⟩
    rcases howed life i howes with h | ⟨-, rfl⟩
    · exact .inl ⟨life, h, hlife ▸ hcounts⟩
    · exact .inr rfl
  have hstored : ∀ {i}, x.Stored i → y.Stored i := fun h => h.same hfile hprogress
  have hsettled : x.Settled → y.Settled := fun h => h.same hfile hprogress
  have hnone : y.session ≠ none := by
    rw [hsession]
    exact some_ne_none _
  exact {
    session_ours := fun s' hs' => by
      cases hsession.symm.trans hs'
      exact ⟨(inv.session_ours s hs).chunks, (inv.session_ours s hs).count,
        (inv.session_ours s hs).options⟩
    file_ours := fun s hs => inv.file_ours s (hfile ▸ hs)
    life_le := fun life i h => by
      rw [hlife]
      rcases howed life i h with h | ⟨rfl, -⟩
      · exact inv.life_le life i h
      · exact le_rfl
    lt_count := fun i hi => by
      rcases hneeded i hi with h | rfl
      · exact inv.lt_count i h
      · exact hlt
    memory := fun s' hs' i hi => by
      cases hsession.symm.trans hs'
      rcases hneeded i hi with h | rfl
      · exact Finset.mem_insert_of_mem (inv.memory s hs i h)
      · exact Finset.mem_insert_self _ _
    absent := fun h => absurd h hnone
    stored := fun hdurable i hi => by
      rcases hneeded i hi with h | rfl
      · exact hstored (inv.stored hdurable i h)
      · exact hstored (hrecord hdurable)
    settled := fun hdurable _ _ => .inl (hsettled
      ((inv.settled hdurable s hs).resolve_right
        (exclusive task index htask).not_pending))
    removing := fun task' s' saver _ htask' => by
      rcases tasks_of_put htasks htask' with ⟨-, hstage⟩ | ⟨-, hold⟩
      · cases hstage
      · cases exclusive task index htask task' _ hold
    tasks := fun task' stage' htask' => by
      rcases tasks_of_put htasks htask' with ⟨-, hstage⟩ | ⟨-, hold⟩
      · cases hstage
        exact ⟨hlt, hlife.ge⟩
      · refine (inv.tasks task' stage' hold).mono (fun hcopy => ?_) (fun _ _ => hstored) hsettled
          hlife.ge fun _ h => absurd h hnone
        -- no other task has a copy that could miss the chunk
        rw [exclusive task index htask task' stage' hold] at hcopy
        cases hcopy }

theorem Needed.of_new_life (h : y.Needed c m i) (inv : x.Inv c m) (hlife : y.life = x.life + 1)
    (howed : ∀ life i, y.Owed life i → x.Owed life i) : isDurable c m = true ∧ x.Needed c m i := by
  obtain ⟨life, howes, hcounts⟩ := h
  rcases hcounts with heq | hdurable
  · have hle := inv.life_le life i (howed life i howes)
    omega
  · exact ⟨hdurable, life, howed life i howes, .inr hdurable⟩

theorem Inv.forget (inv : x.Inv c m) (hlife : y.life = x.life + 1)
    (howed : ∀ life i, y.Owed life i → x.Owed life i) (hsession : y.session = none)
    (hfile : y.file = x.file) {rest : Bytes} (hprogress : y.progress = x.progress ++ rest)
    (hremoving : ∀ task s saver, y.guard = some task →
      y.tasks task = some (.saving s .toRemove saver) → x.file = some s)
    (htasks : ∀ task stage, y.tasks task = some stage → x.TaskOk c m stage ∧
      x.progress = y.progress ∧ (isDurable c m = true → x.Settled)) : y.Inv c m := by
  have hneeded : ∀ i, y.Needed c m i → isDurable c m = true ∧ x.Needed c m i :=
    fun i h => h.of_new_life inv hlife howed
  have hstored : ∀ {i}, x.Stored i → y.Stored i := fun h => h.append hfile hprogress
  exact {
    session_ours := fun s hs => by
      cases hsession.symm.trans hs
    file_ours := fun s hs => inv.file_ours s (hfile ▸ hs)
    life_le := fun life i h => by
      have hle := inv.life_le life i (howed life i h)
      omega
    lt_count := fun i hi => inv.lt_count i (hneeded i hi).2
    memory := fun s hs => by
      cases hsession.symm.trans hs
    absent := fun _ hdurable i hi => by
      rw [(hneeded i hi).1] at hdurable
      cases hdurable
    stored := fun hdurable i hi => hstored (inv.stored hdurable i (hneeded i hi).2)
    settled := fun _ s hs => by
      cases hsession.symm.trans hs
    removing := fun task s saver hguard htask =>
      hfile.trans (hremoving task s saver hguard htask)
    tasks := fun task stage htask => by
      obtain ⟨hok, hsame, hx⟩ := htasks task stage htask
      have hsettled : x.Settled → y.Settled := fun h => by rwa [Settled, hfile, ← hsame]
      exact hok.mono (fun _ i hi => (hneeded i hi).2) (fun _ _ => hstored) hsettled (by omega)
        fun hdurable _ => .inr (hsettled (hx hdurable)) }

/-! ## Runs -/

theorem Ours.of_manifest (h : Ours m s) (hsame : s'.manifest = s.manifest) : Ours m s' :=
  ⟨hsame ▸ h.chunks, hsame ▸ h.count, hsame ▸ h.options⟩

theorem Ours.saves (h : Ours m s) : saves c s = isDurable c m := by
  rw [Handlers.saves, isDurable, h.options]

theorem ours_finalized (h : Ours m s) (ok : Bool) (fileHash : Option Bytes) :
    Ours m (finalized s ok fileHash) := by
  cases ok with
  | true => exact ⟨h.chunks, h.count, h.options⟩
  | false => exact h.of_manifest rfl

theorem completed_finalized (ok : Bool) (fileHash : Option Bytes) :
    (finalized s ok fileHash).completed = s.completed := by
  cases ok <;> rfl

theorem apply_eq_some {call : ControlCall} (h : call.apply s = some s') :
    s'.completed = s.completed ∧ s'.manifest = s.manifest := by
  cases call with
  | pauseTransfer =>
    obtain ⟨-, ⟨⟩⟩ := ite_none_right_eq_some.mp h
    exact ⟨rfl, rfl⟩
  | resumeTransfer =>
    rw [ControlCall.apply] at h
    split at h <;> cases h <;> exact ⟨rfl, rfl⟩
  | cancelTransfer =>
    rw [ControlCall.apply] at h
    split at h
    · cases h
      exact ⟨rfl, rfl⟩
    obtain ⟨-, ⟨⟩⟩ := ite_none_right_eq_some.mp h
    exact ⟨rfl, rfl⟩
  | cancel =>
    cases h
    exact ⟨rfl, rfl⟩

section

variable (inv : x.Inv c m)
include inv

theorem Inv.change (idle : x.Idle task)
    {call : TransferSession κ → Option (TransferSession κ)}
    (hcall : ∀ s s', call s = some s' → s'.completed = s.completed ∧ s'.manifest = s.manifest)
    (hstep : x.change c task call = some y) : y.Inv c m := by
  obtain ⟨-, hstep⟩ := ite_none_left_eq_some.mp hstep
  split at hstep
  · cases hstep
    exact inv.done idle
  rename_i s' hs'
  obtain ⟨s, hs, hsome⟩ := Option.bind_eq_some_iff.mp hs'
  obtain ⟨hcompleted, hmanifest⟩ := hcall s s' hsome
  have hours := (inv.session_ours s hs).of_manifest hmanifest
  split at hstep <;> cases hstep
  · refine inv.setSession idle hs hours hcompleted rfl rfl rfl rfl rfl rfl rfl fun new hnew => ?_
    exact ⟨.locked, (Option.some.inj hnew).symm⟩
  · exact inv.setSession idle hs hours hcompleted rfl rfl rfl rfl rfl rfl rfl
      fun new hnew => (by cases hnew)

theorem Inv.setState (idle : x.Idle task) {state : TransferState}
    (htasks : y.tasks = update x.tasks task none) (hlife : y.life = x.life)
    (hacks : y.acks = x.acks)
    (hsession : y.session = x.session.map fun s => { s with state := state })
    (hfile : y.file = x.file) (hprogress : y.progress = x.progress) (hguard : y.guard = x.guard) :
    y.Inv c m := by
  have calm : Calm m x y task none := {
    tasks := htasks
    file := hfile
    progress := hprogress
    life := hlife
    owed := fun _ _ h => h.of_put htasks hacks fun _ _ _ heq => (by cases heq)
    session := fun s hs => by
      rw [hsession] at hs
      obtain ⟨s', hs', rfl⟩ := map_eq_some_iff.mp hs
      exact ⟨(inv.session_ours s' hs').of_manifest rfl, s', hs', subset_rfl⟩
    absent := fun h => by
      rw [hsession] at h
      exact Option.map_eq_none_iff.mp h
    guard := fun _ _ h => hguard ▸ h
    removing := fun _ _ heq => (by cases heq) }
  refine calm.inv inv (fun old htask hold => ?_) fun new hnew => (by cases hnew)
  rw [idle old htask] at hold
  cases hold

theorem covers_newSession {resume : Option (TransferSession κ)} {dest : Path}
    (hok : x.TaskOk c m (.copied resume)) (hi : x.Needed c m i) :
    i ∈ (Entry.newSession m dest resume).completed := by
  refine Finset.mem_filter.mpr ⟨?_, inv.lt_count i hi⟩
  cases resume with
  | none => exact absurd hi (hok i)
  | some s => exact hok.2 i hi

variable {ok : Bool} {resume : Option (TransferSession κ)} {fileHash : Option Bytes}

theorem Inv.next_ready (htask : x.tasks task = some (.ready index))
    (hstep : x.next c m task ok (.ready index) = some y) : y.Inv c m := by
  have idle := idle_of_task htask rfl
  rcases section_cases hstep with ⟨-, hstep⟩ | ⟨s, hs, hstep⟩ <;> cases hstep
  · exact inv.done idle
  split
  · rename_i hlt
    rw [(inv.session_ours s hs).chunks] at hlt
    exact inv.goto_of_idle idle rfl hlt
  · exact inv.done idle

theorem Inv.next_written (htask : x.tasks task = some (.written index))
    (hstep : x.next c m task ok (.written index) = some y) : y.Inv c m := by
  have hok := inv.tasks task _ htask
  have idle := idle_of_task htask rfl
  rcases section_cases hstep with ⟨-, hstep⟩ | ⟨s, hs, hstep⟩
  · cases hstep
    exact inv.done idle
  split at hstep <;> cases hstep
  · exact inv.done idle
  rw [(inv.session_ours s hs).saves]
  split
  · rename_i hdurable
    refine inv.goto_of_idle idle rfl ⟨hok, hdurable, fun hnone => ?_⟩
    cases hs.symm.trans hnone
  · rename_i hdurable
    exact inv.goto_of_idle idle rfl ⟨hok, fun h => absurd h hdurable⟩

theorem Inv.next_checkpointing (uncopied : x.Uncopied)
    (htask : x.tasks task = some (.checkpointing index))
    (hstep : x.next c m task ok (.checkpointing index) = some y) : y.Inv c m := by
  obtain ⟨hguard, hstep⟩ := ite_none_left_eq_some.mp hstep
  split at hstep <;> cases hstep
  · exact inv.checkpoint htask uncopied ⟨rfl, rfl, rfl, fun _ _ _ heq => (by cases heq)⟩ rfl rfl
      (not_not.mp hguard) rfl
  · exact inv.done (idle_of_task htask rfl)

theorem Inv.next_marking (before : x.Exclusive) (htask : x.tasks task = some (.marking index))
    (hstep : x.next c m task ok (.marking index) = some y) : y.Inv c m := by
  have idle := idle_of_task htask rfl
  rcases section_cases hstep with ⟨-, hstep⟩ | ⟨s, hs, hstep⟩
  · cases hstep
    exact inv.done idle
  split at hstep <;> cases hstep
  · exact inv.done idle
  · exact inv.mark before htask hs rfl rfl rfl rfl rfl rfl

theorem Inv.next_finalizing (htask : x.tasks task = some (.finalizing fileHash))
    (hstep : x.next c m task ok (.finalizing fileHash) = some y) : y.Inv c m := by
  have idle := idle_of_task htask rfl
  rcases section_cases hstep with ⟨-, hstep⟩ | ⟨s, hs, hstep⟩ <;> cases hstep
  · exact inv.done idle
  refine inv.setSession idle hs (ours_finalized (inv.session_ours s hs) ok fileHash)
    (completed_finalized ok fileHash) rfl rfl rfl rfl rfl rfl rfl fun new hnew => ?_
  obtain ⟨-, hnew⟩ := ite_none_right_eq_some.mp hnew
  exact ⟨.handler, (Option.some.inj hnew).symm⟩

theorem Inv.next_loading (htask : x.tasks task = some .loading)
    (hstep : x.next c m task ok .loading = some y) : y.Inv c m := by
  have hok : isDurable c m = true := inv.tasks task _ htask
  obtain ⟨-, ⟨⟩⟩ := ite_none_left_eq_some.mp hstep
  split
  · refine inv.goto_of_idle (idle_of_task htask rfl) rfl ?_
    cases hload : x.load with
    | none =>
      intro i hi
      obtain ⟨s, hs, -⟩ := inv.stored hok i hi
      cases hload.symm.trans hs
    | some s =>
      refine ⟨?_, fun i hi => ?_⟩
      · obtain ⟨s', hs', rfl⟩ := map_eq_some_iff.mp hload
        exact (inv.file_ours s' hs').of_manifest rfl
      · obtain ⟨s', hs', hmem⟩ := inv.stored hok i hi
        cases hload.symm.trans hs'
        exact hmem
  · exact inv.done (idle_of_task htask rfl)

theorem Inv.next_copied (htask : x.tasks task = some (.copied resume))
    (hstep : x.next c m task ok (.copied resume) = some y) : y.Inv c m := by
  have hok := inv.tasks task _ htask
  have idle := idle_of_task htask rfl
  rw [Handlers.next] at hstep
  split at hstep
  · cases hstep
    exact inv.done idle
  rename_i dest resume' hcheck
  cases hstep
  cases ok with
  | false => exact inv.done idle
  | true =>
    obtain ⟨hsized, hresume, -⟩ := Entry.checkManifest_eq_ok hcheck
    obtain rfl : resume' = resume := by
      rw [hresume]
      cases resume with
      | none => cases m.options.resumable <;> rfl
      | some s => rfl
    exact inv.goto_of_idle idle rfl ⟨⟨hsized.count, rfl, rfl⟩, fun i => covers_newSession inv hok⟩

theorem Inv.next_inserted (htask : x.tasks task = some .inserted)
    (hstep : x.next c m task ok .inserted = some y) : y.Inv c m := by
  have hok : isDurable c m = true → x.session = none → x.Settled := inv.tasks task _ htask
  rw [Handlers.next] at hstep
  split at hstep
  · obtain ⟨-, hstep⟩ := ite_none_left_eq_some.mp hstep
    split at hstep <;> cases hstep
    · rename_i hnone
      have hsettled : isDurable c m = true → x.Settled := fun h => hok h hnone
      exact inv.goto (fun _ _ _ => .inr fun h _ => hsettled h) rfl hsettled
    · rename_i s hs
      exact inv.goto (fun _ _ _ => .inl rfl) rfl
        ⟨inv.session_ours s hs, fun i hi => inv.memory s hs i hi⟩
  · rename_i hdurable
    cases hstep
    exact inv.goto (fun _ _ _ => .inr fun h => absurd h hdurable) rfl fun h => absurd h hdurable

theorem Inv.next_placing (htask : x.tasks task = some .placing)
    (hstep : x.next c m task ok .placing = some y) : y.Inv c m := by
  have hok : isDurable c m = true → x.Settled := inv.tasks task _ htask
  obtain ⟨-, hstep⟩ := ite_none_left_eq_some.mp hstep
  split at hstep <;> cases hstep
  · exact inv.setState (idle_of_task htask rfl) rfl rfl rfl rfl rfl rfl rfl
  refine inv.forget rfl (fun _ _ h => h.of_put rfl rfl fun _ _ _ heq => (by cases heq)) rfl rfl
    (List.append_nil _).symm (fun task' s saver hguard htask' => ?_) fun task' stage' htask' => ?_
  · rcases tasks_of_put rfl htask' with ⟨-, hstage⟩ | ⟨-, hold⟩
    · cases hstage
    · exact inv.removing task' s saver hguard hold
  · rcases tasks_of_put rfl htask' with ⟨-, hstage⟩ | ⟨-, hold⟩
    · cases hstage
    · exact ⟨inv.tasks task' stage' hold, rfl, hok⟩

/-- Where the save of a manifest does not fail, a save keeps what is owed. -/
theorem Inv.next_saving (before : x.Exclusive) {stage : SaveStage}
    (htask : x.tasks task = some (.saving s stage saver)) (hkept : ok = true ∨ saver ≠ .manifest)
    (hstep : x.next c m task ok (.saving s stage saver) = some y) : y.Inv c m := by
  have hfailed : ok ≠ true → (x.saved task saver x.progress).Inv c m := by
    intro hok
    have hsaver := hkept.resolve_left hok
    refine inv.saved (idle_of_task htask ?_) hsaver
    cases saver with
    | manifest => exact absurd rfl hsaver
    | _ => rfl
  cases stage with
  | toWrite =>
    obtain ⟨-, hstep⟩ := ite_none_left_eq_some.mp hstep
    split at hstep <;> cases hstep
    · exact inv.opens htask rfl rfl rfl rfl rfl rfl rfl
    · exact hfailed ‹_›
  | toRename =>
    obtain ⟨hguard, hstep⟩ := ite_none_right_eq_some.mp hstep
    split at hstep <;> cases hstep
    · exact inv.rename before htask ⟨rfl, rfl, rfl, fun _ _ _ heq => (by cases heq)⟩ rfl rfl rfl
        hguard
    · exact hfailed ‹_›
  | toRemove =>
    obtain ⟨hguard, ⟨⟩⟩ := ite_none_right_eq_some.mp hstep
    split
    · have hstage : ∀ new : Stage κ, (if saver = .manifest then some .finishing else none) =
          some new → new = .finishing := by
        intro new hnew
        obtain ⟨-, hnew⟩ := ite_none_right_eq_some.mp hnew
        exact (Option.some.inj hnew).symm
      exact inv.remove before htask hguard
        ⟨rfl, rfl, rfl, fun _ _ _ heq => (by cases hstage _ heq)⟩ rfl rfl rfl rfl hstage
    · exact hfailed ‹_›

theorem Inv.next (before : x.Exclusive) {old : Stage κ}
    (alone : ∀ index, old = .checkpointing index → x.Uncopied) (htask : x.tasks task = some old)
    (hkept : ok = true ∨ ∀ s stage, old ≠ .saving s stage .manifest)
    (hstep : x.next c m task ok old = some y) : y.Inv c m := by
  cases old with
  | waiting index =>
    have idle := idle_of_task htask rfl
    cases hstep
    cases ok <;> exact inv.goto_of_idle idle rfl trivial
  | stopping =>
    refine inv.change (idle_of_task htask rfl) (fun s s' hs' => ?_) hstep
    cases hs'
    exact ⟨rfl, rfl⟩
  | ready index => exact inv.next_ready htask hstep
  | received index =>
    have idle := idle_of_task htask rfl
    have hok := inv.tasks task _ htask
    cases hstep
    cases ok with
    | true => exact inv.goto_of_idle idle rfl hok
    | false => exact inv.done idle
  | written index => exact inv.next_written htask hstep
  | checkpointing index => exact inv.next_checkpointing (alone index rfl) htask hstep
  | marking index => exact inv.next_marking before htask hstep
  | acking index life last =>
    rw [Handlers.next] at hstep
    split at hstep <;> cases hstep
    · exact inv.ack htask rfl rfl rfl rfl rfl rfl rfl
    · exact inv.done (idle_of_task htask rfl)
  | finalizing fileHash => exact inv.next_finalizing htask hstep
  | loading => exact inv.next_loading htask hstep
  | copied resume => exact inv.next_copied htask hstep
  | built s =>
    obtain ⟨-, ⟨⟩⟩ := ite_none_left_eq_some.mp hstep
    exact inv.insert htask ⟨rfl, rfl, rfl, fun _ _ _ heq => (by cases heq)⟩ rfl rfl rfl rfl
  | inserted => exact inv.next_inserted htask hstep
  | finishing =>
    have idle := idle_of_task htask rfl
    have hok := inv.tasks task _ htask
    obtain ⟨-, ⟨⟩⟩ := ite_none_left_eq_some.mp hstep
    split
    · split <;> exact inv.goto_of_idle idle rfl hok
    · exact inv.done idle
  | verifying =>
    obtain ⟨-, ⟨⟩⟩ := ite_none_left_eq_some.mp hstep
    exact inv.setState (idle_of_task htask rfl) rfl rfl rfl rfl rfl rfl rfl
  | placing => exact inv.next_placing htask hstep
  | saving s stage saver =>
    refine inv.next_saving before htask (hkept.imp_right fun h hmanifest => ?_) hstep
    exact h s stage (hmanifest ▸ rfl)

theorem Inv.stop (rest : Bytes) : (x.stop (x.progress ++ rest)).Inv c m := by
  refine inv.forget rfl ?_ rfl rfl rfl (fun task s saver hguard => (by cases hguard))
    fun task stage htask => (by cases htask)
  rintro life i (hack | ⟨task, index, last, htask, -⟩)
  · exact .inl hack
  · cases htask

end

theorem idle_of_isNone (h : ¬ (x.tasks task).isSome = true) : x.Idle task := by
  intro old htask
  rw [htask] at h
  exact absurd rfl h

/-- The step is not part of a failed save of a manifest, and does not leave part of a record in the
journal. -/
def KeepsFiles (x : Handlers κ) : HandlerEvent → Prop
  | .next task ok => ok = true ∨ ∀ s stage, x.tasks task ≠ some (.saving s stage .manifest)
  | .tear _ _ => False
  | _ => True

/-- Before a task goes on no handler is between its record and its mark while another has a copy,
and before it appends its record no task has one. -/
def KeepsExclusive (x : Handlers κ) : HandlerEvent → Prop
  | .next task _ =>
    x.Exclusive ∧ ∀ index, x.tasks task = some (.checkpointing index) → x.Uncopied
  | _ => True

theorem Inv.step (inv : x.Inv c m) {event : HandlerEvent} (hexclusive : x.KeepsExclusive event)
    (hkept : x.KeepsFiles event) (hstep : x.step c m event = some y) : y.Inv c m := by
  cases event with
  | chunk task index =>
    obtain ⟨hfree, hstep⟩ := ite_none_left_eq_some.mp hstep
    have idle : x.Idle task := idle_of_isNone fun h => hfree (by rw [h, Bool.true_or])
    cases hstep
    cases x.session with
    | none => exact inv.done idle
    | some s => exact inv.goto_of_idle idle rfl trivial
  | manifest task =>
    obtain ⟨hfree, hstep⟩ := ite_none_left_eq_some.mp hstep
    have idle : x.Idle task := idle_of_isNone fun h => hfree (by rw [h, Bool.true_or])
    split at hstep <;> cases hstep
    · rename_i s hs
      exact inv.goto_of_idle idle rfl ⟨inv.session_ours s hs, inv.memory s hs⟩
    · rename_i hnone
      split
      · rename_i hdurable
        exact inv.goto_of_idle idle rfl hdurable
      · rename_i hdurable
        exact inv.goto_of_idle idle rfl (inv.absent hnone (Bool.eq_false_iff.mpr hdurable))
  | finalize task completion =>
    obtain ⟨hfree, hstep⟩ := ite_none_left_eq_some.mp hstep
    have idle : x.Idle task := idle_of_isNone fun h => hfree (by rw [h, Bool.true_or])
    cases hstep
    split
    · exact inv.goto_of_idle idle rfl trivial
    · exact inv.done idle
  | control task call =>
    obtain ⟨hfree, hstep⟩ := ite_none_left_eq_some.mp hstep
    exact inv.change (idle_of_isNone hfree) (fun _ _ => apply_eq_some) hstep
  | next task ok =>
    obtain ⟨old, htask, hnext⟩ := Option.bind_eq_some_iff.mp hstep
    refine inv.next hexclusive.1 (fun index hold => hexclusive.2 index (hold ▸ htask)) htask
      (hkept.imp_right fun h s stage hold => ?_) hnext
    exact h s stage (hold ▸ htask)
  | tear task count => exact hkept.elim
  | crash torn =>
    cases torn with
    | none =>
      cases hstep
      have hstop := inv.stop []
      rwa [List.append_nil] at hstop
    | some torn =>
      obtain ⟨task, count⟩ := torn
      rw [Handlers.step] at hstep
      split at hstep
      · cases hstep
        exact inv.stop _
      · cases hstep

end Handlers

/-- An operation of `task`, which succeeds, or a crash. -/
def HandlerEvent.IsFor (task : ℕ) : HandlerEvent → Prop
  | .chunk task' _ | .manifest task' | .finalize task' _ | .control task' _ => task' = task
  | .next task' ok => task' = task ∧ ok = true
  | .tear _ _ => False
  | .crash _ => True

namespace Handlers

variable {c : ReceiveConfig κ} {m : TransferManifest κ} {x y : Handlers κ} {task : ℕ}

theorem tasks_of_change {call : TransferSession κ → Option (TransferSession κ)}
    (hstep : x.change c task call = some y) : ∃ stage, y.tasks = update x.tasks task stage := by
  obtain ⟨-, hstep⟩ := ite_none_left_eq_some.mp hstep
  split at hstep
  · cases hstep
    exact ⟨_, rfl⟩
  · split at hstep <;> cases hstep <;> exact ⟨_, rfl⟩

theorem tasks_of_next {old : Stage κ} {ok : Bool} (hstep : x.next c m task ok old = some y) :
    ∃ stage, y.tasks = update x.tasks task stage := by
  unfold Handlers.next at hstep
  split at hstep
  case h_2 => exact tasks_of_change hstep
  all_goals (repeat' split at hstep) <;> cases hstep <;> exact ⟨_, rfl⟩

def Only (x : Handlers κ) (task : ℕ) : Prop := ∀ task', task' ≠ task → x.tasks task' = none

theorem Only.of_update (h : x.Only task) (hy : ∃ stage, y.tasks = update x.tasks task stage) :
    y.Only task := by
  intro task' hne
  obtain ⟨stage, htasks⟩ := hy
  rw [htasks, Function.update_of_ne hne]
  exact h task' hne

theorem Only.step (h : x.Only task) {event : HandlerEvent} (hevent : event.IsFor task)
    (hstep : x.step c m event = some y) : y.Only task := by
  cases event with
  | chunk task' _ | manifest task' | finalize task' _ =>
    obtain rfl : task' = task := hevent
    obtain ⟨-, hstep⟩ := ite_none_left_eq_some.mp hstep
    (repeat' split at hstep) <;> cases hstep <;> exact h.of_update ⟨_, rfl⟩
  | control task' call =>
    obtain rfl : task' = task := hevent
    obtain ⟨-, hstep⟩ := ite_none_left_eq_some.mp hstep
    exact h.of_update (tasks_of_change hstep)
  | next task' ok =>
    obtain rfl : task' = task := hevent.1
    obtain ⟨old, -, hnext⟩ := Option.bind_eq_some_iff.mp hstep
    exact h.of_update (tasks_of_next hnext)
  | tear task' count => exact hevent.elim
  | crash torn =>
    cases torn with
    | none =>
      cases hstep
      exact fun _ _ => rfl
    | some torn =>
      rw [Handlers.step] at hstep
      split at hstep <;> cases hstep
      exact fun _ _ => rfl

theorem Only.eq_of_task (h : x.Only task) {task' : ℕ} {stage : Stage κ}
    (htask : x.tasks task' = some stage) : task' = task := by
  by_contra hne
  rw [h task' hne] at htask
  cases htask

theorem Only.uncopied (h : x.Only task) {stage : Stage κ} (htask : x.tasks task = some stage)
    (hcopy : stage.isCopy = false) : x.Uncopied := by
  intro task' stage' htask'
  obtain rfl := h.eq_of_task htask'
  cases htask.symm.trans htask'
  exact hcopy

end Handlers

def HandlerEvent.steps (start : HandlerEvent) (task count : ℕ) : List HandlerEvent :=
  start :: List.replicate count (.next task true)

end Chirps.FileTransfer
