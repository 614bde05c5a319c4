/-
# The connection tables

A backend keeps the connection, the last activity and the capabilities of a peer in three tables
with a lock each. A removal that overlaps a reconnection takes away what the registration has filled
in.
-/

import Chirps.Library.Run
import Chirps.Library.Table

namespace Chirps.Transport

open Chirps.Library

variable {ι γ : Type*}

structure Connection (γ : Type*) where
  stableId : ℕ
  capabilities : γ
  deriving DecidableEq

/-- On whose behalf a connection is removed. The eviction loop goes on with other peers. -/
inductive RemovalCaller (ι : Type*)
  | connection
  | send
  | eviction (stale : List ι)
  deriving DecidableEq

/-- An operation between two of its steps, by the step that comes next. -/
inductive TableTask (ι γ : Type*)
  /-- A registration enters the time of the activity. -/
  | noteActivity (peer : ι) (connection : Connection γ) (now : ℕ)
  /-- A registration enters the capabilities. -/
  | noteCapabilities (peer : ι) (connection : Connection γ)
  /-- `remove_connection_if_current` looks for the connection. -/
  | removing (peer : ι) (stableId : ℕ) (caller : RemovalCaller ι)
  | dropActivity (peer : ι) (caller : RemovalCaller ι)
  | dropCapabilities (peer : ι) (caller : RemovalCaller ι)
  /-- The eviction loop looks for the connection of the first of these peers. -/
  | evicting (stale : List ι)
  /-- `send_to_peer` enters the time of the activity. -/
  | touching (peer : ι) (now : ℕ)
  /-- `send_to_peer` reads the capabilities. -/
  | checking (peer : ι)
  deriving DecidableEq

structure ConnectionTables (ι γ : Type*) where
  connections : AList fun _ : ι => Connection γ
  lastActivity : ι → Option ℕ
  peerCapabilities : ι → Option γ
  tasks : AList fun _ : ℕ => TableTask ι γ

inductive TableCall (ι γ : Type*)
  /-- `handle_connection` registers a connection. -/
  | register (peer : ι) (connection : Connection γ) (now : ℕ)
  /-- The task of a connection removes it. -/
  | remove (peer : ι) (stableId : ℕ)
  /-- A round of the idle eviction, with the peers in the order of the map. -/
  | evictIdle (now idleTimeout : ℕ) (order : List ι)
  /-- `send_to_peer`; `closed` says whether the connection that it finds is closed. -/
  | send (peer : ι) (closed : Bool) (now : ℕ)
  /-- A health check that fails. -/
  | unhealthy (peer : ι)
  /-- A stream arrives, or one is opened for a file transfer. -/
  | touch (peer : ι) (now : ℕ)

inductive TableEvent (ι γ : Type*)
  /-- An operation starts and takes its first step. -/
  | call (n : ℕ) (operation : TableCall ι γ)
  /-- An operation takes its next step. -/
  | proceed (n : ℕ)
  /-- The timeout around a send cancels it. -/
  | cancel (n : ℕ)

def RemovalCaller.resume : RemovalCaller ι → Option (TableTask ι γ)
  | .connection | .send => none
  | .eviction stale => some (.evicting stale)

def TableTask.cancellable : TableTask ι γ → Bool
  | .removing _ _ .send | .dropActivity _ .send | .dropCapabilities _ .send => true
  | .touching _ _ | .checking _ => true
  | .removing _ _ _ | .dropActivity _ _ | .dropCapabilities _ _ => false
  | .noteActivity _ _ _ | .noteCapabilities _ _ | .evicting _ => false

def isIdleExpired (now lastActivity timeout : ℕ) : Bool := timeout ≤ now - lastActivity

def connectionLimitReached (current : ℕ) (isNewPeer : Bool) (limit : ℕ) : Bool :=
  isNewPeer && limit ≤ current

namespace ConnectionTables

def initial : ConnectionTables ι γ := ⟨∅, fun _ => none, fun _ => none, ∅⟩

/-- `map.len()`. -/
def count (x : ConnectionTables ι γ) : ℕ := x.connections.keys.length

def setTask (x : ConnectionTables ι γ) (n : ℕ) (next : Option (TableTask ι γ)) :
    ConnectionTables ι γ :=
  { x with tasks := put x.tasks n next }

variable [DecidableEq ι] (x : ConnectionTables ι γ)

def setActivity (peer : ι) (time : Option ℕ) : ConnectionTables ι γ :=
  { x with lastActivity := Function.update x.lastActivity peer time }

def setCapabilities (peer : ι) (capabilities : Option γ) : ConnectionTables ι γ :=
  { x with peerCapabilities := Function.update x.peerCapabilities peer capabilities }

def setConnection (peer : ι) (connection : Connection γ) : ConnectionTables ι γ :=
  { x with connections := x.connections.insert peer connection }

def dropConnection (peer : ι) : ConnectionTables ι γ :=
  { x with connections := x.connections.erase peer }

/-- The first step of `remove_connection_if_current`. -/
def removeIfCurrent (n : ℕ) (peer : ι) (stableId : ℕ)
    (caller : RemovalCaller ι) : ConnectionTables ι γ :=
  if (x.connections.lookup peer).any fun current => current.stableId == stableId then
    (x.dropConnection peer).setTask n (some (.dropActivity peer caller))
  else x.setTask n caller.resume

def call (maxConnections : ℕ) (x : ConnectionTables ι γ) (n : ℕ) :
    TableCall ι γ → ConnectionTables ι γ
  | .register peer connection now =>
    let isNew := (x.connections.lookup peer).isNone
    if connectionLimitReached x.count isNew maxConnections then x.setTask n none
    else (x.setConnection peer connection).setTask n (some (.noteActivity peer connection now))
  | .remove peer stableId => x.removeIfCurrent n peer stableId .connection
  | .evictIdle now idleTimeout order =>
    let stale := order.filter fun peer =>
      (x.lastActivity peer).any fun last => isIdleExpired now last idleTimeout
    x.setTask n (some (.evicting stale))
  | .send peer closed now =>
    match x.connections.lookup peer with
    | none => x.setTask n none
    | some connection =>
      if closed then x.setTask n (some (.removing peer connection.stableId .send))
      else x.setTask n (some (.touching peer now))
  | .unhealthy peer =>
    match x.connections.lookup peer with
    | none => x.setTask n none
    | some connection => x.setTask n (some (.removing peer connection.stableId .connection))
  | .touch peer now => (x.setActivity peer (some now)).setTask n none

def proceed (n : ℕ) : TableTask ι γ → ConnectionTables ι γ
  | .noteActivity peer connection now =>
    (x.setActivity peer (some now)).setTask n (some (.noteCapabilities peer connection))
  | .noteCapabilities peer connection =>
    (x.setCapabilities peer (some connection.capabilities)).setTask n none
  | .removing peer stableId caller => x.removeIfCurrent n peer stableId caller
  | .dropActivity peer caller =>
    (x.setActivity peer none).setTask n (some (.dropCapabilities peer caller))
  | .dropCapabilities peer caller => (x.setCapabilities peer none).setTask n caller.resume
  | .evicting [] => x.setTask n none
  | .evicting (peer :: stale) =>
    match x.connections.lookup peer with
    | none => x.setTask n (some (.evicting stale))
    | some connection =>
      x.setTask n (some (.removing peer connection.stableId (.eviction stale)))
  | .touching peer now => (x.setActivity peer (some now)).setTask n (some (.checking peer))
  | .checking _ => x.setTask n none

def step (maxConnections : ℕ) (x : ConnectionTables ι γ) :
    TableEvent ι γ → Option (ConnectionTables ι γ)
  | .call n operation => if n ∈ x.tasks then none else some (x.call maxConnections n operation)
  | .proceed n => (x.tasks.lookup n).map (x.proceed n)
  | .cancel n =>
    if (x.tasks.lookup n).any TableTask.cancellable then some (x.setTask n none) else none

end ConnectionTables

/-! ## Operations that overlap -/

inductive TableTask.Registers (peer : ι) (connection : Connection γ) : TableTask ι γ → Prop
  | noteActivity (now : ℕ) : Registers peer connection (.noteActivity peer connection now)
  | noteCapabilities : Registers peer connection (.noteCapabilities peer connection)

inductive TableTask.Drops (peer : ι) : TableTask ι γ → Prop
  | dropActivity (caller : RemovalCaller ι) : Drops peer (.dropActivity peer caller)
  | dropCapabilities (caller : RemovalCaller ι) : Drops peer (.dropCapabilities peer caller)

def TableTask.Writes (peer : ι) : TableTask ι γ → Prop
  | .noteActivity p _ _ | .noteCapabilities p _ | .dropActivity p _ | .dropCapabilities p _ =>
    p = peer
  | .removing _ _ _ | .evicting _ | .touching _ _ | .checking _ => False

theorem TableTask.writes_iff {peer : ι} {task : TableTask ι γ} :
    task.Writes peer ↔ (∃ connection, task.Registers peer connection) ∨ task.Drops peer := by
  constructor
  · intro h
    cases task with
    | noteActivity p connection now => cases h; exact .inl ⟨connection, .noteActivity now⟩
    | noteCapabilities p connection => cases h; exact .inl ⟨connection, .noteCapabilities⟩
    | dropActivity p caller => cases h; exact .inr (.dropActivity caller)
    | dropCapabilities p caller => cases h; exact .inr (.dropCapabilities caller)
    | removing | evicting | touching | checking => exact h.elim
  · rintro (⟨connection, hregisters⟩ | hdrops)
    · cases hregisters <;> exact rfl
    · cases hdrops <;> exact rfl

instance [DecidableEq ι] (peer : ι) : ∀ task : TableTask ι γ, Decidable (task.Writes peer)
  | .noteActivity _ _ _ | .noteCapabilities _ _ | .dropActivity _ _ | .dropCapabilities _ _ =>
    inferInstanceAs (Decidable (_ = _))
  | .removing _ _ _ | .evicting _ | .touching _ _ | .checking _ => isFalse not_false

namespace ConnectionTables

variable {maxConnections : ℕ} {x y : ConnectionTables ι γ} {n : ℕ} {next : Option (TableTask ι γ)}
  {task : TableTask ι γ}

def Pending (x : ConnectionTables ι γ) (task : TableTask ι γ) : Prop :=
  ∃ n, x.tasks.lookup n = some task

/-- Some operation has yet to write what belongs to a connection of the peer. -/
def Busy (x : ConnectionTables ι γ) (peer : ι) : Prop :=
  ∃ entry ∈ x.tasks.entries, entry.2.Writes peer

variable {peer : ι}

theorem Pending.busy (pending : x.Pending task) (writes : task.Writes peer) : x.Busy peer := by
  obtain ⟨n, hn⟩ := pending
  exact ⟨⟨n, task⟩, AList.mem_lookup_iff.mp hn, writes⟩

theorem pending_setTask (pending : (x.setTask n next).Pending task) :
    next = some task ∨ x.Pending task := by
  obtain ⟨m, hm⟩ := pending
  rcases lookup_put_eq_some_iff.mp hm with ⟨-, hnext⟩ | ⟨-, hold⟩
  · exact .inl hnext
  · exact .inr ⟨m, hold⟩

theorem pending_setTask_self (h : next = some task) : (x.setTask n next).Pending task :=
  ⟨n, lookup_put_eq_some_iff.mpr (.inl ⟨rfl, h⟩)⟩

theorem Pending.setTask (pending : x.Pending task) (other : x.tasks.lookup n ≠ some task) :
    (x.setTask n next).Pending task := by
  obtain ⟨m, hm⟩ := pending
  have hmn : m ≠ n := fun h => other (h ▸ hm)
  exact ⟨m, lookup_put_eq_some_iff.mpr (.inr ⟨hmn, hm⟩)⟩

theorem not_writes_of_resume {caller : RemovalCaller ι} (h : caller.resume = some task)
    (peer : ι) : ¬ task.Writes peer := by
  cases caller with
  | connection | send => cases h
  | eviction stale =>
    cases h
    exact not_false

theorem still_none : ∀ task : TableTask ι γ, none = some task → ∀ peer, ¬ task.Writes peer :=
  nofun

theorem still_some (h : ∀ peer, ¬ task.Writes peer) :
    ∀ other, some task = some other → ∀ peer, ¬ other.Writes peer := by
  rintro _ ⟨⟩
  exact h

theorem not_registers_of_idle (idle : ∀ task, x.tasks.lookup n = some task → ∀ peer,
    ¬ task.Writes peer) : ∀ task, x.tasks.lookup n = some task → ∀ peer connection,
      ¬ task.Registers peer connection :=
  fun task h peer connection hregisters =>
    idle task h peer (TableTask.writes_iff.mpr (.inl ⟨connection, hregisters⟩))

variable [DecidableEq ι]

instance (x : ConnectionTables ι γ) (peer : ι) : Decidable (x.Busy peer) :=
  inferInstanceAs (Decidable (∃ entry ∈ x.tasks.entries, entry.2.Writes peer))

/-- The step changes the connection of no peer for which an operation has yet to write. -/
def Exclusive (maxConnections : ℕ) (x : ConnectionTables ι γ) (event : TableEvent ι γ) : Prop :=
  ∀ y ∈ x.step maxConnections event, ∀ peer,
    y.connections.lookup peer ≠ x.connections.lookup peer → ¬ x.Busy peer

instance [Fintype ι] [DecidableEq γ] (x : ConnectionTables ι γ) (event : TableEvent ι γ) :
    Decidable (x.Exclusive maxConnections event) :=
  inferInstanceAs (Decidable (∀ y ∈ x.step maxConnections event, ∀ peer,
    y.connections.lookup peer ≠ x.connections.lookup peer → ¬ x.Busy peer))

/-- An operation that has nothing of a connection to write is called idle. -/
inductive Moves (maxConnections : ℕ) (x : ConnectionTables ι γ) : ConnectionTables ι γ → Prop
  | quiet (n : ℕ) (next : Option (TableTask ι γ))
      (idle : ∀ task, x.tasks.lookup n = some task → ∀ peer, ¬ task.Writes peer)
      (still : ∀ task, next = some task → ∀ peer, ¬ task.Writes peer) :
      Moves maxConnections x (x.setTask n next)
  | touched (n : ℕ) (next : Option (TableTask ι γ)) (peer : ι) (now : ℕ)
      (idle : ∀ task, x.tasks.lookup n = some task → ∀ peer, ¬ task.Writes peer)
      (still : ∀ task, next = some task → ∀ peer, ¬ task.Writes peer) :
      Moves maxConnections x ((x.setActivity peer (some now)).setTask n next)
  | registered (n : ℕ) (peer : ι) (connection : Connection γ) (now : ℕ)
      (idle : ∀ task, x.tasks.lookup n = some task → ∀ peer, ¬ task.Writes peer)
      (room : x.connections.lookup peer = none → x.count < maxConnections) :
      Moves maxConnections x
        ((x.setConnection peer connection).setTask n (some (.noteActivity peer connection now)))
  | removed (n : ℕ) (peer : ι) (connection : Connection γ) (caller : RemovalCaller ι)
      (idle : ∀ task, x.tasks.lookup n = some task → ∀ peer, ¬ task.Writes peer)
      (present : x.connections.lookup peer = some connection) :
      Moves maxConnections x ((x.dropConnection peer).setTask n (some (.dropActivity peer caller)))
  | notedActivity (n : ℕ) (peer : ι) (connection : Connection γ) (now : ℕ)
      (pending : x.tasks.lookup n = some (.noteActivity peer connection now)) :
      Moves maxConnections x
        ((x.setActivity peer (some now)).setTask n (some (.noteCapabilities peer connection)))
  | notedCapabilities (n : ℕ) (peer : ι) (connection : Connection γ)
      (pending : x.tasks.lookup n = some (.noteCapabilities peer connection)) :
      Moves maxConnections x
        ((x.setCapabilities peer (some connection.capabilities)).setTask n none)
  | droppedActivity (n : ℕ) (peer : ι) (caller : RemovalCaller ι)
      (pending : x.tasks.lookup n = some (.dropActivity peer caller)) :
      Moves maxConnections x
        ((x.setActivity peer none).setTask n (some (.dropCapabilities peer caller)))
  | droppedCapabilities (n : ℕ) (peer : ι) (caller : RemovalCaller ι)
      (pending : x.tasks.lookup n = some (.dropCapabilities peer caller)) :
      Moves maxConnections x ((x.setCapabilities peer none).setTask n caller.resume)
  | cancelled (n : ℕ) (task : TableTask ι γ) (pending : x.tasks.lookup n = some task)
      (cancellable : task.cancellable = true) : Moves maxConnections x (x.setTask n none)

theorem moves_removeIfCurrent {stableId : ℕ} {caller : RemovalCaller ι}
    (idle : ∀ task, x.tasks.lookup n = some task → ∀ peer, ¬ task.Writes peer) :
    Moves maxConnections x (x.removeIfCurrent n peer stableId caller) := by
  rw [removeIfCurrent]
  split_ifs with hcurrent
  · obtain ⟨connection, hpresent, -⟩ := (Option.any_eq_true _ _).mp hcurrent
    exact .removed n peer connection caller idle hpresent
  · exact .quiet n _ idle fun _ h => not_writes_of_resume h

theorem moves_call (fresh : n ∉ x.tasks) (operation : TableCall ι γ) :
    Moves maxConnections x (x.call maxConnections n operation) := by
  have idle : ∀ task, x.tasks.lookup n = some task → ∀ peer, ¬ task.Writes peer := by
    intro task h
    rw [AList.lookup_eq_none.mpr fresh] at h
    cases h
  cases operation with
  | register peer connection now =>
    rw [call]
    split_ifs with hlimit
    · exact .quiet n none idle still_none
    · refine .registered n peer connection now idle fun hnone => ?_
      simpa [connectionLimitReached, hnone] using hlimit
  | remove peer stableId => exact moves_removeIfCurrent idle
  | evictIdle now idleTimeout order =>
    exact .quiet n _ idle (still_some fun _ => not_false)
  | send peer closed now =>
    rw [call]
    split
    · exact .quiet n none idle still_none
    · split_ifs
      · exact .quiet n _ idle (still_some fun _ => not_false)
      · exact .quiet n _ idle (still_some fun _ => not_false)
  | unhealthy peer =>
    rw [call]
    split
    · exact .quiet n none idle still_none
    · exact .quiet n _ idle (still_some fun _ => not_false)
  | touch peer now => exact .touched n none peer now idle still_none

theorem moves_proceed (h : x.tasks.lookup n = some task) :
    Moves maxConnections x (x.proceed n task) := by
  have idle (hidle : ∀ peer, ¬ task.Writes peer) :
      ∀ other, x.tasks.lookup n = some other → ∀ peer, ¬ other.Writes peer := by
    intro other hother
    cases h.symm.trans hother
    exact hidle
  cases task with
  | noteActivity peer connection now => exact .notedActivity n peer connection now h
  | noteCapabilities peer connection => exact .notedCapabilities n peer connection h
  | removing peer stableId caller => exact moves_removeIfCurrent (idle fun _ => not_false)
  | dropActivity peer caller => exact .droppedActivity n peer caller h
  | dropCapabilities peer caller => exact .droppedCapabilities n peer caller h
  | evicting stale =>
    cases stale with
    | nil => exact .quiet n none (idle fun _ => not_false) still_none
    | cons peer stale =>
      rw [proceed]
      split
      · exact .quiet n _ (idle fun _ => not_false) (still_some fun _ => not_false)
      · exact .quiet n _ (idle fun _ => not_false) (still_some fun _ => not_false)
  | touching peer now =>
    exact .touched n _ peer now (idle fun _ => not_false) (still_some fun _ => not_false)
  | checking peer => exact .quiet n none (idle fun _ => not_false) still_none

theorem moves_of_step {event : TableEvent ι γ} (h : x.step maxConnections event = some y) :
    Moves maxConnections x y := by
  cases event with
  | call n operation =>
    rw [step] at h
    split_ifs at h with hfresh
    cases h
    exact moves_call hfresh operation
  | proceed n =>
    obtain ⟨task, htask, rfl⟩ := Option.map_eq_some_iff.mp h
    exact moves_proceed htask
  | cancel n =>
    rw [step] at h
    split_ifs at h with hcancel
    cases h
    obtain ⟨task, htask, hcancellable⟩ := (Option.any_eq_true _ _).mp hcancel
    exact .cancelled n task htask hcancellable

/-! ## The number of connections -/

theorem count_setConnection (peer : ι) (connection : Connection γ) :
    (x.setConnection peer connection).count =
      if x.connections.lookup peer = none then x.count + 1 else x.count := by
  change (x.connections.insert peer connection).keys.length = _
  rw [AList.keys_insert, List.length_cons]
  split_ifs with hnone
  · have hkeys : peer ∉ x.connections.keys := AList.lookup_eq_none.mp hnone
    rw [List.erase_of_not_mem hkeys, count]
  · have hkeys : peer ∈ x.connections.keys := by
      by_contra hkeys
      exact hnone (AList.lookup_eq_none.mpr hkeys)
    have := List.length_pos_of_mem hkeys
    rw [List.length_erase_of_mem hkeys, count]
    omega

theorem count_dropConnection_le (peer : ι) : (x.dropConnection peer).count ≤ x.count := by
  change (x.connections.erase peer).keys.length ≤ _
  rw [AList.keys_erase]
  exact List.length_erase_le

theorem Moves.count_le (moves : Moves maxConnections x y) (h : x.count ≤ maxConnections) :
    y.count ≤ maxConnections := by
  cases moves with
  | registered n peer connection now idle room =>
    change (x.setConnection peer connection).count ≤ maxConnections
    rw [count_setConnection]
    split_ifs with hnone
    · exact room hnone
    · exact h
  | removed n peer connection caller => exact (count_dropConnection_le peer).trans h
  | quiet | touched | notedActivity | notedCapabilities | droppedActivity | droppedCapabilities
  | cancelled => exact h

theorem count_le {events : List (TableEvent ι γ)}
    (reach : run (step maxConnections) initial events = some x) : x.count ≤ maxConnections :=
  run_invariant (fun _ _ _ h hstep => (moves_of_step hstep).count_le h) (Nat.zero_le _) reach

/-! ## What belongs to a connection -/

/-- What a connection has, or its registration is still to enter, agrees with the first table. -/
structure Inv (x : ConnectionTables ι γ) : Prop where
  registers : ∀ task peer connection, x.Pending task → task.Registers peer connection →
    x.connections.lookup peer = some connection
  drops : ∀ task peer, x.Pending task → task.Drops peer → x.connections.lookup peer = none
  activity : ∀ peer connection, x.connections.lookup peer = some connection →
    (x.lastActivity peer).isSome ∨ ∃ now, x.Pending (.noteActivity peer connection now)
  capabilities : ∀ peer connection, x.connections.lookup peer = some connection →
    x.peerCapabilities peer = some connection.capabilities ∨
      ∃ task, x.Pending task ∧ task.Registers peer connection

theorem inv_initial : (initial : ConnectionTables ι γ).Inv where
  registers := fun _ _ _ ⟨_, h⟩ => by cases h
  drops := fun _ _ ⟨_, h⟩ => by cases h
  activity := nofun
  capabilities := nofun

section

variable (inv : x.Inv)
include inv

theorem Inv.setTask
    (registers : ∀ task, next = some task → ∀ peer connection, task.Registers peer connection →
      x.connections.lookup peer = some connection)
    (drops : ∀ task, next = some task → ∀ peer, task.Drops peer →
      x.connections.lookup peer = none)
    (activity : ∀ peer connection now,
      x.tasks.lookup n = some (.noteActivity peer connection now) → (x.lastActivity peer).isSome)
    (capabilities : ∀ task peer connection, x.tasks.lookup n = some task →
      task.Registers peer connection → x.peerCapabilities peer = some connection.capabilities ∨
        ∃ new, next = some new ∧ new.Registers peer connection) :
    (x.setTask n next).Inv where
  registers task peer connection pending hregisters := by
    rcases pending_setTask pending with hnext | hold
    · exact registers task hnext peer connection hregisters
    · exact inv.registers task peer connection hold hregisters
  drops task peer pending hdrops := by
    rcases pending_setTask pending with hnext | hold
    · exact drops task hnext peer hdrops
    · exact inv.drops task peer hold hdrops
  activity peer connection hpresent := by
    rcases inv.activity peer connection hpresent with hactivity | ⟨now, hpending⟩
    · exact .inl hactivity
    · by_cases hself : x.tasks.lookup n = some (.noteActivity peer connection now)
      · exact .inl (activity peer connection now hself)
      · exact .inr ⟨now, hpending.setTask hself⟩
  capabilities peer connection hpresent := by
    rcases inv.capabilities peer connection hpresent with hcapabilities |
      ⟨task, hpending, hregisters⟩
    · exact .inl hcapabilities
    · by_cases hself : x.tasks.lookup n = some task
      · rcases capabilities task peer connection hself hregisters with hdone |
          ⟨new, hnew, hregisters⟩
        · exact .inl hdone
        · exact .inr ⟨new, pending_setTask_self hnew, hregisters⟩
      · exact .inr ⟨task, hpending.setTask hself, hregisters⟩

theorem Inv.setTask_idle
    (idle : ∀ task, x.tasks.lookup n = some task → ∀ peer connection,
      ¬ task.Registers peer connection)
    (still : ∀ task, next = some task → ∀ peer, ¬ task.Writes peer) : (x.setTask n next).Inv := by
  refine inv.setTask (fun task hnext peer connection hregisters => ?_)
    (fun task hnext peer hdrops => ?_) (fun peer connection now hself => ?_)
    fun task peer connection hself hregisters => ?_
  · exact absurd (TableTask.writes_iff.mpr (.inl ⟨connection, hregisters⟩)) (still task hnext peer)
  · exact absurd (TableTask.writes_iff.mpr (.inr hdrops)) (still task hnext peer)
  · exact absurd (.noteActivity now) (idle _ hself peer connection)
  · exact absurd hregisters (idle task hself peer connection)

theorem Inv.setActivity (peer : ι) (time : Option ℕ)
    (h : time = none → x.connections.lookup peer = none) : (x.setActivity peer time).Inv where
  registers := inv.registers
  drops := inv.drops
  capabilities := inv.capabilities
  activity p connection hpresent := by
    by_cases hp : p = peer
    · subst hp
      cases time with
      | none => exact absurd (hpresent.symm.trans (h rfl)) (Option.some_ne_none _)
      | some now => exact .inl (by simp [ConnectionTables.setActivity])
    · rcases inv.activity p connection hpresent with hactivity | hpending
      · exact .inl (by simpa [ConnectionTables.setActivity, hp] using hactivity)
      · exact .inr hpending

theorem Inv.setCapabilities {capabilities : Option γ}
    (h : ∀ connection, x.connections.lookup peer = some connection →
      capabilities = some connection.capabilities) : (x.setCapabilities peer capabilities).Inv where
  registers := inv.registers
  drops := inv.drops
  activity := inv.activity
  capabilities p connection hpresent := by
    by_cases hp : p = peer
    · subst hp
      exact .inl (by simpa [ConnectionTables.setCapabilities] using h connection hpresent)
    · rcases inv.capabilities p connection hpresent with hcapabilities | hpending
      · exact .inl (by simpa [ConnectionTables.setCapabilities, hp] using hcapabilities)
      · exact .inr hpending

theorem Inv.dropConnection (free : ¬ x.Busy peer) :
    (x.dropConnection peer).Inv where
  registers task p connection pending hregisters := by
    have hp : p ≠ peer := by
      rintro rfl
      exact free (Pending.busy pending (TableTask.writes_iff.mpr (.inl ⟨connection, hregisters⟩)))
    exact (AList.lookup_erase_ne hp).trans (inv.registers task p connection pending hregisters)
  drops task p pending hdrops := by
    by_cases hp : p = peer
    · subst hp
      exact AList.lookup_erase _ _
    · exact (AList.lookup_erase_ne hp).trans (inv.drops task p pending hdrops)
  activity p connection hpresent := by
    obtain ⟨-, hold⟩ := lookup_erase_eq_some_iff.mp hpresent
    exact inv.activity p connection hold
  capabilities p connection hpresent := by
    obtain ⟨-, hold⟩ := lookup_erase_eq_some_iff.mp hpresent
    exact inv.capabilities p connection hold

theorem Inv.registered {connection : Connection γ} {now : ℕ}
    (idle : ∀ task, x.tasks.lookup n = some task → ∀ peer, ¬ task.Writes peer)
    (free : x.connections.lookup peer ≠ some connection → ¬ x.Busy peer) :
    ((x.setConnection peer connection).setTask n
      (some (.noteActivity peer connection now))).Inv := by
  have hself : (x.setConnection peer connection).connections.lookup peer = some connection :=
    AList.lookup_insert _
  have hother : ∀ p ≠ peer, (x.setConnection peer connection).connections.lookup p =
      x.connections.lookup p := fun p hp => AList.lookup_insert_ne hp
  have hkept : ∀ task p, task.Writes p → x.Pending task →
      ((x.setConnection peer connection).setTask n
        (some (.noteActivity peer connection now))).Pending
        task :=
    fun task p hwrites hpending =>
      Pending.setTask (x := x.setConnection peer connection) hpending
        fun h => idle task h p hwrites
  -- an operation that already writes for the peer registers the same connection
  have hsame : ∀ task p, task.Writes p → x.Pending task → p = peer →
      x.connections.lookup peer = some connection := by
    rintro task p hwrites hpending rfl
    by_contra hne
    exact free hne (hpending.busy hwrites)
  refine ⟨fun task p c pending hregisters => ?_, fun task p pending hdrops => ?_,
    fun p c hpresent => ?_, fun p c hpresent => ?_⟩
  · rcases pending_setTask pending with hnext | hold
    · cases hnext
      cases hregisters
      exact hself
    · have hpresent := inv.registers task p c hold hregisters
      by_cases hp : p = peer
      · have hcurrent := hsame task p (TableTask.writes_iff.mpr (.inl ⟨c, hregisters⟩)) hold hp
        subst hp
        cases hcurrent.symm.trans hpresent
        exact hself
      · exact (hother p hp).trans hpresent
  · rcases pending_setTask pending with hnext | hold
    · cases hnext
      cases hdrops
    · have habsent := inv.drops task p hold hdrops
      by_cases hp : p = peer
      · have hcurrent := hsame task p (TableTask.writes_iff.mpr (.inr hdrops)) hold hp
        subst hp
        cases hcurrent.symm.trans habsent
      · exact (hother p hp).trans habsent
  · by_cases hp : p = peer
    · subst hp
      cases hself.symm.trans hpresent
      exact .inr ⟨now, pending_setTask_self rfl⟩
    · rcases inv.activity p c ((hother p hp).symm.trans hpresent) with hactivity | ⟨t, hpending⟩
      · exact .inl hactivity
      · exact .inr ⟨t, hkept _ p rfl hpending⟩
  · by_cases hp : p = peer
    · subst hp
      cases hself.symm.trans hpresent
      exact .inr ⟨_, pending_setTask_self rfl, .noteActivity now⟩
    · rcases inv.capabilities p c ((hother p hp).symm.trans hpresent) with
        hcapabilities | ⟨task, hpending, hregisters⟩
      · exact .inl hcapabilities
      · exact .inr ⟨task, hkept task p (TableTask.writes_iff.mpr (.inl ⟨c, hregisters⟩)) hpending,
          hregisters⟩

theorem Inv.moves (moves : Moves maxConnections x y)
    (exclusive : ∀ peer, y.connections.lookup peer ≠ x.connections.lookup peer → ¬ x.Busy peer) :
    y.Inv := by
  cases moves with
  | quiet n next idle still => exact inv.setTask_idle (not_registers_of_idle idle) still
  | touched n next peer now idle still =>
    exact (inv.setActivity peer (some now) nofun).setTask_idle
      (not_registers_of_idle idle) still
  | registered n peer connection now idle room =>
    -- the condition says nothing about a connection that is entered once more
    refine inv.registered idle fun hne => exclusive peer ?_
    exact fun h => hne (h.symm.trans (AList.lookup_insert _))
  | removed n peer connection caller idle present =>
    -- the peer had a connection and has none now, so nobody else writes for it
    have hgone : (x.dropConnection peer).connections.lookup peer = none := AList.lookup_erase _ _
    have hfree : ¬ x.Busy peer := by
      refine exclusive peer fun h => ?_
      cases hgone.symm.trans (h.trans present)
    refine (inv.dropConnection hfree).setTask (fun task hnext p c hregisters => ?_)
      (fun task hnext p hdrops => ?_)
      (fun p c t hself => absurd rfl (idle _ hself p))
      fun task p c hself hregisters => absurd hregisters (not_registers_of_idle idle task hself p c)
    · cases hnext
      cases hregisters
    · cases hnext
      cases hdrops
      exact hgone
  | notedActivity n peer connection now pending =>
    -- what the operation has yet to enter is of the connection that is still there
    have hpresent := inv.registers _ _ _ ⟨n, pending⟩ (.noteActivity now)
    refine (inv.setActivity peer (some now) nofun).setTask
      (fun task hnext p c hregisters => ?_) (fun task hnext p hdrops => ?_)
      (fun p c t hself => ?_) fun task p c hself hregisters => ?_
    · cases hnext
      cases hregisters
      exact hpresent
    · cases hnext
      cases hdrops
    · cases pending.symm.trans hself
      simp [ConnectionTables.setActivity]
    · cases pending.symm.trans hself
      cases hregisters
      exact .inr ⟨_, rfl, .noteCapabilities⟩
  | notedCapabilities n peer connection pending =>
    have hpresent := inv.registers _ _ _ ⟨n, pending⟩ .noteCapabilities
    have hcapabilities : ∀ c, x.connections.lookup peer = some c →
        some connection.capabilities = some c.capabilities := by
      intro c hc
      cases hpresent.symm.trans hc
      rfl
    refine (inv.setCapabilities hcapabilities).setTask nofun
      nofun (fun p c t hself => ?_) fun task p c hself hregisters => ?_
    · cases pending.symm.trans hself
    · cases pending.symm.trans hself
      cases hregisters
      exact .inl (by simp [ConnectionTables.setCapabilities])
  | droppedActivity n peer caller pending =>
    -- the peer has not got another connection since the first step of the removal
    have habsent := inv.drops _ _ ⟨n, pending⟩ (.dropActivity caller)
    refine (inv.setActivity peer none fun _ => habsent).setTask
      (fun task hnext p c hregisters => ?_) (fun task hnext p hdrops => ?_)
      (fun p c t hself => ?_) fun task p c hself hregisters => ?_
    · cases hnext
      cases hregisters
    · cases hnext
      cases hdrops
      exact habsent
    · cases pending.symm.trans hself
    · cases pending.symm.trans hself
      cases hregisters
  | droppedCapabilities n peer caller pending =>
    have habsent := inv.drops _ _ ⟨n, pending⟩ (.dropCapabilities caller)
    have hcapabilities : ∀ c, x.connections.lookup peer = some c → none = some c.capabilities := by
      intro c hc
      cases habsent.symm.trans hc
    refine (inv.setCapabilities hcapabilities).setTask_idle (fun task hself p c hregisters => ?_)
      fun task hnext => not_writes_of_resume hnext
    cases pending.symm.trans hself
    cases hregisters
  | cancelled n task pending cancellable =>
    -- a send registers nothing; what it leaves undropped is of a peer without a connection
    refine inv.setTask_idle (fun other hself p c hregisters => ?_) still_none
    cases pending.symm.trans hself
    cases hregisters <;> cases cancellable

theorem Inv.step {event : TableEvent ι γ} (exclusive : x.Exclusive maxConnections event)
    (h : x.step maxConnections event = some y) : y.Inv :=
  inv.moves (moves_of_step h) (exclusive y h)

end

/-- Every connection has its entries in the other tables, the capabilities being its own. -/
def Consistent (x : ConnectionTables ι γ) : Prop :=
  ∀ peer connection, x.connections.lookup peer = some connection →
    (x.lastActivity peer).isSome ∧ x.peerCapabilities peer = some connection.capabilities

theorem Inv.consistent (inv : x.Inv) (quiet : x.tasks = ∅) : x.Consistent := by
  have hnone : ∀ task, ¬ x.Pending task := by
    rintro task ⟨n, hn⟩
    rw [quiet, AList.lookup_empty] at hn
    cases hn
  intro peer connection hpresent
  constructor
  · rcases inv.activity peer connection hpresent with hactivity | ⟨now, hpending⟩
    · exact hactivity
    · exact absurd hpending (hnone _)
  · rcases inv.capabilities peer connection hpresent with hcapabilities | ⟨task, hpending, -⟩
    · exact hcapabilities
    · exact absurd hpending (hnone task)

/-- If no connection of a peer is entered or removed while another operation has yet to write one of
it, the tables are consistent at rest. The number of connections is bounded in any case. -/
theorem connection_tables_consistent {events : List (TableEvent ι γ)}
    (exclusive : Along (step maxConnections) (Exclusive maxConnections) initial events)
    (reach : run (step maxConnections) initial events = some x) :
    x.count ≤ maxConnections ∧ (x.tasks = ∅ → x.Consistent) := by
  have inv : x.Inv := run_invariant_of_along
    (fun _ _ _ inv exclusive h => inv.step exclusive h) inv_initial exclusive reach
  exact ⟨count_le reach, inv.consistent⟩

/-- A peer reconnects between the first step of the removal of its connection and the others. -/
theorem reconnect_loses_table_entries :
    ∃ x : ConnectionTables (Fin 1) ℕ, run (step 4) initial
        [.call 0 (.register 0 ⟨7, 1⟩ 0), .proceed 0, .proceed 0, .call 1 (.remove 0 7),
          .call 2 (.register 0 ⟨8, 2⟩ 5), .proceed 2, .proceed 2, .proceed 1, .proceed 1] = some x ∧
      x.tasks = ∅ ∧ x.connections.lookup 0 = some ⟨8, 2⟩ ∧ x.lastActivity 0 = none ∧
      x.peerCapabilities 0 = none := by
  refine ⟨_, rfl, ?_, ?_, ?_, ?_⟩ <;> rfl

/-- A peer reconnects while its old connection is in use, and an idle peer is evicted. -/
theorem connection_tables_consistent_reconnect :
    ∃ x : ConnectionTables (Fin 2) ℕ, run (step 4) initial
        [.call 0 (.register 0 ⟨7, 1⟩ 0), .proceed 0, .call 1 (.send 0 false 1), .proceed 0,
          .proceed 1, .proceed 1, .call 2 (.register 1 ⟨9, 3⟩ 2), .proceed 2, .proceed 2,
          .call 3 (.register 0 ⟨8, 2⟩ 30), .proceed 3, .call 4 (.remove 0 7), .proceed 3,
          .call 5 (.evictIdle 40 20 [0, 1]), .proceed 5, .proceed 5, .proceed 5, .proceed 5,
          .proceed 5] = some x ∧
      x.connections.lookup 0 = some ⟨8, 2⟩ ∧ x.connections.lookup 1 = none ∧
      x.Consistent := by
  exact exists_of_evaluated (fun x => x.connections.lookup 0 = some ⟨8, 2⟩ ∧
      x.connections.lookup 1 = none ∧ x.tasks.entries = [])
    (by decide +kernel) fun x hx ⟨hzero, hone, hquiet⟩ =>
      ⟨hzero, hone, (connection_tables_consistent (by decide +kernel) hx).2 (AList.ext hquiet)⟩

end ConnectionTables

end Chirps.Transport
