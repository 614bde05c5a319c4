/-
# Node ids of the groups of a manager

A new group starts with a copy of the manager's table of wire identities, and a registration goes
over the groups in the map. A group between the copy and its insertion is missed.
-/

import Chirps.Library.Run
import Chirps.Library.Table

namespace Chirps.MultiRaft

open Chirps.Library
open AList (lookup_insert lookup_insert_ne)

/-! ## Tables of identities -/

abbrev RaftNodeId := BitVec 64

/-- `NodeId`, the first byte being the most significant one. -/
abbrev WireNodeId := BitVec 128

abbrev NodeIds := AList fun _ : RaftNodeId => WireNodeId

def encodeCanonicalNodeId (id : RaftNodeId) : WireNodeId := 0#64 ++ id

def decodeCanonicalNodeId (wire : WireNodeId) : Option RaftNodeId :=
  if wire.extractLsb' 64 64 = 0 then some (wire.setWidth 64) else none

def encodeNodeId (nodeIds : NodeIds) (id : RaftNodeId) : WireNodeId :=
  (nodeIds.lookup id).getD (encodeCanonicalNodeId id)

def decodeNodeId (nodeIds : NodeIds) (wire : WireNodeId) : Option RaftNodeId :=
  match nodeIds.entries.find? fun entry => entry.2 == wire with
  | some entry => some entry.1
  | none => decodeCanonicalNodeId wire

/-! ## The manager -/

variable {κ : Type*}

/-- A call that holds the lock `lifecycle`. -/
inductive LifecycleCall (κ : Type*)
  /-- `create_group` waits for the storage. -/
  | preparing (group : κ)
  /-- `create_group` has the transport, with its table, and starts the node. -/
  | forked (group : κ) (nodeIds : NodeIds)
  /-- `remove_group` waits for the shutdown. -/
  | removing (group : κ)

inductive RegistrationStage (κ : Type*)
  | registering
  /-- The identity is in the manager's table. -/
  | noted
  /-- The groups are read-locked, and these are still to come. -/
  | visiting (rest : List κ)

/-- A call of `register_node_id`. -/
structure Registration (κ : Type*) where
  id : RaftNodeId
  wire : WireNodeId
  stage : RegistrationStage κ

/-- A manager, with the calls under way and, as a record, the ids that were registered or
learned. -/
structure Manager (κ : Type*) where
  nodeIds : NodeIds
  groups : AList fun _ : κ => NodeIds
  lifecycle : Option (LifecycleCall κ)
  registrations : AList fun _ : ℕ => Registration κ
  registered : List RaftNodeId

/-- `n` is the number of a registration. -/
inductive ManagerEvent (κ : Type*)
  /-- `create_group` takes the lock and looks at the groups. -/
  | create (group : κ)
  | fork
  /-- The new group is put into the map. -/
  | publish
  /-- `remove_group` takes the lock and looks for the group. -/
  | remove (group : κ)
  /-- The group is taken out of the map. -/
  | removed
  /-- The call with the lock fails, or is cancelled. -/
  | fail
  | register (n : ℕ) (id : RaftNodeId) (wire : WireNodeId)
  /-- `learn_source_node_id`, with the node id that the message names. -/
  | learn (n : ℕ) (source : WireNodeId) (sender : Option RaftNodeId)
  | note (n : ℕ)
  /-- The groups are read-locked and gone over in this order. -/
  | round (n : ℕ) (order : List κ)
  | visit (n : ℕ)

namespace Manager

def initial (nodeIds : NodeIds) : Manager κ := ⟨nodeIds, ∅, none, ∅, []⟩

def setRegistration (x : Manager κ) (n : ℕ) (r : Option (Registration κ)) : Manager κ :=
  { x with registrations := put x.registrations n r }

def reading (x : Manager κ) : Bool :=
  x.registrations.entries.any fun entry =>
    match entry.2.stage with
    | .visiting _ => true
    | .registering | .noted => false

/-- The registration that a call starts. A source that is known is not registered. -/
def takes (x : Manager κ) : ManagerEvent κ → Option (RaftNodeId × WireNodeId)
  | .register _ id wire => some (id, wire)
  | .learn _ source sender =>
    match decodeNodeId x.nodeIds source with
    | some _ => none
    | none => sender.map fun id => (id, source)
  | _ => none

def start (x : Manager κ) (n : ℕ) (event : ManagerEvent κ) : Option (Manager κ) :=
  if n ∈ x.registrations then none
  else
    match x.takes event with
    | none => some x
    | some (id, wire) =>
      some { x.setRegistration n (some ⟨id, wire, .registering⟩) with
        registered := id :: x.registered }

def going (r : Registration κ) : List κ → Option (Registration κ)
  | [] => none
  | rest@(_ :: _) => some { r with stage := .visiting rest }

variable [DecidableEq κ]

/-- `group.register_node_id`. -/
def enter (x : Manager κ) (group : κ) (id : RaftNodeId) (wire : WireNodeId) : Manager κ :=
  match x.groups.lookup group with
  | none => x
  | some nodeIds => { x with groups := x.groups.insert group (nodeIds.insert id wire) }

def step (maxGroups : ℕ) (x : Manager κ) : ManagerEvent κ → Option (Manager κ)
  | .create group =>
    match x.lifecycle with
    | some _ => none
    | none =>
      if group ∈ x.groups then some x
      else if maxGroups ≤ x.groups.keys.length then some x
      else some { x with lifecycle := some (.preparing group) }
  | .fork =>
    match x.lifecycle with
    | some (.preparing group) => some { x with lifecycle := some (.forked group x.nodeIds) }
    | _ => none
  | .publish =>
    match x.lifecycle with
    | some (.forked group nodeIds) =>
      if x.reading then none
      -- a group that is already there is put back
      else if group ∈ x.groups then some { x with lifecycle := none }
      else some { x with groups := x.groups.insert group nodeIds, lifecycle := none }
    | _ => none
  | .remove group =>
    match x.lifecycle with
    | some _ => none
    | none =>
      if group ∈ x.groups then some { x with lifecycle := some (.removing group) } else some x
  | .removed =>
    match x.lifecycle with
    | some (.removing group) =>
      if x.reading then none else some { x with groups := x.groups.erase group, lifecycle := none }
    | _ => none
  | .fail =>
    match x.lifecycle with
    | some _ => some { x with lifecycle := none }
    | none => none
  | .register n id wire => x.start n (.register n id wire)
  | .learn n source sender => x.start n (.learn n source sender)
  | .note n =>
    match x.registrations.lookup n with
    | some ⟨id, wire, .registering⟩ =>
      some { x.setRegistration n (some ⟨id, wire, .noted⟩) with
        nodeIds := x.nodeIds.insert id wire }
    | _ => none
  | .round n order =>
    match x.registrations.lookup n with
    | some ⟨id, wire, .noted⟩ =>
      if order.Perm x.groups.keys then
        some (x.setRegistration n (going ⟨id, wire, .noted⟩ order))
      else none
    | _ => none
  | .visit n =>
    match x.registrations.lookup n with
    | some ⟨id, wire, .visiting (group :: rest)⟩ =>
      some ((x.enter group id wire).setRegistration n (going ⟨id, wire, .visiting rest⟩ rest))
    | _ => none

inductive Moves (x : Manager κ) : ManagerEvent κ → Manager κ → Prop
  | unchanged {event : ManagerEvent κ} : Moves x event x
  | lifecycle {event : ManagerEvent κ} (call : Option (LifecycleCall κ))
      (other : ∀ group nodeIds, call ≠ some (.forked group nodeIds)) :
      Moves x event { x with lifecycle := call }
  | forked (group : κ) : Moves x .fork { x with lifecycle := some (.forked group x.nodeIds) }
  | published (group : κ) (nodeIds : NodeIds) (fork : x.lifecycle = some (.forked group nodeIds)) :
      Moves x .publish { x with groups := x.groups.insert group nodeIds, lifecycle := none }
  | erased (group : κ) :
      Moves x .removed { x with groups := x.groups.erase group, lifecycle := none }
  | began {event : ManagerEvent κ} (n : ℕ) (id : RaftNodeId) (wire : WireNodeId)
      (fresh : n ∉ x.registrations) (takes : x.takes event = some (id, wire)) :
      Moves x event { x.setRegistration n (some ⟨id, wire, .registering⟩) with
        registered := id :: x.registered }
  | noted (n : ℕ) (id : RaftNodeId) (wire : WireNodeId)
      (pending : x.registrations.lookup n = some ⟨id, wire, .registering⟩) :
      Moves x (.note n) { x.setRegistration n (some ⟨id, wire, .noted⟩) with
        nodeIds := x.nodeIds.insert id wire }
  | rounds (n : ℕ) (id : RaftNodeId) (wire : WireNodeId) (order : List κ)
      (pending : x.registrations.lookup n = some ⟨id, wire, .noted⟩)
      (perm : order.Perm x.groups.keys) :
      Moves x (.round n order) (x.setRegistration n (going ⟨id, wire, .noted⟩ order))
  | visited (n : ℕ) (id : RaftNodeId) (wire : WireNodeId) (group : κ) (rest : List κ)
      (pending : x.registrations.lookup n = some ⟨id, wire, .visiting (group :: rest)⟩) :
      Moves x (.visit n)
        ((x.enter group id wire).setRegistration n (going ⟨id, wire, .visiting rest⟩ rest))

variable {maxGroups : ℕ} {x y : Manager κ} {event : ManagerEvent κ}

theorem moves_of_start {n : ℕ} (h : x.start n event = some y) : Moves x event y := by
  rw [start] at h
  split_ifs at h with hfresh
  split at h
  · cases h
    exact .unchanged
  · rename_i id wire htakes
    cases h
    exact .began n id wire hfresh htakes

theorem moves_of_step (h : x.step maxGroups event = some y) : Moves x event y := by
  cases event with
  | create group =>
    rw [step] at h
    split at h
    · cases h
    · split_ifs at h <;> cases h
      · exact .unchanged
      · exact .unchanged
      · exact .lifecycle _ nofun
  | fork =>
    rw [step] at h
    split at h
    · cases h
      exact .forked _
    · cases h
  | publish =>
    rw [step] at h
    split at h
    · rename_i group nodeIds hfork
      split_ifs at h <;> cases h
      · exact .lifecycle _ nofun
      · exact .published group nodeIds hfork
    · cases h
  | remove group =>
    rw [step] at h
    split at h
    · cases h
    · split_ifs at h <;> cases h
      · exact .lifecycle _ nofun
      · exact .unchanged
  | removed =>
    rw [step] at h
    split at h
    · split_ifs at h
      cases h
      exact .erased _
    · cases h
  | fail =>
    rw [step] at h
    split at h
    · cases h
      exact .lifecycle _ nofun
    · cases h
  | register n id wire => exact moves_of_start h
  | learn n source sender => exact moves_of_start h
  | note n =>
    rw [step] at h
    split at h
    · rename_i id wire hpending
      cases h
      exact .noted n id wire hpending
    · cases h
  | round n order =>
    rw [step] at h
    split at h
    · rename_i id wire hpending
      split_ifs at h with hperm
      cases h
      exact .rounds n id wire order hpending hperm
    · cases h
  | visit n =>
    rw [step] at h
    split at h
    · rename_i id wire group rest hpending
      cases h
      exact .visited n id wire group rest hpending
    · cases h

end Manager

/-! ## Registrations that reach every group -/

inductive Registration.Reaches (group : κ) (id : RaftNodeId) : Registration κ → Prop
  | noted (wire : WireNodeId) : Reaches group id ⟨id, wire, .noted⟩
  | visiting (wire : WireNodeId) (rest : List κ) (mem : group ∈ rest) :
      Reaches group id ⟨id, wire, .visiting rest⟩

def LifecycleCall.Holds (id : RaftNodeId) (wire : WireNodeId) : LifecycleCall κ → Prop
  | .forked _ nodeIds => nodeIds.lookup id = some wire
  | .preparing _ | .removing _ => True

instance (id : RaftNodeId) (wire : WireNodeId) :
    ∀ call : LifecycleCall κ, Decidable (call.Holds id wire)
  | .forked _ nodeIds => inferInstanceAs (Decidable (nodeIds.lookup id = some wire))
  | .preparing _ | .removing _ => isTrue trivial

namespace Manager

/-- A registration goes over the groups only when every group outside the map has the entry. -/
def Covered (x : Manager κ) : ManagerEvent κ → Prop
  | .round n _ => ∀ r ∈ x.registrations.lookup n, ∀ call ∈ x.lifecycle, call.Holds r.id r.wire
  | _ => True

instance (x : Manager κ) : ∀ event : ManagerEvent κ, Decidable (x.Covered event)
  | .round n _ => inferInstanceAs (Decidable (∀ r ∈ x.registrations.lookup n,
      ∀ call ∈ x.lifecycle, call.Holds r.id r.wire))
  | .create _ | .fork | .publish | .remove _ | .removed | .fail | .register _ _ _ | .learn _ _ _
  | .note _ | .visit _ => isTrue trivial

/-- A registration starts only when overlapping ones of the id have a related wire id. -/
def Apart (sim : WireNodeId → WireNodeId → Prop) (x : Manager κ) (event : ManagerEvent κ) : Prop :=
  ∀ id wire, x.takes event = some (id, wire) →
    ∀ n r, x.registrations.lookup n = some r → r.id = id → sim r.wire wire

def Reached (x : Manager κ) (group : κ) (id : RaftNodeId) : Prop :=
  ∃ n r, x.registrations.lookup n = some r ∧ r.Reaches group id

/-- A group has the entries of the manager, up to `sim`, except for those still to be entered. -/
structure Inv [DecidableEq κ] (sim : WireNodeId → WireNodeId → Prop) (x : Manager κ) : Prop where
  groups : ∀ group nodeIds, x.groups.lookup group = some nodeIds → ∀ id,
    Option.Rel sim (nodeIds.lookup id) (x.nodeIds.lookup id) ∨ x.Reached group id
  fork : ∀ group nodeIds, x.lifecycle = some (.forked group nodeIds) → ∀ id,
    Option.Rel sim (nodeIds.lookup id) (x.nodeIds.lookup id) ∨
      ∃ n wire, x.registrations.lookup n = some ⟨id, wire, .noted⟩
  carried : ∀ n id wire stage, x.registrations.lookup n = some ⟨id, wire, stage⟩ →
    stage ≠ .registering → Option.Rel sim (some wire) (x.nodeIds.lookup id)
  apart : ∀ n r n' r', x.registrations.lookup n = some r → x.registrations.lookup n' = some r' →
    r.id = r'.id → sim r.wire r'.wire

section Invariant

variable {sim : WireNodeId → WireNodeId → Prop} {x y : Manager κ} {event : ManagerEvent κ} {n : ℕ}
  {r : Registration κ} {group : κ} {id : RaftNodeId} {wire : WireNodeId} {nodeIds : NodeIds}

variable {rest : List κ}

theorem going_eq_some {r' : Registration κ} (h : going r rest = some r') :
    r' = { r with stage := .visiting rest } := by
  cases rest with
  | nil => cases h
  | cons group rest =>
    cases h
    rfl

theorem going_of_mem (h : group ∈ rest) :
    going r rest = some { r with stage := .visiting rest } := by
  cases rest with
  | nil => cases h
  | cons head rest => rfl

variable {next : Option (Registration κ)}

theorem lookup_setRegistration {m : ℕ} (hm : x.registrations.lookup m = some r)
    (other : x.registrations.lookup n ≠ some r) :
    (x.setRegistration n next).registrations.lookup m = some r := by
  have hmn : m ≠ n := fun h => other (h ▸ hm)
  exact lookup_put_eq_some_iff.mpr (.inr ⟨hmn, hm⟩)

theorem Reached.setRegistration (reached : x.Reached group id)
    (self : ∀ r, x.registrations.lookup n = some r → r.Reaches group id →
      ∃ r', next = some r' ∧ r'.Reaches group id) :
    (x.setRegistration n next).Reached group id := by
  obtain ⟨m, r, hr, hreaches⟩ := reached
  by_cases hm : m = n
  · subst hm
    obtain ⟨r', hnext, hreaches'⟩ := self r hr hreaches
    exact ⟨m, r', lookup_put_eq_some_iff.mpr (.inl ⟨rfl, hnext⟩), hreaches'⟩
  · exact ⟨m, r, lookup_put_eq_some_iff.mpr (.inr ⟨hm, hr⟩), hreaches⟩

theorem not_mem_of_lookup (fresh : n ∉ x.registrations) : x.registrations.lookup n ≠ some r := by
  rw [AList.lookup_eq_none.mpr fresh]
  exact (Option.some_ne_none r).symm

def Recorded (x : Manager κ) : Prop :=
  ∀ id ∈ x.registered, (x.nodeIds.lookup id).isSome ∨
    ∃ n wire, x.registrations.lookup n = some ⟨id, wire, .registering⟩

variable {stage : RegistrationStage κ}

theorem Recorded.setRegistration (recorded : x.Recorded)
    (pending : x.registrations.lookup n = some ⟨id, wire, stage⟩) (hstage : stage ≠ .registering) :
    (x.setRegistration n next).Recorded := by
  intro i hi
  rcases recorded i hi with hsome | ⟨m, w, hm⟩
  · exact .inl hsome
  · refine .inr ⟨m, w, lookup_setRegistration hm fun hself => ?_⟩
    cases pending.symm.trans hself
    exact hstage rfl

theorem rel_refl (refl : ∀ wire, sim wire wire) : ∀ entry, Option.Rel sim entry entry
  | none => .none
  | some wire => .some (refl wire)

theorem eq_of_rel_eq {entry other : Option WireNodeId} (h : Option.Rel (· = ·) entry other) :
    entry = other := by
  cases h with
  | some h => rw [h]
  | none => rfl

variable [DecidableEq κ]

@[simp] theorem nodeIds_enter : (x.enter group id wire).nodeIds = x.nodeIds := by
  rw [enter]
  split <;> rfl

@[simp] theorem lifecycle_enter : (x.enter group id wire).lifecycle = x.lifecycle := by
  rw [enter]
  split <;> rfl

@[simp] theorem registrations_enter : (x.enter group id wire).registrations = x.registrations := by
  rw [enter]
  split <;> rfl

@[simp] theorem registered_enter : (x.enter group id wire).registered = x.registered := by
  rw [enter]
  split <;> rfl

theorem lookup_enter_of_ne {g : κ} (h : g ≠ group) :
    (x.enter group id wire).groups.lookup g = x.groups.lookup g := by
  rw [enter]
  split
  · rfl
  · exact lookup_insert_ne h

theorem lookup_enter_self (h : (x.enter group id wire).groups.lookup group = some nodeIds) :
    ∃ before, x.groups.lookup group = some before ∧ nodeIds = before.insert id wire := by
  rw [enter] at h
  split at h
  · rename_i hnone
    cases hnone.symm.trans h
  · rename_i before hbefore
    rw [lookup_insert, Option.some_inj] at h
    exact ⟨before, hbefore, h.symm⟩

theorem inv_initial (sim : WireNodeId → WireNodeId → Prop) (nodeIds : NodeIds) :
    (initial nodeIds : Manager κ).Inv sim where
  groups := nofun
  fork := nofun
  carried := nofun
  apart := nofun

section

variable (inv : x.Inv sim)
include inv

theorem Inv.setLifecycle {call : Option (LifecycleCall κ)}
    (other : ∀ group nodeIds, call ≠ some (.forked group nodeIds)) :
    { x with lifecycle := call }.Inv sim where
  groups := inv.groups
  fork := fun group nodeIds h => absurd h (other group nodeIds)
  carried := inv.carried
  apart := inv.apart

theorem Inv.published (fork : x.lifecycle = some (.forked group nodeIds)) :
    { x with groups := x.groups.insert group nodeIds, lifecycle := none }.Inv sim where
  groups g t ht id := by
    rcases lookup_insert_eq_some_iff.mp ht with ⟨rfl, rfl⟩ | ⟨-, hold⟩
    · rcases inv.fork g nodeIds fork id with hrel | ⟨n, wire, hpending⟩
      · exact .inl hrel
      · exact .inr ⟨n, _, hpending, .noted wire⟩
    · exact inv.groups g t hold id
  fork := nofun
  carried := inv.carried
  apart := inv.apart

theorem Inv.erased :
    { x with groups := x.groups.erase group, lifecycle := none }.Inv sim where
  groups g t ht := inv.groups g t (lookup_erase_eq_some_iff.mp ht).2
  fork := nofun
  carried := inv.carried
  apart := inv.apart

theorem Inv.began (refl : ∀ wire, sim wire wire)
    (symm : ∀ wire wire', sim wire wire' → sim wire' wire) (fresh : n ∉ x.registrations)
    (apart : ∀ m r, x.registrations.lookup m = some r → r.id = id → sim r.wire wire) :
    { x.setRegistration n (some ⟨id, wire, .registering⟩) with
      registered := id :: x.registered }.Inv sim where
  groups g t ht i := by
    rcases inv.groups g t ht i with hrel | hreached
    · exact .inl hrel
    · exact .inr (hreached.setRegistration fun r hr => absurd hr (not_mem_of_lookup fresh))
  fork g t ht i := by
    rcases inv.fork g t ht i with hrel | ⟨m, w, hm⟩
    · exact .inl hrel
    · exact .inr ⟨m, w, lookup_setRegistration hm (not_mem_of_lookup fresh)⟩
  carried m i w stage hm hstage := by
    rcases lookup_put_eq_some_iff.mp hm with ⟨-, hself⟩ | ⟨-, hold⟩
    · cases hself
      exact absurd rfl hstage
    · exact inv.carried m i w stage hold hstage
  apart m r m' r' hm hm' hid := by
    rcases lookup_put_eq_some_iff.mp hm with ⟨-, hself⟩ | ⟨-, hold⟩
    · cases hself
      rcases lookup_put_eq_some_iff.mp hm' with ⟨-, hself'⟩ | ⟨-, hold'⟩
      · cases hself'
        exact refl _
      · exact symm _ _ (apart m' r' hold' hid.symm)
    · rcases lookup_put_eq_some_iff.mp hm' with ⟨-, hself'⟩ | ⟨-, hold'⟩
      · cases hself'
        exact apart m r hold hid
      · exact inv.apart m r m' r' hold hold' hid

theorem Inv.carried_setRegistration
    (pending : x.registrations.lookup n = some ⟨id, wire, stage⟩) (hstage : stage ≠ .registering)
    (same : ∀ r, next = some r → r.id = id ∧ r.wire = wire) :
    ∀ m i w s, (x.setRegistration n next).registrations.lookup m = some ⟨i, w, s⟩ →
      s ≠ .registering → Option.Rel sim (some w) (x.nodeIds.lookup i) := by
  intro m i w s hm hs
  rcases lookup_put_eq_some_iff.mp hm with ⟨-, hself⟩ | ⟨-, hold⟩
  · obtain ⟨rfl, rfl⟩ := same _ hself
    exact inv.carried n _ _ stage pending hstage
  · exact inv.carried m i w s hold hs

theorem Inv.apart_setRegistration
    (pending : x.registrations.lookup n = some ⟨id, wire, stage⟩)
    (same : ∀ r, next = some r → r.id = id ∧ r.wire = wire) :
    ∀ m r m' r', (x.setRegistration n next).registrations.lookup m = some r →
      (x.setRegistration n next).registrations.lookup m' = some r' → r.id = r'.id →
        sim r.wire r'.wire := by
  -- every registration has the id and the wire id that one had before
  have hold : ∀ m r, (x.setRegistration n next).registrations.lookup m = some r →
      ∃ r₀, x.registrations.lookup m = some r₀ ∧ r₀.id = r.id ∧ r₀.wire = r.wire := by
    intro m r hm
    rcases lookup_put_eq_some_iff.mp hm with ⟨rfl, hself⟩ | ⟨-, hold⟩
    · obtain ⟨hid, hwire⟩ := same r hself
      exact ⟨_, pending, hid.symm, hwire.symm⟩
    · exact ⟨r, hold, rfl, rfl⟩
  intro m r m' r' hm hm' hid
  obtain ⟨r₀, hr₀, hr₀id, hr₀wire⟩ := hold m r hm
  obtain ⟨r₁, hr₁, hr₁id, hr₁wire⟩ := hold m' r' hm'
  rw [← hr₀wire, ← hr₁wire]
  exact inv.apart m r₀ m' r₁ hr₀ hr₁ (by rw [hr₀id, hr₁id, hid])

theorem Inv.noted
    (pending : x.registrations.lookup n = some ⟨id, wire, .registering⟩) :
    { x.setRegistration n (some ⟨id, wire, .noted⟩) with
      nodeIds := x.nodeIds.insert id wire }.Inv sim where
  groups g t ht i := by
    by_cases hi : i = id
    · subst hi
      exact .inr ⟨n, _, lookup_put_eq_some_iff.mpr (.inl ⟨rfl, rfl⟩), .noted wire⟩
    · rcases inv.groups g t ht i with hrel | hreached
      · exact .inl (by rwa [lookup_insert_ne hi])
      · refine .inr (hreached.setRegistration fun r hr hreaches => ?_)
        cases pending.symm.trans hr
        cases hreaches
  fork g t ht i := by
    by_cases hi : i = id
    · subst hi
      exact .inr ⟨n, wire, lookup_put_eq_some_iff.mpr (.inl ⟨rfl, rfl⟩)⟩
    · rcases inv.fork g t ht i with hrel | ⟨m, w, hm⟩
      · exact .inl (by rwa [lookup_insert_ne hi])
      · refine .inr ⟨m, w, lookup_setRegistration hm fun hself => ?_⟩
        cases pending.symm.trans hself
  carried m i w stage hm hstage := by
    -- a registration of the same id has a related wire id
    have hrel : i = id → sim w wire := by
      rintro rfl
      rcases lookup_put_eq_some_iff.mp hm with ⟨-, hself⟩ | ⟨-, hold⟩
      · cases hself
        exact inv.apart n _ n _ pending pending rfl
      · exact inv.apart m _ n _ hold pending rfl
    by_cases hi : i = id
    · subst hi
      rw [lookup_insert]
      exact .some (hrel rfl)
    · rw [lookup_insert_ne hi]
      rcases lookup_put_eq_some_iff.mp hm with ⟨-, hself⟩ | ⟨-, hold⟩
      · cases hself
        exact absurd rfl hi
      · exact inv.carried m i w stage hold hstage
  apart := inv.apart_setRegistration pending fun r h => by cases h; exact ⟨rfl, rfl⟩

theorem Inv.enter
    (carried : Option.Rel sim (some wire) (x.nodeIds.lookup id)) :
    (x.enter group id wire).Inv sim := by
  have hreached : ∀ {g i}, x.Reached g i → (x.enter group id wire).Reached g i := by
    rintro g i ⟨m, r, hm, hreaches⟩
    exact ⟨m, r, by rw [registrations_enter, hm], hreaches⟩
  refine ⟨fun g t ht i => ?_, ?_, ?_, ?_⟩
  · rw [nodeIds_enter]
    by_cases hg : g = group
    · subst hg
      obtain ⟨t₀, ht₀, rfl⟩ := lookup_enter_self ht
      by_cases hi : i = id
      · subst hi
        rw [lookup_insert]
        exact .inl carried
      · rw [lookup_insert_ne hi]
        exact (inv.groups g t₀ ht₀ i).imp_right hreached
    · rw [lookup_enter_of_ne hg] at ht
      exact (inv.groups g t ht i).imp_right hreached
  · rw [lifecycle_enter, nodeIds_enter, registrations_enter]
    exact inv.fork
  · rw [nodeIds_enter, registrations_enter]
    exact inv.carried
  · rw [registrations_enter]
    exact inv.apart

theorem Inv.rounds {order : List κ}
    (pending : x.registrations.lookup n = some ⟨id, wire, .noted⟩)
    (perm : order.Perm x.groups.keys) (covered : ∀ call ∈ x.lifecycle, call.Holds id wire) :
    (x.setRegistration n (going ⟨id, wire, .noted⟩ order)).Inv sim where
  groups g t ht i := by
    rcases inv.groups g t ht i with hrel | hreached
    · exact .inl hrel
    · refine .inr (hreached.setRegistration fun r hr hreaches => ?_)
      cases pending.symm.trans hr
      cases hreaches
      have hmem : g ∈ order := perm.mem_iff.mpr (AList.lookup_isSome.mp (Option.isSome_of_mem ht))
      exact ⟨_, going_of_mem hmem, .visiting wire order hmem⟩
  fork g t ht i := by
    rcases inv.fork g t ht i with hrel | ⟨m, w, hm⟩
    · exact .inl hrel
    · by_cases hmn : m = n
      · subst hmn
        cases pending.symm.trans hm
        -- the round will not come to this group, so it must have the entry
        have hholds : t.lookup id = some wire := covered _ ht
        rw [hholds]
        exact .inl (inv.carried m id wire _ pending (fun h => by cases h))
      · exact .inr ⟨m, w, lookup_put_eq_some_iff.mpr (.inr ⟨hmn, hm⟩)⟩
  carried := inv.carried_setRegistration pending (fun h => by cases h) fun r h => by
    rw [going_eq_some h]
    exact ⟨rfl, rfl⟩
  apart := inv.apart_setRegistration pending fun r h => by
    rw [going_eq_some h]
    exact ⟨rfl, rfl⟩

theorem Inv.visited
    (pending : x.registrations.lookup n = some ⟨id, wire, .visiting (group :: rest)⟩) :
    ((x.enter group id wire).setRegistration n (going ⟨id, wire, .visiting rest⟩ rest)).Inv
      sim := by
  have hcarried := inv.carried n id wire _ pending nofun
  have hentered : (x.enter group id wire).Inv sim := inv.enter hcarried
  have hpending : (x.enter group id wire).registrations.lookup n =
      some ⟨id, wire, .visiting (group :: rest)⟩ := by rw [registrations_enter, pending]
  have hsame : ∀ r, going ⟨id, wire, .visiting rest⟩ rest = some r → r.id = id ∧ r.wire = wire := by
    intro r h
    rw [going_eq_some h]
    exact ⟨rfl, rfl⟩
  refine ⟨fun g t ht i => ?_, fun g t ht i => ?_,
    hentered.carried_setRegistration hpending nofun hsame,
    hentered.apart_setRegistration hpending hsame⟩
  · by_cases hself : g = group ∧ i = id
    · obtain ⟨rfl, rfl⟩ := hself
      left
      obtain ⟨t₀, -, rfl⟩ := lookup_enter_self ht
      change Option.Rel sim _ ((x.enter g i wire).nodeIds.lookup i)
      rw [lookup_insert, nodeIds_enter]
      exact hcarried
    · rcases hentered.groups g t ht i with hrel | hreached
      · exact .inl hrel
      · refine .inr (hreached.setRegistration fun r hr hreaches => ?_)
        cases hpending.symm.trans hr
        cases hreaches with
        | visiting _ _ hmem =>
          have hrest : g ∈ rest := by
            rcases List.mem_cons.mp hmem with rfl | hrest
            · exact absurd ⟨rfl, rfl⟩ hself
            · exact hrest
          exact ⟨_, going_of_mem hrest, .visiting wire rest hrest⟩
  · rcases hentered.fork g t ht i with hrel | ⟨m, w, hm⟩
    · exact .inl hrel
    · refine .inr ⟨m, w, lookup_setRegistration hm fun hself => ?_⟩
      cases hpending.symm.trans hself

theorem Inv.moves (refl : ∀ wire, sim wire wire)
    (symm : ∀ wire wire', sim wire wire' → sim wire' wire) (moves : Moves x event y)
    (covered : x.Covered event) (apart : x.Apart sim event) : y.Inv sim := by
  cases moves with
  | unchanged => exact inv
  | lifecycle call other => exact inv.setLifecycle other
  | forked group =>
    -- the copy is that of this moment
    refine ⟨inv.groups, fun g t ht i => ?_, inv.carried, inv.apart⟩
    cases ht
    exact .inl (rel_refl refl _)
  | published group nodeIds fork => exact inv.published fork
  | erased group => exact inv.erased
  | began n id wire fresh takes => exact inv.began refl symm fresh (apart id wire takes)
  | noted n id wire pending => exact inv.noted pending
  | rounds n id wire order pending perm => exact inv.rounds pending perm (covered _ pending)
  | visited n id wire group rest pending => exact inv.visited pending

end

theorem Inv.of_run (refl : ∀ wire, sim wire wire)
    (symm : ∀ wire wire', sim wire wire' → sim wire' wire) {maxGroups : ℕ}
    {events : List (ManagerEvent κ)}
    (covered : Along (step maxGroups) Covered (initial nodeIds) events)
    (apart : Along (step maxGroups) (Apart sim) (initial nodeIds) events)
    (reach : run (step maxGroups) (initial nodeIds) events = some x) : x.Inv sim :=
  run_invariant_of_along
    (fun _ _ _ inv guard hstep => inv.moves refl symm (moves_of_step hstep) guard.1 guard.2)
    (inv_initial sim nodeIds) (covered.and apart) reach

theorem Inv.rel_of_quiet (inv : x.Inv sim) (quiet : x.registrations = ∅)
    (hgroup : x.groups.lookup group = some nodeIds) (id : RaftNodeId) :
    Option.Rel sim (nodeIds.lookup id) (x.nodeIds.lookup id) := by
  rcases inv.groups group nodeIds hgroup id with hrel | ⟨n, r, hr, -⟩
  · exact hrel
  · rw [quiet, AList.lookup_empty] at hr
    cases hr

theorem Recorded.moves (recorded : x.Recorded) (moves : Moves x event y) : y.Recorded := by
  cases moves with
  | unchanged | lifecycle | forked | published | erased => exact recorded
  | began n id wire fresh takes =>
    intro i hi
    rcases List.mem_cons.mp hi with rfl | hi
    · exact .inr ⟨n, wire, lookup_put_eq_some_iff.mpr (.inl ⟨rfl, rfl⟩)⟩
    · rcases recorded i hi with hsome | ⟨m, w, hm⟩
      · exact .inl hsome
      · exact .inr ⟨m, w, lookup_setRegistration hm (not_mem_of_lookup fresh)⟩
  | noted n id wire pending =>
    intro i hi
    by_cases hid : i = id
    · subst hid
      exact .inl (by simp)
    · rcases recorded i hi with hsome | ⟨m, w, hm⟩
      · exact .inl (by rwa [lookup_insert_ne hid])
      · refine .inr ⟨m, w, lookup_setRegistration hm fun hself => ?_⟩
        cases pending.symm.trans hself
        exact hid rfl
  | rounds n id wire order pending perm =>
    exact recorded.setRegistration pending fun h => by cases h
  | visited n id wire group rest pending =>
    have hentered : (x.enter group id wire).Recorded := by
      intro i hi
      rw [nodeIds_enter, registrations_enter]
      exact recorded i (by rwa [registered_enter] at hi)
    exact hentered.setRegistration (by rw [registrations_enter, pending]) fun h => by cases h

end Invariant

variable [DecidableEq κ]

/-- If no registration goes over the groups while a group without its entry is outside the map,
every group has, at rest, an entry for every id, and the manager's one if overlapping registrations
agree. -/
theorem groups_resolve_node_ids {maxGroups : ℕ} {nodeIds table : NodeIds}
    {events : List (ManagerEvent κ)} {x : Manager κ} {group : κ}
    (covered : Along (step maxGroups) Covered (initial nodeIds) events)
    (reach : run (step maxGroups) (initial nodeIds) events = some x)
    (returned : x.lifecycle = none ∧ x.registrations = ∅)
    (registered : x.groups.lookup group = some table) :
    (∀ id ∈ x.registered, (table.lookup id).isSome) ∧
      (Along (step maxGroups) (Apart (· = ·)) (initial nodeIds) events →
        ∀ id, encodeNodeId table id = encodeNodeId x.nodeIds id) := by
  constructor
  · intro id hid
    -- which wire id an entry has does not matter for there being one
    have inv : x.Inv fun _ _ => True :=
      .of_run (fun _ => trivial) (fun _ _ _ => trivial) covered
        (along_of_forall fun _ _ _ _ _ _ _ _ _ _ => trivial) reach
    have recorded : x.Recorded := run_invariant
      (fun _ _ _ recorded hstep => recorded.moves (moves_of_step hstep))
      (fun _ h => by cases h) reach
    have hsome : (x.nodeIds.lookup id).isSome := by
      rcases recorded id hid with hsome | ⟨n, wire, hpending⟩
      · exact hsome
      · rw [returned.2, AList.lookup_empty] at hpending
        cases hpending
    have hrel := inv.rel_of_quiet returned.2 registered id
    obtain ⟨wire, hwire⟩ := Option.isSome_iff_exists.mp hsome
    rw [hwire] at hrel
    cases hlookup : table.lookup id with
    | none =>
      rw [hlookup] at hrel
      cases hrel
    | some other => rfl
  · intro apart id
    have inv : x.Inv (· = ·) := .of_run (fun _ => rfl) (fun _ _ h => h.symm) covered apart reach
    have hlookup := eq_of_rel_eq (inv.rel_of_quiet returned.2 registered id)
    rw [encodeNodeId, encodeNodeId, hlookup]

/-- A registration goes over the groups after a group was forked and before it is in the map. -/
theorem registration_misses_forked_group :
    let wire : WireNodeId := 7#64 ++ 9#64
    ∃ (x : Manager ℕ) (table : NodeIds), run (step 100) (initial ∅)
        [.create 1, .fork, .register 0 5 wire, .note 0, .round 0 [], .publish] = some x ∧
      x.lifecycle = none ∧ x.registrations = ∅ ∧ x.registered = [5] ∧
      x.groups.lookup 1 = some table ∧ table.lookup 5 = none ∧
      encodeNodeId table 5 = encodeCanonicalNodeId 5 ∧ encodeNodeId x.nodeIds 5 = wire := by
  refine ⟨_, ∅, rfl, ?_, ?_, ?_, ?_, ?_, ?_, ?_⟩ <;> rfl

/-- A registration waits until the group is in the map, and another one learns an id. -/
theorem groups_resolve_node_ids_late_round :
    let wire : WireNodeId := 7#64 ++ 9#64
    let source : WireNodeId := 8#64 ++ 9#64
    ∃ (x : Manager ℕ) (table : NodeIds), run (step 100) (initial ∅)
        [.create 1, .fork, .register 0 5 wire, .note 0, .learn 1 source (some 6), .publish,
          .round 0 [1], .note 1, .visit 0, .round 1 [1], .visit 1] = some x ∧
      x.registered = [6, 5] ∧ x.groups.lookup 1 = some table ∧
      (∀ id ∈ x.registered, (table.lookup id).isSome) := by
  intro wire source
  have hends := exists_of_evaluated (o := run (step 100) (initial ∅ : Manager ℕ)
      [.create 1, .fork, .register 0 5 wire, .note 0, .learn 1 source (some 6), .publish,
        .round 0 [1], .note 1, .visit 0, .round 1 [1], .visit 1])
    (fun x => x.lifecycle = none ∧ x.registrations.entries.length = 0 ∧ x.registered = [6, 5] ∧
      (x.groups.lookup 1).isSome) (by decide +kernel) fun _ _ facts => facts
  obtain ⟨x, hx, hlifecycle, hregistrations, hregistered, hgroup⟩ := hends
  obtain ⟨table, htable⟩ := Option.isSome_iff_exists.mp hgroup
  have hempty : x.registrations = ∅ := AList.ext (List.length_eq_zero_iff.mp hregistrations)
  have hresolve := groups_resolve_node_ids (by decide +kernel) hx ⟨hlifecycle, hempty⟩ htable
  exact ⟨x, table, hx, hregistered, htable, hresolve.1⟩

end Manager

end Chirps.MultiRaft
