/-
# Raft types, WAL records and snapshot metadata

The types of the consensus library as far as the storage uses them, and the storage's own records
and frames. Indices, terms and node ids are `UInt64`: the storage computes `index + 1`, which wraps.
-/

import Mathlib

namespace Chirps.RaftStorage

abbrev ChirpsNodeId := UInt64

structure GroupId where
  val : UInt64
  deriving DecidableEq

abbrev Bytes := List UInt8

def u64Max : UInt64 := 18446744073709551615

structure LeaderId where
  term : UInt64
  nodeId : ChirpsNodeId
  deriving DecidableEq

structure LogId where
  leaderId : LeaderId
  index : UInt64
  deriving DecidableEq

structure BasicNode where
  addr : String
  deriving DecidableEq

structure Membership where
  configs : List (List ChirpsNodeId)
  nodes : List (ChirpsNodeId × BasicNode)
  deriving DecidableEq

structure StoredMembership where
  logId : Option LogId
  membership : Membership
  deriving DecidableEq

def StoredMembership.empty : StoredMembership := ⟨none, ⟨[], []⟩⟩

inductive EntryPayload
  | blank
  | normal (command : Bytes)
  | membership (membership : Membership)
  deriving DecidableEq

structure Entry where
  logId : LogId
  payload : EntryPayload
  deriving DecidableEq

structure Vote where
  leaderId : LeaderId
  committed : Bool

structure SnapshotMeta where
  lastLogId : Option LogId
  lastMembership : StoredMembership
  snapshotId : String
  deriving DecidableEq

/-- `Snapshot<ChirpsTypeConfig>` with the bytes of its cursor. -/
structure Snapshot where
  info : SnapshotMeta
  data : Bytes

structure LogState where
  lastPurgedLogId : Option LogId
  lastLogId : Option LogId

structure WalHeader where
  magic : Bytes
  formatVersion : UInt32
  groupId : GroupId
  nodeId : ChirpsNodeId
  createdAt : UInt64
  reserved : Bytes

inductive RaftWalRecord
  | appendLog (entry : Entry)
  | vote (vote : Vote)
  | snapshotApplied (info : SnapshotMeta)
  | truncate (logId : LogId)
  | purge (logId : LogId)

inductive WalFrame
  | header (header : WalHeader)
  | record (record : RaftWalRecord)

/-- `ErrorSubject`, as far as the storage names it. -/
inductive ErrorSubject
  | logs
  | vote
  | stateMachine
  | snapshot (info : Option SnapshotMeta)

inductive ErrorVerb
  | read
  | write

/-- `StorageError`, with the text of the wrapped I/O error. -/
structure StorageError where
  subject : ErrorSubject
  verb : ErrorVerb
  message : String

inductive Bound
  | included (value : UInt64)
  | excluded (value : UInt64)
  | unbounded

/-- A `RangeBounds<u64>`. -/
structure IndexRange where
  start : Bound
  stop : Bound

namespace IndexRange

/-- The range `..`. -/
def full : IndexRange := ⟨.unbounded, .unbounded⟩

/-- `range_contains`. -/
def contains (range : IndexRange) (value : UInt64) : Bool :=
  let startOk := match range.start with
    | .included v => decide (v ≤ value)
    | .excluded v => decide (v < value)
    | .unbounded => true
  let stopOk := match range.stop with
    | .included v => decide (value ≤ v)
    | .excluded v => decide (value < v)
    | .unbounded => true
  startOk && stopOk

/-- `BTreeMap::range` panics when the start is behind the end, or equal and both excluded. -/
def accepted (range : IndexRange) : Bool :=
  match range.start, range.stop with
  | .excluded s, .excluded e => decide (s < e)
  | .included s, .included e => decide (s ≤ e)
  | .included s, .excluded e => decide (s ≤ e)
  | .excluded s, .included e => decide (s ≤ e)
  | _, _ => true

@[simp] theorem full_contains (value : UInt64) : full.contains value = true := rfl

@[simp] theorem full_accepted : full.accepted = true := rfl

end IndexRange

end Chirps.RaftStorage
