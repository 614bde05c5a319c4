/-
# Recovery and the log state

Without snapshots a read returns the log that both folds over the WAL build, so a recovered storage
answers as the one that stopped. `get_log_state` reads the cache and is exact only while the last
entry is cached.
-/

import Chirps.RaftStorage.LogView

namespace Chirps.RaftStorage

open Chirps.Library WalRaftStorage

def RaftWalRecord.NoMarker : RaftWalRecord → Prop
  | .snapshotApplied _ => False
  | _ => True

def Op.NoInstall {SM : Type*} : Op SM → Prop
  | .installSnapshot _ _ _ => False
  | _ => True

theorem Op.NoInstall.records_noMarker {SM : Type*} {op : Op SM} (h : op.NoInstall) :
    ∀ record ∈ op.records, record.NoMarker := by
  cases op with
  | append entries =>
    intro record hrecord
    obtain ⟨entry, -, rfl⟩ := List.mem_map.mp hrecord
    trivial
  | installSnapshot info data outcome => exact h.elim
  | _ => simp [Op.records, RaftWalRecord.NoMarker]

theorem foldl_readRecord_eq_replayRecord {records : List RaftWalRecord}
    (noMarker : ∀ record ∈ records, record.NoMarker) (m : IndexedEntries) :
    (records.map .record).foldl (readRecord .full) m =
      (records.map .record).foldl replayRecord m := by
  induction records generalizing m with
  | nil => rfl
  | cons record rest ih =>
    have hrest := ih fun r hr => noMarker r (List.mem_cons_of_mem record hr)
    rw [List.map_cons, List.foldl_cons, List.foldl_cons, hrest]
    cases record with
    | snapshotApplied info => exact (noMarker _ List.mem_cons_self).elim
    | _ => rfl

theorem walLog_eq_replayLog_of_noInstall {SM : Type*} {history : List (Op SM)}
    (noInstall : ∀ op ∈ history, op.NoInstall) (header : WalHeader) :
    walLog (.header header :: historyFrames history) =
      replayLog (.header header :: historyFrames history) := by
  refine foldl_readRecord_eq_replayRecord (fun record hrecord => ?_) .empty
  obtain ⟨op, hop, hrecord⟩ := List.mem_flatMap.mp hrecord
  exact (noInstall op hop).records_noMarker record hrecord

namespace WalRaftStorage

variable {SM : Type*}

theorem view_eq_walLog {s : WalRaftStorage SM} (settled : s.Settled)
    (h : s.logCache.entries.Sub (walLog s.frames)) : s.view = walLog s.frames := by
  ext1 k
  rw [view, settled.file_eq, IndexedEntries.lookup_overlay]
  cases hk : s.logCache.entries.lookup k with
  | none => rfl
  | some e => exact (h k e hk).symm

theorem read_eq (s : WalRaftStorage SM) (range : IndexRange) :
    (s.tryGetLogEntries range).map Prod.fst =
      if range.accepted then some (s.view.valuesIn range) else none := by
  cases haccepted : range.accepted with
  | false => rw [tryGetLogEntries_rejected haccepted]; rfl
  | true =>
    obtain ⟨cache, heq, -⟩ := s.tryGetLogEntries_eq haccepted
    rw [heq]
    rfl

end WalRaftStorage

/-! ## Recovery -/

/-- The record does not replace, truncate or purge the entry at `index`. -/
def RaftWalRecord.Spares (index : UInt64) : RaftWalRecord → Prop
  | .appendLog entry => entry.logId.index ≠ index
  | .truncate logId => index ≤ logId.index
  | .purge logId => logId.index < index
  | .vote _ | .snapshotApplied _ => True

instance (index : UInt64) : DecidablePred (RaftWalRecord.Spares index)
  | .appendLog entry => inferInstanceAs (Decidable (entry.logId.index ≠ index))
  | .truncate logId => inferInstanceAs (Decidable (index ≤ logId.index))
  | .purge logId => inferInstanceAs (Decidable (logId.index < index))
  | .vote _ | .snapshotApplied _ => isTrue trivial

theorem lookup_foldl_replayRecord_of_spares {index : UInt64} {entry : Entry}
    {records : List RaftWalRecord} {m : IndexedEntries} (h : m.lookup index = some entry)
    (belowMax : ∀ logId, RaftWalRecord.truncate logId ∈ records → logId.index < u64Max)
    (spares : ∀ record ∈ records, record.Spares index) :
    ((records.map .record).foldl replayRecord m).lookup index = some entry := by
  induction records generalizing m with
  | nil => exact h
  | cons record rest ih =>
    -- the invariant of the fold: the entry is still there after this record
    refine ih ?_ (fun logId hmem => belowMax logId (List.mem_cons_of_mem record hmem))
      fun r hr => spares r (List.mem_cons_of_mem record hr)
    have hspared := spares record List.mem_cons_self
    cases record with
    | appendLog e =>
      rw [replayRecord, IndexedEntries.lookup_insert, if_neg hspared]
      exact h
    | truncate logId =>
      -- without the bound `index + 1` is 0 and the truncation removes everything
      have hkept : ¬ logId.index + 1 ≤ index := by
        have hbelow := belowMax logId List.mem_cons_self
        simp only [RaftWalRecord.Spares, u64Max] at hspared hbelow
        grind
      rw [replayRecord, IndexedEntries.lookup_removeWhere, if_neg (by simpa using hkept)]
      exact h
    | purge logId =>
      have hkept : ¬ index ≤ logId.index := by
        simp only [RaftWalRecord.Spares] at hspared
        grind
      rw [replayRecord, IndexedEntries.lookup_removeWhere, if_neg (by simpa using hkept)]
      exact h
    | _ => exact h

variable {SM : Type*} [StateMachine SM]

/-- Without a snapshot install, a recovered storage has the vote, the purged log id and the reads of
the one that stopped, and every entry whose record no later record removes. -/
theorem recovery_refines_log (codec : SnapshotCodec) (c : Creation SM) (history : List (Op SM))
    (s : WalRaftStorage SM) (reach : Reaches codec c history s)
    (noInstall : ∀ op ∈ history, op.NoInstall)
    (belowMax : ∀ logId, Op.truncate logId ∈ history → logId.index < u64Max)
    (stateMachine : SM) (now : UInt64) (writeFaults : List (Option String))
    (syncOutcomes : List SyncOutcome) :
    ∃ t, s.recoverFrom stateMachine now writeFaults syncOutcomes = .ok t ∧
      t.readVote = s.readVote ∧ t.lastPurgedLogId = s.lastPurgedLogId ∧
      (∀ range, (t.tryGetLogEntries range).map Prod.fst =
        (s.tryGetLogEntries range).map Prod.fst) ∧
      ∀ before entry after,
        history.flatMap Op.records = before ++ RaftWalRecord.appendLog entry :: after →
        (∀ record ∈ after, record.Spares entry.logId.index) →
        ∃ entries, (t.tryGetLogEntries .full).map Prod.fst = some entries ∧ entry ∈ entries := by
  obtain ⟨hsound, header, hframes⟩ := reach.sound
  obtain ⟨t, hrecover⟩ := hsound.exists_recoverFrom stateMachine now writeFaults syncOutcomes
  have hextends := hsound.extends_recoverFrom hrecover
  have hsound' := hsound.of_extends hextends
  have hframes' : t.frames = s.frames := hextends.frames.trans (List.append_nil _)
  -- both views are the log of the WAL
  have hfolds : walLog s.frames = replayLog s.frames := by
    rw [hframes]
    exact walLog_eq_replayLog_of_noInstall noInstall header
  have hview : s.view = walLog s.frames := view_eq_walLog hsound.settled (hfolds ▸ hsound.cache_sub)
  have hview' : t.view = walLog s.frames := by
    rw [view_eq_walLog hsound'.settled, hframes']
    rw [hframes', hfolds, ← hframes']
    exact hsound'.cache_sub
  refine ⟨t, hrecover, hextends.vote, hextends.purged, fun range => ?_, ?_⟩
  · rw [read_eq, read_eq, hview, hview']
  · intro before entry after hrecords hspares
    refine ⟨_, by rw [read_eq, IndexRange.full_accepted, if_pos rfl], ?_⟩
    rw [IndexedEntries.mem_valuesIn, hview', hfolds, hframes]
    refine ⟨rfl, ?_⟩
    have hbelow : ∀ logId, RaftWalRecord.truncate logId ∈ after → logId.index < u64Max := by
      intro logId hmem
      have hall : RaftWalRecord.truncate logId ∈ history.flatMap Op.records := by
        rw [hrecords]
        simp [hmem]
      obtain ⟨op, hop, hrecord⟩ := List.mem_flatMap.mp hall
      obtain rfl : op = .truncate logId := by
        cases op <;> simp [Op.records] at hrecord
        rw [hrecord]
      exact belowMax logId hop
    -- the entry is in the log right after its own record; the later ones spare it
    have hsplit : replayLog (.header header :: historyFrames history) =
        (after.map .record).foldl replayRecord
          (((before.map .record).foldl replayRecord .empty).insert entry) := by
      rw [historyFrames, hrecords, List.map_append, List.map_cons, replayLog, List.foldl_cons,
        List.foldl_append, List.foldl_cons]
      rfl
    rw [hsplit]
    refine lookup_foldl_replayRecord_of_spares ?_ hbelow hspares
    rw [IndexedEntries.lookup_insert, if_pos rfl]

def emptySnapshot : SnapshotMeta := ⟨none, .empty, "empty"⟩

/-- An entry that a later append at its index replaces is not returned, although
nothing has been truncated or purged. -/
theorem replaced_entry_is_not_returned :
    ∃ s t entries, Reaches (singleCodec emptySnapshot) (smallCreation 16)
        [.append [commandAt 1 [10]], .append [commandAt 1 [20]]] s ∧
      s.recoverFrom ⟨⟩ 0 [] [] = .ok t ∧
      (t.tryGetLogEntries .full).map Prod.fst = some entries ∧
      entries = [commandAt 1 [20]] ∧ commandAt 1 [10] ∉ entries :=
  ⟨_, _, _, ⟨_, rfl, rfl⟩, rfl, rfl, rfl, by decide⟩

theorem recovery_refines_log_after_purge :
    ∃ s t, Reaches (singleCodec emptySnapshot) (smallCreation 1)
        [.append [commandAt 1 [10], commandAt 2 [20]], .saveVote ⟨⟨2, 1⟩, false⟩,
          .tryGetLogEntries .full, .purge ⟨⟨1, 1⟩, 1⟩] s ∧
      s.recoverFrom ⟨⟩ 0 [] [] = .ok t ∧ t.readVote = s.readVote ∧
      ∃ entries, (t.tryGetLogEntries .full).map Prod.fst = some entries ∧
        commandAt 2 [20] ∈ entries := by
  have reach : Reaches (singleCodec emptySnapshot) (smallCreation 1)
      [.append [commandAt 1 [10], commandAt 2 [20]], .saveVote ⟨⟨2, 1⟩, false⟩,
        .tryGetLogEntries .full, .purge ⟨⟨1, 1⟩, 1⟩] _ := ⟨_, rfl, rfl⟩
  obtain ⟨t, hrecover, hvote, -, -, hreturned⟩ := recovery_refines_log _ _ _ _ reach
    (by simp [Op.NoInstall]) (by simp) ⟨⟩ 0 [] []
  exact ⟨_, t, reach, hrecover, hvote, hreturned [.appendLog (commandAt 1 [10])]
    (commandAt 2 [20]) _ rfl (by decide)⟩

/-! ## The log state -/

/-- The log after a record as Raft means it: a truncation takes out its own index and all behind
it. -/
def specRecord (log : IndexedEntries) : RaftWalRecord → IndexedEntries
  | .appendLog entry => log.insert entry
  | .truncate logId => log.removeWhere fun k => decide (logId.index ≤ k)
  | .purge logId => log.removeWhere fun k => decide (k ≤ logId.index)
  | .vote _ | .snapshotApplied _ => log

/-- The appended entries without those truncated or purged since. -/
def logicalLog (history : List (Op SM)) : IndexedEntries :=
  (history.flatMap Op.records).foldl specRecord .empty

/-- The logs have no two entries for one index. Neither need contain the other: `truncate` keeps its
own index in the code's log, and at `u64::MAX` removes all of it. -/
def IndexedEntries.Agrees (log log' : IndexedEntries) : Prop :=
  ∀ k a b, log.lookup k = some a → log'.lookup k = some b → a = b

theorem IndexedEntries.Agrees.insert {log log' : IndexedEntries} (h : log.Agrees log')
    (entry : Entry) : (log.insert entry).Agrees (log'.insert entry) := by
  intro k a b ha hb
  rw [lookup_insert] at ha hb
  split at ha
  · rw [if_pos ‹_›] at hb
    exact Option.some.inj (ha.symm.trans hb)
  · rw [if_neg ‹_›] at hb
    exact h k a b ha hb

theorem IndexedEntries.Agrees.removeWhere {log log' : IndexedEntries} (h : log.Agrees log')
    (p q : UInt64 → Bool) : (log.removeWhere p).Agrees (log'.removeWhere q) :=
  fun k a b ha hb => h k a b (log.removeWhere_sub p k a ha) (log'.removeWhere_sub q k b hb)

theorem foldl_specRecord_agrees (records : List RaftWalRecord) {log log' : IndexedEntries}
    (h : log.Agrees log') :
    (records.foldl specRecord log).Agrees ((records.map .record).foldl replayRecord log') := by
  induction records generalizing log log' with
  | nil => exact h
  | cons record rest ih =>
    refine ih ?_
    cases record with
    | appendLog entry => exact h.insert entry
    | truncate logId => exact h.removeWhere _ _
    | purge logId => exact h.removeWhere _ _
    | _ => exact h

/-- The log id of the last entry, or the purged one when there is no entry. -/
def exactLastLogId (log : IndexedEntries) (purged : Option LogId) : Option LogId :=
  (log.last?.map Entry.logId).or purged

/-- `entry` is cached and nothing behind it is. -/
def LogCache.EndsWith (cache : LogCache) (entry : Entry) : Prop :=
  cache.entries.lookup entry.logId.index = some entry ∧
    ∀ k, (cache.entries.lookup k).isSome = true → k ≤ entry.logId.index

/-- `get_log_state` is exact just when the cache ends with the last entry of the log and, should the
log be empty, nothing is cached or purged, or the cache ends with the entry purged last. -/
theorem get_log_state_exact_iff (codec : SnapshotCodec) (c : Creation SM)
    (history : List (Op SM)) (s : WalRaftStorage SM) (reach : Reaches codec c history s) :
    s.getLogState.lastLogId = exactLastLogId (logicalLog history) s.lastPurgedLogId ↔
      (∀ entry, (logicalLog history).last? = some entry → s.logCache.EndsWith entry) ∧
      ((logicalLog history).last? = none →
        (∀ k, s.logCache.entries.lookup k = none) ∧ s.lastPurgedLogId = none ∨
          ∃ entry, s.logCache.EndsWith entry ∧ s.lastPurgedLogId = some entry.logId) := by
  obtain ⟨hsound, header, hframes⟩ := reach.sound
  have hagrees : (logicalLog history).Agrees s.logCache.entries := by
    intro k a b ha hb
    have hreplay := hsound.cache_sub k b hb
    rw [hframes] at hreplay
    exact foldl_specRecord_agrees _ (fun _ _ _ h _ => by simp at h) k a b ha hreplay
  change s.logCache.entries.last?.map Entry.logId = _ ↔ _
  simp only [LogCache.EndsWith, ← IndexedEntries.last?_eq_some, ← IndexedEntries.last?_eq_none]
  cases hlast : (logicalLog history).last? with
  | none =>
    cases hcache : s.logCache.entries.last? <;> simp [exactLastLogId, hlast, eq_comm]
  | some entry =>
    obtain ⟨hentry, -⟩ := IndexedEntries.last?_eq_some.mp hlast
    have hexact : exactLastLogId (logicalLog history) s.lastPurgedLogId = some entry.logId := by
      rw [exactLastLogId, hlast]
      rfl
    rw [hexact]
    constructor
    · intro hid
      obtain ⟨cached, hcached, hcachedId⟩ := Option.map_eq_some_iff.mp hid
      have hlookup := (IndexedEntries.last?_eq_some.mp hcached).1
      rw [hcachedId] at hlookup
      -- the cache and the log agree on the entry with that log id
      obtain rfl := hagrees _ _ _ hentry hlookup
      exact ⟨fun e he => by rw [hcached, he], fun h => by simp at h⟩
    · rintro ⟨hcached, -⟩
      rw [hcached entry rfl]
      rfl

/-- One read of an older entry evicts the last one from a cache of size 1, and the last log id goes
back from 2 to 1. A truncation at 2 leaves it at 2. -/
theorem read_moves_last_log_id_back :
    (∃ s, Reaches (singleCodec emptySnapshot) (smallCreation 1)
        [.append [commandAt 1 [10], commandAt 2 [20]],
          .tryGetLogEntries ⟨.included 1, .included 1⟩] s ∧
      s.getLogState.lastLogId = some ⟨⟨1, 1⟩, 1⟩ ∧
      exactLastLogId (logicalLog ([.append [commandAt 1 [10], commandAt 2 [20]],
        .tryGetLogEntries ⟨.included 1, .included 1⟩] : List (Op MockStateMachine)))
        s.lastPurgedLogId = some ⟨⟨1, 1⟩, 2⟩) ∧
    ∃ s, Reaches (singleCodec emptySnapshot) (smallCreation 2)
        [.append [commandAt 1 [10], commandAt 2 [20]], .truncate ⟨⟨1, 1⟩, 2⟩] s ∧
      s.getLogState.lastLogId = some ⟨⟨1, 1⟩, 2⟩ ∧
      exactLastLogId (logicalLog ([.append [commandAt 1 [10], commandAt 2 [20]],
        .truncate ⟨⟨1, 1⟩, 2⟩] : List (Op MockStateMachine))) s.lastPurgedLogId =
          some ⟨⟨1, 1⟩, 1⟩ :=
  ⟨⟨_, ⟨_, rfl, rfl⟩, rfl, rfl⟩, _, ⟨_, rfl, rfl⟩, rfl, rfl⟩

/-- A truncation one behind the last entry that stays, after a read of the first. -/
def truncatedHistory : List (Op MockStateMachine) :=
  [.append [commandAt 1 [10], commandAt 2 [20]], .tryGetLogEntries ⟨.included 1, .included 1⟩,
    .truncate ⟨⟨1, 1⟩, 3⟩]

theorem get_log_state_exact_when_cached :
    ∃ s, Reaches (singleCodec emptySnapshot) (smallCreation 2) truncatedHistory s ∧
      s.getLogState.lastLogId = some ⟨⟨1, 1⟩, 2⟩ ∧
      s.getLogState.lastLogId =
        exactLastLogId (logicalLog truncatedHistory) s.lastPurgedLogId := by
  have reach : Reaches (singleCodec emptySnapshot) (smallCreation 2) truncatedHistory _ :=
    ⟨_, rfl, rfl⟩
  refine ⟨_, reach, rfl, (get_log_state_exact_iff _ _ _ _ reach).mpr ⟨?_, ?_⟩⟩
  · intro entry hentry
    cases hentry
    exact IndexedEntries.last?_eq_some.mp rfl
  · intro hnone
    cases hnone

end Chirps.RaftStorage
