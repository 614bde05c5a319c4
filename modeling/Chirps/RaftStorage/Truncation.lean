/-
# Truncation

`truncate(log_id)` removes the range `(index + 1)..` in the cache, in the fold over the WAL and at
replay: all but the entry at `index`, or everything at `u64::MAX`. It is inclusive exactly when no
read can return an index between the bounds.
-/

import Chirps.RaftStorage.AnyOutcome
import Chirps.RaftStorage.LogRefinement

namespace Chirps.RaftStorage

open Chirps.Library WalRaftStorage

def Op.NoAppend {SM : Type*} : Op SM → Prop
  | .append _ => False
  | _ => True

theorem Op.NoAppend.appendLog_not_mem {SM : Type*} {op : Op SM} (h : op.NoAppend)
    (entry : Entry) : WalFrame.record (.appendLog entry) ∉ op.records.map .record := by
  cases op with
  | append entries => exact h.elim
  | _ => simp [Op.records]

variable {m : IndexedEntries}

theorem lookup_of_foldl_readRecord {frames : List WalFrame}
    (noAppend : ∀ entry, WalFrame.record (.appendLog entry) ∉ frames) {k : UInt64}
    (h : ((frames.foldl (readRecord .full) m).lookup k).isSome = true) :
    (m.lookup k).isSome = true := by
  induction frames generalizing m with
  | nil => exact h
  | cons frame rest ih =>
    have hrest := ih (fun entry hmem => noAppend entry (List.mem_cons_of_mem frame hmem)) h
    rcases frame with header | ⟨entry | vote | info | logId | logId⟩
    · exact hrest
    · exact absurd List.mem_cons_self (noAppend entry)
    · exact hrest
    · simp only [readRecord] at hrest
      split at hrest
      · exact IndexedEntries.isSome_of_removeWhere hrest
      · exact hrest
    · exact IndexedEntries.isSome_of_removeWhere hrest
    · exact IndexedEntries.isSome_of_removeWhere hrest

namespace WalRaftStorage

variable {SM : Type*}

/-- What a read on a storage recovered from `s` finds. -/
def recoveredView (s : WalRaftStorage SM) : IndexedEntries :=
  (walLog s.frames).overlay (replayCache s.config.logCacheSize s.frames)

variable {s : WalRaftStorage SM}

theorem Recoverable.recoverFrom_eq (recoverable : s.Recoverable) (settled : s.Settled)
    (stateMachine : SM) (now : UInt64) (writeFaults : List (Option String))
    (syncOutcomes : List SyncOutcome) :
    ∃ t, s.recoverFrom stateMachine now writeFaults syncOutcomes = .ok t ∧
      t.view = s.recoveredView := by
  have hnonempty : s.frames ≠ [] := by
    have hall : s.frames.take s.frames.length ≠ [] :=
      recoverable.take_ne_nil s.walWriter.participant.writer.synced_le_length le_rfl
    rwa [List.take_length] at hall
  have heq := recoverable.recover_eq hnonempty (fun _ h => h) stateMachine now writeFaults
    syncOutcomes
  -- in a settled WAL nothing is left in the buffer, so the file has all frames
  rw [← settled.file_eq] at heq
  refine ⟨_, heq, ?_⟩
  have hfile : (s.reborn stateMachine s.file writeFaults syncOutcomes).file = s.file :=
    RealWalSink.Settled.file_eq (RealWalSink.openFile_settled _ _ _)
  rw [view, hfile, settled.file_eq]
  rfl

/-! ## What stays below a bound -/

/-- Every index that a read can return now, or after a crash at this point, is below
the bound. -/
structure Below (s : WalRaftStorage SM) (bound : UInt64) : Prop where
  wal : ∀ kept, s.synced ≤ kept → ∀ k,
    ((walLog (s.frames.take kept)).lookup k).isSome = true → k < bound
  replay : ∀ kept, s.synced ≤ kept → ∀ k,
    ((replayCache s.config.logCacheSize (s.frames.take kept)).lookup k).isSome = true → k < bound
  cache : ∀ k, (s.logCache.entries.lookup k).isSome = true → k < bound

variable {bound : UInt64}

theorem Below.file (below : s.Below bound) {k : UInt64}
    (h : ((walLog s.file).lookup k).isSome = true) : k < bound := by
  obtain ⟨kept, hkept, -, hfile⟩ := s.file_eq_take
  exact below.wal kept hkept k (hfile ▸ h)

variable {t : WalRaftStorage SM}

section

variable (below : s.Below bound)
include below

theorem Below.of_grows {more : List WalFrame} (h : s.Grows t more)
    (noAppend : ∀ entry, WalFrame.record (.appendLog entry) ∉ more) : t.Below bound := by
  have hnone : ∀ n entry, WalFrame.record (.appendLog entry) ∉ more.take n :=
    fun n entry hmem => noAppend entry (List.mem_of_mem_take hmem)
  refine ⟨fun kept hkept k hk => ?_, fun kept hkept k hk => ?_, fun k hk => ?_⟩
  · rw [h.frames, List.take_append, walLog_append] at hk
    exact below.wal kept (h.synced.trans hkept) k (lookup_of_foldl_readRecord (hnone _) hk)
  · rw [h.frames, h.config, List.take_append, replayCache, List.foldl_append] at hk
    rcases lookup_of_foldl_cacheAfter hk with hreplay | ⟨entry, hmem, -⟩
    · exact below.replay kept (h.synced.trans hkept) k hreplay
    · exact absurd hmem (hnone _ entry)
  -- a read also caches what it finds in the WAL
  · rcases h.cached k hk with hcache | hwal | ⟨entry, hmem, -⟩
    · exact below.cache k hcache
    · exact below.file hwal
    · exact absurd hmem (noAppend entry)

theorem Below.reborn {kept : ℕ} (hkept : s.synced ≤ kept)
    (stateMachine : SM) (writeFaults : List (Option String)) (syncOutcomes : List SyncOutcome) :
    (s.reborn stateMachine (s.frames.take kept) writeFaults syncOutcomes).Below bound := by
  -- the new WAL has no frame beyond the kept ones
  have hall : ∀ n, (s.frames.take kept).length ≤ n →
      (s.frames.take kept).take n = s.frames.take kept := fun n => List.take_of_length_le
  refine ⟨fun n hn k hk => ?_, fun n hn k hk => ?_, fun k hk => below.replay kept hkept k hk⟩
  · exact below.wal kept hkept k (hall n hn ▸ hk)
  · exact below.replay kept hkept k (hall n hn ▸ hk)

theorem Below.step [StateMachine SM] {codec : SnapshotCodec} {op : Op SM}
    (recoverable : s.Recoverable) (noAppend : op.NoAppend) (h : s.step codec op = some t) :
    t.Below bound := by
  obtain ⟨⟨ok, u⟩, hperform, rfl⟩ := Option.map_eq_some_iff.mp h
  rcases grows_perform hperform with
    ⟨more, hgrows, honly⟩ | ⟨sm, now, kept, writeFaults, syncOutcomes, -, hrestart⟩
  · exact below.of_grows hgrows fun entry hmem =>
      noAppend.appendLog_not_mem entry (honly _ hmem)
  · obtain ⟨hkept, -, rfl⟩ := recoverable.restart_eq.mp hrestart
    exact below.reborn hkept _ _ _

theorem Below.run [StateMachine SM] {codec : SnapshotCodec} {more : List (Op SM)}
    (recoverable : s.Recoverable) (noAppend : ∀ op ∈ more, op.NoAppend)
    (reach : Library.run (WalRaftStorage.step codec) s more = some t) : t.Below bound := by
  induction more generalizing s with
  | nil =>
    cases reach
    exact below
  | cons op rest ih =>
    obtain ⟨next, hstep, hrest⟩ := run_cons_eq_some.mp reach
    exact ih (below.step recoverable (noAppend op List.mem_cons_self) hstep)
      (recoverable.step hstep) (fun op' hop' => noAppend op' (List.mem_cons_of_mem op hop')) hrest

theorem Below.lt_of_read {range : IndexRange} {entries : List Entry}
    (h : s.tryGetLogEntries range = some (entries, t)) {entry : Entry} (hentry : entry ∈ entries) :
    entry.logId.index < bound := by
  have hread := s.read_eq range
  rw [h] at hread
  split at hread
  · cases hread
    have hlookup := (IndexedEntries.mem_valuesIn.mp hentry).2
    rw [view, IndexedEntries.lookup_overlay, Option.or_eq_some_iff] at hlookup
    rcases hlookup with hcache | ⟨-, hwal⟩
    · exact below.cache _ (by rw [hcache]; rfl)
    · exact below.file (by rw [hwal]; rfl)
  · cases hread

end

/-! ## What one truncation removes -/

theorem truncate_ok {logId : LogId} (h : s.truncate logId = (.ok (), t)) :
    t.frames = s.frames ++ [WalFrame.record (.truncate logId)] ∧ t.Settled ∧ t.config = s.config ∧
      t.logCache.entries =
        s.logCache.entries.removeWhere fun k => decide (logId.index + 1 ≤ k) := by
  rw [truncate] at h
  split at h
  · simp at h
  · rename_i u hwrite
    obtain ⟨sink, rfl, hframes, hsettled⟩ := writeFrame_sync_ok hwrite
    cases h
    exact ⟨hframes, hsettled, rfl, rfl⟩

theorem truncate_views {logId : LogId} (settled : s.Settled) (h : s.truncate logId = (.ok (), t)) :
    (∀ k, t.view.lookup k = if logId.index + 1 ≤ k then none else s.view.lookup k) ∧
      ∀ k, t.recoveredView.lookup k =
        if logId.index + 1 ≤ k then none else s.recoveredView.lookup k := by
  obtain ⟨hframes, hsettled, hconfig, hcache⟩ := truncate_ok h
  have hwal : walLog t.frames =
      (walLog s.frames).removeWhere fun k => decide (logId.index + 1 ≤ k) := by
    rw [hframes, walLog_append]
    rfl
  have hreplay : replayCache s.config.logCacheSize t.frames =
      (replayCache s.config.logCacheSize s.frames).removeWhere fun k =>
        decide (logId.index + 1 ≤ k) := by
    rw [replayCache, hframes, List.foldl_append]
    rfl
  -- both layers of either view lose the same range
  have hoverlay : ∀ (base top : IndexedEntries) (k : UInt64),
      ((base.removeWhere fun k => decide (logId.index + 1 ≤ k)).overlay
        (top.removeWhere fun k => decide (logId.index + 1 ≤ k))).lookup k =
        if logId.index + 1 ≤ k then none else (base.overlay top).lookup k := by
    intro base top k
    rw [IndexedEntries.lookup_overlay, IndexedEntries.lookup_overlay,
      IndexedEntries.lookup_removeWhere, IndexedEntries.lookup_removeWhere]
    by_cases hk : logId.index + 1 ≤ k <;> simp [hk]
  constructor
  · intro k
    rw [view, view, hsettled.file_eq, settled.file_eq, hwal, hcache, hoverlay]
  · intro k
    rw [recoveredView, recoveredView, hconfig, hwal, hreplay, hoverlay]

end WalRaftStorage

/-- No index of `m` separates the bound `index` from the one the code uses. -/
def NoneBetween (m : IndexedEntries) (index : UInt64) : Prop :=
  ∀ e ∈ m.valuesIn .full, (index + 1 ≤ e.logId.index ↔ index ≤ e.logId.index)

instance (m : IndexedEntries) (index : UInt64) : Decidable (NoneBetween m index) :=
  inferInstanceAs (Decidable (∀ e ∈ m.valuesIn .full, _))

variable {m' : IndexedEntries} {index : UInt64}

theorem noneBetween_of_filter (cut : ∀ k, m'.lookup k = if index + 1 ≤ k then none else m.lookup k)
    (h : m'.valuesIn .full = (m.valuesIn .full).filter fun e => e.logId.index < index) :
    NoneBetween m index := by
  intro e he
  have hlookup := (IndexedEntries.mem_valuesIn.mp he).2
  have hmem : e ∈ m'.valuesIn .full ↔ e.logId.index < index := by
    rw [h, List.mem_filter]
    simp [he]
  rw [IndexedEntries.mem_valuesIn, cut, hlookup] at hmem
  -- what the cut drops is at or above `index`, what it keeps is below
  by_cases hk : index + 1 ≤ e.logId.index
  · have hnot : ¬ e.logId.index < index := by
      rw [← hmem]
      simp [hk]
    grind
  · have hlt : e.logId.index < index := by
      rw [← hmem]
      simp [hk]
    grind

theorem NoneBetween.eq_removeWhere (h : NoneBetween m index)
    (cut : ∀ k, m'.lookup k = if index + 1 ≤ k then none else m.lookup k) :
    m' = m.removeWhere fun k => decide (index ≤ k) := by
  ext1 k
  rw [cut, IndexedEntries.lookup_removeWhere]
  cases hk : m.lookup k with
  | none => simp
  | some e =>
    have hindex := IndexedEntries.index_of_lookup hk
    have hiff := h e (IndexedEntries.mem_valuesIn.mpr ⟨rfl, by rwa [hindex]⟩)
    rw [hindex] at hiff
    by_cases hle : index ≤ k
    · simp [hle, hiff.mpr hle]
    · simp [hle, mt hiff.mp hle]

theorem NoneBetween.valuesIn_eq (h : NoneBetween m index)
    (cut : ∀ k, m'.lookup k = if index + 1 ≤ k then none else m.lookup k) (range : IndexRange) :
    m'.valuesIn range = (m.valuesIn range).filter fun e => e.logId.index < index := by
  rw [h.eq_removeWhere cut, IndexedEntries.valuesIn_removeWhere]
  refine List.filter_congr fun e _ => ?_
  rw [← decide_not, decide_eq_decide]
  grind

theorem NoneBetween.lt_of_lookup (h : NoneBetween m index)
    (cut : ∀ k, m'.lookup k = if index + 1 ≤ k then none else m.lookup k) {k : UInt64}
    (hk : (m'.lookup k).isSome = true) : k < index := by
  rw [h.eq_removeWhere cut, IndexedEntries.lookup_removeWhere] at hk
  split at hk
  · cases hk
  · rename_i hle
    simp only [decide_eq_true_eq] at hle
    grind

variable {SM : Type*}

/-- Until something is appended no entry at or behind the index is returned, and every other one as
before, live and after a recovery. -/
structure TruncatesInclusively [StateMachine SM] (codec : SnapshotCodec)
    (s t : WalRaftStorage SM) (index : UInt64) : Prop where
  gone : ∀ more u, (∀ op ∈ more, Op.NoAppend op) → run (step codec) t more = some u →
    ∀ range entries v, u.tryGetLogEntries range = some (entries, v) →
      ∀ e ∈ entries, e.logId.index < index
  goneRecovered : ∀ more u, (∀ op ∈ more, Op.NoAppend op) → run (step codec) t more = some u →
    ∀ sm now writeFaults syncOutcomes r, u.recoverFrom sm now writeFaults syncOutcomes = .ok r →
      ∀ range entries v, r.tryGetLogEntries range = some (entries, v) →
        ∀ e ∈ entries, e.logId.index < index
  kept : ∀ range, (t.tryGetLogEntries range).map Prod.fst =
    ((s.tryGetLogEntries range).map Prod.fst).map fun entries =>
      entries.filter fun e => e.logId.index < index
  keptRecovered : ∀ sm now writeFaults syncOutcomes s' t',
    s.recoverFrom sm now writeFaults syncOutcomes = .ok s' →
    t.recoverFrom sm now writeFaults syncOutcomes = .ok t' →
    ∀ range, (t'.tryGetLogEntries range).map Prod.fst =
      ((s'.tryGetLogEntries range).map Prod.fst).map fun entries =>
        entries.filter fun e => e.logId.index < index

/-- When nothing readable lies at or behind the index any more, this stays so until
something is appended, and on every recovered storage. -/
theorem WalRaftStorage.Below.gone [StateMachine SM] {codec : SnapshotCodec} {t : WalRaftStorage SM}
    (below : t.Below index) (recoverable : t.Recoverable) {more : List (Op SM)}
    {u : WalRaftStorage SM} (noAppend : ∀ op ∈ more, op.NoAppend)
    (hrun : Library.run (WalRaftStorage.step codec) t more = some u) :
    u.Below index ∧ ∀ {sm now writeFaults syncOutcomes r},
      u.recoverFrom sm now writeFaults syncOutcomes = .ok r → r.Below index := by
  have belowU := below.run recoverable noAppend hrun
  refine ⟨belowU, fun {sm now writeFaults syncOutcomes r} hr => ?_⟩
  have recoverableU := recoverable.run hrun
  -- the file holds the synced frames and some of those behind them
  obtain ⟨kept, hkept, hlength, hfile⟩ := u.file_eq_take
  have heq := recoverableU.recover_eq (recoverableU.take_ne_nil hkept hlength)
    (fun _ => List.mem_of_mem_take) sm now writeFaults syncOutcomes
  rw [recoverFrom, show u.walWriter.file = u.frames.take kept from hfile, heq] at hr
  exact Except.ok.inj hr ▸ belowU.reborn hkept _ _ _

/-- `truncate` is inclusive exactly when neither the live storage nor a recovered one could return
an entry between the index and the bound the code uses. -/
theorem truncate_inclusive_iff [StateMachine SM] (codec : SnapshotCodec) (c : Creation SM)
    (history : List (Op SM)) (s t : WalRaftStorage SM) (logId : LogId)
    (reach : Visits codec c history s) (settled : s.Settled)
    (truncated : s.truncate logId = (.ok (), t)) :
    TruncatesInclusively codec s t logId.index ↔
      NoneBetween s.view logId.index ∧ NoneBetween s.recoveredView logId.index := by
  have recoverable := reach.recoverable
  have recoverable' : t.Recoverable := by
    obtain ⟨more, hgrows, -⟩ := s.grows_truncate logId
    rw [truncated] at hgrows
    exact recoverable.of_grows hgrows
  have settled' := (truncate_ok truncated).2.1
  obtain ⟨hview, hrecovered⟩ := truncate_views settled truncated
  constructor
  · intro inclusive
    constructor
    · refine noneBetween_of_filter hview ?_
      have hkept := inclusive.kept .full
      rw [read_eq, read_eq] at hkept
      exact Option.some.inj hkept
    · obtain ⟨s', hs', hviewS⟩ := recoverable.recoverFrom_eq settled s.stateMachine 0 [] []
      obtain ⟨t', ht', hviewT⟩ := recoverable'.recoverFrom_eq settled' s.stateMachine 0 [] []
      refine noneBetween_of_filter hrecovered ?_
      have hkept := inclusive.keptRecovered _ _ _ _ s' t' hs' ht' .full
      rw [read_eq, read_eq, hviewS, hviewT] at hkept
      exact Option.some.inj hkept
  · rintro ⟨hnone, hnoneRecovered⟩
    -- nothing at or behind the index is left in the WAL, in its replay or in the cache
    have below : t.Below logId.index := by
      have hall : ∀ kept, t.synced ≤ kept → t.frames.take kept = t.frames := fun kept hkept =>
        List.take_of_length_le ((not_lt.mp settled').trans hkept)
      have hview' : ∀ {k}, ((walLog t.frames).lookup k).isSome = true ∨
          (t.logCache.entries.lookup k).isSome = true → k < logId.index := by
        intro k hk
        refine hnone.lt_of_lookup hview ?_
        rw [view, settled'.file_eq, IndexedEntries.lookup_overlay, Option.isSome_or,
          Bool.or_eq_true]
        exact hk.symm
      refine ⟨fun kept hkept k hk => hview' (.inl (hall kept hkept ▸ hk)),
        fun kept hkept k hk => hnoneRecovered.lt_of_lookup hrecovered ?_,
        fun k hk => hview' (.inr hk)⟩
      rw [hall kept hkept] at hk
      rw [recoveredView, IndexedEntries.lookup_overlay, Option.isSome_or, hk, Bool.true_or]
    refine ⟨?_, ?_, fun range => ?_, ?_⟩
    · intro more u noAppend hrun range entries v hread e he
      exact (below.gone recoverable' noAppend hrun).1.lt_of_read hread he
    · intro more u noAppend hrun sm now writeFaults syncOutcomes r hr range entries v hread e he
      exact ((below.gone recoverable' noAppend hrun).2 hr).lt_of_read hread he
    · rw [read_eq, read_eq, hnone.valuesIn_eq hview]
      split <;> rfl
    · intro sm now writeFaults syncOutcomes s' t' hs' ht' range
      obtain ⟨s'', hs'', hviewS⟩ := recoverable.recoverFrom_eq settled sm now writeFaults
        syncOutcomes
      obtain ⟨t'', ht'', hviewT⟩ := recoverable'.recoverFrom_eq settled' sm now writeFaults
        syncOutcomes
      cases hs'.symm.trans hs''
      cases ht'.symm.trans ht''
      rw [read_eq, read_eq, hviewS, hviewT, hnoneRecovered.valuesIn_eq hrecovered]
      split <;> rfl

/-- Truncation at index 2 leaves entry 2 in place. -/
theorem truncate_keeps_its_own_index :
    ∃ s t, Visits (singleCodec emptySnapshot) (smallCreation 16)
        [.append [commandAt 1 [10], commandAt 2 [20], commandAt 3 [30]]] s ∧ s.Settled ∧
      s.truncate ⟨⟨1, 1⟩, 2⟩ = (.ok (), t) ∧
      (t.tryGetLogEntries .full).map Prod.fst = some [commandAt 1 [10], commandAt 2 [20]] ∧
      ¬ TruncatesInclusively (singleCodec emptySnapshot) s t 2 := by
  refine ⟨_, _, ⟨_, rfl, rfl⟩, by decide, rfl, rfl, fun inclusive => ?_⟩
  have := inclusive.gone [] _ (by simp) rfl .full _ _ rfl (commandAt 2 [20]) (by decide)
  revert this
  decide

theorem truncate_inclusive_at_a_gap :
    ∃ s t, Visits (singleCodec emptySnapshot) (smallCreation 16)
        [.append [commandAt 1 [10], commandAt 2 [20], commandAt 4 [40]]] s ∧ s.Settled ∧
      s.truncate ⟨⟨1, 1⟩, 3⟩ = (.ok (), t) ∧
      TruncatesInclusively (singleCodec emptySnapshot) s t 3 := by
  have reach : Visits (singleCodec emptySnapshot) (smallCreation 16)
      [.append [commandAt 1 [10], commandAt 2 [20], commandAt 4 [40]]] _ := ⟨_, rfl, rfl⟩
  exact ⟨_, _, reach, by decide, rfl,
    (truncate_inclusive_iff _ _ _ _ _ ⟨⟨1, 1⟩, 3⟩ reach (by decide) rfl).mpr
      ⟨by decide, by decide⟩⟩

end Chirps.RaftStorage
