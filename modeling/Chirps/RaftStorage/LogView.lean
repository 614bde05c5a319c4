/-
# The log as callers see it

`walLog` is the fold over the WAL that a read makes, `replayLog` the one that recovery makes, in
which a snapshot marker removes nothing. A read returns `walLog` and the cache, and the cache wins.
-/

import Chirps.RaftStorage.StorageRun

namespace Chirps.RaftStorage

open Chirps.Library WalRaftStorage
open List (append_nil foldl_append foldl_cons)

def replayRecord (entries : IndexedEntries) : WalFrame → IndexedEntries
  | .record (.appendLog entry) => entries.insert entry
  | .record (.truncate logId) => entries.removeWhere fun k => decide (logId.index + 1 ≤ k)
  | .record (.purge logId) => entries.removeWhere fun k => decide (k ≤ logId.index)
  | _ => entries

def walLog (frames : List WalFrame) : IndexedEntries :=
  frames.foldl (readRecord .full) .empty

def replayLog (frames : List WalFrame) : IndexedEntries :=
  frames.foldl replayRecord .empty

/-! ## The two folds -/

theorem lookup_foldl_readRecord {range : IndexRange} {k : UInt64}
    (inside : range.contains k = true) (frames : List WalFrame) :
    ∀ {m m' : IndexedEntries}, m.lookup k = m'.lookup k →
      (frames.foldl (readRecord range) m).lookup k =
        (frames.foldl (readRecord .full) m').lookup k := by
  induction frames with
  | nil => exact fun h => h
  | cons frame rest ih =>
    intro m m' h
    refine ih ?_
    rcases frame with header | ⟨entry | vote | info | logId | logId⟩
    · exact h
    · by_cases hk : entry.logId.index = k
      · simp [readRecord, hk, inside, IndexedEntries.lookup_insert]
      · simp only [readRecord, IndexRange.full_contains, if_true]
        split <;> simp [IndexedEntries.lookup_insert, hk, h]
    · exact h
    · simp only [readRecord]
      split
      · simp only [IndexedEntries.lookup_removeWhere, h]
      · exact h
    · simp only [readRecord, IndexedEntries.lookup_removeWhere, h]
    · simp only [readRecord, IndexedEntries.lookup_removeWhere, h]

theorem walLog_sub_replayLog (frames : List WalFrame) : (walLog frames).Sub (replayLog frames) := by
  suffices hfold : ∀ {m m' : IndexedEntries}, m.Sub m' →
      (frames.foldl (readRecord .full) m).Sub (frames.foldl replayRecord m') from
    hfold (.refl _)
  induction frames with
  | nil => exact fun h => h
  | cons frame rest ih =>
    intro m m' h
    refine ih ?_
    rcases frame with header | ⟨entry | vote | info | logId | logId⟩
    · exact h
    · exact h.insert entry
    · exact h
    -- the one difference: the reader drops what a snapshot marker covers
    · simp only [readRecord]
      split
      · exact (m.removeWhere_sub _).trans h
      · exact h
    · exact h.removeWhere _
    · exact h.removeWhere _

theorem replayLog_append (frames more : List WalFrame) :
    replayLog (frames ++ more) = more.foldl replayRecord (replayLog frames) :=
  foldl_append

theorem walLog_append (frames more : List WalFrame) :
    walLog (frames ++ more) = more.foldl (readRecord .full) (walLog frames) :=
  foldl_append

variable {cache : LogCache}

theorem foldl_cacheAfter_sub (limit : ℕ) (frames : List WalFrame) {m : IndexedEntries}
    (h : cache.entries.Sub m) :
    (frames.foldl (cacheAfter limit) cache).entries.Sub (frames.foldl replayRecord m) := by
  induction frames generalizing cache m with
  | nil => exact h
  | cons frame rest ih =>
    refine ih ?_
    rcases frame with header | ⟨entry | vote | info | logId | logId⟩
    · exact h
    · exact (cache.insertEntry_sub limit entry).trans (h.insert entry)
    · exact h
    · exact h
    · exact h.removeWhere _
    · exact h.removeWhere _

theorem foldl_cacheAfter_size_le (limit : ℕ) (frames : List WalFrame)
    (h : cache.entries.size ≤ limit) :
    (frames.foldl (cacheAfter limit) cache).entries.size ≤ limit := by
  induction frames generalizing cache with
  | nil => exact h
  | cons frame rest ih =>
    refine ih ?_
    rcases frame with header | ⟨entry | vote | info | logId | logId⟩
    · exact h
    · exact cache.insertEntry_size_le limit entry
    · exact h
    · exact h
    · exact (cache.entries.size_removeWhere_le _).trans h
    · exact (cache.entries.size_removeWhere_le _).trans h

theorem size_foldl_replayRecord_le (frames : List WalFrame) (m : IndexedEntries) :
    (frames.foldl replayRecord m).size ≤ m.size + frames.length := by
  induction frames generalizing m with
  | nil => exact le_rfl
  | cons frame rest ih =>
    have hframe : (replayRecord m frame).size ≤ m.size + 1 := by
      rcases frame with header | ⟨entry | vote | info | logId | logId⟩
      · exact Nat.le_succ _
      · exact m.size_insert_le entry
      · exact Nat.le_succ _
      · exact Nat.le_succ _
      · exact (m.size_removeWhere_le _).trans (Nat.le_succ _)
      · exact (m.size_removeWhere_le _).trans (Nat.le_succ _)
    have := ih (replayRecord m frame)
    rw [foldl_cons, List.length_cons]
    omega

theorem foldl_cacheAfter_of_room {limit : ℕ} {frames : List WalFrame}
    (room : cache.entries.size + frames.length ≤ limit) :
    (frames.foldl (cacheAfter limit) cache).entries =
      frames.foldl replayRecord cache.entries := by
  induction frames generalizing cache with
  | nil => rfl
  | cons frame rest ih =>
    rw [List.length_cons] at room
    have hframe : (cacheAfter limit cache frame).entries = replayRecord cache.entries frame := by
      rcases frame with header | ⟨entry | vote | info | logId | logId⟩
      · rfl
      -- the other records remove the same range from both
      · exact LogCache.insertEntry_of_room entry (by omega)
      all_goals rfl
    have hsize := size_foldl_replayRecord_le [frame] cache.entries
    rw [foldl_cons, foldl_cons, ih, hframe]
    rw [hframe]
    simp only [foldl_cons, List.foldl_nil, List.length_singleton] at hsize
    omega

def replayCache (limit : ℕ) (frames : List WalFrame) : IndexedEntries :=
  (frames.foldl (cacheAfter limit) .empty).entries

theorem lookup_of_foldl_cacheAfter {limit : ℕ} {frames : List WalFrame} {k : UInt64}
    (h : ((frames.foldl (cacheAfter limit) cache).entries.lookup k).isSome = true) :
    (cache.entries.lookup k).isSome = true ∨
      ∃ entry, .record (.appendLog entry) ∈ frames ∧ entry.logId.index = k := by
  induction frames generalizing cache with
  | nil => exact .inl h
  | cons frame rest ih =>
    rcases ih h with hcached | ⟨entry, hmem, hindex⟩
    · rcases frame with header | ⟨entry | vote | info | logId | logId⟩
      · exact .inl hcached
      · obtain ⟨e, he⟩ := Option.isSome_iff_exists.mp hcached
        have := cache.insertEntry_sub limit entry k e he
        rw [IndexedEntries.lookup_insert] at this
        split at this
        · exact .inr ⟨entry, List.mem_cons_self, ‹_›⟩
        · exact .inl (Option.isSome_iff_exists.mpr ⟨e, this⟩)
      · exact .inl hcached
      · exact .inl hcached
      · exact .inl (IndexedEntries.isSome_of_removeWhere hcached)
      · exact .inl (IndexedEntries.isSome_of_removeWhere hcached)
    · exact .inr ⟨entry, List.mem_cons_of_mem frame hmem, hindex⟩

namespace WalRaftStorage

variable {SM : Type*}

/-! ## Reads -/

def file (s : WalRaftStorage SM) : List WalFrame := s.walWriter.file

variable {s : WalRaftStorage SM}

theorem Settled.file_eq (settled : s.Settled) : s.file = s.frames :=
  RealWalSink.Settled.file_eq settled

/-- What a read finds: the log of the WAL file under the cache. -/
def view (s : WalRaftStorage SM) : IndexedEntries :=
  (walLog s.file).overlay s.logCache.entries

theorem readEntriesFromWal_eq (s : WalRaftStorage SM) (range : IndexRange) :
    s.readEntriesFromWal range = (walLog s.file).valuesIn range := by
  rw [readEntriesFromWal, IndexedEntries.filter_valuesIn_full]
  exact IndexedEntries.valuesIn_congr fun k hk => lookup_foldl_readRecord hk _ rfl

def withCache (s : WalRaftStorage SM) (cache : LogCache) : WalRaftStorage SM :=
  { s with logCache := cache }

@[simp] theorem withCache_logCache (s : WalRaftStorage SM) (cache : LogCache) :
    (s.withCache cache).logCache = cache := rfl

@[simp] theorem withCache_withCache (s : WalRaftStorage SM) (cache cache' : LogCache) :
    (s.withCache cache).withCache cache' = s.withCache cache' := rfl

theorem insertEntry_eq (s : WalRaftStorage SM) (entry : Entry) :
    s.insertEntry entry = s.withCache (s.logCache.insertEntry s.config.logCacheSize entry) := rfl

theorem mergeWalEntries_eq (s : WalRaftStorage SM) {wal : List Entry}
    (sorted : wal.Pairwise fun a b => a.logId.index < b.logId.index) (seen : List UInt64)
    (entries : List Entry) :
    s.mergeWalEntries seen entries wal =
      (entries ++ wal.filter (fun e => e.logId.index ∉ seen),
        s.withCache ((wal.filter fun e => e.logId.index ∉ seen).foldl
          (LogCache.insertEntry s.config.logCacheSize) s.logCache)) := by
  induction wal generalizing s seen entries with
  | nil =>
    rw [mergeWalEntries]
    simp [withCache]
  | cons entry rest ih =>
    obtain ⟨hfirst, hrest⟩ := List.pairwise_cons.mp sorted
    rw [mergeWalEntries]
    by_cases hseen : entry.logId.index ∈ seen
    · rw [if_pos hseen, ih s hrest, List.filter_cons_of_neg (by simpa using hseen)]
    · -- no later entry has this index, so the longer `seen` filters the same
      have hsame : (rest.filter fun e => e.logId.index ∉ entry.logId.index :: seen) =
          rest.filter fun e => e.logId.index ∉ seen := by
        refine List.filter_congr fun e he => ?_
        have hne : e.logId.index ≠ entry.logId.index := by
          have := hfirst e he
          grind
        simp [hne]
      rw [if_neg hseen, ih _ hrest, hsame, List.filter_cons_of_pos (by simpa using hseen),
        insertEntry_eq]
      simp only [withCache_logCache, withCache_withCache, foldl_cons, List.append_assoc,
        List.singleton_append]
      rfl

def uncached (s : WalRaftStorage SM) (range : IndexRange) : List Entry :=
  ((walLog s.file).valuesIn range).filter fun e =>
    e.logId.index ∉ (s.logCache.entries.valuesIn range).map fun e => e.logId.index

variable {range : IndexRange}

theorem mem_uncached {e : Entry} :
    e ∈ s.uncached range ↔ range.contains e.logId.index = true ∧
      (walLog s.file).lookup e.logId.index = some e ∧
      s.logCache.entries.lookup e.logId.index = none := by
  rw [uncached, List.mem_filter, IndexedEntries.mem_valuesIn, and_assoc]
  -- within the range, not being seen is not being cached
  refine and_congr_right fun hcontains => and_congr_right fun _ => ?_
  simp only [decide_eq_true_eq, List.mem_map, IndexedEntries.mem_valuesIn, not_exists, not_and]
  constructor
  · intro h
    cases hlookup : s.logCache.entries.lookup e.logId.index with
    | none => rfl
    | some e' =>
      have hindex := IndexedEntries.index_of_lookup hlookup
      exact absurd hindex (h e' ⟨by rwa [hindex], by rwa [hindex]⟩)
  · rintro h e' ⟨-, hlookup⟩ hindex
    rw [hindex, h] at hlookup
    cases hlookup

theorem mem_cached_append_uncached {e : Entry} :
    e ∈ s.logCache.entries.valuesIn range ++ s.uncached range ↔ e ∈ s.view.valuesIn range := by
  rw [List.mem_append, mem_uncached, IndexedEntries.mem_valuesIn, IndexedEntries.mem_valuesIn,
    ← and_or_left, view, IndexedEntries.lookup_overlay, Option.or_eq_some_iff]
  exact and_congr_right fun _ => or_congr_right and_comm

theorem nodup_cached_append_uncached (s : WalRaftStorage SM) (range : IndexRange) :
    (s.logCache.entries.valuesIn range ++ s.uncached range).Nodup := by
  have hne : ∀ {a b : Entry}, a.logId.index < b.logId.index → a ≠ b := by
    rintro a b hlt rfl
    grind
  refine List.Nodup.append ?_ ?_ ?_
  · exact (s.logCache.entries.pairwise_valuesIn range).imp hne
  · exact (((walLog s.file).pairwise_valuesIn range).imp hne).filter _
  · intro e hcached huncached
    rw [mem_uncached] at huncached
    rw [IndexedEntries.mem_valuesIn, huncached.2.2] at hcached
    cases hcached.2

theorem insertionSort_cached_append_uncached (s : WalRaftStorage SM) (range : IndexRange) :
    (s.logCache.entries.valuesIn range ++ s.uncached range).insertionSort
      (fun a b => a.logId.index ≤ b.logId.index) = s.view.valuesIn range := by
  -- sorted lists with the same elements are equal
  have : Std.Total fun a b : Entry => a.logId.index ≤ b.logId.index :=
    ⟨fun a b => UInt64.le_total _ _⟩
  have : IsTrans Entry fun a b => a.logId.index ≤ b.logId.index :=
    ⟨fun a b c => UInt64.le_trans⟩
  have hsorted := s.view.pairwise_valuesIn range
  refine List.Perm.eq_of_pairwise ?_ (List.pairwise_insertionSort _ _)
    (hsorted.imp fun h => UInt64.le_of_lt h)
    ((List.perm_insertionSort _ _).trans ((List.perm_ext_iff_of_nodup
      (s.nodup_cached_append_uncached range) ?_).mpr fun e => mem_cached_append_uncached))
  · -- two entries of the view at one index are the same entry
    intro a b ha hb hab hba
    rw [List.mem_insertionSort, mem_cached_append_uncached, IndexedEntries.mem_valuesIn] at ha
    rw [IndexedEntries.mem_valuesIn, ← UInt64.le_antisymm hab hba, ha.2] at hb
    exact Option.some.inj hb.2
  · refine hsorted.imp fun {a b} hlt => ?_
    rintro rfl
    grind

theorem foldl_touchCache_entries (entries : List Entry) (cache : LogCache) :
    (entries.foldl (fun cache e => cache.touchCache e.logId.index) cache).entries =
      cache.entries := by
  induction entries generalizing cache with
  | nil => rfl
  | cons e rest ih => exact ih _

theorem tryGetLogEntries_eq (s : WalRaftStorage SM) (accepted : range.accepted = true) :
    ∃ cache, s.tryGetLogEntries range = some (s.view.valuesIn range, s.withCache cache) ∧
      cache.entries = ((s.uncached range).foldl
        (LogCache.insertEntry s.config.logCacheSize) s.logCache).entries := by
  have hmerge := mergeWalEntries_eq s ((walLog s.file).pairwise_valuesIn range)
    ((s.logCache.entries.valuesIn range).map fun e => e.logId.index)
    (s.logCache.entries.valuesIn range)
  rw [← uncached] at hmerge
  refine ⟨_, ?_, foldl_touchCache_entries (s.view.valuesIn range) _⟩
  simp only [tryGetLogEntries, if_pos accepted, readEntriesFromWal_eq, hmerge,
    insertionSort_cached_append_uncached]
  rfl

theorem tryGetLogEntries_rejected (rejected : range.accepted = false) :
    s.tryGetLogEntries range = none := by
  simp [tryGetLogEntries, rejected]

variable {t : WalRaftStorage SM} {entries : List Entry}

theorem eq_withCache_of_read (h : s.tryGetLogEntries range = some (entries, t)) :
    ∃ cache, t = s.withCache cache := by
  cases haccepted : range.accepted with
  | false => simp [tryGetLogEntries_rejected haccepted] at h
  | true =>
    obtain ⟨cache, heq, -⟩ := s.tryGetLogEntries_eq haccepted
    obtain ⟨-, rfl⟩ := Prod.mk.inj (Option.some.inj (heq.symm.trans h))
    exact ⟨cache, rfl⟩

/-! ## Runs of successful operations -/

/-- What a storage knows about its own WAL between two successful operations. -/
structure LogSound (s : WalRaftStorage SM) : Prop where
  settled : s.Settled
  started : s.frames ≠ []
  accepted : ∀ frame ∈ s.frames, s.Accepts frame
  vote_eq : s.vote = s.frames.foldl voteAfter none
  purged_eq : s.lastPurgedLogId = s.frames.foldl purgedAfter none
  cache_sub : s.logCache.entries.Sub (replayLog s.frames)
  cache_size : s.logCache.entries.size ≤ s.config.logCacheSize

/-- From `s` to `t` the WAL has grown by `more`, and the memory of the storage has
followed. -/
structure Extends (s t : WalRaftStorage SM) (more : List WalFrame) : Prop where
  config : t.config = s.config
  groupId : t.groupId = s.groupId
  nodeId : t.nodeId = s.nodeId
  files : ∀ path, (s.files path).isSome = true → (t.files path).isSome = true
  frames : t.frames = s.frames ++ more
  settled : t.Settled
  accepted : ∀ frame ∈ more, t.Accepts frame
  vote : t.vote = more.foldl voteAfter s.vote
  purged : t.lastPurgedLogId = more.foldl purgedAfter s.lastPurgedLogId
  cache_sub : t.logCache.entries.Sub (replayLog t.frames)
  cache_size : t.logCache.entries.size ≤ s.config.logCacheSize
  /-- While there is room the cache holds the whole log. -/
  cache_full : s.logCache.entries = replayLog s.frames →
    (s.frames ++ more).length ≤ s.config.logCacheSize → t.logCache.entries = replayLog t.frames

theorem Accepts.mono {frame : WalFrame} (h : s.Accepts frame) (config : t.config = s.config)
    (groupId : t.groupId = s.groupId)
    (files : ∀ path, (s.files path).isSome = true → (t.files path).isSome = true) :
    t.Accepts frame := by
  rcases frame with header | ⟨entry | vote | info | logId | logId⟩
  · simpa only [Accepts, checkHeader, config] using h
  · trivial
  · trivial
  · simp only [Accepts, config, groupId] at h ⊢
    exact files _ h
  · trivial
  · trivial

theorem LogSound.of_extends {more : List WalFrame} (sound : s.LogSound) (h : s.Extends t more) :
    t.LogSound where
  settled := h.settled
  started := by
    rw [h.frames]
    exact List.append_ne_nil_of_left_ne_nil sound.started more
  accepted := by
    intro frame hframe
    rw [h.frames, List.mem_append] at hframe
    rcases hframe with hold | hnew
    -- files are only added, so old markers still find theirs
    · exact (sound.accepted frame hold).mono h.config h.groupId h.files
    · exact h.accepted frame hnew
  vote_eq := by rw [h.vote, sound.vote_eq, h.frames, foldl_append]
  purged_eq := by rw [h.purged, sound.purged_eq, h.frames, foldl_append]
  cache_sub := h.cache_sub
  cache_size := by
    rw [h.config]
    exact h.cache_size

variable {stateMachine : SM} {now : UInt64} {writeFaults : List (Option String)}
  {syncOutcomes : List SyncOutcome} {files : SnapshotFiles}

theorem recover_new {config : WalStorageConfig} {groupId : GroupId} {nodeId : ChirpsNodeId}
    (h : recover config groupId nodeId stateMachine now (.openFile [] writeFaults syncOutcomes)
      files = .ok s) :
    ∃ sink header, s = (blank config groupId nodeId stateMachine sink files) ∧
      sink.frames = [.header header] ∧ header.magic = walMagic ∧
      header.formatVersion = config.formatVersion ∧ sink.Settled := by
  rw [recover] at h
  simp only [RealWalSink.file, RealWalSink.openFile, List.take_nil, if_true] at h
  split at h
  · cases h
  · rename_i t hwrite
    cases h
    obtain ⟨sink, rfl, hframes, hsettled⟩ := writeFrame_sync_ok hwrite
    exact ⟨sink, _, rfl, hframes, rfl, rfl, hsettled⟩

theorem logSound_of_recover_new {config : WalStorageConfig} {groupId : GroupId}
    {nodeId : ChirpsNodeId}
    (h : recover config groupId nodeId stateMachine now (.openFile [] writeFaults syncOutcomes)
      files = .ok s) : s.LogSound := by
  obtain ⟨sink, header, rfl, hframes, hmagic, hversion, hsettled⟩ := recover_new h
  have hall : (blank config groupId nodeId stateMachine sink files).frames = [.header header] :=
    hframes
  refine ⟨hsettled, by simp [hall], ?_, by rw [hall]; rfl, by rw [hall]; rfl,
    IndexedEntries.empty_sub _, Nat.zero_le _⟩
  intro frame hframe
  rw [hall, List.mem_singleton] at hframe
  subst hframe
  simp [Accepts, checkHeader, hmagic, hversion, blank]

theorem LogSound.recover_eq (sound : s.LogSound) (stateMachine : SM) (now : UInt64)
    (writeFaults : List (Option String)) (syncOutcomes : List SyncOutcome) :
    recover s.config s.groupId s.nodeId stateMachine now
        (.openFile s.frames writeFaults syncOutcomes) s.files =
      .ok ((blank s.config s.groupId s.nodeId stateMachine
        (.openFile s.frames writeFaults syncOutcomes) s.files).replayed s.frames) := by
  have hfile : (RealWalSink.openFile s.frames writeFaults syncOutcomes).file = s.frames :=
    RealWalSink.Settled.file_eq (RealWalSink.openFile_settled _ _ _)
  rw [recover, hfile, if_neg sound.started, replayWal_eq_ok]
  refine ⟨fun frame hframe => ?_, rfl⟩
  exact (sound.accepted frame hframe).mono rfl rfl fun _ h => h

theorem LogSound.extends_recovered (sound : s.LogSound)
    (h : recover s.config s.groupId s.nodeId stateMachine now
      (.openFile s.frames writeFaults syncOutcomes) s.files = .ok t) : s.Extends t [] := by
  rw [sound.recover_eq] at h
  cases h
  have hframes : ((blank s.config s.groupId s.nodeId stateMachine
      (.openFile s.frames writeFaults syncOutcomes) s.files).replayed s.frames).frames =
        s.frames := rfl
  refine ⟨rfl, rfl, rfl, fun _ h => h, by rw [hframes, append_nil],
    RealWalSink.openFile_settled _ _ _, by simp, sound.vote_eq.symm, sound.purged_eq.symm, ?_, ?_,
    ?_⟩
  · rw [hframes]
    exact foldl_cacheAfter_sub _ _ (.refl _)
  · exact foldl_cacheAfter_size_le _ _ (Nat.zero_le _)
  · intro _ room
    rw [append_nil] at room
    rw [hframes]
    have hroom : LogCache.empty.entries.size + s.frames.length ≤ s.config.logCacheSize := by
      rw [show LogCache.empty.entries.size = 0 from rfl, Nat.zero_add]
      exact room
    exact foldl_cacheAfter_of_room hroom

theorem foldl_recordEntry (entries : List Entry) (s : WalRaftStorage SM) :
    entries.foldl recordEntry s =
      { s with
        lastApplied := (entries.foldl appliedAfter s.appliedState).1
        lastMembership := (entries.foldl appliedAfter s.appliedState).2
        logCache := (entries.map fun e => .record (.appendLog e)).foldl
          (cacheAfter s.config.logCacheSize) s.logCache } := by
  induction entries generalizing s with
  | nil => rfl
  | cons entry rest ih =>
    rw [foldl_cons, ih]
    rfl

theorem cache_full_of_follows {more : List WalFrame}
    (full : s.logCache.entries = replayLog s.frames)
    (room : (s.frames ++ more).length ≤ s.config.logCacheSize) :
    (more.foldl (cacheAfter s.config.logCacheSize) s.logCache).entries =
      replayLog (s.frames ++ more) := by
  have hsize := size_foldl_replayRecord_le s.frames .empty
  rw [List.length_append] at room
  rw [foldl_cacheAfter_of_room, full, replayLog_append]
  rw [full, replayLog]
  rw [show IndexedEntries.empty.size = 0 from rfl] at hsize
  omega

theorem LogSound.extends_record (sound : s.LogSound) {record : RaftWalRecord} {sink : RealWalSink}
    (hframes : sink.frames = s.frames ++ [WalFrame.record record]) (hsettled : sink.Settled)
    (sink_eq : t.walWriter = sink) (config : t.config = s.config) (groupId : t.groupId = s.groupId)
    (nodeId : t.nodeId = s.nodeId)
    (files : ∀ path, (s.files path).isSome = true → (t.files path).isSome = true)
    (accepts : t.Accepts (.record record)) (vote : t.vote = voteAfter s.vote (.record record))
    (purged : t.lastPurgedLogId = purgedAfter s.lastPurgedLogId (.record record))
    (cache : t.logCache = cacheAfter s.config.logCacheSize s.logCache (.record record)) :
    s.Extends t [.record record] := by
  have hall : t.frames = s.frames ++ [WalFrame.record record] := by rw [frames, sink_eq, hframes]
  refine ⟨config, groupId, nodeId, files, hall, by rw [Settled, sink_eq]; exact hsettled,
    by simpa using accepts, vote, purged, ?_, ?_, ?_⟩
  · rw [hall, replayLog_append, cache]
    exact foldl_cacheAfter_sub _ [.record record] sound.cache_sub
  · rw [cache]
    exact foldl_cacheAfter_size_le _ [.record record] sound.cache_size
  · intro full room
    rw [hall, cache]
    exact (cache_full_of_follows full room :)

theorem LogSound.extends_nil (sound : s.LogSound) (walWriter : t.walWriter = s.walWriter)
    (config : t.config = s.config) (groupId : t.groupId = s.groupId) (nodeId : t.nodeId = s.nodeId)
    (files : ∀ path, (s.files path).isSome = true → (t.files path).isSome = true)
    (vote : t.vote = s.vote) (purged : t.lastPurgedLogId = s.lastPurgedLogId)
    (cache : t.logCache = s.logCache) : s.Extends t [] := by
  have hall : t.frames = s.frames := by rw [frames, walWriter]; rfl
  refine ⟨config, groupId, nodeId, files, by rw [hall, append_nil], ?_, by simp, vote,
    purged, ?_, ?_, ?_⟩
  · rw [Settled, walWriter]
    exact sound.settled
  · rw [hall, cache]
    exact sound.cache_sub
  · rw [cache]
    exact sound.cache_size
  · intro full _
    rw [hall, cache]
    exact full

theorem LogSound.extends_append (sound : s.LogSound) (h : s.append entries = (.ok (), t)) :
    s.Extends t (entries.map fun e => .record (.appendLog e)) := by
  obtain ⟨sink, pending, rfl, hframes, hsettled⟩ := append_ok h sound.settled
  rw [foldl_recordEntry]
  have hall : ((entries.foldl recordEntry s).withSink sink pending).frames =
      s.frames ++ entries.map fun e => WalFrame.record (.appendLog e) := hframes
  rw [foldl_recordEntry] at hall
  have hvote : ∀ (vote : Option Vote) (entries : List Entry),
      (entries.map fun e => WalFrame.record (.appendLog e)).foldl voteAfter vote = vote := by
    intro vote entries
    induction entries with
    | nil => rfl
    | cons e rest ih => exact ih
  have hpurged : ∀ (purged : Option LogId) (entries : List Entry),
      (entries.map fun e => WalFrame.record (.appendLog e)).foldl purgedAfter purged = purged := by
    intro purged entries
    induction entries with
    | nil => rfl
    | cons e rest ih => exact ih
  refine ⟨rfl, rfl, rfl, fun _ h => h, hall, hsettled, ?_, (hvote _ _).symm, (hpurged _ _).symm,
    ?_, ?_, ?_⟩
  · intro frame hframe
    obtain ⟨e, -, rfl⟩ := List.mem_map.mp hframe
    trivial
  · rw [hall, replayLog_append]
    exact foldl_cacheAfter_sub _ _ sound.cache_sub
  · exact foldl_cacheAfter_size_le _ _ sound.cache_size
  · intro full room
    rw [hall]
    exact cache_full_of_follows full room

theorem foldl_insertEntry_sub {m : IndexedEntries} {limit : ℕ} {cache : LogCache}
    (hcache : cache.entries.Sub m) (hentries : ∀ e ∈ entries, m.lookup e.logId.index = some e) :
    (entries.foldl (LogCache.insertEntry limit) cache).entries.Sub m := by
  induction entries generalizing cache with
  | nil => exact hcache
  | cons e rest ih =>
    refine ih ?_ fun e' he' => hentries e' (List.mem_cons_of_mem e he')
    refine (cache.insertEntry_sub limit e).trans fun k e' hk => ?_
    rw [IndexedEntries.lookup_insert] at hk
    split at hk
    · rename_i hindex
      rw [← hindex, ← Option.some.inj hk]
      exact hentries e List.mem_cons_self
    · exact hcache k e' hk

theorem foldl_insertEntry_size_le {limit : ℕ} {cache : LogCache} (h : cache.entries.size ≤ limit) :
    (entries.foldl (LogCache.insertEntry limit) cache).entries.size ≤ limit := by
  induction entries generalizing cache with
  | nil => exact h
  | cons e rest ih => exact ih (cache.insertEntry_size_le limit e)

theorem cached_of_uncached {k : UInt64}
    (h : (((s.uncached range).foldl (LogCache.insertEntry s.config.logCacheSize)
      s.logCache).entries.lookup k).isSome = true) :
    (s.logCache.entries.lookup k).isSome = true ∨ ((walLog s.file).lookup k).isSome = true := by
  obtain ⟨e, he⟩ := Option.isSome_iff_exists.mp h
  have hcache : s.logCache.entries.Sub s.view := by
    intro k e hk
    rw [view, IndexedEntries.lookup_overlay, hk]
    rfl
  have huncached : ∀ e ∈ s.uncached range, s.view.lookup e.logId.index = some e := by
    intro e he
    obtain ⟨-, hwal, hmissing⟩ := mem_uncached.mp he
    rw [view, IndexedEntries.lookup_overlay, hmissing, hwal]
    rfl
  have hview : s.view.lookup k = some e := foldl_insertEntry_sub hcache huncached k e he
  rw [view, IndexedEntries.lookup_overlay, Option.or_eq_some_iff] at hview
  rcases hview with hcached | ⟨-, hwal⟩
  · exact .inl (Option.isSome_iff_exists.mpr ⟨e, hcached⟩)
  · exact .inr (Option.isSome_iff_exists.mpr ⟨e, hwal⟩)

theorem LogSound.extends_tryGetLogEntries (sound : s.LogSound)
    (h : s.tryGetLogEntries range = some (entries, t)) : s.Extends t [] := by
  cases haccepted : range.accepted with
  | false => simp [tryGetLogEntries_rejected haccepted] at h
  | true =>
    obtain ⟨cache, heq, hcache⟩ := s.tryGetLogEntries_eq haccepted
    cases heq.symm.trans h
    refine ⟨rfl, rfl, rfl, fun _ h => h, (append_nil _).symm, sound.settled, by simp, rfl,
      rfl, ?_, ?_, ?_⟩
    · rw [withCache_logCache, hcache]
      refine foldl_insertEntry_sub sound.cache_sub fun e he => ?_
      exact walLog_sub_replayLog _ _ _ (sound.settled.file_eq ▸ (mem_uncached.mp he).2.1)
    · rw [withCache_logCache, hcache]
      exact foldl_insertEntry_size_le sound.cache_size
    · -- a full cache has nothing left to read from the WAL
      intro full _
      have hnone : s.uncached range = [] := by
        refine List.eq_nil_iff_forall_not_mem.mpr fun e he => ?_
        obtain ⟨-, hwal, hmissing⟩ := mem_uncached.mp he
        rw [sound.settled.file_eq] at hwal
        rw [full, walLog_sub_replayLog _ _ _ hwal] at hmissing
        cases hmissing
      rw [withCache_logCache, hcache, hnone]
      exact full

theorem buildSnapshot_files (codec : SnapshotCodec) (builder : WalSnapshotBuilder)
    (files : SnapshotFiles) (outcome : ReplaceOutcome) :
    ((builder.buildSnapshot codec files outcome).2.1 = files ∧
        ∃ error, (builder.buildSnapshot codec files outcome).1 = .error error) ∨
      ∃ encoded,
        encodeSnapshotFile codec builder.info builder.data builder.chunkSize = .ok encoded ∧
        (builder.buildSnapshot codec files outcome).2.1 =
          Function.update files builder.path (some encoded) ∧
        ∀ snapshot, (builder.buildSnapshot codec files outcome).1 = .ok snapshot →
          snapshot = ⟨builder.info, builder.data⟩ := by
  rw [WalSnapshotBuilder.buildSnapshot]
  cases hencode : encodeSnapshotFile codec builder.info builder.data builder.chunkSize with
  | error message => exact .inl ⟨rfl, _, rfl⟩
  | ok encoded =>
    rcases outcome with _ | ⟨message, _ | _⟩
    · exact .inr ⟨encoded, rfl, rfl, fun _ h => (Except.ok.inj h).symm⟩
    · exact .inl ⟨rfl, _, rfl⟩
    · exact .inr ⟨encoded, rfl, rfl, nofun⟩

theorem isSome_buildSnapshot (codec : SnapshotCodec) (builder : WalSnapshotBuilder)
    (outcome : ReplaceOutcome) {path : String} (h : (files path).isSome = true) :
    ((builder.buildSnapshot codec files outcome).2.1 path).isSome = true := by
  rcases buildSnapshot_files codec builder files outcome with
    ⟨hfiles, -⟩ | ⟨encoded, -, hfiles, -⟩
  · rwa [hfiles]
  · rw [hfiles]
    exact isSome_update h

theorem LogSound.extends_stepOk [StateMachine SM] {codec : SnapshotCodec} {op : Op SM}
    (sound : s.LogSound) (h : s.stepOk codec op = some t) :
    s.Extends t (op.records.map .record) := by
  rw [stepOk_eq_some] at h
  cases op with
  | append entries =>
    rw [Op.records, List.map_map]
    exact sound.extends_append (call_of_perform h)
  | truncate logId | purge logId | saveVote vote =>
    have hcall := call_of_perform h
    simp only [WalRaftStorage.truncate, WalRaftStorage.purge, WalRaftStorage.saveVote] at hcall
    split at hcall
    · simp at hcall
    · rename_i u hwrite
      obtain ⟨sink, rfl, hframes, hsettled⟩ := writeFrame_sync_ok hwrite
      obtain ⟨-, rfl⟩ := Prod.mk.inj hcall
      exact sound.extends_record hframes hsettled rfl rfl rfl rfl (fun _ h => h) trivial rfl rfl rfl
  | apply entries =>
    obtain ⟨-, rfl⟩ := Prod.mk.inj (Option.some.inj h)
    obtain ⟨state, sm, heq⟩ := s.apply_eq entries
    rw [heq]
    exact sound.extends_nil rfl rfl rfl rfl (fun _ h => h) rfl rfl rfl
  | tryGetLogEntries range =>
    obtain ⟨⟨entries, u⟩, hread, heq⟩ := Option.map_eq_some_iff.mp h
    obtain ⟨-, rfl⟩ := Prod.mk.inj heq
    exact sound.extends_tryGetLogEntries hread
  | installSnapshot info data outcome =>
    obtain ⟨encoded, sm, sink, -, -, hframes, hsettled, rfl⟩ :=
      installSnapshot_ok (call_of_perform h)
    refine sound.extends_record hframes hsettled rfl rfl rfl rfl
      (fun path hpath => isSome_update hpath) ?_ rfl rfl rfl
    simp [Accepts, withSink]
  | buildSnapshot builder outcome =>
    obtain ⟨-, rfl⟩ := Prod.mk.inj (Option.some.inj h)
    exact sound.extends_nil rfl rfl rfl rfl
      (fun _ h => isSome_buildSnapshot codec builder outcome h) rfl rfl rfl
  | recover stateMachine now kept writeFaults syncOutcomes =>
    obtain ⟨u, hrestart, heq⟩ := Option.map_eq_some_iff.mp h
    obtain ⟨-, rfl⟩ := Prod.mk.inj heq
    obtain ⟨hkept, hrestart⟩ := Option.ite_none_right_eq_some.mp hrestart
    -- nothing is unsynced, so nothing can be lost
    have hall : s.frames.take kept = s.frames := by
      have hsynced : s.frames.length ≤ s.walWriter.participant.writer.synced :=
        not_lt.mp sound.settled
      exact List.take_of_length_le (hsynced.trans hkept.1)
    rw [hall] at hrestart
    cases hrecover : recover s.config s.groupId s.nodeId stateMachine now
        (.openFile s.frames writeFaults syncOutcomes) s.files with
    | error message => simp [hrecover, Except.toOption] at hrestart
    | ok v =>
      obtain rfl : v = u := by simpa [hrecover, Except.toOption] using hrestart
      exact sound.extends_recovered hrecover

def historyFrames (history : List (Op SM)) : List WalFrame :=
  (history.flatMap Op.records).map .record

theorem LogSound.run_stepOk [StateMachine SM] {codec : SnapshotCodec} {history : List (Op SM)}
    (sound : s.LogSound) (reach : run (stepOk codec) s history = some t) :
    t.LogSound ∧ t.frames = s.frames ++ historyFrames history ∧ t.config = s.config ∧
      t.groupId = s.groupId ∧ t.nodeId = s.nodeId := by
  induction history generalizing s with
  | nil =>
    cases reach
    exact ⟨sound, by simp [historyFrames], rfl, rfl, rfl⟩
  | cons op rest ih =>
    obtain ⟨next, hstep, hrest⟩ := run_cons_eq_some.mp reach
    have hextends := sound.extends_stepOk hstep
    obtain ⟨hsound, hframes, hconfig, hgroup, hnode⟩ :=
      ih (sound.of_extends hextends) hrest
    refine ⟨hsound, ?_, hconfig.trans hextends.config, hgroup.trans hextends.groupId,
      hnode.trans hextends.nodeId⟩
    rw [hframes, hextends.frames]
    simp [historyFrames]

def recoverFrom (s : WalRaftStorage SM) (stateMachine : SM) (now : UInt64)
    (writeFaults : List (Option String)) (syncOutcomes : List SyncOutcome) :
    Except String (WalRaftStorage SM) :=
  recover s.config s.groupId s.nodeId stateMachine now
    (.openFile s.walWriter.file writeFaults syncOutcomes) s.files

theorem LogSound.extends_recoverFrom (sound : s.LogSound)
    (h : s.recoverFrom stateMachine now writeFaults syncOutcomes = .ok t) : s.Extends t [] := by
  rw [recoverFrom, RealWalSink.Settled.file_eq sound.settled] at h
  exact sound.extends_recovered h

theorem LogSound.exists_recoverFrom (sound : s.LogSound) (stateMachine : SM) (now : UInt64)
    (writeFaults : List (Option String)) (syncOutcomes : List SyncOutcome) :
    ∃ t, s.recoverFrom stateMachine now writeFaults syncOutcomes = .ok t := by
  rw [recoverFrom, RealWalSink.Settled.file_eq sound.settled]
  exact ⟨_, sound.recover_eq stateMachine now writeFaults syncOutcomes⟩

end WalRaftStorage

/-! ## Reachable storages -/

/-- What a storage is created with, on a WAL that does not exist yet. -/
structure Creation (SM : Type*) where
  config : WalStorageConfig
  groupId : GroupId
  nodeId : ChirpsNodeId
  stateMachine : SM
  now : UInt64
  writeFaults : List (Option String)
  syncOutcomes : List SyncOutcome
  files : SnapshotFiles

/-- `WalRaftStorage::new`. -/
def Creation.storage {SM : Type*} (c : Creation SM) : Except String (WalRaftStorage SM) :=
  recover c.config c.groupId c.nodeId c.stateMachine c.now
    (.openFile [] c.writeFaults c.syncOutcomes) c.files

/-- The history, every operation of which succeeds, leads from a new storage to
`s`. -/
def Reaches {SM : Type*} [StateMachine SM] (codec : SnapshotCodec) (c : Creation SM)
    (history : List (Op SM)) (s : WalRaftStorage SM) : Prop :=
  ∃ created, c.storage = .ok created ∧ run (stepOk codec) created history = some s

theorem Reaches.sound {SM : Type*} [StateMachine SM] {codec : SnapshotCodec} {c : Creation SM}
    {history : List (Op SM)} {s : WalRaftStorage SM} (h : Reaches codec c history s) :
    s.LogSound ∧ ∃ header, s.frames = .header header :: historyFrames history := by
  obtain ⟨created, hcreated, hrun⟩ := h
  obtain ⟨hsound, hframes, -⟩ := (logSound_of_recover_new hcreated).run_stepOk hrun
  obtain ⟨sink, header, rfl, hheader, -⟩ := recover_new hcreated
  refine ⟨hsound, header, ?_⟩
  have hcreatedFrames : (blank c.config c.groupId c.nodeId c.stateMachine sink c.files).frames =
      [.header header] := hheader
  rw [hframes, hcreatedFrames, List.singleton_append]

/-! ## A small storage -/

def commandAt (index : UInt64) (command : Bytes) : Entry := ⟨⟨⟨1, 1⟩, index⟩, .normal command⟩

def smallCreation (logCacheSize : ℕ) : Creation MockStateMachine where
  config := { WalStorageConfig.standard with logCacheSize := logCacheSize }
  groupId := ⟨1⟩
  nodeId := 1
  stateMachine := ⟨⟩
  now := 0
  writeFaults := []
  syncOutcomes := []
  files _ := none

def singleCodec (known : SnapshotMeta) : SnapshotCodec where
  serialize info := if info = known then .ok [1] else .error "unknown snapshot"
  deserialize bytes := if bytes = [1] then .ok known else .error "unknown snapshot"
  crc32 bytes := UInt32.ofNat bytes.length
  sha256 _ := []

end Chirps.RaftStorage
