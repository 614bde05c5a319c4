/-
# The shape of the log cache

`log_order` has each cached index once and no other, and the cache is within its size. This is why
the eviction loop of `insert_entry`, which goes on while the cache is too large, comes to an end.
-/

import Chirps.RaftStorage.WalStorage

namespace Chirps.RaftStorage

namespace LogCache

/-- The loop of `insert_entry` as it is written, or `none` if it takes more turns. -/
def evictWhile (limit : ℕ) :
    ℕ → List UInt64 → IndexedEntries → Option (List UInt64 × IndexedEntries)
  | 0, _, _ => none
  | turns + 1, order, entries =>
    if entries.size ≤ limit then some (order, entries)
    else
      match order with
      | [] => evictWhile limit turns [] entries
      | index :: order => evictWhile limit turns order (entries.erase index)

theorem evictWhile_eq {limit : ℕ} {order : List UInt64} {entries : IndexedEntries}
    (covered : ∀ k, (entries.lookup k).isSome = true → k ∈ order) :
    evictWhile limit (order.length + 1) order entries = some (evictLoop limit order entries) := by
  induction order generalizing entries with
  | nil =>
    have hsize : entries.size ≤ limit := evictLoop_size_le limit covered
    rw [evictWhile, if_pos hsize, evictLoop]
  | cons index order ih =>
    rw [evictWhile, evictLoop]
    split
    · rfl
    · exact ih (covered_erase covered)

/-- With `covered`: the order has the cached indices, each once, and there are at most `limit`. -/
structure Exact (limit : ℕ) (cache : LogCache) : Prop where
  nodup : cache.order.Nodup
  cached : ∀ k ∈ cache.order, (cache.entries.lookup k).isSome = true
  size_le : cache.entries.size ≤ limit

theorem nodup_moved {order : List UInt64} (h : order.Nodup) (index : UInt64) :
    (order.filter (· ≠ index) ++ [index]).Nodup := by
  refine (h.filter _).append (List.nodup_singleton _) fun k hk hindex => ?_
  have hne : k ≠ index := by simpa using (List.mem_filter.mp hk).2
  exact hne (List.mem_singleton.mp hindex)

theorem exact_evictLoop (limit : ℕ) {order : List UInt64} {entries : IndexedEntries}
    (nodup : order.Nodup) (cached : ∀ k ∈ order, (entries.lookup k).isSome = true) :
    (evictLoop limit order entries).1.Nodup ∧ ∀ k ∈ (evictLoop limit order entries).1,
      ((evictLoop limit order entries).2.lookup k).isSome = true := by
  induction order generalizing entries with
  | nil => exact ⟨nodup, cached⟩
  | cons index order ih =>
    rw [evictLoop]
    split
    · exact ⟨nodup, cached⟩
    · obtain ⟨hindex, hnodup⟩ := List.nodup_cons.mp nodup
      refine ih hnodup fun k hk => ?_
      rw [IndexedEntries.lookup_erase, if_neg (by grind)]
      exact cached k (List.mem_cons_of_mem _ hk)

variable {limit : ℕ} {cache : LogCache} (exact : cache.Exact limit)
include exact

theorem Exact.touchCache (index : UInt64) : (cache.touchCache index).Exact limit := by
  refine ⟨?_, fun k hk => ?_, exact.size_le⟩ <;> simp only [LogCache.touchCache] at *
  · split
    · exact nodup_moved exact.nodup index
    · simpa using exact.nodup.filter _
  · rcases List.mem_append.mp hk with hk | hk
    · exact exact.cached k (List.mem_of_mem_filter hk)
    · split at hk
      · rwa [List.mem_singleton.mp hk]
      · exact absurd hk List.not_mem_nil

theorem Exact.insertEntry (entry : Entry) : (cache.insertEntry limit entry).Exact limit := by
  have hput :
      ∀ k ∈ (cache.put entry).order, ((cache.put entry).entries.lookup k).isSome = true := by
    intro k hk
    rw [put, IndexedEntries.lookup_insert]
    split
    · rfl
    · rename_i hne
      rcases List.mem_append.mp hk with hk | hk
      · exact exact.cached k (List.mem_of_mem_filter hk)
      · exact absurd (List.mem_singleton.mp hk).symm hne
  obtain ⟨hnodup, hcached⟩ :=
    exact_evictLoop limit (nodup_moved exact.nodup entry.logId.index) hput
  exact ⟨hnodup, hcached, cache.insertEntry_size_le limit entry⟩

theorem Exact.removeWhere {p q : UInt64 → Bool} {t : LogCache}
    (order : t.order = cache.order.filter q) (entries : t.entries = cache.entries.removeWhere p)
    (kept : ∀ k, q k = true → p k = false) : t.Exact limit := by
  refine ⟨order ▸ exact.nodup.filter _, fun k hk => ?_, ?_⟩
  · obtain ⟨hk, hq⟩ := List.mem_filter.mp (order ▸ hk)
    rw [entries, IndexedEntries.lookup_removeWhere, kept k hq]
    exact exact.cached k hk
  · exact entries ▸ (IndexedEntries.size_removeWhere_le _ _).trans exact.size_le

theorem Exact.truncateCache {index : UInt64} (below : index ≠ u64Max) :
    (cache.truncateCache index).Exact limit :=
  exact.removeWhere rfl rfl fun k hk => by grind [u64Max]

theorem Exact.purgeCache (index : UInt64) : (cache.purgeCache index).Exact limit :=
  exact.removeWhere rfl rfl fun k hk => by grind

end LogCache

inductive CacheCall
  | insertEntry (entry : Entry)
  | touchCache (index : UInt64)
  | truncateCache (index : UInt64)
  | purgeCache (index : UInt64)
  | read (range : IndexRange)
  | replay (frames : List WalFrame)

/-- Truncations are at indices below `u64::MAX`. -/
def CacheCall.Below : CacheCall → Prop
  | .truncateCache index => index ≠ u64Max
  | .replay frames => ∀ logId, .record (.truncate logId) ∈ frames → logId.index ≠ u64Max
  | _ => True

namespace WalRaftStorage

variable {SM : Type*} {s next : WalRaftStorage SM}

/-- A call that fails leaves no storage, and is passed over. -/
def cacheStep (s : WalRaftStorage SM) : CacheCall → WalRaftStorage SM
  | .insertEntry entry => s.insertEntry entry
  | .touchCache index => { s with logCache := s.logCache.touchCache index }
  | .truncateCache index => { s with logCache := s.logCache.truncateCache index }
  | .purgeCache index => { s with logCache := s.logCache.purgeCache index }
  | .read range => ((s.tryGetLogEntries range).map Prod.snd).getD s
  | .replay frames => (s.replayWal frames).toOption.getD s

structure CacheShaped (limit : ℕ) (s : WalRaftStorage SM) : Prop where
  limit_eq : s.config.logCacheSize = limit
  exact : s.logCache.Exact limit

namespace CacheShaped

variable {limit : ℕ} (shaped : s.CacheShaped limit)
include shaped

theorem insertEntry (entry : Entry) : (s.insertEntry entry).CacheShaped limit := by
  refine ⟨shaped.limit_eq, ?_⟩
  rw [WalRaftStorage.insertEntry, shaped.limit_eq]
  exact shaped.exact.insertEntry entry

theorem mergeWalEntries (seen : List UInt64) (entries walEntries : List Entry) :
    (s.mergeWalEntries seen entries walEntries).2.CacheShaped limit := by
  induction walEntries generalizing s seen entries with
  | nil => exact shaped
  | cons entry rest ih =>
    rw [WalRaftStorage.mergeWalEntries]
    split
    · exact ih shaped _ _
    · exact ih (shaped.insertEntry entry) _ _

theorem touchAll (entries : List Entry) :
    (entries.foldl (fun cache e => cache.touchCache e.logId.index) s.logCache).Exact limit := by
  have h := shaped.exact
  generalize s.logCache = cache at h
  induction entries generalizing cache with
  | nil => exact h
  | cons e rest ih => exact ih _ (h.touchCache _)

theorem applyWalRecord {record : RaftWalRecord}
    (below : ∀ logId, record = .truncate logId → logId.index ≠ u64Max)
    (h : s.applyWalRecord record = .ok next) : next.CacheShaped limit := by
  cases record with
  | appendLog entry =>
    cases h
    exact ⟨shaped.limit_eq, (shaped.insertEntry entry).exact⟩
  | vote vote =>
    cases h
    exact ⟨shaped.limit_eq, shaped.exact⟩
  | snapshotApplied info =>
    simp only [WalRaftStorage.applyWalRecord] at h
    split at h <;> cases h
    exact ⟨shaped.limit_eq, shaped.exact⟩
  | truncate logId =>
    cases h
    exact ⟨shaped.limit_eq, shaped.exact.truncateCache (below logId rfl)⟩
  | purge logId =>
    cases h
    exact ⟨shaped.limit_eq, shaped.exact.purgeCache logId.index⟩

theorem replayWal {frames : List WalFrame} (below : (CacheCall.replay frames).Below)
    (h : s.replayWal frames = .ok next) : next.CacheShaped limit := by
  induction frames generalizing s with
  | nil =>
    cases h
    exact shaped
  | cons frame rest ih =>
    have hrest : (CacheCall.replay rest).Below := fun logId hmem =>
      below logId (List.mem_cons_of_mem _ hmem)
    cases frame <;> rw [WalRaftStorage.replayWal] at h <;> split at h
    · cases h
    · exact ih shaped hrest h
    · cases h
    · rename_i hnext
      refine ih (shaped.applyWalRecord (fun logId heq => ?_) hnext) hrest h
      exact below logId (heq ▸ List.mem_cons_self)

theorem cacheStep {call : CacheCall} (below : call.Below) :
    (s.cacheStep call).CacheShaped limit := by
  cases call with
  | insertEntry entry => exact shaped.insertEntry entry
  | touchCache index => exact ⟨shaped.limit_eq, shaped.exact.touchCache index⟩
  | truncateCache index => exact ⟨shaped.limit_eq, shaped.exact.truncateCache below⟩
  | purgeCache index => exact ⟨shaped.limit_eq, shaped.exact.purgeCache index⟩
  | read range =>
    rw [WalRaftStorage.cacheStep, tryGetLogEntries]
    split
    · exact ⟨(shaped.mergeWalEntries _ _ _).limit_eq, (shaped.mergeWalEntries _ _ _).touchAll _⟩
    · exact shaped
  | replay frames =>
    rw [WalRaftStorage.cacheStep]
    cases hreplay : s.replayWal frames with
    | error => exact shaped
    | ok next => exact shaped.replayWal below hreplay

theorem run {calls : List CacheCall}
    (below : ∀ call ∈ calls, call.Below) :
    (calls.foldl WalRaftStorage.cacheStep s).CacheShaped limit := by
  induction calls generalizing s with
  | nil => exact shaped
  | cons call rest ih =>
    exact ih (shaped.cacheStep (below call List.mem_cons_self)) fun c hc =>
      below c (List.mem_cons_of_mem _ hc)

end CacheShaped
end WalRaftStorage

/-- After any calls `log_order` has exactly the cached indices, each once, the cache is within its
size, and the next eviction loop ends. -/
theorem log_cache_is_well_formed {SM : Type*} {s : WalRaftStorage SM} (empty : s.logCache = .empty)
    (calls : List CacheCall) (below : ∀ call ∈ calls, call.Below) :
    let t := calls.foldl WalRaftStorage.cacheStep s
    t.logCache.order.Nodup ∧
    (∀ k, k ∈ t.logCache.order ↔ (t.logCache.entries.lookup k).isSome = true) ∧
    t.logCache.entries.size ≤ s.config.logCacheSize ∧
    ∀ entry, ∃ turns, LogCache.evictWhile s.config.logCacheSize turns (t.logCache.put entry).order
      (t.logCache.put entry).entries = some ((t.insertEntry entry).logCache.order,
        (t.insertEntry entry).logCache.entries) := by
  intro t
  have shaped : t.CacheShaped s.config.logCacheSize := by
    refine WalRaftStorage.CacheShaped.run ⟨rfl, ?_⟩ below
    rw [empty]
    exact ⟨List.nodup_nil, nofun, Nat.zero_le _⟩
  refine ⟨shaped.exact.nodup, fun k => ⟨shaped.exact.cached k, t.logCache.covered k⟩,
    shaped.exact.size_le, fun entry =>
      ⟨_, (LogCache.evictWhile_eq (t.logCache.put entry).covered).trans ?_⟩⟩
  rw [← shaped.limit_eq]
  rfl

/-- A new storage with a cache of two entries. -/
def cachesTwo : WalRaftStorage MockStateMachine :=
  .blank { WalStorageConfig.standard with logCacheSize := 2 } ⟨1⟩ 1 MockStateMachine.mk
    (.openFile [] [] []) fun _ => none

/-- The third entry drives out the first, the read of the second makes the third the oldest, which
the fourth drives out, and the truncation takes out the fourth. -/
def evictingCalls : List CacheCall :=
  [.insertEntry ⟨⟨⟨1, 1⟩, 1⟩, .blank⟩, .insertEntry ⟨⟨⟨1, 1⟩, 2⟩, .blank⟩,
    .insertEntry ⟨⟨⟨1, 1⟩, 3⟩, .blank⟩, .read ⟨.included 2, .included 2⟩,
    .insertEntry ⟨⟨⟨1, 1⟩, 4⟩, .blank⟩, .truncateCache 3]

theorem log_cache_is_well_formed_evicted :
    let order :=
      fun n => ((evictingCalls.take n).foldl WalRaftStorage.cacheStep cachesTwo).logCache.order
    order 3 = [2, 3] ∧ order 4 = [3, 2] ∧ order 5 = [2, 4] ∧ order 6 = [2] ∧
      let t := evictingCalls.foldl WalRaftStorage.cacheStep cachesTwo
      t.logCache.order.Nodup ∧ t.logCache.entries.size ≤ 2 ∧
        (t.logCache.entries.lookup 2).isSome = true := by
  obtain ⟨hnodup, hmem, hsize, -⟩ := log_cache_is_well_formed (rfl : cachesTwo.logCache = .empty)
    evictingCalls (by simp [evictingCalls, CacheCall.Below, u64Max])
  exact ⟨by decide, by decide, by decide, by decide, hnodup, hsize, (hmem 2).mp (by decide)⟩

end Chirps.RaftStorage
