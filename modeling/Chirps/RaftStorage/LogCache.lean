/-
# Entries by index and the LRU log cache

`IndexedEntries` is a `BTreeMap<u64, Entry>` with each entry under its own index. `LogCache` is the
pair `log_cache`, `log_order`; every cached index is in `log_order`, so that the eviction loop
ends.
-/

import Chirps.Library.OrderedMap
import Chirps.RaftStorage.Types

namespace Chirps.RaftStorage

open Std Chirps.Library

structure IndexedEntries where
  map : ExtTreeMap UInt64 Entry
  keyed : ∀ (k : UInt64) (e : Entry), map[k]? = some e → e.logId.index = k

namespace IndexedEntries

def lookup (entries : IndexedEntries) (k : UInt64) : Option Entry := entries.map[k]?

variable {m m' : IndexedEntries}

@[ext] theorem ext (h : ∀ k, m.lookup k = m'.lookup k) : m = m' := by
  obtain ⟨map, keyed⟩ := m
  obtain ⟨map', keyed'⟩ := m'
  obtain rfl : map = map' := ExtTreeMap.ext_getElem? h
  rfl

variable {e : Entry}

theorem index_of_lookup {k : UInt64} (h : m.lookup k = some e) : e.logId.index = k :=
  m.keyed k e h

def empty : IndexedEntries := ⟨∅, by simp⟩

def size (entries : IndexedEntries) : ℕ := entries.map.size

def insert (entries : IndexedEntries) (entry : Entry) : IndexedEntries where
  map := entries.map.insert entry.logId.index entry
  keyed k e h := by
    rw [ExtTreeMap.getElem?_insert] at h
    split at h
    · rename_i hk
      rw [← LawfulEqOrd.eq_of_compare hk, ← Option.some.inj h]
    · exact entries.keyed k e h

def removeWhere (entries : IndexedEntries) (p : UInt64 → Bool) : IndexedEntries where
  map := OrderedMap.removeWhere entries.map p
  keyed k e h := by
    rw [OrderedMap.getElem?_removeWhere] at h
    split at h
    · cases h
    · exact entries.keyed k e h

def erase (entries : IndexedEntries) (k : UInt64) : IndexedEntries where
  map := entries.map.erase k
  keyed k' e h := by
    rw [ExtTreeMap.getElem?_erase] at h
    split at h
    · cases h
    · exact entries.keyed k' e h

/-- `range(range)`: the entries of a range in index order. -/
def valuesIn (entries : IndexedEntries) (range : IndexRange) : List Entry :=
  OrderedMap.valuesWhere entries.map range.contains

/-- `iter().next_back()`: the entry with the greatest index. -/
def last? (entries : IndexedEntries) : Option Entry :=
  (OrderedMap.last? entries.map).map Prod.snd

@[simp] theorem lookup_empty (k : UInt64) : empty.lookup k = none := by
  simp [empty, lookup]

theorem lookup_insert (m : IndexedEntries) (e : Entry) (k : UInt64) :
    (m.insert e).lookup k = if e.logId.index = k then some e else m.lookup k := by
  simp [insert, lookup, ExtTreeMap.getElem?_insert]

theorem lookup_removeWhere (m : IndexedEntries) (p : UInt64 → Bool) (k : UInt64) :
    (m.removeWhere p).lookup k = if p k then none else m.lookup k :=
  OrderedMap.getElem?_removeWhere m.map p k

theorem isSome_of_removeWhere {p : UInt64 → Bool} {k : UInt64}
    (h : ((m.removeWhere p).lookup k).isSome = true) : (m.lookup k).isSome = true := by
  rw [lookup_removeWhere] at h
  split at h
  · cases h
  · exact h

theorem lookup_erase (m : IndexedEntries) (k k' : UInt64) :
    (m.erase k).lookup k' = if k = k' then none else m.lookup k' := by
  simp [erase, lookup, ExtTreeMap.getElem?_erase]

theorem mem_valuesIn {range : IndexRange} :
    e ∈ m.valuesIn range ↔
      range.contains e.logId.index = true ∧ m.lookup e.logId.index = some e := by
  rw [valuesIn, OrderedMap.mem_valuesWhere]
  constructor
  · rintro ⟨k, hk, he⟩
    rw [m.keyed k e he]
    exact ⟨hk, he⟩
  · rintro ⟨hk, he⟩
    exact ⟨e.logId.index, hk, he⟩

theorem pairwise_valuesIn (m : IndexedEntries) (range : IndexRange) :
    (m.valuesIn range).Pairwise fun a b => a.logId.index < b.logId.index := by
  rw [valuesIn, OrderedMap.valuesWhere, List.pairwise_map]
  refine (OrderedMap.pairwise_filter_toList m.map range.contains).imp_of_mem ?_
  rintro ⟨k, e⟩ ⟨k', e'⟩ hmem hmem' hlt
  rw [List.mem_filter, ExtTreeMap.mem_toList_iff_getElem?_eq_some] at hmem hmem'
  rw [m.keyed k e hmem.1, m.keyed k' e' hmem'.1]
  exact Std.compare_eq_lt.mp hlt

theorem eq_of_mem_iff {l l' : List Entry}
    (sorted : l.Pairwise fun a b => a.logId.index < b.logId.index)
    (sorted' : l'.Pairwise fun a b => a.logId.index < b.logId.index)
    (mem : ∀ e, e ∈ l ↔ e ∈ l') : l = l' := by
  have hne : ∀ {a b : Entry}, a.logId.index < b.logId.index → a ≠ b := by
    rintro a b hlt rfl
    grind
  refine List.Perm.eq_of_pairwise (fun a b _ _ hab hba => ?_) sorted sorted'
    ((List.perm_ext_iff_of_nodup (sorted.imp hne) (sorted'.imp hne)).mpr mem)
  grind

theorem valuesIn_congr {range : IndexRange}
    (agree : ∀ k, range.contains k = true → m.lookup k = m'.lookup k) :
    m.valuesIn range = m'.valuesIn range :=
  OrderedMap.valuesWhere_congr agree

theorem eq_of_valuesIn_full (h : m.valuesIn .full = m'.valuesIn .full) : m = m' := by
  have hmem : ∀ e, m.lookup e.logId.index = some e ↔ m'.lookup e.logId.index = some e := by
    intro e
    have hmem : e ∈ m.valuesIn .full ↔ _ := mem_valuesIn
    rw [h, mem_valuesIn] at hmem
    simpa using hmem.symm
  ext k e
  constructor
  · intro he
    have := (hmem e).mp (by rwa [index_of_lookup he])
    rwa [index_of_lookup he] at this
  · intro he
    have := (hmem e).mpr (by rwa [index_of_lookup he])
    rwa [index_of_lookup he] at this

theorem last?_eq_none : m.last? = none ↔ ∀ k, m.lookup k = none := by
  rw [last?, Option.map_eq_none_iff]
  exact OrderedMap.last?_eq_none

theorem last?_eq_some :
    m.last? = some e ↔ m.lookup e.logId.index = some e ∧
      ∀ k, (m.lookup k).isSome = true → k ≤ e.logId.index := by
  rw [last?, Option.map_eq_some_iff]
  constructor
  · rintro ⟨⟨k, e'⟩, hlast, rfl⟩
    obtain ⟨hk, hmax⟩ := OrderedMap.last?_eq_some.mp hlast
    have hindex : e'.logId.index = k := m.keyed k e' hk
    -- the map compares by `compare`, the statement is about `≤`
    refine ⟨by rw [hindex]; exact hk, fun k' hk' => ?_⟩
    rw [hindex]
    rcases hmax k' hk' with rfl | hlt
    · exact UInt64.le_refl _
    · exact UInt64.le_of_lt (Std.compare_eq_lt.mp hlt)
  · rintro ⟨he, hmax⟩
    refine ⟨(e.logId.index, e), OrderedMap.last?_eq_some.mpr ⟨he, fun k hk => ?_⟩, rfl⟩
    have hle := hmax k hk
    rw [Std.compare_eq_lt]
    grind

theorem size_insert_le (m : IndexedEntries) (e : Entry) : (m.insert e).size ≤ m.size + 1 :=
  ExtTreeMap.size_insert_le

theorem size_removeWhere_le (m : IndexedEntries) (p : UInt64 → Bool) :
    (m.removeWhere p).size ≤ m.size :=
  OrderedMap.size_removeWhere_le m.map p

theorem lookup_eq_none_of_size_eq_zero (h : m.size = 0) (k : UInt64) : m.lookup k = none := by
  have hempty : m.map = ∅ := ExtTreeMap.eq_empty_iff_size_eq_zero.mpr h
  simp [lookup, hempty]

/-- The entries of `base`, replaced by those of `top` where both have one. -/
def overlay (base top : IndexedEntries) : IndexedEntries where
  map := base.map ∪ top.map
  keyed k e h := by
    rw [ExtTreeMap.getElem?_union, Option.or_eq_some_iff] at h
    rcases h with h | ⟨-, h⟩
    · exact top.keyed k e h
    · exact base.keyed k e h

theorem lookup_overlay (base top : IndexedEntries) (k : UInt64) :
    (base.overlay top).lookup k = (top.lookup k).or (base.lookup k) :=
  ExtTreeMap.getElem?_union

theorem filter_valuesIn_full (m : IndexedEntries) (range : IndexRange) :
    ((m.valuesIn .full).filter fun e => range.contains e.logId.index) = m.valuesIn range := by
  have hkey : ∀ kv ∈ m.map.toList, range.contains kv.2.logId.index = range.contains kv.1 := by
    rintro ⟨k, e⟩ hmem
    rw [m.keyed k e (ExtTreeMap.mem_toList_iff_getElem?_eq_some.mp hmem)]
  simp only [valuesIn, OrderedMap.valuesWhere, IndexRange.full_contains, List.filter_true,
    List.filter_map]
  congr 1
  exact List.filter_congr hkey

theorem valuesIn_removeWhere (m : IndexedEntries) (p : UInt64 → Bool) (range : IndexRange) :
    (m.removeWhere p).valuesIn range =
      (m.valuesIn range).filter fun e => !p e.logId.index := by
  refine eq_of_mem_iff (pairwise_valuesIn _ _) ((pairwise_valuesIn _ _).filter _) fun e => ?_
  rw [List.mem_filter, mem_valuesIn, mem_valuesIn, lookup_removeWhere]
  cases hp : p e.logId.index <;> simp

def Sub (m m' : IndexedEntries) : Prop := ∀ k e, m.lookup k = some e → m'.lookup k = some e

theorem Sub.refl (m : IndexedEntries) : m.Sub m := fun _ _ h => h

theorem Sub.trans {m'' : IndexedEntries} (h : m.Sub m') (h' : m'.Sub m'') : m.Sub m'' :=
  fun k e hk => h' k e (h k e hk)

theorem Sub.insert (h : m.Sub m') (e : Entry) : (m.insert e).Sub (m'.insert e) := by
  intro k e' hk
  rw [lookup_insert] at hk ⊢
  split at hk
  · rwa [if_pos ‹_›]
  · rw [if_neg ‹_›]
    exact h k e' hk

theorem Sub.removeWhere (h : m.Sub m') (p : UInt64 → Bool) :
    (m.removeWhere p).Sub (m'.removeWhere p) := by
  intro k e hk
  rw [lookup_removeWhere] at hk ⊢
  split at hk
  · cases hk
  · rw [if_neg ‹_›]
    exact h k e hk

theorem removeWhere_sub (m : IndexedEntries) (p : UInt64 → Bool) : (m.removeWhere p).Sub m := by
  intro k e hk
  rw [lookup_removeWhere] at hk
  split at hk
  · cases hk
  · exact hk

theorem erase_sub (m : IndexedEntries) (k : UInt64) : (m.erase k).Sub m := by
  intro k' e hk
  rw [lookup_erase] at hk
  split at hk
  · cases hk
  · exact hk

theorem empty_sub (m : IndexedEntries) : empty.Sub m := by
  intro k e hk
  simp at hk

end IndexedEntries

/-- `log_cache` and `log_order`. -/
structure LogCache where
  entries : IndexedEntries
  order : List UInt64
  covered : ∀ k, (entries.lookup k).isSome = true → k ∈ order

namespace LogCache

def empty : LogCache := ⟨.empty, [], by simp⟩

/-- `touch_cache`: a cached index becomes the most recently used one. -/
def touchCache (cache : LogCache) (index : UInt64) : LogCache where
  entries := cache.entries
  order := cache.order.filter (· ≠ index) ++
    if (cache.entries.lookup index).isSome then [index] else []
  covered k hk := by
    by_cases hki : k = index
    · subst hki
      simp [hk]
    · simp [hki, cache.covered k hk]

/-- The loop of `insert_entry`: drop least recently used indices until the map is
within its limit. -/
def evictLoop (limit : ℕ) : List UInt64 → IndexedEntries → List UInt64 × IndexedEntries
  -- the source's loop would not end here; `evictLoop_size_le` says that it is never needed
  | [], entries => ([], entries)
  | index :: order, entries =>
    if entries.size ≤ limit then (index :: order, entries)
    else evictLoop limit order (entries.erase index)

variable {order : List UInt64} {entries : IndexedEntries}

theorem covered_erase {index : UInt64}
    (covered : ∀ k, (entries.lookup k).isSome = true → k ∈ index :: order) :
    ∀ k, ((entries.erase index).lookup k).isSome = true → k ∈ order := by
  intro k hk
  rw [IndexedEntries.lookup_erase] at hk
  split at hk
  · cases hk
  · exact (List.mem_cons.mp (covered k hk)).resolve_left (Ne.symm ‹_›)

variable (limit : ℕ)

theorem evictLoop_covered
    (covered : ∀ k, (entries.lookup k).isSome = true → k ∈ order) :
    ∀ k, ((evictLoop limit order entries).2.lookup k).isSome = true →
      k ∈ (evictLoop limit order entries).1 := by
  induction order generalizing entries with
  | nil => exact covered
  | cons index order ih =>
    rw [evictLoop]
    split
    · exact covered
    · exact ih (covered_erase covered)

def evict (limit : ℕ) (cache : LogCache) : LogCache where
  entries := (evictLoop limit cache.order cache.entries).2
  order := (evictLoop limit cache.order cache.entries).1
  covered := evictLoop_covered limit cache.covered

def put (cache : LogCache) (entry : Entry) : LogCache where
  entries := cache.entries.insert entry
  order := cache.order.filter (· ≠ entry.logId.index) ++ [entry.logId.index]
  covered k hk := by
    by_cases hki : k = entry.logId.index
    · simp [hki]
    · rw [IndexedEntries.lookup_insert, if_neg (Ne.symm hki)] at hk
      simp [hki, cache.covered k hk]

def insertEntry (limit : ℕ) (cache : LogCache) (entry : Entry) : LogCache :=
  (cache.put entry).evict limit

/-- `truncate_cache`: remove the range `(index + 1)..`. -/
def truncateCache (cache : LogCache) (index : UInt64) : LogCache where
  -- `index + 1` wraps at `u64::MAX`: then every index is removed
  entries := cache.entries.removeWhere fun k => decide (index + 1 ≤ k)
  order := cache.order.filter fun k => decide (k ≤ index)
  covered k hk := by
    rw [IndexedEntries.lookup_removeWhere] at hk
    split at hk
    · cases hk
    · rename_i hkept
      rw [List.mem_filter]
      refine ⟨cache.covered k hk, ?_⟩
      simp only [decide_eq_true_eq] at hkept ⊢
      grind

/-- `purge_cache`: remove the range `..=index`. -/
def purgeCache (cache : LogCache) (index : UInt64) : LogCache where
  entries := cache.entries.removeWhere fun k => decide (k ≤ index)
  order := cache.order.filter fun k => decide (index < k)
  covered k hk := by
    rw [IndexedEntries.lookup_removeWhere] at hk
    split at hk
    · cases hk
    · rename_i hkept
      rw [List.mem_filter]
      refine ⟨cache.covered k hk, ?_⟩
      simp only [decide_eq_true_eq] at hkept ⊢
      grind

variable (cache : LogCache)

@[simp] theorem touchCache_entries (index : UInt64) :
    (cache.touchCache index).entries = cache.entries := rfl

@[simp] theorem truncateCache_entries (index : UInt64) :
    (cache.truncateCache index).entries =
      cache.entries.removeWhere fun k => decide (index + 1 ≤ k) := rfl

@[simp] theorem purgeCache_entries (index : UInt64) :
    (cache.purgeCache index).entries =
      cache.entries.removeWhere fun k => decide (k ≤ index) := rfl

theorem evictLoop_sub (order : List UInt64) (entries : IndexedEntries) :
    (evictLoop limit order entries).2.Sub entries := by
  induction order generalizing entries with
  | nil => exact .refl entries
  | cons index order ih =>
    rw [evictLoop]
    split
    · exact .refl entries
    · exact (ih _).trans (entries.erase_sub index)

theorem evictLoop_size_le
    (covered : ∀ k, (entries.lookup k).isSome = true → k ∈ order) :
    (evictLoop limit order entries).2.size ≤ limit := by
  induction order generalizing entries with
  | nil =>
    -- `order` covers the map, so an empty one leaves nothing in it
    have hempty : entries = .empty := by
      ext k
      cases hk : entries.lookup k with
      | none => simp
      | some e => exact absurd (covered k (by simp [hk])) List.not_mem_nil
    rw [evictLoop, hempty]
    exact Nat.zero_le limit
  | cons index order ih =>
    rw [evictLoop]
    split
    · assumption
    · exact ih (covered_erase covered)

theorem evictLoop_of_size_le {limit : ℕ} (room : entries.size ≤ limit) :
    evictLoop limit order entries = (order, entries) := by
  cases order with
  | nil => rfl
  | cons index order => rw [evictLoop, if_pos room]

theorem insertEntry_sub (cache : LogCache) (entry : Entry) :
    (cache.insertEntry limit entry).entries.Sub (cache.entries.insert entry) :=
  evictLoop_sub limit _ _

theorem insertEntry_size_le (cache : LogCache) (entry : Entry) :
    (cache.insertEntry limit entry).entries.size ≤ limit :=
  evictLoop_size_le limit (cache.put entry).covered

theorem insertEntry_of_room {limit : ℕ} {cache : LogCache} (entry : Entry)
    (room : cache.entries.size + 1 ≤ limit) :
    (cache.insertEntry limit entry).entries = cache.entries.insert entry := by
  have hsize : (cache.entries.insert entry).size ≤ limit :=
    (cache.entries.size_insert_le entry).trans room
  exact congrArg Prod.snd (evictLoop_of_size_le hsize)

end LogCache

end Chirps.RaftStorage
