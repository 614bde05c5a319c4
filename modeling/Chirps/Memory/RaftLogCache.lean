/-
# The cache of Raft log payloads

`RaftLogCache` keeps its entries by their last use, the oldest in front, and counts their bytes.
-/

import Chirps.Memory.MessageBuffer

namespace Chirps.Memory

abbrev CacheEntry := UInt64 × List UInt8

structure RaftLogCache where
  maxBytes : ℕ
  usedBytes : ℕ
  entries : List CacheEntry

namespace RaftLogCache

/-- The loops of `insert` and `evict_bytes`: entries leave at the front while the condition on the
bytes that have left and those that are there holds. -/
def popWhile (again : ℕ → ℕ → Bool) : List CacheEntry → ℕ → ℕ → ℕ × ℕ × List CacheEntry
  | [], evicted, used => (evicted, used, [])
  | entry :: rest, evicted, used =>
    if again evicted used then
      popWhile again rest (saturatingAdd evicted entry.2.length) (used - entry.2.length)
    else (evicted, used, entry :: rest)

def insert (c : RaftLogCache) (index : UInt64) (payload : List UInt8) : RaftLogCache :=
  let used := c.usedBytes - (c.entries.find? (·.1 = index)).elim 0 (·.2.length)
  let entries := c.entries.eraseP (·.1 = index)
  if c.maxBytes < payload.length then { c with usedBytes := used, entries }
  else
    let (_, used, entries) :=
      popWhile (fun _ used => c.maxBytes < saturatingAdd used payload.length)
      entries 0 used
    { c with
      usedBytes := saturatingAdd used payload.length, entries := entries ++ [(index, payload)] }

def get (c : RaftLogCache) (index : UInt64) : Option (List UInt8) × RaftLogCache :=
  match c.entries.find? (·.1 = index) with
  | none => (none, c)
  | some entry =>
    (some entry.2, { c with entries := c.entries.eraseP (·.1 = index) ++ [entry] })

def evictBytes (c : RaftLogCache) (target : ℕ) : ℕ × RaftLogCache :=
  let (evicted, used, entries) :=
    popWhile (fun evicted _ => evicted < target) c.entries 0 c.usedBytes
  (evicted, { c with usedBytes := used, entries })

def size (entries : List CacheEntry) : ℕ := (entries.map (·.2.length)).sum

@[simp] theorem size_cons (entry : CacheEntry) (entries : List CacheEntry) :
    size (entry :: entries) = entry.2.length + size entries := by
  simp [size]

@[simp] theorem size_singleton (entry : CacheEntry) : size [entry] = entry.2.length := rfl

@[simp] theorem size_append (xs ys : List CacheEntry) : size (xs ++ ys) = size xs + size ys := by
  simp [size]

theorem size_eraseP (q : CacheEntry → Bool) (entries : List CacheEntry) :
    size entries = (entries.find? q).elim 0 (·.2.length) + size (entries.eraseP q) := by
  induction entries with
  | nil => rfl
  | cons entry rest ih =>
    by_cases h : q entry = true
    · simp [h]
    · simp only [size_cons, List.find?_cons, List.eraseP_cons, h, cond_false]
      omega

/-- What leaves is an initial part, and the condition has held before each of its entries. -/
theorem popWhile_spec (again : ℕ → ℕ → Bool) (evicted : ℕ) (entries : List CacheEntry)
    (below : evicted + size entries < usizeMax) : ∃ dropped kept,
      popWhile again entries evicted (size entries) = (evicted + size dropped, size kept, kept) ∧
      entries = dropped ++ kept ∧
      (kept = [] ∨ again (evicted + size dropped) (size kept) = false) ∧
      ∀ gone more, dropped = gone ++ more → more ≠ [] →
        again (evicted + size gone) (size (more ++ kept)) = true := by
  induction entries generalizing evicted with
  | nil => exact ⟨[], [], rfl, rfl, .inl rfl, fun gone more heq hne =>
      absurd (List.append_eq_nil_iff.mp heq.symm).2 hne⟩
  | cons entry rest ih =>
    rw [popWhile]
    split
    · rename_i hmore
      rw [size_cons] at below hmore
      obtain ⟨dropped, kept, hloop, heq, hstops, hagain⟩ :=
        ih (evicted + entry.2.length) (by omega)
      have hadd : saturatingAdd evicted entry.2.length = evicted + entry.2.length :=
        Nat.min_eq_left (by omega)
      refine ⟨entry :: dropped, kept, ?_, by rw [heq, List.cons_append], ?_, ?_⟩
      · rw [hadd, size_cons, Nat.add_sub_cancel_left, hloop, size_cons, Nat.add_assoc]
      · rwa [size_cons, ← Nat.add_assoc]
      · intro gone more hsplit hne
        rcases List.cons_eq_append_iff.mp hsplit with ⟨rfl, rfl⟩ | ⟨gone, rfl, htail⟩
        · rwa [List.cons_append, ← heq, size_cons]
        · rw [size_cons, ← Nat.add_assoc]
          exact hagain gone more htail hne
    · rename_i hdone
      exact ⟨[], entry :: rest, rfl, rfl, .inr (Bool.eq_false_iff.mpr hdone),
        fun gone more heq hne =>
        absurd (List.append_eq_nil_iff.mp heq.symm).2 hne⟩

end RaftLogCache

inductive CacheOp
  | insert (index : UInt64) (payload : List UInt8)
  | get (index : UInt64)
  | evictBytes (target : ℕ)

/-- A cache, with the time of the last use of each index and the payload last inserted for it. -/
structure UsedCache where
  cache : RaftLogCache
  now : ℕ
  lastUse : UInt64 → ℕ
  lastInsert : UInt64 → Option (List UInt8)

namespace UsedCache

open RaftLogCache

def new (maxBytes : ℕ) : UsedCache := ⟨⟨maxBytes, 0, []⟩, 0, fun _ => 0, fun _ => none⟩

def step (t : UsedCache) : CacheOp → UsedCache
  | .insert index payload => ⟨t.cache.insert index payload, t.now + 1,
      Function.update t.lastUse index t.now, Function.update t.lastInsert index (some payload)⟩
  | .get index => { t with
      cache := (t.cache.get index).2
      now := t.now + 1
      lastUse := Function.update t.lastUse index t.now }
  | .evictBytes target => { t with cache := (t.cache.evictBytes target).2 }

/-- The entries are in the order of their last use and hold what was last inserted. -/
structure Lru (now : ℕ) (lastUse : UInt64 → ℕ) (lastInsert : UInt64 → Option (List UInt8))
    (entries : List CacheEntry) : Prop where
  sorted : entries.Pairwise fun a b => lastUse a.1 < lastUse b.1
  past : ∀ e ∈ entries, lastUse e.1 < now
  last : ∀ e ∈ entries, lastInsert e.1 = some e.2

structure Inv (maxBytes : ℕ) (t : UsedCache) : Prop where
  lru : Lru t.now t.lastUse t.lastInsert t.cache.entries
  max_eq : t.cache.maxBytes = maxBytes
  used : t.cache.usedBytes = size t.cache.entries
  le : size t.cache.entries ≤ maxBytes

section Lru

variable {now : ℕ} {lastUse : UInt64 → ℕ} {lastInsert next : UInt64 → Option (List UInt8)}
  {entries : List CacheEntry} {index : UInt64} (lru : Lru now lastUse lastInsert entries)
include lru

theorem Lru.sublist {kept : List CacheEntry} (h : kept.Sublist entries) :
    Lru now lastUse lastInsert kept :=
  ⟨lru.sorted.sublist h, fun e he => lru.past e (h.subset he), fun e he => lru.last e (h.subset he)⟩

/-- An index has one entry, so that none is left when the first is taken out. -/
theorem Lru.ne_of_mem_eraseP {e : CacheEntry} (h : e ∈ entries.eraseP (·.1 = index)) :
    e.1 ≠ index := by
  have hsorted := lru.sorted
  clear lru
  induction entries with
  | nil => cases h
  | cons entry rest ih =>
    obtain ⟨hentry, hrest⟩ := List.pairwise_cons.mp hsorted
    by_cases heq : entry.1 = index
    · rw [List.eraseP_cons_of_pos (by simpa using heq)] at h
      exact fun he => absurd (hentry e h) (by rw [heq, he]; exact Nat.lt_irrefl _)
    · rw [List.eraseP_cons_of_neg (by simpa using heq)] at h
      rcases List.mem_cons.mp h with rfl | h
      · exact heq
      · exact ih h hrest

variable (other : ∀ e ∈ entries, e.1 ≠ index) (same : ∀ k, k ≠ index → next k = lastInsert k)
include other same

theorem Lru.touch : Lru (now + 1) (Function.update lastUse index now) next entries := by
  have huse : ∀ e ∈ entries, Function.update lastUse index now e.1 = lastUse e.1 := fun e he =>
    Function.update_of_ne (other e he) _ _
  refine ⟨lru.sorted.imp_of_mem fun {a b} ha hb h => ?_, fun e he => ?_, fun e he => ?_⟩
  · rwa [huse a ha, huse b hb]
  · exact huse e he ▸ Nat.lt_succ_of_lt (lru.past e he)
  · exact (same _ (other e he)).trans (lru.last e he)

theorem Lru.push {payload : List UInt8} (last : next index = some payload) :
    Lru (now + 1) (Function.update lastUse index now) next (entries ++ [(index, payload)]) := by
  have h := lru.touch other same
  refine ⟨List.pairwise_append.mpr ⟨h.sorted, List.pairwise_singleton _ _, ?_⟩, ?_, ?_⟩
  · intro a ha b hb
    rw [List.mem_singleton.mp hb, Function.update_self, Function.update_of_ne (other a ha)]
    exact lru.past a ha
  all_goals
    intro e he
    rcases List.mem_append.mp he with he | he
  · exact h.past e he
  · rw [List.mem_singleton.mp he, Function.update_self]
    exact Nat.lt_succ_self _
  · exact h.last e he
  · rw [List.mem_singleton.mp he, last]

end Lru

/-- `insert` puts the entry at the end and gives up the oldest others. With any more of these kept
it would not have fitted. -/
def Inserts (c : RaftLogCache) (index : UInt64) (payload : List UInt8) : Prop :=
  ∃ dropped kept, c.entries.eraseP (·.1 = index) = dropped ++ kept ∧
    (c.maxBytes < payload.length ∧ dropped = [] ∧
        c.insert index payload = ⟨c.maxBytes, size kept, kept⟩ ∨
      c.insert index payload =
          ⟨c.maxBytes, size kept + payload.length, kept ++ [(index, payload)]⟩ ∧
        size kept + payload.length ≤ c.maxBytes ∧
        ∀ gone more, dropped = gone ++ more → more ≠ [] →
          c.maxBytes < size (more ++ kept) + payload.length)

/-- `evict_bytes` returns the bytes of the oldest entries, up to where they reach the target. -/
def Evicts (c : RaftLogCache) (target : ℕ) : Prop :=
  ∃ dropped kept, c.evictBytes target = (size dropped, ⟨c.maxBytes, size kept, kept⟩) ∧
    c.entries = dropped ++ kept ∧ (kept = [] ∨ target ≤ size dropped) ∧
    ∀ gone more, dropped = gone ++ more → more ≠ [] → size gone < target

namespace Inv

variable {t : UsedCache} {maxBytes : ℕ} (inv : t.Inv maxBytes)
include inv

theorem get (index : UInt64) : (t.step (.get index)).Inv maxBytes := by
  have hlru := inv.lru.sublist (List.eraseP_sublist (p := (·.1 = index)))
  have hother : ∀ e ∈ t.cache.entries.eraseP (·.1 = index), e.1 ≠ index := fun e he =>
    inv.lru.ne_of_mem_eraseP he
  cases hfind : t.cache.entries.find? (·.1 = index) with
  | none =>
    have herase : t.cache.entries.eraseP (·.1 = index) = t.cache.entries :=
      List.eraseP_of_forall_not fun e he => by simpa using List.find?_eq_none.mp hfind e he
    rw [herase] at hlru hother
    refine ⟨?_, ?_, ?_, ?_⟩ <;> simp only [step, RaftLogCache.get, hfind]
    exacts [hlru.touch hother fun _ _ => rfl, inv.max_eq, inv.used, inv.le]
  | some entry =>
    obtain rfl : entry.1 = index := by simpa using List.find?_some hfind
    have hsize := size_eraseP (·.1 = entry.1) t.cache.entries
    rw [hfind, Option.elim_some, Nat.add_comm] at hsize
    refine ⟨?_, ?_, ?_, ?_⟩
      <;> simp only [step, RaftLogCache.get, hfind, size_append, size_singleton]
    · exact hlru.push hother (fun _ _ => rfl) (inv.lru.last _ (List.mem_of_find?_eq_some hfind))
    · exact inv.max_eq
    · exact inv.used.trans hsize
    · exact hsize ▸ inv.le

variable (below : maxBytes < usizeMax)
include below

theorem inserts (index : UInt64) (payload : List UInt8) : Inserts t.cache index payload := by
  have hused : t.cache.usedBytes - (t.cache.entries.find? (·.1 = index)).elim 0 (·.2.length) =
      size (t.cache.entries.eraseP (·.1 = index)) := by
    rw [inv.used, size_eraseP (·.1 = index), Nat.add_sub_cancel_left]
  rw [Inserts, RaftLogCache.insert, hused]
  split
  · exact ⟨[], _, rfl, .inl ⟨‹_›, rfl, rfl⟩⟩
  · rename_i hfits
    have hle := size_eraseP (·.1 = index) t.cache.entries ▸ inv.le
    obtain ⟨dropped, kept, hloop, heq, hstops, hagain⟩ := popWhile_spec
      (fun _ used => t.cache.maxBytes < saturatingAdd used payload.length) 0
      (t.cache.entries.eraseP (·.1 = index)) (by omega)
    have hmax := inv.max_eq
    have hroom : size kept + payload.length ≤ t.cache.maxBytes := by
      rcases hstops with rfl | hstops
      · simpa [size] using hfits
      · have hstops := of_decide_eq_false hstops
        rw [saturatingAdd] at hstops
        omega
    have hadd : saturatingAdd (size kept) payload.length = size kept + payload.length :=
      Nat.min_eq_left (by omega)
    refine ⟨dropped, kept, heq, .inr ⟨by simp only [hloop, hadd], hroom, fun gone more h hne => ?_⟩⟩
    exact Nat.lt_of_lt_of_le (of_decide_eq_true (hagain gone more h hne)) (Nat.min_le_left _ _)

theorem evicts (target : ℕ) : Evicts t.cache target := by
  obtain ⟨dropped, kept, hloop, heq, hstops, hagain⟩ := popWhile_spec
    (fun evicted _ => evicted < target) 0 t.cache.entries (by have := inv.le; omega)
  simp only [Nat.zero_add, decide_eq_false_iff_not, Nat.not_lt, decide_eq_true_eq] at *
  exact ⟨dropped, kept, by rw [evictBytes, inv.used, hloop], heq, hstops, hagain⟩

theorem insert (index : UInt64) (payload : List UInt8) :
    (t.step (.insert index payload)).Inv maxBytes := by
  obtain ⟨dropped, kept, heq, hcases⟩ := inv.inserts below index payload
  have hsub : kept.Sublist (t.cache.entries.eraseP (·.1 = index)) :=
    heq ▸ List.sublist_append_right dropped kept
  have hlru := inv.lru.sublist (hsub.trans List.eraseP_sublist)
  have hother : ∀ e ∈ kept, e.1 ≠ index := fun e he => inv.lru.ne_of_mem_eraseP (hsub.subset he)
  have hsame : ∀ k, k ≠ index →
      Function.update t.lastInsert index (some payload) k = t.lastInsert k := fun k hk =>
    Function.update_of_ne hk _ _
  rcases hcases with ⟨-, hnone, hcache⟩ | ⟨hcache, hle, -⟩
  · refine ⟨?_, ?_, ?_, ?_⟩ <;> simp only [step, hcache]
    · exact hlru.touch hother hsame
    · exact inv.max_eq
    · have hle := size_eraseP (·.1 = index) t.cache.entries ▸ inv.le
      rw [heq, hnone, List.nil_append] at hle
      omega
  · refine ⟨?_, ?_, ?_, ?_⟩ <;> simp only [step, hcache, size_append, size_singleton]
    · exact hlru.push hother hsame (Function.update_self _ _ _)
    · exact inv.max_eq
    · exact inv.max_eq ▸ hle

theorem step (op : CacheOp) : (t.step op).Inv maxBytes := by
  cases op with
  | insert index payload => exact inv.insert below index payload
  | get index => exact inv.get index
  | evictBytes target =>
    obtain ⟨dropped, kept, hcache, heq, -⟩ := inv.evicts below target
    refine ⟨?_, ?_, ?_, ?_⟩ <;> simp only [UsedCache.step, hcache]
    · exact inv.lru.sublist (heq ▸ List.sublist_append_right dropped kept)
    · exact inv.max_eq
    · have hle := inv.le
      rw [heq, size_append] at hle
      omega

theorem run (ops : List CacheOp) : (ops.foldl UsedCache.step t).Inv maxBytes := by
  induction ops generalizing t with
  | nil => exact inv
  | cons op rest ih => exact ih (inv.step below op)

end Inv

/-- A read returns exactly what is kept for the index. -/
theorem Lru.get_eq_some_iff {now : ℕ} {lastUse : UInt64 → ℕ}
    {lastInsert : UInt64 → Option (List UInt8)} {c : RaftLogCache}
    (lru : Lru now lastUse lastInsert c.entries) (index : UInt64) (payload : List UInt8) :
    (c.get index).1 = some payload ↔ (index, payload) ∈ c.entries := by
  cases hfind : c.entries.find? (·.1 = index) with
  | none =>
    have habsent : (index, payload) ∉ c.entries := fun hmem => by
      simpa using List.find?_eq_none.mp hfind _ hmem
    simp [RaftLogCache.get, hfind, habsent]
  | some entry =>
    obtain rfl : entry.1 = index := by simpa using List.find?_some hfind
    have hmem := List.mem_of_find?_eq_some hfind
    simp only [RaftLogCache.get, hfind, Option.some_inj]
    refine ⟨fun h => h ▸ hmem, fun h => ?_⟩
    -- both are what was last inserted for the index
    exact Option.some.inj ((lru.last entry hmem).symm.trans (lru.last _ h))

/-- After any calls the cache is a byte-bounded map in the order of last use, and gives up only its
oldest entries and no more of them than is needed. -/
theorem raft_log_cache_is_lru {maxBytes : ℕ} (below : maxBytes < usizeMax) (ops : List CacheOp) :
    let t := ops.foldl step (new maxBytes)
    (t.cache.entries.map Prod.fst).Nodup ∧ t.cache.usedBytes = size t.cache.entries ∧
    t.cache.usedBytes ≤ maxBytes ∧ t.cache.maxBytes = maxBytes ∧
    t.cache.entries.Pairwise (fun a b => t.lastUse a.1 < t.lastUse b.1) ∧
    (∀ index payload, (t.cache.get index).1 = some payload ↔ (index, payload) ∈ t.cache.entries) ∧
    (∀ index payload, (index, payload) ∈ t.cache.entries → t.lastInsert index = some payload) ∧
    (∀ index, (t.cache.get index).2.entries.Perm t.cache.entries) ∧
    (∀ index payload, Inserts t.cache index payload) ∧ ∀ target, Evicts t.cache target := by
  intro t
  have hnew : (new maxBytes).Inv maxBytes := ⟨⟨.nil, nofun, nofun⟩, rfl, rfl, Nat.zero_le _⟩
  have inv : t.Inv maxBytes := hnew.run below ops
  refine ⟨List.pairwise_map.mpr (inv.lru.sorted.imp fun h heq => ?_), inv.used, inv.used ▸ inv.le,
    inv.max_eq, inv.lru.sorted, inv.lru.get_eq_some_iff, fun _ _ => inv.lru.last _,
    fun index => ?_, inv.inserts below, inv.evicts below⟩
  · exact absurd (heq ▸ h) (Nat.lt_irrefl _)
  · cases hfind : t.cache.entries.find? (·.1 = index) with
    | none => simp [RaftLogCache.get, hfind]
    | some entry =>
      simp only [RaftLogCache.get, hfind]
      obtain ⟨e, l₁, l₂, hnot, he, heq, herase⟩ := List.exists_of_eraseP
        (p := fun e : CacheEntry => e.1 = index) (List.mem_of_find?_eq_some hfind)
        (by simpa using List.find?_some hfind)
      have hnone : l₁.find? (·.1 = index) = none := List.find?_eq_none.mpr hnot
      rw [heq, List.find?_append, hnone, List.find?_cons, he] at hfind
      cases hfind
      rw [herase, heq]
      exact (List.perm_append_singleton _ _).trans List.perm_middle.symm

/-- Three entries of two bytes in five: the read of the first makes the second the oldest, which the
third then drives out. -/
theorem raft_log_cache_is_lru_hit :
    let t := ([.insert 1 [1, 1], .insert 2 [2, 2], .get 1, .insert 3 [3, 3]] : List CacheOp).foldl
      step (new 5)
    t.cache.entries = [(1, [1, 1]), (3, [3, 3])] ∧ (t.cache.get 1).1 = some [1, 1] ∧
      (t.cache.get 2).1 = none ∧ t.cache.usedBytes ≤ 5 := by
  obtain ⟨-, -, hused, -, -, hget, -⟩ := raft_log_cache_is_lru (by decide : 5 < usizeMax)
    [.insert 1 [1, 1], .insert 2 [2, 2], .get 1, .insert 3 [3, 3]]
  exact ⟨rfl, (hget 1 [1, 1]).mpr (by decide), rfl, hused⟩

end UsedCache
end Chirps.Memory
