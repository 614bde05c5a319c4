/-
# Hybrid timestamps

A timestamp has a physical part of 64 bits and a logical one of 32. Read as one number, its `rank`,
the order is that of the numbers and `checked_add` is addition: the logical part carries into the
physical one.
-/

import Mathlib

namespace Chirps.Tso

def checkedAddU64 (a b : UInt64) : Option UInt64 :=
  if a.toNat + b.toNat < 2 ^ 64 then some (a + b) else none

theorem checkedAddU64_eq_some {a b c : UInt64} :
    checkedAddU64 a b = some c ↔ c.toNat = a.toNat + b.toNat := by
  rw [checkedAddU64]
  split
  · rename_i hfits
    have hsum : (a + b).toNat = a.toNat + b.toNat := by
      rw [UInt64.toNat_add, Nat.mod_eq_of_lt hfits]
    rw [Option.some.injEq, ← UInt64.toNat_inj, hsum, eq_comm]
  · rename_i hover
    have hc := c.toNat_lt
    simp only [reduceCtorEq, false_iff]
    omega

theorem checkedAddU64_eq_none {a b : UInt64} :
    checkedAddU64 a b = none ↔ 2 ^ 64 ≤ a.toNat + b.toNat := by
  rw [checkedAddU64, ite_eq_right_iff, imp_iff_not (by simp), Nat.not_lt]

structure HybridTimestamp where
  physical : UInt64
  logical : UInt32
  deriving DecidableEq

inductive TimestampError
  | emptyRange
  | overflow
  deriving DecidableEq

namespace HybridTimestamp

/-- `checked_add`. The sum of the logical part and `delta` is a `u64`. -/
def checkedAdd (t : HybridTimestamp) (delta : UInt64) : Except TimestampError HybridTimestamp :=
  let logical := t.logical.toUInt64 + delta
  match checkedAddU64 t.physical (logical / 4294967296) with
  | none => .error .overflow
  | some physical => .ok ⟨physical, (logical % 4294967296).toUInt32⟩

/-- With overflow checks: `none` is the panic of the one addition that is not a `checked_add`. -/
def checkedAddOrPanic (t : HybridTimestamp) (delta : UInt64) :
    Option (Except TimestampError HybridTimestamp) :=
  if t.logical.toNat + delta.toNat < 2 ^ 64 then some (t.checkedAdd delta) else none

def checkedNext (t : HybridTimestamp) : Except TimestampError HybridTimestamp := t.checkedAdd 1

/-! ## Timestamps as numbers -/

/-- The timestamp as one number, the physical part on top. -/
def rank (t : HybridTimestamp) : ℕ := t.physical.toNat * 4294967296 + t.logical.toNat

variable {a b : HybridTimestamp}

theorem rank_inj : a.rank = b.rank ↔ a = b := by
  constructor
  · intro h
    have ha := a.logical.toNat_lt
    have hb := b.logical.toNat_lt
    simp only [rank] at h
    have hphysical : a.physical = b.physical := UInt64.toNat_inj.mp (by omega)
    have hlogical : a.logical = b.logical := UInt32.toNat_inj.mp (by omega)
    cases a
    cases b
    simp_all
  · rintro rfl
    rfl

/-- The derived `Ord`: the physical part first. -/
def le (a b : HybridTimestamp) : Prop :=
  a.physical < b.physical ∨ a.physical = b.physical ∧ a.logical ≤ b.logical

def lt (a b : HybridTimestamp) : Prop :=
  a.physical < b.physical ∨ a.physical = b.physical ∧ a.logical < b.logical

theorem le_iff_rank : a.le b ↔ a.rank ≤ b.rank := by
  have ha := a.logical.toNat_lt
  have hb := b.logical.toNat_lt
  rw [le, UInt64.lt_iff_toNat_lt, ← UInt64.toNat_inj, UInt32.le_iff_toNat_le, rank, rank]
  omega

theorem lt_iff_rank : a.lt b ↔ a.rank < b.rank := by
  have ha := a.logical.toNat_lt
  have hb := b.logical.toNat_lt
  rw [lt, UInt64.lt_iff_toNat_lt, ← UInt64.toNat_inj, UInt32.lt_iff_toNat_lt, rank, rank]
  omega

instance : LinearOrder HybridTimestamp where
  le := le
  lt := lt
  le_refl a := le_iff_rank.mpr le_rfl
  le_trans a b c hab hbc := le_iff_rank.mpr ((le_iff_rank.mp hab).trans (le_iff_rank.mp hbc))
  le_antisymm a b hab hba :=
    rank_inj.mp (le_antisymm (le_iff_rank.mp hab) (le_iff_rank.mp hba))
  le_total a b := (Nat.le_total a.rank b.rank).imp le_iff_rank.mpr le_iff_rank.mpr
  lt_iff_le_not_ge a b := by
    rw [lt_iff_rank, le_iff_rank, le_iff_rank]
    omega
  toDecidableLE a b :=
    inferInstanceAs
      (Decidable (a.physical < b.physical ∨ a.physical = b.physical ∧ a.logical ≤ b.logical))
  toDecidableLT a b :=
    inferInstanceAs
      (Decidable (a.physical < b.physical ∨ a.physical = b.physical ∧ a.logical < b.logical))

theorem rank_le_rank : a.rank ≤ b.rank ↔ a ≤ b := le_iff_rank.symm

theorem rank_lt_rank : a.rank < b.rank ↔ a < b := lt_iff_rank.symm

theorem rank_lt (t : HybridTimestamp) : t.rank < 2 ^ 96 := by
  have hlogical := t.logical.toNat_lt
  have hphysical := t.physical.toNat_lt
  rw [rank]
  omega

theorem exists_rank {n : ℕ} (h : n < 2 ^ 96) : ∃ t : HybridTimestamp, t.rank = n := by
  refine ⟨⟨UInt64.ofNat (n / 4294967296), UInt32.ofNat (n % 4294967296)⟩, ?_⟩
  rw [rank, UInt64.toNat_ofNat', UInt32.toNat_ofNat',
    Nat.mod_eq_of_lt (a := n / 4294967296) (by omega),
    Nat.mod_eq_of_lt (a := n % 4294967296) (by omega)]
  omega

variable {t : HybridTimestamp} {delta : UInt64}

theorem checkedAdd_eq_ok_iff {u : HybridTimestamp} :
    t.checkedAdd delta = .ok u ↔
      u.rank = t.physical.toNat * 4294967296 + (t.logical.toNat + delta.toNat) % 2 ^ 64 := by
  have hsum : (t.logical.toUInt64 + delta).toNat = (t.logical.toNat + delta.toNat) % 2 ^ 64 := by
    rw [UInt64.toNat_add, UInt32.toNat_toUInt64]
  simp only [checkedAdd]
  rw [← hsum]
  generalize t.logical.toUInt64 + delta = logical
  have hu := u.logical.toNat_lt
  have hcarry : (logical / 4294967296).toNat = logical.toNat / 4294967296 := UInt64.toNat_div _ _
  have hrest : (logical % 4294967296).toUInt32.toNat = logical.toNat % 4294967296 := by
    rw [UInt64.toNat_toUInt32, UInt64.toNat_mod]
    exact Nat.mod_mod _ _
  cases hphysical : checkedAddU64 t.physical (logical / 4294967296) with
  | none =>
    rw [checkedAddU64_eq_none, hcarry] at hphysical
    have hlt := u.rank_lt
    simp only [reduceCtorEq, false_iff]
    omega
  | some physical =>
    rw [checkedAddU64_eq_some, hcarry] at hphysical
    simp only [Except.ok.injEq]
    rw [← rank_inj, rank, hrest, hphysical]
    omega

theorem checkedAdd_eq_error_iff {error : TimestampError} :
    t.checkedAdd delta = .error error ↔ error = .overflow ∧
      2 ^ 96 ≤ t.physical.toNat * 4294967296 + (t.logical.toNat + delta.toNat) % 2 ^ 64 := by
  constructor
  · intro h
    refine ⟨?_, Nat.not_lt.mp fun hfits => ?_⟩
    · simp only [checkedAdd] at h
      split at h
      · exact (Except.error.inj h).symm
      · cases h
    · obtain ⟨u, hu⟩ := exists_rank hfits
      rw [checkedAdd_eq_ok_iff.mpr hu] at h
      cases h
  · rintro ⟨rfl, hover⟩
    cases h : t.checkedAdd delta with
    | ok u =>
      have hlt := u.rank_lt
      rw [checkedAdd_eq_ok_iff.mp h] at hlt
      omega
    | error error =>
      cases error with
      | overflow => rfl
      | emptyRange =>
        simp only [checkedAdd] at h
        split at h <;> cases h

theorem checkedAdd_eq_ok {u : HybridTimestamp} (h : delta.toNat < 4294967296) :
    t.checkedAdd delta = .ok u ↔ u.rank = t.rank + delta.toNat := by
  have hlogical := t.logical.toNat_lt
  rw [checkedAdd_eq_ok_iff, Nat.mod_eq_of_lt (by omega), rank, rank, Nat.add_assoc]

/-- The timestamp with the number of `t` plus `delta`, or an overflow if there is none. -/
def AddsExactly (t : HybridTimestamp) (delta : UInt64)
    (result : Except TimestampError HybridTimestamp) : Prop :=
  if t.rank + delta.toNat < 2 ^ 96 then ∃ u, result = .ok u ∧ u.rank = t.rank + delta.toNat
  else result = .error .overflow

theorem addsExactly_checkedAdd_iff :
    t.AddsExactly delta (t.checkedAdd delta) ↔ t.logical.toNat + delta.toNat < 2 ^ 64 := by
  have hlogical := t.logical.toNat_lt
  have hdelta := delta.toNat_lt
  have hphysical := t.physical.toNat_lt
  constructor
  · intro hexact
    by_contra hwraps
    -- the logical sum has lost `2 ^ 64`, so the result is below `t`
    obtain ⟨u, hu⟩ := exists_rank (n := t.physical.toNat * 4294967296 +
      (t.logical.toNat + delta.toNat) % 2 ^ 64) (by omega)
    rw [AddsExactly, checkedAdd_eq_ok_iff.mpr hu] at hexact
    split at hexact
    · obtain ⟨v, hv, hrank⟩ := hexact
      rw [← Except.ok.inj hv, hu, rank] at hrank
      omega
    · cases hexact
  · intro hfits
    have hsum : t.physical.toNat * 4294967296 + (t.logical.toNat + delta.toNat) % 2 ^ 64 =
        t.rank + delta.toNat := by
      rw [Nat.mod_eq_of_lt hfits, rank, Nat.add_assoc]
    rw [AddsExactly]
    split
    · rename_i hlt
      obtain ⟨u, hu⟩ := exists_rank hlt
      exact ⟨u, checkedAdd_eq_ok_iff.mpr (hu.trans hsum.symm), hu⟩
    · rename_i hover
      exact checkedAdd_eq_error_iff.mpr ⟨rfl, by omega⟩

theorem addsExactly_checkedAddOrPanic_iff :
    (∃ result, t.checkedAddOrPanic delta = some result ∧ t.AddsExactly delta result) ↔
      t.logical.toNat + delta.toNat < 2 ^ 64 := by
  rw [checkedAddOrPanic]
  split
  · rename_i hfits
    exact iff_of_true ⟨_, rfl, addsExactly_checkedAdd_iff.mpr hfits⟩ hfits
  · rename_i hwraps
    exact iff_of_false (fun ⟨_, h, _⟩ => nomatch h) hwraps

end HybridTimestamp

/-! ## Ranges -/

/-- `TimestampRange`, both ends inclusive. -/
structure TimestampRange where
  start : HybridTimestamp
  endAt : HybridTimestamp
  count : UInt32
  deriving DecidableEq

namespace TimestampRange

def fromStart (start : HybridTimestamp) (count : UInt32) : Except TimestampError TimestampRange :=
  if count = 0 then .error .emptyRange
  else
    match start.checkedAdd (count - 1).toUInt64 with
    | .error error => .error error
    | .ok endAt => .ok ⟨start, endAt, count⟩

/-- `at`. -/
def at' (range : TimestampRange) (offset : UInt32) : Option HybridTimestamp :=
  if range.count ≤ offset then none else (range.start.checkedAdd offset.toUInt64).toOption

/-- The timestamps of the range, in the order in which `at` numbers them. -/
def values (range : TimestampRange) : List HybridTimestamp :=
  (List.range range.count.toNat).filterMap fun k => range.at' (UInt32.ofNat k)

structure WellFormed (range : TimestampRange) : Prop where
  pos : 0 < range.count.toNat
  rank_endAt : range.endAt.rank + 1 = range.start.rank + range.count.toNat

/-- The values of a range are the timestamps from its start to its end, one by one. -/
structure Consecutive (range : TimestampRange) : Prop where
  length : range.values.length = range.count.toNat
  first : range.values.head? = some range.start
  last : range.values.getLast? = some range.endAt
  next : range.values.IsChain fun a b => a.checkedNext = .ok b
  mem : ∀ t, t ∈ range.values ↔ range.start ≤ t ∧ t ≤ range.endAt

variable {count : UInt32}

theorem toNat_pred (hpos : 0 < count.toNat) : (count - 1).toUInt64.toNat = count.toNat - 1 := by
  have hle : (1 : UInt32) ≤ count := UInt32.le_iff_toNat_le.mpr hpos
  rw [UInt32.toNat_toUInt64, UInt32.toNat_sub_of_le _ _ hle]
  rfl

variable {start : HybridTimestamp} {range : TimestampRange}

theorem wellFormed_of_fromStart (h : fromStart start count = .ok range) :
    range.WellFormed ∧ range.start = start ∧ range.count = count := by
  rw [fromStart] at h
  split at h
  · cases h
  · rename_i hcount
    have hpos : 0 < count.toNat := by
      rw [Nat.pos_iff_ne_zero]
      exact fun hzero => hcount (UInt32.toNat_inj.mp hzero)
    have hpred := toNat_pred hpos
    split at h
    · cases h
    · rename_i endAt hend
      cases h
      have hlt := count.toNat_lt
      rw [HybridTimestamp.checkedAdd_eq_ok (by omega), hpred] at hend
      exact ⟨⟨hpos, by simp only; omega⟩, rfl, rfl⟩

theorem at'_eq_some {offset : UInt32} {t : HybridTimestamp} :
    range.at' offset = some t ↔
      offset < range.count ∧ t.rank = range.start.rank + offset.toNat := by
  have hoffset : offset.toUInt64.toNat = offset.toNat := UInt32.toNat_toUInt64 offset
  have hlt := offset.toNat_lt
  rw [at']
  split
  · rename_i hle
    simp only [reduceCtorEq, false_iff, not_and]
    exact fun h => absurd hle (UInt32.not_le.mpr h)
  · rename_i hle
    have hadd : range.start.checkedAdd offset.toUInt64 = .ok t ↔
        t.rank = range.start.rank + offset.toUInt64.toNat :=
      HybridTimestamp.checkedAdd_eq_ok (by omega)
    rw [hoffset] at hadd
    rw [and_iff_right (UInt32.not_le.mp hle), ← hadd]
    cases range.start.checkedAdd offset.toUInt64 <;> simp [Except.toOption]

theorem exists_fromStart_iff :
    (∃ range, fromStart start count = .ok range) ↔
      1 ≤ count.toNat ∧ start.rank + (count.toNat - 1) < 2 ^ 96 := by
  constructor
  · rintro ⟨range, h⟩
    obtain ⟨wellFormed, rfl, rfl⟩ := wellFormed_of_fromStart h
    have hend := range.endAt.rank_lt
    have hrank := wellFormed.rank_endAt
    have hpos := wellFormed.pos
    exact ⟨hpos, by omega⟩
  · rintro ⟨hpos, hlt⟩
    obtain ⟨endAt, hend⟩ := HybridTimestamp.exists_rank hlt
    have hcount := count.toNat_lt
    have hadd : start.checkedAdd (count - 1).toUInt64 = .ok endAt := by
      rw [HybridTimestamp.checkedAdd_eq_ok (by rw [toNat_pred hpos]; omega), toNat_pred hpos, hend]
    refine ⟨⟨start, endAt, count⟩, ?_⟩
    rw [fromStart, if_neg (by rintro rfl; exact absurd hpos (by decide)), hadd]

theorem map_rank_at' (h : fromStart start count = .ok range) (i : UInt32) :
    (range.at' i).map HybridTimestamp.rank =
      if i.toNat < count.toNat then some (start.rank + i.toNat) else none := by
  obtain ⟨wellFormed, rfl, rfl⟩ := wellFormed_of_fromStart h
  split
  · rename_i hlt
    have hend := range.endAt.rank_lt
    have hrank := wellFormed.rank_endAt
    obtain ⟨t, ht⟩ := HybridTimestamp.exists_rank (n := range.start.rank + i.toNat) (by omega)
    rw [at'_eq_some.mpr ⟨UInt32.lt_iff_toNat_lt.mpr hlt, ht⟩, Option.map_some, ht]
  · rename_i hge
    rw [at', if_pos (UInt32.le_iff_toNat_le.mpr (Nat.not_lt.mp hge)), Option.map_none]

namespace WellFormed

variable {range : TimestampRange} (wellFormed : range.WellFormed)
include wellFormed

theorem start_le_endAt : range.start ≤ range.endAt := by
  have := wellFormed.pos
  have := wellFormed.rank_endAt
  rw [← HybridTimestamp.rank_le_rank]
  omega

theorem map_rank_values :
    range.values.map HybridTimestamp.rank = List.range' range.start.rank range.count.toNat := by
  have hvalue : ∀ k ∈ List.range range.count.toNat,
      (range.at' (UInt32.ofNat k)).map HybridTimestamp.rank = some (range.start.rank + k) := by
    intro k hk
    have hlt := List.mem_range.mp hk
    have hk' : (UInt32.ofNat k).toNat = k :=
      UInt32.toNat_ofNat_of_lt' (hlt.trans range.count.toNat_lt)
    obtain ⟨t, ht⟩ := HybridTimestamp.exists_rank (n := range.start.rank + k)
      (by have := wellFormed.rank_endAt; have := range.endAt.rank_lt; omega)
    have hat : range.at' (UInt32.ofNat k) = some t :=
      at'_eq_some.mpr ⟨by rw [UInt32.lt_iff_toNat_lt, hk']; exact hlt, by rw [hk', ht]⟩
    rw [hat, Option.map_some, ht]
  rw [values, List.map_filterMap, List.filterMap_congr (g := fun k => some (range.start.rank + k))
    hvalue, List.filterMap_eq_map', List.range_eq_range', List.map_add_range', Nat.add_zero]

theorem mem_values {t : HybridTimestamp} :
    t ∈ range.values ↔ range.start ≤ t ∧ t ≤ range.endAt := by
  have hmem : t ∈ range.values ↔ t.rank ∈ range.values.map HybridTimestamp.rank := by
    rw [List.mem_map]
    exact ⟨fun h => ⟨t, h, rfl⟩, fun ⟨u, hu, heq⟩ => HybridTimestamp.rank_inj.mp heq ▸ hu⟩
  have hend := wellFormed.rank_endAt
  rw [hmem, wellFormed.map_rank_values, List.mem_range'_1, ← HybridTimestamp.rank_le_rank,
    ← HybridTimestamp.rank_le_rank]
  omega

theorem consecutive : range.Consecutive := by
  have hpos := wellFormed.pos
  have hend := wellFormed.rank_endAt
  have hmap := wellFormed.map_rank_values
  have hinj : Function.Injective HybridTimestamp.rank := fun _ _ => HybridTimestamp.rank_inj.mp
  refine ⟨?_, ?_, ?_, ?_, fun t => wellFormed.mem_values⟩
  · rw [← List.length_map HybridTimestamp.rank, hmap, List.length_range']
  · apply Option.map_injective hinj
    rw [← List.head?_map, hmap, List.head?_range', if_neg (by omega)]
    rfl
  · apply Option.map_injective hinj
    rw [← List.getLast?_map, hmap, List.getLast?_range', if_neg (by omega)]
    simp only [Option.map_some, Option.some.injEq]
    omega
  · have hchain : (range.values.map HybridTimestamp.rank).IsChain fun a b => b = a + 1 := by
      rw [hmap]
      exact List.isChain_range' _ _ _
    rw [List.isChain_map] at hchain
    exact hchain.imp fun a b h => (HybridTimestamp.checkedAdd_eq_ok (by decide)).mpr h

end WellFormed

end TimestampRange

/-! ## Exact arithmetic -/

/-- `checked_add` is exact, with and without overflow checks, just when the sum of the logical part
and `delta` is a `u64`. A range is always exact. -/
theorem timestamp_arithmetic_exact_iff (t : HybridTimestamp) (delta : UInt64)
    (start : HybridTimestamp) (count : UInt32) :
    ((t.AddsExactly delta (t.checkedAdd delta) ↔ t.logical.toNat + delta.toNat < 2 ^ 64) ∧
      ((∃ result, t.checkedAddOrPanic delta = some result ∧ t.AddsExactly delta result) ↔
        t.logical.toNat + delta.toNat < 2 ^ 64)) ∧
    ((∃ range, TimestampRange.fromStart start count = .ok range) ↔
      1 ≤ count.toNat ∧ start.rank + (count.toNat - 1) < 2 ^ 96) ∧
    ∀ range, TimestampRange.fromStart start count = .ok range → ∀ i : UInt32,
      (range.at' i).map HybridTimestamp.rank =
        if i.toNat < count.toNat then some (start.rank + i.toNat) else none := by
  refine ⟨⟨?_, ?_⟩, ?_, fun range hrange i => ?_⟩
  · exact HybridTimestamp.addsExactly_checkedAdd_iff
  · exact HybridTimestamp.addsExactly_checkedAddOrPanic_iff
  · exact TimestampRange.exists_fromStart_iff
  · exact TimestampRange.map_rank_at' hrange i

/-- The largest delta, added to a timestamp with the largest logical part, gives an earlier
timestamp, or a panic. -/
theorem checked_add_wraps_below :
    HybridTimestamp.checkedAdd ⟨0, 4294967295⟩ 18446744073709551615 = .ok ⟨0, 4294967294⟩ ∧
      HybridTimestamp.checkedAddOrPanic ⟨0, 4294967295⟩ 18446744073709551615 = none ∧
      ¬ HybridTimestamp.AddsExactly ⟨0, 4294967295⟩ 18446744073709551615 (.ok ⟨0, 4294967294⟩) := by
  refine ⟨by decide +kernel, by decide +kernel, ?_⟩
  rintro ⟨u, hu, hrank⟩
  cases hu
  revert hrank
  decide +kernel

end Chirps.Tso
