/-
# Logs of records of one size

A log of blocks of one size is read block by block from the front. A record is found again if the
log before it has no unfinished block, and a cut log has the records that are whole.
-/

import Mathlib

namespace Chirps.Library

open List (flatMap_cons length_append map_take)

structure RecordCodec (ρ β : Type*) where
  width : ℕ
  encode : ρ → List β
  decode : List β → Option ρ
  width_pos : 0 < width
  length_encode : ∀ r, (encode r).length = width
  decode_encode : ∀ r, decode (encode r) = some r

namespace RecordCodec

variable {ρ β : Type*}

def readBlocks (codec : RecordCodec ρ β) : ℕ → List β → List ρ
  | 0, _ => []
  | count + 1, log =>
    match codec.decode (log.take codec.width) with
    | none => []
    | some r => r :: codec.readBlocks count (log.drop codec.width)

def records (codec : RecordCodec ρ β) (log : List β) : List ρ :=
  codec.readBlocks (log.length / codec.width) log

def Aligned (codec : RecordCodec ρ β) (log : List β) : Prop :=
  ∃ rs : List ρ, log = rs.flatMap codec.encode

variable {codec : RecordCodec ρ β}

theorem aligned_nil : codec.Aligned [] := ⟨[], rfl⟩

variable {log : List β}

theorem Aligned.append (h : codec.Aligned log) (r : ρ) : codec.Aligned (log ++ codec.encode r) := by
  obtain ⟨rs, rfl⟩ := h
  exact ⟨rs ++ [r], by rw [List.flatMap_append, List.flatMap_singleton]⟩

theorem readBlocks_prefix {count more : ℕ} (rest : List β) (hlog : count * codec.width ≤ log.length)
    (hcount : count ≤ more) :
    codec.readBlocks count log <+: codec.readBlocks more (log ++ rest) := by
  induction count generalizing log more with
  | zero => exact List.nil_prefix
  | succ count ih =>
    obtain ⟨more, rfl⟩ := Nat.exists_eq_add_of_le' (Nat.lt_of_lt_of_le (Nat.succ_pos _) hcount)
    have hwidth : codec.width ≤ log.length := by
      rw [Nat.succ_mul] at hlog
      omega
    rw [readBlocks, readBlocks, List.take_append_of_le_length hwidth,
      List.drop_append_of_le_length hwidth]
    cases codec.decode (log.take codec.width) with
    | none => exact List.nil_prefix
    | some r =>
      refine List.cons_prefix_cons.mpr ⟨rfl, ih ?_ (Nat.le_of_succ_le_succ hcount)⟩
      rw [Nat.succ_mul] at hlog
      rw [List.length_drop]
      omega

theorem records_prefix (log rest : List β) : codec.records log <+: codec.records (log ++ rest) := by
  refine readBlocks_prefix rest (Nat.div_mul_le_self _ _) (Nat.div_le_div_right ?_)
  rw [length_append]
  exact Nat.le_add_right _ _

variable (rs : List ρ)

theorem readBlocks_flatMap (rest : List β) :
    codec.readBlocks rs.length (rs.flatMap codec.encode ++ rest) = rs := by
  induction rs with
  | nil => rfl
  | cons r rs ih =>
    rw [flatMap_cons, List.append_assoc, List.length_cons, readBlocks,
      List.take_left' (codec.length_encode r), List.drop_left' (codec.length_encode r),
      codec.decode_encode, ih]

theorem length_flatMap_encode : (rs.flatMap codec.encode).length = rs.length * codec.width := by
  induction rs with
  | nil => rw [List.flatMap_nil, List.length_nil, List.length_nil, Nat.zero_mul]
  | cons r rs ih =>
    rw [flatMap_cons, length_append, codec.length_encode, ih, List.length_cons,
      Nat.succ_mul, Nat.add_comm]

theorem records_flatMap_append {torn : List β} (h : torn.length < codec.width) :
    codec.records (rs.flatMap codec.encode ++ torn) = rs := by
  have hcount : (rs.length * codec.width + torn.length) / codec.width = rs.length := by
    rw [Nat.mul_comm, Nat.mul_add_div codec.width_pos, Nat.div_eq_of_lt h, Nat.add_zero]
  rw [records, length_append, length_flatMap_encode, hcount, readBlocks_flatMap]

theorem records_flatMap : codec.records (rs.flatMap codec.encode) = rs := by
  rw [← List.append_nil (rs.flatMap codec.encode)]
  exact records_flatMap_append rs codec.width_pos

theorem Aligned.mem_records_append (h : codec.Aligned log) (r : ρ) :
    r ∈ codec.records (log ++ codec.encode r) := by
  obtain ⟨rs, rfl⟩ := h
  have hlog : rs.flatMap codec.encode ++ codec.encode r = (rs ++ [r]).flatMap codec.encode := by
    rw [List.flatMap_append, List.flatMap_singleton]
  rw [hlog, records_flatMap]
  exact List.mem_append_right _ List.mem_cons_self

/-! ## Logs that are cut -/

/-- The log has these records at these places, and maybe an unfinished block. -/
structure Lays (codec : RecordCodec ρ β) (log : List β) (placed : List (ℕ × ρ)) : Prop where
  starts : placed.map Prod.fst = (List.range placed.length).map (· * codec.width)
  log_eq : ∃ torn : List β, torn.length < codec.width ∧
    log = (placed.map Prod.snd).flatMap codec.encode ++ torn

namespace Lays

variable {log : List β} {placed : List (ℕ × ρ)}

theorem nil : codec.Lays [] [] := ⟨rfl, [], codec.width_pos, rfl⟩

theorem records_eq (h : codec.Lays log placed) : codec.records log = placed.map Prod.snd := by
  obtain ⟨torn, htorn, rfl⟩ := h.log_eq
  exact records_flatMap_append _ htorn

theorem append (h : codec.Lays log placed) (haligned : codec.width ∣ log.length) (r : ρ) :
    codec.Lays (log ++ codec.encode r) (placed ++ [(log.length, r)]) := by
  obtain ⟨torn, htorn, rfl⟩ := h.log_eq
  rw [length_append, length_flatMap_encode, List.length_map] at haligned ⊢
  obtain rfl : torn = [] := by
    rw [Nat.dvd_add_right (Nat.dvd_mul_left _ _)] at haligned
    exact List.eq_nil_of_length_eq_zero (Nat.eq_zero_of_dvd_of_lt haligned htorn)
  refine ⟨?_, [], codec.width_pos, ?_⟩
  · simp [h.starts, List.range_succ]
  · simp

theorem filter_eq_take {w n : ℕ} (hw : 0 < w)
    (h : placed.map Prod.fst = (List.range placed.length).map (· * w)) :
    (placed.filter fun entry => entry.1 + w ≤ n) = placed.take (n / w) := by
  induction placed using List.reverseRecOn with
  | nil => rw [List.filter_nil, List.take_nil]
  | append_singleton placed entry ih =>
    simp only [List.map_append, length_append, List.length_singleton, List.range_succ,
      List.map_singleton] at h
    obtain ⟨hplaced, hentry⟩ := List.append_inj' h rfl
    have hstart : entry.1 = placed.length * w := List.singleton_inj.mp hentry
    have hends : entry.1 + w ≤ n ↔ placed.length < n / w := by
      rw [hstart, ← Nat.succ_mul, ← Nat.le_div_iff_mul_le hw, Nat.succ_le_iff]
    rw [List.filter_append, ih hplaced, List.take_append]
    by_cases hlt : placed.length < n / w
    · rw [List.filter_cons_of_pos (by simpa using hends.mpr hlt), List.filter_nil,
        List.take_of_length_le (l := [entry]) (by rw [List.length_singleton]; omega)]
    · rw [List.filter_cons_of_neg (by simpa using fun hle => hlt (hends.mp hle)), List.filter_nil,
        Nat.sub_eq_zero_of_le (Nat.le_of_not_lt hlt), List.take_zero]

theorem take_flatMap (rs : List ρ) (n : ℕ) : ∃ torn : List β, torn.length < codec.width ∧
    (rs.flatMap codec.encode).take n = (rs.take (n / codec.width)).flatMap codec.encode ++
      torn := by
  induction rs generalizing n with
  | nil => exact ⟨[], codec.width_pos, by simp⟩
  | cons r rs ih =>
    rw [flatMap_cons]
    by_cases hn : n < codec.width
    · -- the cut is in the first block
      refine ⟨(codec.encode r).take n, ?_, ?_⟩
      · rw [List.length_take]
        omega
      · rw [Nat.div_eq_of_lt hn, List.take_zero, List.flatMap_nil, List.nil_append,
          List.take_append_of_le_length (by rw [codec.length_encode]; omega)]
    · obtain ⟨more, rfl⟩ := Nat.exists_eq_add_of_le (Nat.le_of_not_lt hn)
      obtain ⟨torn, htorn, htake⟩ := ih more
      refine ⟨torn, htorn, ?_⟩
      rw [Nat.add_div_left _ codec.width_pos, List.take_succ_cons, flatMap_cons,
        List.append_assoc, ← htake, ← codec.length_encode r, List.take_length_add_append]

theorem take (h : codec.Lays log placed) (n : ℕ) :
    codec.Lays (log.take n) (placed.filter fun entry => entry.1 + codec.width ≤ n) := by
  rw [filter_eq_take codec.width_pos h.starts]
  constructor
  · rw [map_take, h.starts, ← map_take, List.take_range, List.length_take]
  · obtain ⟨torn, htorn, rfl⟩ := h.log_eq
    have hlength : ((placed.map Prod.snd).flatMap codec.encode).length =
        placed.length * codec.width := by rw [length_flatMap_encode, List.length_map]
    rw [map_take]
    rcases Nat.le_total n (placed.length * codec.width) with hn | hn
    · rw [List.take_append_of_le_length (hlength.symm ▸ hn)]
      exact take_flatMap _ n
    · -- only the unfinished block is cut
      have hall : placed.length ≤ n / codec.width := (Nat.le_div_iff_mul_le codec.width_pos).mpr hn
      have hkept : (placed.map Prod.snd).take (n / codec.width) = placed.map Prod.snd :=
        List.take_of_length_le (by rwa [List.length_map])
      rw [hkept]
      refine ⟨torn.take (n - placed.length * codec.width), ?_, ?_⟩
      · rw [List.length_take]
        omega
      · rw [List.take_append, hlength, List.take_of_length_le (hlength.symm ▸ hn)]

end Lays

end RecordCodec

end Chirps.Library
