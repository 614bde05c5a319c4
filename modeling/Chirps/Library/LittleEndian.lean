/-
# Little-endian numbers in byte strings

A number is written in a fixed count of bytes, least significant first; what
does not fit is cut off. Reading takes the bytes off the front of a string.
-/

import Mathlib

namespace Chirps.Library.LittleEndian

def toLe : ℕ → ℕ → List UInt8
  | 0, _ => []
  | width + 1, n => UInt8.ofNat n :: toLe width (n / 256)

def ofLe : List UInt8 → ℕ
  | [] => 0
  | b :: bytes => b.toNat + 256 * ofLe bytes

@[simp] theorem length_toLe (width n : ℕ) : (toLe width n).length = width := by
  induction width generalizing n with
  | zero => rfl
  | succ width ih => simp [toLe, ih]

theorem ofLe_toLe (width n : ℕ) : ofLe (toLe width n) = n % 256 ^ width := by
  induction width generalizing n with
  | zero => simp [toLe, ofLe, Nat.mod_one]
  | succ width ih =>
    rw [toLe, ofLe, ih, UInt8.toNat_ofNat', Nat.pow_succ' (n := width), Nat.mod_mul]

variable {width n : ℕ}

theorem ofLe_toLe_of_lt (h : n < 256 ^ width) : ofLe (toLe width n) = n := by
  rw [ofLe_toLe, Nat.mod_eq_of_lt h]

theorem ofLe_lt (bytes : List UInt8) : ofLe bytes < 256 ^ bytes.length := by
  induction bytes with
  | nil => simp [ofLe]
  | cons b bytes ih =>
    have hb := b.toNat_lt
    rw [ofLe, List.length_cons, Nat.pow_succ]
    omega

/-- Take a number of `width` bytes off the front; too few bytes are an error. -/
def readLe (width : ℕ) (bytes : List UInt8) : Option (ℕ × List UInt8) :=
  if bytes.length < width then none else some (ofLe (bytes.take width), bytes.drop width)

theorem readLe_toLe_append (h : n < 256 ^ width) (rest : List UInt8) :
    readLe width (toLe width n ++ rest) = some (n, rest) := by
  have htake : (toLe width n ++ rest).take width = toLe width n :=
    List.take_left' (length_toLe width n)
  have hdrop : (toLe width n ++ rest).drop width = rest :=
    List.drop_left' (length_toLe width n)
  rw [readLe, if_neg (by simp), htake, hdrop, ofLe_toLe_of_lt h]

theorem toLe_ofLe (bytes : List UInt8) : toLe bytes.length (ofLe bytes) = bytes := by
  induction bytes with
  | nil => rfl
  | cons b bytes ih =>
    have hb := b.toNat_lt
    have hhead : UInt8.ofNat (b.toNat + 256 * ofLe bytes) = b := by
      apply UInt8.toNat_inj.mp
      rw [UInt8.toNat_ofNat']
      omega
    have htail : (b.toNat + 256 * ofLe bytes) / 256 = ofLe bytes := by omega
    rw [List.length_cons, ofLe, toLe, hhead, htail, ih]

theorem readLe_eq_some_iff {bytes rest : List UInt8} :
    readLe width bytes = some (n, rest) ↔ n < 256 ^ width ∧ bytes = toLe width n ++ rest := by
  constructor
  · intro h
    obtain ⟨hlong, h⟩ := Option.ite_none_left_eq_some.mp h
    cases h
    have hlength : (bytes.take width).length = width := by
      rw [List.length_take]
      omega
    have hlt := ofLe_lt (bytes.take width)
    have hbytes := toLe_ofLe (bytes.take width)
    rw [hlength] at hlt hbytes
    rw [hbytes, List.take_append_drop]
    exact ⟨hlt, rfl⟩
  · rintro ⟨hlt, rfl⟩
    exact readLe_toLe_append hlt rest

end Chirps.Library.LittleEndian
