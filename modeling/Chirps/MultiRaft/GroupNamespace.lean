/-
# The names of groups

`parse_group_namespace` reads back what `group_namespace` writes and nothing else. The parser of
the standard library would also take a sign, capital letters and fewer digits.
-/

import Chirps.MultiRaft.StorageFactory

namespace Chirps.MultiRaft

open Chirps.RaftStorage

/-- `char::to_digit(16)`. -/
def toDigit (c : Char) : Option ℕ :=
  if '0' ≤ c ∧ c ≤ '9' then some (c.toNat - '0'.toNat)
  else if 'a' ≤ c ∧ c ≤ 'f' then some (c.toNat - 'a'.toNat + 10)
  else if 'A' ≤ c ∧ c ≤ 'F' then some (c.toNat - 'A'.toNat + 10)
  else none

def readDigits : ℕ → List Char → Option ℕ
  | n, [] => some n
  | n, c :: rest => (toDigit c).bind fun digit => readDigits (n * 16 + digit) rest

/-- `u64::from_str_radix(_, 16)`. -/
def fromStrRadix (text : List Char) : Option UInt64 :=
  let digits := if text.head? = some '+' then text.tail else text
  if digits = [] then none
  else (readDigits 0 digits).bind fun n => if n < 2 ^ 64 then some (.ofNat n) else none

/-- The error is `InvalidGroupId` with the text. Hexadecimal digits are one byte each. -/
def parseGroupNamespace (value : String) : Except String GroupId :=
  match value.toList with
  | 'g' :: 'r' :: 'o' :: 'u' :: 'p' :: 's' :: '/' :: hex =>
    if hex.length ≠ 16 ∨ ¬hex.all (fun c => c.isDigit || ('a' ≤ c && c ≤ 'f')) then .error value
    else
      match fromStrRadix hex with
      | none => .error value
      | some raw => if groupNamespace ⟨raw⟩ ≠ value then .error value else .ok ⟨raw⟩
  | _ => .error value

theorem hexDigit_spec {n : ℕ} (h : n < 16) : toDigit (hexDigit n) = some n ∧
    ((hexDigit n).isDigit || ('a' ≤ hexDigit n && hexDigit n ≤ 'f')) = true ∧ hexDigit n ≠ '+' := by
  revert n
  decide

theorem length_toHex (width n : ℕ) : (toHex width n).length = width := by
  induction width generalizing n with
  | zero => rfl
  | succ width ih => simp [toHex, ih]

theorem mem_toHex {width n : ℕ} {c : Char} (h : c ∈ toHex width n) : ∃ d < 16, c = hexDigit d := by
  induction width generalizing n with
  | zero => cases h
  | succ width ih =>
    rcases List.mem_append.mp h with h | h
    · exact ih h
    · exact ⟨n % 16, Nat.mod_lt _ (by decide), List.mem_singleton.mp h⟩

theorem readDigits_append (n : ℕ) (text : List Char) (c : Char) :
    readDigits n (text ++ [c]) =
      (readDigits n text).bind fun m => (toDigit c).map (m * 16 + ·) := by
  induction text generalizing n with
  | nil => cases h : toDigit c <;> simp [readDigits, h]
  | cons d rest ih => cases h : toDigit d <;> simp [readDigits, h, ih]

/-- The digits are read back, as many of them as there are. -/
theorem readDigits_toHex (width n : ℕ) : readDigits 0 (toHex width n) = some (n % 16 ^ width) := by
  induction width generalizing n with
  | zero => simp [toHex, readDigits, Nat.mod_one]
  | succ width ih =>
    have hdigit := (hexDigit_spec (Nat.mod_lt n (show 16 > 0 by decide))).1
    have hmod : n / 16 % 16 ^ width * 16 + n % 16 = n % 16 ^ (width + 1) := by
      rw [Nat.pow_succ', Nat.mod_mul, Nat.mul_comm, Nat.add_comm]
    rw [toHex, readDigits_append, ih, hdigit, Option.bind_some, Option.map_some, hmod]

theorem fromStrRadix_toHex (raw : UInt64) : fromStrRadix (toHex 16 raw.toNat) = some raw := by
  have hlt := raw.toNat_lt
  have hplus : (toHex 16 raw.toNat).head? ≠ some '+' := by
    intro h
    obtain ⟨d, hd, heq⟩ := mem_toHex (List.mem_of_mem_head? h)
    exact (hexDigit_spec hd).2.2 heq.symm
  have hne : toHex 16 raw.toNat ≠ [] := List.ne_nil_of_length_pos (by rw [length_toHex]; decide)
  have hmod : raw.toNat % 16 ^ 16 = raw.toNat := Nat.mod_eq_of_lt hlt
  simp only [fromStrRadix, if_neg hplus, if_neg hne, readDigits_toHex, hmod, Option.bind_some,
    if_pos hlt, UInt64.ofNat_toNat]

/-- A text is accepted as the name of a group if and only if it is the one that is written for it,
and no two groups have the same. -/
theorem group_namespaces_are_canonical (value : String) (g g' : GroupId) :
    (parseGroupNamespace value = .ok g ↔ value = groupNamespace g) ∧
      (groupNamespace g = groupNamespace g' ↔ g = g') := by
  have haccepts : ∀ g, parseGroupNamespace (groupNamespace g) = .ok g := by
    intro g
    have htext : (groupNamespace g).toList =
        'g' :: 'r' :: 'o' :: 'u' :: 'p' :: 's' :: '/' :: toHex 16 g.val.toNat := by
      simp [groupNamespace]
    have hall : (toHex 16 g.val.toNat).all (fun c => c.isDigit || ('a' ≤ c && c ≤ 'f')) = true := by
      refine List.all_eq_true.mpr fun c hc => ?_
      obtain ⟨d, hd, rfl⟩ := mem_toHex hc
      exact (hexDigit_spec hd).2.1
    simp [parseGroupNamespace, htext, length_toHex, hall, fromStrRadix_toHex]
  refine ⟨⟨fun h => ?_, fun h => h ▸ haccepts g⟩, fun h => ?_, fun h => h ▸ rfl⟩
  · rw [parseGroupNamespace] at h
    split at h
    · split at h
      · cases h
      · split at h
        · cases h
        · split at h
          · cases h
          · rename_i hsame
            cases h
            exact (not_not.mp hsame).symm
    · cases h
  · have hg := haccepts g
    rw [h, haccepts g'] at hg
    cases hg
    rfl

end Chirps.MultiRaft
