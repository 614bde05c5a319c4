/-
# A frontier with stragglers

A set of positive numbers that fills up from below is kept as the greatest `floor` for which all of
`1..floor` belong to it, with its members `above` the first gap. A new member may close the gap, and
the floor absorbs what follows.
-/

import Mathlib

namespace Chirps.Library

/-- The set is `1..floor` and what lies above a gap. -/
structure Describes (A : Set ℕ) (floor : ℕ) (above : Finset ℕ) : Prop where
  mem_iff : ∀ n, n ∈ A ↔ (0 < n ∧ n ≤ floor) ∨ n ∈ above
  gap : ∀ n ∈ above, floor + 1 < n

def absorb : ℕ → ℕ → Finset ℕ → ℕ × Finset ℕ
  | 0, floor, above => (floor, above)
  | fuel + 1, floor, above =>
    if floor + 1 ∈ above then absorb fuel (floor + 1) (above.erase (floor + 1)) else (floor, above)

theorem describes_absorb {A : Set ℕ} {fuel floor : ℕ} {above : Finset ℕ}
    (mem_iff : ∀ n, n ∈ A ↔ (0 < n ∧ n ≤ floor) ∨ n ∈ above)
    (above_floor : ∀ n ∈ above, floor < n) (enough : above.card ≤ fuel) :
    Describes A (absorb fuel floor above).1 (absorb fuel floor above).2 := by
  induction fuel generalizing floor above with
  | zero =>
    obtain rfl := Finset.card_eq_zero.mp (Nat.le_zero.mp enough)
    exact ⟨mem_iff, by simp [absorb]⟩
  | succ fuel ih =>
    rw [absorb]
    split
    · rename_i hnext
      refine ih (fun n => ?_) (fun n hn => ?_) ?_
      · rw [mem_iff n, Finset.mem_erase]
        by_cases hn : n = floor + 1
        · subst hn
          simp [hnext]
        · have hle : n ≤ floor + 1 ↔ n ≤ floor := by omega
          simp [hn, hle]
      · have hne := Finset.ne_of_mem_erase hn
        have hlt := above_floor n (Finset.mem_of_mem_erase hn)
        omega
      · rw [Finset.card_erase_of_mem hnext]
        omega
    · rename_i hnext
      refine ⟨mem_iff, fun n hn => ?_⟩
      have hlt := above_floor n hn
      have hne : n ≠ floor + 1 := fun h => hnext (h ▸ hn)
      omega

namespace Describes

variable {A : Set ℕ} {floor : ℕ} {above : Finset ℕ}

theorem empty : Describes ∅ 0 ∅ := ⟨fun n => by simp; omega, by simp⟩

variable {n : ℕ}

section

variable (h : Describes A floor above)
include h

theorem mem_of_le (pos : 0 < n) (le : n ≤ floor) : n ∈ A :=
  (h.mem_iff n).mpr (.inl ⟨pos, le⟩)

theorem isGreatest : IsGreatest {n | ∀ m, 0 < m → m ≤ n → m ∈ A} floor := by
  refine ⟨fun m pos le => h.mem_of_le pos le, fun n hn => ?_⟩
  by_contra hlt
  -- otherwise the number behind the floor belongs to the set, and it is no straggler
  rcases (h.mem_iff (floor + 1)).mp (hn (floor + 1) (by omega) (by omega)) with hle | hmem
  · omega
  · exact absurd (h.gap _ hmem) (by omega)

theorem mem_above_iff : n ∈ above ↔ n ∈ A ∧ floor < n := by
  rw [h.mem_iff n]
  constructor
  · intro hn
    have := h.gap n hn
    exact ⟨.inr hn, by omega⟩
  · rintro ⟨⟨-, hle⟩ | hn, hlt⟩
    · omega
    · exact hn

theorem insert (hn : floor < n) :
    Describes (Insert.insert n A)
      (absorb (Insert.insert n above).card floor (Insert.insert n above)).1
      (absorb (Insert.insert n above).card floor (Insert.insert n above)).2 := by
  refine describes_absorb (fun m => ?_) (fun m hm => ?_) le_rfl
  · rw [Set.mem_insert_iff, h.mem_iff m, Finset.mem_insert]
    tauto
  · rcases Finset.mem_insert.mp hm with rfl | hm
    · exact hn
    · have := h.gap m hm
      omega

end

end Describes

theorem le_absorb (fuel floor : ℕ) (above : Finset ℕ) : floor ≤ (absorb fuel floor above).1 := by
  induction fuel generalizing floor above with
  | zero => exact le_rfl
  | succ fuel ih =>
    rw [absorb]
    split
    · exact (Nat.le_succ floor).trans (ih _ _)
    · exact le_rfl

theorem absorb_subset (fuel floor : ℕ) (above : Finset ℕ) :
    (absorb fuel floor above).2 ⊆ above := by
  induction fuel generalizing floor above with
  | zero => exact subset_rfl
  | succ fuel ih =>
    rw [absorb]
    split
    · exact (ih _ _).trans (Finset.erase_subset _ _)
    · exact subset_rfl

theorem card_eq_iff_of_lt {s : Finset ℕ} {n : ℕ} (h : ∀ i ∈ s, i < n) :
    s.card = n ↔ ∀ i < n, i ∈ s := by
  have hsub : s ⊆ Finset.range n := fun i hi => Finset.mem_range.mpr (h i hi)
  constructor
  · intro hcard i hi
    have heq : s = Finset.range n :=
      Finset.eq_of_subset_of_card_le hsub (by rw [Finset.card_range, hcard])
    exact heq ▸ Finset.mem_range.mpr hi
  · intro hall
    rw [hsub.antisymm fun i hi => hall i (Finset.mem_range.mp hi), Finset.card_range]

end Chirps.Library
