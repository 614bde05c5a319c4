/-
# Positional writes

A file is a list of items that is written at positions; a write past the end fills the gap. Pieces
that lie one after the other are the file.
-/

import Mathlib

namespace Chirps.Library

open List (ext_getElem? getElem?_eq_none length_drop length_take)

variable {α : Type*}

def slice (l : List α) (start n : ℕ) : List α := (l.drop start).take n

def resize (fill : α) (l : List α) (n : ℕ) : List α :=
  l.take n ++ List.replicate (n - l.length) fill

/-- The list with `data` written at `offset`. Writing nothing does not move the end. -/
def writeAt (fill : α) (l : List α) (offset : ℕ) (data : List α) : List α :=
  if data = [] then l else resize fill l offset ++ data ++ l.drop (offset + data.length)

theorem getElem?_slice (l : List α) (start n j : ℕ) :
    (slice l start n)[j]? = if j < n then l[start + j]? else none := by
  rw [slice, List.getElem?_take, List.getElem?_drop]

theorem length_slice (l : List α) (start n : ℕ) :
    (slice l start n).length = min n (l.length - start) := by
  rw [slice, length_take, length_drop]

@[simp] theorem length_resize (fill : α) (l : List α) (n : ℕ) : (resize fill l n).length = n := by
  simp only [resize, List.length_append, length_take, List.length_replicate]
  omega

variable {l : List α} {start n : ℕ}

theorem slice_congr {l' : List α} (h : ∀ i, start ≤ i → i < start + n → l[i]? = l'[i]?) :
    slice l start n = slice l' start n := by
  refine ext_getElem? fun j => ?_
  rw [getElem?_slice, getElem?_slice]
  split
  · exact h _ (Nat.le_add_right _ _) (by omega)
  · rfl

variable {i : ℕ}

theorem lt_length_of_full (full : (slice l start n).length = n) (h : i < start + n)
    (hstart : start ≤ i) : i < l.length := by
  rw [length_slice] at full
  omega

variable {fill : α}

theorem getElem?_resize (h : i < l.length) (hn : i < n) : (resize fill l n)[i]? = l[i]? := by
  rw [resize, List.getElem?_append_left (by rw [length_take]; omega),
    List.getElem?_take_of_lt hn]

variable {data : List α} {offset : ℕ}

theorem getElem?_writeAt {j : ℕ} (h : j < data.length) :
    (writeAt fill l offset data)[offset + j]? = data[j]? := by
  have hdata : data ≠ [] := List.ne_nil_of_length_pos (by omega)
  rw [writeAt, if_neg hdata, List.append_assoc,
    List.getElem?_append_right (by rw [length_resize]; omega), length_resize,
    Nat.add_sub_cancel_left, List.getElem?_append_left h]

theorem getElem?_writeAt_of_outside (h : i < l.length)
    (outside : i < offset ∨ offset + data.length ≤ i) :
    (writeAt fill l offset data)[i]? = l[i]? := by
  rw [writeAt]
  split
  · rfl
  · rcases outside with hlt | hle
    · rw [List.append_assoc, List.getElem?_append_left (by rwa [length_resize]),
        getElem?_resize h hlt]
    · have hlength : (resize fill l offset ++ data).length = offset + data.length := by
        rw [List.length_append, length_resize]
      rw [List.getElem?_append_right (by rw [hlength]; exact hle), hlength, List.getElem?_drop,
        Nat.add_sub_cancel' hle]

theorem slice_writeAt (fill : α) (l data : List α) (offset : ℕ) :
    slice (writeAt fill l offset data) offset data.length = data := by
  refine ext_getElem? fun j => ?_
  rw [getElem?_slice]
  split
  · exact getElem?_writeAt ‹_›
  · exact (getElem?_eq_none (by omega)).symm

theorem slice_writeAt_of_disjoint (full : (slice l start n).length = n)
    (disjoint : start + n ≤ offset ∨ offset + data.length ≤ start) :
    slice (writeAt fill l offset data) start n = slice l start n :=
  slice_congr fun _ hstart hlt =>
    getElem?_writeAt_of_outside (lt_length_of_full full hlt hstart) (by omega)

theorem slice_resize {m : ℕ} (full : (slice l start n).length = n) (fits : start + n ≤ m) :
    slice (resize fill l m) start n = slice l start n :=
  slice_congr fun _ hstart hlt => getElem?_resize (lt_length_of_full full hlt hstart) (by omega)

theorem length_writeAt (fits : offset + data.length ≤ l.length) :
    (writeAt fill l offset data).length = l.length := by
  rw [writeAt]
  split
  · rfl
  · simp only [List.length_append, length_resize, length_drop]
    omega

theorem writeAt_take_of_slice (same : slice l offset data.length = data) (k : ℕ) :
    writeAt fill l offset (data.take k) = l := by
  have full : (slice l offset data.length).length = data.length := by rw [same]
  -- what is written lies inside the list, or it is nothing
  have hinside : offset + (data.take k).length ≤ l.length ∨ data.take k = [] := by
    rw [length_slice] at full
    by_cases hempty : data.take k = []
    · exact .inr hempty
    · have := List.length_pos_iff.mpr hempty
      rw [length_take] at this ⊢
      omega
  rcases hinside with hinside | hempty
  · refine ext_getElem? fun i => ?_
    by_cases hlt : i < l.length
    · by_cases houtside : i < offset ∨ offset + (data.take k).length ≤ i
      · exact getElem?_writeAt_of_outside hlt houtside
      · have hle : offset ≤ i := by omega
        obtain ⟨j, rfl⟩ := Nat.exists_eq_add_of_le hle
        have hj : j < (data.take k).length := by omega
        have hdata : j < data.length ∧ j < k := by
          rw [length_take] at hj
          omega
        have hread := getElem?_slice l offset data.length j
        rw [same, if_pos hdata.1] at hread
        rw [getElem?_writeAt hj, List.getElem?_take_of_lt hdata.2, hread]
    · rw [getElem?_eq_none (by rw [length_writeAt hinside]; omega),
        getElem?_eq_none (by omega)]
  · rw [hempty, writeAt, if_pos rfl]

theorem eq_flatten_of_slices {pieces : List (List α)}
    (length : l.length = (pieces.map List.length).sum) (h : ∀ i piece, pieces[i]? = some piece →
      slice l ((pieces.take i).map List.length).sum piece.length = piece) :
    l = pieces.flatten := by
  induction pieces generalizing l with
  | nil => exact List.length_eq_zero_iff.mp (by simpa using length)
  | cons piece rest ih =>
    have hfirst : l.take piece.length = piece := by
      simpa [slice] using h 0 piece rfl
    have hrest : l.drop piece.length = rest.flatten := by
      refine ih ?_ fun i next hnext => ?_
      · rw [length_drop, length, List.map_cons, List.sum_cons, Nat.add_sub_cancel_left]
      · simpa [slice, List.drop_drop] using h (i + 1) next hnext
    rw [List.flatten_cons, ← hrest]
    nth_rewrite 1 [← hfirst]
    rw [List.take_append_drop]

/-! ## Pieces of one size -/

def pieceLength (total size i : ℕ) : ℕ := min size (total - i * size)

theorem sum_pieceLength (total size n : ℕ) :
    ∑ i ∈ Finset.range n, pieceLength total size i = min (n * size) total := by
  induction n with
  | zero => simp
  | succ n ih =>
    rw [Finset.sum_range_succ, ih, pieceLength, Nat.succ_mul]
    omega

theorem slice_pieceLength (l : List α) (size i : ℕ) :
    slice l (i * size) (pieceLength l.length size i) = slice l (i * size) size := by
  rw [slice, slice, List.take_eq_take_iff, length_drop, pieceLength]
  omega

theorem pieceLength_le (total size i : ℕ) (h : i * size ≤ total) :
    i * size + pieceLength total size i ≤ total := by
  rw [pieceLength]
  omega

theorem pieces_disjoint (total size : ℕ) {j : ℕ} (h : i ≠ j) :
    i * size + pieceLength total size i ≤ j * size ∨
      j * size + pieceLength total size j ≤ i * size := by
  have hpiece : ∀ k, pieceLength total size k ≤ size := fun k => min_le_left _ _
  rcases Nat.lt_or_gt_of_ne h with hlt | hlt
  · left
    have hnext := Nat.mul_le_mul_right size (Nat.succ_le_of_lt hlt)
    rw [Nat.succ_mul] at hnext
    exact le_trans (Nat.add_le_add_left (hpiece i) _) hnext
  · right
    have hnext := Nat.mul_le_mul_right size (Nat.succ_le_of_lt hlt)
    rw [Nat.succ_mul] at hnext
    exact le_trans (Nat.add_le_add_left (hpiece j) _) hnext

theorem eq_of_pieces {l' : List α} {size : ℕ} (length : l.length = l'.length)
    (enough : l.length ≤ n * size) (h : ∀ i < n, slice l (i * size) (pieceLength l.length size i) =
      slice l' (i * size) (pieceLength l.length size i)) : l = l' := by
  refine ext_getElem? fun k => ?_
  by_cases hk : k < l.length
  · -- the piece with item `k` in it
    have hsize : 0 < size := Nat.pos_of_mul_pos_left (lt_of_lt_of_le (by omega) enough)
    have hpiece : k / size < n := Nat.div_lt_of_lt_mul (by rw [Nat.mul_comm]; omega)
    have hmod := Nat.mod_lt k hsize
    have hsplit : k / size * size + k % size = k := by
      rw [Nat.mul_comm]
      exact Nat.div_add_mod k size
    have hin : k % size < pieceLength l.length size (k / size) := by
      rw [pieceLength]
      omega
    have hget := congrArg (fun piece => piece[k % size]?) (h (k / size) hpiece)
    simpa only [getElem?_slice, if_pos hin, hsplit] using hget
  · rw [getElem?_eq_none (by omega), getElem?_eq_none (by omega)]

end Chirps.Library
