/-
# Hashing a file while its chunks arrive

The hash of a file also has an incremental form, assumed to agree with the other. A receiver feeds
it the chunks in the order of their indices: one that arrives early waits, one that arrives again is
left out.
-/

import Chirps.FileTransfer.Manifest

namespace Chirps.FileTransfer

/-- The checksum of chunks, the file hashes, and the states of the incremental hasher. -/
structure Hashing (σ : Type*) where
  chunkChecksum : Bytes → UInt64
  fileHash : HashAlgorithm → Bytes → Bytes
  new : HashAlgorithm → σ
  update : σ → Bytes → σ
  finalize : σ → Bytes
  finalize_foldl : ∀ (algorithm : HashAlgorithm) (pieces : List Bytes),
    finalize (pieces.foldl update (new algorithm)) = fileHash algorithm pieces.flatten

structure IncrementalReceiveHash (σ : Type*) where
  /-- Saturates in the source, which `chunk_count`, a `u32`, keeps from happening. -/
  nextIndex : ℕ
  pending : List (ℕ × Bytes)
  hasher : σ

namespace IncrementalReceiveHash

variable {σ : Type*} {h : Hashing σ}

def new (h : Hashing σ) (algorithm : HashAlgorithm) : IncrementalReceiveHash σ :=
  ⟨0, [], h.new algorithm⟩

def Recorded (s : IncrementalReceiveHash σ) (index : ℕ) : Prop :=
  index < s.nextIndex ∨ index ∈ s.pending.map Prod.fst

instance (s : IncrementalReceiveHash σ) (index : ℕ) : Decidable (s.Recorded index) :=
  inferInstanceAs (Decidable (_ ∨ _))

/-- The loop of `record`. -/
def absorbPending (h : Hashing σ) : ℕ → IncrementalReceiveHash σ → IncrementalReceiveHash σ
  | 0, s => s
  | fuel + 1, s =>
    match s.pending.find? (fun entry => entry.1 = s.nextIndex) with
    | none => s
    | some entry => absorbPending h fuel
      ⟨s.nextIndex + 1, s.pending.filter (fun entry => entry.1 ≠ s.nextIndex),
        h.update s.hasher entry.2⟩

/-- Each round of the loop takes a chunk out of `pending`. -/
def record (h : Hashing σ) (s : IncrementalReceiveHash σ) (index : ℕ) (data : Bytes) :
    IncrementalReceiveHash σ :=
  if s.Recorded index then s
  else absorbPending h (s.pending.length + 1) { s with pending := (index, data) :: s.pending }

def digest (h : Hashing σ) (s : IncrementalReceiveHash σ) (chunkCount : ℕ) : Option Bytes :=
  if s.nextIndex = chunkCount ∧ s.pending = [] then some (h.finalize s.hasher) else none

/-- The hasher has absorbed the chunks below `nextIndex`, and `P` holds of all recorded. -/
structure Holds (h : Hashing σ) (algorithm : HashAlgorithm) (P : ℕ → Bytes → Prop)
    (s : IncrementalReceiveHash σ) : Prop where
  absorbed : ∃ pieces : List Bytes, pieces.length = s.nextIndex ∧
    s.hasher = pieces.foldl h.update (h.new algorithm) ∧
    ∀ i piece, pieces[i]? = some piece → P i piece
  waiting : ∀ i data, (i, data) ∈ s.pending → P i data

namespace Holds

variable {algorithm : HashAlgorithm} {P Q : ℕ → Bytes → Prop} {s : IncrementalReceiveHash σ}

theorem new : (IncrementalReceiveHash.new h algorithm).Holds h algorithm P :=
  ⟨⟨[], rfl, rfl, by simp⟩, by simp [IncrementalReceiveHash.new]⟩

section

variable (holds : s.Holds h algorithm P)
include holds

theorem mono
    (weaker : ∀ i data, s.Recorded i → P i data → Q i data) : s.Holds h algorithm Q := by
  obtain ⟨pieces, hlength, hhasher, hpieces⟩ := holds.absorbed
  refine ⟨⟨pieces, hlength, hhasher, fun i piece hi => ?_⟩, fun i data hmem => ?_⟩
  · have hlt : i < pieces.length := (List.getElem?_eq_some_iff.mp hi).1
    exact weaker i piece (.inl (hlength ▸ hlt)) (hpieces i piece hi)
  · exact weaker i data (.inr (List.mem_map_of_mem hmem)) (holds.waiting i data hmem)

theorem absorbPending (fuel : ℕ) : (s.absorbPending h fuel).Holds h algorithm P := by
  induction fuel generalizing s with
  | zero => exact holds
  | succ fuel ih =>
    rw [IncrementalReceiveHash.absorbPending]
    split
    · exact holds
    · rename_i entry hfind
      obtain ⟨i, data⟩ := entry
      obtain rfl : i = s.nextIndex := by simpa using List.find?_some hfind
      have hdata := List.mem_of_find?_eq_some hfind
      obtain ⟨pieces, hlength, hhasher, hpieces⟩ := holds.absorbed
      refine ih ⟨⟨pieces ++ [data], ?_, ?_, fun i piece hi => ?_⟩, fun i piece hmem => ?_⟩
      · rw [List.length_append, hlength, List.length_singleton]
      · rw [List.foldl_append, ← hhasher, List.foldl_cons, List.foldl_nil]
      · rw [List.getElem?_append] at hi
        split at hi
        · exact hpieces i piece hi
        · -- the piece that the round has appended
          obtain ⟨hzero, rfl⟩ : i - pieces.length = 0 ∧ data = piece := by
            rw [List.getElem?_singleton] at hi
            obtain ⟨_, hi⟩ := Option.ite_none_right_eq_some.mp hi
            exact ⟨‹_›, Option.some.inj hi⟩
          obtain rfl : i = s.nextIndex := by omega
          exact holds.waiting _ _ hdata
      · exact holds.waiting i piece (List.mem_of_mem_filter hmem)

theorem record {index : ℕ} {data : Bytes} (hdata : P index data) :
    (s.record h index data).Holds h algorithm P := by
  rw [IncrementalReceiveHash.record]
  split
  · exact holds
  · have hpending : Holds h algorithm P { s with pending := (index, data) :: s.pending } := by
      refine ⟨holds.absorbed, fun i piece hmem => ?_⟩
      rcases List.mem_cons.mp hmem with heq | hmem
      · cases heq
        exact hdata
      · exact holds.waiting i piece hmem
    exact hpending.absorbPending _

theorem digest_eq_some {chunkCount : ℕ} {digest : Bytes}
    (hdigest : s.digest h chunkCount = some digest) :
    ∃ pieces : List Bytes, pieces.length = chunkCount ∧
      digest = h.fileHash algorithm pieces.flatten ∧
      ∀ i piece, pieces[i]? = some piece → P i piece := by
  obtain ⟨hdone, hdigest⟩ := Option.ite_none_right_eq_some.mp hdigest
  obtain ⟨pieces, hlength, hhasher, hpieces⟩ := holds.absorbed
  refine ⟨pieces, hlength.trans hdone.1, ?_, hpieces⟩
  rw [← Option.some.inj hdigest, hhasher, h.finalize_foldl]

end

end Holds

end IncrementalReceiveHash

end Chirps.FileTransfer
