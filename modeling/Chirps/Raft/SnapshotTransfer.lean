/-
# Snapshots in chunks

A snapshot travels as a manifest and chunks of one size, the last cut short. The receiver takes each
chunk once and hands the bytes on when their digest is right. A call that would panic has no
result.
-/

import Chirps.Library.Run
import Chirps.Library.Patch

namespace Chirps.Raft

open Chirps.Library
open UInt32 (lt_iff_toNat_lt toNat_inj)

abbrev Bytes := List UInt8

structure SnapshotManifest (Digest : Type*) where
  snapshotId : String
  totalLen : UInt64
  chunkSize : UInt32
  chunkCount : UInt32
  digest : Digest
  deriving DecidableEq

structure SnapshotChunk (Digest : Type*) where
  snapshotId : String
  index : UInt32
  offset : UInt64
  data : Bytes
  digest : Digest
  deriving DecidableEq

structure VerifiedSnapshot (Digest : Type*) where
  snapshotId : String
  bytes : Bytes
  digest : Digest

inductive SnapshotTransferError
  | invalidConfig (message : String)
  | invalidManifest (message : String)
  | integrity (message : String)
  deriving DecidableEq

structure SnapshotProgress where
  snapshotId : String
  verifiedChunks : UInt32
  totalChunks : UInt32
  transferredBytes : UInt64
  retries : UInt64
  inFlight : ℕ
  maxObservedConcurrency : ℕ
  installed : Bool
  deriving DecidableEq

section

variable {Digest : Type*}

/-- `progress`, as a receiver calls it. -/
def progress (manifest : SnapshotManifest Digest) (verifiedChunks : UInt32)
    (transferredBytes : UInt64) : SnapshotProgress where
  snapshotId := manifest.snapshotId
  verifiedChunks := verifiedChunks
  totalChunks := manifest.chunkCount
  transferredBytes := transferredBytes
  retries := 0
  inFlight := 0
  maxObservedConcurrency := 0
  installed := false

def SnapshotManifest.fromBytes (sha256 : Bytes → Digest) (snapshotId : String) (bytes : Bytes)
    (chunkSize : ℕ) : Except SnapshotTransferError (SnapshotManifest Digest) :=
  if chunkSize = 0 ∨ UInt32.size ≤ chunkSize then
    .error (.invalidConfig "chunk_size must fit in a non-zero u32")
  else
    let count := max bytes.length 1 ⌈/⌉ chunkSize
    if UInt32.size ≤ count then .error (.invalidManifest "too many snapshot chunks")
    else
      .ok {
        snapshotId := snapshotId
        totalLen := .ofNat bytes.length
        chunkSize := .ofNat chunkSize
        chunkCount := .ofNat count
        digest := sha256 bytes }

def buildChunk (sha256 : Bytes → Digest) (manifest : SnapshotManifest Digest) (bytes : Bytes)
    (index : UInt32) : Except SnapshotTransferError (SnapshotChunk Digest) :=
  let chunkSize := manifest.chunkSize.toNat
  if bytes = [] then .ok ⟨manifest.snapshotId, 0, 0, [], sha256 []⟩
  else
    let start := index.toNat * chunkSize
    let stop := min (start + chunkSize) bytes.length
    -- `bytes.get(start..end)`
    if stop < start then .error (.invalidManifest "chunk index is out of bounds")
    else
      let data := slice bytes start (stop - start)
      .ok ⟨manifest.snapshotId, index, .ofNat (index.toNat * chunkSize), data, sha256 data⟩

def validateManifest (manifest : SnapshotManifest Digest) : Except SnapshotTransferError Unit :=
  if manifest.snapshotId = "" ∨ manifest.chunkSize = 0 ∨ manifest.chunkCount = 0 then
    .error (.invalidManifest "snapshot id, chunk size, and chunk count must be non-zero")
  else if max manifest.totalLen.toNat 1 ⌈/⌉ manifest.chunkSize.toNat ≠
      manifest.chunkCount.toNat then
    .error (.invalidManifest "chunk count does not cover the declared snapshot length")
  else .ok ()

/-- `validate_chunk`, or `none` where the product of the offset overflows. -/
def validateChunk [DecidableEq Digest] (sha256 : Bytes → Digest)
    (manifest : SnapshotManifest Digest) (chunk : SnapshotChunk Digest) :
    Option (Except SnapshotTransferError Unit) :=
  if chunk.snapshotId ≠ manifest.snapshotId ∨ manifest.chunkCount ≤ chunk.index then
    some (.error (.invalidManifest "chunk does not belong to this snapshot"))
  else
    let expectedOffset := chunk.index.toNat * manifest.chunkSize.toNat
    if UInt64.size ≤ expectedOffset then none
    else if chunk.offset.toNat ≠ expectedOffset then
      some (.error (.invalidManifest ("chunk " ++ toString chunk.index ++ " has offset " ++
        toString chunk.offset ++ ", expected " ++ toString expectedOffset)))
    else
      let remaining := manifest.totalLen.toNat - expectedOffset
      let expectedLen := min remaining manifest.chunkSize.toNat
      if chunk.data.length ≠ expectedLen then
        some (.error (.invalidManifest ("chunk " ++ toString chunk.index ++ " has length " ++
          toString chunk.data.length ++ ", expected " ++ toString expectedLen)))
      else if sha256 chunk.data ≠ chunk.digest then
        some (.error (.integrity ("chunk " ++ toString chunk.index ++ " digest mismatch")))
      else some (.ok ())

end

/-- `SnapshotReceiver`, with what its observer has seen. -/
structure SnapshotReceiver (Digest : Type*) where
  manifest : SnapshotManifest Digest
  bytes : Bytes
  received : List Bool
  verifiedChunks : UInt32
  verifiedBytes : UInt64
  observed : List SnapshotProgress
  deriving DecidableEq

namespace SnapshotReceiver

variable {Digest : Type*}

/-- `new`. Every `u64` is a `usize`. -/
def new (manifest : SnapshotManifest Digest) :
    Except SnapshotTransferError (SnapshotReceiver Digest) :=
  match validateManifest manifest with
  | .error error => .error error
  | .ok () =>
    .ok {
      manifest := manifest
      bytes := List.replicate manifest.totalLen.toNat 0
      received := List.replicate manifest.chunkCount.toNat false
      verifiedChunks := 0
      verifiedBytes := 0
      observed := [progress manifest 0 0] }

def record (r : SnapshotReceiver Digest) (chunk : SnapshotChunk Digest) : SnapshotReceiver Digest :=
  let verifiedChunks := r.verifiedChunks + 1
  let verifiedBytes := r.verifiedBytes + .ofNat chunk.data.length
  { r with
    verifiedChunks := verifiedChunks
    verifiedBytes := verifiedBytes
    bytes := writeAt 0 r.bytes chunk.offset.toNat chunk.data
    received := r.received.set chunk.index.toNat true
    observed := r.observed ++ [progress r.manifest verifiedChunks verifiedBytes] }

variable [DecidableEq Digest] (sha256 : Bytes → Digest)

/-- `accept`, or `none` where it panics. -/
def accept (r : SnapshotReceiver Digest)
    (chunk : SnapshotChunk Digest) :
    Option (Except SnapshotTransferError Unit × SnapshotReceiver Digest) :=
  match validateChunk sha256 r.manifest chunk with
  | none => none
  | some (.error error) => some (.error error, r)
  | some (.ok ()) =>
    let start := chunk.offset.toNat
    let stop := start + chunk.data.length
    -- the sum, and the range `start..end` that both branches use
    if UInt64.size ≤ stop ∨ r.bytes.length < stop then none
    else
      match r.received[chunk.index.toNat]? with
      | none => none
      | some true =>
        if slice r.bytes start chunk.data.length = chunk.data then some (.ok (), r)
        else
          some (.error (.integrity ("conflicting duplicate chunk " ++ toString chunk.index)), r)
      | some false =>
        if UInt32.size ≤ r.verifiedChunks.toNat + 1 ∨
            UInt64.size ≤ r.verifiedBytes.toNat + chunk.data.length then none
        else some (.ok (), r.record chunk)

def verifyComplete (r : SnapshotReceiver Digest)
    (snapshotId : String) : Except SnapshotTransferError Unit :=
  if snapshotId ≠ r.manifest.snapshotId then
    .error (.invalidManifest "snapshot id changed before completion")
  else if r.verifiedChunks ≠ r.manifest.chunkCount then
    .error (.invalidManifest ("snapshot is incomplete: verified " ++ toString r.verifiedChunks ++
      " of " ++ toString r.manifest.chunkCount ++ " chunks"))
  else if r.bytes.length ≠ r.manifest.totalLen.toNat then
    .error (.integrity "reassembled length does not match manifest")
  else if sha256 r.bytes ≠ r.manifest.digest then
    .error (.integrity "whole snapshot digest mismatch")
  else .ok ()

def verify (r : SnapshotReceiver Digest) (snapshotId : String) :
    Except SnapshotTransferError (VerifiedSnapshot Digest) :=
  match r.verifyComplete sha256 snapshotId with
  | .error error => .error error
  | .ok () => .ok ⟨r.manifest.snapshotId, r.bytes, r.manifest.digest⟩

/-- A call of `accept`, whatever it returns. A panic ends the run. -/
def step (r : SnapshotReceiver Digest)
    (chunk : SnapshotChunk Digest) : Option (SnapshotReceiver Digest) :=
  (r.accept sha256 chunk).map Prod.snd

def taken (sha256 : Bytes → Digest) (r : SnapshotReceiver Digest) :
    List (SnapshotChunk Digest) → List (SnapshotChunk Digest)
  | [] => []
  | chunk :: rest =>
    match r.accept sha256 chunk with
    | none => []
    | some (.error _, next) => next.taken sha256 rest
    | some (.ok (), next) =>
      if r.received[chunk.index.toNat]? = some true then next.taken sha256 rest
      else chunk :: next.taken sha256 rest

end SnapshotReceiver

/-! ## Valid chunks -/

section

variable {Digest : Type*} {manifest : SnapshotManifest Digest}

structure SnapshotManifest.Valid (manifest : SnapshotManifest Digest) : Prop where
  id : manifest.snapshotId ≠ ""
  size : 0 < manifest.chunkSize.toNat
  count : max manifest.totalLen.toNat 1 ⌈/⌉ manifest.chunkSize.toNat = manifest.chunkCount.toNat

theorem validateManifest_ok_iff : validateManifest manifest = .ok () ↔ manifest.Valid := by
  have hsize : manifest.chunkSize ≠ 0 ↔ 0 < manifest.chunkSize.toNat := by
    rw [Nat.pos_iff_ne_zero, ne_eq, ne_eq, ← toNat_inj]
    rfl
  rw [validateManifest]
  split
  · rename_i hzero
    refine iff_of_false (by simp) fun valid => ?_
    rcases hzero with hid | hsize' | hcount
    · exact valid.id hid
    · exact hsize.mpr valid.size hsize'
    · -- no size cuts at least one byte into no chunks
      have hzero : max manifest.totalLen.toNat 1 ⌈/⌉ manifest.chunkSize.toNat ≤ 0 := by
        rw [valid.count, hcount]
        rfl
      rw [ceilDiv_le_iff_le_smul valid.size] at hzero
      simp at hzero
  · rename_i hzero
    rw [not_or, not_or] at hzero
    split
    · rename_i hcount
      exact iff_of_false (by simp) fun valid => hcount valid.count
    · rename_i hcount
      exact iff_of_true rfl ⟨hzero.1, hsize.mp hzero.2.1, not_not.mp hcount⟩

namespace SnapshotManifest.Valid

theorem covers (valid : manifest.Valid) :
    manifest.totalLen.toNat ≤ manifest.chunkCount.toNat * manifest.chunkSize.toNat := by
  have hle : max manifest.totalLen.toNat 1 ≤ manifest.chunkSize.toNat • manifest.chunkCount.toNat :=
    (ceilDiv_le_iff_le_smul valid.size).mp valid.count.le
  rw [smul_eq_mul, Nat.mul_comm] at hle
  exact le_trans (le_max_left _ _) hle

theorem start_le (valid : manifest.Valid) {i : ℕ} (h : i < manifest.chunkCount.toNat) :
    i * manifest.chunkSize.toNat ≤ manifest.totalLen.toNat := by
  by_contra hgt
  have hle : max manifest.totalLen.toNat 1 ⌈/⌉ manifest.chunkSize.toNat ≤ i := by
    rw [ceilDiv_le_iff_le_smul valid.size, smul_eq_mul, Nat.mul_comm]
    exact max_le (by omega) (by omega)
  rw [valid.count] at hle
  omega

end SnapshotManifest.Valid

/-- What a chunk must be to pass `validate_chunk`. -/
structure SnapshotChunk.Fits (sha256 : Bytes → Digest) (manifest : SnapshotManifest Digest)
    (chunk : SnapshotChunk Digest) : Prop where
  id : chunk.snapshotId = manifest.snapshotId
  index : chunk.index.toNat < manifest.chunkCount.toNat
  offset : chunk.offset.toNat = chunk.index.toNat * manifest.chunkSize.toNat
  length : chunk.data.length =
    pieceLength manifest.totalLen.toNat manifest.chunkSize.toNat chunk.index.toNat
  digest : sha256 chunk.data = chunk.digest

theorem mul_lt_size (a b : UInt32) : a.toNat * b.toNat < UInt64.size :=
  calc a.toNat * b.toNat ≤ (UInt32.size - 1) * (UInt32.size - 1) :=
        Nat.mul_le_mul (Nat.le_sub_one_of_lt a.toNat_lt) (Nat.le_sub_one_of_lt b.toNat_lt)
    _ < UInt64.size := by decide

theorem validateChunk_cases [DecidableEq Digest] (sha256 : Bytes → Digest)
    (manifest : SnapshotManifest Digest) (chunk : SnapshotChunk Digest) :
    (∃ error, validateChunk sha256 manifest chunk = some (.error error) ∧
      ¬chunk.Fits sha256 manifest) ∨
    (validateChunk sha256 manifest chunk = some (.ok ()) ∧ chunk.Fits sha256 manifest) := by
  rw [validateChunk]
  split
  · rename_i hbelongs
    refine .inl ⟨_, rfl, fun fits => ?_⟩
    rcases hbelongs with hid | hindex
    · exact hid fits.id
    · exact absurd fits.index (not_lt.mpr (UInt32.le_iff_toNat_le.mp hindex))
  · rename_i hbelongs
    rw [not_or, not_not, UInt32.not_le] at hbelongs
    simp only [if_neg (not_le.mpr (mul_lt_size chunk.index manifest.chunkSize))]
    split
    · exact .inl ⟨_, rfl, fun fits => absurd fits.offset ‹_›⟩
    · split
      · rename_i hlength
        exact .inl ⟨_, rfl, fun fits => hlength (fits.length.trans (min_comm _ _))⟩
      · split
        · exact .inl ⟨_, rfl, fun fits => absurd fits.digest ‹_›⟩
        · rename_i hoffset hlength hdigest
          exact .inr ⟨rfl, hbelongs.1, lt_iff_toNat_lt.mp hbelongs.2,
            not_not.mp hoffset, (not_not.mp hlength).trans (min_comm _ _), not_not.mp hdigest⟩

def numbers (chunks : List (SnapshotChunk Digest)) : List ℕ :=
  chunks.map fun chunk => chunk.index.toNat

variable {sha256 : Bytes → Digest} {chunks : List (SnapshotChunk Digest)}

section

variable (fits : ∀ chunk ∈ chunks, chunk.Fits sha256 manifest)
include fits

theorem numbers_subset_range :
    (numbers chunks).toFinset ⊆ Finset.range manifest.chunkCount.toNat := by
  intro i hi
  rw [List.mem_toFinset, numbers, List.mem_map] at hi
  obtain ⟨chunk, hchunk, rfl⟩ := hi
  exact Finset.mem_range.mpr (fits chunk hchunk).index

theorem length_le_chunkCount
    (distinct : (numbers chunks).Nodup) : chunks.length ≤ manifest.chunkCount.toNat := by
  have hcard := Finset.card_le_card (numbers_subset_range fits)
  rwa [List.toFinset_card_of_nodup distinct, Finset.card_range, numbers, List.length_map] at hcard

theorem sum_length_le_totalLen
    (distinct : (numbers chunks).Nodup) :
    (chunks.map fun chunk => chunk.data.length).sum ≤ manifest.totalLen.toNat := by
  let piece := pieceLength manifest.totalLen.toNat manifest.chunkSize.toNat
  have hlengths : (chunks.map fun chunk => chunk.data.length) = (numbers chunks).map piece := by
    rw [numbers, List.map_map]
    exact List.map_congr_left fun chunk hchunk => (fits chunk hchunk).length
  calc (chunks.map fun chunk => chunk.data.length).sum
      = ∑ i ∈ (numbers chunks).toFinset, piece i := by
        rw [hlengths, List.sum_toFinset piece distinct]
    _ ≤ ∑ i ∈ Finset.range manifest.chunkCount.toNat, piece i :=
        Finset.sum_le_sum_of_subset (numbers_subset_range fits)
    _ = min (manifest.chunkCount.toNat * manifest.chunkSize.toNat) manifest.totalLen.toNat :=
        sum_pieceLength _ _ _
    _ ≤ manifest.totalLen.toNat := min_le_right _ _

theorem exists_chunk_of_length_eq
    (distinct : (numbers chunks).Nodup) (all : chunks.length = manifest.chunkCount.toNat)
    {i : ℕ} (h : i < manifest.chunkCount.toNat) : ∃ chunk ∈ chunks, chunk.index.toNat = i := by
  have heq : (numbers chunks).toFinset = Finset.range manifest.chunkCount.toNat := by
    apply Finset.eq_of_subset_of_card_le (numbers_subset_range fits)
    rw [List.toFinset_card_of_nodup distinct, Finset.card_range, numbers, List.length_map, all]
  have hi : i ∈ (numbers chunks).toFinset := by
    rw [heq]
    exact Finset.mem_range.mpr h
  rwa [List.mem_toFinset, numbers, List.mem_map] at hi

end

end

/-! ## What a receiver holds -/

namespace SnapshotReceiver

variable {Digest : Type*} {sha256 : Bytes → Digest} {r : SnapshotReceiver Digest}
  {chunks : List (SnapshotChunk Digest)}

structure Holds (sha256 : Bytes → Digest) (r : SnapshotReceiver Digest)
    (chunks : List (SnapshotChunk Digest)) : Prop where
  valid : r.manifest.Valid
  bytes_length : r.bytes.length = r.manifest.totalLen.toNat
  received_length : r.received.length = r.manifest.chunkCount.toNat
  flags : r.verifiedChunks.toNat = r.received.count true
  number : r.verifiedChunks.toNat = chunks.length
  total : r.verifiedBytes.toNat = (chunks.map fun chunk => chunk.data.length).sum
  fits : ∀ chunk ∈ chunks, chunk.Fits sha256 r.manifest
  distinct : (numbers chunks).Nodup
  received : ∀ i, r.received[i]? = some true ↔ i ∈ numbers chunks
  content : ∀ chunk ∈ chunks, slice r.bytes chunk.offset.toNat chunk.data.length = chunk.data

namespace Holds

theorem new {manifest : SnapshotManifest Digest}
    (h : SnapshotReceiver.new manifest = .ok r) : r.manifest = manifest ∧ r.Holds sha256 [] := by
  rw [SnapshotReceiver.new] at h
  split at h
  · cases h
  · rename_i hvalid
    cases h
    refine ⟨rfl, validateManifest_ok_iff.mp hvalid, ?_, ?_, ?_, rfl, rfl, ?_, ?_, ?_, ?_⟩
    · exact List.length_replicate
    · exact List.length_replicate
    · simp [List.count_replicate]
    · simp
    · simp [numbers]
    · simp [List.getElem?_replicate, numbers]
    · simp

variable {chunk : SnapshotChunk Digest}

section

variable (holds : r.Holds sha256 chunks)
include holds

theorem stop_le (fits : chunk.Fits sha256 r.manifest) :
    chunk.offset.toNat + chunk.data.length ≤ r.bytes.length := by
  rw [fits.offset, fits.length, holds.bytes_length]
  exact pieceLength_le _ _ _ (holds.valid.start_le fits.index)

theorem distinct_append
    (fresh : r.received[chunk.index.toNat]? = some false) :
    (numbers (chunks ++ [chunk])).Nodup := by
  have hnot : chunk.index.toNat ∉ numbers chunks := by
    rw [← holds.received, fresh]
    simp
  rw [numbers, List.map_append, List.map_singleton, List.nodup_append]
  refine ⟨holds.distinct, List.nodup_singleton _, fun i hi j hj => ?_⟩
  rw [List.mem_singleton.mp hj]
  rintro rfl
  exact hnot hi

section

variable (fits : chunk.Fits sha256 r.manifest)
include fits

theorem fits_append : ∀ other ∈ chunks ++ [chunk], other.Fits sha256 r.manifest := by
  intro other hother
  rcases List.mem_append.mp hother with hold | hnew
  · exact holds.fits other hold
  · rw [List.mem_singleton.mp hnew]
    exact fits

theorem room
    (fresh : r.received[chunk.index.toNat]? = some false) :
    r.verifiedChunks.toNat + 1 < UInt32.size ∧
      r.verifiedBytes.toNat + chunk.data.length < UInt64.size := by
  have hchunks := length_le_chunkCount (holds.fits_append fits) (holds.distinct_append fresh)
  have hbytes := sum_length_le_totalLen (holds.fits_append fits) (holds.distinct_append fresh)
  rw [List.length_append, List.length_singleton, ← holds.number] at hchunks
  rw [List.map_append, List.sum_append, List.map_singleton, List.sum_singleton,
    ← holds.total] at hbytes
  exact ⟨lt_of_le_of_lt hchunks r.manifest.chunkCount.toNat_lt,
    lt_of_le_of_lt hbytes r.manifest.totalLen.toNat_lt⟩

theorem record
    (fresh : r.received[chunk.index.toNat]? = some false) :
    (r.record chunk).Holds sha256 (chunks ++ [chunk]) := by
  obtain ⟨hchunks, hbytes⟩ := holds.room fits fresh
  obtain ⟨hindex, hflag⟩ := List.getElem?_eq_some_iff.mp fresh
  have hnumber : (r.verifiedChunks + 1).toNat = r.verifiedChunks.toNat + 1 := by
    rw [UInt32.toNat_add]
    exact Nat.mod_eq_of_lt hchunks
  have htotal : (r.verifiedBytes + .ofNat chunk.data.length).toNat =
      r.verifiedBytes.toNat + chunk.data.length := by
    rw [UInt64.toNat_add, UInt64.toNat_ofNat_of_lt' (by omega)]
    exact Nat.mod_eq_of_lt hbytes
  refine ⟨holds.valid, ?_, ?_, ?_, ?_, ?_, holds.fits_append fits, holds.distinct_append fresh,
    fun i => ?_, fun other hother => ?_⟩
  · exact (length_writeAt (holds.stop_le fits)).trans holds.bytes_length
  · exact List.length_set.trans holds.received_length
  · change (r.verifiedChunks + 1).toNat = (r.received.set chunk.index.toNat true).count true
    rw [List.count_set hindex, hflag, hnumber, holds.flags]
    simp
  · change (r.verifiedChunks + 1).toNat = _
    rw [hnumber, holds.number, List.length_append, List.length_singleton]
  · change (r.verifiedBytes + .ofNat chunk.data.length).toNat = _
    rw [htotal, holds.total, List.map_append, List.sum_append, List.map_singleton,
      List.sum_singleton]
  · change (r.received.set chunk.index.toNat true)[i]? = some true ↔ _
    have hsplit : i ∈ numbers (chunks ++ [chunk]) ↔
        i ∈ numbers chunks ∨ i = chunk.index.toNat := by
      simp [numbers]
    rw [hsplit, ← holds.received i, List.getElem?_set]
    by_cases hi : chunk.index.toNat = i
    · simp [← hi, hindex]
    · simp [hi, Ne.symm hi]
  · rcases List.mem_append.mp hother with hold | hnew
    · -- the new chunk is written beside the old ones
      have hne : other.index.toNat ≠ chunk.index.toNat := by
        intro heq
        have hreceived := (holds.received other.index.toNat).mpr
          (List.mem_map.mpr ⟨other, hold, rfl⟩)
        rw [heq, fresh] at hreceived
        cases hreceived
      have hfits := holds.fits other hold
      have hcontent := holds.content other hold
      refine (slice_writeAt_of_disjoint (by rw [hcontent]) ?_).trans hcontent
      rw [hfits.offset, hfits.length, fits.offset, fits.length]
      exact pieces_disjoint _ _ hne
    · rw [List.mem_singleton.mp hnew]
      exact slice_writeAt 0 r.bytes chunk.data chunk.offset.toNat

end

theorem accept_cases [DecidableEq Digest]
    (chunk : SnapshotChunk Digest) :
    (∃ error, r.accept sha256 chunk = some (.error error, r) ∧
      (chunk.Fits sha256 r.manifest → r.received[chunk.index.toNat]? = some true ∧
        slice r.bytes chunk.offset.toNat chunk.data.length ≠ chunk.data)) ∨
    (r.accept sha256 chunk = some (.ok (), r) ∧ r.received[chunk.index.toNat]? = some true) ∨
    (r.accept sha256 chunk = some (.ok (), r.record chunk) ∧
      chunk.Fits sha256 r.manifest ∧ r.received[chunk.index.toNat]? = some false) := by
  rcases validateChunk_cases sha256 r.manifest chunk with ⟨error, hinvalid, hnot⟩ | ⟨hvalid, fits⟩
  · exact .inl ⟨error, by rw [accept, hinvalid], fun fits => absurd fits hnot⟩
  · have hstop := holds.stop_le fits
    have hsize : chunk.offset.toNat + chunk.data.length < UInt64.size := by
      rw [holds.bytes_length] at hstop
      exact lt_of_le_of_lt hstop r.manifest.totalLen.toNat_lt
    have hrange : ¬(UInt64.size ≤ chunk.offset.toNat + chunk.data.length ∨
        r.bytes.length < chunk.offset.toNat + chunk.data.length) := by
      omega
    have hindex : chunk.index.toNat < r.received.length := by
      rw [holds.received_length]
      exact fits.index
    rw [accept, hvalid]
    simp only [if_neg hrange]
    cases hflag : r.received[chunk.index.toNat]? with
    | none => exact absurd (List.getElem?_eq_none_iff.mp hflag) (not_le.mpr hindex)
    | some flag =>
      cases flag with
      | true =>
        simp only
        split
        · exact .inr (.inl ⟨rfl, trivial⟩)
        · exact .inl ⟨_, rfl, fun _ => ⟨trivial, ‹_›⟩⟩
      | false =>
        obtain ⟨hchunks, hbytes⟩ := holds.room fits hflag
        have hroom : ¬(UInt32.size ≤ r.verifiedChunks.toNat + 1 ∨
            UInt64.size ≤ r.verifiedBytes.toNat + chunk.data.length) := by
          omega
        simp only [if_neg hroom]
        exact .inr (.inr ⟨trivial, fits, trivial⟩)

theorem run [DecidableEq Digest]
    (incoming : List (SnapshotChunk Digest)) :
    ∃ t, Library.run (step sha256) r incoming = some t ∧ t.manifest = r.manifest ∧
      t.Holds sha256 (chunks ++ r.taken sha256 incoming) := by
  induction incoming generalizing r chunks with
  | nil => exact ⟨r, rfl, rfl, by simpa [taken] using holds⟩
  | cons chunk rest ih =>
    rcases holds.accept_cases chunk with ⟨error, heq, -⟩ | ⟨heq, hflag⟩ | ⟨heq, fits, hflag⟩
    · obtain ⟨t, hrun, hmanifest, hholds⟩ := ih holds
      refine ⟨t, run_cons_eq_some.mpr ⟨r, by rw [step, heq]; rfl, hrun⟩, hmanifest, ?_⟩
      simpa only [taken, heq] using hholds
    · obtain ⟨t, hrun, hmanifest, hholds⟩ := ih holds
      refine ⟨t, run_cons_eq_some.mpr ⟨r, by rw [step, heq]; rfl, hrun⟩, hmanifest, ?_⟩
      simpa only [taken, heq, hflag, if_true] using hholds
    · obtain ⟨t, hrun, hmanifest, hholds⟩ := ih (holds.record fits hflag)
      refine ⟨t, run_cons_eq_some.mpr ⟨_, by rw [step, heq]; rfl, hrun⟩, hmanifest, ?_⟩
      have htaken : r.taken sha256 (chunk :: rest) =
          chunk :: (r.record chunk).taken sha256 rest := by
        simp [taken, heq, hflag]
      rwa [htaken, List.append_cons]

end

end Holds

theorem verify_ok [DecidableEq Digest] {snapshotId : String} {snapshot : VerifiedSnapshot Digest}
    (h : r.verify sha256 snapshotId = .ok snapshot) :
    r.verifiedChunks.toNat = r.manifest.chunkCount.toNat ∧
      sha256 snapshot.bytes = r.manifest.digest ∧
      snapshot = ⟨r.manifest.snapshotId, r.bytes, r.manifest.digest⟩ := by
  rw [verify] at h
  split at h
  · cases h
  · rename_i hcomplete
    cases h
    rw [verifyComplete] at hcomplete
    split_ifs at hcomplete with hid hchunks hlength hdigest
    exact ⟨congrArg UInt32.toNat (not_not.mp hchunks), not_not.mp hdigest, rfl⟩

end SnapshotReceiver

/-- Whatever chunks a receiver is handed, no call panics, the counters are right, a rejected or
repeated chunk changes nothing, and `verify` succeeds only on all chunks with the right digest. -/
theorem receiver_safe {Digest : Type*} [DecidableEq Digest] (sha256 : Bytes → Digest)
    {manifest : SnapshotManifest Digest} {r : SnapshotReceiver Digest}
    (created : SnapshotReceiver.new manifest = .ok r) (incoming : List (SnapshotChunk Digest)) :
    ∃ t, run (SnapshotReceiver.step sha256) r incoming = some t ∧
      t.verifiedChunks.toNat = t.received.count true ∧
      t.verifiedBytes.toNat =
        ((r.taken sha256 incoming).map fun chunk => chunk.data.length).sum ∧
      t.verifiedBytes.toNat ≤ manifest.totalLen.toNat ∧
      (∀ chunk, ∃ result next, t.accept sha256 chunk = some (result, next) ∧
        (result ≠ .ok () ∨ t.received[chunk.index.toNat]? = some true → next = t)) ∧
      ∀ snapshotId snapshot, t.verify sha256 snapshotId = .ok snapshot →
        (∀ i < manifest.chunkCount.toNat,
          ∃ chunk ∈ r.taken sha256 incoming, chunk.index.toNat = i) ∧
        sha256 snapshot.bytes = manifest.digest := by
  obtain ⟨rfl, hempty⟩ : r.manifest = manifest ∧ r.Holds sha256 [] :=
    SnapshotReceiver.Holds.new created
  obtain ⟨t, hrun, hmanifest, holds⟩ := hempty.run incoming
  rw [List.nil_append] at holds
  refine ⟨t, hrun, holds.flags, holds.total, ?_, fun chunk => ?_, fun id snapshot hverify => ?_⟩
  · rw [holds.total, ← hmanifest]
    exact sum_length_le_totalLen holds.fits holds.distinct
  · rcases holds.accept_cases chunk with ⟨error, heq, -⟩ | ⟨heq, -⟩ | ⟨heq, -, hfresh⟩
    · exact ⟨_, _, heq, fun _ => rfl⟩
    · exact ⟨_, _, heq, fun _ => rfl⟩
    · refine ⟨_, _, heq, fun hsame => ?_⟩
      simp [hfresh] at hsame
  · obtain ⟨hall, hdigest, rfl⟩ := SnapshotReceiver.verify_ok hverify
    rw [← hmanifest]
    refine ⟨fun i hi => ?_, hdigest⟩
    exact exists_chunk_of_length_eq holds.fits holds.distinct (by rw [← hall, holds.number]) hi

def lengthDigest (bytes : Bytes) : ℕ := bytes.length

def smallManifest : SnapshotManifest ℕ := ⟨"s", 3, 2, 2, 3⟩

def smallReceiver : SnapshotReceiver ℕ :=
  ⟨smallManifest, [0, 0, 0], [false, false], 0, 0, [⟨"s", 0, 2, 0, 0, 0, 0, false⟩]⟩

def smallDelivery : List (SnapshotChunk ℕ) :=
  [⟨"s", 1, 2, [3], 1⟩, ⟨"other", 0, 0, [7], 1⟩, ⟨"s", 0, 0, [1, 2], 2⟩, ⟨"s", 0, 0, [1, 2], 2⟩]

theorem new_smallManifest : SnapshotReceiver.new smallManifest = .ok smallReceiver := by
  decide +kernel

theorem receiver_safe_small :
    ∃ t, run (SnapshotReceiver.step lengthDigest) smallReceiver smallDelivery = some t ∧
      t.verifiedChunks.toNat = t.received.count true := by
  obtain ⟨t, hrun, hflags, -⟩ := receiver_safe lengthDigest new_smallManifest smallDelivery
  exact ⟨t, hrun, hflags⟩

/-! ## Round trip -/

section

variable {Digest : Type*} {sha256 : Bytes → Digest} {manifest : SnapshotManifest Digest}
  {bytes : Bytes}

structure SnapshotManifest.Describes (sha256 : Bytes → Digest) (manifest : SnapshotManifest Digest)
    (bytes : Bytes) : Prop where
  valid : manifest.Valid
  length : manifest.totalLen.toNat = bytes.length
  digest : manifest.digest = sha256 bytes

theorem describes_of_fromBytes {snapshotId : String} {chunkSize : ℕ} (id : snapshotId ≠ "")
    (h : SnapshotManifest.fromBytes sha256 snapshotId bytes chunkSize = .ok manifest) :
    manifest.snapshotId = snapshotId ∧ manifest.Describes sha256 bytes := by
  rw [SnapshotManifest.fromBytes] at h
  split at h
  · cases h
  · rename_i hchunkSize
    simp only at h
    split at h
    · cases h
    · rename_i hcount
      cases h
      have hpos : 0 < chunkSize := by omega
      -- two factors below `2 ^ 32` bound the length
      have hcover : bytes.length < UInt64.size := by
        have hle : max bytes.length 1 ≤ chunkSize • (max bytes.length 1 ⌈/⌉ chunkSize) :=
          (ceilDiv_le_iff_le_smul hpos).mp le_rfl
        rw [smul_eq_mul] at hle
        calc bytes.length ≤ max bytes.length 1 := le_max_left _ _
          _ ≤ chunkSize * (max bytes.length 1 ⌈/⌉ chunkSize) := hle
          _ ≤ (UInt32.size - 1) * (UInt32.size - 1) := Nat.mul_le_mul (by omega) (by omega)
          _ < UInt64.size := by decide
      have hlength : (UInt64.ofNat bytes.length).toNat = bytes.length :=
        UInt64.toNat_ofNat_of_lt' hcover
      have hsize : (UInt32.ofNat chunkSize).toNat = chunkSize :=
        UInt32.toNat_ofNat_of_lt' (by omega)
      refine ⟨rfl, ⟨id, ?_, ?_⟩, hlength, rfl⟩
      · change 0 < (UInt32.ofNat chunkSize).toNat
        rwa [hsize]
      · change max (UInt64.ofNat bytes.length).toNat 1 ⌈/⌉ (UInt32.ofNat chunkSize).toNat = _
        rw [hlength, hsize]
        exact (UInt32.toNat_ofNat_of_lt' (by omega)).symm

def piece (sha256 : Bytes → Digest) (manifest : SnapshotManifest Digest) (bytes : Bytes)
    (index : UInt32) : SnapshotChunk Digest :=
  let data := slice bytes (index.toNat * manifest.chunkSize.toNat) manifest.chunkSize.toNat
  ⟨manifest.snapshotId, index, .ofNat (index.toNat * manifest.chunkSize.toNat), data, sha256 data⟩

namespace SnapshotManifest.Describes

variable (describes : manifest.Describes sha256 bytes)

include describes

theorem buildChunk_eq {index : UInt32} (h : index < manifest.chunkCount) :
    buildChunk sha256 manifest bytes index = .ok (piece sha256 manifest bytes index) := by
  have hlt := lt_iff_toNat_lt.mp h
  have hstart := describes.valid.start_le hlt
  rw [describes.length] at hstart
  rw [buildChunk]
  split
  · rename_i hempty
    -- no bytes make one chunk
    have hle : manifest.chunkCount.toNat ≤ 1 := by
      rw [← describes.valid.count, describes.length, hempty,
        ceilDiv_le_iff_le_smul describes.valid.size]
      have := describes.valid.size
      simp only [List.length_nil, smul_eq_mul]
      omega
    obtain rfl : index = 0 := by
      rw [← toNat_inj]
      change index.toNat = 0
      omega
    simp [piece, hempty, slice]
  · have hrange : ¬min (index.toNat * manifest.chunkSize.toNat + manifest.chunkSize.toNat)
        bytes.length < index.toNat * manifest.chunkSize.toNat := by
      omega
    have hslice : slice bytes (index.toNat * manifest.chunkSize.toNat)
        (min (index.toNat * manifest.chunkSize.toNat + manifest.chunkSize.toNat) bytes.length -
          index.toNat * manifest.chunkSize.toNat) =
        slice bytes (index.toNat * manifest.chunkSize.toNat) manifest.chunkSize.toNat := by
      rw [slice, slice, List.take_eq_take_iff, List.length_drop]
      omega
    simp only [if_neg hrange, hslice]
    rfl

theorem piece_fits {index : UInt32} (h : index < manifest.chunkCount) :
    (piece sha256 manifest bytes index).Fits sha256 manifest := by
  refine ⟨rfl, lt_iff_toNat_lt.mp h, ?_, ?_, rfl⟩
  · exact UInt64.toNat_ofNat_of_lt' (mul_lt_size index manifest.chunkSize)
  · rw [describes.length]
    exact length_slice _ _ _

end SnapshotManifest.Describes

/-- The chunk is one that `build_chunk` makes for the bytes. -/
def Genuine (sha256 : Bytes → Digest) (manifest : SnapshotManifest Digest) (bytes : Bytes)
    (chunk : SnapshotChunk Digest) : Prop :=
  ∃ index < manifest.chunkCount, buildChunk sha256 manifest bytes index = .ok chunk

theorem genuine_iff (describes : manifest.Describes sha256 bytes) {chunk : SnapshotChunk Digest} :
    Genuine sha256 manifest bytes chunk ↔
      chunk.index < manifest.chunkCount ∧ chunk = piece sha256 manifest bytes chunk.index := by
  constructor
  · rintro ⟨index, hindex, hbuild⟩
    rw [describes.buildChunk_eq hindex] at hbuild
    cases hbuild
    exact ⟨hindex, rfl⟩
  · rintro ⟨hindex, heq⟩
    exact ⟨chunk.index, hindex, by rw [describes.buildChunk_eq hindex, ← heq]⟩

namespace SnapshotReceiver

variable {r : SnapshotReceiver Digest} {chunks : List (SnapshotChunk Digest)}

theorem Holds.bytes_eq (holds : r.Holds sha256 chunks)
    (describes : r.manifest.Describes sha256 bytes)
    (genuine : ∀ chunk ∈ chunks, Genuine sha256 r.manifest bytes chunk)
    (all : ∀ i < r.manifest.chunkCount.toNat, i ∈ numbers chunks) : r.bytes = bytes := by
  have hlength : r.bytes.length = bytes.length := holds.bytes_length.trans describes.length
  have henough := holds.valid.covers
  rw [← holds.bytes_length] at henough
  apply eq_of_pieces hlength henough
  · intro i hi
    obtain ⟨chunk, hchunk, rfl⟩ := List.mem_map.mp (all i hi)
    have hfits := holds.fits chunk hchunk
    have hcontent := holds.content chunk hchunk
    obtain ⟨-, hpiece⟩ := (genuine_iff describes).mp (genuine chunk hchunk)
    have hdata : chunk.data = slice bytes (chunk.index.toNat * r.manifest.chunkSize.toNat)
        r.manifest.chunkSize.toNat := congrArg SnapshotChunk.data hpiece
    rw [hfits.offset, hfits.length, ← holds.bytes_length, hdata] at hcontent
    rw [hcontent, hlength, slice_pieceLength]

variable [DecidableEq Digest]

/-- The chunk is answered with an error. -/
def Rejects (sha256 : Bytes → Digest) (r : SnapshotReceiver Digest)
    (chunk : SnapshotChunk Digest) : Prop :=
  ∃ error next, r.accept sha256 chunk = some (.error error, next)

variable {chunk : SnapshotChunk Digest}

theorem Holds.accept_genuine (holds : r.Holds sha256 chunks)
    (describes : r.manifest.Describes sha256 bytes)
    (genuine : ∀ chunk ∈ chunks, Genuine sha256 r.manifest bytes chunk)
    (h : Genuine sha256 r.manifest bytes chunk) : ¬r.Rejects sha256 chunk := by
  obtain ⟨hindex, heq⟩ := (genuine_iff describes).mp h
  have hfits : chunk.Fits sha256 r.manifest := by
    rw [heq]
    exact describes.piece_fits hindex
  rintro ⟨error, next, hrejected⟩
  rcases holds.accept_cases chunk with ⟨error', haccept, hconflict⟩ | ⟨haccept, -⟩ | ⟨haccept, -⟩
  · obtain ⟨hreceived, hdata⟩ := hconflict hfits
    -- the chunk there has the same number, so it is the same chunk
    obtain ⟨other, hother, hnumber⟩ := List.mem_map.mp ((holds.received _).mp hreceived)
    obtain ⟨-, hpiece⟩ := (genuine_iff describes).mp (genuine other hother)
    rw [toNat_inj.mp hnumber, ← heq] at hpiece
    exact hdata (hpiece ▸ holds.content other hother)
  · cases haccept.symm.trans hrejected
  · cases haccept.symm.trans hrejected

structure HoldsGenuine (sha256 : Bytes → Digest) (manifest : SnapshotManifest Digest)
    (bytes : Bytes) (earlier : List (SnapshotChunk Digest)) (r : SnapshotReceiver Digest)
    (chunks : List (SnapshotChunk Digest)) : Prop where
  same : r.manifest = manifest
  holds : r.Holds sha256 chunks
  genuine : ∀ chunk ∈ chunks, Genuine sha256 manifest bytes chunk
  earlier : earlier ⊆ chunks

/-- After a call with a genuine chunk, or one that is rejected, the receiver still holds
genuine chunks only, and this one if it is genuine. -/
theorem HoldsGenuine.step (h : HoldsGenuine sha256 manifest bytes [] r chunks)
    (describes : manifest.Describes sha256 bytes)
    (honest : Genuine sha256 manifest bytes chunk ∨ r.Rejects sha256 chunk) :
    ∃ next now, step sha256 r chunk = some next ∧
      HoldsGenuine sha256 manifest bytes chunks next now ∧
      (Genuine sha256 manifest bytes chunk → chunk.index.toNat ∈ numbers now) := by
  obtain ⟨rfl, holds, genuine, -⟩ := h
  have hrefl : chunks ⊆ chunks := List.Subset.refl chunks
  rcases holds.accept_cases chunk with ⟨error, haccept, -⟩ | ⟨haccept, hflag⟩ |
    ⟨haccept, hfits, hflag⟩
  · refine ⟨r, chunks, by rw [SnapshotReceiver.step, haccept]; rfl, ⟨rfl, holds, genuine, hrefl⟩,
      fun hgenuine => ?_⟩
    exact absurd ⟨error, r, haccept⟩ (holds.accept_genuine describes genuine hgenuine)
  · exact ⟨r, chunks, by rw [SnapshotReceiver.step, haccept]; rfl, ⟨rfl, holds, genuine, hrefl⟩,
      fun _ => (holds.received _).mp hflag⟩
  · have hgenuine : Genuine sha256 r.manifest bytes chunk := by
      apply honest.resolve_right
      rintro ⟨error, next, hrejected⟩
      cases haccept.symm.trans hrejected
    refine ⟨r.record chunk, chunks ++ [chunk], by rw [SnapshotReceiver.step, haccept]; rfl,
      ⟨rfl, holds.record hfits hflag, fun other hother => ?_, List.subset_append_left _ _⟩,
      fun _ => by simp [numbers]⟩
    rcases List.mem_append.mp hother with hold | hnew
    · exact genuine other hold
    · rw [List.mem_singleton.mp hnew]
      exact hgenuine

theorem HoldsGenuine.run (h : HoldsGenuine sha256 manifest bytes [] r chunks)
    (describes : manifest.Describes sha256 bytes) {incoming : List (SnapshotChunk Digest)}
    (honest : Along (SnapshotReceiver.step sha256) (fun r chunk =>
      Genuine sha256 manifest bytes chunk ∨ r.Rejects sha256 chunk) r incoming) :
    ∃ t all, Library.run (SnapshotReceiver.step sha256) r incoming = some t ∧
      HoldsGenuine sha256 manifest bytes chunks t all ∧
      ∀ chunk ∈ incoming, Genuine sha256 manifest bytes chunk →
        chunk.index.toNat ∈ numbers all := by
  induction incoming generalizing r chunks with
  | nil =>
    exact ⟨r, chunks, rfl, ⟨h.same, h.holds, h.genuine, List.Subset.refl _⟩, by simp⟩
  | cons chunk rest ih =>
    obtain ⟨next, hnext⟩ : ∃ next, SnapshotReceiver.step sha256 r chunk = some next := by
      rcases h.holds.accept_cases chunk with ⟨_, haccept, -⟩ | ⟨haccept, -⟩ | ⟨haccept, -⟩ <;>
        exact ⟨_, by rw [SnapshotReceiver.step, haccept]; rfl⟩
    rw [along_cons hnext] at honest
    obtain ⟨_, now, hstep, hnow, hchunk⟩ := h.step describes honest.1
    cases hnext.symm.trans hstep
    obtain ⟨t, all, hrun, hall, hrest⟩ :=
      ih ⟨hnow.same, hnow.holds, hnow.genuine, List.nil_subset _⟩ honest.2
    refine ⟨t, all, run_cons_eq_some.mpr ⟨next, hstep, hrun⟩, ⟨hall.same, hall.holds,
      hall.genuine, List.Subset.trans hnow.earlier hall.earlier⟩, fun other hother hgenuine => ?_⟩
    rcases List.mem_cons.mp hother with rfl | hother
    · exact List.map_subset _ hall.earlier (hchunk hgenuine)
    · exact hrest other hother hgenuine

theorem step_manifest {next : SnapshotReceiver Digest} (h : r.step sha256 chunk = some next) :
    next.manifest = r.manifest := by
  obtain ⟨⟨result, next⟩, haccept, rfl⟩ := Option.map_eq_some_iff.mp h
  rw [accept] at haccept
  split at haccept
  · cases haccept
  · cases haccept
    rfl
  · simp only at haccept
    split at haccept
    · cases haccept
    · split at haccept
      · cases haccept
      · split at haccept <;> cases haccept <;> rfl
      · split at haccept <;> cases haccept
        rfl

theorem verify_eq_ok {snapshotId : String} (id : snapshotId = r.manifest.snapshotId)
    (all : r.verifiedChunks = r.manifest.chunkCount)
    (length : r.bytes.length = r.manifest.totalLen.toNat)
    (digest : sha256 r.bytes = r.manifest.digest) :
    r.verify sha256 snapshotId = .ok ⟨snapshotId, r.bytes, sha256 r.bytes⟩ := by
  simp [verify, verifyComplete, id, all, length, digest]

end SnapshotReceiver

end

/-- A receiver that is handed each chunk at least once, and rejects whatever else it is handed,
returns the bytes. -/
theorem snapshot_round_trip {Digest : Type*} [DecidableEq Digest] (sha256 : Bytes → Digest)
    {snapshotId : String} (id : snapshotId ≠ "") {bytes : Bytes} {chunkSize : ℕ}
    {manifest : SnapshotManifest Digest}
    (described : SnapshotManifest.fromBytes sha256 snapshotId bytes chunkSize = .ok manifest) :
    ∃ r, SnapshotReceiver.new manifest = .ok r ∧
      ∀ incoming, (∀ index < manifest.chunkCount, ∀ chunk,
          buildChunk sha256 manifest bytes index = .ok chunk → chunk ∈ incoming) →
        Along (SnapshotReceiver.step sha256) (fun r chunk =>
          Genuine sha256 manifest bytes chunk ∨ r.Rejects sha256 chunk) r incoming →
        ∃ t, run (SnapshotReceiver.step sha256) r incoming = some t ∧
          t.verify sha256 snapshotId = .ok ⟨snapshotId, bytes, sha256 bytes⟩ := by
  obtain ⟨rfl, describes⟩ := describes_of_fromBytes id described
  have hvalid := validateManifest_ok_iff.mpr describes.valid
  obtain ⟨r, hnew⟩ : ∃ r, SnapshotReceiver.new manifest = .ok r := by
    rw [SnapshotReceiver.new, hvalid]
    exact ⟨_, rfl⟩
  refine ⟨r, hnew, fun incoming hall honest => ?_⟩
  obtain ⟨hmanifest, hempty⟩ : r.manifest = manifest ∧ r.Holds sha256 [] :=
    SnapshotReceiver.Holds.new hnew
  have hstart : r.HoldsGenuine sha256 manifest bytes [] [] := ⟨hmanifest, hempty, by simp, by simp⟩
  obtain ⟨t, chunks, hrun, ⟨rfl, holds, genuine, -⟩, hcomplete⟩ := hstart.run describes honest
  -- every number below the count belongs to a chunk that was handed over
  have hnumbers : ∀ i < t.manifest.chunkCount.toNat, i ∈ numbers chunks := by
    intro i hi
    have hsize := lt_trans hi t.manifest.chunkCount.toNat_lt
    have hindex : UInt32.ofNat i < t.manifest.chunkCount := by
      rwa [lt_iff_toNat_lt, UInt32.toNat_ofNat_of_lt' hsize]
    have hbuild := describes.buildChunk_eq hindex
    have hmem := hcomplete _ (hall _ hindex _ hbuild) ⟨_, hindex, hbuild⟩
    rwa [piece, UInt32.toNat_ofNat_of_lt' hsize] at hmem
  have hcount : t.verifiedChunks = t.manifest.chunkCount := by
    rw [← toNat_inj, holds.number]
    apply le_antisymm (length_le_chunkCount holds.fits holds.distinct)
    have hsubset : Finset.range t.manifest.chunkCount.toNat ⊆ (numbers chunks).toFinset :=
      fun i hi => List.mem_toFinset.mpr (hnumbers i (Finset.mem_range.mp hi))
    have hcard := Finset.card_le_card hsubset
    rwa [Finset.card_range, List.toFinset_card_of_nodup holds.distinct, numbers,
      List.length_map] at hcard
  have hbytes := holds.bytes_eq describes genuine hnumbers
  refine ⟨t, hrun, ?_⟩
  have hverify := SnapshotReceiver.verify_eq_ok rfl hcount holds.bytes_length
    (by rw [hbytes, describes.digest])
  rwa [hbytes] at hverify

theorem snapshot_round_trip_small :
    ∃ t, run (SnapshotReceiver.step lengthDigest) smallReceiver smallDelivery = some t ∧
      t.verify lengthDigest "s" = .ok ⟨"s", [1, 2, 3], 3⟩ := by
  have hdescribed : SnapshotManifest.fromBytes lengthDigest "s" [1, 2, 3] 2 =
      .ok smallManifest := by
    decide +kernel
  have hbuild : buildChunk lengthDigest smallManifest [1, 2, 3] 0 = .ok ⟨"s", 0, 0, [1, 2], 2⟩ ∧
      buildChunk lengthDigest smallManifest [1, 2, 3] 1 = .ok ⟨"s", 1, 2, [3], 1⟩ := by
    decide +kernel
  obtain ⟨r, hnew, hall⟩ := snapshot_round_trip lengthDigest (by decide) hdescribed
  cases new_smallManifest.symm.trans hnew
  apply hall
  · intro index hindex chunk hchunk
    have hlt : index.toNat < 2 := lt_iff_toNat_lt.mp hindex
    have hcases : index = 0 ∨ index = 1 := by
      rw [← toNat_inj, ← toNat_inj]
      change index.toNat = 0 ∨ index.toNat = 1
      omega
    rcases hcases with rfl | rfl
    · cases hbuild.1.symm.trans hchunk
      decide
    · cases hbuild.2.symm.trans hchunk
      decide
  · have hgenuine : ∀ chunk : SnapshotChunk ℕ,
        chunk = ⟨"s", 0, 0, [1, 2], 2⟩ ∨ chunk = ⟨"s", 1, 2, [3], 1⟩ →
          Genuine lengthDigest smallManifest [1, 2, 3] chunk := by
      rintro chunk (rfl | rfl)
      · exact ⟨0, by decide, hbuild.1⟩
      · exact ⟨1, by decide, hbuild.2⟩
    -- a chunk for another snapshot is rejected by any receiver of this one
    have hforeign : ∀ r : SnapshotReceiver ℕ, r.manifest = smallManifest →
        r.Rejects lengthDigest ⟨"other", 0, 0, [7], 1⟩ := by
      intro r hmanifest
      exact ⟨_, _, by rw [SnapshotReceiver.accept, hmanifest]; rfl⟩
    refine Along.of_invariant (I := fun r => r.manifest = smallManifest)
      (G := fun _ chunk => chunk ∈ smallDelivery) ?_ ?_ rfl (along_of_forall fun _ _ => id)
    · exact fun r chunk next hmanifest _ hstep =>
        (SnapshotReceiver.step_manifest hstep).trans hmanifest
    · intro r chunk next hmanifest hchunk _
      simp only [smallDelivery, List.mem_cons, List.not_mem_nil, or_false] at hchunk
      rcases hchunk with rfl | rfl | rfl | rfl
      · exact .inl (hgenuine _ (.inr rfl))
      · exact .inr (hforeign r hmanifest)
      · exact .inl (hgenuine _ (.inl rfl))
      · exact .inl (hgenuine _ (.inl rfl))

end Chirps.Raft
