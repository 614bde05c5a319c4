/-
# Transfer manifests

A manifest describes a file as a list of chunks, each with its place in the file. A receiver checks
their indices and the sum of their sizes, not the offsets; that they follow from the sizes is a
property of its own (`Tiled`).
-/

import Chirps.Library.Patch

namespace Chirps.FileTransfer

abbrev Bytes := List UInt8

inductive HashAlgorithm
  | sha256
  | blake3
  | xxHash64
  deriving DecidableEq

/-- The options of a transfer that the receiving side reads, with their defaults. -/
structure TransferOptions where
  verifyOnComplete : Bool := true
  hashAlgorithm : HashAlgorithm := .sha256
  resumable : Bool := true
  overwrite : Bool := false
  followSymlinks : Bool := false
  deriving DecidableEq

structure ChunkMeta where
  index : ℕ
  offset : ℕ
  size : ℕ
  checksum : UInt64
  deriving DecidableEq

structure TransferManifest (κ : Type*) where
  version : ℕ
  sessionId : κ
  sourcePath : String
  destPath : String
  fileSize : ℕ
  fileHash : Bytes
  hashAlgorithm : HashAlgorithm
  chunkSize : ℕ
  chunkCount : ℕ
  chunks : List ChunkMeta
  options : TransferOptions
  deriving DecidableEq

inductive ManifestError
  | unsupportedVersion (version : ℕ)
  | chunkCountMismatch (expected actual : ℕ)
  | chunkIndexMismatch (expected actual : ℕ)
  | sizeMismatch (expected actual : ℕ)

def ManifestError.text : ManifestError → String
  | .unsupportedVersion version => "unsupported manifest version " ++ toString version
  | .chunkCountMismatch expected actual =>
    "chunk count mismatch: expected " ++ toString expected ++ ", got " ++ toString actual
  | .chunkIndexMismatch expected actual =>
    "chunk index mismatch: expected " ++ toString expected ++ ", got " ++ toString actual
  | .sizeMismatch expected actual =>
    "size mismatch: expected " ++ toString expected ++ ", got " ++ toString actual

/-- Each chunk begins where the one before it ends. -/
def TiledFrom : ℕ → List ChunkMeta → Prop
  | _, [] => True
  | start, chunk :: rest => chunk.offset = start ∧ TiledFrom (start + chunk.size) rest

instance TiledFrom.decidable : ∀ start chunks, Decidable (TiledFrom start chunks)
  | _, [] => isTrue trivial
  | start, chunk :: rest =>
    have := TiledFrom.decidable (start + chunk.size) rest
    inferInstanceAs (Decidable (chunk.offset = start ∧ TiledFrom (start + chunk.size) rest))

namespace TiledFrom

variable {start i j : ℕ} {chunks : List ChunkMeta} {chunk other : ChunkMeta}

theorem offset_eq (tiled : TiledFrom start chunks) (h : chunks[i]? = some chunk) :
    chunk.offset = start + ((chunks.take i).map ChunkMeta.size).sum := by
  induction chunks generalizing start i with
  | nil => simp at h
  | cons first rest ih =>
    cases i with
    | zero =>
      cases h
      simpa using tiled.1
    | succ i =>
      rw [ih tiled.2 (by simpa using h), List.take_succ_cons, List.map_cons, List.sum_cons]
      omega

theorem end_eq (tiled : TiledFrom start chunks) (h : chunks[i]? = some chunk) :
    chunk.offset + chunk.size = start + ((chunks.take (i + 1)).map ChunkMeta.size).sum := by
  rw [tiled.offset_eq h, List.take_add_one, h, Option.toList_some, List.map_append,
    List.sum_append, List.map_singleton, List.sum_singleton, Nat.add_assoc]

theorem sum_take_le {m n : ℕ} (h : m ≤ n) :
    ((chunks.take m).map ChunkMeta.size).sum ≤ ((chunks.take n).map ChunkMeta.size).sum :=
  List.Sublist.sum_le_sum (((List.take_sublist_take_left h)).map _) fun _ _ => Nat.zero_le _

section

variable (tiled : TiledFrom start chunks)
include tiled

theorem end_le_offset (h : chunks[i]? = some chunk)
    (hother : chunks[j]? = some other) (hlt : i < j) :
    chunk.offset + chunk.size ≤ other.offset := by
  rw [tiled.end_eq h, tiled.offset_eq hother]
  exact Nat.add_le_add_left (sum_take_le hlt) start

theorem disjoint (h : chunks[i]? = some chunk)
    (hother : chunks[j]? = some other) (hne : i ≠ j) :
    chunk.offset + chunk.size ≤ other.offset ∨ other.offset + other.size ≤ chunk.offset := by
  rcases Nat.lt_or_gt_of_ne hne with hlt | hgt
  · exact .inl (tiled.end_le_offset h hother hlt)
  · exact .inr (tiled.end_le_offset hother h hgt)

theorem end_le (h : chunks[i]? = some chunk) :
    chunk.offset + chunk.size ≤ start + (chunks.map ChunkMeta.size).sum := by
  have hlt : i < chunks.length := (List.getElem?_eq_some_iff.mp h).1
  have hsum : ((chunks.take (i + 1)).map ChunkMeta.size).sum ≤
      ((chunks.take chunks.length).map ChunkMeta.size).sum := sum_take_le hlt
  rw [List.take_length] at hsum
  rw [tiled.end_eq h]
  exact Nat.add_le_add_left hsum start

end

end TiledFrom

namespace TransferManifest

variable {κ : Type*}

def currentVersion : ℕ := 2

def usesTrailingIntegrity (m : TransferManifest κ) : Bool := 2 ≤ m.version

def totalSize : ℕ → ℕ → List ChunkMeta → Except ManifestError ℕ
  | _, total, [] => .ok total
  | i, total, chunk :: rest =>
    -- the offset of a chunk is not looked at
    if chunk.index ≠ i then .error (.chunkIndexMismatch i chunk.index)
    else totalSize (i + 1) (total + chunk.size) rest

def validate (m : TransferManifest κ) : Except ManifestError Unit :=
  if currentVersion < m.version then .error (.unsupportedVersion m.version)
  else if m.chunks.length ≠ m.chunkCount then
    .error (.chunkCountMismatch m.chunkCount m.chunks.length)
  else
    match totalSize 0 0 m.chunks with
    | .error error => .error error
    | .ok total => if total ≠ m.fileSize then .error (.sizeMismatch m.fileSize total) else .ok ()

def Tiled (m : TransferManifest κ) : Prop := TiledFrom 0 m.chunks

instance (m : TransferManifest κ) : Decidable m.Tiled := TiledFrom.decidable 0 m.chunks

theorem totalSize_eq_ok {i total n : ℕ} {chunks : List ChunkMeta}
    (h : totalSize i total chunks = .ok n) : n = total + (chunks.map ChunkMeta.size).sum := by
  induction chunks generalizing i total with
  | nil =>
    obtain rfl : total = n := by simpa [totalSize] using h
    simp
  | cons chunk rest ih =>
    rw [totalSize] at h
    split at h
    · cases h
    · rw [ih h, List.map_cons, List.sum_cons, Nat.add_assoc]

structure Sized (m : TransferManifest κ) : Prop where
  count : m.chunks.length = m.chunkCount
  total : (m.chunks.map ChunkMeta.size).sum = m.fileSize

theorem sized_of_validate {m : TransferManifest κ} (h : m.validate = .ok ()) : m.Sized := by
  rw [validate] at h
  split at h
  · cases h
  split at h
  · cases h
  rename_i hcount
  split at h
  · cases h
  rename_i total htotal
  split at h
  · cases h
  rename_i hsize
  refine ⟨not_not.mp hcount, ?_⟩
  rw [← not_not.mp hsize, totalSize_eq_ok htotal, Nat.zero_add]

end TransferManifest

end Chirps.FileTransfer
