/-
# The snapshot file

A magic number, a version, checksummed chunks and an empty chunk, with the metadata in front of the
first. Serialization, CRC-32 and SHA-256 come from other crates and are parameters.
-/

import Chirps.Library.LittleEndian
import Chirps.RaftStorage.Types

namespace Chirps.RaftStorage

open Chirps.Library.LittleEndian
open List (append_assoc length_append length_take)

/-- What the storage uses of `bincode`, `crc32fast` and `sha2`. -/
structure SnapshotCodec where
  serialize : SnapshotMeta → Except String Bytes
  deserialize : Bytes → Except String SnapshotMeta
  crc32 : Bytes → UInt32
  sha256 : Bytes → Bytes

/-- Metadata survives its serialization, which is never empty and whose length fits
its 32-bit field. -/
structure SnapshotCodec.Faithful (codec : SnapshotCodec) : Prop where
  deserialize_serialize : ∀ info bytes, codec.serialize info = .ok bytes →
    codec.deserialize bytes = .ok info
  serialize_ne_nil : ∀ info, codec.serialize info ≠ .ok []
  serialize_fits : ∀ info bytes, codec.serialize info = .ok bytes → bytes.length < 256 ^ 4

/-- `SNAP_MAGIC`, the bytes of `SNAP`. -/
def snapMagic : Bytes := [83, 78, 65, 80]

def snapVersion : ℕ := 1

variable (codec : SnapshotCodec)

def encodeChunk (metaPart dataPart : Bytes) : Bytes :=
  toLe 4 metaPart.length ++ (toLe 4 dataPart.length ++
    (toLe 4 (codec.crc32 (metaPart ++ dataPart)).toNat ++ (metaPart ++ dataPart)))

/-- The loop of `encode_snapshot_file` on `data` behind `offset`; it runs at least once. -/
def encodeChunks (chunkSize : ℕ) : ℕ → Bytes → Bytes → Bytes
  | 0, _, _ => []
  | fuel + 1, metaPart, data =>
    encodeChunk codec metaPart (data.take chunkSize) ++
      if data.drop chunkSize = [] then []
      else encodeChunks chunkSize fuel [] (data.drop chunkSize)

def terminator : Bytes := toLe 4 0 ++ (toLe 4 0 ++ toLe 4 0)

def encodeSnapshotFile (info : SnapshotMeta) (data : Bytes) (chunkSize : ℕ) : Except String Bytes :=
  match codec.serialize info with
  | .error message => .error message
  | .ok metaBytes =>
    .ok (snapMagic ++ (toLe 4 snapVersion ++
      (encodeChunks codec (max chunkSize 1) (data.length + 1) metaBytes data ++ terminator)))

/-- The loop of `get_current_snapshot`: the metadata bytes, the data and the rest. -/
def readChunks : ℕ → Bytes → Option Bytes → Bytes → Except String (Option Bytes × Bytes × Bytes)
  | 0, _, _, _ => .error "snapshot truncated"
  | fuel + 1, bytes, metaBytes, data =>
    if bytes.length < 12 then .error "snapshot truncated"
    else
      let metaLen := ofLe (bytes.take 4)
      let dataLen := ofLe ((bytes.drop 4).take 4)
      let checksum := ofLe ((bytes.drop 8).take 4)
      let rest := bytes.drop 12
      if metaLen = 0 ∧ dataLen = 0 then
        if checksum ≠ 0 then .error "invalid terminator checksum" else .ok (metaBytes, data, rest)
      else if rest.length < metaLen + dataLen then .error "snapshot truncated"
      else
        let body := rest.take (metaLen + dataLen)
        if (codec.crc32 body).toNat ≠ checksum then .error "snapshot checksum mismatch"
        else
          readChunks fuel (rest.drop (metaLen + dataLen))
            (if 0 < metaLen then some (body.take metaLen) else metaBytes)
            (data ++ body.drop metaLen)

/-- Every turn of the loop uses up twelve bytes, so the length of the file is fuel enough. -/
def readSnapshotFile (bytes : Bytes) : Except String Snapshot :=
  if bytes.length < 20 ∨ bytes.take 4 ≠ snapMagic then .error "invalid snapshot header"
  else
    let version := ofLe ((bytes.drop 4).take 4)
    if version ≠ snapVersion then
      .error s!"snapshot format version mismatch: expected {snapVersion}, got {version}"
    else
      match readChunks codec bytes.length (bytes.drop 8) none [] with
      | .error message => .error message
      | .ok (metaBytes, data, rest) =>
        if rest ≠ [] then .error "snapshot has trailing bytes"
        else
          match metaBytes with
          | none => .error "snapshot meta missing"
          | some metaBytes =>
            match codec.deserialize metaBytes with
            | .error message => .error message
            | .ok info => .ok ⟨info, data⟩

/-! ## Round trip -/

variable {codec}

theorem length_encodeChunk (metaPart dataPart : Bytes) :
    (encodeChunk codec metaPart dataPart).length = 12 + (metaPart.length + dataPart.length) := by
  simp only [encodeChunk, length_append, length_toLe]
  omega

theorem readChunks_numbers {a b c : ℕ} (ha : a < 256 ^ 4) (hb : b < 256 ^ 4) (hc : c < 256 ^ 4)
    (nonempty : ¬(a = 0 ∧ b = 0)) (rest : Bytes) (fuel : ℕ) (metaBytes : Option Bytes)
    (data : Bytes) :
    readChunks codec (fuel + 1) (toLe 4 a ++ (toLe 4 b ++ (toLe 4 c ++ rest))) metaBytes data =
      if rest.length < a + b then .error "snapshot truncated"
      else if (codec.crc32 (rest.take (a + b))).toNat ≠ c then .error "snapshot checksum mismatch"
      else readChunks codec fuel (rest.drop (a + b))
        (if 0 < a then some ((rest.take (a + b)).take a) else metaBytes)
        (data ++ (rest.take (a + b)).drop a) := by
  have hnumbers : let bytes := toLe 4 a ++ (toLe 4 b ++ (toLe 4 c ++ rest))
      bytes.take 4 = toLe 4 a ∧ (bytes.drop 4).take 4 = toLe 4 b ∧
        (bytes.drop 8).take 4 = toLe 4 c ∧ bytes.drop 12 = rest := by
    simp [toLe]
  obtain ⟨hfirst, hsecond, hthird, hfourth⟩ := hnumbers
  rw [readChunks, if_neg (by simp only [length_append, length_toLe]; omega)]
  simp only [hfirst, hsecond, hthird, hfourth, ofLe_toLe_of_lt ha, ofLe_toLe_of_lt hb,
    ofLe_toLe_of_lt hc, if_neg nonempty]

structure ChunkFits (metaPart dataPart : Bytes) : Prop where
  nonempty : ¬(metaPart.length = 0 ∧ dataPart.length = 0)
  metaFits : metaPart.length < 256 ^ 4
  dataFits : dataPart.length < 256 ^ 4

variable {chunkSize n fuel : ℕ} {metaPart dataPart data chunks : Bytes}

section

variable (fits : ChunkFits metaPart dataPart)
include fits

theorem readChunks_encodeChunk (fuel : ℕ) (rest : Bytes)
    (metaBytes : Option Bytes) (data : Bytes) :
    readChunks codec (fuel + 1) (encodeChunk codec metaPart dataPart ++ rest) metaBytes data =
      readChunks codec fuel rest (if 0 < metaPart.length then some metaPart else metaBytes)
        (data ++ dataPart) := by
  simp only [encodeChunk, append_assoc]
  rw [readChunks_numbers fits.metaFits fits.dataFits (UInt32.toNat_lt _) fits.nonempty,
    ← append_assoc, ← length_append, List.take_left, List.drop_left, List.take_left,
    List.drop_left, if_neg (by simp), if_neg (by simp)]

theorem readChunks_take_encodeChunk
    (cut : n < (encodeChunk codec metaPart dataPart).length) (fuel : ℕ) (metaBytes : Option Bytes)
    (data : Bytes) :
    readChunks codec fuel ((encodeChunk codec metaPart dataPart).take n) metaBytes data =
      .error "snapshot truncated" := by
  rw [length_encodeChunk] at cut
  rcases fuel with _ | fuel
  · rfl
  by_cases hshort : n < 12
  · rw [readChunks, if_pos]
    rw [length_take]
    omega
  · -- the three numbers are there, and they announce more than there is
    have htake : (encodeChunk codec metaPart dataPart).take n =
        toLe 4 metaPart.length ++ (toLe 4 dataPart.length ++
          (toLe 4 (codec.crc32 (metaPart ++ dataPart)).toNat ++
            (metaPart ++ dataPart).take (n - 12))) := by
      simp only [encodeChunk, List.take_append, length_toLe]
      rw [List.take_of_length_le (by rw [length_toLe]; omega),
        List.take_of_length_le (by rw [length_toLe]; omega),
        List.take_of_length_le (by rw [length_toLe]; omega)]
      congr 4
    rw [htake, readChunks_numbers fits.metaFits fits.dataFits (UInt32.toNat_lt _) fits.nonempty,
      if_pos]
    rw [length_take, length_append]
    omega

theorem readChunks_take_append {rest : Bytes}
    (behind : ∀ k < rest.length, ∀ fuel metaBytes data,
      readChunks codec fuel (rest.take k) metaBytes data = .error "snapshot truncated")
    (cut : n < (encodeChunk codec metaPart dataPart ++ rest).length) (fuel : ℕ)
    (metaBytes : Option Bytes) (data : Bytes) :
    readChunks codec fuel ((encodeChunk codec metaPart dataPart ++ rest).take n) metaBytes data =
      .error "snapshot truncated" := by
  by_cases hinside : n < (encodeChunk codec metaPart dataPart).length
  · rw [List.take_append_of_le_length (Nat.le_of_lt hinside)]
    exact readChunks_take_encodeChunk fits hinside fuel metaBytes data
  · obtain ⟨k, rfl⟩ := Nat.exists_eq_add_of_le (Nat.le_of_not_lt hinside)
    rw [length_append] at cut
    rw [List.take_length_add_append]
    rcases fuel with _ | fuel
    · rfl
    · rw [readChunks_encodeChunk fits]
      exact behind k (Nat.lt_of_add_lt_add_left cut) _ _ _

end

theorem readChunks_terminator (fuel : ℕ) (metaBytes : Option Bytes) (data after : Bytes) :
    readChunks codec (fuel + 1) (terminator ++ after) metaBytes data =
      .ok (metaBytes, data, after) := by
  rfl

inductive Chunked (codec : SnapshotCodec) : Bytes → Bytes → Bytes → Prop
  | last {metaPart data : Bytes} (fits : ChunkFits metaPart data) :
      Chunked codec metaPart data (encodeChunk codec metaPart data)
  | more {metaPart dataPart data chunks : Bytes} (fits : ChunkFits metaPart dataPart)
      (rest : Chunked codec [] data chunks) :
      Chunked codec metaPart (dataPart ++ data) (encodeChunk codec metaPart dataPart ++ chunks)

theorem chunked_encodeChunks (hpos : 0 < chunkSize) (hlength : data.length < fuel)
    (nonempty : metaPart ++ data ≠ []) (metaFits : metaPart.length < 256 ^ 4)
    (dataFits : min chunkSize data.length < 256 ^ 4) :
    Chunked codec metaPart data (encodeChunks codec chunkSize fuel metaPart data) := by
  induction fuel generalizing metaPart data with
  | zero => exact absurd hlength (Nat.not_lt_zero _)
  | succ fuel ih =>
    have hempty : ¬(metaPart.length = 0 ∧ data.length = 0) := by
      simpa [List.append_eq_nil_iff] using nonempty
    have hchunk : ChunkFits metaPart (data.take chunkSize) := by
      refine ⟨?_, metaFits, ?_⟩ <;> rw [length_take]
      · omega
      · exact dataFits
    rw [encodeChunks]
    by_cases hdrop : data.drop chunkSize = []
    · rw [List.take_of_length_le (List.drop_eq_nil_iff.mp hdrop)] at hchunk ⊢
      rw [if_pos hdrop, List.append_nil]
      exact .last hchunk
    · have hlong : chunkSize < data.length := by
        rw [List.drop_eq_nil_iff] at hdrop
        omega
      have hrest : Chunked codec [] (data.drop chunkSize) _ :=
        ih (by rw [List.length_drop]; omega) hdrop (by simp) (by rw [List.length_drop]; omega)
      rw [if_neg hdrop]
      nth_rewrite 1 [← List.take_append_drop chunkSize data]
      exact .more hchunk hrest

theorem Chunked.readChunks (chunked : Chunked codec metaPart data chunks) (after : Bytes)
    (hfuel : chunks.length < fuel) (metaBytes : Option Bytes) (before : Bytes) :
    readChunks codec fuel (chunks ++ (terminator ++ after)) metaBytes before =
      .ok (if 0 < metaPart.length then some metaPart else metaBytes, before ++ data, after) := by
  induction chunked generalizing fuel metaBytes before with
  | last fits =>
    rw [length_encodeChunk] at hfuel
    obtain ⟨fuel, rfl⟩ : ∃ n, fuel = n + 2 := ⟨fuel - 2, by omega⟩
    rw [readChunks_encodeChunk fits, readChunks_terminator]
  | more fits rest ih =>
    rw [length_append, length_encodeChunk] at hfuel
    obtain ⟨fuel, rfl⟩ : ∃ n, fuel = n + 1 := ⟨fuel - 1, by omega⟩
    rw [append_assoc, readChunks_encodeChunk fits, ih (by omega), if_neg (by simp),
      append_assoc]

theorem Chunked.readChunks_take (chunked : Chunked codec metaPart data chunks)
    (cut : n < (chunks ++ terminator).length) (fuel : ℕ) (metaBytes : Option Bytes)
    (before : Bytes) :
    RaftStorage.readChunks codec fuel ((chunks ++ terminator).take n) metaBytes before =
      .error "snapshot truncated" := by
  induction chunked generalizing n fuel metaBytes before with
  | last fits =>
    refine readChunks_take_append fits
      (fun k hk fuel metaBytes data => ?_) cut fuel metaBytes before
    rcases fuel with _ | fuel
    · rfl
    · rw [RaftStorage.readChunks, if_pos]
      rw [length_take]
      exact Nat.lt_of_le_of_lt (Nat.min_le_left _ _) hk
  | more fits rest ih =>
    rw [append_assoc] at cut ⊢
    exact readChunks_take_append fits (fun k => ih) cut fuel metaBytes before

variable {info : SnapshotMeta} {file : Bytes}

theorem exists_serialize_of_encode
    (written : encodeSnapshotFile codec info data chunkSize = .ok file) :
    ∃ metaBytes, codec.serialize info = .ok metaBytes := by
  rw [encodeSnapshotFile] at written
  cases serialized : codec.serialize info with
  | error message => simp [serialized] at written
  | ok metaBytes => exact ⟨metaBytes, rfl⟩

def snapHeader : Bytes := snapMagic ++ toLe 4 snapVersion

theorem length_snapHeader : snapHeader.length = 8 := by rfl

variable {metaBytes : Bytes}

theorem eq_of_encodeSnapshotFile (serialized : codec.serialize info = .ok metaBytes)
    (written : encodeSnapshotFile codec info data chunkSize = .ok file) :
    file = snapHeader ++
      (encodeChunks codec (max chunkSize 1) (data.length + 1) metaBytes data ++ terminator) := by
  rw [encodeSnapshotFile, serialized] at written
  exact (Except.ok.inj written).symm

theorem readSnapshotFile_snapHeader {body : Bytes} (long : 12 ≤ body.length) :
    readSnapshotFile codec (snapHeader ++ body) =
      match readChunks codec (8 + body.length) body none [] with
      | .error message => .error message
      | .ok (metaBytes, data, rest) =>
        if rest ≠ [] then .error "snapshot has trailing bytes"
        else
          match metaBytes with
          | none => .error "snapshot meta missing"
          | some metaBytes =>
            match codec.deserialize metaBytes with
            | .error message => .error message
            | .ok info => .ok ⟨info, data⟩ := by
  have hlength : (snapHeader ++ body).length = 8 + body.length := by
    rw [length_append, length_snapHeader]
  have hheader : ¬((snapHeader ++ body).length < 20 ∨ (snapHeader ++ body).take 4 ≠ snapMagic) := by
    rw [not_or, hlength]
    exact ⟨by omega, by simp [snapHeader, snapMagic]⟩
  have hversion : ofLe (((snapHeader ++ body).drop 4).take 4) = snapVersion := by rfl
  have hbody : (snapHeader ++ body).drop 8 = body := by rfl
  rw [readSnapshotFile, if_neg hheader]
  simp only [hversion, hbody, hlength, ne_eq, not_true_eq_false, if_false]

theorem readSnapshotFile_append (serialized : codec.serialize info = .ok metaBytes)
    (deserialized : codec.deserialize metaBytes = .ok info) (nonempty : metaBytes ≠ [])
    (metaFits : metaBytes.length < 256 ^ 4) (dataFits : min (max chunkSize 1) data.length < 256 ^ 4)
    (written : encodeSnapshotFile codec info data chunkSize = .ok file) (after : Bytes) :
    readSnapshotFile codec (file ++ after) =
      if after ≠ [] then .error "snapshot has trailing bytes" else .ok ⟨info, data⟩ := by
  obtain rfl := eq_of_encodeSnapshotFile serialized written
  have hmeta : 0 < metaBytes.length := List.length_pos_iff.mpr nonempty
  have hchunked : Chunked codec metaBytes data
      (encodeChunks codec (max chunkSize 1) (data.length + 1) metaBytes data) :=
    chunked_encodeChunks (by omega) (Nat.lt_succ_self _) (by simp [nonempty]) metaFits dataFits
  set chunks := encodeChunks codec (max chunkSize 1) (data.length + 1) metaBytes data
  have hlength :
      (chunks ++ (terminator ++ after)).length = chunks.length + (12 + after.length) := by
    rw [length_append, length_append]
    rfl
  have hfuel : chunks.length < 8 + (chunks ++ (terminator ++ after)).length := by omega
  have hlong : 12 ≤ (chunks ++ (terminator ++ after)).length := by omega
  rw [append_assoc, append_assoc, readSnapshotFile_snapHeader hlong,
    hchunked.readChunks after hfuel none []]
  simp only [if_pos hmeta, deserialized, List.nil_append]

theorem readSnapshotFile_encodeSnapshotFile (faithful : codec.Faithful)
    (chunkFits : chunkSize < 256 ^ 4)
    (written : encodeSnapshotFile codec info data chunkSize = .ok file) :
    readSnapshotFile codec file = .ok ⟨info, data⟩ := by
  obtain ⟨metaBytes, serialized⟩ := exists_serialize_of_encode written
  have hnonempty : metaBytes ≠ [] := by
    rintro rfl
    exact faithful.serialize_ne_nil info serialized
  have hread := readSnapshotFile_append serialized
    (faithful.deserialize_serialize info metaBytes serialized) hnonempty
    (faithful.serialize_fits info metaBytes serialized) (by omega) written []
  rwa [List.append_nil, if_neg (by simp)] at hread

theorem readSnapshotFile_take (serialized : codec.serialize info = .ok metaBytes)
    (nonempty : metaBytes ≠ []) (metaFits : metaBytes.length < 256 ^ 4)
    (dataFits : min (max chunkSize 1) data.length < 256 ^ 4)
    (written : encodeSnapshotFile codec info data chunkSize = .ok file) {n : ℕ}
    (cut : n < file.length) : ∃ message, readSnapshotFile codec (file.take n) = .error message := by
  obtain rfl := eq_of_encodeSnapshotFile serialized written
  rw [length_append, length_snapHeader] at cut
  by_cases hshort : n < 20
  · refine ⟨"invalid snapshot header", ?_⟩
    rw [readSnapshotFile, if_pos]
    left
    rw [length_take]
    omega
  · obtain ⟨k, rfl⟩ : ∃ k, n = snapHeader.length + k := ⟨n - 8, by rw [length_snapHeader]; omega⟩
    rw [length_snapHeader] at cut hshort
    have hchunked : Chunked codec metaBytes data
        (encodeChunks codec (max chunkSize 1) (data.length + 1) metaBytes data) :=
      chunked_encodeChunks (by omega) (Nat.lt_succ_self _) (by simp [nonempty]) metaFits dataFits
    set chunks := encodeChunks codec (max chunkSize 1) (data.length + 1) metaBytes data
    have hlong : 12 ≤ ((chunks ++ terminator).take k).length := by
      rw [length_take]
      omega
    rw [List.take_length_add_append, readSnapshotFile_snapHeader hlong,
      hchunked.readChunks_take (Nat.lt_of_add_lt_add_left cut)]
    exact ⟨_, rfl⟩

end Chirps.RaftStorage
