/-
# Reading a snapshot file by offsets

`get_current_snapshot` moves an offset over the bytes and slices. Here each addition and slice may
fail, as it panics in the source. None does: the result is the one of the reader that takes chunks
off the front.
-/

import Chirps.RaftStorage.LogView

namespace Chirps.RaftStorage

open Chirps.Library.LittleEndian
open Option (bind_some)

/-- A `Vec<u8>`, which is no longer than `isize::MAX`. -/
structure FileBytes where
  bytes : Bytes
  fits : bytes.length < 2 ^ 63

/-- `a + b` for `usize`, or `none` where it overflows. -/
def addUsize (a b : ℕ) : Option ℕ := if a + b < UInt64.size then some (a + b) else none

/-- `bytes[start..stop]`, or `none` where it panics. -/
def byteRange (bytes : Bytes) (start stop : ℕ) : Option Bytes :=
  if start ≤ stop ∧ stop ≤ bytes.length then some ((bytes.drop start).take (stop - start)) else none

/-- The loop of `get_current_snapshot`: the metadata bytes, the data and the offset behind. -/
def readFrames (codec : SnapshotCodec) (bytes : Bytes) :
    ℕ → ℕ → Option Bytes → Bytes → Option (Except String (Option Bytes × Bytes × ℕ))
  | 0, _, _, _ => none
  | turns + 1, offset, metaBytes, data => do
    let header ← addUsize offset 12
    if bytes.length < header then some (.error "snapshot truncated")
    else
      let metaLen := ofLe (← byteRange bytes offset (offset + 4))
      let dataLen := ofLe (← byteRange bytes (offset + 4) (offset + 8))
      let checksum := ofLe (← byteRange bytes (offset + 8) (offset + 12))
      if metaLen = 0 ∧ dataLen = 0 then
        if checksum ≠ 0 then some (.error "invalid terminator checksum")
        else some (.ok (metaBytes, data, header))
      else
        let metaEnd ← addUsize header metaLen
        let stop ← addUsize metaEnd dataLen
        if bytes.length < stop then some (.error "snapshot truncated")
        else
          let body ← byteRange bytes header stop
          if (codec.crc32 body).toNat ≠ checksum then some (.error "snapshot checksum mismatch")
          else
            let metaPart ← byteRange body 0 metaLen
            let dataPart ← byteRange body metaLen body.length
            readFrames codec bytes turns stop
              (if 0 < metaLen then some metaPart else metaBytes) (data ++ dataPart)

/-- The reading half of `get_current_snapshot`. -/
def readSnapshot (codec : SnapshotCodec) (file : FileBytes) : Option (Except String Snapshot) :=
  let bytes := file.bytes
  if bytes.length < 20 then some (.error "invalid snapshot header")
  else do
    if (← byteRange bytes 0 4) ≠ snapMagic then some (.error "invalid snapshot header")
    else
      let version := ofLe (← byteRange bytes 4 8)
      if version ≠ snapVersion then
        some (.error s!"snapshot format version mismatch: expected {snapVersion}, got {version}")
      else
        match ← readFrames codec bytes bytes.length 8 none [] with
        | .error message => some (.error message)
        | .ok (metaBytes, data, offset) =>
          if offset ≠ bytes.length then some (.error "snapshot has trailing bytes")
          else
            match metaBytes with
            | none => some (.error "snapshot meta missing")
            | some metaBytes =>
              match codec.deserialize metaBytes with
              | .error message => some (.error message)
              | .ok info => some (.ok ⟨info, data⟩)

theorem addUsize_eq_some {a b : ℕ} (h : a + b < UInt64.size) : addUsize a b = some (a + b) :=
  if_pos h

theorem byteRange_eq_some (bytes : Bytes) (start n : ℕ) (h : start + n ≤ bytes.length) :
    byteRange bytes start (start + n) = some ((bytes.drop start).take n) := by
  rw [byteRange, if_pos ⟨by omega, h⟩, Nat.add_sub_cancel_left]

theorem ofLe_take_four_lt (bytes : Bytes) : ofLe (bytes.take 4) < 2 ^ 32 := by
  have hlt := ofLe_lt (bytes.take 4)
  have hpow : 256 ^ (bytes.take 4).length ≤ 256 ^ 4 :=
    Nat.pow_le_pow_right (by decide) (by rw [List.length_take]; omega)
  omega

theorem readFrames_eq {codec : SnapshotCodec} {bytes : Bytes} (fits : bytes.length < 2 ^ 63)
    {turns : ℕ} : ∀ {offset : ℕ} (metaBytes : Option Bytes) (data : Bytes),
      offset ≤ bytes.length → bytes.length < offset + 12 * turns →
      readFrames codec bytes turns offset metaBytes data =
        some ((readChunks codec turns (bytes.drop offset) metaBytes data).map fun result =>
          (result.1, result.2.1, bytes.length - result.2.2.length)) := by
  induction turns with
  | zero =>
    intro offset metaBytes data hoffset hturns
    omega
  | succ turns ih =>
    intro offset metaBytes data hoffset hturns
    have hlength : (bytes.drop offset).length = bytes.length - offset := List.length_drop
    have hsize : UInt64.size = 2 ^ 64 := rfl
    rw [readFrames, readChunks, addUsize_eq_some (by omega)]
    simp only [Option.bind_eq_bind, bind_some]
    by_cases hheader : bytes.length < offset + 12
    · rw [if_pos hheader, if_pos (by omega)]
      rfl
    · -- the three numbers in front of the chunk
      have hmeta : byteRange bytes offset (offset + 4) = some ((bytes.drop offset).take 4) :=
        byteRange_eq_some bytes offset 4 (by omega)
      have hdata : byteRange bytes (offset + 4) (offset + 8) =
          some (((bytes.drop offset).drop 4).take 4) := by
        rw [List.drop_drop]
        exact byteRange_eq_some bytes (offset + 4) 4 (by omega)
      have hchecksum : byteRange bytes (offset + 8) (offset + 12) =
          some (((bytes.drop offset).drop 8).take 4) := by
        rw [List.drop_drop]
        exact byteRange_eq_some bytes (offset + 8) 4 (by omega)
      have hmetaLt := ofLe_take_four_lt (bytes.drop offset)
      have hdataLt := ofLe_take_four_lt ((bytes.drop offset).drop 4)
      rw [if_neg hheader, if_neg (by omega), hmeta, hdata, hchecksum]
      simp only [bind_some, List.drop_drop] at hmetaLt hdataLt ⊢
      generalize ofLe ((bytes.drop offset).take 4) = metaLen at hmetaLt ⊢
      generalize ofLe ((bytes.drop (offset + 4)).take 4) = dataLen at hdataLt ⊢
      generalize ofLe ((bytes.drop (offset + 8)).take 4) = checksum
      have hrest : (bytes.drop (offset + 12)).length = bytes.length - (offset + 12) :=
        List.length_drop
      by_cases hempty : metaLen = 0 ∧ dataLen = 0
      · rw [if_pos hempty, if_pos hempty]
        split
        · rfl
        · have hback : offset + 12 = bytes.length - (bytes.drop (offset + 12)).length := by omega
          rw [Except.map, ← hback]
      · rw [if_neg hempty, if_neg hempty, addUsize_eq_some (by omega)]
        simp only [bind_some]
        rw [addUsize_eq_some (by omega)]
        simp only [bind_some]
        by_cases hshort : bytes.length < offset + 12 + metaLen + dataLen
        · rw [if_pos hshort, if_pos (by omega)]
          rfl
        · have hbody : byteRange bytes (offset + 12) (offset + 12 + metaLen + dataLen) =
              some ((bytes.drop (offset + 12)).take (metaLen + dataLen)) := by
            rw [Nat.add_assoc (offset + 12)]
            exact byteRange_eq_some bytes (offset + 12) (metaLen + dataLen) (by omega)
          have hbodyLength : ((bytes.drop (offset + 12)).take (metaLen + dataLen)).length =
              metaLen + dataLen := by
            rw [List.length_take]
            omega
          rw [if_neg hshort, if_neg (by omega), hbody]
          simp only [bind_some]
          generalize (bytes.drop (offset + 12)).take (metaLen + dataLen) = body at hbodyLength ⊢
          split
          · rfl
          · have hmetaPart : byteRange body 0 metaLen = some (body.take metaLen) := by
              simpa using byteRange_eq_some body 0 metaLen (by omega)
            have hdataPart : byteRange body metaLen body.length = some (body.drop metaLen) := by
              rw [byteRange, if_pos ⟨by omega, le_rfl⟩, List.take_of_length_le]
              rw [List.length_drop]
            rw [hmetaPart, hdataPart]
            simp only [bind_some]
            rw [ih _ _ (by omega) (by omega), Nat.add_assoc (offset + 12)]

theorem readSnapshot_eq (codec : SnapshotCodec) (file : FileBytes) :
    readSnapshot codec file = some (readSnapshotFile codec file.bytes) := by
  obtain ⟨bytes, fits⟩ := file
  rw [readSnapshot, readSnapshotFile]
  by_cases hshort : bytes.length < 20
  · simp only [if_pos hshort, if_pos (Or.inl hshort)]
  · have hmagic : byteRange bytes 0 4 = some (bytes.take 4) :=
      byteRange_eq_some bytes 0 4 (by omega)
    have hversion : byteRange bytes 4 8 = some ((bytes.drop 4).take 4) :=
      byteRange_eq_some bytes 4 4 (by omega)
    have hframes : readFrames codec bytes bytes.length 8 none [] = _ :=
      readFrames_eq fits none [] (by omega) (by omega)
    simp only [if_neg hshort, hmagic, hversion, Option.bind_eq_bind, bind_some]
    by_cases hmagicEq : bytes.take 4 ≠ snapMagic
    · rw [if_pos hmagicEq, if_pos (.inr hmagicEq)]
    · rw [if_neg hmagicEq, if_neg (not_or.mpr ⟨hshort, hmagicEq⟩)]
      by_cases hversionEq : ofLe ((bytes.drop 4).take 4) ≠ snapVersion
      · rw [if_pos hversionEq, if_pos hversionEq]
      · rw [if_neg hversionEq, if_neg hversionEq, hframes]
        rcases readChunks codec bytes.length (bytes.drop 8) none [] with
          message | ⟨metaBytes, data, rest⟩
        · rfl
        · -- the offset is at the end just when nothing is left
          have hend : bytes.length - rest.length ≠ bytes.length ↔ rest ≠ [] := by
            rw [ne_eq, ne_eq, ← List.length_eq_zero_iff]
            omega
          simp only [Except.map, bind_some, hend]
          split
          · rfl
          · cases metaBytes with
            | none => rfl
            | some metaBytes =>
              simp only
              cases codec.deserialize metaBytes <;> rfl

def WalRaftStorage.withFile {SM : Type*} (s : WalRaftStorage SM) (path : String) (bytes : Bytes) :
    WalRaftStorage SM :=
  { s with files := Function.update s.files path (some bytes) }

theorem WalRaftStorage.getCurrentSnapshot_withFile {SM : Type*} (codec : SnapshotCodec)
    {s : WalRaftStorage SM} {current : SnapshotMeta} {path : String}
    (hmeta : s.snapshotMeta = some current) (hpath : s.snapshotPath = some path) (bytes : Bytes) :
    (s.withFile path bytes).getCurrentSnapshot codec =
      match readSnapshotFile codec bytes with
      | .error message => .error ⟨.snapshot none, .read, message⟩
      | .ok snapshot => .ok (some snapshot) := by
  cases hread : readSnapshotFile codec bytes
  all_goals simp only [getCurrentSnapshot, withFile, hmeta, hpath, Function.update_self, hread]

/-- What was written is read back, as long as the lengths fit their fields; a file cut short or
continued is rejected; and the reader returns on any bytes. -/
theorem snapshot_file_codec {SM : Type*} (codec : SnapshotCodec) {s : WalRaftStorage SM}
    {current : SnapshotMeta} {path : String} (hmeta : s.snapshotMeta = some current)
    (hpath : s.snapshotPath = some path) :
    (∀ info metaBytes data chunkSize file, codec.serialize info = .ok metaBytes →
      codec.deserialize metaBytes = .ok info → metaBytes ≠ [] → metaBytes.length < 2 ^ 32 →
      min (max chunkSize 1) data.length < 2 ^ 32 →
      encodeSnapshotFile codec info data chunkSize = .ok file →
      (s.withFile path file).getCurrentSnapshot codec = .ok (some ⟨info, data⟩) ∧
      (∀ cut, cut <+: file → cut ≠ file →
        ∃ error, (s.withFile path cut).getCurrentSnapshot codec = .error error) ∧
      ∀ longer, file <+: longer → longer ≠ file →
        ∃ error, (s.withFile path longer).getCurrentSnapshot codec = .error error) ∧
    ∀ file : FileBytes, readSnapshot codec file = some (readSnapshotFile codec file.bytes) := by
  refine ⟨?_, readSnapshot_eq codec⟩
  intro info metaBytes data chunkSize file serialized deserialized nonempty metaFits
    dataFits written
  simp only [WalRaftStorage.getCurrentSnapshot_withFile codec hmeta hpath]
  have happend := readSnapshotFile_append serialized deserialized nonempty metaFits dataFits written
  refine ⟨?_, fun cut hcut hne => ?_, ?_⟩
  · have hread := happend []
    rw [List.append_nil, if_neg (by simp)] at hread
    rw [hread]
  · have hlt : cut.length < file.length := by
      apply lt_of_le_of_ne hcut.length_le
      exact fun heq => hne (hcut.eq_of_length heq)
    obtain ⟨message, hread⟩ :=
      readSnapshotFile_take serialized nonempty metaFits dataFits written hlt
    rw [List.prefix_iff_eq_take.mp hcut, hread]
    exact ⟨_, rfl⟩
  · rintro longer ⟨after, rfl⟩ hne
    have hafter : after ≠ [] := by
      rintro rfl
      exact hne (List.append_nil file)
    rw [happend after, if_pos hafter]
    exact ⟨_, rfl⟩

def pointingStorage (info : SnapshotMeta) : WalRaftStorage MockStateMachine :=
  { WalRaftStorage.blank .standard ⟨1⟩ 1 ⟨⟩ (.openFile [] [] []) (fun _ => none) with
    snapshotMeta := some info
    snapshotPath := some "snapshot" }

theorem snapshot_file_codec_small :
    ∃ file, encodeSnapshotFile (singleCodec ⟨none, .empty, "s"⟩) ⟨none, .empty, "s"⟩ [1, 2, 3] 2 =
        .ok file ∧
      ((pointingStorage ⟨none, .empty, "s"⟩).withFile "snapshot" file).getCurrentSnapshot
        (singleCodec ⟨none, .empty, "s"⟩) = .ok (some ⟨⟨none, .empty, "s"⟩, [1, 2, 3]⟩) := by
  obtain ⟨hcodec, -⟩ := snapshot_file_codec (singleCodec ⟨none, .empty, "s"⟩)
    (s := pointingStorage ⟨none, .empty, "s"⟩) rfl rfl
  obtain ⟨file, hfile⟩ : ∃ file, encodeSnapshotFile (singleCodec ⟨none, .empty, "s"⟩)
      ⟨none, .empty, "s"⟩ [1, 2, 3] 2 = .ok file := by
    simp [encodeSnapshotFile, singleCodec]
  exact ⟨file, hfile, (hcodec _ [1] _ _ file (by simp [singleCodec]) (by simp [singleCodec])
    (by decide) (by decide) (by decide) hfile).1⟩

end Chirps.RaftStorage
