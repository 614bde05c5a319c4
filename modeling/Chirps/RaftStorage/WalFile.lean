/-
# The bytes of the WAL file

A record is its length, its checksum and its serialization. Whole records are recovered as the
frames they were written from, and a file that ends inside a record is rejected.
-/

import Chirps.Library.Framing
import Chirps.RaftStorage.AnyOutcome

namespace Chirps.RaftStorage

open Chirps.Library Chirps.Library.LittleEndian

/-- `bincode`, `crc32fast` and `alopex-core`. Replay skips a record that is `none`. -/
structure WalCodec where
  serialize : WalFrame → Bytes
  deserialize : Bytes → Except String (Option WalFrame)
  crc32 : Bytes → UInt32

namespace WalCodec

variable (codec : WalCodec)

def appendRecord (frame : WalFrame) : Bytes :=
  toLe 4 (codec.serialize frame).length ++
    (toLe 4 (codec.crc32 (codec.serialize frame)).toNat ++ codec.serialize frame)

def encodeFrames (frames : List WalFrame) : Bytes := frames.flatMap codec.appendRecord

/-- The loop of `validate_wal_framing` behind `offset`, with the records it has passed over. -/
def validateFrom : ℕ → ℕ → Bytes → Except String (List Bytes)
  | 0, _, _ => .ok []
  | fuel + 1, offset, bytes =>
    if bytes = [] then .ok []
    else
      match readLe 4 bytes with
      | none => .error s!"truncated WAL record header at byte {offset}"
      | some (recordLen, afterLen) =>
        match readLe 4 afterLen with
        | none => .error s!"truncated WAL record header at byte {offset}"
        | some (expectedChecksum, body) =>
          if body.length < recordLen then
            .error (s!"truncated WAL record body at byte {offset + 8}: " ++
              s!"expected {recordLen}, remaining {body.length}")
          -- `offset` has moved behind the record when the source reports this
          else if (codec.crc32 (body.take recordLen)).toNat ≠ expectedChecksum then
            .error s!"WAL checksum mismatch at byte {offset + 8 + recordLen}"
          else
            (validateFrom fuel (offset + 8 + recordLen) (body.drop recordLen)).map
              (body.take recordLen :: ·)

/-- Every turn of the loop uses up eight bytes, so the length of the file is fuel enough. -/
def validateWalFraming (bytes : Bytes) : Except String (List Bytes) :=
  codec.validateFrom bytes.length 0 bytes

/-- The frames up to the first record that cannot be decoded, and its error. -/
def readFrames : List Bytes → List WalFrame × Option String
  | [] => ([], none)
  | record :: rest =>
    match codec.deserialize record with
    | .error message => ([], some message)
    | .ok none => readFrames rest
    | .ok (some frame) => (frame :: (readFrames rest).1, (readFrames rest).2)

/-! ## Frames of records -/

theorem header_width_pos : 0 < 8 := by decide

def framing : Framing UInt8 where
  width := 8
  header body := toLe 4 body.length ++ toLe 4 (codec.crc32 body).toNat
  announced header := ofLe (header.take 4)
  Fits body := body.length < 256 ^ 4
  width_pos := header_width_pos
  length_header _ := by rw [List.length_append, length_toLe, length_toLe]
  announced_header _ h := by rw [List.take_left' (length_toLe 4 _), ofLe_toLe_of_lt h]

variable {codec}

theorem frame_eq (body : Bytes) : codec.framing.frame body =
    toLe 4 body.length ++ (toLe 4 (codec.crc32 body).toNat ++ body) :=
  List.append_assoc _ _ _

theorem length_frame (body : Bytes) : (codec.framing.frame body).length = 8 + body.length :=
  Framing.length_frame body

theorem appendRecord_eq_frame (frame : WalFrame) :
    codec.appendRecord frame = codec.framing.frame (codec.serialize frame) :=
  (frame_eq _).symm

theorem encodeFrames_eq_frames (frames : List WalFrame) :
    codec.encodeFrames frames = codec.framing.frames (frames.map codec.serialize) := by
  rw [encodeFrames, Framing.frames, List.flatMap_map]
  exact List.flatMap_congr fun frame _ => appendRecord_eq_frame frame

variable {fuel offset : ℕ} {bytes : Bytes} {records : List Bytes}

theorem validateFrom_succ_eq_ok_iff (hne : bytes ≠ []) :
    codec.validateFrom (fuel + 1) offset bytes = .ok records ↔
      ∃ body rest others, codec.framing.Fits body ∧ bytes = codec.framing.frame body ++ rest ∧
        records = body :: others ∧
        codec.validateFrom fuel (offset + 8 + body.length) rest = .ok others := by
  constructor
  · intro h
    rw [validateFrom, if_neg hne] at h
    split at h
    · cases h
    · rename_i recordLen afterLen hlen
      split at h
      · cases h
      · rename_i expectedChecksum body hchecksum
        split at h
        · cases h
        · rename_i hlong
          split at h
          · cases h
          · rename_i hmatch
            cases hrest :
              codec.validateFrom fuel (offset + 8 + recordLen) (body.drop recordLen) with
            | error message =>
              rw [hrest] at h
              cases h
            | ok others =>
              rw [hrest] at h
              obtain ⟨hfits, rfl⟩ := readLe_eq_some_iff.mp hlen
              obtain ⟨-, rfl⟩ := readLe_eq_some_iff.mp hchecksum
              have hlength : (body.take recordLen).length = recordLen := by
                rw [List.length_take]
                omega
              refine ⟨body.take recordLen, body.drop recordLen, others, ?_, ?_,
                (Except.ok.inj h).symm, ?_⟩
              · exact hlength.trans_lt hfits
              · rw [frame_eq, hlength, not_ne_iff.mp hmatch, List.append_assoc, List.append_assoc,
                  List.take_append_drop]
              · rw [hlength, hrest]
  · rintro ⟨body, rest, others, hfits, rfl, rfl, hrest⟩
    have hchecksum : (codec.crc32 body).toNat < 256 ^ 4 := (codec.crc32 body).toNat_lt
    have hlong : ¬ (body ++ rest).length < body.length := by
      rw [List.length_append]
      omega
    rw [validateFrom, if_neg hne, frame_eq, List.append_assoc, List.append_assoc,
      readLe_toLe_append hfits]
    simp only [readLe_toLe_append hchecksum, if_neg hlong, List.take_left,
      List.drop_left, ne_eq, not_true_eq_false, if_false, hrest]
    rfl

theorem validateFrom_nil_eq_ok_iff :
    codec.validateFrom fuel offset [] = .ok records ↔
      (∀ body ∈ records, codec.framing.Fits body) ∧ [] = codec.framing.frames records := by
  have hnil : codec.validateFrom fuel offset [] = .ok [] := by
    cases fuel with
    | zero => rfl
    | succ fuel => rw [validateFrom, if_pos rfl]
  rw [hnil, Except.ok.injEq, eq_comm (a := ([] : Bytes)), Framing.frames_eq_nil_iff, eq_comm]
  refine ⟨?_, And.right⟩
  rintro rfl
  exact ⟨List.forall_mem_nil _, rfl⟩

theorem validateFrom_eq_ok_iff (hfuel : bytes.length ≤ fuel) :
    codec.validateFrom fuel offset bytes = .ok records ↔
      (∀ body ∈ records, codec.framing.Fits body) ∧ bytes = codec.framing.frames records := by
  induction fuel generalizing offset bytes records with
  | zero =>
    obtain rfl := List.eq_nil_of_length_eq_zero (Nat.le_zero.mp hfuel)
    exact validateFrom_nil_eq_ok_iff
  | succ fuel ih =>
    by_cases hne : bytes = []
    · subst hne
      exact validateFrom_nil_eq_ok_iff
    · rw [validateFrom_succ_eq_ok_iff hne]
      constructor
      · rintro ⟨body, rest, others, hfits, rfl, rfl, hrest⟩
        rw [List.length_append, length_frame] at hfuel
        obtain ⟨hothers, rfl⟩ := (ih (by omega)).mp hrest
        exact ⟨List.forall_mem_cons.mpr ⟨hfits, hothers⟩, rfl⟩
      · rintro ⟨hfits, rfl⟩
        cases records with
        | nil => exact absurd rfl hne
        | cons body others =>
          rw [Framing.frames_cons, List.length_append, length_frame] at hfuel
          obtain ⟨hbody, hothers⟩ := List.forall_mem_cons.mp hfits
          exact ⟨body, codec.framing.frames others, others, hbody, rfl, rfl,
            (ih (by omega)).mpr ⟨hothers, rfl⟩⟩

theorem validateWalFraming_eq_ok_iff :
    codec.validateWalFraming bytes = .ok records ↔
      (∀ body ∈ records, codec.framing.Fits body) ∧ bytes = codec.framing.frames records :=
  validateFrom_eq_ok_iff le_rfl

theorem validateWalFraming_encodeFrames {frames : List WalFrame}
    (hfits : ∀ frame ∈ frames, (codec.serialize frame).length < 256 ^ 4) :
    codec.validateWalFraming (codec.encodeFrames frames) = .ok (frames.map codec.serialize) := by
  refine validateWalFraming_eq_ok_iff.mpr ⟨fun body hbody => ?_, encodeFrames_eq_frames frames⟩
  obtain ⟨frame, hframe, rfl⟩ := List.mem_map.mp hbody
  exact hfits frame hframe

theorem readFrames_serialize {frames : List WalFrame}
    (faithful : ∀ frame ∈ frames, codec.deserialize (codec.serialize frame) = .ok (some frame)) :
    codec.readFrames (frames.map codec.serialize) = (frames, none) := by
  induction frames with
  | nil => rfl
  | cons frame frames ih =>
    obtain ⟨hframe, hframes⟩ := List.forall_mem_cons.mp faithful
    rw [List.map_cons, readFrames, hframe, ih hframes]

end WalCodec

/-- A byte string is accepted if and only if it is a concatenation of frames, as what was written
is, and a part of it if and only if the cut is between two frames. -/
theorem wal_framing_is_exact (codec : WalCodec) :
    (∀ frames : List WalFrame, (∀ frame ∈ frames, (codec.serialize frame).length < 2 ^ 32) →
      codec.validateWalFraming (codec.encodeFrames frames) = .ok (frames.map codec.serialize)) ∧
    (∀ bytes records, codec.validateWalFraming bytes = .ok records ↔
      (∀ body ∈ records, body.length < 2 ^ 32) ∧ bytes = codec.framing.frames records) ∧
    ∀ bytes records cut, codec.validateWalFraming bytes = .ok records → cut ≤ bytes.length →
      ∀ kept, codec.validateWalFraming (bytes.take cut) = .ok kept ↔
        ∃ k ≤ records.length, cut = (codec.framing.frames (records.take k)).length ∧
          kept = records.take k := by
  refine ⟨fun frames hfits => WalCodec.validateWalFraming_encodeFrames hfits,
    fun bytes records => WalCodec.validateWalFraming_eq_ok_iff, ?_⟩
  intro bytes records cut hvalid hcut kept
  obtain ⟨hrecords, rfl⟩ := WalCodec.validateWalFraming_eq_ok_iff.mp hvalid
  rw [WalCodec.validateWalFraming_eq_ok_iff]
  constructor
  · rintro ⟨hkept, hbytes⟩
    exact (Framing.take_frames_eq_iff hrecords hkept hcut).mp hbytes
  · rintro ⟨k, hk, hboundary, rfl⟩
    have hkept : ∀ body ∈ records.take k, codec.framing.Fits body :=
      fun body hbody => hrecords body (List.mem_of_mem_take hbody)
    exact ⟨hkept, (Framing.take_frames_eq_iff hrecords hkept hcut).mpr ⟨k, hk, hboundary, rfl⟩⟩

theorem wal_framing_is_exact_two_records :
    let codec : WalCodec := ⟨fun _ => [5], fun _ => .ok none, fun body => UInt32.ofNat body.length⟩
    let file : Bytes := [1, 0, 0, 0, 1, 0, 0, 0, 5, 2, 0, 0, 0, 2, 0, 0, 0, 6, 7]
    codec.validateWalFraming file = .ok [[5], [6, 7]] ∧
      codec.validateWalFraming (file.take 9) = .ok [[5]] ∧
      ∀ kept, codec.validateWalFraming (file.take 10) ≠ .ok kept := by
  intro codec file
  have hfile : codec.validateWalFraming file = .ok [[5], [6, 7]] := by
    rw [(wal_framing_is_exact codec).2.1]
    decide
  have hcuts := (wal_framing_is_exact codec).2.2 file [[5], [6, 7]]
  refine ⟨hfile, (hcuts 9 hfile (by decide) _).mpr ⟨1, by decide, by decide, rfl⟩,
    fun kept hkept => ?_⟩
  obtain ⟨k, hk, hboundary, -⟩ := (hcuts 10 hfile (by decide) kept).mp hkept
  have hnone : ∀ k ≤ 2, 10 ≠ (codec.framing.frames ([[5], [6, 7]].take k)).length := by decide
  exact hnone k hk hboundary

/-! ## Recovery from a file -/

/-- `recover_with_sink` on the bytes of the file. -/
def WalRaftStorage.recoverFile {SM : Type*} (codec : WalCodec) (config : WalStorageConfig)
    (groupId : GroupId) (nodeId : ChirpsNodeId) (stateMachine : SM) (now : UInt64)
    (writeFaults : List (Option String)) (syncOutcomes : List SyncOutcome) (bytes : Bytes)
    (files : SnapshotFiles) : Except String (WalRaftStorage SM) :=
  if bytes = [] then
    recover config groupId nodeId stateMachine now (.openFile [] writeFaults syncOutcomes) files
  else
    match codec.validateWalFraming bytes with
    | .error message => .error message
    | .ok records =>
      let (frames, stopped) := codec.readFrames records
      -- the source decodes and applies one record at a time: an error of replay comes first
      match (blank config groupId nodeId stateMachine
          (.openFile frames writeFaults syncOutcomes) files).replayWal frames with
      | .error message => .error message
      | .ok s =>
        match stopped with
        | some message => .error message
        | none => .ok s

/-- A file of whole records is recovered as the frames that were written. -/
theorem WalRaftStorage.recoverFile_encodeFrames {SM : Type*} {codec : WalCodec}
    {frames : List WalFrame}
    (faithful : ∀ frame ∈ frames, codec.deserialize (codec.serialize frame) = .ok (some frame))
    (fits : ∀ frame ∈ frames, (codec.serialize frame).length < 256 ^ 4) (config : WalStorageConfig)
    (groupId : GroupId) (nodeId : ChirpsNodeId) (stateMachine : SM) (now : UInt64)
    (writeFaults : List (Option String)) (syncOutcomes : List SyncOutcome) (files : SnapshotFiles) :
    recoverFile codec config groupId nodeId stateMachine now writeFaults syncOutcomes
        (codec.encodeFrames frames) files =
      recover config groupId nodeId stateMachine now (.openFile frames writeFaults syncOutcomes)
        files := by
  have hfile : (RealWalSink.openFile frames writeFaults syncOutcomes).file = frames :=
    List.take_length
  cases frames with
  | nil => rfl
  | cons frame rest =>
    have hne : codec.encodeFrames (frame :: rest) ≠ [] := by
      rw [WalCodec.encodeFrames_eq_frames, Ne, Framing.frames_eq_nil_iff]
      exact List.cons_ne_nil _ _
    rw [recoverFile, if_neg hne,
      WalCodec.validateWalFraming_encodeFrames fits, recover, hfile,
        if_neg (List.cons_ne_nil frame rest)]
    simp only [WalCodec.readFrames_serialize faithful]
    cases (blank config groupId nodeId stateMachine
      (.openFile (frame :: rest) writeFaults syncOutcomes) files).replayWal (frame :: rest) <;> rfl

theorem WalRaftStorage.recoverFile_encodeFrames_vote :
    let header : WalFrame := .header ⟨[], 1, ⟨1⟩, 1, 0, []⟩
    let vote : WalFrame := .record (.vote ⟨⟨2, 1⟩, false⟩)
    let codec : WalCodec := ⟨fun frame => frame.casesOn (fun _ => [5]) fun _ => [6, 7],
      fun bytes => .ok (some (if bytes = [5] then header else vote)), fun _ => 7⟩
    recoverFile codec .standard ⟨1⟩ 1 () 0 [] [] (codec.encodeFrames [header, vote])
        (fun _ => none) =
      recover .standard ⟨1⟩ 1 () 0 (.openFile [header, vote] [] []) fun _ => none := by
  intro header vote codec
  exact recoverFile_encodeFrames (by simp [codec, header, vote]) (by simp [codec, header, vote]) ..

theorem WalRaftStorage.recoverFile_files {SM : Type*} {codec : WalCodec}
    {config : WalStorageConfig} {groupId : GroupId} {nodeId : ChirpsNodeId} {stateMachine : SM}
    {now : UInt64} {writeFaults : List (Option String)} {syncOutcomes : List SyncOutcome}
    {bytes : Bytes} {files : SnapshotFiles} {s : WalRaftStorage SM}
    (h : recoverFile codec config groupId nodeId stateMachine now writeFaults syncOutcomes bytes
      files = .ok s) : s.files = files := by
  rw [recoverFile] at h
  split at h
  · exact recover_files h
  · split at h
    · cases h
    · simp only at h
      split at h
      · cases h
      · rename_i t hreplay
        split at h
        · cases h
        · cases h
          obtain ⟨-, rfl⟩ := replayWal_eq_ok.mp hreplay
          rfl

end Chirps.RaftStorage
