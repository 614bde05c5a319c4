/-
# How a file is cut into chunks

The chunks of a file are laid out from its size, by reading them one by one, and in a scan that cuts
batches. After each turn of the scan its chunks are the first ones of the layout.
-/

import Chirps.FileTransfer.Install
import Chirps.FileTransfer.Sender

namespace Chirps.FileTransfer

variable {σ : Type*}

def fileHashBufferBytes : ℕ := 1024 * 1024
def sourceScanBatchBytes : ℕ := 8 * 1024 * 1024

def divCeil (a b : ℕ) : ℕ := (a + b - 1) / b

/-- `read_exact` at a position of a file. -/
def readExact (content : Bytes) (offset size : ℕ) : Except SendError Bytes :=
  if offset + size ≤ content.length then .ok ((content.drop offset).take size)
  else .error (.io "early eof")

/-! ### Chunk by chunk -/

namespace ChunkManager

/-- The count is cast to `u32`. -/
def calculateChunkCount (m : ChunkManager) (fileSize : ℕ) : ℕ :=
  divCeil fileSize m.chunkSize % 2 ^ 32

def generateChunkMetas (m : ChunkManager) (h : Hashing σ) (content : Bytes) (fileSize : ℕ) :
    Except SendError (List ChunkMeta) :=
  (List.range (m.calculateChunkCount fileSize)).mapM fun idx => do
    let offset := idx * m.chunkSize
    let size := min (fileSize - offset) m.chunkSize
    let data ← readExact content offset size
    return ⟨idx, offset, size, h.chunkChecksum data⟩

end ChunkManager

/-! ### Scans of the whole file -/

/-- The loop of `compute_file_hash`: a read returns any count of bytes, at least one before the end.
-/
def hashReads (h : Hashing σ) (wanted : ℕ → ℕ) : ℕ → Bytes → σ → σ
  | 0, _, hasher => hasher
  | fuel + 1, rest, hasher =>
    let read := rest.take (max 1 (min (wanted rest.length) fileHashBufferBytes))
    if read = [] then hasher
    else hashReads h wanted fuel (rest.drop read.length) (h.update hasher read)

def computeFileHash (h : Hashing σ) (algorithm : HashAlgorithm) (wanted : ℕ → ℕ)
    (content : Bytes) : Bytes :=
  h.finalize (hashReads h wanted (content.length + 1) content (h.new algorithm))

/-- The variables of `compute_file_hash_and_chunk_metas`. -/
structure Scan (σ : Type*) where
  hasher : σ
  chunks : List ChunkMeta := []
  offset : ℕ := 0
  index : ℕ := 0

def cutBatch (h : Hashing σ) (chunkSize : ℕ) (buffer : Bytes) : ℕ → ℕ → Scan σ → Scan σ
  | 0, _, s => s
  | fuel + 1, batchOffset, s =>
    if batchOffset < buffer.length then
      let size := min (buffer.length - batchOffset) chunkSize
      let data := (buffer.drop batchOffset).take size
      let chunk : ChunkMeta :=
        ⟨s.index, s.offset + batchOffset, size % 2 ^ 32, h.chunkChecksum data⟩
      cutBatch h chunkSize buffer fuel (batchOffset + size)
        { s with chunks := s.chunks ++ [chunk], index := min (s.index + 1) (2 ^ 32 - 1) }
    else s

def scanBatches (h : Hashing σ) (chunkSize batchBytes : ℕ) (content : Bytes) :
    ℕ → Scan σ → Except SendError (Scan σ)
  | 0, s => .ok s
  | fuel + 1, s =>
    if s.offset < content.length then
      let bytesRead := min (content.length - s.offset) batchBytes
      match readExact content s.offset bytesRead with
      | .error error => .error error
      | .ok buffer =>
        let cut := cutBatch h chunkSize buffer bytesRead 0
          { s with hasher := h.update s.hasher buffer }
        scanBatches h chunkSize batchBytes content fuel
          { cut with offset := min (s.offset + bytesRead) (2 ^ 64 - 1) }
    else .ok s

def computeFileHashAndChunkMetas (h : Hashing σ) (algorithm : HashAlgorithm) (chunkSize : ℕ)
    (content : Bytes) : Except SendError (Bytes × List ChunkMeta) :=
  let batchBytes := chunkSize * max (sourceScanBatchBytes / chunkSize) 1
  if chunkSize = 0 then .error (.io "chunk_size must be greater than zero")
  else if 2 ^ 64 ≤ batchBytes then .error (.io "source scan buffer overflow")
  else
    (scanBatches h chunkSize batchBytes content content.length { hasher := h.new algorithm }).map
      fun s => (h.finalize s.hasher, s.chunks)

/-! ### The layout they share -/

section Layout

variable {h : Hashing σ} {content : Bytes} {chunkSize : ℕ}

def chunkAt (h : Hashing σ) (content : Bytes) (chunkSize index : ℕ) : ChunkMeta :=
  let size := min (content.length - index * chunkSize) chunkSize
  ⟨index, index * chunkSize, size, h.chunkChecksum ((content.drop (index * chunkSize)).take size)⟩

theorem lt_divCeil {i n c : ℕ} (hc : 0 < c) : i < divCeil n c ↔ i * c < n := by
  rw [divCeil, ← Nat.succ_le_iff, Nat.le_div_iff_mul_le hc, Nat.succ_mul]
  omega

theorem le_divCeil_mul {c : ℕ} (n : ℕ) (hc : 0 < c) : n ≤ divCeil n c * c :=
  Nat.le_of_not_lt (mt (lt_divCeil hc).mpr (lt_irrefl _))

theorem tiledFrom_chunkAt (i n : ℕ) (hc : 0 < chunkSize)
    (hn : i + n ≤ divCeil content.length chunkSize) :
    TiledFrom (i * chunkSize) ((List.range' i n).map (chunkAt h content chunkSize)) := by
  induction n generalizing i with
  | zero => trivial
  | succ n ih =>
    refine ⟨rfl, ?_⟩
    cases n with
    | zero => trivial
    | succ n =>
      have next : (i + 1) * chunkSize < content.length := (lt_divCeil hc).mp (by omega)
      rw [Nat.succ_mul] at next
      have whole : i * chunkSize + (chunkAt h content chunkSize i).size = (i + 1) * chunkSize := by
        rw [Nat.succ_mul, chunkAt, min_eq_right (by omega)]
      rw [whole]
      exact ih _ (by omega)

theorem sum_chunkAt (h : Hashing σ) (content : Bytes) (chunkSize i n : ℕ) :
    i * chunkSize + (((List.range' i n).map (chunkAt h content chunkSize)).map ChunkMeta.size).sum =
      max (i * chunkSize) (min ((i + n) * chunkSize) content.length) := by
  induction n generalizing i with
  | zero => simp
  | succ n ih =>
    have later : (i + 1) * chunkSize ≤ (i + 1 + n) * chunkSize := Nat.mul_le_mul_right _ (by omega)
    have rest := ih (i + 1)
    rw [List.range'_succ, List.map_cons, List.map_cons, List.sum_cons, ← Nat.add_assoc]
    rw [Nat.add_right_comm i 1 n] at rest later
    rw [← Nat.add_assoc i n 1]
    simp only [Nat.succ_mul i, chunkAt] at rest later ⊢
    omega

theorem chunkAt_size_pos {i : ℕ} (hc : 0 < chunkSize) (hi : i < divCeil content.length chunkSize) :
    0 < (chunkAt h content chunkSize i).size := by
  have := (lt_divCeil hc).mp hi
  exact lt_min (by omega) hc

/-! ### The scan follows it -/

structure Scan.At (h : Hashing σ) (content : Bytes) (chunkSize pos : ℕ) (s : Scan σ) : Prop where
  chunks_eq : s.chunks = (List.range s.index).map (chunkAt h content chunkSize)
  pos_eq : pos = min (s.index * chunkSize) content.length
  index_le : s.index ≤ divCeil content.length chunkSize

variable {s : Scan σ}

theorem Scan.At.cut {j k bytesRead : ℕ} (fuel batchOffset : ℕ) (hc : 0 < chunkSize)
    (hsize : chunkSize < 2 ^ 32) (fits : divCeil content.length chunkSize < 2 ^ 32)
    (hread : bytesRead = min (content.length - j * chunkSize) (k * chunkSize))
    (aligned : s.offset = j * chunkSize)
    (stands : s.At h content chunkSize (j * chunkSize + batchOffset))
    (hle : batchOffset ≤ bytesRead) (hfuel : bytesRead ≤ batchOffset + fuel) :
    let cut :=
      cutBatch h chunkSize ((content.drop (j * chunkSize)).take bytesRead) fuel batchOffset s
    cut.At h content chunkSize (j * chunkSize + bytesRead) ∧ cut.hasher = s.hasher := by
  induction fuel generalizing batchOffset s with
  | zero =>
    obtain rfl : batchOffset = bytesRead := by omega
    exact ⟨stands, rfl⟩
  | succ fuel ih =>
    have length : ((content.drop (j * chunkSize)).take bytesRead).length = bytesRead := by
      rw [List.length_take, List.length_drop]
      omega
    rw [cutBatch]
    simp only [length]
    split
    · rename_i more
      -- the loop stands at the start of a chunk, and the batch has the whole of it
      have start : j * chunkSize + batchOffset = s.index * chunkSize := by
        have := stands.pos_eq
        omega
      have later : s.index < j + k := by
        refine Nat.lt_of_mul_lt_mul_right (a := chunkSize) ?_
        rw [Nat.add_mul]
        omega
      have ends : (s.index + 1) * chunkSize ≤ (j + k) * chunkSize := Nat.mul_le_mul_right _ later
      rw [Nat.succ_mul, Nat.add_mul] at ends
      have known : s.index < divCeil content.length chunkSize := (lt_divCeil hc).mpr (by omega)
      have size_eq : min (bytesRead - batchOffset) chunkSize =
          min (content.length - s.index * chunkSize) chunkSize := by omega
      have piece : (((content.drop (j * chunkSize)).take bytesRead).drop batchOffset).take
          (min (bytesRead - batchOffset) chunkSize) =
          (content.drop (s.index * chunkSize)).take
            (min (content.length - s.index * chunkSize) chunkSize) := by
        rw [List.drop_take, List.take_take, List.drop_drop, start, size_eq, min_eq_left (by omega)]
      have bound : s.index + 1 ≤ 2 ^ 32 - 1 := by omega
      rw [min_eq_left bound]
      refine ih _ aligned ⟨?_, ?_, known⟩ (by omega) (by omega)
      · simp only [List.range_succ, List.map_append, stands.chunks_eq, aligned, start, piece,
          List.map_singleton, chunkAt]
        rw [Nat.mod_eq_of_lt (by omega), size_eq]
      · rw [Nat.succ_mul]
        omega
    · obtain rfl : batchOffset = bytesRead := by omega
      exact ⟨stands, rfl⟩

theorem Scan.At.scan {k : ℕ} (fuel : ℕ) (hc : 0 < chunkSize) (hk : 0 < k)
    (hsize : chunkSize < 2 ^ 32) (fits : divCeil content.length chunkSize < 2 ^ 32)
    (hlen : content.length < 2 ^ 64) (stands : s.At h content chunkSize s.offset)
    (hfuel : content.length ≤ s.offset + fuel) :
    ∃ (pieces : List Bytes) (done : Scan σ), pieces.flatten = content.drop s.offset ∧
      scanBatches h chunkSize (k * chunkSize) content fuel s = .ok done ∧
      done.hasher = pieces.foldl h.update s.hasher ∧
      done.chunks =
        (List.range (divCeil content.length chunkSize)).map (chunkAt h content chunkSize) := by
  -- where the offset is the end of the file, there is no chunk that has not been pushed
  have finished (s : Scan σ) (stands : s.At h content chunkSize s.offset)
      (hend : content.length ≤ s.offset) : content.drop s.offset = [] ∧ s.chunks =
        (List.range (divCeil content.length chunkSize)).map (chunkAt h content chunkSize) := by
    refine ⟨List.drop_eq_nil_of_le hend, ?_⟩
    have all : ¬ s.index < divCeil content.length chunkSize := by
      have := stands.pos_eq
      rw [lt_divCeil hc]
      omega
    rw [stands.chunks_eq, le_antisymm stands.index_le (Nat.le_of_not_lt all)]
  induction fuel generalizing s with
  | zero =>
    obtain ⟨nothing, all⟩ := finished s stands hfuel
    exact ⟨[], s, nothing.symm, rfl, rfl, all⟩
  | succ fuel ih =>
    rw [scanBatches]
    split
    · rename_i more
      have start : s.offset = s.index * chunkSize := by
        have := stands.pos_eq
        omega
      have some_ : 0 < k * chunkSize := Nat.mul_pos hk hc
      generalize hread : min (content.length - s.offset) (k * chunkSize) = bytesRead
      have buffer : readExact content s.offset bytesRead =
          .ok ((content.drop s.offset).take bytesRead) := if_pos (by omega)
      have bound : s.offset + bytesRead ≤ 2 ^ 64 - 1 := by omega
      have pos : s.index * chunkSize + 0 = min (s.index * chunkSize) content.length := by
        rw [Nat.add_zero, ← stands.pos_eq, start]
      have cut := Scan.At.cut (h := h) (k := k)
        (s := { s with hasher := h.update s.hasher ((content.drop s.offset).take bytesRead) })
        bytesRead 0 hc hsize fits (by rw [← start, hread]) start
        ⟨stands.chunks_eq, pos, stands.index_le⟩ (Nat.zero_le _) (by omega)
      rw [← start] at cut
      simp only [buffer, min_eq_left bound]
      obtain ⟨pieces, done, flat, hdone, hashed, all⟩ :=
        ih (s := { cutBatch h chunkSize _ _ _ _ with offset := s.offset + bytesRead })
          ⟨cut.1.chunks_eq, cut.1.pos_eq, cut.1.index_le⟩ (by dsimp only; omega)
      refine ⟨(content.drop s.offset).take bytesRead :: pieces, done, ?_, hdone, ?_, all⟩
      · rw [List.flatten_cons, flat, ← List.drop_drop, List.take_append_drop]
      · rw [hashed, List.foldl_cons, cut.2]
    · obtain ⟨nothing, all⟩ := finished s stands (by omega)
      exact ⟨[], s, nothing.symm, rfl, rfl, all⟩

theorem hashReads_eq (wanted : ℕ → ℕ) (fuel : ℕ) (rest : Bytes) (hasher : σ)
    (hfuel : rest.length < fuel) : ∃ pieces : List Bytes, pieces.flatten = rest ∧
      hashReads h wanted fuel rest hasher = pieces.foldl h.update hasher := by
  induction fuel generalizing rest hasher with
  | zero => omega
  | succ fuel ih =>
    rw [hashReads]
    generalize hread : rest.take (max 1 (min (wanted rest.length) fileHashBufferBytes)) = read
    split
    · rename_i hempty
      subst hempty
      obtain rfl : rest = [] := by
        rcases List.take_eq_nil_iff.mp hread with hzero | hnil
        · omega
        · exact hnil
      exact ⟨[], rfl, rfl⟩
    · rename_i hsome
      have positive := List.length_pos_of_ne_nil hsome
      have first : read <+: rest := hread ▸ List.take_prefix _ _
      have shorter := first.length_le
      obtain ⟨pieces, flat, hashed⟩ := ih (rest.drop read.length) (h.update hasher read)
        (by rw [List.length_drop]; omega)
      refine ⟨read :: pieces, ?_, by rw [hashed, List.foldl_cons]⟩
      rw [List.flatten_cons, flat, List.prefix_iff_eq_append.mp first]

theorem computeFileHash_eq (h : Hashing σ) (algorithm : HashAlgorithm) (wanted : ℕ → ℕ)
    (content : Bytes) :
    computeFileHash h algorithm wanted content = h.fileHash algorithm content := by
  obtain ⟨pieces, flat, hashed⟩ := hashReads_eq (h := h) wanted (content.length + 1) content
    (h.new algorithm) (Nat.lt_succ_self _)
  rw [computeFileHash, hashed, h.finalize_foldl, flat]

theorem mapM_eq_ok {α β ε : Type} {f : α → Except ε β} {g : α → β} {l : List α}
    (all : ∀ a ∈ l, f a = .ok (g a)) : l.mapM f = .ok (l.map g) := by
  induction l with
  | nil => rfl
  | cons a rest ih =>
    rw [List.mapM_cons, all a List.mem_cons_self, ih fun b hb => all b (List.mem_cons_of_mem _ hb)]
    rfl

theorem generateChunkMetas_eq (h : Hashing σ) (content : Bytes) (m : ChunkManager)
    (fits : divCeil content.length m.chunkSize < 2 ^ 32) :
    m.generateChunkMetas h content content.length =
      .ok ((List.range (divCeil content.length m.chunkSize)).map
        (chunkAt h content m.chunkSize)) := by
  have hc : 0 < m.chunkSize := lt_of_lt_of_le (by decide) m.min_le
  rw [ChunkManager.generateChunkMetas, ChunkManager.calculateChunkCount, Nat.mod_eq_of_lt fits]
  refine mapM_eq_ok fun idx hidx => ?_
  have inside := (lt_divCeil hc).mp (List.mem_range.mp hidx)
  have data : readExact content (idx * m.chunkSize)
      (min (content.length - idx * m.chunkSize) m.chunkSize) = .ok _ := if_pos (by omega)
  simp only [data]
  rfl

theorem computeFileHashAndChunkMetas_eq (algorithm : HashAlgorithm) (hc : 0 < chunkSize)
    (upper : chunkSize ≤ maxChunkSize) (fits : divCeil content.length chunkSize < 2 ^ 32) :
    computeFileHashAndChunkMetas h algorithm chunkSize content =
      .ok (h.fileHash algorithm content,
        (List.range (divCeil content.length chunkSize)).map (chunkAt h content chunkSize)) := by
  have hsize : chunkSize < 2 ^ 32 := lt_of_le_of_lt upper (by decide)
  have hlen : content.length < 2 ^ 64 := by
    have most : divCeil content.length chunkSize * chunkSize ≤ 2 ^ 32 * maxChunkSize :=
      Nat.mul_le_mul fits.le upper
    exact lt_of_le_of_lt ((le_divCeil_mul _ hc).trans most) (by decide)
  have batch : ¬ 2 ^ 64 ≤ chunkSize * max (sourceScanBatchBytes / chunkSize) 1 := by
    have whole : chunkSize * (sourceScanBatchBytes / chunkSize) ≤ 2 ^ 32 :=
      (Nat.mul_div_le _ _).trans (by decide)
    rw [← Nat.mul_max_mul_left, Nat.mul_one]
    omega
  obtain ⟨pieces, done, flat, hdone, hashed, all⟩ :=
    Scan.At.scan (h := h) (s := { hasher := h.new algorithm })
      (k := max (sourceScanBatchBytes / chunkSize) 1) content.length hc (by omega) hsize fits hlen
        ⟨rfl, by simp, Nat.zero_le _⟩ (by simp)
  rw [computeFileHashAndChunkMetas, if_neg hc.ne', if_neg batch, Nat.mul_comm, hdone]
  rw [Except.map, hashed, h.finalize_foldl, flat, all]
  rfl

/-- The three layouts of a file agree, they tile it, and the scan hashes what is read. -/
theorem chunk_layouts_agree (h : Hashing σ) (algorithm : HashAlgorithm) (content : Bytes)
    (wanted : ℕ → ℕ) (lower : minChunkSize ≤ chunkSize) (upper : chunkSize ≤ maxChunkSize)
    (fits : divCeil content.length chunkSize ≤ 2 ^ 32 - 1) :
    ∃ layout metas : List ChunkMeta,
      buildChunkLayout content.length chunkSize = .ok layout ∧
      computeFileHashAndChunkMetas h algorithm chunkSize content =
        .ok (computeFileHash h algorithm wanted content, metas) ∧
      (ChunkManager.new chunkSize).generateChunkMetas h content content.length = .ok metas ∧
      metas.map (fun c => (c.index, c.offset, c.size)) =
        layout.map (fun c => (c.index, c.offset, c.size)) ∧
      metas.length = (ChunkManager.new chunkSize).calculateChunkCount content.length ∧
      TiledFrom 0 metas ∧ (∀ c ∈ metas, 0 < c.size) ∧
      (metas.map ChunkMeta.size).sum = content.length := by
  have hc : 0 < chunkSize := lt_of_lt_of_le (by decide) lower
  have hsize : chunkSize ≤ 2 ^ 32 - 1 := upper.trans (by decide)
  have fits' : divCeil content.length chunkSize < 2 ^ 32 := by omega
  have clamped : (ChunkManager.new chunkSize).chunkSize = chunkSize := by
    simp only [ChunkManager.new, min_eq_left upper, max_eq_right lower]
  have layout : buildChunkLayout content.length chunkSize = .ok _ :=
    (if_neg (by omega)).trans (if_neg (Nat.not_lt.mpr fits))
  have metas := generateChunkMetas_eq h content (.new chunkSize) (by rw [clamped]; exact fits')
  rw [clamped] at metas
  refine ⟨_, _, layout, ?_, metas, ?_, ?_, ?_, ?_, ?_⟩
  · rw [computeFileHashAndChunkMetas_eq algorithm hc upper fits', computeFileHash_eq]
  · rw [List.map_map, List.map_map]
    rfl
  · rw [List.length_map, List.length_range, ChunkManager.calculateChunkCount, clamped,
      Nat.mod_eq_of_lt fits']
  · have tiled := tiledFrom_chunkAt (h := h) 0 (divCeil content.length chunkSize) hc
      (Nat.zero_add _).le
    rwa [Nat.zero_mul, ← List.range_eq_range'] at tiled
  · intro c hmem
    obtain ⟨i, hi, rfl⟩ := List.mem_map.mp hmem
    exact chunkAt_size_pos hc (List.mem_range.mp hi)
  · have sum := sum_chunkAt h content chunkSize 0 (divCeil content.length chunkSize)
    have last := le_divCeil_mul content.length hc
    rw [Nat.zero_mul, Nat.zero_add, Nat.zero_add, ← List.range_eq_range'] at sum
    omega

theorem chunk_layouts_agree_two_chunks :
    ∃ layout metas : List ChunkMeta,
      buildChunkLayout 70000 65536 = .ok layout ∧
      computeFileHashAndChunkMetas plainHashing .sha256 65536 (List.replicate 70000 7) =
        .ok (computeFileHash plainHashing .sha256 id (List.replicate 70000 7), metas) ∧
      metas.length = 2 := by
  have h := chunk_layouts_agree plainHashing .sha256 (List.replicate 70000 7) id
    (show minChunkSize ≤ 65536 by decide) (by decide) (by rw [List.length_replicate]; decide)
  rw [List.length_replicate] at h
  obtain ⟨layout, metas, built, scanned, -, -, length, -⟩ := h
  exact ⟨layout, metas, built, scanned, length⟩

end Layout

end Chirps.FileTransfer
