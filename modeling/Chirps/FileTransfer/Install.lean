/-
# Installed files

The hash that is compared before a file is installed is computed from the chunks on their way to the
file, each only once. It is that of the file if the chunks tile it and none comes again with other
bytes.
-/

import Chirps.FileTransfer.Receive

namespace Chirps.FileTransfer

open Chirps.Library

variable {κ σ : Type*} {c : ReceiveConfig κ} {h : Hashing σ} {id : κ} {files files' : Files}

def HasChunk (chunks : List ChunkMeta) (content : Bytes) (index : ℕ) (data : Bytes) : Prop :=
  ∃ chunk, chunks[index]? = some chunk ∧ data.length = chunk.size ∧
    slice content chunk.offset chunk.size = data

variable {content data : Bytes} {index : ℕ} {chunk : ChunkMeta}

theorem HasChunk.writeAt {chunks : List ChunkMeta} (tiled : TiledFrom 0 chunks) {i : ℕ}
    (hchunk : chunks[index]? = some chunk) {piece : Bytes} (hdata : data.length = chunk.size)
    (has : HasChunk chunks content i piece) (same : i = index → piece = data) :
    HasChunk chunks (writeAt 0 content chunk.offset data) i piece := by
  obtain ⟨other, hother, hlength, hslice⟩ := has
  refine ⟨other, hother, hlength, ?_⟩
  -- the chunk itself, or one that the tiling keeps apart from it
  by_cases heq : i = index
  · obtain rfl := same heq
    subst heq
    cases hchunk.symm.trans hother
    rw [← hlength]
    exact slice_writeAt 0 content piece chunk.offset
  · rw [slice_writeAt_of_disjoint (by rw [hslice, hlength]), hslice]
    rw [hdata]
    exact tiled.disjoint hother hchunk heq

variable {m : TransferManifest κ}

theorem eq_flatten_of_hasChunk (sized : m.Sized) (tiled : m.Tiled)
    (hlength : content.length = m.fileSize) {pieces : List Bytes}
    (hcount : pieces.length = m.chunkCount)
    (has : ∀ i piece, pieces[i]? = some piece → HasChunk m.chunks content i piece) :
    content = pieces.flatten := by
  -- the pieces have the sizes of the chunks, so they have their offsets too
  have hsizes : pieces.map List.length = m.chunks.map ChunkMeta.size := by
    refine List.ext_getElem? fun i => ?_
    rw [List.getElem?_map, List.getElem?_map]
    cases hpiece : pieces[i]? with
    | none =>
      have hlt := List.getElem?_eq_none_iff.mp hpiece
      rw [List.getElem?_eq_none (by rw [sized.count]; omega)]
      rfl
    | some piece =>
      obtain ⟨chunk, hchunk, hsize, -⟩ := has i piece hpiece
      rw [hchunk, Option.map_some, Option.map_some, hsize]
  refine eq_flatten_of_slices (by rw [hsizes, sized.total, hlength]) fun i piece hpiece => ?_
  obtain ⟨chunk, hchunk, hsize, hslice⟩ := has i piece hpiece
  have hoffset : chunk.offset = ((pieces.take i).map List.length).sum := by
    rw [List.map_take, hsizes, ← List.map_take, TiledFrom.offset_eq tiled hchunk, Nat.zero_add]
  rw [← hoffset, hsize, hslice]

/-! ## The invariant -/

structure Tracks (c : ReceiveConfig κ) (h : Hashing σ) (id : κ) (files : Files)
    (m : TransferManifest κ) (dest : Path) (state : IncrementalReceiveHash σ) : Prop where
  sized : m.Sized
  tiled : m.Tiled
  algorithm : m.options.hashAlgorithm = m.hashAlgorithm
  content : ∃ content, files (c.tempPathFor dest id) = some content ∧
    content.length = m.fileSize ∧
    state.Holds h m.hashAlgorithm (HasChunk m.chunks content)

structure Hashed (c : ReceiveConfig κ) (h : Hashing σ) (id : κ) (files : Files)
    (e : Entry κ σ) : Prop where
  apart : ∀ s ∈ e.session, c.Apart id s.destPath
  tracks : ∀ state ∈ e.hash, ∃ s ∈ e.session, Tracks c h id files s.manifest s.destPath state
  installed : ∀ file ∈ e.installed, file.verifyOnComplete = true →
    h.fileHash file.algorithm file.content = file.fileHash

variable {dest : Path} {state : IncrementalReceiveHash σ}

theorem Tracks.digest (tracks : Tracks c h id files m dest state) {digest : Bytes}
    (hdigest : state.digest h m.chunkCount = some digest)
    (hcontent : files (c.tempPathFor dest id) = some content) :
    digest = h.fileHash m.hashAlgorithm content := by
  obtain ⟨content', hcontent', hlength, holds⟩ := tracks.content
  cases hcontent'.symm.trans hcontent
  obtain ⟨pieces, hcount, rfl, has⟩ := holds.digest_eq_some hdigest
  rw [eq_flatten_of_hasChunk tracks.sized tracks.tiled hlength hcount has]

theorem Tracks.writeAt (tracks : Tracks c h id files m dest state)
    (hcontent : files (c.tempPathFor dest id) = some content)
    (hchunk : m.chunks[index]? = some chunk) (hdata : data.length = chunk.size)
    (same : state.Recorded index → slice content chunk.offset chunk.size = data) :
    Tracks c h id (Function.update files (c.tempPathFor dest id)
      (some (writeAt 0 content chunk.offset data))) m dest state := by
  obtain ⟨content', hcontent', hlength, holds⟩ := tracks.content
  cases hcontent'.symm.trans hcontent
  refine ⟨tracks.sized, tracks.tiled, tracks.algorithm, _, Function.update_self .., ?_, ?_⟩
  · have hend := TiledFrom.end_le tracks.tiled hchunk
    rw [tracks.sized.total, Nat.zero_add] at hend
    rw [length_writeAt (by rw [hlength, hdata]; exact hend), hlength]
  · refine holds.mono fun i piece hrecorded has => has.writeAt tracks.tiled hchunk hdata ?_
    rintro rfl
    obtain ⟨other, hother, -, hslice⟩ := has
    cases hchunk.symm.trans hother
    rw [← hslice, same hrecorded]

theorem Tracks.record (tracks : Tracks c h id (Function.update files (c.tempPathFor dest id)
      (some (Library.writeAt 0 content chunk.offset data))) m dest state)
    (hchunk : m.chunks[index]? = some chunk) (hdata : data.length = chunk.size) :
    Tracks c h id (Function.update files (c.tempPathFor dest id)
      (some (Library.writeAt 0 content chunk.offset data))) m dest (state.record h index data) := by
  obtain ⟨written, hwritten, hlength, holds⟩ := tracks.content
  obtain rfl : Library.writeAt 0 content chunk.offset data = written := by
    simpa using hwritten
  refine ⟨tracks.sized, tracks.tiled, tracks.algorithm, _, hwritten, hlength, holds.record ?_⟩
  exact ⟨chunk, hchunk, hdata, by rw [← hdata]; exact slice_writeAt 0 content data chunk.offset⟩

namespace Hashed

variable {e : Entry κ σ} {s : TransferSession κ}

theorem congr (hashed : Hashed c h id files e)
    (hfiles : ∀ dest, files' (c.tempPathFor dest id) = files (c.tempPathFor dest id)) :
    Hashed c h id files' e where
  apart := hashed.apart
  tracks state hstate := by
    obtain ⟨s, hs, tracks⟩ := hashed.tracks state hstate
    obtain ⟨content, hcontent, hrest⟩ := tracks.content
    exact ⟨s, hs, tracks.sized, tracks.tiled, tracks.algorithm, content,
      (hfiles s.destPath).trans hcontent, hrest⟩
  installed := hashed.installed

theorem of_empty (files : Files) : Hashed c h id files (Entry.empty : Entry κ σ) where
  apart := by simp [Entry.empty]
  tracks := by simp [Entry.empty]
  installed := by simp [Entry.empty]

variable {saved : Bool}

section

variable (hashed : Hashed c h id files e)
include hashed

theorem save :
    Hashed c h id files (e.save c saved) where
  apart := by rw [Entry.save_session]; exact hashed.apart
  tracks := by rw [Entry.save_session, Entry.save_hash]; exact hashed.tracks
  installed := by rw [Entry.save_installed]; exact hashed.installed

theorem discard :
    Hashed c h id files { e with hash := none } where
  apart := hashed.apart
  tracks := by simp
  installed := hashed.installed

theorem setSession (hs : e.session = some s)
    {next : TransferSession κ} (hmanifest : next.manifest = s.manifest)
    (hdest : next.destPath = s.destPath) :
    Hashed c h id files { e with session := some next } where
  apart t ht := by
    cases ht
    exact hdest ▸ hashed.apart s hs
  tracks state hstate := by
    obtain ⟨t, ht, tracks⟩ := hashed.tracks state hstate
    cases hs.symm.trans ht
    exact ⟨next, rfl, by rw [hmanifest, hdest]; exact tracks⟩
  installed := hashed.installed

theorem forget :
    Hashed c h id files { e with session := none, hash := none } where
  apart := by simp
  tracks := by simp
  installed := hashed.installed

end

variable {m : TransferManifest κ} {content : Bytes}

theorem fileHash_of_placed (hashed : Hashed c h id files e) (hs : e.session = some s)
    (halgorithm : m.hashAlgorithm = s.manifest.hashAlgorithm)
    (hcount : m.chunkCount = s.manifest.chunkCount) {fault : Option DiskFault}
    (hplaced : verifyAndFinalize h files (c.tempPathFor s.destPath id) s.destPath m
      (e.hash.bind fun state => state.digest h m.chunkCount) fault = .placed content files')
    (hverify : m.options.verifyOnComplete = true) :
    h.fileHash m.hashAlgorithm content = m.fileHash := by
  obtain ⟨hcontent, -, hhash⟩ := verifyAndFinalize_placed hplaced
  have hcomputed := hhash hverify
  unfold computedHash at hcomputed
  split at hcomputed
  · rename_i digest hdigest
    -- the digest is that of the chunks, which are those of the file
    obtain ⟨state, hstate, hdigest⟩ := Option.bind_eq_some_iff.mp hdigest
    obtain ⟨t, ht, tracks⟩ := hashed.tracks state hstate
    cases hs.symm.trans ht
    rw [hcount] at hdigest
    rw [halgorithm, ← tracks.digest hdigest hcontent]
    exact Option.some.inj hcomputed
  · split at hcomputed
    · cases hcomputed
    · rw [hcontent] at hcomputed
      exact Option.some.inj hcomputed

theorem stop (hashed : Hashed c h id files e) (hs : e.session = some s)
    {next : TransferSession κ} (hdest : next.destPath = s.destPath) {installed : List Installed}
    (hinstalled : ∀ file ∈ installed, file.verifyOnComplete = true →
      h.fileHash file.algorithm file.content = file.fileHash) :
    Hashed c h id files' { e with session := some next, hash := none, installed := installed } where
  apart t ht := by
    cases ht
    exact hdest ▸ hashed.apart s hs
  tracks := by simp
  installed := hinstalled

variable {answers : Answers}

theorem finalizeSession (hashed : Hashed c h id files e) (hs : e.session = some s)
    (halgorithm : m.hashAlgorithm = s.manifest.hashAlgorithm)
    (hcount : m.chunkCount = s.manifest.chunkCount) :
    Hashed c h id (Entry.finalizeSession c h id e files s m answers).2
      (Entry.finalizeSession c h id e files s m answers).1 := by
  rw [Entry.finalizeSession]
  split
  · refine save (hashed.stop hs ?_ hashed.installed)
    rfl
  · rename_i hplaced
    refine save (hashed.stop hs ?_ fun file hfile => ?_)
    · rfl
    rcases List.mem_append.mp hfile with hfile | hfile
    · exact hashed.installed file hfile
    · obtain rfl := List.mem_singleton.mp hfile
      exact hashed.fileHash_of_placed hs halgorithm hcount hplaced

theorem entryInvariant :
    EntryInvariant c fun (id : κ) files (e : Entry κ σ) => Hashed c h id files e where
  congr := congr
  apart := apart
  save _ := save
  discard := discard
  forget := forget
  setState _ _ hs hashed := hashed.setSession hs rfl rfl

/-! ## Chunks -/

variable {index : ℕ} {data : Bytes} {chunk : ChunkMeta}

theorem publish (hashed : Hashed c h id (Function.update files (c.tempPathFor s.destPath id)
      (some (writeAt 0 content chunk.offset data))) e) (hs : e.session = some s)
    (hchunk : s.manifest.chunks[index]? = some chunk) (hdata : data.length = chunk.size) :
    Hashed c h id (Function.update files (c.tempPathFor s.destPath id)
      (some (writeAt 0 content chunk.offset data))) (e.publish c h s index data) where
  apart t ht := by
    cases ht
    exact hashed.apart s hs
  tracks state hstate := by
    obtain ⟨before, hbefore, rfl⟩ := Option.map_eq_some_iff.mp hstate
    obtain ⟨t, ht, tracks⟩ := hashed.tracks before hbefore
    cases hs.symm.trans ht
    exact ⟨s.advance index, rfl, tracks.record hchunk hdata⟩
  installed := hashed.installed

theorem completeChunk (hashed : Hashed c h id (Function.update files (c.tempPathFor s.destPath id)
      (some (writeAt 0 content chunk.offset data))) e) (hs : e.session = some s)
    (hchunk : s.manifest.chunks[index]? = some chunk) (hdata : data.length = chunk.size) :
    Hashed c h id
      (Entry.completeChunk c h id e (Function.update files (c.tempPathFor s.destPath id)
        (some (writeAt 0 content chunk.offset data))) s index data answers).2.1
      (Entry.completeChunk c h id e (Function.update files (c.tempPathFor s.destPath id)
        (some (writeAt 0 content chunk.offset data))) s index data answers).1 := by
  have hpublished := hashed.publish hs hchunk hdata
  rw [Entry.completeChunk]
  split
  · exact hashed
  split
  · exact hashed
  split
  · exact hpublished
  split
  · exact hpublished.finalizeSession (s := s.advance index) rfl rfl rfl
  · exact hpublished

def Repeats (c : ReceiveConfig κ) (h : Hashing σ) (id : κ) (files : Files) (e : Entry κ σ)
    (index : ℕ) (data : Bytes) (streamChecksum : UInt64) : Prop :=
  ∀ state ∈ e.hash, state.Recorded index → ∀ s ∈ e.session,
    ∀ chunk ∈ (Entry.checkChunk h s index data streamChecksum).toOption,
      ∀ content ∈ files (c.tempPathFor s.destPath id),
        slice content chunk.offset chunk.size = data

instance (files : Files) (e : Entry κ σ) (index : ℕ) (data : Bytes) (streamChecksum : UInt64) :
    Decidable (Repeats c h id files e index data streamChecksum) :=
  inferInstanceAs (Decidable (∀ state ∈ e.hash, state.Recorded index → ∀ s ∈ e.session,
    ∀ chunk ∈ (Entry.checkChunk h s index data streamChecksum).toOption,
      ∀ content ∈ files (c.tempPathFor s.destPath id),
        slice content chunk.offset chunk.size = data))

theorem write {streamChecksum : UInt64} (hashed : Hashed c h id files e) (hs : e.session = some s)
    (hcontent : files (c.tempPathFor s.destPath id) = some content)
    (hcheck : Entry.checkChunk h s index data streamChecksum = .ok chunk)
    (repeats : Repeats c h id files e index data streamChecksum) {verified : ℕ → Option Bytes} :
    Hashed c h id (Function.update files (c.tempPathFor s.destPath id)
      (some (writeAt 0 content chunk.offset data))) { e with verified := verified } where
  apart := hashed.apart
  tracks state hstate := by
    obtain ⟨t, ht, tracks⟩ := hashed.tracks state hstate
    cases hs.symm.trans ht
    obtain ⟨hchunk, hdata⟩ := Entry.checkChunk_eq_ok hcheck
    exact ⟨s, hs, tracks.writeAt hcontent hchunk hdata fun hrecorded =>
      repeats state hstate hrecorded s hs chunk (by rw [hcheck]; rfl) content hcontent⟩
  installed := hashed.installed

theorem handleChunkData {streamChecksum : UInt64} {next : Entry κ σ × Files × Option ChunkAck}
    (hashed : Hashed c h id files e) (repeats : Repeats c h id files e index data streamChecksum)
    (hnext : Entry.handleChunkData c h id e files index data streamChecksum answers = some next) :
    Hashed c h id next.2.1 next.1 := by
  rw [Entry.handleChunkData] at hnext
  split at hnext
  · cases hnext
    exact hashed
  rename_i s hs
  split at hnext
  · cases hnext
  · cases hnext
    refine discard (save (hashed.setSession hs ?_ ?_)) <;> rfl
  split at hnext
  · cases hnext
    exact hashed
  rename_i chunk hcheck
  dsimp only at hnext
  split at hnext <;> cases hnext
  · exact hashed.discard
  · -- the hash is dropped with a torn write
    exact ⟨hashed.apart, by simp, hashed.installed⟩
  · rename_i content hcontent htorn
    obtain ⟨hchunk, hdata⟩ := Entry.checkChunk_eq_ok hcheck
    exact (hashed.write hs hcontent hcheck repeats).completeChunk hs hchunk hdata

/-! ## Manifests -/

structure Regular (c : ReceiveConfig κ) (m : TransferManifest κ) (dest : Path) : Prop where
  tiled : m.Tiled
  algorithm : m.options.hashAlgorithm = m.hashAlgorithm
  apart : c.Apart m.sessionId dest

theorem openSession_hash {dest : Path} {resume : Option (TransferSession κ)}
    (hdone : (m.isEmpty || (Entry.newSession m dest resume).isComplete) = true) :
    (Entry.openSession c h e m dest resume saved).hash = none := by
  rw [Entry.openSession, Entry.save_hash]
  -- complete without a chunk to skip means that there are no chunks
  refine if_neg fun ⟨hskip, hempty, _⟩ => ?_
  rw [hempty, Bool.false_or] at hdone
  have hcompleted : (Entry.newSession m dest resume).completed = ∅ := by
    refine Finset.eq_empty_of_forall_notMem fun i hi => ?_
    have hlt : i < m.chunkCount := (Finset.mem_filter.mp hi).2
    have hmem := TransferSession.mem_completedBelow.mpr ⟨hlt, hi⟩
    rw [hskip] at hmem
    cases hmem
  have hcount : (Entry.newSession m dest resume).completed.card = m.chunkCount :=
    of_decide_eq_true hdone
  rw [hcompleted, Finset.card_empty] at hcount
  simp [TransferManifest.isEmpty, ← hcount] at hempty

theorem openSession {dest : Path} {resume : Option (TransferSession κ)}
    (hashed : Hashed c h m.sessionId files e) (sized : m.Sized) (regular : Regular c m dest) :
    Hashed c h m.sessionId (Function.update files (c.tempPathFor dest m.sessionId)
      (some (resize 0 ((files (c.tempPathFor dest m.sessionId)).getD []) m.fileSize)))
      (Entry.openSession c h e m dest resume saved) := by
  rw [Entry.openSession]
  refine save ⟨fun s hs => ?_, fun state hstate => ?_, hashed.installed⟩
  · cases hs
    exact regular.apart
  · refine ⟨_, rfl, sized, regular.tiled, regular.algorithm, _, Function.update_self ..,
      length_resize .., ?_⟩
    split at hstate
    · cases hstate
      change IncrementalReceiveHash.Holds h m.hashAlgorithm _ _
      rw [← regular.algorithm]
      exact IncrementalReceiveHash.Holds.new
    · cases hstate

theorem finishManifest {fault : Option DiskFault}
    (hashed : Hashed c h s.manifest.sessionId files e) (hs : e.session = some s)
    (hhash : (s.manifest.isEmpty || s.isComplete) = true → e.hash = none) :
    Hashed c h s.manifest.sessionId (Entry.finishManifest c h e files s fault).2.1
      (Entry.finishManifest c h e files s fault).1 := by
  rw [Entry.finishManifest]
  split
  · rename_i hdone
    split
    · exact hashed.setSession hs rfl rfl
    · split
      · refine ⟨by simp, ?_, hashed.installed⟩
        rw [hhash hdone]
        simp
      · rename_i content placed hplaced
        refine ⟨fun t ht => ?_, ?_, fun file hfile => ?_⟩
        · cases ht
          exact hashed.apart s hs
        · rw [hhash hdone]
          simp
        · rcases List.mem_append.mp hfile with hfile | hfile
          · exact hashed.installed file hfile
          · obtain rfl := List.mem_singleton.mp hfile
            have hbind : verifyAndFinalize h files
                (c.tempPathFor s.destPath s.manifest.sessionId) s.destPath s.manifest
                (e.hash.bind fun state => state.digest h s.manifest.chunkCount) fault =
                  .placed content placed := by
              rw [hhash hdone]
              exact hplaced
            exact hashed.fileHash_of_placed hs rfl rfl hbind
  · exact hashed

theorem handleManifest (hashed : Hashed c h m.sessionId files e)
    (regular : ∀ dest resume, Entry.checkManifest c e m = .ok (dest, resume) → Regular c m dest) :
    Hashed c h m.sessionId (Entry.handleManifest c h e files m answers).2.1
      (Entry.handleManifest c h e files m answers).1 := by
  rw [Entry.handleManifest]
  split
  · exact hashed
  rename_i dest resume haccepted
  cases answers.prepared with
  | resized =>
    exact (hashed.openSession (Entry.checkManifest_eq_ok haccepted).1
      (regular dest resume haccepted)).finishManifest (s := Entry.newSession m dest resume)
        (by rw [Entry.openSession, Entry.save_session]) openSession_hash
  | created =>
    -- creating the file changes nothing where one is there
    change Hashed c h m.sessionId (Function.update files (c.tempPathFor dest m.sessionId)
      (some ((files (c.tempPathFor dest m.sessionId)).getD []))) e
    refine ⟨hashed.apart, fun state hstate => ?_, hashed.installed⟩
    obtain ⟨s, hs, tracks⟩ := hashed.tracks state hstate
    obtain ⟨content, hcontent, hrest⟩ := tracks.content
    refine ⟨s, hs, tracks.sized, tracks.tiled, tracks.algorithm, content, ?_, hrest⟩
    by_cases heq : c.tempPathFor s.destPath m.sessionId = c.tempPathFor dest m.sessionId
    · rw [heq, Function.update_self, ← heq, hcontent, Option.getD_some]
    · rw [Function.update_of_ne heq, hcontent]
  | untouched => exact hashed

end Hashed

/-! ## Runs -/

namespace Receiver

variable [DecidableEq κ] {x next : Receiver κ σ} {event : ReceiveEvent κ}

/-- Manifests are regular, and hashed chunks come again only with the bytes that the file has. -/
def Faithful (c : ReceiveConfig κ) (h : Hashing σ) (x : Receiver κ σ) : ReceiveEvent κ → Prop
  | .manifest m _ => ∀ dest resume, (x.entries m.sessionId).checkManifest c m = .ok (dest, resume) →
    Hashed.Regular c m dest
  | .chunk id index data streamChecksum _ =>
    Hashed.Repeats c h id x.files (x.entries id) index data streamChecksum
  | _ => True

def AllHashed (c : ReceiveConfig κ) (h : Hashing σ) (x : Receiver κ σ) : Prop :=
  ∀ id, Hashed c h id x.files (x.entries id)

theorem AllHashed.step (all : x.AllHashed c h) (faithful : x.Faithful c h event)
    (hstep : x.step c h event = some next) : next.AllHashed c h := by
  refine Hashed.entryInvariant.step all ?_ ?_ ?_ hstep
  · rintro m answers rfl
    exact ⟨fun dest resume haccepted => (faithful dest resume haccepted).apart,
      (all _).handleManifest faithful⟩
  · rintro id index data streamChecksum answers result rfl hresult
    exact (all id).handleChunkData faithful hresult
  · exact fun hs halgorithm hcount hashed => hashed.finalizeSession hs halgorithm hcount

omit [DecidableEq κ] in
theorem allHashed_initial (files : Files) : (initial files : Receiver κ σ).AllHashed c h :=
  fun _ => Hashed.of_empty files

end Receiver

open Receiver in
/-- If manifests are regular and chunks are repeated only with the same bytes, an installed file has
the hash that it was checked against. -/
theorem installed_file_is_verified [DecidableEq κ] (c : ReceiveConfig κ) (h : Hashing σ)
    (files : Files) (events : List (ReceiveEvent κ)) (x : Receiver κ σ)
    (reach : run (step c h) (initial files) events = some x)
    (faithful : Along (step c h) (Faithful c h) (initial files) events) (id : κ)
    (file : Installed) (hfile : file ∈ (x.entries id).installed)
    (hverify : file.verifyOnComplete = true) :
    h.fileHash file.algorithm file.content = file.fileHash := by
  have all : x.AllHashed c h := run_invariant_of_along (I := AllHashed c h)
    (G := Faithful c h) (fun _ _ _ all faithful hstep => all.step faithful hstep)
    (allHashed_initial files) faithful reach
  exact (all id).installed file hfile hverify

/-! ## Runs with one session -/

def plainConfig : ReceiveConfig Unit where
  tempDir := none
  persistence := true
  validate _ path := .ok [path]
  display _ := "0"
  display_injective := fun _ _ _ => rfl
  display_length := fun _ _ => rfl

def plainHashing : Hashing Bytes where
  chunkChecksum data := UInt64.ofNat (data.map UInt8.toNat).sum
  fileHash _ content := content
  new _ := []
  update state data := state ++ data
  finalize state := state
  finalize_foldl _ pieces := by
    have hfold : ∀ start : Bytes, pieces.foldl (· ++ ·) start = start ++ pieces.flatten := by
      induction pieces with
      | nil => simp
      | cons piece rest ih => simp [ih]
    exact hfold []

def twoChunks (second : ℕ) : TransferManifest Unit where
  version := 2
  sessionId := ()
  sourcePath := "in"
  destPath := "out"
  fileSize := 2
  fileHash := []
  hashAlgorithm := .sha256
  chunkSize := 1
  chunkCount := 2
  chunks := [⟨0, 0, 1, 0⟩, ⟨1, second, 1, 0⟩]
  options := {}

/-- A chunk comes again with other bytes, or a manifest places both of its chunks at the beginning.
-/
theorem installed_file_is_not_verified :
    (run (Receiver.step plainConfig plainHashing) (Receiver.initial fun _ => none)
      [.manifest (twoChunks 1) {}, .chunk () 0 [1] 1 {}, .chunk () 0 [9] 9 {},
        .chunk () 1 [2] 2 {}, .finalize () ⟨2, [1, 2], .sha256⟩ {}]).map
      (fun x => ((x.entries ()).installed, x.files ["out"])) =
        some ([⟨true, .sha256, [1, 2], [9, 2]⟩], some [9, 2]) ∧
    (run (Receiver.step plainConfig plainHashing) (Receiver.initial fun _ => none)
      [.manifest (twoChunks 0) {}, .chunk () 0 [1] 1 {}, .chunk () 1 [2] 2 {},
        .finalize () ⟨2, [1, 2], .sha256⟩ {}]).map
      (fun x => ((x.entries ()).installed, x.files ["out"])) =
        some ([⟨true, .sha256, [1, 2], [2, 0]⟩], some [2, 0]) ∧
    plainHashing.fileHash .sha256 [9, 2] ≠ [1, 2] ∧
    plainHashing.fileHash .sha256 [2, 0] ≠ [1, 2] := by
  refine ⟨?_, ?_, ?_, ?_⟩ <;> decide +kernel

theorem installed_file_is_verified_out_of_order :
    ∃ x, run (Receiver.step plainConfig plainHashing) (Receiver.initial fun _ => none)
        [.manifest (twoChunks 1) {}, .chunk () 1 [2] 2 {}, .chunk () 1 [2] 2 {},
          .chunk () 0 [1] 1 {}, .finalize () ⟨2, [1, 2], .sha256⟩ {}] = some x ∧
      (x.entries ()).installed = [⟨true, .sha256, [1, 2], [1, 2]⟩] ∧
      plainHashing.fileHash .sha256 [1, 2] = [1, 2] := by
  refine exists_of_evaluated
    (fun x => (x.entries ()).installed = [⟨true, .sha256, [1, 2], [1, 2]⟩]) (by decide +kernel)
    fun x hx hinstalled => ⟨hinstalled, ?_⟩
  refine installed_file_is_verified plainConfig plainHashing (fun _ => none) _ x hx ?_ ()
    ⟨true, .sha256, [1, 2], [1, 2]⟩ (by simp [hinstalled]) rfl
  -- there is no other session whose file the destination could be
  have regular : ∀ dest, Hashed.Regular plainConfig (twoChunks 1) dest := fun dest =>
    ⟨by decide, rfl, fun id _ hne => absurd rfl hne⟩
  refine (along_cons rfl).mpr ⟨fun dest _ _ => regular dest, ?_⟩
  refine (along_cons rfl).mpr ⟨?_, (along_cons rfl).mpr ⟨?_, (along_cons rfl).mpr ⟨?_, ?_⟩⟩⟩
  · change Hashed.Repeats _ _ _ _ _ _ _ _
    decide +kernel
  · change Hashed.Repeats _ _ _ _ _ _ _ _
    decide +kernel
  · change Hashed.Repeats _ _ _ _ _ _ _ _
    decide +kernel
  · exact (along_cons rfl).mpr ⟨trivial, trivial⟩

end Chirps.FileTransfer
