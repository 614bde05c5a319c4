/-
# Resumed transfers

The set of completed chunks outlives the temporary file, which is removed or renamed. A session has
two outlines, in memory and on disk, and the chunks of both are in the temporary file as long as
there is one.
-/

import Chirps.FileTransfer.Install

namespace Chirps.FileTransfer

open Chirps.Library
open Option (getD_some map_eq_some_iff map_some)
open Function (update update_self)

variable {κ σ : Type*} {c : ReceiveConfig κ} {h : Hashing σ} {id : κ} {files files' : Files}

/-! ## Outlines -/

structure Outline where
  chunks : List ChunkMeta
  chunkCount : ℕ
  fileSize : ℕ
  destPath : Path
  completed : Finset ℕ

def TransferSession.outline (s : TransferSession κ) : Outline :=
  ⟨s.manifest.chunks, s.manifest.chunkCount, s.manifest.fileSize, s.destPath, s.completed⟩

namespace Outline

def Stored (c : ReceiveConfig κ) (id : κ) (files : Files) (verified : ℕ → Option Bytes)
    (o : Outline) (index : ℕ) : Prop :=
  ∃ chunk data, o.chunks[index]? = some chunk ∧ verified index = some data ∧
    data.length = chunk.size ∧ ∀ content ∈ files (c.tempPathFor o.destPath id),
      slice content chunk.offset chunk.size = data

structure Sound (c : ReceiveConfig κ) (id : κ) (files : Files) (verified : ℕ → Option Bytes)
    (o : Outline) : Prop where
  tiled : TiledFrom 0 o.chunks
  count : o.chunks.length = o.chunkCount
  total : (o.chunks.map ChunkMeta.size).sum = o.fileSize
  apart : c.Apart id o.destPath
  stored : ∀ index ∈ o.completed, o.Stored c id files verified index

variable {o p : Outline} {verified : ℕ → Option Bytes}

variable {index : ℕ}

section

variable (sound : o.Sound c id files verified)
include sound

theorem Sound.lt_chunkCount (hindex : index ∈ o.completed) : index < o.chunkCount := by
  obtain ⟨chunk, _, hchunk, -⟩ := sound.stored index hindex
  exact sound.count ▸ (List.getElem?_eq_some_iff.mp hchunk).1

theorem Sound.of_files
    (hfiles : o.completed.Nonempty → ∀ content' ∈ files' (c.tempPathFor o.destPath id),
      ∃ content ∈ files (c.tempPathFor o.destPath id), ∀ start n,
        (slice content start n).length = n → start + n ≤ o.fileSize →
          slice content' start n = slice content start n) :
    o.Sound c id files' verified where
  tiled := sound.tiled
  count := sound.count
  total := sound.total
  apart := sound.apart
  stored index hindex := by
    obtain ⟨chunk, data, hchunk, hverified, hlength, hslice⟩ := sound.stored index hindex
    refine ⟨chunk, data, hchunk, hverified, hlength, fun content' hcontent' => ?_⟩
    obtain ⟨content, hcontent, hsame⟩ := hfiles ⟨index, hindex⟩ content' hcontent'
    -- a chunk of a tiling ends inside the file
    have hend := sound.tiled.end_le hchunk
    rw [sound.total, Nat.zero_add] at hend
    rw [hsame _ _ (by rw [hslice content hcontent, hlength]) hend, hslice content hcontent]

theorem Sound.of_unchanged
    (hfiles : ∀ content ∈ files' (c.tempPathFor o.destPath id),
      content ∈ files (c.tempPathFor o.destPath id)) : o.Sound c id files' verified :=
  sound.of_files fun _ content hcontent => ⟨content, hfiles content hcontent, fun _ _ _ _ => rfl⟩

theorem Sound.write {chunk : ChunkMeta} {content data : Bytes}
    (hchunk : o.chunks[index]? = some chunk) (hdata : data.length = chunk.size)
    (hcontent : files (c.tempPathFor o.destPath id) = some content) :
    o.Sound c id (update files (c.tempPathFor o.destPath id)
      (some (writeAt 0 content chunk.offset data)))
      (update verified index (some data)) where
  tiled := sound.tiled
  count := sound.count
  total := sound.total
  apart := sound.apart
  stored i hi := by
    by_cases heq : i = index
    · subst heq
      refine ⟨chunk, data, hchunk, update_self .., hdata, fun written hwritten => ?_⟩
      obtain rfl : writeAt 0 content chunk.offset data = written := by simpa using hwritten
      rw [← hdata]
      exact slice_writeAt 0 content data chunk.offset
    · obtain ⟨other, piece, hother, hverified, hlength, hslice⟩ := sound.stored i hi
      refine ⟨other, piece, hother, by rwa [Function.update_of_ne heq], hlength,
        fun written hwritten => ?_⟩
      obtain rfl : writeAt 0 content chunk.offset data = written := by simpa using hwritten
      have hbefore := hslice content hcontent
      rw [slice_writeAt_of_disjoint (by rw [hbefore, hlength]), hbefore]
      rw [hdata]
      exact sound.tiled.disjoint hother hchunk heq

theorem Sound.tear {chunk : ChunkMeta} {content data : Bytes}
    (hchunk : o.chunks[index]? = some chunk) (hdata : data.length = chunk.size)
    (hcontent : files (c.tempPathFor o.destPath id) = some content) (written : ℕ)
    (same : index ∈ o.completed → slice content chunk.offset chunk.size = data) :
    o.Sound c id (update files (c.tempPathFor o.destPath id)
      (some (writeAt 0 content chunk.offset (data.take written)))) verified where
  tiled := sound.tiled
  count := sound.count
  total := sound.total
  apart := sound.apart
  stored i hi := by
    obtain ⟨other, piece, hother, hverified, hlength, hslice⟩ := sound.stored i hi
    refine ⟨other, piece, hother, hverified, hlength, fun torn htorn => ?_⟩
    obtain rfl : writeAt 0 content chunk.offset (data.take written) = torn := by
      simpa using htorn
    have hbefore := hslice content hcontent
    by_cases heq : i = index
    · subst heq
      rw [writeAt_take_of_slice (by rw [hdata]; exact same hi), hbefore]
    · rw [slice_writeAt_of_disjoint (by rw [hbefore, hlength]), hbefore]
      rw [List.length_take]
      have := sound.tiled.disjoint hother hchunk heq
      omega

end

end Outline

/-! ## What is known of a session -/

/-- The outlines in memory and on disk describe one file, and the one on disk is not
ahead. -/
structure Kept (c : ReceiveConfig κ) (id : κ) (files : Files) (verified : ℕ → Option Bytes)
    (active stored : Option Outline) : Prop where
  sound : ∀ o, o ∈ active ∨ o ∈ stored → o.Sound c id files verified
  chunks_eq : ∀ o ∈ active, ∀ p ∈ stored, p.chunks = o.chunks
  destPath_eq : ∀ o ∈ active, ∀ p ∈ stored, p.destPath = o.destPath
  subset : ∀ o ∈ active, ∀ p ∈ stored, p.completed ⊆ o.completed

namespace Kept

variable {verified verified' : ℕ → Option Bytes} {active stored : Option Outline} {o : Outline}

theorem of_sound (kept : Kept c id files verified active stored)
    (hsound : ∀ o, o ∈ active ∨ o ∈ stored → o.Sound c id files verified →
      o.Sound c id files' verified') : Kept c id files' verified' active stored where
  sound o ho := hsound o ho (kept.sound o ho)
  chunks_eq := kept.chunks_eq
  destPath_eq := kept.destPath_eq
  subset := kept.subset

theorem store (kept : Kept c id files verified active stored) :
    Kept c id files verified active active where
  sound o ho := kept.sound o (.inl (or_self_iff.mp ho))
  chunks_eq o ho p hp := by rw [Option.some.inj (hp.symm.trans ho)]
  destPath_eq o ho p hp := by rw [Option.some.inj (hp.symm.trans ho)]
  subset o ho p hp := by rw [Option.some.inj (hp.symm.trans ho)]

theorem drop (kept : Kept c id files verified active stored) :
    Kept c id files verified none stored where
  sound o ho := kept.sound o (.inr (ho.resolve_left (by simp)))
  chunks_eq := by simp
  destPath_eq := by simp
  subset := by simp

theorem of_active (kept : Kept c id files verified (some o) stored) {p : Outline}
    (hp : p ∈ some o ∨ p ∈ stored) :
    p.chunks = o.chunks ∧ p.destPath = o.destPath ∧ p.completed ⊆ o.completed := by
  rcases hp with hp | hp
  · cases hp
    exact ⟨rfl, rfl, Finset.Subset.refl _⟩
  · exact ⟨kept.chunks_eq o rfl p hp, kept.destPath_eq o rfl p hp, kept.subset o rfl p hp⟩

theorem complete (kept : Kept c id files verified (some o) stored) {index : ℕ}
    (hstored : o.Stored c id files verified index) {stored' : Option Outline}
    (hjournal : stored' = stored ∨
      stored' = stored.map fun p => { p with completed := insert index p.completed }) :
    Kept c id files verified (some { o with completed := insert index o.completed }) stored' := by
  -- both outlines speak of the same place, so the chunk is stored for both
  have hinsert : ∀ p, p ∈ some o ∨ p ∈ stored →
      Outline.Sound c id files verified { p with completed := insert index p.completed } := by
    intro p hp
    obtain ⟨hchunks, hdest, -⟩ := kept.of_active hp
    have sound := kept.sound p hp
    refine ⟨sound.tiled, sound.count, sound.total, sound.apart, fun i hi => ?_⟩
    rcases Finset.mem_insert.mp hi with rfl | hi
    · rw [Outline.Stored] at hstored ⊢
      rw [hchunks, hdest]
      exact hstored
    · exact sound.stored i hi
  rcases hjournal with rfl | rfl
  · refine ⟨fun p hp => ?_, fun p hp q hq => ?_, fun p hp q hq => ?_, fun p hp q hq => ?_⟩
    · rcases hp with hp | hp
      · cases hp
        exact hinsert o (.inl rfl)
      · exact kept.sound p (.inr hp)
    · cases hp
      exact kept.chunks_eq o rfl q hq
    · cases hp
      exact kept.destPath_eq o rfl q hq
    · cases hp
      exact (kept.subset o rfl q hq).trans (Finset.subset_insert _ _)
  · refine ⟨fun p hp => ?_, fun p hp q hq => ?_, fun p hp q hq => ?_, fun p hp q hq => ?_⟩
    · rcases hp with hp | hp
      · cases hp
        exact hinsert o (.inl rfl)
      · obtain ⟨q, hq, rfl⟩ := map_eq_some_iff.mp hp
        exact hinsert q (.inr hq)
    · cases hp
      obtain ⟨r, hr, rfl⟩ := map_eq_some_iff.mp hq
      exact kept.chunks_eq o rfl r hr
    · cases hp
      obtain ⟨r, hr, rfl⟩ := map_eq_some_iff.mp hq
      exact kept.destPath_eq o rfl r hr
    · cases hp
      obtain ⟨r, hr, rfl⟩ := map_eq_some_iff.mp hq
      exact Finset.insert_subset_insert _ (kept.subset o rfl r hr)

end Kept

/-! ## Entries -/

namespace Entry

variable {e : Entry κ σ} {s : TransferSession κ}

def active (e : Entry κ σ) : Option Outline := e.session.map TransferSession.outline

def stored (e : Entry κ σ) : Option Outline := e.load.map TransferSession.outline

def IsKept (c : ReceiveConfig κ) (id : κ) (files : Files) (e : Entry κ σ) : Prop :=
  Kept c id files e.verified e.active e.stored

theorem active_eq (hs : e.session = some s) : e.active = some s.outline := by
  rw [active, hs, map_some]

theorem stored_save (saved : Bool) :
    (e.save c saved).stored = e.stored ∨ (e.save c saved).stored = e.active := by
  rw [save]
  split
  · exact .inl rfl
  · rename_i s hs
    split
    · refine .inr ?_
      rw [active_eq hs]
      simp [stored, load, TransferSession.outline]
    · exact .inl rfl

theorem stored_publish (index : ℕ) (data : Bytes) :
    (e.publish c h s index data).stored = e.stored ∨
      (e.publish c h s index data).stored =
        e.stored.map fun p => { p with completed := insert index p.completed } := by
  rw [publish, stored, load]
  dsimp only
  split
  · cases hsaved : e.saved with
    | none => simp [stored, load, hsaved]
    | some t =>
      -- a record beyond the chunks of the stored session is left out when it is loaded
      by_cases hlt : index < t.manifest.chunkCount
      · refine .inr ?_
        have hcompleted : t.completed ∪
            ((e.progress ++ [index]).filter (· < t.manifest.chunkCount)).toFinset =
              insert index (t.completed ∪
                (e.progress.filter (· < t.manifest.chunkCount)).toFinset) := by
          rw [List.filter_append, List.filter_singleton, decide_eq_true hlt, cond_true,
            List.toFinset_append, ← Finset.union_assoc, List.toFinset_cons, List.toFinset_nil,
            Finset.union_insert, Finset.union_empty]
        simp only [stored, load, hsaved, map_some, TransferSession.outline, hcompleted]
      · refine .inl ?_
        have hcompleted : (e.progress ++ [index]).filter (· < t.manifest.chunkCount) =
            e.progress.filter (· < t.manifest.chunkCount) := by
          rw [List.filter_append, List.filter_singleton, decide_eq_false hlt, cond_false,
            List.append_nil]
        simp only [stored, load, hsaved, map_some, TransferSession.outline, hcompleted]
  · exact .inl rfl

namespace IsKept

section

variable (kept : e.IsKept c id files)
include kept

theorem save {saved : Bool} : (e.save c saved).IsKept c id files := by
  have hactive : (e.save c saved).active = e.active := by rw [active, active, save_session]
  rw [IsKept, hactive, save_verified]
  rcases stored_save (e := e) (c := c) saved with hstored | hstored <;> rw [hstored]
  · exact kept
  · exact kept.store

theorem setSession (hs : e.session = some s)
    {next : TransferSession κ} {hash : Option (IncrementalReceiveHash σ)}
    {installed : List Installed} (houtline : next.outline = s.outline) :
    IsKept c id files { e with session := some next, hash := hash, installed := installed } := by
  have hactive : ({ e with
      session := some next, hash := hash, installed := installed } : Entry κ σ).active =
        e.active := by
    rw [active_eq hs, ← houtline]
    rfl
  rw [IsKept, hactive]
  exact kept

theorem discard :
    IsKept c id files ({ e with hash := none } : Entry κ σ) := kept

theorem forget {hash : Option (IncrementalReceiveHash σ)} :
    IsKept c id files { e with session := none, hash := hash } := Kept.drop kept

theorem apart : ∀ s ∈ e.session, c.Apart id s.destPath :=
  fun s hs => (kept.sound s.outline (.inl (active_eq hs))).apart

theorem congr
    (hfiles : ∀ dest, files' (c.tempPathFor dest id) = files (c.tempPathFor dest id)) :
    e.IsKept c id files' :=
  Kept.of_sound kept fun o _ sound => sound.of_unchanged fun _ hcontent =>
    (hfiles o.destPath) ▸ hcontent

theorem outline_eq (hs : e.session = some s) {o : Outline}
    (ho : o ∈ e.active ∨ o ∈ e.stored) : o.chunks = s.manifest.chunks ∧
      o.destPath = s.destPath ∧ o.completed ⊆ s.completed := by
  rw [IsKept, active_eq hs] at kept
  rw [active_eq hs] at ho
  exact kept.of_active ho

theorem shrink (hs : e.session = some s)
    (hfiles : ∀ content ∈ files' (c.tempPathFor s.destPath id),
      content ∈ files (c.tempPathFor s.destPath id)) : e.IsKept c id files' := by
  refine Kept.of_sound kept fun o ho sound => sound.of_unchanged ?_
  rw [(kept.outline_eq hs ho).2.1]
  exact hfiles

end

variable {m : TransferManifest κ}

theorem finalized {precomputed : Option Bytes} {fault : Option DiskFault}
    (kept : e.IsKept c id files) (hs : e.session = some s) :
    (∀ error files', verifyAndFinalize h files (c.tempPathFor s.destPath id) s.destPath m
      precomputed fault = .failed error files' → e.IsKept c id files') ∧
    ∀ content files', verifyAndFinalize h files (c.tempPathFor s.destPath id) s.destPath m
      precomputed fault = .placed content files' → e.IsKept c id files' := by
  refine ⟨fun error files' hfailed => ?_, fun content files' hplaced => ?_⟩
  · rcases verifyAndFinalize_failed hfailed with rfl | rfl
    · exact kept
    · exact kept.shrink hs (by simp)
  · obtain ⟨hcontent, rfl, -⟩ := verifyAndFinalize_placed hplaced
    refine kept.shrink hs fun content' hcontent' => ?_
    -- the destination may be the temporary file itself
    by_cases heq : c.tempPathFor s.destPath id = s.destPath
    · rw [heq, update_self] at hcontent'
      rw [← Option.some.inj hcontent']
      exact hcontent
    · rw [Function.update_of_ne heq, update_self] at hcontent'
      cases hcontent'

variable {answers : Answers}

theorem finalizeSession (kept : e.IsKept c id files) (hs : e.session = some s) :
    (Entry.finalizeSession c h id e files s m answers).1.IsKept c id
      (Entry.finalizeSession c h id e files s m answers).2 := by
  rw [Entry.finalizeSession]
  split
  · rename_i hfailed
    refine save (((kept.finalized hs).1 _ _ hfailed).setSession hs ?_)
    rfl
  · rename_i hplaced
    refine save (((kept.finalized hs).2 _ _ hplaced).setSession hs ?_)
    rfl

theorem entryInvariant :
    EntryInvariant c fun (id : κ) files (e : Entry κ σ) => e.IsKept c id files where
  congr := congr
  apart := apart
  save _ kept := save kept
  discard := discard
  forget kept := forget kept
  setState _ _ hs kept := kept.setSession hs rfl

/-! ## Chunks -/

variable {index : ℕ} {data : Bytes}

theorem publish (kept : e.IsKept c id files) (hs : e.session = some s)
    (hstored : s.outline.Stored c id files e.verified index) :
    (e.publish c h s index data).IsKept c id files := by
  rw [IsKept, active_eq hs] at kept
  exact kept.complete hstored (stored_publish index data)

theorem completeChunk (kept : e.IsKept c id files) (hs : e.session = some s)
    (hstored : s.outline.Stored c id files e.verified index) :
    (Entry.completeChunk c h id e files s index data answers).1.IsKept c id
      (Entry.completeChunk c h id e files s index data answers).2.1 := by
  have hpublished : (e.publish c h s index data).IsKept c id files := kept.publish hs hstored
  rw [Entry.completeChunk]
  split
  · exact kept
  split
  · exact kept
  split
  · exact hpublished
  split
  · exact hpublished.finalizeSession rfl
  · exact hpublished

/-- No write of a completed chunk stops midway, unless it writes the bytes that are there. -/
def TearsNothing (c : ReceiveConfig κ) (h : Hashing σ) (id : κ) (files : Files) (e : Entry κ σ)
    (index : ℕ) (data : Bytes) (streamChecksum : UInt64) (answers : Answers) : Prop :=
  answers.torn.isSome → ∀ s ∈ e.session, index ∈ s.completed →
    ∀ chunk ∈ (checkChunk h s index data streamChecksum).toOption,
      ∀ content ∈ files (c.tempPathFor s.destPath id),
        slice content chunk.offset chunk.size = data

theorem write (kept : e.IsKept c id files) (hs : e.session = some s) {chunk : ChunkMeta}
    {content : Bytes} (hchunk : s.manifest.chunks[index]? = some chunk)
    (hdata : data.length = chunk.size)
    (hcontent : files (c.tempPathFor s.destPath id) = some content) :
    IsKept c id (update files (c.tempPathFor s.destPath id)
      (some (writeAt 0 content chunk.offset data)))
      { e with verified := update e.verified index (some data) } := by
  refine Kept.of_sound kept fun o ho sound => ?_
  obtain ⟨hchunks, hdest, -⟩ := kept.outline_eq hs ho
  have hwrite := sound.write (hchunks ▸ hchunk) hdata (hdest ▸ hcontent)
  rw [hdest] at hwrite
  exact hwrite

theorem tear (kept : e.IsKept c id files) (hs : e.session = some s) {chunk : ChunkMeta}
    {content : Bytes} (hchunk : s.manifest.chunks[index]? = some chunk)
    (hdata : data.length = chunk.size)
    (hcontent : files (c.tempPathFor s.destPath id) = some content) (written : ℕ)
    (same : index ∈ s.completed → slice content chunk.offset chunk.size = data) :
    IsKept c id (update files (c.tempPathFor s.destPath id)
      (some (writeAt 0 content chunk.offset (data.take written)))) e := by
  refine Kept.of_sound kept fun o ho sound => ?_
  obtain ⟨hchunks, hdest, hsubset⟩ := kept.outline_eq hs ho
  have htear := sound.tear (hchunks ▸ hchunk) hdata (hdest ▸ hcontent) written
    fun hindex => same (hsubset hindex)
  rw [hdest] at htear
  exact htear

theorem handleChunkData {streamChecksum : UInt64} {next : Entry κ σ × Files × Option ChunkAck}
    (kept : e.IsKept c id files)
    (tearsNothing : TearsNothing c h id files e index data streamChecksum answers)
    (hnext : Entry.handleChunkData c h id e files index data streamChecksum answers = some next) :
    next.1.IsKept c id next.2.1 := by
  rw [Entry.handleChunkData] at hnext
  split at hnext
  · cases hnext
    exact kept
  rename_i s hs
  split at hnext
  · cases hnext
  · cases hnext
    refine discard (save (kept.setSession hs ?_))
    rfl
  split at hnext
  · cases hnext
    exact kept
  rename_i chunk hcheck
  obtain ⟨hchunk, hdata⟩ := checkChunk_eq_ok hcheck
  dsimp only at hnext
  split at hnext <;> cases hnext
  · exact kept
  · rename_i content written hcontent htorn
    exact discard (kept.tear hs hchunk hdata hcontent written fun hindex =>
      tearsNothing (by rw [htorn]; rfl) s hs hindex chunk (by rw [hcheck]; rfl) content hcontent)
  · rename_i content hcontent htorn
    refine (kept.write hs hchunk hdata hcontent).completeChunk hs ⟨chunk, data, hchunk,
      update_self .., hdata, fun written hwritten => ?_⟩
    obtain rfl : writeAt 0 content chunk.offset data = written := by
      simpa [TransferSession.outline] using hwritten
    rw [← hdata]
    exact slice_writeAt 0 content data chunk.offset

/-! ## Manifests -/

/-- A manifest finds the session that it resumes, at the same destination, with the temporary file
if chunks are in it; and nothing on disk if it does not resume. -/
structure Continues (c : ReceiveConfig κ) (files : Files) (e : Entry κ σ)
    (m : TransferManifest κ) (dest : Path) (resume : Option (TransferSession κ)) : Prop where
  tiled : m.Tiled
  apart : c.Apart m.sessionId dest
  chunks_eq : ∀ s ∈ resume, s.manifest.chunks = m.chunks
  destPath_eq : ∀ s ∈ resume, s.destPath = dest
  present : ∀ s ∈ resume, s.completed.Nonempty →
    (files (c.tempPathFor dest m.sessionId)).isSome
  fresh : resume = none → e.saved = none

theorem resumed_covers {resumable : Bool} (kept : e.IsKept c id files)
    (fresh : e.resumed resumable = none → e.saved = none) {o : Outline}
    (ho : o ∈ e.active ∨ o ∈ e.stored) :
    ∃ s, e.resumed resumable = some s ∧ o.chunks = s.manifest.chunks ∧
      o.destPath = s.destPath ∧ o.completed ⊆ s.completed := by
  cases hs : e.session with
  | some s =>
    refine ⟨s, by rw [resumed, hs], ?_⟩
    exact kept.outline_eq hs ho
  | none =>
    -- without a session in memory a manifest that does not resume must find nothing
    have hstored : o ∈ e.stored := ho.resolve_left (by simp [active, hs])
    obtain ⟨s, hload, rfl⟩ := map_eq_some_iff.mp hstored
    cases resumable with
    | true => exact ⟨s, by rw [resumed, hs]; exact hload, rfl, rfl, Finset.Subset.refl _⟩
    | false =>
      have hsaved : e.saved = none := fresh (by rw [resumed, hs]; rfl)
      rw [load, hsaved] at hload
      cases hload

theorem sound_of_resumed {resumable : Bool} (kept : e.IsKept c id files)
    (hs : e.resumed resumable = some s) : s.outline.Sound c id files e.verified := by
  rw [resumed] at hs
  split at hs
  · rename_i t ht
    cases hs
    exact kept.sound _ (.inl (active_eq ht))
  · split at hs
    · exact kept.sound _ (.inr (by rw [stored, hs]; rfl))
    · cases hs

section Open

variable {m : TransferManifest κ} {dest : Path} {resume : Option (TransferSession κ)}

theorem prepared (kept : e.IsKept c m.sessionId files) (sized : m.Sized)
    (hresume : resume = e.resumed m.options.resumable)
    (continues : Continues c files e m dest resume) (content' : Bytes)
    (hcontent' : ∀ content ∈ files (c.tempPathFor dest m.sessionId), ∀ start n,
      (slice content start n).length = n → start + n ≤ m.fileSize →
        slice content' start n = slice content start n) :
    e.IsKept c m.sessionId
      (update files (c.tempPathFor dest m.sessionId) (some content')) := by
  subst hresume
  refine Kept.of_sound kept fun o ho sound => sound.of_files fun hnonempty written hwritten => ?_
  obtain ⟨s, hs, hchunks, hdest, hsubset⟩ := kept.resumed_covers continues.fresh ho
  -- the chunks of `o` are among those that the manifest resumes, and their file is there
  have hdest' : o.destPath = dest := hdest.trans (continues.destPath_eq s hs)
  rw [hdest'] at hwritten ⊢
  obtain rfl : content' = written := by simpa using hwritten
  obtain ⟨content, hcontent⟩ :=
    Option.isSome_iff_exists.mp (continues.present s hs (hnonempty.mono hsubset))
  have hsize : o.fileSize = m.fileSize := by
    rw [← sound.total, ← sized.total, hchunks, continues.chunks_eq s hs]
  exact ⟨content, hcontent, hsize ▸ hcontent' content hcontent⟩

theorem exists_resumed_of_mem {i : ℕ} (hi : i ∈ resume.elim ∅ TransferSession.completed) :
    ∃ s ∈ resume, i ∈ s.completed := by
  cases resume with
  | none => cases hi
  | some s => exact ⟨s, rfl, hi⟩

theorem newSession_sound (kept : e.IsKept c m.sessionId files) (sized : m.Sized)
    (hresume : resume = e.resumed m.options.resumable)
    (continues : Continues c files' e m dest resume) :
    (newSession m dest resume).outline.Sound c m.sessionId files e.verified where
  tiled := continues.tiled
  count := sized.count
  total := sized.total
  apart := continues.apart
  stored i hi := by
    obtain ⟨s, hs, hmem⟩ := exists_resumed_of_mem (Finset.mem_filter.mp hi).1
    have hstored := (kept.sound_of_resumed (hresume ▸ hs)).stored i hmem
    rw [Outline.Stored] at hstored ⊢
    rw [← show s.outline.chunks = (newSession m dest resume).outline.chunks from
        continues.chunks_eq s hs,
      ← show s.outline.destPath = (newSession m dest resume).outline.destPath from
        continues.destPath_eq s hs]
    exact hstored

theorem openSession (kept : e.IsKept c m.sessionId files) (sized : m.Sized)
    (hresume : resume = e.resumed m.options.resumable)
    (continues : Continues c files' e m dest resume) {saved : Bool} :
    (Entry.openSession c h e m dest resume saved).IsKept c m.sessionId files := by
  -- what stays on disk if the save fails is covered by the new session
  have hcovers : ∀ p ∈ e.stored, p.chunks = m.chunks ∧ p.destPath = dest ∧
      p.completed ⊆ (newSession m dest resume).completed := by
    intro p hp
    obtain ⟨s, hs, hchunks, hdest, hsubset⟩ :=
      kept.resumed_covers (hresume ▸ continues.fresh) (.inr hp)
    have hresumed : resume = some s := hresume.trans hs
    refine ⟨hchunks.trans (continues.chunks_eq s hresumed),
      hdest.trans (continues.destPath_eq s hresumed), fun i hi => ?_⟩
    have hlt := (kept.sound_of_resumed hs).lt_chunkCount (hsubset hi)
    have hcount : s.manifest.chunkCount = m.chunkCount := by
      rw [← sized.count, ← continues.chunks_eq s hresumed]
      exact ((kept.sound_of_resumed hs).count).symm
    refine Finset.mem_filter.mpr ⟨?_, hcount ▸ hlt⟩
    rw [hresumed]
    exact hsubset hi
  rw [Entry.openSession]
  refine save ⟨fun o ho => ?_, fun o ho p hp => ?_, fun o ho p hp => ?_, fun o ho p hp => ?_⟩
  · rcases ho with ho | ho
    · cases ho
      exact kept.newSession_sound sized hresume continues
    · exact kept.sound o (.inr ho)
  · cases ho
    exact (hcovers p hp).1
  · cases ho
    exact (hcovers p hp).2.1
  · cases ho
    exact (hcovers p hp).2.2

end Open

theorem finishManifest {fault : Option DiskFault} (kept : e.IsKept c s.manifest.sessionId files)
    (hs : e.session = some s) :
    (Entry.finishManifest c h e files s fault).1.IsKept c s.manifest.sessionId
      (Entry.finishManifest c h e files s fault).2.1 := by
  rw [Entry.finishManifest]
  split
  · split
    · refine kept.setSession hs ?_
      rfl
    · split
      · rename_i hfailed
        exact forget ((kept.finalized hs).1 _ _ hfailed)
      · rename_i hplaced
        refine setSession ((kept.finalized hs).2 _ _ hplaced) hs ?_
        rfl
  · exact kept

theorem handleManifest (kept : e.IsKept c m.sessionId files)
    (continues : ∀ dest resume, checkManifest c e m = .ok (dest, resume) →
      Continues c files e m dest resume) :
    (Entry.handleManifest c h e files m answers).1.IsKept c m.sessionId
      (Entry.handleManifest c h e files m answers).2.1 := by
  rw [Entry.handleManifest]
  split
  · exact kept
  rename_i dest resume haccepted
  obtain ⟨sized, hresume, -⟩ := checkManifest_eq_ok haccepted
  have hcontinues := continues dest resume haccepted
  cases answers.prepared with
  | resized =>
    have hprepared := kept.prepared sized hresume hcontinues
      (resize 0 ((files (c.tempPathFor dest m.sessionId)).getD []) m.fileSize)
      fun content hcontent start n full fits => by
        rw [hcontent, getD_some]
        exact slice_resize full fits
    exact (hprepared.openSession sized hresume hcontinues).finishManifest
      (s := newSession m dest resume) (by rw [Entry.openSession, save_session])
  | created =>
    exact kept.prepared sized hresume hcontinues _ fun content hcontent start n _ _ => by
      rw [hcontent, getD_some]
  | untouched => exact kept

end IsKept

end Entry

/-! ## Runs -/

/-- The chunk has in the temporary file of the session the bytes that were verified last. -/
def Present (c : ReceiveConfig κ) (id : κ) (files : Files) (e : Entry κ σ)
    (s : TransferSession κ) (index : ℕ) : Prop :=
  ∃ content data, files (c.tempPathFor s.destPath id) = some content ∧
    e.verified index = some data ∧ HasChunk s.manifest.chunks content index data

theorem Outline.Stored.present {e : Entry κ σ} {s : TransferSession κ} {index : ℕ}
    (stored : s.outline.Stored c id files e.verified index) {content : Bytes}
    (hcontent : files (c.tempPathFor s.destPath id) = some content) :
    Present c id files e s index := by
  obtain ⟨chunk, data, hchunk, hverified, hlength, hslice⟩ := stored
  exact ⟨content, data, hcontent, hverified, chunk, hchunk, hlength, hslice content hcontent⟩

theorem eq_ok_of_mem_toOption {ε α : Type*} {result : Except ε α} {a : α}
    (h : a ∈ result.toOption) : result = .ok a := by
  cases result with
  | error error => cases h
  | ok found => rw [Option.some.inj h]

namespace Receiver

variable {x next : Receiver κ σ} {event : ReceiveEvent κ}

/-- Every chunk that is reported as present is. Those of a manifest are as its session finds them.
-/
def Reports (c : ReceiveConfig κ) (h : Hashing σ) (x : Receiver κ σ) : ReceiveEvent κ → Prop
  | .request id request => ∀ response ∈
      ((x.entries id).handleTransferRequest c x.files request).toOption,
    ∀ index ∈ response.existingChunks, ∃ s ∈ (x.entries id).resumed true,
      Present c id x.files (x.entries id) s index
  | .manifest m answers => ∀ admitted ∈ ((x.entries m.sessionId).checkManifest c m).toOption,
    ∀ files ∈ (prepareTempFile x.files (c.tempPathFor admitted.1 m.sessionId) m.fileSize
      answers.prepared).toOption,
    ∀ index ∈ (Entry.newSession m admitted.1 admitted.2).completedBelow m.chunkCount,
      Present c m.sessionId files
        ((x.entries m.sessionId).openSession c h m admitted.1 admitted.2 answers.saved)
        (Entry.newSession m admitted.1 admitted.2) index
  | _ => True

/-- Requests find the temporary file of their chunks, manifests continue, and no write tears a
completed chunk. -/
def Resumes (c : ReceiveConfig κ) (h : Hashing σ) (x : Receiver κ σ) : ReceiveEvent κ → Prop
  | .request id request => request.options.resumable = true →
    ∀ s ∈ (x.entries id).resumed true, s.completed.Nonempty →
      (x.files (c.tempPathFor s.destPath id)).isSome
  | .manifest m _ => ∀ dest resume, (x.entries m.sessionId).checkManifest c m = .ok (dest, resume) →
    Entry.IsKept.Continues c x.files (x.entries m.sessionId) m dest resume
  | .chunk id index data streamChecksum answers =>
    Entry.IsKept.TearsNothing c h id x.files (x.entries id) index data streamChecksum answers
  | _ => True

def AllKept (c : ReceiveConfig κ) (x : Receiver κ σ) : Prop :=
  ∀ id, (x.entries id).IsKept c id x.files

theorem mem_existingChunks {e : Entry κ σ} {request : TransferRequest}
    {response : TransferResponse} {index : ℕ}
    (hresponse : e.handleTransferRequest c files request = .ok response)
    (hindex : index ∈ response.existingChunks) :
    request.options.resumable = true ∧ ∃ s ∈ e.resumed true, index ∈ s.completed := by
  rw [Entry.handleTransferRequest] at hresponse
  split at hresponse
  · cases hresponse
  split at hresponse
  · cases hresponse
    cases hindex
  split at hresponse
  · rename_i hresumable
    split at hresponse
    · cases hresponse
      cases hindex
    · rename_i s hs
      split at hresponse
      · cases hresponse
        cases hindex
      · cases hresponse
        exact ⟨hresumable, s, hs, (TransferSession.mem_completedBelow.mp hindex).2⟩
  · cases hresponse
    cases hindex

theorem AllKept.reports (all : x.AllKept c) (resumes : x.Resumes c h event) :
    x.Reports c h event := by
  cases event with
  | request id request =>
    intro response hresponse index hindex
    obtain ⟨hresumable, s, hs, hmem⟩ :=
      mem_existingChunks (eq_ok_of_mem_toOption hresponse) hindex
    obtain ⟨content, hcontent⟩ :=
      Option.isSome_iff_exists.mp (resumes hresumable s hs ⟨index, hmem⟩)
    exact ⟨s, hs, (((all id).sound_of_resumed hs).stored index hmem).present hcontent⟩
  | manifest m answers =>
    rintro ⟨dest, resume⟩ hadmitted files hfiles index hindex
    have hok := eq_ok_of_mem_toOption hadmitted
    obtain ⟨sized, hresume, -⟩ := Entry.checkManifest_eq_ok hok
    have hcontinues := resumes dest resume hok
    have hmem := (TransferSession.mem_completedBelow.mp hindex).2
    cases hprepared : answers.prepared with
    | resized =>
      rw [hprepared] at hfiles
      cases hfiles
      have hkept := (all m.sessionId).prepared sized hresume hcontinues
        (resize 0 ((x.files (c.tempPathFor dest m.sessionId)).getD []) m.fileSize)
        fun content hcontent start n full fits => by
          rw [hcontent, getD_some]
          exact slice_resize full fits
      have hstored := (hkept.newSession_sound sized hresume hcontinues).stored index hmem
      have hverified : ((x.entries m.sessionId).openSession c h m dest resume
          answers.saved).verified = (x.entries m.sessionId).verified := by
        rw [Entry.openSession, Entry.save_verified]
      rw [← hverified] at hstored
      exact hstored.present (update_self ..)
    | created => rw [hprepared] at hfiles; cases hfiles
    | untouched => rw [hprepared] at hfiles; cases hfiles
  | _ => trivial

variable [DecidableEq κ]

theorem AllKept.step (all : x.AllKept c) (resumes : x.Resumes c h event)
    (hstep : x.step c h event = some next) : next.AllKept c := by
  refine Entry.IsKept.entryInvariant.step all ?_ ?_ ?_ hstep
  · rintro m answers rfl
    exact ⟨fun dest resume haccepted => (resumes dest resume haccepted).apart,
      (all _).handleManifest resumes⟩
  · rintro id index data streamChecksum answers result rfl hresult
    exact (all id).handleChunkData resumes hresult
  · exact fun hs _ _ kept => kept.finalizeSession hs

end Receiver

end Chirps.FileTransfer
