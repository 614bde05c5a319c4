/-
# Batches of Raft envelopes on one stream

Raft envelopes to a peer are appended to a shared stream, each behind its length. A call that is
cancelled at a write leaves part of an envelope, and what the next call writes is read as its
rest.
-/

import Chirps.Library.Framing
import Chirps.Library.LittleEndian
import Chirps.Library.Run

namespace Chirps.Transport

open Chirps.Library Chirps.Library.LittleEndian
open List (append_nil forall_mem_nil length_take nil_prefix replicate)
open Function (update update_of_ne update_self)

/-! ## The format -/

def raftBatchStreamMagic : UInt8 := 0xB7

def chunkStreamMagic : UInt8 := 0x46

def frameEnvelopeV2HeaderSize : ℕ := 29

def maxEnvelopeSize : ℕ := 256 * 1024

def maxBatchEnvelopesPerStream : ℕ := 1024

/-- An envelope lies behind its length, whose most significant byte comes first. -/
def batchFraming : Framing UInt8 where
  width := 4
  header body := (toLe 4 body.length).reverse
  announced header := ofLe header.reverse
  Fits body := body.length < 2 ^ 32
  width_pos := by decide
  length_header _ := by rw [List.length_reverse, length_toLe]
  announced_header _ h := by rw [List.reverse_reverse, ofLe_toLe_of_lt h]

/-! ## Sending -/

/-- What was written to a stream, and the envelopes of which a part was written. -/
structure StreamLog where
  bytes : List UInt8
  sent : List (List UInt8)

/-- `BatchStream`: the number of the stream instead of the stream. -/
structure BatchStream where
  stream : ℕ
  envelopes : ℕ

/-- Where a call of `send_batched_envelope` waits. -/
inductive BatchStage
  /-- In `open_uni`. -/
  | opening
  /-- In `write_u8`, for the marker. -/
  | marking (stream : ℕ)
  /-- In `write_u32` or `write_all`: what is left to be written of the length and the
  envelope. -/
  | writing (remaining : List UInt8)

structure BatchCall where
  encoded : List UInt8
  stage : BatchStage

def BatchCall.unwritten (call : BatchCall) : Bool :=
  match call.stage with
  | .writing remaining => remaining = batchFraming.frame call.encoded
  | .opening | .marking _ => true

/-- The streams to one peer, the peer's entry in the map and the call that holds the lock. -/
structure Batching where
  streams : ℕ → StreamLog
  opened : ℕ
  entry : Option BatchStream
  call : Option BatchCall

inductive BatchEvent
  /-- A call gets the lock. -/
  | lock (encoded : List UInt8)
  | opened (success : Bool)
  | marked (success : Bool)
  /-- The stream has taken the next bytes. -/
  | wrote (count : ℕ)
  | failed
  | cancelled
  /-- The entry is taken out after the connection was closed or found dead. -/
  | removed

namespace Batching

def initial : Batching := ⟨fun _ => ⟨[], []⟩, 0, none, none⟩

def unlock (x : Batching) : Batching := { x with call := none }

def goto (x : Batching) (encoded : List UInt8) (stage : BatchStage) : Batching :=
  { x with call := some ⟨encoded, stage⟩ }

def enter (x : Batching) (stream : ℕ) : Batching :=
  { x with
    streams := update x.streams stream ⟨[raftBatchStreamMagic], []⟩
    entry := some ⟨stream, 0⟩ }

/-- The stream takes a part of the frame of `encoded`. -/
def append (x : Batching) (stream : ℕ) (encoded part remaining : List UInt8) : Batching :=
  let log := x.streams stream
  { x with
    streams := update x.streams stream
      ⟨log.bytes ++ part,
        if remaining = batchFraming.frame encoded then log.sent ++ [encoded] else log.sent⟩ }

def finish (x : Batching) (batchSize : ℕ) (batch : BatchStream) : Batching :=
  { x with
    entry := if batchSize ≤ batch.envelopes + 1 then none
      else some { batch with envelopes := batch.envelopes + 1 } }

def step (batchSize : ℕ) (x : Batching) : BatchEvent → Option Batching
  | .lock encoded =>
    if x.call.isSome then none
    -- the length does not fit: the call returns an error
    else if 2 ^ 32 ≤ encoded.length then some x
    else match x.entry with
      | none => some (x.goto encoded .opening)
      | some _ => some (x.goto encoded (.writing (batchFraming.frame encoded)))
  | .opened success =>
    match x.call with
    | some ⟨encoded, .opening⟩ =>
      if success then some ({ x with opened := x.opened + 1 }.goto encoded (.marking x.opened))
      else some x.unlock
    | _ => none
  | .marked success =>
    match x.call with
    | some ⟨encoded, .marking stream⟩ =>
      if success then
        some ((x.enter stream).goto encoded (.writing (batchFraming.frame encoded)))
      else some x.unlock
    | _ => none
  | .wrote count =>
    match x.call, x.entry with
    | some ⟨encoded, .writing remaining⟩, some batch =>
      if 0 < count ∧ count ≤ remaining.length then
        let written := x.append batch.stream encoded (remaining.take count) remaining
        if remaining.drop count = [] then some (written.finish batchSize batch).unlock
        else some (written.goto encoded (.writing (remaining.drop count)))
      else none
    | _, _ => none
  | .failed =>
    match x.call with
    | some ⟨_, .writing _⟩ => some { x.unlock with entry := none }
    | _ => none
  | .cancelled => if x.call.isSome then some x.unlock else none
  | .removed => if x.call.isSome then none else some { x with entry := none }

/-- No call is cancelled after a part of its envelope was written. -/
def CancelsBefore (x : Batching) : BatchEvent → Prop
  | .cancelled => ∀ call ∈ x.call, call.unwritten
  | _ => True

instance (x : Batching) : ∀ event, Decidable (x.CancelsBefore event)
  | .cancelled => Option.decidableForallMem _
  | .lock _ | .opened _ | .marked _ | .wrote _ | .failed | .removed => isTrue trivial

def Writes (x : Batching) (s : ℕ) : Prop :=
  ∃ encoded remaining batch, x.call = some ⟨encoded, .writing remaining⟩ ∧
    x.entry = some batch ∧ batch.stream = s

inductive Moves (batchSize : ℕ) (x : Batching) : BatchEvent → Batching → Prop
  | refuse {encoded : List UInt8} : Moves batchSize x (.lock encoded) x
  | start {encoded : List UInt8} (free : x.call = none) (fits : batchFraming.Fits encoded)
      (vacant : x.entry = none) : Moves batchSize x (.lock encoded) (x.goto encoded .opening)
  | join {encoded : List UInt8} {batch : BatchStream} (free : x.call = none)
      (fits : batchFraming.Fits encoded) (occupied : x.entry = some batch) :
      Moves batchSize x (.lock encoded) (x.goto encoded (.writing (batchFraming.frame encoded)))
  | opened {encoded : List UInt8} (call : x.call = some ⟨encoded, .opening⟩) :
      Moves batchSize x (.opened true)
        ({ x with opened := x.opened + 1 }.goto encoded (.marking x.opened))
  | enter {encoded : List UInt8} {stream : ℕ} (call : x.call = some ⟨encoded, .marking stream⟩) :
      Moves batchSize x (.marked true)
        ((x.enter stream).goto encoded (.writing (batchFraming.frame encoded)))
  | part {encoded remaining : List UInt8} {batch : BatchStream} {count : ℕ}
      (call : x.call = some ⟨encoded, .writing remaining⟩) (occupied : x.entry = some batch)
      (some_taken : remaining.take count ≠ []) (some_left : remaining.drop count ≠ []) :
      Moves batchSize x (.wrote count)
        ((x.append batch.stream encoded (remaining.take count) remaining).goto encoded
          (.writing (remaining.drop count)))
  | whole {encoded remaining : List UInt8} {batch : BatchStream} {count : ℕ}
      (call : x.call = some ⟨encoded, .writing remaining⟩) (occupied : x.entry = some batch)
      (some_taken : remaining ≠ []) : Moves batchSize x (.wrote count)
        ((x.append batch.stream encoded remaining remaining).finish batchSize batch).unlock
  | leave {event : BatchEvent} {call : BatchCall} (busy : x.call = some call)
      (unwritten : x.CancelsBefore event → call.unwritten) : Moves batchSize x event x.unlock
  | drop {event : BatchEvent} : Moves batchSize x event { x.unlock with entry := none }

theorem moves_of_step {batchSize : ℕ} {x next : Batching} {event : BatchEvent}
    (h : x.step batchSize event = some next) : Moves batchSize x event next := by
  cases event with
  | lock encoded =>
    obtain ⟨hfree, h⟩ := Option.ite_none_left_eq_some.mp h
    rw [Option.not_isSome_iff_eq_none] at hfree
    split at h
    · cases h
      exact .refuse
    · rename_i hfits
      split at h
      · rename_i hvacant
        cases h
        exact .start hfree (Nat.lt_of_not_le hfits) hvacant
      · rename_i batch hoccupied
        cases h
        exact .join hfree (Nat.lt_of_not_le hfits) hoccupied
  | opened success =>
    rw [step] at h
    split at h
    · rename_i encoded hcall
      cases success with
      | true =>
        cases h
        exact .opened hcall
      | false =>
        cases h
        exact .leave hcall fun _ => rfl
    · cases h
  | marked success =>
    rw [step] at h
    split at h
    · rename_i encoded stream hcall
      cases success with
      | true =>
        cases h
        exact .enter hcall
      | false =>
        cases h
        exact .leave hcall fun _ => rfl
    · cases h
  | wrote count =>
    rw [step] at h
    split at h
    · rename_i encoded remaining batch hcall hentry
      obtain ⟨hcount, h⟩ := Option.ite_none_right_eq_some.mp h
      have htaken : remaining.take count ≠ [] := by
        apply List.ne_nil_of_length_pos
        rw [length_take]
        omega
      dsimp only at h
      split at h
      · rename_i hdone
        have hall : remaining.take count = remaining :=
          List.take_of_length_le (List.drop_eq_nil_iff.mp hdone)
        cases h
        rw [hall]
        exact .whole hcall hentry (hall ▸ htaken)
      · rename_i hleft
        cases h
        exact .part hcall hentry htaken hleft
    · cases h
  | failed =>
    rw [step] at h
    split at h
    · cases h
      exact .drop
    · cases h
  | cancelled =>
    obtain ⟨hbusy, h⟩ := Option.ite_none_right_eq_some.mp h
    obtain ⟨call, hcall⟩ := Option.isSome_iff_exists.mp hbusy
    cases h
    exact .leave hcall fun hbefore => hbefore call hcall
  | removed =>
    obtain ⟨hfree, h⟩ := Option.ite_none_left_eq_some.mp h
    rw [Option.not_isSome_iff_eq_none] at hfree
    cases h
    have hsame : { x with entry := none } = { x.unlock with entry := none } := by
      rw [unlock, ← hfree]
    rw [hsame]
    exact .drop

end Batching

/-! ## Receiving -/

/-- The loop of `handle_stream` over a batch of `bytes` up to `ending`; `process` decodes and
processes an envelope. It returns what was handed to `process`. -/
def readBatch (process : List UInt8 → Except String Unit) (ending : Except String Unit) :
    ℕ → ℕ → List UInt8 → List (List UInt8) × Except String Unit
  | 0, _, _ => ([], ending)
  | fuel + 1, count, bytes =>
    let length := ofLe (bytes.take 4).reverse
    let rest := bytes.drop 4
    if bytes = [] then ([], ending)
    else if bytes.length < 4 then
      ([], ending.bind fun _ => .error "truncated raft batch length")
    else if length < frameEnvelopeV2HeaderSize ∨ maxEnvelopeSize < length then
      ([], .error "invalid raft batch envelope length")
    else if rest.length < length then
      ([], ending.bind fun _ => .error "truncated raft batch envelope")
    else match process (rest.take length) with
      | .error message => ([rest.take length], .error message)
      | .ok _ =>
        if maxBatchEnvelopesPerStream < count + 1 then
          ([rest.take length], .error "raft batch stream envelope limit exceeded")
        else
          let (more, result) := readBatch process ending fuel (count + 1) (rest.drop length)
          (rest.take length :: more, result)

/-- A stream that is no batch is one envelope. Envelopes take bytes, whose number is fuel enough. -/
def handleStream (process : List UInt8 → Except String Unit) (ending : Except String Unit)
    (bytes : List UInt8) : List (List UInt8) × Except String Unit :=
  match bytes with
  | [] => ([], ending.bind fun _ => .error "stream finished early (0 bytes read)")
  | first :: rest =>
    if first = chunkStreamMagic then ([], .ok ())
    else if first = raftBatchStreamMagic then readBatch process ending rest.length 0 rest
    else if maxEnvelopeSize - 1 < rest.length then ([], .error "stream too long")
    else match ending with
      | .error message => ([], .error message)
      | .ok _ =>
        if bytes.length < frameEnvelopeV2HeaderSize then ([], .error "empty stream")
        else ([bytes], process bytes)

theorem frame_take {bytes : List UInt8} {length : ℕ} (hlong : ¬ bytes.length < 4)
    (hlength : length = ofLe (bytes.take 4).reverse) (hbody : ¬ (bytes.drop 4).length < length) :
    batchFraming.frame ((bytes.drop 4).take length) ++ (bytes.drop 4).drop length = bytes := by
  have hbytes := toLe_ofLe (bytes.take 4).reverse
  have hfour : (bytes.take 4).reverse.length = 4 := by
    rw [List.length_reverse, length_take]
    omega
  have htake : ((bytes.drop 4).take length).length = length := by
    rw [length_take]
    omega
  rw [hfour, ← hlength] at hbytes
  have hheader : batchFraming.header ((bytes.drop 4).take length) = bytes.take 4 := by
    change (toLe 4 (List.length _)).reverse = _
    rw [htake, hbytes, List.reverse_reverse]
  rw [Framing.frame, hheader, List.append_assoc, List.take_append_drop, List.take_append_drop]

theorem frames_readBatch (process : List UInt8 → Except String Unit) (ending : Except String Unit)
    (fuel count : ℕ) (bytes : List UInt8) :
    (∀ encoded ∈ (readBatch process ending fuel count bytes).1, batchFraming.Fits encoded) ∧
      batchFraming.frames (readBatch process ending fuel count bytes).1 <+: bytes := by
  -- the ways out of the loop that come first hand on nothing
  induction fuel generalizing count bytes with
  | zero => exact ⟨forall_mem_nil _, nil_prefix⟩
  | succ fuel ih =>
    rw [readBatch]
    dsimp only
    split
    · exact ⟨forall_mem_nil _, nil_prefix⟩
    · split
      · exact ⟨forall_mem_nil _, nil_prefix⟩
      · rename_i hlong
        split
        · exact ⟨forall_mem_nil _, nil_prefix⟩
        · rename_i hrange
          split
          · exact ⟨forall_mem_nil _, nil_prefix⟩
          · rename_i hbody
            have hframe := frame_take hlong rfl hbody
            have hfits : batchFraming.Fits
                ((bytes.drop 4).take (ofLe (bytes.take 4).reverse)) := by
              have hmax : maxEnvelopeSize < 2 ^ 32 := by decide
              change List.length _ < 2 ^ 32
              rw [length_take]
              omega
            have hone : batchFraming.frames [(bytes.drop 4).take (ofLe (bytes.take 4).reverse)] <+:
                bytes := by
              conv_rhs => rw [← hframe]
              rw [Framing.frames_cons, Framing.frames_nil, append_nil]
              exact List.prefix_append _ _
            split
            · exact ⟨List.forall_mem_singleton.mpr hfits, hone⟩
            · split
              · exact ⟨List.forall_mem_singleton.mpr hfits, hone⟩
              · obtain ⟨hmore, hfirst⟩ :=
                  ih (count + 1) ((bytes.drop 4).drop (ofLe (bytes.take 4).reverse))
                refine ⟨List.forall_mem_cons.mpr ⟨hfits, hmore⟩, ?_⟩
                conv_rhs => rw [← hframe]
                rw [Framing.frames_cons, List.prefix_append_right_inj]
                exact hfirst

/-! ## What is on the streams -/

namespace StreamLog

def Whole (log : StreamLog) : Prop :=
  log.bytes = raftBatchStreamMagic :: batchFraming.frames log.sent

/-- The stream ends in a part of its last batch. -/
def Torn (log : StreamLog) : Prop :=
  ∃ before last tail, log.sent = before ++ [last] ∧ tail <+: batchFraming.frame last ∧
    tail ≠ batchFraming.frame last ∧
    log.bytes = raftBatchStreamMagic :: (batchFraming.frames before ++ tail)

/-- Nothing, or the marker and envelopes of which the last one may be incomplete. -/
def Framed (log : StreamLog) : Prop := log = ⟨[], []⟩ ∨ log.Whole ∨ log.Torn

structure Lacks (log : StreamLog) (encoded remaining : List UInt8) (before : List (List UInt8))
    (written : List UInt8) : Prop where
  frame : written ++ remaining = batchFraming.frame encoded
  bytes : log.bytes = raftBatchStreamMagic :: (batchFraming.frames before ++ written)
  sent : log.sent = if written = [] then before else before ++ [encoded]

variable {log : StreamLog}

theorem Whole.not_torn (h : log.Whole) : ¬ log.Torn := by
  rintro ⟨before, last, tail, hsent, -, hshort, hbytes⟩
  rw [h, hsent, Framing.frames_append, Framing.frames_cons, Framing.frames_nil, append_nil,
    List.cons_inj_right, List.append_cancel_left_eq] at hbytes
  exact hshort hbytes.symm

theorem Whole.lacks (h : log.Whole) (encoded : List UInt8) :
    log.Lacks encoded (batchFraming.frame encoded) log.sent [] where
  frame := rfl
  bytes := by rw [h, append_nil]
  sent := by rw [if_pos rfl]

variable {encoded written : List UInt8} {before : List (List UInt8)}

theorem Lacks.framed {remaining : List UInt8} (h : log.Lacks encoded remaining before written)
    (hremaining : remaining ≠ []) : log.Framed := by
  by_cases hwritten : written = []
  · refine .inr (.inl ?_)
    rw [Whole, h.bytes, h.sent, if_pos hwritten, hwritten, append_nil]
  · refine .inr (.inr ⟨before, encoded, written, ?_, ⟨remaining, h.frame⟩, ?_, h.bytes⟩)
    · rw [h.sent, if_neg hwritten]
    · intro heq
      have hframe := h.frame
      rw [← heq, List.append_right_eq_self] at hframe
      exact hremaining hframe

theorem Lacks.append {part rest : List UInt8} (h : log.Lacks encoded (part ++ rest) before written)
    (hpart : part ≠ []) :
    StreamLog.Lacks ⟨log.bytes ++ part, if part ++ rest = batchFraming.frame encoded then
      log.sent ++ [encoded] else log.sent⟩ encoded rest before (written ++ part) where
  frame := by rw [List.append_assoc, h.frame]
  bytes := by rw [h.bytes, List.cons_append, List.append_assoc]
  sent := by
    have hfirst : part ++ rest = batchFraming.frame encoded ↔ written = [] := by
      rw [← h.frame, eq_comm, List.append_left_eq_self]
    have hsome : written ++ part ≠ [] := List.append_ne_nil_of_right_ne_nil written hpart
    rw [if_neg hsome, h.sent]
    by_cases hwritten : written = []
    · rw [if_pos (hfirst.mpr hwritten), if_pos hwritten]
    · rw [if_neg (mt hfirst.mp hwritten), if_neg hwritten]

theorem Lacks.whole (h : log.Lacks encoded [] before written) : log.Whole := by
  have hframe := h.frame
  rw [append_nil] at hframe
  have hsome : written ≠ [] := hframe ▸ Framing.frame_ne_nil encoded
  rw [Whole, h.bytes, h.sent, if_neg hsome, Framing.frames_append, hframe, Framing.frames_cons,
    Framing.frames_nil, append_nil]

end StreamLog

namespace Batching

/-- The stream in the map has whole envelopes, except for the one under way. -/
def Sound (x : Batching) : Prop :=
  match x.call with
  | none => ∀ batch ∈ x.entry, (x.streams batch.stream).Whole
  | some ⟨encoded, .opening⟩ => batchFraming.Fits encoded ∧ x.entry = none
  | some ⟨encoded, .marking stream⟩ =>
    batchFraming.Fits encoded ∧ x.entry = none ∧ x.streams stream = ⟨[], []⟩ ∧ stream < x.opened
  | some ⟨encoded, .writing remaining⟩ =>
    batchFraming.Fits encoded ∧ remaining ≠ [] ∧ ∃ batch, x.entry = some batch ∧
      ∃ before written, (x.streams batch.stream).Lacks encoded remaining before written

structure Inv (x : Batching) : Prop where
  framed : ∀ s, (x.streams s).Framed
  fits : ∀ s, ∀ encoded ∈ (x.streams s).sent, batchFraming.Fits encoded
  fresh : ∀ s, x.opened ≤ s → x.streams s = ⟨[], []⟩
  entered : ∀ batch ∈ x.entry, batch.stream < x.opened
  sound : x.Sound

theorem inv_initial : initial.Inv where
  framed _ := .inl rfl
  fits _ _ h := by cases h
  fresh _ _ := rfl
  entered _ h := by cases h
  sound _ h := by cases h

variable {x : Batching} {s : ℕ}

theorem Inv.setStream (inv : x.Inv) (hs : s < x.opened) {log : StreamLog} (hframed : log.Framed)
    (hfits : ∀ encoded ∈ log.sent, batchFraming.Fits encoded) {entry : Option BatchStream}
    {call : Option BatchCall} (hentry : ∀ batch ∈ entry, batch.stream = s)
    (hsound : Sound ⟨update x.streams s log, x.opened, entry, call⟩) :
    Inv ⟨update x.streams s log, x.opened, entry, call⟩ where
  framed := (Function.forall_update_iff x.streams fun _ log => log.Framed).mpr
    ⟨hframed, fun r _ => inv.framed r⟩
  fits := (Function.forall_update_iff x.streams
    fun _ log => ∀ encoded ∈ log.sent, batchFraming.Fits encoded).mpr ⟨hfits, fun r _ => inv.fits r⟩
  fresh r hr :=
    (update_of_ne (Nat.ne_of_gt (Nat.lt_of_lt_of_le hs hr)) ..).trans (inv.fresh r hr)
  entered batch hbatch := hentry batch hbatch ▸ hs
  sound := hsound

theorem Inv.fits_append (inv : x.Inv) (s : ℕ) {encoded : List UInt8}
    (hfits : batchFraming.Fits encoded) (first : Prop) [Decidable first] :
    ∀ e ∈ if first then (x.streams s).sent ++ [encoded] else (x.streams s).sent,
      batchFraming.Fits e := by
  split
  · intro e he
    rcases List.mem_append.mp he with hold | hnew
    · exact inv.fits s e hold
    · obtain rfl := List.mem_singleton.mp hnew
      exact hfits
  · exact inv.fits s

variable {batchSize : ℕ}

theorem Inv.step {next : Batching} {event : BatchEvent} (inv : x.Inv)
    (before : x.CancelsBefore event) (h : x.step batchSize event = some next) : next.Inv := by
  have hsound := inv.sound
  cases moves_of_step h with
  | refuse => exact inv
  | start free fits vacant => exact { inv with sound := ⟨fits, vacant⟩ }
  | join free fits occupied =>
    rename_i encoded batch
    -- what the calls before have left on the stream is whole
    rw [Sound, free] at hsound
    refine { inv with sound := ⟨fits, Framing.frame_ne_nil encoded, batch, occupied, ?_⟩ }
    exact ⟨_, _, (hsound batch occupied).lacks encoded⟩
  | opened call =>
    rw [Sound, call] at hsound
    refine { inv with fresh := ?_, entered := ?_, sound := ?_ }
    · exact fun s hs => inv.fresh s (Nat.le_of_succ_le hs)
    · exact fun batch hbatch => Nat.lt_succ_of_lt (inv.entered batch hbatch)
    · exact ⟨hsound.1, hsound.2, inv.fresh _ (Nat.le_refl _), Nat.lt_succ_self _⟩
  | enter call =>
    rename_i encoded stream
    rw [Sound, call] at hsound
    obtain ⟨hfits, -, -, hopened⟩ := hsound
    have hwhole : StreamLog.Whole ⟨[raftBatchStreamMagic], []⟩ := rfl
    refine inv.setStream hopened (.inr (.inl hwhole)) nofun ?_ ?_
    · exact fun batch hbatch => by cases hbatch; rfl
    · refine ⟨hfits, Framing.frame_ne_nil encoded, _, rfl, [], [], ?_⟩
      dsimp only
      rw [update_self]
      exact hwhole.lacks encoded
  | part call occupied some_taken some_left =>
    rename_i encoded remaining batch count
    rw [Sound, call] at hsound
    obtain ⟨hfits, -, batch', hentry, done, written, hlacks⟩ := hsound
    cases occupied.symm.trans hentry
    rw [← List.take_append_drop count remaining] at hlacks
    have happend := hlacks.append some_taken
    rw [List.take_append_drop] at happend
    refine inv.setStream (inv.entered batch occupied) (happend.framed some_left)
      (inv.fits_append batch.stream hfits _) (fun other hother => ?_) ?_
    · rw [Option.some.inj (occupied.symm.trans hother)]
    · refine ⟨hfits, some_left, batch, occupied, done, written ++ remaining.take count, ?_⟩
      dsimp only
      rw [update_self]
      exact happend
  | whole call occupied some_taken =>
    rename_i encoded remaining batch count
    rw [Sound, call] at hsound
    obtain ⟨hfits, -, batch', hentry, done, written, hlacks⟩ := hsound
    cases occupied.symm.trans hentry
    rw [← append_nil remaining] at hlacks
    have happend := hlacks.append some_taken
    rw [append_nil] at happend
    -- the entry is the same batch, or gone
    have hbatch : ∀ other ∈ if batchSize ≤ batch.envelopes + 1 then none
        else some { batch with envelopes := batch.envelopes + 1 }, other.stream = batch.stream := by
      intro other hother
      obtain ⟨-, ⟨⟩⟩ := Option.ite_none_left_eq_some.mp hother
      rfl
    refine inv.setStream (inv.entered batch occupied) (.inr (.inl happend.whole))
      (inv.fits_append batch.stream hfits _) hbatch ?_
    intro other hother
    dsimp only
    rw [hbatch other hother, update_self]
    exact happend.whole
  | leave busy unwritten =>
    rename_i call
    refine { inv with sound := ?_ }
    obtain ⟨encoded, stage⟩ := call
    rw [Sound, busy] at hsound
    intro batch hbatch
    cases stage with
    | opening => cases hsound.2.symm.trans hbatch
    | marking stream => cases hsound.2.1.symm.trans hbatch
    | writing remaining =>
      obtain ⟨hfits, -, batch', hentry, done, written, hlacks⟩ := hsound
      cases hbatch.symm.trans hentry
      -- nothing of the envelope is there
      have hframe := hlacks.frame
      rw [of_decide_eq_true (unwritten before), List.append_left_eq_self] at hframe
      have hbytes := hlacks.bytes
      have hsent := hlacks.sent
      rw [if_pos hframe] at hsent
      rw [hframe, append_nil, ← hsent] at hbytes
      exact hbytes
  | drop =>
    refine { inv with entered := ?_, sound := ?_ }
    · exact nofun
    · exact nofun

/-! ### Streams that are not written any more -/

structure Closed (x : Batching) (s : ℕ) : Prop where
  opened : s < x.opened
  entry : ∀ batch ∈ x.entry, batch.stream ≠ s
  call : ∀ encoded, x.call ≠ some ⟨encoded, .marking s⟩

theorem Closed.step {next : Batching} {event : BatchEvent} (closed : x.Closed s)
    (h : x.step batchSize event = some next) : next.Closed s ∧ next.streams s = x.streams s := by
  cases moves_of_step h with
  | refuse => exact ⟨closed, rfl⟩
  | start free fits vacant => exact ⟨⟨closed.opened, closed.entry, nofun⟩, rfl⟩
  | join free fits occupied => exact ⟨⟨closed.opened, closed.entry, nofun⟩, rfl⟩
  | opened call =>
    refine ⟨⟨Nat.lt_succ_of_lt closed.opened, closed.entry, fun encoded h => ?_⟩, rfl⟩
    cases h
    exact Nat.lt_irrefl _ closed.opened
  | enter call =>
    rename_i encoded stream
    have hne : stream ≠ s := by
      rintro rfl
      exact closed.call encoded call
    refine ⟨⟨closed.opened, fun batch hbatch => ?_, nofun⟩, ?_⟩
    · cases hbatch
      exact hne
    · exact update_of_ne hne.symm ..
  | part call occupied some_taken some_left =>
    refine ⟨⟨closed.opened, closed.entry, nofun⟩, ?_⟩
    exact update_of_ne (closed.entry _ occupied).symm ..
  | whole call occupied some_taken =>
    rename_i encoded remaining batch count
    refine ⟨⟨closed.opened, fun other hother => ?_, nofun⟩, ?_⟩
    · rw [finish] at hother
      obtain ⟨-, ⟨⟩⟩ := Option.ite_none_left_eq_some.mp hother
      exact closed.entry batch occupied
    · exact update_of_ne (closed.entry _ occupied).symm ..
  | leave busy unwritten => exact ⟨⟨closed.opened, closed.entry, nofun⟩, rfl⟩
  | drop => exact ⟨⟨closed.opened, nofun, nofun⟩, rfl⟩

theorem Closed.streams_eq {y : Batching} (closed : x.Closed s) {events : List BatchEvent}
    (h : run (Batching.step batchSize) x events = some y) : y.streams s = x.streams s := by
  have hkept : y.Closed s ∧ y.streams s = x.streams s :=
    run_invariant (I := fun y => y.Closed s ∧ y.streams s = x.streams s)
      (fun _ _ _ h hstep => ⟨(h.1.step hstep).1, (h.1.step hstep).2.trans h.2⟩) ⟨closed, rfl⟩ h
  exact hkept.2

theorem Inv.closed (inv : x.Inv) (torn : (x.streams s).Torn) (idle : ¬ x.Writes s) :
    x.Closed s := by
  have hnonempty : x.streams s ≠ ⟨[], []⟩ := by
    obtain ⟨before, last, tail, hsent, -⟩ := torn
    intro hempty
    rw [hempty] at hsent
    exact List.append_ne_nil_of_right_ne_nil before (List.cons_ne_nil _ _) hsent.symm
  refine ⟨Nat.lt_of_not_le fun hle => hnonempty (inv.fresh s hle), ?_, ?_⟩
  · -- the stream in the map is whole, or a call writes to it
    rintro batch hbatch rfl
    have hsound := inv.sound
    rw [Sound] at hsound
    split at hsound
    · exact (hsound batch hbatch).not_torn torn
    · cases hsound.2.symm.trans hbatch
    · cases hsound.2.1.symm.trans hbatch
    · rename_i encoded remaining hcall
      exact idle ⟨encoded, remaining, batch, hcall, hbatch, rfl⟩
  · intro encoded hcall
    have hsound := inv.sound
    rw [Sound, hcall] at hsound
    exact hnonempty hsound.2.2.1

end Batching

theorem StreamLog.Framed.decodes {log : StreamLog} (framed : log.Framed)
    (fits : ∀ encoded ∈ log.sent, batchFraming.Fits encoded) {received : List UInt8}
    (hreceived : received <+: log.bytes) (process : List UInt8 → Except String Unit)
    (ending : Except String Unit) : (handleStream process ending received).1 <+: log.sent := by
  cases received with
  | nil => exact nil_prefix
  | cons first rest =>
    rcases framed with rfl | hwhole | ⟨before, last, tail, hsent, htail, hshort, hbytes⟩
    · cases List.prefix_nil.mp hreceived
    · rw [hwhole, List.cons_prefix_cons] at hreceived
      obtain ⟨rfl, hrest⟩ := hreceived
      obtain ⟨hread, hfirst⟩ := frames_readBatch process ending rest.length 0 rest
      exact Framing.prefix_of_frames hread fits (hfirst.trans hrest)
    · rw [hbytes, List.cons_prefix_cons] at hreceived
      obtain ⟨rfl, hrest⟩ := hreceived
      obtain ⟨hread, hfirst⟩ := frames_readBatch process ending rest.length 0 rest
      rw [hsent] at fits ⊢
      have hbefore : ∀ encoded ∈ before, batchFraming.Fits encoded :=
        fun encoded hmem => fits encoded (List.mem_append_left _ hmem)
      have hlast := fits last (List.mem_append_right _ List.mem_cons_self)
      exact (Framing.prefix_of_frames_append hread hbefore hlast htail hshort
        (hfirst.trans hrest)).trans (List.prefix_append _ _)

open Batching in
/-- As long as no call is cancelled inside its envelope, every stream has the marker and whole
envelopes, perhaps with a last incomplete one, and is decoded as what was sent. -/
theorem batch_streams_stay_framed {batchSize : ℕ} {events : List BatchEvent} {x : Batching}
    (before : Along (step batchSize) CancelsBefore initial events)
    (reach : run (step batchSize) initial events = some x) (s : ℕ) :
    (x.streams s).Framed ∧
      ((x.streams s).Torn → ¬ x.Writes s → ∀ more y, run (step batchSize) x more = some y →
        y.streams s = x.streams s) ∧
      ∀ received, received <+: (x.streams s).bytes → ∀ process ending,
        (handleStream process ending received).1 <+: (x.streams s).sent := by
  have inv : x.Inv := run_invariant_of_along
    (fun _ _ _ inv before h => inv.step before h) inv_initial before reach
  refine ⟨inv.framed s, fun torn idle more y hmore => ?_,
    fun received hreceived process ending => ?_⟩
  · exact (inv.closed torn idle).streams_eq hmore
  · exact (inv.framed s).decodes (inv.fits s) hreceived process ending

/-- A call is cancelled after one byte of its envelope, and the next one appends its own. -/
theorem cancelled_envelope_misaligns_stream :
    let first := replicate 29 (1 : UInt8)
    let second := replicate 29 (2 : UInt8)
    ∃ x, run (Batching.step 8) Batching.initial [.lock first, .opened true, .marked true, .wrote 5,
        .cancelled, .lock second, .wrote 33] = some x ∧
      (x.streams 0).sent = [first, second] ∧ ¬ (x.streams 0).Framed ∧
      (handleStream (fun _ => .ok ()) (.ok ()) (x.streams 0).bytes).1 =
        [1 :: 0 :: 0 :: 0 :: 29 :: replicate 24 2] := by
  intro first second
  refine exists_of_evaluated (fun x => (x.streams 0).sent = [first, second] ∧
      (handleStream (fun _ => .ok ()) (.ok ()) (x.streams 0).bytes).1 =
        [1 :: 0 :: 0 :: 0 :: 29 :: replicate 24 2])
    (by decide +kernel) fun x _ ⟨hsent, hread⟩ => ⟨hsent, fun framed => ?_, hread⟩
  have hfits : ∀ encoded ∈ (x.streams 0).sent, batchFraming.Fits encoded := by
    rw [hsent]
    exact fun encoded hmem => by
      rcases List.mem_pair.mp hmem with rfl | rfl <;> exact (by decide : 29 < 2 ^ 32)
  have hfirst := framed.decodes hfits List.prefix_rfl (fun _ => .ok ()) (.ok ())
  rw [hread, hsent, List.cons_prefix_cons] at hfirst
  exact absurd hfirst.1 (by decide)

/-- A call is cancelled while it waits, one sends, one fails inside its envelope, and one opens
another stream. -/
theorem batch_streams_stay_framed_failed_write :
    let first := replicate 29 (1 : UInt8)
    let second := replicate 30 (2 : UInt8)
    ∃ x, run (Batching.step 8) Batching.initial [.lock first, .opened true, .marked true,
        .cancelled, .lock first, .wrote 33, .lock second, .wrote 7, .failed, .lock second,
        .opened true, .marked true, .wrote 34] = some x ∧
      (x.streams 0).sent = [first, second] ∧ (x.streams 0).Framed ∧
      (x.streams 1).sent = [second] ∧ (x.streams 1).Framed := by
  intro first second
  refine exists_of_evaluated
    (fun x => (x.streams 0).sent = [first, second] ∧ (x.streams 1).sent = [second])
    (by decide +kernel) fun x hx ⟨hzero, hone⟩ => ?_
  have hframed := batch_streams_stay_framed (by decide +kernel) hx
  exact ⟨hzero, (hframed 0).1, hone, (hframed 1).1⟩

end Chirps.Transport
