/-
# Whose sessions a message changes

The handlers find a session by its id alone, so a peer that knows the id changes it as its sender
does. If peers name only their own sessions and share no destinations, they are isolated.
-/

import Chirps.FileTransfer.Install

namespace Chirps.FileTransfer

open Chirps.Library

variable {ν κ σ : Type*}

/-! ## Peers -/

namespace ReceiveEvent

def isMessage : ReceiveEvent κ → Bool
  | .request _ _ | .manifest _ _ | .chunk _ _ _ _ _ | .finalize _ _ _ | .cancel _ _ => true
  | .cancelTransfer _ _ | .pauseTransfer _ _ | .resumeTransfer _ _ | .restart => false

/-- The session that a message may change. A request is only answered. -/
def target : ReceiveEvent κ → Option κ
  | .manifest m _ => some m.sessionId
  | .chunk id _ _ _ _ | .finalize id _ _ | .cancel id _ => some id
  | .cancelTransfer id _ | .pauseTransfer id _ | .resumeTransfer id _ => some id
  | .request _ _ | .restart => none

variable [DecidableEq κ]

def registers (c : ReceiveConfig κ) (x : Receiver κ σ) (id : κ) : ReceiveEvent κ → Bool
  | .manifest m answers => m.sessionId = id &&
      ((x.entries id).checkManifest c m).toOption.isSome && answers.prepared = .resized
  | _ => false

def saves (c : ReceiveConfig κ) (h : Hashing σ) (x : Receiver κ σ) (id : κ) :
    ReceiveEvent κ → Bool
  | .manifest m answers => registers c x id (.manifest m answers) &&
      c.persistence && m.options.resumable && answers.saved
  | event => ((x.set id { x.entries id with saved := none } x.files).step c h event).any
      fun next => (next.entries id).saved.isSome

end ReceiveEvent

/-- The receiver, with the sender of each session in memory and on disk. -/
structure Sourced (ν κ σ : Type*) where
  receiver : Receiver κ σ
  source : κ → Option ν
  savedSource : κ → Option ν

inductive PeerEvent (ν κ : Type*)
  | message (sender : ν) (event : ReceiveEvent κ)
  | call (event : ReceiveEvent κ)

namespace Sourced

def initial (files : Files) : Sourced ν κ σ := ⟨.initial files, fun _ => none, fun _ => none⟩

variable [DecidableEq κ]

/-- A new session has the sender as its source, also if it resumes another one. -/
def record (c : ReceiveConfig κ) (h : Hashing σ) (x : Sourced ν κ σ) (sender : Option ν)
    (event : ReceiveEvent κ) (next : Receiver κ σ) : Sourced ν κ σ :=
  let source id := if event.registers c x.receiver id then sender else x.source id
  { receiver := next
    source := source
    savedSource := fun id =>
      if event.saves c h x.receiver id then source id else x.savedSource id }

def step (c : ReceiveConfig κ) (h : Hashing σ) (x : Sourced ν κ σ) :
    PeerEvent ν κ → Option (Sourced ν κ σ)
  | .message sender event =>
    if event.isMessage then (x.receiver.step c h event).map (x.record c h (some sender) event)
    else none
  | .call event =>
    if event.isMessage then none else (x.receiver.step c h event).map (x.record c h none event)

end Sourced

/-! ## Destinations -/

namespace Entry

def dests (e : Entry κ σ) : Set Path :=
  { dest | ∃ s, (e.session = some s ∨ e.saved = some s) ∧ s.destPath = dest }

variable {c : ReceiveConfig κ} {h : Hashing σ} {id : κ} {e e' : Entry κ σ} {files : Files}
  {s : TransferSession κ} {dests : Set Path}

theorem mem_dests_of_session (hs : e.session = some s) : s.destPath ∈ e.dests :=
  ⟨s, .inl hs, rfl⟩

theorem dests_setSession (he : e.dests ⊆ dests) (hsession : e'.session = some s)
    (hsaved : e'.saved = e.saved) (hs : s.destPath ∈ dests) : e'.dests ⊆ dests := by
  rintro dest ⟨t, ht | ht, rfl⟩
  · cases hsession.symm.trans ht
    exact hs
  · exact he ⟨t, .inr (hsaved ▸ ht), rfl⟩

theorem dests_save (saved : Bool) : (e.save c saved).dests ⊆ e.dests := by
  rintro dest ⟨s, hs | hs, rfl⟩
  · exact ⟨s, .inl (by rwa [save_session] at hs), rfl⟩
  · rw [save] at hs
    split at hs
    · exact ⟨s, .inr hs, rfl⟩
    · rename_i t ht
      split at hs
      · exact ⟨s, .inl (ht.trans hs), rfl⟩
      · exact ⟨s, .inr hs, rfl⟩

variable {answers : Answers}

theorem dests_finalizeSession {m : TransferManifest κ} (he : e.dests ⊆ dests)
    (hs : s.destPath ∈ dests) : (finalizeSession c h id e files s m answers).1.dests ⊆ dests := by
  rw [finalizeSession]
  split
  · exact (dests_save _).trans (dests_setSession he rfl rfl hs)
  · exact (dests_save _).trans (dests_setSession he rfl rfl hs)

variable {index : ℕ} {data : Bytes}

theorem dests_publish (he : e.dests ⊆ dests) (hs : s.destPath ∈ dests) :
    (publish c h e s index data).dests ⊆ dests :=
  dests_setSession he rfl rfl hs

theorem dests_completeChunk (he : e.dests ⊆ dests) (hs : s.destPath ∈ dests) :
    (completeChunk c h id e files s index data answers).1.dests ⊆ dests := by
  rw [completeChunk]
  split
  · exact he
  split
  · exact he
  split
  · exact dests_publish he hs
  split
  · exact dests_finalizeSession (dests_publish he hs) hs
  · exact dests_publish he hs

theorem dests_handleChunkData {streamChecksum : UInt64} {next : Entry κ σ × Files × Option ChunkAck}
    (he : e.dests ⊆ dests)
    (hnext : handleChunkData c h id e files index data streamChecksum answers = some next) :
    next.1.dests ⊆ dests := by
  rw [handleChunkData] at hnext
  split at hnext
  · cases hnext
    exact he
  rename_i s hs
  have hdest := he (mem_dests_of_session hs)
  split at hnext
  · cases hnext
  · cases hnext
    exact (dests_save answers.saved).trans (dests_setSession he rfl rfl hdest)
  split at hnext
  · cases hnext
    exact he
  dsimp only at hnext
  split at hnext <;> cases hnext
  · exact he
  · exact he
  · exact dests_completeChunk (e := { e with verified := _ }) he hdest

theorem dests_handleManifest {m : TransferManifest κ} (he : e.dests ⊆ dests)
    (haccepted : ∀ dest resume, checkManifest c e m = .ok (dest, resume) → dest ∈ dests) :
    (handleManifest c h e files m answers).1.dests ⊆ dests := by
  rw [handleManifest]
  split
  · exact he
  rename_i dest resume hcheck
  have hdest : (newSession m dest resume).destPath ∈ dests := haccepted dest resume hcheck
  split
  · exact he
  have hopen : (openSession c h e m dest resume answers.saved).dests ⊆ dests :=
    (dests_save answers.saved).trans (dests_setSession he rfl rfl hdest)
  rw [finishManifest]
  split
  · split
    · exact dests_setSession hopen rfl rfl hdest
    split
    · rintro _ ⟨s, hs | hs, rfl⟩
      · cases hs
      · exact hopen ⟨s, .inr hs, rfl⟩
    · exact dests_setSession hopen rfl rfl hdest
  · exact hopen

end Entry

def ReceiveEvent.brings (c : ReceiveConfig κ) (x : Receiver κ σ) (id : κ) :
    ReceiveEvent κ → Set Path
  | .manifest m _ => { dest | m.sessionId = id ∧
      ∃ resume, (x.entries id).checkManifest c m = .ok (dest, resume) }
  | _ => ∅

namespace Receiver

variable {c : ReceiveConfig κ} {h : Hashing σ} {x next : Receiver κ σ} {event : ReceiveEvent κ}

def destsAfter (c : ReceiveConfig κ) (x : Receiver κ σ) (event : ReceiveEvent κ) (id : κ) :
    Set Path :=
  (x.entries id).dests ∪ event.brings c x id

structure DestsApart (c : ReceiveConfig κ) (dests : κ → Set Path) : Prop where
  temp : ∀ id, ∀ dest ∈ dests id, c.Apart id dest
  disjoint : ∀ id id', id ≠ id' → Disjoint (dests id) (dests id')

variable [DecidableEq κ]

theorem dests_step (apart : DestsApart c (x.destsAfter c event))
    (hstep : x.step c h event = some next) (id : κ) :
    (next.entries id).dests ⊆ x.destsAfter c event id := by
  have inv : EntryInvariant c fun id (_ : Files) (e : Entry κ σ) =>
      e.dests ⊆ x.destsAfter c event id := {
    congr := fun hP _ => hP
    apart := fun hP s hs => apart.temp _ _ (hP (Entry.mem_dests_of_session hs))
    save := fun saved hP => (Entry.dests_save saved).trans hP
    discard := fun hP => hP
    forget := by
      rintro id files e hP _ ⟨s, hs | hs, rfl⟩
      · cases hs
      · exact hP ⟨s, .inr hs, rfl⟩
    setState := by
      intro id files e s state control hs hP
      have hdest := hP (Entry.mem_dests_of_session hs)
      exact Entry.dests_setSession hP rfl rfl hdest }
  refine inv.step (fun id => Set.subset_union_left) ?_ ?_ ?_ hstep id
  · rintro m answers rfl
    have hbrings : ∀ dest resume, (x.entries m.sessionId).checkManifest c m = .ok (dest, resume) →
        dest ∈ x.destsAfter c (.manifest m answers) m.sessionId :=
      fun dest resume hcheck => .inr ⟨rfl, resume, hcheck⟩
    exact ⟨fun dest resume hcheck => apart.temp _ _ (hbrings dest resume hcheck),
      Entry.dests_handleManifest Set.subset_union_left hbrings⟩
  · rintro id index data streamChecksum answers result rfl hresult
    exact Entry.dests_handleChunkData Set.subset_union_left hresult
  · exact fun hs _ _ hP => Entry.dests_finalizeSession hP (hP (Entry.mem_dests_of_session hs))

theorem touches_step {id : κ} (htarget : event.target = some id)
    (hstep : x.step c h event = some next) :
    (∀ id', id' ≠ id → next.entries id' = x.entries id') ∧
      Touches c id (x.destsAfter c event id) x.files next.files := by
  have hset : ∀ e files, ∀ id', id' ≠ id → (x.set id e files).entries id' = x.entries id' :=
    fun e files id' hne => Function.update_of_ne hne _ _
  have hsession : ∀ s ∈ (x.entries id).session, s.destPath ∈ x.destsAfter c event id :=
    fun s hs => .inl (Entry.mem_dests_of_session hs)
  cases event with
  | request _ _ => cases htarget
  | restart => cases htarget
  | manifest m answers =>
    cases htarget
    cases hstep
    exact ⟨hset _ _, Entry.touches_handleManifest fun dest resume hcheck =>
      .inr ⟨rfl, resume, hcheck⟩⟩
  | chunk id' index data streamChecksum answers =>
    cases htarget
    obtain ⟨result, hresult, rfl⟩ := Option.map_eq_some_iff.mp hstep
    exact ⟨hset _ _, Entry.touches_handleChunkData hsession hresult⟩
  | finalize id' completion answers =>
    cases htarget
    cases hstep
    exact ⟨hset _ _, Entry.touches_handleFinalizeRequest hsession⟩
  | _ =>
    cases htarget
    cases hstep
    exact ⟨hset _ _, Touches.refl⟩

/-- A new destination is neither a temporary file nor the destination of another session. -/
def BringsApart (c : ReceiveConfig κ) (x : Receiver κ σ) (event : ReceiveEvent κ) : Prop :=
  ∀ id, ∀ dest ∈ event.brings c x id,
    c.Apart id dest ∧ ∀ id', id' ≠ id → dest ∉ (x.entries id').dests

omit [DecidableEq κ] in
theorem DestsApart.after (apart : DestsApart c fun id => (x.entries id).dests)
    (brings : x.BringsApart c event) : DestsApart c (x.destsAfter c event) where
  temp := by
    rintro id dest (hdest | hdest)
    · exact apart.temp id dest hdest
    · exact (brings id dest hdest).1
  disjoint := by
    intro id id' hne
    refine Set.disjoint_left.mpr ?_
    rintro dest (hdest | hdest) (hdest' | hdest')
    · exact Set.disjoint_left.mp (apart.disjoint id id' hne) hdest hdest'
    · exact (brings id' dest hdest').2 id hne hdest
    · exact (brings id dest hdest).2 id' hne.symm hdest'
    · -- a manifest is for one session
      cases event with
      | manifest m answers => exact hne (hdest.1.symm.trans hdest'.1)
      | _ => exact hdest

theorem DestsApart.step (apart : DestsApart c fun id => (x.entries id).dests)
    (brings : x.BringsApart c event) (hstep : x.step c h event = some next) :
    DestsApart c fun id => (next.entries id).dests where
  temp id dest hdest :=
    (apart.after brings).temp id dest (dests_step (apart.after brings) hstep id hdest)
  disjoint id id' hne := ((apart.after brings).disjoint id id' hne).mono
    (dests_step (apart.after brings) hstep id) (dests_step (apart.after brings) hstep id')

omit [DecidableEq κ] in
theorem unchanged_of_touches {id id' : κ} (hne : id' ≠ id) {dest : Path}
    (apart : DestsApart c (x.destsAfter c event)) (hdest : dest ∈ (x.entries id').dests)
    (touches : Touches c id (x.destsAfter c event id) x.files next.files) :
    next.files (c.tempPathFor dest id') = x.files (c.tempPathFor dest id') ∧
      next.files dest = x.files dest := by
  refine ⟨touches.confined (apart.temp id) id' dest hne,
    touches dest (fun hmem => ?_) fun dest' => ?_⟩
  · exact Set.disjoint_left.mp (apart.disjoint id' id hne) (.inl hdest) hmem
  · exact apart.temp id' dest (.inl hdest) id dest' hne.symm

end Receiver

/-! ## Runs -/

namespace Sourced

variable {c : ReceiveConfig κ} {h : Hashing σ} {x next : Sourced ν κ σ} {event : PeerEvent ν κ}

/-- The session is in memory or on disk, and the peer is not its source. -/
def Foreign (x : Sourced ν κ σ) (sender : ν) (id : κ) (s : TransferSession κ) : Prop :=
  (x.receiver.entries id).session = some s ∧ x.source id ≠ some sender ∨
    (x.receiver.entries id).saved = some s ∧ x.savedSource id ≠ some sender

variable [DecidableEq κ]

/-- A message changes no session of another source, nor its files. -/
def LeavesForeign (c : ReceiveConfig κ) (h : Hashing σ) (x : Sourced ν κ σ) :
    PeerEvent ν κ → Prop
  | .message sender event => ∀ next ∈ x.step c h (.message sender event), ∀ id s,
      x.Foreign sender id s →
      next.receiver.entries id = x.receiver.entries id ∧
        next.receiver.files (c.tempPathFor s.destPath id) =
          x.receiver.files (c.tempPathFor s.destPath id) ∧
        next.receiver.files s.destPath = x.receiver.files s.destPath
  | .call _ => True

/-- The sender is the source of the session it names, and destinations are not shared. -/
def NamesOwn (c : ReceiveConfig κ) (x : Sourced ν κ σ) : PeerEvent ν κ → Prop
  | .message sender event =>
    (∀ id ∈ event.target, ∀ s, ¬ x.Foreign sender id s) ∧ x.receiver.BringsApart c event
  | .call _ => True

def DestsApart (c : ReceiveConfig κ) (x : Sourced ν κ σ) : Prop :=
  Receiver.DestsApart c fun id => (x.receiver.entries id).dests

omit [DecidableEq κ] in
theorem destsApart_initial (files : Files) : (initial files : Sourced ν κ σ).DestsApart c where
  temp := by
    rintro id dest ⟨s, hs | hs, -⟩ <;> cases hs
  disjoint := by
    refine fun id id' _ => Set.disjoint_left.mpr ?_
    rintro dest ⟨s, hs | hs, -⟩ <;> cases hs

theorem message_eq_some {sender : ν} {event : ReceiveEvent κ}
    (hstep : x.step c h (.message sender event) = some next) :
    x.receiver.step c h event = some next.receiver := by
  obtain ⟨-, hstep⟩ := Option.ite_none_right_eq_some.mp hstep
  obtain ⟨after, hafter, rfl⟩ := Option.map_eq_some_iff.mp hstep
  exact hafter

theorem call_eq_some {event : ReceiveEvent κ} (hstep : x.step c h (.call event) = some next) :
    event.isMessage = false ∧ x.receiver.step c h event = some next.receiver := by
  obtain ⟨hmessage, hstep⟩ := Option.ite_none_left_eq_some.mp hstep
  obtain ⟨after, hafter, rfl⟩ := Option.map_eq_some_iff.mp hstep
  exact ⟨Bool.eq_false_iff.mpr hmessage, hafter⟩

theorem DestsApart.step (apart : x.DestsApart c) (own : x.NamesOwn c event)
    (hstep : x.step c h event = some next) : next.DestsApart c := by
  cases event with
  | message sender event => exact Receiver.DestsApart.step apart own.2 (message_eq_some hstep)
  | call event =>
    obtain ⟨hmessage, hafter⟩ := call_eq_some hstep
    refine Receiver.DestsApart.step apart (fun id dest hdest => ?_) hafter
    cases event with
    | manifest m answers => cases hmessage
    | _ => exact absurd hdest (Set.notMem_empty dest)

theorem DestsApart.leavesForeign (apart : x.DestsApart c) (own : x.NamesOwn c event) :
    x.LeavesForeign c h event := by
  cases event with
  | call event => trivial
  | message sender event =>
    intro next hnext id s hforeign
    have hdest : s.destPath ∈ (x.receiver.entries id).dests := by
      rcases hforeign with ⟨hs, -⟩ | ⟨hs, -⟩
      · exact ⟨s, .inl hs, rfl⟩
      · exact ⟨s, .inr hs, rfl⟩
    have hstep := message_eq_some hnext
    cases htarget : event.target with
    | none =>
      have hsame : next.receiver = x.receiver := by
        rw [Sourced.step] at hnext
        cases event with
        | request _ _ => exact (Option.some.inj hstep).symm
        | restart => cases hnext
        | _ => cases htarget
      rw [hsame]
      exact ⟨rfl, rfl, rfl⟩
    | some target =>
      have hne : id ≠ target := by
        rintro rfl
        exact own.1 id htarget s hforeign
      obtain ⟨hentries, htouches⟩ := Receiver.touches_step htarget hstep
      exact ⟨hentries id hne,
        Receiver.unchanged_of_touches hne (Receiver.DestsApart.after apart own.2) hdest htouches⟩

end Sourced

/-- In every run in which each peer names only its own sessions, and destinations are not shared,
a message changes only sessions of its sender. -/
theorem sessions_isolated_by_sender [DecidableEq κ] (c : ReceiveConfig κ) (h : Hashing σ)
    (files : Files) (events : List (PeerEvent ν κ))
    (own : Along (Sourced.step c h) (Sourced.NamesOwn c) (Sourced.initial files) events) :
    Along (Sourced.step c h) (Sourced.LeavesForeign c h) (Sourced.initial files) events :=
  Along.of_invariant (I := Sourced.DestsApart c)
    (fun _ _ _ apart own hstep => apart.step own hstep)
    (fun _ _ _ apart own _ => apart.leavesForeign own) (Sourced.destsApart_initial files) own

def pairConfig : ReceiveConfig Bool where
  tempDir := some ["tmp"]
  persistence := true
  validate _ path := .ok [path]
  display id := if id then "1" else "0"
  display_injective := by decide
  display_length := by decide

def byteManifest (id : Bool) (options : TransferOptions) : TransferManifest Bool where
  version := 2
  sessionId := id
  sourcePath := "in"
  destPath := if id then "b" else "a"
  fileSize := 1
  fileHash := []
  hashAlgorithm := .sha256
  chunkSize := 1
  chunkCount := 1
  chunks := [⟨0, 0, 1, 0⟩]
  options := options

/-- Peer 0 has sent a file of one byte, and peer 1 sends another manifest, byte, finalization, or a
cancellation. -/
theorem session_changed_by_another_peer :
    ∃ x : Sourced ℕ Bool Bytes, run (Sourced.step pairConfig plainHashing)
        (Sourced.initial fun _ => none)
        [.message 0 (.manifest (byteManifest false {}) {}), .message 0 (.chunk false 0 [1] 1 {})] =
          some x ∧
      x.source false = some 0 ∧
      ∀ event ∈ [ReceiveEvent.manifest (byteManifest false { verifyOnComplete := false }) {},
          .chunk false 0 [9] 9 {}, .finalize false ⟨1, [1], .sha256⟩ {}, .cancel false true],
        ¬ x.LeavesForeign pairConfig plainHashing (.message 1 event) := by
  refine exists_of_evaluated (fun x => x.source false = some 0 ∧
      ∃ s, (x.receiver.entries false).session = some s ∧
        ∀ event ∈ [ReceiveEvent.manifest (byteManifest false { verifyOnComplete := false }) {},
            .chunk false 0 [9] 9 {}, .finalize false ⟨1, [1], .sha256⟩ {}, .cancel false true],
          ∃ next, x.step pairConfig plainHashing (.message 1 event) = some next ∧
            ((next.receiver.entries false).session ≠ some s ∨
              next.receiver.files (pairConfig.tempPathFor s.destPath false) ≠
                x.receiver.files (pairConfig.tempPathFor s.destPath false)))
    (by decide +kernel) fun x _ ⟨hsource, s, hs, hchanged⟩ =>
      ⟨hsource, fun event hevent leaves => ?_⟩
  obtain ⟨next, hnext, hdiffers⟩ := hchanged event hevent
  have hforeign : x.Foreign 1 false s := .inl ⟨hs, by rw [hsource]; decide⟩
  obtain ⟨hentry, hfile, -⟩ := leaves next hnext false s hforeign
  rcases hdiffers with hsession | htemp
  · exact hsession (by rw [hentry]; exact hs)
  · exact htemp hfile

theorem sessions_isolated_by_sender_two_peers :
    Along (Sourced.step pairConfig plainHashing) (Sourced.LeavesForeign pairConfig plainHashing)
      (Sourced.initial fun _ => none : Sourced ℕ Bool Bytes)
      [.message 0 (.manifest (byteManifest false {}) {}),
        .message 1 (.manifest (byteManifest true {}) {}), .message 0 (.chunk false 0 [1] 1 {}),
        .message 1 (.cancel true true)] := by
  refine sessions_isolated_by_sender pairConfig plainHashing (fun _ => none) _ ?_
  have apart : ∀ id name, pairConfig.Apart id [name] := by
    intro id name id' dest' _ heq
    have hlength : 1 = 2 := congrArg List.length heq
    cases hlength
  refine (along_cons rfl).mpr ⟨⟨?_, ?_⟩, ?_⟩
  · rintro _ ⟨⟩ s (⟨hs, -⟩ | ⟨hs, -⟩) <;> cases hs
  · rintro _ dest ⟨rfl, resume, hcheck⟩
    cases hcheck
    refine ⟨apart _ _, ?_⟩
    rintro id' - ⟨s, hs | hs, -⟩ <;> cases hs
  refine (along_cons rfl).mpr ⟨⟨?_, ?_⟩, ?_⟩
  · rintro _ ⟨⟩ s (⟨hs, -⟩ | ⟨hs, -⟩) <;> cases hs
  · rintro _ dest ⟨rfl, resume, hcheck⟩
    cases hcheck
    refine ⟨apart _ _, ?_⟩
    rintro id' hne ⟨s, hs, hdest⟩
    obtain rfl : id' = false := Bool.eq_false_iff.mpr hne
    rcases hs with hs | hs <;> cases hs <;> exact absurd hdest (by decide)
  have hown : ∀ {x : Sourced ℕ Bool Bytes} {sender : ℕ} {id : Bool}, x.source id = some sender →
      x.savedSource id = some sender → ∀ s, ¬ x.Foreign sender id s := by
    rintro x sender id hsource hsaved s (⟨-, hne⟩ | ⟨-, hne⟩)
    · exact hne hsource
    · exact hne hsaved
  refine (along_cons rfl).mpr ⟨⟨?_, fun _ _ hdest => absurd hdest (Set.notMem_empty _)⟩, ?_⟩
  · rintro _ ⟨⟩
    exact hown (by decide +kernel) (by decide +kernel)
  refine (along_cons rfl).mpr ⟨⟨?_, fun _ _ hdest => absurd hdest (Set.notMem_empty _)⟩, trivial⟩
  rintro _ ⟨⟩
  exact hown (by decide +kernel) (by decide +kernel)

end Chirps.FileTransfer
