/-
# When the source of a move is removed

A move is done when every target has reported the file complete. A session of a broadcast that is
resumed from disk removes the source as soon as its own target has the file.
-/

import Chirps.FileTransfer.Install
import Chirps.FileTransfer.Sender
import Chirps.Library.Table

namespace Chirps.FileTransfer

open Chirps.Library
open Option (any_eq_true map_eq_some_iff some_inj)

variable {κ ν σ : Type*} {c : SendConfig ν} {h : Hashing σ}

/-! ## Requests, readings and reports -/

structure Ledger (κ ν : Type*) where
  requests : List (SendRequest ν)
  read : List (Reading κ)
  reported : List (Report κ ν)

namespace Sender

def ledger (x : Sender κ ν) : Ledger κ ν := ⟨x.requests, x.read, x.reported⟩

theorem ledger_of_log {x y : Sender κ ν} (hlog : y.log = x.log) : y.ledger = x.ledger :=
  congrArg (fun l => Ledger.mk l.requests l.read l.reported) hlog

end Sender

namespace Ledger

structure Grows (l l' : Ledger κ ν) : Prop where
  requests : l.requests <+: l'.requests
  read : l.read ⊆ l'.read
  reported : l.reported ⊆ l'.reported

theorem Grows.refl (l : Ledger κ ν) : l.Grows l :=
  ⟨List.prefix_rfl, List.Subset.refl _, List.Subset.refl _⟩

variable {l l' : Ledger κ ν} {n : ℕ}

theorem Grows.requested (hgrows : l.Grows l') {request : SendRequest ν}
    (hrequest : l.requests[n]? = some request) : l'.requests[n]? = some request := by
  obtain ⟨rest, hrest⟩ := hgrows.requests
  obtain ⟨hn, -⟩ := List.getElem?_eq_some_iff.mp hrequest
  rw [← hrest, List.getElem?_append_left hn, hrequest]

/-- A target of a request has reported the hash of what was read for it. -/
def Confirmed (h : Hashing σ) (l : Ledger κ ν) (n slot : ℕ) (target : ν) : Prop :=
  ∃ id data completion, ⟨n, slot, id, data⟩ ∈ l.read ∧ ⟨id, target, completion⟩ ∈ l.reported ∧
    completion.fileHash = h.fileHash completion.hashAlgorithm data

theorem Confirmed.mono {slot : ℕ} {target : ν} (hconfirmed : l.Confirmed h n slot target)
    (hgrows : l.Grows l') : l'.Confirmed h n slot target := by
  obtain ⟨id, data, completion, hread, hreported, hhash⟩ := hconfirmed
  exact ⟨id, data, completion, hgrows.read hread, hgrows.reported hreported, hhash⟩

/-- A request to move the file, of which every target has confirmed its copy. -/
def Moved (h : Hashing σ) (l : Ledger κ ν) (n : ℕ) (path : Path) : Prop :=
  ∃ request, l.requests[n]? = some request ∧ request.sourcePath = path ∧
    request.options.mode = .move ∧
    ∀ slot target, request.targets[slot]? = some target → l.Confirmed h n slot target

theorem Moved.mono {path : Path} (hmoved : l.Moved h n path) (hgrows : l.Grows l') :
    l'.Moved h n path := by
  obtain ⟨request, hrequest, hpath, hmode, hall⟩ := hmoved
  exact ⟨request, hgrows.requested hrequest, hpath, hmode,
    fun slot target htarget => (hall slot target htarget).mono hgrows⟩

end Ledger

/-! ## What a session was opened for -/

structure Origin (ν : Type*) where
  kind : TransferKind
  targetNodes : List ν
  sourcePath : Path
  mode : TransferMode
  operation : ℕ
  slot : ℕ

def SendSession.origin (s : SendSession κ ν) : Origin ν :=
  ⟨s.kind, s.targetNodes, s.sourcePath, s.options.mode, s.operation, s.slot⟩

structure Opened (l : Ledger κ ν) (o : Origin ν) (request : SendRequest ν) (target : ν) :
    Prop where
  requested : l.requests[o.operation]? = some request
  mode : o.mode = request.options.mode
  sourcePath : o.sourcePath = request.sourcePath
  targetNodes : o.targetNodes = [target]
  slot : request.targets[o.slot]? = some target
  single : o.kind ≠ .broadcast → request.targets = [target]

def OthersConfirmed (h : Hashing σ) (l : Ledger κ ν) (o : Origin ν) : Prop :=
  ∀ request, l.requests[o.operation]? = some request →
    ∀ slot target, slot ≠ o.slot → request.targets[slot]? = some target →
      l.Confirmed h o.operation slot target

namespace Opened

variable {l l' : Ledger κ ν} {o : Origin ν} {request : SendRequest ν} {target : ν}

theorem mono (hopened : Opened l o request target) (hgrows : l.Grows l') :
    Opened l' o request target where
  __ := hopened
  requested := hgrows.requested hopened.requested

theorem othersConfirmed_of_single (hopened : Opened l o request target)
    (hkind : o.kind ≠ .broadcast) : OthersConfirmed h l o := by
  intro request' hrequest' slot target' hslot htarget'
  obtain rfl : request = request' := some_inj.mp (hopened.requested.symm.trans hrequest')
  have hown := hopened.slot
  rw [hopened.single hkind, List.getElem?_singleton] at hown htarget'
  split at htarget'
  · split at hown
    · omega
    · cases hown
  · cases htarget'

theorem othersConfirmed_mono (hopened : Opened l o request target)
    (hothers : OthersConfirmed h l o) (hgrows : l.Grows l') : OthersConfirmed h l' o := by
  intro request' hrequest' slot target' hslot htarget'
  obtain rfl : request = request' := some_inj.mp
    ((hgrows.requested hopened.requested).symm.trans hrequest')
  exact (hothers request hopened.requested slot target' hslot htarget').mono hgrows

theorem moved (hopened : Opened l o request target) (hmode : o.mode = .move)
    (hothers : OthersConfirmed h l o) (hown : l.Confirmed h o.operation o.slot target) :
    l.Moved h o.operation o.sourcePath := by
  refine ⟨request, hopened.requested, hopened.sourcePath.symm, hopened.mode ▸ hmode, ?_⟩
  intro slot target' htarget'
  by_cases hslot : slot = o.slot
  · subst hslot
    obtain rfl : target = target' := some_inj.mp (hopened.slot.symm.trans htarget')
    exact hown
  · exact hothers request hopened.requested slot target' hslot htarget'

end Opened

def Labelled (c : SendConfig ν) (l : Ledger κ ν) (sourceNode : ν) (o : Origin ν) : Prop :=
  sourceNode = c.sourceNode → ∃ request target, Opened l o request target

variable {l l' : Ledger κ ν} {o : Origin ν}

theorem Labelled.mono {sourceNode : ν} (hlabelled : Labelled c l sourceNode o)
    (hgrows : l.Grows l') : Labelled c l' sourceNode o := by
  intro hsource
  obtain ⟨request, target, hopened⟩ := hlabelled hsource
  exact ⟨request, target, hopened.mono hgrows⟩

theorem resolveTransferOptions_mode {options resolved : SendOptions}
    (hresolve : resolveTransferOptions c options = .ok resolved) :
    resolved.mode = options.mode := by
  unfold resolveTransferOptions at hresolve
  extract_lets chunkSize concurrency at hresolve
  split at hresolve
  · cases hresolve
  · split at hresolve
    · cases hresolve
    · cases hresolve
      rfl

theorem openSendSession_origin [DecidableEq ν] {files : Files} {call : SendCall κ ν}
    {task : ℕ} {s : SendSession κ ν} (hopen : openSendSession c files call task = .ok s) :
    s.origin = ⟨call.kind, [call.target], call.sourcePath, call.options.mode, call.operation,
      call.slot⟩ := by
  rw [openSendSession] at hopen
  split at hopen
  · cases hopen
  · cases hopen
  · next options content hresolve _ =>
    split at hopen
    · cases hopen
    · cases hopen
    · extract_lets id manifest at hopen
      split at hopen
      · cases hopen
      · cases hopen
        rw [← resolveTransferOptions_mode hresolve]
        rfl

variable {target : ν}

theorem openSendSession_resumeCall [DecidableEq ν] {files : Files} {n : ℕ}
    {s resumed : SendSession κ ν} (htarget : s.targetNodes = [target])
    (hopen : openSendSession c files (Sender.resumeCall s target) n = .ok resumed) :
    resumed.origin = s.origin := by
  rw [openSendSession_origin hopen, SendSession.origin, htarget]
  rfl

theorem checkCompletion_ok [DecidableEq ν] {sender : ν} {fileHash : Bytes}
    {algorithm : HashAlgorithm} {fileSize : ℕ} {message : FileTransferMessage} {u : Unit}
    (hcheck : checkCompletion target fileHash algorithm fileSize sender message = .ok u) :
    sender = target ∧ ∃ completion, message = .complete completion ∧
      completion.fileHash = fileHash ∧ completion.hashAlgorithm = algorithm := by
  unfold checkCompletion at hcheck
  split at hcheck
  · cases hcheck
  · next hsender =>
    split at hcheck
    · next completion =>
      split at hcheck
      · next hfacts => exact ⟨not_not.mp hsender, completion, rfl, hfacts.2⟩
      · cases hcheck
    all_goals cases hcheck

/-! ## What a task and a broadcast know -/

def SendStage.Knows (h : Hashing σ) (l : Ledger κ ν) (o : Origin ν) (id : κ)
    (target : ν) (deleteSource : Bool) : SendStage → Prop
  | .finalizing data | .completing data => ⟨o.operation, o.slot, id, data⟩ ∈ l.read
  | .removing => deleteSource = true ∧ o.mode = .move ∧
      l.Confirmed h o.operation o.slot target
  | _ => True

theorem SendStage.Knows.mono {id : κ} {deleteSource : Bool} {stage : SendStage}
    (hknows : stage.Knows h l o id target deleteSource) (hgrows : l.Grows l') :
    stage.Knows h l' o id target deleteSource := by
  cases stage with
  | finalizing data => exact hgrows.read hknows
  | completing data => exact hgrows.read hknows
  | removing => exact ⟨hknows.1, hknows.2.1, hknows.2.2.mono hgrows⟩
  | queued | requesting | responding | announcing _ | acknowledging _ | sending _ =>
    trivial

structure Entitled (h : Hashing σ) (l : Ledger κ ν) (o : Origin ν) (deleteSource : Bool) :
    Prop where
  opened : ∃ request target, Opened l o request target
  others : deleteSource = true → o.mode = .move → OthersConfirmed h l o

theorem Entitled.mono {deleteSource : Bool} (hentitled : Entitled h l o deleteSource)
    (hgrows : l.Grows l') : Entitled h l' o deleteSource := by
  obtain ⟨request, target, hopened⟩ := hentitled.opened
  exact ⟨⟨request, target, hopened.mono hgrows⟩, fun hdelete hmode =>
    hopened.othersConfirmed_mono (hentitled.others hdelete hmode) hgrows⟩

structure SendTask.Sound (h : Hashing σ) (l : Ledger κ ν) (t : SendTask κ ν) : Prop where
  entitled : Entitled h l t.session.origin t.deleteSource
  knows : ∀ target, t.session.targetNodes = [target] →
    t.stage.Knows h l t.session.origin t.session.id target t.deleteSource

structure Broadcast.Sound (h : Hashing σ) (l : Ledger κ ν) (n : ℕ) (b : Broadcast ν) :
    Prop where
  requested : l.requests[n]? = some b.request
  length_members : b.members.length = b.request.targets.length
  confirmed : ∀ slot target, b.members[slot]? = some .completed →
    b.request.targets[slot]? = some target → l.Confirmed h n slot target

theorem Broadcast.Sound.moved {n : ℕ} {b : Broadcast ν} (hsound : b.Sound h l n)
    (hall : ∀ m ∈ b.members, m = .completed) (hmode : b.request.options.mode = .move) :
    l.Moved h n b.request.sourcePath := by
  refine ⟨b.request, hsound.requested, rfl, hmode, ?_⟩
  intro slot target htarget
  obtain ⟨hslot, -⟩ := List.getElem?_eq_some_iff.mp htarget
  have hmember : slot < b.members.length := hsound.length_members ▸ hslot
  refine hsound.confirmed slot target ?_ htarget
  rw [List.getElem?_eq_getElem hmember, hall _ (List.getElem_mem hmember)]

/-! ## The invariant -/

/-- The state agrees with the records, and every removal is one of a move that all targets have. -/
structure Sender.Inv (c : SendConfig ν) (h : Hashing σ) (l : Ledger κ ν) (x : Sender κ ν) :
    Prop where
  sessions : ∀ id s, x.sessions id = some s → Labelled c l s.sourceNode s.origin
  saved : ∀ id s, x.saved id = some s → Labelled c l s.sourceNode s.origin
  tasks : ∀ n t, x.tasks n = some t → t.Sound h l
  broadcasts : ∀ n b, x.broadcasts n = some b → b.Sound h l n
  removed : ∀ n path, (n, path) ∈ x.removed → l.Moved h n path

namespace Sender.Inv

variable {l l' : Ledger κ ν} {x : Sender κ ν}

theorem initial (files : Files) : (Sender.initial files : Sender κ ν).Inv c h l where
  sessions _ _ hs := by cases hs
  saved _ _ hs := by cases hs
  tasks _ _ ht := by cases ht
  broadcasts _ _ hb := by cases hb
  removed _ _ hpath := by cases hpath

theorem mono (inv : x.Inv c h l) (hgrows : l.Grows l') : x.Inv c h l' where
  sessions id s hs := (inv.sessions id s hs).mono hgrows
  saved id s hs := (inv.saved id s hs).mono hgrows
  tasks n t ht :=
    have sound := inv.tasks n t ht
    ⟨sound.entitled.mono hgrows, fun target htarget => (sound.knows target htarget).mono hgrows⟩
  broadcasts n b hb :=
    have sound := inv.broadcasts n b hb
    ⟨hgrows.requested sound.requested, sound.length_members, fun slot target hmember htarget =>
      (sound.confirmed slot target hmember htarget).mono hgrows⟩
  removed n path hpath := (inv.removed n path hpath).mono hgrows

theorem frame (inv : x.Inv c h l) {files : Files} {requests : List (SendRequest ν)}
    {read : List (Reading κ)} {reported : List (Report κ ν)} :
    ({ x with files, requests, read, reported } : Sender κ ν).Inv c h l where
  __ := inv

variable {y : Sender κ ν}

theorem of_log (inv : y.Inv c h x.ledger) (hlog : y.log = x.log) : y.Inv c h y.ledger := by
  rw [ledger_of_log hlog]
  exact inv

/-! ### The operations keep it -/

variable {n : ℕ} {t : SendTask κ ν}

section

variable (inv : x.Inv c h l)
include inv

theorem putTask {entry : Option (SendTask κ ν)}
    (hentry : ∀ t, entry = some t → t.Sound h l) : (x.putTask n entry).Inv c h l where
  __ := inv
  tasks := forall_update_some inv.tasks hentry

theorem spawn (ht : t.Sound h l) : (x.spawn t).Inv c h l where
  __ := inv
  tasks := forall_update_some inv.tasks (by rintro _ ⟨⟩; exact ht)

theorem setMember {slot : ℕ} {m : Member}
    (hm : m = .completed → ∀ request target, l.requests[n]? = some request →
      request.targets[slot]? = some target → l.Confirmed h n slot target) :
    (x.setMember n slot m).Inv c h l where
  __ := inv
  broadcasts := by
    refine forall_update_some inv.broadcasts fun b' hb' => ?_
    obtain ⟨b, hb, rfl⟩ := map_eq_some_iff.mp hb'
    have sound := inv.broadcasts n b hb
    refine ⟨sound.requested, by simpa using sound.length_members, ?_⟩
    intro slot' target hmember htarget
    rw [List.getElem?_set] at hmember
    split at hmember
    · next hslot =>
      split at hmember
      · subst hslot
        exact hm (some_inj.mp hmember) b.request target sound.requested htarget
      · cases hmember
    · exact sound.confirmed slot' target hmember htarget

theorem setControl (s : SendSession κ ν)
    (control : TransferControlState) : (x.setControl s control).Inv c h l := by
  rw [Sender.setControl]
  split
  · exact inv
  · refine inv.putTask fun t ht => ?_
    obtain ⟨old, hold, rfl⟩ := map_eq_some_iff.mp ht
    exact ⟨(inv.tasks _ old hold).entitled, (inv.tasks _ old hold).knows⟩

theorem removeFile {path : Path} (hmoved : l.Moved h n path) :
    (x.removeFile n path).Inv c h l where
  __ := inv
  removed := by
    intro n' path' hpath
    rcases List.mem_append.mp hpath with hpath | hpath
    · exact inv.removed n' path' hpath
    · cases List.mem_singleton.mp hpath
      exact hmoved

end

/-! ### The steps of a task keep it -/

theorem leave (inv : x.Inv c h l) {m : Member}
    (hm : m = .completed → ∀ request target,
      l.requests[t.session.operation]? = some request →
      request.targets[t.session.slot]? = some target →
      l.Confirmed h t.session.operation t.session.slot target) :
    (x.leave n t m).Inv c h l := by
  have left : (x.putTask n none).Inv c h l := inv.putTask (by simp)
  rw [Sender.leave]
  split
  · exact left.setMember hm
  · exact left

theorem leave_failed (inv : x.Inv c h l) (err : SendError) :
    (x.leave n t (.failed err)).Inv c h l :=
  inv.leave (by simp)

theorem goto (inv : x.Inv c h l) (ht : Entitled h l t.session.origin t.deleteSource)
    {stage : SendStage} (hknows : ∀ target, t.session.targetNodes = [target] →
      stage.Knows h l t.session.origin t.session.id target t.deleteSource) :
    (x.goto n t stage).Inv c h l :=
  inv.putTask (by rintro _ ⟨⟩; exact ⟨ht, hknows⟩)

section

variable (inv : x.Inv c h x.ledger)
include inv

theorem afterChunks
    (ht : Entitled h x.ledger t.session.origin t.deleteSource) {p : Producer}
    (hstep : x.afterChunks h n t p = some y) : y.Inv c h y.ledger := by
  rw [Sender.afterChunks] at hstep
  split at hstep
  · cases hstep
    exact (inv.leave_failed _).of_log (log_leave _)
  · split at hstep
    · cases hstep
      have hgrows : x.ledger.Grows ⟨x.requests,
          x.read ++ [⟨t.session.operation, t.session.slot, t.session.id, p.data⟩],
          x.reported⟩ :=
        ⟨List.prefix_rfl, List.subset_append_left _ _, List.Subset.refl _⟩
      refine goto (inv.mono hgrows).frame ?_ fun _ _ => ?_
      · exact ht.mono hgrows
      · exact List.mem_append_right _ (List.mem_singleton.mpr rfl)
    · cases hstep

theorem hear (id : κ) (sender : ν)
    (message : FileTransferMessage) :
    x.ledger.Grows (x.hear id sender message).ledger ∧
      (x.hear id sender message).Inv c h (x.hear id sender message).ledger := by
  rw [Sender.hear.eq_def]
  split
  · next completion =>
    have hgrows : x.ledger.Grows ⟨x.requests, x.read,
        x.reported ++ [⟨id, sender, completion⟩]⟩ :=
      ⟨List.prefix_rfl, List.Subset.refl _, List.subset_append_left _ _⟩
    exact ⟨hgrows, (inv.mono hgrows).frame⟩
  · exact ⟨.refl _, inv⟩

theorem ask (request : SendRequest ν) : (x.ask request).Inv c h (x.ask request).ledger := by
  have hgrows : x.ledger.Grows ⟨x.requests ++ [request], x.read, x.reported⟩ :=
    ⟨List.prefix_append _ _, List.Subset.refl _, List.Subset.refl _⟩
  exact (inv.mono hgrows).frame

theorem broadcastFile (request : SendRequest ν) :
    (x.broadcastFile request).Inv c h (x.broadcastFile request).ledger := by
  have asked := inv.ask request
  rw [Sender.broadcastFile]
  split
  · refine { asked with broadcasts := forall_update_some asked.broadcasts ?_ }
    rintro _ ⟨⟩
    refine ⟨List.getElem?_concat_length, List.length_map _, fun slot target hmember _ => ?_⟩
    obtain ⟨_, -, hwaiting⟩ := map_eq_some_iff.mp (List.getElem?_map ▸ hmember)
    cases hwaiting
  · exact asked

theorem finishBroadcast {b : Broadcast ν}
    (hb : x.broadcasts n = some b) (removed : Bool) :
    (x.finishBroadcast n b removed).Inv c h (x.finishBroadcast n b removed).ledger := by
  have done : ({ x with broadcasts := Function.update x.broadcasts n none } :
      Sender κ ν).Inv c h x.ledger :=
    { inv with broadcasts := forall_update_some inv.broadcasts (by simp) }
  rw [Sender.finishBroadcast]
  split
  · next hremove =>
    simp only [Bool.and_eq_true, List.all_eq_true, decide_eq_true_eq, beq_iff_eq] at hremove
    obtain ⟨⟨⟨hall, hmode⟩, -⟩, -⟩ := hremove
    exact done.removeFile ((inv.broadcasts n b hb).moved hall hmode)
  · exact done

end

theorem loaded (inv : x.Inv c h l) {id : κ} {s : SendSession κ ν}
    (hs : x.loadSession id = some s) : Labelled c l s.sourceNode s.origin := by
  rw [Sender.loadSession] at hs
  split at hs
  · next s' hs' =>
    cases hs
    exact inv.sessions id s hs'
  · obtain ⟨s', hs', rfl⟩ := map_eq_some_iff.mp hs
    exact inv.saved id s' hs'

theorem abandon (inv : x.Inv c h x.ledger) (n : ℕ) :
    (x.abandon n).Inv c h (x.abandon n).ledger where
  __ := inv
  broadcasts := forall_update_some inv.broadcasts (by simp)
  tasks m t ht := inv.tasks m t (Option.filter_eq_some_iff.mp ht).1

theorem restart (inv : x.Inv c h x.ledger) : x.restart.Inv c h x.restart.ledger where
  sessions _ _ hs := by cases hs
  saved := inv.saved
  tasks _ _ ht := by cases ht
  broadcasts _ _ hb := by cases hb
  removed := inv.removed

variable [DecidableEq κ]

theorem record (inv : x.Inv c h l) (s : SendSession κ ν)
    (hs : Labelled c l s.sourceNode s.origin) (saved : Bool) :
    (x.record saved s).Inv c h l where
  __ := inv
  sessions := forall_update_some inv.sessions (by rintro _ ⟨⟩; exact hs)
  saved := by
    rw [Sender.record]
    split
    · exact forall_update_some inv.saved (by rintro _ ⟨⟩; exact hs)
    · exact inv.saved

theorem failSession (inv : x.Inv c h l)
    (ht : Entitled h l t.session.origin t.deleteSource) (saved : Bool) (err : SendError) :
    (x.failSession n t saved err).Inv c h l := by
  rw [Sender.failSession]
  refine leave_failed (inv.record _ ?_ saved) err
  exact fun _ => ht.opened

theorem cancelSession (inv : x.Inv c h l)
    (ht : Entitled h l t.session.origin t.deleteSource) (saved : Bool) :
    (x.cancelSession n t saved).Inv c h l := by
  rw [Sender.cancelSession]
  refine leave_failed (inv.record _ ?_ saved) .cancelled
  exact fun _ => ht.opened

variable {target : ν}

theorem completeSession (inv : x.Inv c h l) {request : SendRequest ν}
    (hopened : Opened l t.session.origin request target)
    (hconfirmed : l.Confirmed h t.session.operation t.session.slot target) (saved : Bool) :
    (x.completeSession n t saved).Inv c h l := by
  rw [Sender.completeSession]
  refine leave (inv.record _ ?_ saved) ?_
  · exact fun _ => ⟨request, target, hopened⟩
  intro _ request' target' hrequest' htarget'
  obtain rfl : request = request' :=
    some_inj.mp (hopened.requested.symm.trans hrequest')
  obtain rfl : target = target' := some_inj.mp (hopened.slot.symm.trans htarget')
  exact hconfirmed

section

variable (inv : x.Inv c h x.ledger)
include inv

theorem afterLoop
    (ht : Entitled h x.ledger t.session.origin t.deleteSource) {saved : Bool}
    {outcome : LoopOutcome} (hstep : x.afterLoop h n t saved outcome = some y) :
    y.Inv c h y.ledger := by
  have tracked (loop : SendLoop) : Entitled h x.ledger (t.track loop).session.origin
      (t.track loop).deleteSource := ht
  cases outcome with
  | continued loop =>
    cases hstep
    exact inv.goto ht fun _ _ => trivial
  | failed loop err =>
    cases hstep
    exact (inv.failSession (tracked loop) saved err).of_log (log_failSession _ _)
  | cancelled loop =>
    cases hstep
    exact (inv.cancelSession (tracked loop) saved).of_log (log_cancelSession _)
  | panicked =>
    cases hstep
    exact (inv.leave_failed _).of_log (log_leave _)
  | left loop =>
    rw [Sender.afterLoop] at hstep
    split at hstep
    · exact inv.afterChunks (tracked loop) hstep
    · cases hstep
      exact (inv.failSession (tracked loop) saved _).of_log (log_failSession _ _)

theorem recordControl (s s' : SendSession κ ν)
    (hs' : Labelled c x.ledger s'.sourceNode s'.origin) (saved : Bool)
    (control : TransferControlState) : ((x.record saved s').setControl s control).Inv c h
      ((x.record saved s').setControl s control).ledger :=
  (setControl (inv.record s' hs' saved) s control).of_log (log_setControl _ _)

theorem pauseTransfer (id : κ) (saved : Bool) :
    (x.pauseTransfer id saved).Inv c h (x.pauseTransfer id saved).ledger := by
  rw [Sender.pauseTransfer]
  split
  · exact inv
  · next s hs =>
    split
    · refine inv.recordControl s _ ?_ saved _
      exact inv.sessions id s hs
    · exact inv

theorem cancelTransfer (id : κ) (sent saved : Bool) :
    (x.cancelTransfer id sent saved).Inv c h (x.cancelTransfer id sent saved).ledger := by
  rw [Sender.cancelTransfer]
  split
  · exact inv
  · next s hs =>
    have labelled := inv.loaded hs
    have loaded := inv.record s labelled false
    dsimp only
    split
    · refine loaded.recordControl s _ ?_ saved _
      exact labelled
    · exact loaded

theorem remoteCancel (id : κ) (reason : String) (saved : Bool) :
    (x.remoteCancel id reason saved).Inv c h (x.remoteCancel id reason saved).ledger := by
  rw [Sender.remoteCancel]
  split
  · exact inv
  · next s hs =>
    refine inv.recordControl s _ ?_ saved _
    exact inv.sessions id s hs

end

variable [DecidableEq ν]

theorem afterCompletion (inv : x.Inv c h x.ledger)
    (ht : Entitled h x.ledger t.session.origin t.deleteSource) {request : SendRequest ν}
    (hopened : Opened x.ledger t.session.origin request target) {data : Bytes}
    (hread : ⟨t.session.operation, t.session.slot, t.session.id, data⟩ ∈ x.read) (saved : Bool)
    (sender : ν) (message : FileTransferMessage) :
    (x.afterCompletion h n t saved target data sender message).Inv c h
      (x.afterCompletion h n t saved target data sender message).ledger := by
  obtain ⟨hgrows, heard⟩ := inv.hear t.session.id sender message
  rw [Sender.afterCompletion]
  split
  · exact (heard.failSession (ht.mono hgrows) saved _).of_log (log_failSession _ _)
  · next hcheck =>
    obtain ⟨rfl, completion, rfl, hhash, halgorithm⟩ := checkCompletion_ok hcheck
    have hconfirmed : (x.hear t.session.id sender (.complete completion)).ledger.Confirmed h
        t.session.operation t.session.slot sender := by
      refine ⟨t.session.id, data, completion, hread, ?_, halgorithm ▸ hhash⟩
      exact List.mem_append_right _ (List.mem_singleton.mpr rfl)
    split
    · next hmove =>
      rw [Bool.and_eq_true, beq_iff_eq] at hmove
      refine heard.goto (ht.mono hgrows) fun target htarget => ?_
      obtain rfl : sender = target :=
        List.singleton_inj.mp (hopened.targetNodes.symm.trans htarget)
      exact ⟨hmove.1, hmove.2, hconfirmed⟩
    · exact (heard.completeSession (hopened.mono hgrows) hconfirmed saved).of_log
        (log_completeSession _)

theorem next (inv : x.Inv c h x.ledger) (ht : t.Sound h x.ledger)
    (htarget : t.session.targetNodes = [target]) {saved : Bool} {input : TaskInput ν}
    (hstep : x.next c h n t target saved t.stage input = some y) : y.Inv c h y.ledger := by
  have hentitled := ht.entitled
  have hknows := ht.knows target htarget
  have failing (err : SendError) :
      (x.failSession n t saved err).Inv c h (x.failSession n t saved err).ledger :=
    (inv.failSession hentitled saved err).of_log (log_failSession _ _)
  have leaving (err : SendError) :
      (x.leave n t (.failed err)).Inv c h (x.leave n t (.failed err)).ledger :=
    (inv.leave_failed err).of_log (log_leave _)
  obtain ⟨request, target', hopened⟩ := hentitled.opened
  obtain rfl : target' = target := List.singleton_inj.mp (hopened.targetNodes.symm.trans htarget)
  revert hstep hknows
  generalize t.stage = stage
  intro hstep hknows
  unfold Sender.next at hstep
  split at hstep
  · -- the task is dropped
    cases hstep
    exact leaving _
  · -- a resumed session gets its slot and is opened again for the same target
    split at hstep
    · cases hstep
      exact leaving _
    · next s hopen =>
      cases hstep
      have hreopened : Entitled h x.ledger s.origin t.deleteSource := by
        rw [openSendSession_resumeCall htarget hopen]
        exact hentitled
      refine goto (inv.record s (fun _ => hreopened.opened) saved) ?_ fun _ _ => trivial
      exact hreopened
  -- the request and its response
  · cases hstep
    exact inv.goto hentitled fun _ _ => trivial
  · cases hstep
    exact failing _
  · cases hstep
    exact failing _
  · split at hstep
    · cases hstep
      exact inv.goto hentitled fun _ _ => trivial
    · cases hstep
      exact failing _
  -- the manifest and its acknowledgement
  · cases hstep
    exact inv.goto hentitled fun _ _ => trivial
  · cases hstep
    exact failing _
  · cases hstep
    exact failing _
  · split at hstep
    · cases hstep
      exact inv.goto hentitled fun _ _ => trivial
    · cases hstep
      exact failing _
  · -- the chunks; what was read is recorded when they are through
    obtain ⟨outcome, -, hstep⟩ := Option.bind_eq_some_iff.mp hstep
    exact inv.afterLoop hentitled hstep
  -- the finalization, and the receiver's report
  · cases hstep
    refine inv.goto hentitled fun _ _ => ?_
    exact hknows
  · cases hstep
    exact leaving _
  · cases hstep
    exact failing _
  · split at hstep
    · cases hstep
      exact inv.afterCompletion hentitled hopened hknows saved _ _
    · cases hstep
  · -- the source is removed: the other targets were confirmed before, this one has just been
    split at hstep
    · cases hstep
      obtain ⟨hdelete, hmode, hconfirmed⟩ := hknows
      refine of_log (x := x.removeFile t.session.operation t.session.sourcePath)
        (completeSession (inv.removeFile ?_) hopened hconfirmed saved) (log_completeSession _)
      exact hopened.moved hmode (hentitled.others hdelete hmode) hconfirmed
    · cases hstep
  · cases hstep
    exact failing _
  · cases hstep

/-! ### The calls of the service keep it -/

theorem sendFile (inv : x.Inv c h x.ledger) {kind : TransferKind} (hkind : kind ≠ .broadcast)
    (request : SendRequest ν) (htargets : request.targets = [target]) (id : κ) (saved : Bool) :
    (x.sendFile c kind request target id saved).Inv c h
      (x.sendFile c kind request target id saved).ledger := by
  have asked := inv.ask request
  rw [Sender.sendFile]
  split
  · exact asked
  · next s hopen =>
    have horigin := openSendSession_origin hopen
    have hopened : Opened (x.ask request).ledger s.origin request target := by
      rw [horigin]
      exact ⟨List.getElem?_concat_length, rfl, rfl, rfl, by simp [htargets], fun _ => htargets⟩
    refine spawn (asked.record s (fun _ => ⟨_, _, hopened⟩) saved) ?_
    refine ⟨⟨⟨_, _, hopened⟩, fun _ _ => ?_⟩, fun _ _ => trivial⟩
    -- a send has no other target
    refine hopened.othersConfirmed_of_single ?_
    rw [horigin]
    exact hkind

theorem startMember (inv : x.Inv c h x.ledger) {b : Broadcast ν} (hb : x.broadcasts n = some b)
    {slot : ℕ} (htarget : b.request.targets[slot]? = some target) (id : κ) (saved : Bool) :
    (x.startMember c n slot b.request target id saved).Inv c h
      (x.startMember c n slot b.request target id saved).ledger := by
  rw [Sender.startMember]
  split
  · exact inv.setMember (by simp)
  · next s hopen =>
    have horigin := openSendSession_origin hopen
    have hopened : Opened x.ledger s.origin b.request target := by
      rw [horigin]
      exact ⟨(inv.broadcasts n b hb).requested, rfl, rfl, rfl, htarget, by simp⟩
    have recorded := inv.record s (fun _ => ⟨_, _, hopened⟩) saved
    refine setMember (spawn recorded ?_) (by simp)
    -- `delete_source` is false for the tasks of a broadcast
    exact ⟨⟨⟨_, _, hopened⟩, by simp⟩, fun _ _ => trivial⟩

end Sender.Inv

/-- A session of a broadcast is resumed from disk only when the other targets have the file. -/
def ResumesLast (c : SendConfig ν) (h : Hashing σ) (x : Sender κ ν) : SenderEvent κ ν → Prop
  | .resumeTransfer id _ => x.sessions id = none → ∀ s, x.saved id = some s →
      s.sourceNode = c.sourceNode → s.kind = .broadcast → s.options.mode = .move →
      OthersConfirmed h x.ledger s.origin
  | _ => True

namespace Sender.Inv

variable {x : Sender κ ν} [DecidableEq κ] [DecidableEq ν]

theorem resumeTransfer (inv : x.Inv c h x.ledger) {id : κ} {saved : Bool}
    (hlast : ResumesLast c h x (.resumeTransfer id saved)) :
    (x.resumeTransfer c id saved).Inv c h (x.resumeTransfer c id saved).ledger := by
  rw [Sender.resumeTransfer]
  split
  · next s hs =>
    have labelled := inv.sessions id s hs
    split
    · refine inv.recordControl s _ ?_ saved _
      exact labelled
    · exact inv.record s labelled saved
  · next hnone =>
    split
    · exact inv
    · next s hs =>
      split
      · exact inv
      · next hours =>
        have hsource : s.sourceNode = c.sourceNode := by tauto
        obtain ⟨request, target, hopened⟩ := inv.saved id s hs hsource
        -- the task will remove the source, so the condition on resumes is needed here
        refine inv.spawn ⟨⟨⟨request, target, hopened⟩, fun _ hmode => ?_⟩, fun _ _ => trivial⟩
        by_cases hkind : s.kind = .broadcast
        · exact hlast hnone s hs hsource hkind hmode
        · exact hopened.othersConfirmed_of_single hkind

theorem step (inv : x.Inv c h x.ledger) {e : SenderEvent κ ν} (hlast : ResumesLast c h x e)
    {y : Sender κ ν} (hstep : x.step c h e = some y) : y.Inv c h y.ledger := by
  cases e with
  | sendFile kind target sourcePath destPath options id saved =>
    rw [Sender.step] at hstep
    split at hstep
    · cases hstep
    · next hkind =>
      cases hstep
      exact inv.sendFile hkind _ rfl id saved
  | broadcastFile request =>
    cases hstep
    exact inv.broadcastFile request
  | member n slot id saved =>
    rw [Sender.step] at hstep
    split at hstep
    · cases hstep
    · next b hb =>
      split at hstep
      · next target _ htarget =>
        cases hstep
        exact inv.startMember hb htarget id saved
      · cases hstep
  | task n input saved =>
    rw [Sender.step] at hstep
    split at hstep
    · cases hstep
    · next t ht =>
      have sound := inv.tasks n t ht
      obtain ⟨request, target, hopened⟩ := sound.entitled.opened
      have htarget : t.session.targetNodes = [target] := hopened.targetNodes
      rw [htarget] at hstep
      exact inv.next sound htarget hstep
  | finish n removed =>
    rw [Sender.step] at hstep
    split at hstep
    · cases hstep
    · next b hb =>
      split at hstep
      · cases hstep
        exact inv.finishBroadcast hb removed
      · cases hstep
  | abandon n =>
    cases hstep
    exact inv.abandon n
  | pauseTransfer id saved =>
    cases hstep
    exact inv.pauseTransfer id saved
  | resumeTransfer id saved =>
    cases hstep
    exact inv.resumeTransfer hlast
  | cancelTransfer id sent saved =>
    cases hstep
    exact inv.cancelTransfer id sent saved
  | remoteCancel id reason saved =>
    cases hstep
    exact inv.remoteCancel id reason saved
  | received s saved =>
    rw [Sender.step] at hstep
    split at hstep
    · cases hstep
    · next hforeign =>
      cases hstep
      exact inv.record s (fun hsource => absurd hsource hforeign) saved
  | forget id =>
    cases hstep
    exact { inv with sessions := forall_update_some inv.sessions (by simp) }
  | discard id =>
    cases hstep
    exact { inv with saved := forall_update_some inv.saved (by simp) }
  | write path content =>
    cases hstep
    exact inv.frame
  | restart =>
    cases hstep
    exact inv.restart

end Sender.Inv

/-! ## Runs -/

variable [DecidableEq κ] [DecidableEq ν]

/-- If sessions of a broadcast are resumed last, the source of a move is removed only when every
target has reported the file complete. -/
theorem source_removed_after_all_reports {files : Files} {events : List (SenderEvent κ ν)}
    {x : Sender κ ν} (hrun : run (Sender.step c h) (Sender.initial files) events = some x)
    (hlast : Along (Sender.step c h) (ResumesLast c h) (Sender.initial files) events) :
    (∀ n path, (n, path) ∈ x.removed → x.ledger.Moved h n path) ∧
      ∀ e y path, x.step c h e = some y → (∀ path content, e ≠ .write path content) →
        x.files path ≠ none → y.files path = none → ∃ n, (n, path) ∈ y.removed := by
  have inv : x.Inv c h x.ledger :=
    run_invariant_of_along
      (fun _ _ _ (inv : Sender.Inv c h _ _) hlast hstep => inv.step hlast hstep)
      (Sender.Inv.initial files) hlast hrun
  refine ⟨inv.removed, ?_⟩
  intro e y path hstep houtside hthere hgone
  exact Sender.removed_of_file_gone hstep houtside hthere hgone

/-! ### A broadcast to two nodes -/

def ownNode : SendConfig ℕ := { sourceNode := 0 }

def pairMove : SendRequest ℕ := ⟨[1, 2], ["in"], ["out"], { mode := .move }⟩

def oneFile : Files := fun path => if path = ["in"] then some [7] else none

def deliver (n node : ℕ) : List (SenderEvent ℕ ℕ) :=
  ([.sent (.ok ()), .response (.ok ⟨true, none, []⟩), .sent (.ok ()),
    .manifestAck (.ok ⟨true, [], none⟩), .loop .head, .loop (.produce (.ok [7])),
    .loop .prepared, .loop .head, .loop (.sent 0 (.ok ())), .loop .head,
    .loop (.message (.ok (.chunkAck ⟨0, true, none⟩))), .loop .head, .loop .prepared,
    .loop .head, .sent (.ok ()),
    .completion (.ok (node, .complete ⟨1, [7], .sha256⟩))] : List (TaskInput ℕ)).map
      (.task n · true)

/-- Node 1 has a session when the sender stops. It is resumed, and the file is gone before
node 2 has been sent anything. -/
theorem source_removed_before_all_reports :
    ∃ x, run (Sender.step ownNode plainHashing) (Sender.initial oneFile)
        ([.broadcastFile pairMove, .member 0 0 10 true, .restart, .resumeTransfer 10 true,
          .task 1 .slot true] ++ deliver 1 1 ++ [.task 1 (.removed (.ok ())) true]) = some x ∧
      (0, ["in"]) ∈ x.removed ∧ x.files ["in"] = none ∧
      (∀ report ∈ x.reported, report.node = 1) ∧ ¬ x.ledger.Moved plainHashing 0 ["in"] := by
  refine exists_of_evaluated (fun x => (0, ["in"]) ∈ x.removed ∧ x.files ["in"] = none ∧
      (∀ report ∈ x.reported, report.node = 1) ∧ x.requests = [pairMove])
    (by decide +kernel) fun x _ ⟨hremoved, hfile, hreported, hrequests⟩ =>
      ⟨hremoved, hfile, hreported, ?_⟩
  -- node 2 is a target and has sent no report
  rintro ⟨request, hrequest, -, -, hall⟩
  obtain rfl : pairMove = request := by
    simpa [Sender.ledger, hrequests] using hrequest
  obtain ⟨id, data, completion, -, hreport, -⟩ := hall 1 2 rfl
  have hnode : 2 = 1 := hreported _ hreport
  cases hnode

def halfDone : List (SenderEvent ℕ ℕ) :=
  [.broadcastFile pairMove, .member 0 0 10 true, .member 0 1 11 true] ++ deliver 1 2 ++ [.restart]

def otherHalf : List (SenderEvent ℕ ℕ) :=
  [.resumeTransfer 10 true, .task 2 .slot true] ++ deliver 2 1 ++
    [.task 2 (.removed (.ok ())) true]

theorem source_removed_after_all_reports_resumed :
    ∃ x, run (Sender.step ownNode plainHashing) (Sender.initial oneFile)
        (halfDone ++ otherHalf) = some x ∧
      (0, ["in"]) ∈ x.removed ∧ x.ledger.Moved plainHashing 0 ["in"] := by
  obtain ⟨mid, hmid, hrequests, hread, hreported, horigin, x, hx, hremoved⟩ :
      ∃ mid, run (Sender.step ownNode plainHashing) (Sender.initial oneFile) halfDone = some mid ∧
        mid.requests = [pairMove] ∧ mid.read = [⟨0, 1, 11, [7]⟩] ∧
        mid.reported = [⟨11, 2, ⟨1, [7], .sha256⟩⟩] ∧
        ((mid.saved 10).map fun s => (s.operation, s.slot)) = some (0, 0) ∧
        ∃ x, run (Sender.step ownNode plainHashing) mid otherHalf = some x ∧
          (0, ["in"]) ∈ x.removed := by
    decide +kernel
  have hends := run_append_eq_some.mpr ⟨mid, hmid, hx⟩
  refine ⟨x, hends, hremoved, (source_removed_after_all_reports hends ?_).1 0 ["in"] hremoved⟩
  refine (along_append hmid).mpr ⟨along_of_forall (by simp [halfDone, deliver, ResumesLast]), ?_⟩
  obtain ⟨next, hnext, -⟩ := run_cons_eq_some.mp hx
  refine (along_cons hnext).mpr ⟨?_, along_of_forall (by simp [deliver, ResumesLast])⟩
  -- node 2 is the only other target, and its report stands in the records
  intro _ s hs _ _ _ request hrequest slot target hslot htarget
  obtain ⟨hoperation, hown⟩ : s.origin.operation = 0 ∧ s.origin.slot = 0 := by
    simpa [hs, SendSession.origin] using horigin
  rw [hoperation] at hrequest ⊢
  rw [hown] at hslot
  obtain rfl : pairMove = request := by simpa [Sender.ledger, hrequests] using hrequest
  obtain ⟨rfl, rfl⟩ : slot = 1 ∧ target = 2 := by
    match slot, hslot, htarget with
    | 1, _, htarget => exact ⟨rfl, (some_inj.mp htarget).symm⟩
  exact ⟨11, [7], ⟨1, [7], .sha256⟩, by simp [Sender.ledger, hread],
    by simp [Sender.ledger, hreported], rfl⟩

end Chirps.FileTransfer
