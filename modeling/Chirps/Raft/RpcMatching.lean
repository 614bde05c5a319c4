/-
# Responses are matched exactly and once

An entry of the table belongs to one call, which is registered for its correlation id and was sent
nothing. An answered call does not register again. The counter may wrap around.
-/

import Chirps.Raft.RpcTransport

namespace Chirps.Raft

open Chirps.Library Chirps.RaftStorage

namespace ChirpsRaftTransport

variable {β : Type*}

/-! ## The invariant -/

variable {s : ChirpsRaftTransport β} {c : ℕ} {call : RpcCall β}

theorem continues_put {base : ChirpsRaftTransport β} {moved : ℕ} {old new : RpcCall β}
    (hbase : base.calls = s.calls) (hmoved : s.calls moved = some old) (h : old.Continues new)
    (hcall : s.calls c = some call) :
    ∃ call', (base.put moved new).calls c = some call' ∧ call.Continues call' := by
  rw [put_calls, hbase]
  rcases eq_or_ne c moved with rfl | hne
  · cases hmoved.symm.trans hcall
    exact ⟨new, by simp, h⟩
  · exact ⟨call, by simp [hne, hcall], .refl call⟩

theorem Change.continues {next : ChirpsRaftTransport β} {event : RpcEvent β}
    (h : s.Change event next) (hcall : s.calls c = some call) :
    ∃ call', next.calls c = some call' ∧ call.Continues call' := by
  cases h with
  | @begins new _ _ _ _ fresh =>
    have hne : c ≠ new := by
      rintro rfl
      exact absurd (fresh.symm.trans hcall) nofun
    exact ⟨call, by simp [put_calls, hne, hcall], .refl call⟩
  | moves hmoved hmoves =>
    exact continues_put rfl hmoved ⟨rfl, rfl, rfl, fun _ => hmoves.correlationId, hmoves.past⟩ hcall
  | registers hmoved hstage =>
    refine continues_put rfl hmoved ⟨rfl, rfl, rfl, fun id h => ?_, fun _ => trivial⟩ hcall
    rwa [hstage] at h
  | unregisters hmoved hstage =>
    refine continues_put rfl hmoved ⟨rfl, rfl, rfl, fun id h => ?_, fun _ => trivial⟩ hcall
    rwa [hstage] at h
  | @delivers entry source payload _ =>
    rw [deliver_calls]
    rcases eq_or_ne c entry.call with rfl | hne
    · exact ⟨{ call with inbox := some payload.message }, by simp [hcall], rfl, rfl, rfl,
        fun _ h => h, id⟩
    · exact ⟨call, by simp [hne, hcall], .refl call⟩
  | ignores | closes | cancels _ => exact ⟨call, hcall, .refl call⟩

def Got (s : ChirpsRaftTransport β) (c : ℕ) (message : RaftMessage β) : Prop :=
  ∃ delivery ∈ s.delivered, delivery.call = c ∧ delivery.payload.message = message

structure CallSound (s : ChirpsRaftTransport β) (c : ℕ) (call : RpcCall β) : Prop where
  group : call.stage.Encoded → call.message.groupId = s.groupId
  inbox : ∀ message, call.inbox = some message → s.Got c message
  message : ∀ message, call.stage.message? = some message → s.Got c message
  lock : call.stage.HoldsLock → s.lockedBy = some c

structure EntrySound (s : ChirpsRaftTransport β) (id : UInt64) (entry : PendingRpc) : Prop where
  call : ∃ call, s.calls entry.call = some call ∧ call.stage.registered? = some id ∧
    call.target = entry.target ∧ call.rpcType = entry.rpcType
  group : entry.groupId = s.groupId
  unanswered : ∀ delivery ∈ s.delivered, delivery.call ≠ entry.call

structure Inv (s : ChirpsRaftTransport β) : Prop where
  calls : ∀ c call, s.calls c = some call → s.CallSound c call
  entries : ∀ id entry, s.pending id = some entry → s.EntrySound id entry
  deliveries : ∀ delivery ∈ s.delivered, ∃ call, s.calls delivery.call = some call ∧
    call.stage.Past ∧ delivery.Answers call
  once : (s.delivered.map Delivery.call).Nodup

theorem CallSound.mono {s' : ChirpsRaftTransport β} (sound : s.CallSound c call)
    (groupId : s'.groupId = s.groupId) (delivered : s.delivered ⊆ s'.delivered)
    (lock : call.stage.HoldsLock → s'.lockedBy = some c) : s'.CallSound c call where
  group h := (sound.group h).trans groupId.symm
  inbox message h := by
    obtain ⟨delivery, hmem, hdelivery⟩ := sound.inbox message h
    exact ⟨delivery, delivered hmem, hdelivery⟩
  message message h := by
    obtain ⟨delivery, hmem, hdelivery⟩ := sound.message message h
    exact ⟨delivery, delivered hmem, hdelivery⟩
  lock := lock

section Preserved

variable {s next : ChirpsRaftTransport β} {event : RpcEvent β}

variable {base : ChirpsRaftTransport β} {moved : ℕ} {new : RpcCall β}

theorem Inv.calls_put (inv : s.Inv) (hcalls : base.calls = s.calls)
    (hgroup : base.groupId = s.groupId) (hdelivered : base.delivered = s.delivered)
    (sound : base.CallSound moved new)
    (lock : ∀ c, c ≠ moved → s.lockedBy = some c → base.lockedBy = some c) :
    ∀ c call, (base.put moved new).calls c = some call →
      (base.put moved new).CallSound c call := by
  intro c call hcall
  rcases eq_of_put_calls hcall with ⟨rfl, rfl⟩ | ⟨hne, hcall⟩
  · exact sound.mono rfl (List.Subset.refl _) sound.lock
  · have hold := inv.calls c call (hcalls ▸ hcall)
    exact hold.mono hgroup (hdelivered ▸ List.Subset.refl _) fun h => lock c hne (hold.lock h)

theorem Inv.calls_of_change (inv : s.Inv) (h : s.Change event next) :
    ∀ c call, next.calls c = some call → next.CallSound c call := by
  cases h with
  | begins _ =>
    refine inv.calls_put rfl rfl rfl ⟨nofun, nofun, nofun, nofun⟩ fun _ _ h => h
  | @moves _ c call _ _ _ hcall hmoves =>
    have hold := inv.calls c call hcall
    refine inv.calls_put rfl rfl rfl ⟨hmoves.group hold.group, hold.inbox, fun message h => ?_,
      hmoves.locks hold.lock⟩ fun other hne => hmoves.lockedBy_eq hold.lock hne
    exact hold.inbox message (hmoves.inbox h)
  | @registers c call id hcall hstage =>
    have hold := inv.calls c call hcall
    refine inv.calls_put rfl rfl rfl ⟨fun _ => hold.group (hstage ▸ trivial), hold.inbox, nofun,
      nofun⟩ fun other hne h => ?_
    -- the lock is the one of the call that registers
    exact absurd (Option.some.inj (h.symm.trans (hold.lock (hstage ▸ trivial)))) hne
  | @unregisters c call id outcome hcall hstage =>
    have hold := inv.calls c call hcall
    refine inv.calls_put rfl rfl rfl ⟨nofun, hold.inbox, fun message h => ?_, nofun⟩
      fun _ _ h => h
    exact hold.message message (hstage ▸ h)
  | @delivers entry source payload _ =>
    intro c call hcall
    have hsubset : s.delivered ⊆ (s.deliver entry source payload).delivered :=
      List.subset_append_left _ _
    rcases eq_of_deliver_calls hcall with ⟨rfl, old, hold, rfl⟩ | ⟨-, hcall⟩
    · have hold : (s.deliver entry source payload).CallSound entry.call old :=
        (inv.calls _ old hold).mono rfl hsubset (inv.calls _ old hold).lock
      refine ⟨hold.group, fun message h => ?_, hold.message, hold.lock⟩
      cases h
      exact ⟨⟨entry.call, source, payload⟩, by simp, rfl, rfl⟩
    · have hold := inv.calls c call hcall
      exact hold.mono rfl hsubset hold.lock
  | ignores | closes | cancels _ =>
    exact fun c call hcall => (inv.calls c call hcall).mono rfl (List.Subset.refl _)
      (inv.calls c call hcall).lock

variable {entry : PendingRpc}

theorem EntrySound.mono {id : UInt64} (sound : s.EntrySound id entry)
    (groupId : next.groupId = s.groupId)
    (delivered : ∀ delivery ∈ next.delivered, delivery ∈ s.delivered ∨ delivery.call ≠ entry.call)
    (call : ∀ call, s.calls entry.call = some call → call.stage.registered? = some id →
      ∃ call', next.calls entry.call = some call' ∧ call'.stage.registered? = some id ∧
        call'.target = call.target ∧ call'.rpcType = call.rpcType) : next.EntrySound id entry where
  call := by
    obtain ⟨old, hold, hregistered, htarget, htype⟩ := sound.call
    obtain ⟨new, hnew, hregistered', htarget', htype'⟩ := call old hold hregistered
    exact ⟨new, hnew, hregistered', htarget'.trans htarget, htype'.trans htype⟩
  group := sound.group.trans groupId.symm
  unanswered delivery h := (delivered delivery h).elim (sound.unanswered delivery) fun h => h

theorem EntrySound.put {id : UInt64} (sound : s.EntrySound id entry) (hcalls : base.calls = s.calls)
    (hgroup : base.groupId = s.groupId) (hdelivered : base.delivered = s.delivered)
    (h : ∀ old, s.calls moved = some old → old.stage.registered? ≠ some id) :
    (base.put moved new).EntrySound id entry := by
  refine sound.mono hgroup (fun delivery h => .inl (hdelivered ▸ h)) fun call hcall hid => ?_
  have hne : entry.call ≠ moved := by
    rintro rfl
    exact h call hcall hid
  exact ⟨call, by simp [put_calls, hcalls, hne, hcall], hid, rfl, rfl⟩

theorem Inv.entries_of_change (inv : s.Inv) (h : s.Change event next) :
    ∀ id entry, next.pending id = some entry → next.EntrySound id entry := by
  intro id entry hentry
  cases h with
  | begins fresh =>
    exact (inv.entries id entry hentry).put rfl rfl rfl
      fun old h => absurd (fresh.symm.trans h) nofun
  | @moves _ c call stage _ _ hcall hmoves =>
    refine (inv.entries id entry hentry).mono rfl (fun _ h => .inl h) fun old hold hid => ?_
    rw [put_calls]
    rcases eq_or_ne entry.call c with heq | hne
    · obtain rfl : call = old := Option.some.inj (hcall.symm.trans (heq ▸ hold))
      exact ⟨{ call with stage := stage }, by simp [heq], hmoves.registered.trans hid, rfl, rfl⟩
    · exact ⟨old, by simp [hne, hold], hid, rfl, rfl⟩
  | @registers c call new hcall hstage =>
    rcases update_eq_some_iff.mp hentry with ⟨rfl, hnew⟩ | ⟨-, hold⟩
    · cases hnew
      refine ⟨⟨{ call with stage := .sending id }, Function.update_self .., rfl, rfl, rfl⟩,
        rfl, fun delivery hdelivery (hcalls : delivery.call = c) => ?_⟩
      -- a call that has been answered is past its registration
      obtain ⟨answered, hanswered, hpast, -⟩ := inv.deliveries delivery hdelivery
      obtain rfl : call = answered := Option.some.inj (hcall.symm.trans (hcalls ▸ hanswered))
      rw [hstage] at hpast
      exact hpast
    · refine (inv.entries id entry hold).put rfl rfl rfl fun old h => ?_
      cases hcall.symm.trans h
      simp [hstage, RpcStage.registered?]
  | @unregisters c call gone outcome hcall hstage =>
    obtain ⟨hne, hold⟩ := update_none_eq_some_iff.mp hentry
    refine (inv.entries id entry hold).put rfl rfl rfl fun old h => ?_
    cases hcall.symm.trans h
    simpa [hstage, RpcStage.registered?] using hne.symm
  | @delivers answered source payload accepts =>
    obtain ⟨hne, hold⟩ := update_none_eq_some_iff.mp hentry
    have hsound := inv.entries id entry hold
    -- the two entries belong to different calls: each call is registered for one id
    have hcalls : answered.call ≠ entry.call := by
      intro heq
      obtain ⟨call, hcall, hid, -⟩ := hsound.call
      obtain ⟨other, hother, hid', -⟩ := (inv.entries _ _ accepts.pending).call
      cases hcall.symm.trans (heq ▸ hother)
      exact hne (Option.some.inj (hid.symm.trans hid'))
    refine hsound.mono rfl (fun delivery h => ?_) fun old hold hid =>
      ⟨old, by simp [deliver_calls, hcalls.symm, hold], hid, rfl, rfl⟩
    rw [deliver_delivered, List.mem_append, List.mem_singleton] at h
    exact h.imp_right fun (h : delivery = _) => h ▸ hcalls
  | ignores =>
    exact inv.entries id entry hentry
  | closes =>
    exact (inv.entries id entry hentry).mono rfl (fun _ h => .inl h)
      fun old hold hid => ⟨old, hold, hid, rfl, rfl⟩
  | cancels _ => cases hentry

theorem Inv.answers (inv : s.Inv) {source : ChirpsNodeId} {payload : RaftFramePayload β}
    (accepts : s.Accepts entry source payload) :
    ∃ call, s.calls entry.call = some call ∧ call.stage.Past ∧
      Delivery.Answers ⟨entry.call, source, payload⟩ call := by
  obtain ⟨call, hcall, hid, htarget, htype⟩ := (inv.entries _ entry accepts.pending).call
  have hgroup := (inv.calls _ call hcall).group (RpcStage.encoded_of_registered hid)
  exact ⟨call, hcall, RpcStage.past_of_registered hid, RpcStage.correlationId_of_registered hid,
    (htarget.trans accepts.target).symm, accepts.group.trans hgroup.symm, htype ▸ accepts.type⟩

theorem Inv.change (inv : s.Inv) (h : s.Change event next) : next.Inv where
  calls := inv.calls_of_change h
  entries := inv.entries_of_change h
  deliveries := by
    intro delivery hdelivery
    -- the call answered goes on, and it stays answered
    have hgoes : ∀ call, s.calls delivery.call = some call → call.stage.Past →
        delivery.Answers call → ∃ call, next.calls delivery.call = some call ∧
          call.stage.Past ∧ delivery.Answers call := by
      intro call hcall hpast hanswers
      obtain ⟨call', hcall', hcontinues⟩ := h.continues hcall
      exact ⟨call', hcall', hcontinues.past hpast, hanswers.continues hcontinues⟩
    by_cases hold : delivery ∈ s.delivered
    · obtain ⟨call, hcall, hpast, hanswers⟩ := inv.deliveries delivery hold
      exact hgoes call hcall hpast hanswers
    · cases h with
      | delivers accepts =>
        rw [deliver_delivered, List.mem_append, List.mem_singleton] at hdelivery
        obtain rfl := hdelivery.resolve_left hold
        obtain ⟨call, hcall, hpast, hanswers⟩ := inv.answers accepts
        exact hgoes call hcall hpast hanswers
      | _ => exact absurd hdelivery hold
  once := by
    cases h with
    | @delivers entry source payload accepts =>
      rw [deliver_delivered, List.map_append, List.map_singleton, ← List.concat_eq_append]
      refine List.Nodup.concat (fun hmem => ?_) inv.once
      obtain ⟨delivery, hdelivery, hcall⟩ := List.mem_map.mp hmem
      exact (inv.entries _ entry accepts.pending).unanswered delivery hdelivery hcall
    | _ => exact inv.once

/-! ## After the shutdown -/

structure Closed (s : ChirpsRaftTransport β) : Prop where
  acceptingRpcs : s.acceptingRpcs = false
  inserting : ∀ c call id, s.calls c = some call → call.stage ≠ .inserting id
  pending : ∀ id, s.pending id = none

theorem Closed.put (closed : s.Closed) (hcalls : base.calls = s.calls)
    (haccepting : base.acceptingRpcs = s.acceptingRpcs) (hpending : ∀ id, base.pending id = none)
    (hnew : ∀ id, new.stage ≠ .inserting id) : (base.put moved new).Closed where
  acceptingRpcs := haccepting.trans closed.acceptingRpcs
  inserting c call id hcall := by
    rcases eq_of_put_calls hcall with ⟨-, rfl⟩ | ⟨-, hcall⟩
    · exact hnew id
    · exact closed.inserting c call id (hcalls ▸ hcall)
  pending := hpending

theorem Closed.change (closed : s.Closed) (h : s.Change event next) : next.Closed := by
  cases h with
  | begins _ => exact closed.put rfl rfl closed.pending nofun
  | moves hcall hmoves =>
    refine closed.put rfl rfl closed.pending fun id h => ?_
    subst h
    generalize hstage : RpcCall.stage _ = stage at hmoves
    cases hmoves with
    | readmitted haccepting => simp [closed.acceptingRpcs] at haccepting
  | registers hcall hstage => exact absurd hstage (closed.inserting _ _ _ hcall)
  | @unregisters c call gone outcome hcall hstage =>
    refine closed.put rfl rfl (fun id => ?_) nofun
    show Function.update s.pending gone none id = none
    rw [Function.update_eq_self_iff.mpr (closed.pending gone).symm]
    exact closed.pending id
  | delivers accepts => exact absurd (accepts.pending.symm.trans (closed.pending _)) nofun
  | ignores => exact closed
  | closes => exact ⟨rfl, closed.inserting, closed.pending⟩
  | cancels _ => exact ⟨closed.acceptingRpcs, closed.inserting, fun _ => rfl⟩

end Preserved

theorem inv_new (groupId : GroupId) (nodeId : ChirpsNodeId) :
    (new groupId nodeId : ChirpsRaftTransport β).Inv where
  calls _ _ h := absurd h.symm (Option.some_ne_none _)
  entries _ _ h := absurd h.symm (Option.some_ne_none _)
  deliveries _ h := absurd h List.not_mem_nil
  once := List.nodup_nil

theorem Inv.run {t : ChirpsRaftTransport β} {events : List (RpcEvent β)} (inv : s.Inv)
    (reach : Library.run step s events = some t) : t.Inv :=
  run_invariant (fun _ _ _ inv h => inv.change (change_of_step h)) inv reach

end ChirpsRaftTransport

/-! ## The result -/

def twoCalls : List (RpcEvent ℕ) :=
  let response : RaftFramePayload ℕ := ⟨1, .voteResponse ⟨4⟩ 7⟩
  [.begin 0 2 .vote (.vote ⟨4⟩ 0) 5, .begin 1 2 .vote (.vote ⟨4⟩ 0) 5,
    .advance 0, .advance 0, .advance 0, .advance 0, .advance 0, .advance 0,
    .advance 1, .advance 1, .advance 1, .advance 1, .advance 1, .advance 1,
    .sent 0 (.ok ()), .sent 1 (.ok ()), .incoming 3 response, .incoming 2 response,
    .receive 0, .unregister 0, .expire 1]

end Chirps.Raft
