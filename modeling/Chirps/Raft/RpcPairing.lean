/-
# Responses and the requests they answer

A restarted or recreated group gets a new transport that counts correlation ids from one. Each call
has a name that the code does not have, to compare a response with the call it wakes.
-/

import Chirps.Raft.RpcTransport

namespace Chirps.Raft

open Chirps.Library Chirps.RaftStorage
open Function (update)
open List (mem_append not_mem_nil)
open Option (bind_eq_some_iff map_eq_some_iff some_ne_none)

/-! ## Requests and responses -/

section Messages

variable {β : Type*}

def rpcTypeOf : RaftMessage β → Option RpcType
  | .vote _ _ => some .vote
  | .appendEntries _ _ => some .appendEntries
  | .installSnapshot _ _ | .snapshotTransfer _ _ => some .installSnapshot
  | _ => none

def answerTo (body : β) : RaftMessage β → Option (RaftMessage β)
  | .vote groupId _ => some (.voteResponse groupId body)
  | .appendEntries groupId _ => some (.appendEntriesResponse groupId body)
  | .installSnapshot groupId _ => some (.installSnapshotResponse groupId body)
  | .snapshotTransfer groupId _ => some (.snapshotTransferResponse groupId body)
  | _ => none

theorem groupId_of_answerTo {body : β} {request response : RaftMessage β}
    (h : answerTo body request = some response) : response.groupId = request.groupId := by
  cases request <;> cases h <;> rfl

theorem rpcTypeOf_of_answerTo {body : β} {request response : RaftMessage β} {rpcType : RpcType}
    (h : answerTo body request = some response) (hmatches : responseMatches rpcType response) :
    rpcTypeOf request = some rpcType := by
  cases request <;> cases h <;> cases rpcType <;> first | rfl | cases hmatches

end Messages

structure Origin where
  node : ChirpsNodeId
  groupId : GroupId
  incarnation : ℕ
  call : ℕ
  deriving DecidableEq

structure Request (β : Type*) where
  origin : Origin
  target : ChirpsNodeId
  payload : RaftFramePayload β

structure Response (β : Type*) where
  request : Request β
  message : RaftMessage β

structure Wake (β : Type*) where
  waiter : Origin
  response : Response β

structure Registration where
  origin : Origin
  correlationId : UInt64
  target : ChirpsNodeId
  rpcType : RpcType

def Registration.key (r : Registration) :
    ChirpsNodeId × GroupId × UInt64 × ChirpsNodeId × RpcType :=
  (r.origin.node, r.origin.groupId, r.correlationId, r.target, r.rpcType)

structure RpcNetwork (β : Type*) where
  transports : ChirpsNodeId → GroupId → Option (ChirpsRaftTransport β)
  /-- How many transports the group has had on the node. -/
  incarnation : ChirpsNodeId → GroupId → ℕ
  requests : List (Request β)
  responses : List (Response β)
  registered : List Registration
  woken : List (Wake β)

inductive RpcNetworkEvent (β : Type*)
  | createGroup (node : ChirpsNodeId) (groupId : GroupId)
  | removeGroup (node : ChirpsNodeId) (groupId : GroupId)
  /-- The process of the node ends. -/
  | restart (node : ChirpsNodeId)
  /-- One of the callers of `send_rpc` calls it. -/
  | call (node : ChirpsNodeId) (groupId : GroupId) (c : ℕ) (target : ChirpsNodeId)
      (message : RaftMessage β) (hardTtl : ℕ)
  /-- Anything else on a transport, but for incoming frames. -/
  | act (node : ChirpsNodeId) (groupId : GroupId) (event : RpcEvent β)
  /-- `backend.send` puts the request of a call on the network. -/
  | transmit (node : ChirpsNodeId) (groupId : GroupId) (c : ℕ)
  /-- The target handles a request and sends its response. -/
  | serve (i : ℕ) (body : β)
  /-- A response arrives. -/
  | deliver (i : ℕ)

def RpcEvent.isLocal {β : Type*} : RpcEvent β → Bool
  | .begin _ _ _ _ _ | .incoming _ _ => false
  | _ => true

/-! ## One transport -/

namespace ChirpsRaftTransport

variable {β : Type*}

def registrations (t : ChirpsRaftTransport β) (origin : ℕ → Origin) :
    RpcEvent β → List Registration
  | .advance c =>
    match t.calls c with
    | none => []
    | some call =>
      match call.stage with
      | .inserting id => [⟨origin c, id, call.target, call.rpcType⟩]
      | _ => []
  | _ => []

theorem mem_registrations {t : ChirpsRaftTransport β} {origin : ℕ → Origin} {c : ℕ}
    {call : RpcCall β} {id : UInt64} (hcall : t.calls c = some call)
    (hstage : call.stage = .inserting id) :
    ⟨origin c, id, call.target, call.rpcType⟩ ∈ t.registrations origin (.advance c) := by
  simp [registrations, hcall, hstage]

theorem eq_of_mem_registrations {t : ChirpsRaftTransport β} {origin : ℕ → Origin}
    {event : RpcEvent β} {a b : Registration} (ha : a ∈ t.registrations origin event)
    (hb : b ∈ t.registrations origin event) : a = b := by
  unfold registrations at ha hb
  split at ha
  · split at ha
    · cases ha
    · split at ha
      · simp_all
      · cases ha
  · cases ha

section Change

variable {s next : ChirpsRaftTransport β} {event : RpcEvent β}

theorem Change.pending (h : s.Change event next) {id : UInt64} {entry : PendingRpc}
    (hentry : next.pending id = some entry) :
    s.pending id = some entry ∨ ∃ call, event = .advance entry.call ∧
      s.calls entry.call = some call ∧ call.stage = .inserting id ∧
        entry = s.entryOf entry.call call := by
  cases h with
  | @registers c call new hcall hstage =>
    rcases update_eq_some_iff.mp hentry with ⟨rfl, hnew⟩ | ⟨-, hold⟩
    · cases hnew
      exact .inr ⟨call, rfl, hcall, hstage, rfl⟩
    · exact .inl hold
  | unregisters _ _ | delivers _ => exact .inl (update_none_eq_some_iff.mp hentry).2
  | cancels _ => cases hentry
  | begins _ | moves _ _ | ignores | closes => exact .inl hentry

/-- A call has just begun, or it goes on with the same arguments and is about to send
only when it was so before or has registered. -/
theorem Change.calls (h : s.Change event next) {c : ℕ} {call : RpcCall β}
    (hcall : next.calls c = some call) :
    (event = .begin c call.target call.rpcType call.message call.hardTtl ∧
      call.stage = .admission) ∨
    ∃ old, s.calls c = some old ∧ call.target = old.target ∧ call.rpcType = old.rpcType ∧
      call.message = old.message ∧ ∀ id, call.stage = .sending id →
        old.stage = .sending id ∨ event = .advance c ∧ old.stage = .inserting id := by
  -- a call that the event leaves alone
  have hsame : s.calls c = some call → ∃ old, s.calls c = some old ∧ call.target = old.target ∧
      call.rpcType = old.rpcType ∧ call.message = old.message ∧ ∀ id, call.stage = .sending id →
        old.stage = .sending id ∨ event = .advance c ∧ old.stage = .inserting id :=
    fun hold => ⟨call, hold, rfl, rfl, rfl, fun _ => .inl⟩
  cases h with
  | begins _ =>
    rcases eq_of_put_calls hcall with ⟨rfl, rfl⟩ | ⟨-, hcall⟩
    · exact .inl ⟨rfl, rfl⟩
    · exact .inr (hsame hcall)
  | moves hold hmoves =>
    rcases eq_of_put_calls hcall with ⟨rfl, rfl⟩ | ⟨-, hcall⟩
    · exact .inr ⟨_, hold, rfl, rfl, rfl, fun id h => absurd h (hmoves.ne_sending id)⟩
    · exact .inr (hsame hcall)
  | registers hold hstage =>
    rcases eq_of_put_calls hcall with ⟨rfl, rfl⟩ | ⟨-, hcall⟩
    · refine .inr ⟨_, hold, rfl, rfl, rfl, fun id h => .inr ⟨rfl, ?_⟩⟩
      rwa [← RpcStage.sending.inj h]
    · exact .inr (hsame hcall)
  | unregisters hold _ =>
    rcases eq_of_put_calls hcall with ⟨rfl, rfl⟩ | ⟨-, hcall⟩
    · exact .inr ⟨_, hold, rfl, rfl, rfl, nofun⟩
    · exact .inr (hsame hcall)
  | @delivers entry source payload _ =>
    rcases eq_of_deliver_calls hcall with ⟨rfl, old, hold, rfl⟩ | ⟨-, hcall⟩
    · exact .inr ⟨old, hold, rfl, rfl, rfl, fun _ => .inl⟩
    · exact .inr (hsame hcall)
  | ignores | closes | cancels _ => exact .inr (hsame hcall)

theorem Change.delivered (h : s.Change event next) :
    next.delivered = s.delivered ∨ ∃ entry source payload, event = .incoming source payload ∧
      s.Accepts entry source payload ∧
        next.delivered = s.delivered ++ [⟨entry.call, source, payload⟩] := by
  cases h with
  | delivers accepts => exact .inr ⟨_, _, _, rfl, accepts, rfl⟩
  | _ => exact .inl rfl

end Change

/-- Who waits or is about to send is known to the network, and calls are those of `send_rpc`. -/
structure Sound (registered : List Registration) (groupId : GroupId) (origin : ℕ → Origin)
    (t : ChirpsRaftTransport β) : Prop where
  pending : ∀ id entry, t.pending id = some entry →
    ⟨origin entry.call, id, entry.target, entry.rpcType⟩ ∈ registered
  request : ∀ c call, t.calls c = some call →
    call.message.groupId = groupId ∧ rpcTypeOf call.message = some call.rpcType
  sending : ∀ c call id, t.calls c = some call → call.stage = .sending id →
    ⟨origin c, id, call.target, call.rpcType⟩ ∈ registered

variable {registered : List Registration} {groupId : GroupId} {origin : ℕ → Origin}
  {t next : ChirpsRaftTransport β} {event : RpcEvent β}

theorem Sound.mono (sound : Sound registered groupId origin t) {more : List Registration}
    (h : registered ⊆ more) : Sound more groupId origin t :=
  ⟨fun id entry hentry => h (sound.pending id entry hentry), sound.request,
    fun c call id hcall hstage => h (sound.sending c call id hcall hstage)⟩

theorem sound_new (registered : List Registration) (groupId : GroupId) (origin : ℕ → Origin)
    (nodeId : ChirpsNodeId) :
    Sound registered groupId origin (new groupId nodeId : ChirpsRaftTransport β) where
  pending _ _ h := absurd h.symm (some_ne_none _)
  request _ _ h := absurd h.symm (some_ne_none _)
  sending _ _ _ h := absurd h.symm (some_ne_none _)

theorem Sound.change (sound : Sound registered groupId origin t) (h : t.Change event next)
    (hbegin : ∀ c target rpcType message hardTtl,
      event = .begin c target rpcType message hardTtl →
        message.groupId = groupId ∧ rpcTypeOf message = some rpcType) :
    Sound (registered ++ t.registrations origin event) groupId origin next where
  pending id entry hentry := by
    rw [mem_append]
    rcases h.pending hentry with hold | ⟨call, rfl, hcall, hstage, hentry⟩
    · exact .inl (sound.pending id entry hold)
    · right
      rw [hentry]
      exact mem_registrations hcall hstage
  request c call hcall := by
    rcases h.calls hcall with ⟨hevent, -⟩ | ⟨old, hold, -, htype, hmessage, -⟩
    · exact hbegin _ _ _ _ _ hevent
    · rw [htype, hmessage]
      exact sound.request c old hold
  sending c call id hcall hstage := by
    rw [mem_append]
    rcases h.calls hcall with ⟨-, hadmission⟩ | ⟨old, hold, htarget, htype, -, hsending⟩
    · cases hadmission.symm.trans hstage
    · rw [htarget, htype]
      rcases hsending id hstage with hstage | ⟨rfl, hstage⟩
      · exact .inl (sound.sending c old id hold hstage)
      · exact .inr (mem_registrations hold hstage)

end ChirpsRaftTransport

/-! ## The network -/

namespace RpcNetwork

variable {β : Type*} (x : RpcNetwork β)

def initial : RpcNetwork β where
  transports _ _ := none
  incarnation _ _ := 0
  requests := []
  responses := []
  registered := []
  woken := []

def origin (n : ChirpsNodeId) (g : GroupId) (c : ℕ) : Origin :=
  ⟨n, g, x.incarnation n g, c⟩

def setTransport (n : ChirpsNodeId) (g : GroupId)
    (t : Option (ChirpsRaftTransport β)) : RpcNetwork β :=
  { x with transports :=
      update x.transports n (update (x.transports n) g t) }

theorem setTransport_transports (n n' : ChirpsNodeId) (g g' : GroupId)
    (t : Option (ChirpsRaftTransport β)) : (x.setTransport n g t).transports n' g' =
      if n' = n ∧ g' = g then t else x.transports n' g' := by
  by_cases hn : n' = n
  · subst hn
    by_cases hg : g' = g <;> simp [setTransport, hg]
  · simp [setTransport, hn]

/-- `create_group`: the group gets a new transport. -/
def createGroup (n : ChirpsNodeId) (g : GroupId) : RpcNetwork β :=
  { x.setTransport n g (some (.new g n)) with
    incarnation := update x.incarnation n
      (update (x.incarnation n) g (x.incarnation n g + 1)) }

theorem createGroup_origin {x : RpcNetwork β} {n n' : ChirpsNodeId} {g g' : GroupId}
    (hne : ¬ (n' = n ∧ g' = g)) : (x.createGroup n g).origin n' g' = x.origin n' g' := by
  funext c
  by_cases hn : n' = n
  · subst hn
    have hg : g' ≠ g := fun hg => hne ⟨rfl, hg⟩
    simp [origin, createGroup, hg]
  · simp [origin, createGroup, hn]

def act (n : ChirpsNodeId) (g : GroupId) (event : RpcEvent β) : Option (RpcNetwork β) :=
  (x.transports n g).bind fun t => (t.step event).map fun next =>
    { x.setTransport n g (some next) with
      registered := x.registered ++ t.registrations (x.origin n g) event }

def step (x : RpcNetwork β) : RpcNetworkEvent β → Option (RpcNetwork β)
  | .createGroup n g =>
    if (x.transports n g).isNone then some (x.createGroup n g) else none
  | .removeGroup n g => some (x.setTransport n g none)
  | .restart n => some { x with transports := update x.transports n fun _ => none }
  | .call n g c target message hardTtl =>
    match rpcTypeOf message with
    | none => none
    | some rpcType =>
      if message.groupId = g then x.act n g (.begin c target rpcType message hardTtl) else none
  | .act n g event => if event.isLocal then x.act n g event else none
  | .transmit n g c =>
    (x.transports n g).bind fun t => (t.calls c).bind fun call =>
      match call.stage with
      | .sending id =>
        some { x with requests := x.requests ++ [⟨x.origin n g c, call.target, id, call.message⟩] }
      | _ => none
  | .serve i body =>
    x.requests[i]?.bind fun request =>
      -- the target has the group
      if (x.transports request.target request.payload.message.groupId).isSome then
        (answerTo body request.payload.message).map fun message =>
          { x with responses := x.responses ++ [⟨request, message⟩] }
      else none
  | .deliver i =>
    x.responses[i]?.bind fun response =>
      let n := response.request.origin.node
      let g := response.message.groupId
      (x.transports n g).bind fun t =>
        (t.step (.incoming response.request.target
          ⟨response.request.payload.correlationId, response.message⟩)).map fun next =>
            { x.setTransport n g (some next) with
              woken := x.woken ++ (next.delivered.drop t.delivered.length).map fun delivery =>
                ⟨x.origin n g delivery.call, response⟩ }

def registrations (x : RpcNetwork β) : RpcNetworkEvent β → List Registration
  | .act n g event =>
    match x.transports n g with
    | some t => t.registrations (x.origin n g) event
    | none => []
  | _ => []

/-- No call registers with what an earlier call of its node and group had. -/
def Unused (event : RpcNetworkEvent β) : Prop :=
  ∀ new ∈ x.registrations event, ∀ old ∈ x.registered, old.key ≠ new.key

instance (x : RpcNetwork β) (event : RpcNetworkEvent β) : Decidable (x.Unused event) :=
  inferInstanceAs (Decidable (∀ new ∈ x.registrations event, ∀ old ∈ x.registered, _))

/-! ## The invariant -/

structure Inv (x : RpcNetwork β) : Prop where
  sound : ∀ n g t, x.transports n g = some t → t.Sound x.registered g (x.origin n g)
  requests : ∀ r ∈ x.requests, r.origin.groupId = r.payload.message.groupId ∧
    ∃ rpcType, rpcTypeOf r.payload.message = some rpcType ∧
      ⟨r.origin, r.payload.correlationId, r.target, rpcType⟩ ∈ x.registered
  responses : ∀ p ∈ x.responses, p.request ∈ x.requests ∧
    ∃ body, answerTo body p.request.payload.message = some p.message
  keys : ∀ a ∈ x.registered, ∀ b ∈ x.registered, a.key = b.key → a = b
  woken : ∀ w ∈ x.woken, w.response ∈ x.responses ∧ w.response.request.origin = w.waiter

theorem inv_initial : (initial : RpcNetwork β).Inv where
  sound _ _ _ h := absurd h.symm (some_ne_none _)
  requests _ h := absurd h not_mem_nil
  responses _ h := absurd h not_mem_nil
  keys _ h := absurd h not_mem_nil
  woken _ h := absurd h not_mem_nil

theorem Inv.origin_eq {x : RpcNetwork β} (inv : x.Inv) {response : Response β}
    (hmem : response ∈ x.responses) {t : ChirpsRaftTransport β}
    (ht : x.transports response.request.origin.node response.message.groupId = some t)
    {entry : PendingRpc} (accepts : t.Accepts entry response.request.target
      ⟨response.request.payload.correlationId, response.message⟩) :
    response.request.origin =
      x.origin response.request.origin.node response.message.groupId entry.call := by
  obtain ⟨hrequest, body, hanswer⟩ := inv.responses response hmem
  obtain ⟨hgroup, rpcType, htype, hasked⟩ := inv.requests _ hrequest
  have hwaits := (inv.sound _ _ t ht).pending _ entry accepts.pending
  -- both are registered under the same key
  have hsame : rpcType = entry.rpcType :=
    Option.some.inj (htype.symm.trans (rpcTypeOf_of_answerTo hanswer accepts.type))
  have hkey := inv.keys _ hasked _ hwaits (by
    simp only [Registration.key, origin, hgroup, groupId_of_answerTo hanswer, accepts.target,
      hsame])
  exact congrArg Registration.origin hkey

section Preserved

variable {x next : RpcNetwork β}

section

variable (inv : x.Inv)
include inv

theorem Inv.act {n : ChirpsNodeId} {g : GroupId} {event : RpcEvent β}
    (h : x.act n g event = some next)
    (hbegin : ∀ c target rpcType message hardTtl,
      event = .begin c target rpcType message hardTtl →
        message.groupId = g ∧ rpcTypeOf message = some rpcType)
    (unused : ∀ t, x.transports n g = some t → ∀ new ∈ t.registrations (x.origin n g) event,
      ∀ old ∈ x.registered, old.key ≠ new.key) : next.Inv := by
  obtain ⟨t, ht, h⟩ := bind_eq_some_iff.mp h
  obtain ⟨moved, hmoved, rfl⟩ := map_eq_some_iff.mp h
  have hsubset := List.subset_append_left x.registered (t.registrations (x.origin n g) event)
  refine ⟨fun n' g' t' ht' => ?_, fun r hr => ?_, inv.responses, fun a ha b hb hkey => ?_,
    inv.woken⟩
  · replace ht' : (x.setTransport n g (some moved)).transports n' g' = some t' := ht'
    rw [setTransport_transports] at ht'
    split at ht'
    · rename_i heq
      obtain ⟨rfl, rfl⟩ := heq
      cases ht'
      exact (inv.sound _ _ t ht).change (ChirpsRaftTransport.change_of_step hmoved) hbegin
    · exact (inv.sound n' g' t' ht').mono hsubset
  · obtain ⟨hgroup, rpcType, htype, hregistered⟩ := inv.requests r hr
    exact ⟨hgroup, rpcType, htype, hsubset hregistered⟩
  · rcases mem_append.mp ha with ha | ha <;> rcases mem_append.mp hb with hb | hb
    · exact inv.keys a ha b hb hkey
    · exact absurd hkey (unused t ht b hb a ha)
    · exact absurd hkey.symm (unused t ht a ha b hb)
    · exact ChirpsRaftTransport.eq_of_mem_registrations ha hb

theorem Inv.forget {transports : ChirpsNodeId → GroupId →
      Option (ChirpsRaftTransport β)}
    (h : ∀ n g t, transports n g = some t → x.transports n g = some t) :
    { x with transports := transports }.Inv :=
  ⟨fun n g t ht => inv.sound n g t (h n g t ht), inv.requests, inv.responses, inv.keys, inv.woken⟩

theorem Inv.createGroup (n : ChirpsNodeId) (g : GroupId) : (x.createGroup n g).Inv := by
  refine ⟨fun n' g' t ht => ?_, inv.requests, inv.responses, inv.keys, inv.woken⟩
  replace ht : (x.setTransport n g (some (.new g n))).transports n' g' = some t := ht
  rw [setTransport_transports] at ht
  split at ht
  · rename_i heq
    obtain ⟨rfl, rfl⟩ := heq
    cases ht
    exact ChirpsRaftTransport.sound_new _ _ _ _
  · rename_i hne
    rw [createGroup_origin hne]
    exact inv.sound n' g' t ht

theorem Inv.transmit {n : ChirpsNodeId} {g : GroupId} {c : ℕ}
    (h : x.step (.transmit n g c) = some next) : next.Inv := by
  obtain ⟨t, ht, h⟩ := bind_eq_some_iff.mp h
  obtain ⟨call, hcall, h⟩ := bind_eq_some_iff.mp h
  split at h
  case h_1 id hstage =>
    cases h
    have hsound := inv.sound n g t ht
    obtain ⟨hgroup, htype⟩ := hsound.request c call hcall
    refine ⟨inv.sound, fun r hr => ?_, fun p hp => ?_, inv.keys, inv.woken⟩
    · rcases mem_append.mp hr with hr | hr
      · exact inv.requests r hr
      · obtain rfl := List.mem_singleton.mp hr
        exact ⟨hgroup.symm, call.rpcType, htype, hsound.sending c call id hcall hstage⟩
    · obtain ⟨hrequest, hanswer⟩ := inv.responses p hp
      exact ⟨List.mem_append_left _ hrequest, hanswer⟩
  case h_2 => cases h

theorem Inv.serve {i : ℕ} {body : β} (h : x.step (.serve i body) = some next) : next.Inv := by
  obtain ⟨request, hrequest, h⟩ := bind_eq_some_iff.mp h
  split at h
  · obtain ⟨message, hanswer, rfl⟩ := map_eq_some_iff.mp h
    refine ⟨inv.sound, inv.requests, fun p hp => ?_, inv.keys, fun w hw => ?_⟩
    · rcases mem_append.mp hp with hp | hp
      · exact inv.responses p hp
      · obtain rfl := List.mem_singleton.mp hp
        exact ⟨List.mem_of_getElem? hrequest, body, hanswer⟩
    · obtain ⟨hresponse, horigin⟩ := inv.woken w hw
      exact ⟨List.mem_append_left _ hresponse, horigin⟩
  · cases h

theorem Inv.deliver {i : ℕ} (h : x.step (.deliver i) = some next) : next.Inv := by
  obtain ⟨response, hresponse, h⟩ := bind_eq_some_iff.mp h
  obtain ⟨t, ht, h⟩ := bind_eq_some_iff.mp h
  obtain ⟨moved, hmoved, rfl⟩ := map_eq_some_iff.mp h
  have hmem : response ∈ x.responses := List.mem_of_getElem? hresponse
  have hchange := ChirpsRaftTransport.change_of_step hmoved
  refine ⟨fun n' g' t' ht' => ?_, inv.requests, inv.responses, inv.keys, fun w hw => ?_⟩
  · replace ht' : (x.setTransport _ _ (some moved)).transports n' g' = some t' := ht'
    rw [setTransport_transports] at ht'
    split at ht'
    · rename_i heq
      obtain ⟨rfl, rfl⟩ := heq
      cases ht'
      have hsound := (inv.sound _ _ t ht).change hchange nofun
      simp only [ChirpsRaftTransport.registrations, List.append_nil] at hsound
      exact hsound
    · exact inv.sound n' g' t' ht'
  · rcases mem_append.mp hw with hw | hw
    · exact inv.woken w hw
    · obtain ⟨delivery, hdelivery, rfl⟩ := List.mem_map.mp hw
      refine ⟨hmem, ?_⟩
      rcases hchange.delivered with hsame | ⟨entry, source, payload, hevent, accepts, hnew⟩
      · rw [hsame, List.drop_length] at hdelivery
        cases hdelivery
      · obtain ⟨rfl, rfl⟩ := RpcEvent.incoming.inj hevent
        rw [hnew, List.drop_left, List.mem_singleton] at hdelivery
        subst hdelivery
        exact inv.origin_eq hmem ht accepts

theorem Inv.step {event : RpcNetworkEvent β} (unused : x.Unused event)
    (h : x.step event = some next) : next.Inv := by
  cases event with
  | createGroup n g =>
    rw [RpcNetwork.step] at h
    split at h
    · cases h
      exact inv.createGroup n g
    · cases h
  | removeGroup n g =>
    cases h
    refine inv.forget fun n' g' t ht => ?_
    replace ht : (x.setTransport n g none).transports n' g' = some t := ht
    rw [setTransport_transports] at ht
    split at ht
    · cases ht
    · exact ht
  | restart n =>
    cases h
    refine inv.forget fun n' g t ht => ?_
    have hne : n' ≠ n := by
      rintro rfl
      simp at ht
    simpa [hne] using ht
  | call n g c target message hardTtl =>
    rw [RpcNetwork.step] at h
    split at h
    · cases h
    rename_i rpcType htype
    split at h
    · rename_i hgroup
      refine inv.act h (fun _ _ _ _ _ hevent => ?_) fun _ _ _ hnew => absurd hnew not_mem_nil
      obtain ⟨-, -, rfl, rfl, -⟩ := RpcEvent.begin.inj hevent
      exact ⟨hgroup, htype⟩
    · cases h
  | act n g event =>
    have hunused : ∀ t, x.transports n g = some t → ∀ new ∈ t.registrations (x.origin n g) event,
        ∀ old ∈ x.registered, old.key ≠ new.key := by
      intro t ht new hnew
      exact unused new (by simpa [registrations, ht] using hnew)
    rw [RpcNetwork.step] at h
    split at h
    · rename_i hlocal
      refine inv.act h (fun _ _ _ _ _ hevent => ?_) hunused
      subst hevent
      cases hlocal
    · cases h
  | transmit n g c => exact inv.transmit h
  | serve i body => exact inv.serve h
  | deliver i => exact inv.deliver h

end

end Preserved

end RpcNetwork

/-! ## The result -/

open RpcNetwork in
/-- If no call registers with the correlation id, target and RPC type of an earlier call of its node
and group, each response is delivered to the call whose request it answers. -/
theorem responses_paired {β : Type*} {events : List (RpcNetworkEvent β)} {x : RpcNetwork β}
    (reach : run step initial events = some x) (unused : Along step Unused initial events) :
    ∀ w ∈ x.woken, w.response ∈ x.responses ∧ w.response.request.origin = w.waiter :=
  (run_invariant_of_along (fun _ _ _ inv unused h => inv.step unused h) inv_initial unused
    reach).woken

def recreated (target : ChirpsNodeId) : List (RpcNetworkEvent ℕ) :=
  let advances : List (RpcNetworkEvent ℕ) := List.replicate 6 (.act 1 ⟨4⟩ (.advance 0))
  let asks : List (RpcNetworkEvent ℕ) :=
    [.createGroup 1 ⟨4⟩, .createGroup 2 ⟨4⟩, .call 1 ⟨4⟩ 0 2 (.vote ⟨4⟩ 10) 5]
  let asksAgain : List (RpcNetworkEvent ℕ) :=
    [.transmit 1 ⟨4⟩ 0, .act 1 ⟨4⟩ (.sent 0 (.ok ())), .serve 0 7,
      .act 1 ⟨4⟩ .closeRpcAdmission, .act 1 ⟨4⟩ .cancelPendingRpcs, .act 1 ⟨4⟩ (.receive 0),
      .act 1 ⟨4⟩ (.unregister 0), .removeGroup 1 ⟨4⟩, .createGroup 1 ⟨4⟩,
      .call 1 ⟨4⟩ 0 target (.vote ⟨4⟩ 20) 5]
  let arrives : List (RpcNetworkEvent ℕ) :=
    [.transmit 1 ⟨4⟩ 0, .act 1 ⟨4⟩ (.sent 0 (.ok ())), .deliver 0]
  asks ++ advances ++ asksAgain ++ advances ++ arrives

/-- The same run with a new call to another node, and then a call of group 5 that is answered. -/
def recreatedAndAnswered : List (RpcNetworkEvent ℕ) :=
  let asks : List (RpcNetworkEvent ℕ) :=
    [.createGroup 1 ⟨5⟩, .createGroup 2 ⟨5⟩, .call 1 ⟨5⟩ 0 2 (.vote ⟨5⟩ 30) 5]
  let answers : List (RpcNetworkEvent ℕ) :=
    [.transmit 1 ⟨5⟩ 0, .act 1 ⟨5⟩ (.sent 0 (.ok ())), .serve 2 8, .deliver 1]
  recreated 3 ++ asks ++ List.replicate 6 (.act 1 ⟨5⟩ (.advance 0)) ++ answers

/-- The calls have the same correlation id. The late response reaches none of them, the other one
its call. -/
theorem responses_paired_other_target :
    ∃ x, run RpcNetwork.step .initial recreatedAndAnswered = some x ∧
      Along RpcNetwork.step RpcNetwork.Unused .initial recreatedAndAnswered ∧
      x.registered.map Registration.correlationId = [1, 1, 1] ∧
      x.woken.map Wake.waiter = [⟨1, ⟨5⟩, 1, 0⟩] ∧
      ∀ w ∈ x.woken, w.response ∈ x.responses ∧ w.response.request.origin = w.waiter := by
  have hunused : Along RpcNetwork.step RpcNetwork.Unused .initial recreatedAndAnswered := by
    decide +kernel
  exact exists_of_evaluated (fun x => x.registered.map Registration.correlationId = [1, 1, 1] ∧
      x.woken.map Wake.waiter = [⟨1, ⟨5⟩, 1, 0⟩])
    (by decide +kernel) fun x reach ⟨hregistered, hwoken⟩ =>
      ⟨hunused, hregistered, hwoken, responses_paired reach hunused⟩

/-- A new call to the same node is answered with the response to the old one. -/
theorem late_response_wakes_new_call :
    (run RpcNetwork.step .initial
      (recreated 2 ++ [RpcNetworkEvent.act 1 ⟨4⟩ (.receive 0), .act 1 ⟨4⟩ (.unregister 0)])).map
        (fun x =>
        (x.woken.map fun w => (w.waiter, w.response.request.origin),
          (x.transports 1 ⟨4⟩).bind fun t => (t.calls 0).bind fun call => call.stage.message?)) =
      some ([(⟨1, ⟨4⟩, 2, 0⟩, ⟨1, ⟨4⟩, 1, 0⟩)], some (.voteResponse ⟨4⟩ 7)) := by
  decide +kernel

end Chirps.Raft
