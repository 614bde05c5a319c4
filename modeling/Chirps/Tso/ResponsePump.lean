/-
# The response pump of a TSO client

The pump of a `ChirpsTsoTransport` hands responses to the requests that wait for them. Its `while
let` passes over user frames that are no response, and any other frame ends it.
-/

import Chirps.Tso.Cluster
import Chirps.Library.Trace

namespace Chirps.Tso

open Chirps.Library Chirps.RaftStorage
open Function (update)

/-! ## Frames and the frame loop of the node -/

/-- `Frame`. Only the payload of a user message is looked at here. -/
inductive Frame
  | ping
  | ack
  | pingReq
  | gossip
  | user (payload : Bytes)
  | raft
  | raftSnapshot
  | fileTransfer
  | hlcGossip

def Frame.isUser : Frame → Bool
  | .user _ => true
  | _ => false

def raftIdentityMagic : Bytes :=
  ("chirps-raft-node-id/v1".toList.map fun c => UInt8.ofNat c.toNat) ++ [0]

/-- `decode_identity_frame` finds an identity: the magic and eight bytes. -/
def isIdentity (payload : Bytes) : Bool :=
  raftIdentityMagic.isPrefixOf payload && payload.length = raftIdentityMagic.length + 8

/-- The frame loop of the node hands the frame to its subscribers. -/
def forwarded (raftHandlers : Bool) : Frame → Bool
  | .ping | .ack | .pingReq | .gossip | .hlcGossip => false
  | .user payload => !isIdentity payload
  | .raft | .raftSnapshot => !raftHandlers
  | .fileTransfer => true

/-! ## The pump -/

variable {κ : Type*}

/-- `channels` has what was sent into the channel of each request, `opened` their number. -/
structure ResponsePump (κ : Type*) where
  transport : ChirpsTsoTransport κ
  running : Bool
  channels : ℕ → Option TsoFrame
  opened : ℕ

inductive PumpEvent (κ : Type*)
  /-- A frame comes to the node, with or without handlers for Raft. -/
  | arrive (raftHandlers : Bool) (frame : Frame)
  /-- `request` up to the sending. -/
  | request (client : κ)
  /-- A request that is not sent, or not answered in time, takes its entry out. -/
  | remove (correlationId : UInt64)

namespace ResponsePump

variable (decode : Bytes → Option TsoFrame)

def handle (x : ResponsePump κ) (payload : Bytes) :
    ResponsePump κ :=
  match decode payload with
  | none => x
  | some message =>
    match message.responseTo with
    | none => x
    | some correlationId =>
      match x.transport.pending correlationId with
      | none => x
      | some waiter =>
        { x with
          transport := x.transport.remove correlationId
          channels := update x.channels waiter.channel (some message) }

/-- The next frame of the subscription. Nobody reads it when the loop has ended. -/
def receive (x : ResponsePump κ) (frame : Frame) :
    ResponsePump κ :=
  if x.running then
    match frame with
    | .user payload => x.handle decode payload
    | _ => { x with running := false }
  else x

def act (x : ResponsePump κ) :
    PumpEvent κ → ResponsePump κ
  | .arrive raftHandlers frame =>
    if forwarded raftHandlers frame then x.receive decode frame else x
  | .request client =>
    { x with
      transport := x.transport.register ⟨client, x.opened⟩
      opened := x.opened + 1 }
  | .remove correlationId => { x with transport := x.transport.remove correlationId }

/-! ## Survival -/

/-- The frame is a response, and a request waits for its correlation id. -/
def Answers (x : ResponsePump κ) (frame : Frame)
    (correlationId : UInt64) (waiter : PendingResponse κ) (message : TsoFrame) : Prop :=
  ∃ payload, frame = .user payload ∧ decode payload = some message ∧
    message.responseTo = some correlationId ∧ x.transport.pending correlationId = some waiter

/-- Complete the request that the frame answers, leave all others alone, and go on. -/
structure Survives (decode : Bytes → Option TsoFrame) (x : ResponsePump κ) (frame : Frame)
    (next : ResponsePump κ) : Prop where
  running : next.running = true
  completes : ∀ correlationId waiter message,
    x.Answers decode frame correlationId waiter message →
      next.channels = update x.channels waiter.channel (some message) ∧
      next.transport.pending = update x.transport.pending correlationId none
  untouched : (∀ correlationId waiter message,
    ¬ x.Answers decode frame correlationId waiter message) →
      next.channels = x.channels ∧ next.transport.pending = x.transport.pending

def SurvivesAt (x : ResponsePump κ) : PumpEvent κ → Prop
  | .arrive raftHandlers frame =>
    forwarded raftHandlers frame = true → x.Survives decode frame (x.receive decode frame)
  | _ => True

variable {decode : Bytes → Option TsoFrame} {x : ResponsePump κ}

theorem handle_of_answers {payload : Bytes} {correlationId : UInt64} {waiter : PendingResponse κ}
    {message : TsoFrame} (h : x.Answers decode (.user payload) correlationId waiter message) :
    x.handle decode payload =
      { x with
        transport := x.transport.remove correlationId
        channels := update x.channels waiter.channel (some message) } := by
  obtain ⟨payload', hframe, hmessage, hid, hwaiter⟩ := h
  obtain rfl := Frame.user.inj hframe
  rw [handle, hmessage]
  simp only [hid, hwaiter]

theorem handle_of_not_answers {payload : Bytes}
    (h : ∀ correlationId waiter message,
      ¬ x.Answers decode (.user payload) correlationId waiter message) :
    x.handle decode payload = x := by
  rw [handle]
  split
  · rfl
  rename_i message hmessage
  split
  · rfl
  rename_i correlationId hid
  split
  · rfl
  · rename_i waiter hwaiter
    exact absurd ⟨payload, rfl, hmessage, hid, hwaiter⟩ (h correlationId waiter message)

theorem running_handle (payload : Bytes) : (x.handle decode payload).running = x.running := by
  rw [handle]
  repeat' split
  all_goals rfl

theorem survives_user (hrunning : x.running = true) (payload : Bytes) :
    x.Survives decode (.user payload) (x.receive decode (.user payload)) := by
  have hreceive : x.receive decode (.user payload) = x.handle decode payload := by
    rw [receive, if_pos hrunning]
  rw [hreceive]
  refine ⟨(running_handle payload).trans hrunning, ?_, ?_⟩
  · intro correlationId waiter message hanswers
    rw [handle_of_answers hanswers]
    exact ⟨rfl, rfl⟩
  · intro hnone
    rw [handle_of_not_answers hnone]
    exact ⟨rfl, rfl⟩

theorem running_receive_of_not_user {frame : Frame} (h : frame.isUser = false) :
    (x.receive decode frame).running = false := by
  cases frame with
  | user payload => cases h
  | _ => cases hrunning : x.running <;> simp [receive, hrunning]

theorem survives_iff_isUser (hrunning : x.running = true) {frame : Frame} :
    x.Survives decode frame (x.receive decode frame) ↔ frame.isUser = true := by
  constructor
  · intro survives
    by_contra huser
    have hstopped : (x.receive decode frame).running = false :=
      running_receive_of_not_user (Bool.eq_false_iff.mpr huser)
    exact absurd survives.running (by rw [hstopped]; decide)
  · intro huser
    cases frame with
    | user payload => exact survives_user hrunning payload
    | _ => cases huser

theorem running_act {e : PumpEvent κ} (hrunning : x.running = true)
    (h : x.SurvivesAt decode e) : (x.act decode e).running = true := by
  cases e with
  | arrive raftHandlers frame =>
    rw [act]
    split
    · rename_i hforwarded
      exact (h hforwarded).running
    · exact hrunning
  | request client => exact hrunning
  | remove correlationId => exact hrunning

theorem throughout_survives_iff (hrunning : x.running = true) {events : List (PumpEvent κ)} :
    Throughout (act decode) (SurvivesAt decode) x events ↔
      ∀ raftHandlers frame, PumpEvent.arrive raftHandlers frame ∈ events →
        forwarded raftHandlers frame = true → frame.isUser = true := by
  induction events generalizing x with
  | nil => simp
  | cons e rest ih =>
    rw [throughout_cons]
    constructor
    · rintro ⟨hfirst, hrest⟩ raftHandlers frame hmem hforwarded
      rcases List.mem_cons.mp hmem with rfl | hmem
      · exact (survives_iff_isUser hrunning).mp (hfirst hforwarded)
      · exact (ih (running_act hrunning hfirst)).mp hrest raftHandlers frame hmem hforwarded
    · intro huser
      have hfirst : x.SurvivesAt decode e := by
        cases e with
        | arrive raftHandlers frame =>
          exact fun hforwarded =>
            (survives_iff_isUser hrunning).mpr (huser _ _ List.mem_cons_self hforwarded)
        | _ => trivial
      refine ⟨hfirst, (ih (running_act hrunning hfirst)).mpr fun raftHandlers frame hmem => ?_⟩
      exact huser raftHandlers frame (List.mem_cons_of_mem e hmem)

/-- The pump completes every answered request, leaves the others untouched and goes on, just when
every frame that the node hands to it is a user frame. -/
theorem response_pump_survives_iff (decode : Bytes → Option TsoFrame)
    (transport : ChirpsTsoTransport κ) (channels : ℕ → Option TsoFrame) (opened : ℕ)
    (events : List (PumpEvent κ)) :
    Throughout (act decode) (SurvivesAt decode) ⟨transport, true, channels, opened⟩ events ↔
      ∀ raftHandlers frame, PumpEvent.arrive raftHandlers frame ∈ events →
        forwarded raftHandlers frame = true → frame.isUser = true :=
  throughout_survives_iff rfl

/-- A request is sent, a frame of a file transfer comes, and then the answer to the request. The
answer is not read. -/
theorem file_transfer_frame_ends_pump :
    ∃ (decode : Bytes → Option TsoFrame) (events : List (PumpEvent Unit)),
      events = [.request (), .arrive true .fileTransfer, .arrive true (.user [7])] ∧
      (decode [7]).bind TsoFrame.responseTo = some 1 ∧
      forwarded true .fileTransfer = true ∧ forwarded true (.user [7]) = true ∧
      let pump := events.foldl (act decode) ⟨.new 1 [], true, fun _ => none, 0⟩
      pump.transport.pending 1 = some ⟨(), 0⟩ ∧ pump.channels 0 = none ∧ pump.running = false := by
  refine ⟨fun _ => some (.leaderResponse 1 (.ok 3)), _, rfl, rfl, rfl, ?_, ?_, rfl, rfl⟩
  · decide +kernel
  · decide +kernel

end ResponsePump

end Chirps.Tso
