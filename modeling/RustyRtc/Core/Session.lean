import RustyRtc.Foundation.Threads
import Mathlib.Data.Nat.Notation

/-! # The session's threads

`core/session.rs`: a session owns a receiver thread, a handshake driver and, after
`request_close`, a close driver. They share atomic flags (all accessed with sequentially
consistent ordering), the socket and the engine's event channel. Every load, store, `send`
and event is one atomic action here, so the threads interleave between any two of them.
-/
namespace RustyRtc.Core
inductive AppMsg where
  | syn (token : UInt64)
  | synAck (your mine : UInt64)
  | ack (your : UInt64)
  | fin (token : UInt64)
  | finAck (your mine : UInt64)
  | finAck2 (your : UInt64)
  deriving DecidableEq, Repr

/-- A handshake message that establishes a session with token `me` if nothing else has. -/
def Completes (me : UInt64) : AppMsg → Prop
  | .synAck your _ => your = me
  | .ack your => your = me
  | _ => False
instance (me : UInt64) : DecidablePred (Completes me)
  | .synAck your _ | .ack your => inferInstanceAs (Decidable (your = me))
  | .syn _ | .fin _ | .finAck _ _ | .finAck2 _ => isFalse id
inductive EngineEvent where
  | established
  | closing (graceful : Bool)
  | closed
  | error (text : String)
  deriving DecidableEq, Repr

/-- What the threads of one session share. `sent` holds the datagrams that are in flight to
the peer, `events` all that went to the engine. -/
structure Shared where
  runFlag : Bool
  established : Bool
  tokenPeer : UInt64
  weInitiatedClose : Bool
  peerInitiatedClose : Bool
  closeDone : Bool
  hsGotSyn : Bool
  hsSentSynack : Bool
  rtpSession : Bool
  rtpMediaTx : Bool
  sent : List AppMsg
  events : List EngineEvent

/-- What a driver reads off the clock: whether its timeout has passed and whether it is time
to send again. -/
structure Clock where
  timedOut : Bool
  resend : Bool
abbrev Code := Prog Shared Clock

namespace Code

@[simp] def send (m : AppMsg) (next : Code) : Code := .store (fun s => { s with sent := s.sent ++ [m] }) next
@[simp] def emit (e : EngineEvent) (next : Code) : Code :=
  .store (fun s => { s with events := s.events ++ [e] }) next
@[simp] def done : Code := .ret false
end Code

open Code

@[simp] def stopRtpSession (next : Code) : Code :=
  .store (fun s => { s with rtpSession := false }) <|
  .store (fun s => { s with rtpMediaTx := false }) next
def answerSyn (localToken their : UInt64) : Code :=
  send (.synAck their localToken) <|
  .store (fun s => { s with hsGotSyn := true }) <|
  .store (fun s => { s with hsSentSynack := true }) done
def clearHandshake : Code :=
  .store (fun s => { s with hsSentSynack := false }) <|
  .store (fun s => { s with hsGotSyn := false }) done

/-- `rx_est.swap(true)`, with the event if the flag was down. -/
def establish : Code :=
  .atom (fun s => { s with established := true }) fun old =>
    if old.established then clearHandshake else emit .established clearHandshake

def handleAppMsg (localToken : UInt64) : AppMsg → Code
  | .syn their =>
    .load Shared.established fun est =>
      if est then done else
        .store (fun s => { s with tokenPeer := their }) <|
          if their > localToken then answerSyn localToken their
          else if their < localToken then .store (fun s => { s with hsGotSyn := true }) done
          else answerSyn localToken their
  | .synAck your mine =>
    .load Shared.established fun est =>
      if est then done else
        if your = localToken then
          .store (fun s => { s with tokenPeer := mine }) <| send (.ack mine) establish
        else done
  | .ack your =>
    .load Shared.established fun est =>
      if est then done else if your = localToken then establish else done
  | .fin their =>
    .store (fun s => { s with peerInitiatedClose := true }) <|
    .store (fun s => { s with established := false }) <|
    .store (fun s => { s with tokenPeer := their }) <|
    send (.finAck their localToken) <| stopRtpSession done
  | .finAck your mine =>
    -- the stored peer token only tells the two log lines of the refusal apart
    .load Shared.tokenPeer fun _ =>
      if your = localToken then send (.finAck2 mine) done else done
  | .finAck2 your =>
    if your = localToken then
      .store (fun s => { s with established := false }) <|
      .store (fun s => { s with closeDone := true }) <|
      emit (.closing true) <| emit .closed <| stopRtpSession done
    else done

/-- One round of the loop in `spawn_handshake_driver_thread`. -/
def handshakeDriver (localToken : UInt64) : Code :=
  .load Shared.runFlag fun run => if !run then .ret false else
  .load Shared.established fun est => if est then .ret false else
  .await fun started => if started.timedOut then emit (.error "handshake timeout") (.ret false) else
  .await fun last => if !last.resend then .ret true else
  send (.syn localToken) <|
  .load Shared.hsGotSyn fun got => if !got then .ret true else
  .load Shared.hsSentSynack fun sentSynack => if !sentSynack then .ret true else
  .load Shared.tokenPeer fun their => if their = 0 then .ret true else
  send (.synAck their localToken) <| send (.ack their) <| .ret true

def stopAll : Code := .store (fun s => { s with runFlag := false }) <| emit .closed <| .ret false

/-- One round of the loop of the thread that `request_close` spawns, with `stopAll` at each of
its exits. -/
def closeDriver (localToken : UInt64) : Code :=
  .load Shared.runFlag fun run => if !run then stopAll else
  .load Shared.closeDone fun isDone => if isDone then stopAll else
  .await fun started => if started.timedOut then stopAll else
  .await fun last => if !last.resend then .ret true else
  send (.fin localToken) <|
  .load Shared.tokenPeer fun their => if their = 0 then .ret true else
  send (.finAck their localToken) <| .ret true

def requestClose : Code :=
  .store (fun s => { s with weInitiatedClose := true }) <|
  .store (fun s => { s with established := false }) <| stopRtpSession done

/-- Where the receiver thread stands: at its loop test, in the burst drain with some calls of
`recv` left, before the next message of the batch, or inside `handle_app_msg`. -/
inductive Receiver where
  | head
  | draining (left : ℕ) (batch : List AppMsg)
  | processing (batch : List AppMsg)
  | handling (msg : AppMsg) (code : Code) (batch : List AppMsg)
  | stopped
def Receiver.messages : Receiver → List AppMsg
  | .head => []
  | .draining _ batch => batch
  | .processing batch => batch
  | .handling msg _ batch => msg :: batch
  | .stopped => []
def Receiver.running : Receiver → Bool
  | .stopped => false
  | _ => true

/-- A started session with the datagrams waiting at its socket. `caller` is a `request_close`
that has not returned yet; each call that did left a close driver. -/
structure Session where
  tokenLocal : UInt64
  shared : Shared
  inbox : List AppMsg
  receiver : Receiver
  handshake : Code
  caller : Option Code
  closeDrivers : List Code

/-- The engine's thread and the session's own take turns; `recvError` is the receiver's turn
when the socket fails. -/
inductive Turn where
  | receiver
  | recvError (text : String)
  | handshake (clock : Clock)
  | requestClose
  | caller
  | close (i : ℕ) (clock : Clock)

namespace Session
open Receiver

/-- `Session::start` with the token it drew and the result of starting RTP. -/
def start (token : UInt64) (rtp : Except String Unit) : Session where
  tokenLocal := token
  shared :=
    { runFlag := true, established := false, tokenPeer := 0, weInitiatedClose := false,
      peerInitiatedClose := false, closeDone := false, hsGotSyn := false, hsSentSynack := false,
      rtpSession := rtp.isOk, rtpMediaTx := rtp.isOk, sent := [],
      events := match rtp with
        | .ok _ => []
        | .error e => [.error ("Failed to start RTP session: " ++ e)] }
  inbox := []
  receiver := .head
  handshake := handshakeDriver token
  caller := none
  closeDrivers := []

variable (s : Session)
def arrive (m : AppMsg) : Session := { s with inbox := s.inbox ++ [m] }
def withSent (sent : List AppMsg) : Session := { s with shared := { s.shared with sent := sent } }
def handle (msg : AppMsg) (batch : List AppMsg) : Code → Session
  | .ret _ => { s with receiver := .processing batch }
  | code =>
    -- no handler reads the clock
    let next := code.step ⟨false,false⟩ s.shared
    { s with receiver := .handling msg next.1 batch, shared := next.2 }

def receive : Session :=
  match s.receiver with
  | .head => { s with receiver := if s.shared.runFlag then .draining 64 [] else .stopped }
  | .draining 0 batch => { s with receiver := .processing batch }
  | .draining (left + 1) batch =>
    match s.inbox with
    | [] => { s with receiver := .processing batch }
    | m :: inbox => { s with inbox := inbox, receiver := .draining left (batch ++ [m]) }
  | .processing [] => { s with receiver := .head }
  | .processing (m :: batch) =>
    { s with receiver := .handling m (handleAppMsg s.tokenLocal m) batch }
  | .handling msg code batch => s.handle msg batch code
  | .stopped => s

def recvError (text : String) : Session :=
  match s.receiver with
  | .draining (_ + 1) _ =>
    { s with
      receiver := .stopped
      shared := { s.shared with events := s.shared.events ++ [.error ("recv error: " ++ text)] } }
  | _ => s

def handshakeTurn (clock : Clock) : Session :=
  let next := s.handshake.resume (handshakeDriver s.tokenLocal) clock s.shared
  { s with handshake := next.1, shared := next.2 }

/-- The engine calls `request_close`; `&mut self` keeps two calls apart. -/
def requestCloseTurn : Session :=
  match s.caller with
  | none => { s with caller := some requestClose }
  | some _ => s

def callerTurn : Session :=
  match s.caller with
  | none => s
  | some (.ret _) =>
    { s with caller := none, closeDrivers := s.closeDrivers ++ [closeDriver s.tokenLocal] }
  | some code =>
    let next := code.step ⟨false,false⟩ s.shared
    { s with caller := some next.1, shared := next.2 }

def closeTurn (i : ℕ) (clock : Clock) : Session :=
  match s.closeDrivers[i]? with
  | none => s
  | some code =>
    let next := code.resume (closeDriver s.tokenLocal) clock s.shared
    { s with closeDrivers := s.closeDrivers.set i next.1, shared := next.2 }

def step : Turn → Session
  | .receiver => s.receive
  | .recvError text => s.recvError text
  | .handshake clock => s.handshakeTurn clock
  | .requestClose => s.requestCloseTurn
  | .caller => s.callerTurn
  | .close i clock => s.closeTurn i clock

def Closing : Prop :=
  s.caller.isSome ∨ s.shared.weInitiatedClose = true ∨ s.shared.peerInitiatedClose = true
instance : Decidable s.Closing := inferInstanceAs (Decidable (_ ∨ _ ∨ _))
def upcoming : Option AppMsg :=
  match s.receiver with
  | .processing (m :: _) => some m
  | _ => none
def handled : Option AppMsg :=
  match s.receiver with
  | .handling m _ _ => some m
  | _ => none
def queued : List AppMsg := s.receiver.messages ++ s.inbox

/-! Only `request_close` and what it starts touch the close drivers. -/
section Frame
variable {t : Turn}
theorem handle_frame (msg : AppMsg) (batch : List AppMsg) (code : Code) : (s.handle msg batch code).caller = s.caller ∧
      (s.handle msg batch code).closeDrivers = s.closeDrivers := by
  cases code <;> constructor <;> rfl

theorem receive_frame : s.receive.caller = s.caller ∧ s.receive.closeDrivers = s.closeDrivers := by
  unfold receive
  split
  · constructor <;> rfl
  · constructor <;> rfl
  · cases s.inbox <;> constructor <;> rfl
  · constructor <;> rfl
  · constructor <;> rfl
  · exact s.handle_frame _ _ _
  · constructor <;> rfl

theorem recvError_frame (text : String) :
    (s.recvError text).caller = s.caller ∧ (s.recvError text).closeDrivers = s.closeDrivers := by
  unfold recvError
  split <;> constructor <;> rfl

variable {s}
theorem closeTurn_of_nil (h : s.closeDrivers = []) (i : ℕ) (clock : Clock) : s.closeTurn i clock = s := by
  simp [closeTurn,h]
theorem closeTurn_caller (i : ℕ) (clock : Clock) : (s.closeTurn i clock).caller = s.caller := by
  unfold closeTurn
  split <;> rfl

theorem step_caller (ht : t ≠ .requestClose) (ht' : t ≠ .caller) : (s.step t).caller = s.caller := by
  cases t with
  | receiver => exact s.receive_frame.1
  | recvError text => exact (s.recvError_frame text).1
  | handshake clock => rfl
  | requestClose => exact absurd rfl ht
  | caller => exact absurd rfl ht'
  | close i clock => exact closeTurn_caller i clock

theorem step_no_caller (h : s.caller = none) (ht : t ≠ .requestClose) : (s.step t).caller = none := by
  by_cases ht' : t = .caller
  · subst ht'
    simp [step,callerTurn,h]
  · rw [step_caller ht ht',h]

theorem step_closeDrivers (h : s.closeDrivers = []) (ht : t = .caller → s.caller = none) :
    (s.step t).closeDrivers = [] := by
  cases t with
  | receiver => exact s.receive_frame.2.trans h
  | recvError text => exact (s.recvError_frame text).2.trans h
  | handshake clock => exact h
  | requestClose => cases hc : s.caller <;> simp [step,requestCloseTurn,hc,h]
  | caller => simp [step,callerTurn,ht rfl,h]
  | close i clock => simp [step,closeTurn_of_nil h,h]
end Frame

/-! Only the receiver's own turn moves the receiver, and it takes messages off the queue. -/
section Queue
variable {s} {m : AppMsg} {t : Turn}
theorem handled_eq_some : s.handled = some m ↔ ∃ code batch, s.receiver = .handling m code batch := by
  unfold handled
  split
  · next m' code batch hr =>
    constructor
    · rintro ⟨⟩
      exact ⟨code,batch,hr⟩
    · rintro ⟨_,_,h⟩
      rw [hr] at h
      cases h
      rfl
  · next hr =>
    constructor
    · simp
    · rintro ⟨code,batch,h⟩
      exact absurd h (hr m code batch)

theorem mem_queued_of_handled (h : s.handled = some m) : m ∈ s.queued := by
  obtain ⟨code,batch,hr⟩ := handled_eq_some.mp h
  simp [queued,hr,messages]
theorem callerTurn_receiver : s.callerTurn.receiver = s.receiver ∧ s.callerTurn.inbox = s.inbox := by
  unfold callerTurn
  split <;> constructor <;> rfl
theorem closeTurn_receiver (i : ℕ) (clock : Clock) :
    (s.closeTurn i clock).receiver = s.receiver ∧ (s.closeTurn i clock).inbox = s.inbox := by
  unfold closeTurn
  split <;> constructor <;> rfl
theorem requestCloseTurn_receiver : s.requestCloseTurn.receiver = s.receiver ∧ s.requestCloseTurn.inbox = s.inbox := by
  unfold requestCloseTurn
  split <;> constructor <;> rfl

theorem step_handled (h : s.handled = some m) (ht : t ≠ .receiver) : (s.step t).handled = some m := by
  obtain ⟨code,batch,hr⟩ := handled_eq_some.mp h
  refine handled_eq_some.mpr ⟨code,batch,?_⟩
  cases t with
  | receiver => exact absurd rfl ht
  | recvError text => simp [step,recvError,hr]
  | handshake clock => exact hr
  | requestClose => exact requestCloseTurn_receiver.1.trans hr
  | caller => exact callerTurn_receiver.1.trans hr
  | close i clock => exact (closeTurn_receiver i clock).1.trans hr

theorem step_stopped (h : s.receiver = .stopped) : (s.step t).receiver = .stopped := by
  cases t with
  | receiver => simp [step,receive,h]
  | recvError text => simp [step,recvError,h]
  | handshake clock => exact h
  | requestClose => exact requestCloseTurn_receiver.1.trans h
  | caller => exact callerTurn_receiver.1.trans h
  | close i clock => exact (closeTurn_receiver i clock).1.trans h

theorem queued_receive : s.receive.queued ⊆ s.queued := by
  unfold receive
  split
  · split <;> simp [queued,messages]
  · next hr => simp [queued,hr,messages]
  · next hr => cases hi : s.inbox <;> simp [queued,hr,hi,messages]
  · simp [queued,messages]
  · next hr => simp [queued,hr,messages]
  · next msg code batch hr => cases code <;> simp [queued,handle,hr,messages]
  · exact List.Subset.refl _

theorem queued_recvError (text : String) : (s.recvError text).queued ⊆ s.queued := by
  unfold recvError
  split <;> simp [queued,messages]

theorem queued_step (t : Turn) : (s.step t).queued ⊆ s.queued := by
  cases t with
  | receiver => exact queued_receive
  | recvError text => exact queued_recvError text
  | handshake clock => exact List.Subset.refl _
  | requestClose => simp [queued,step,requestCloseTurn_receiver]
  | caller => simp [queued,step,callerTurn_receiver]
  | close i clock => simp [queued,step,closeTurn_receiver]
end Queue

variable {s}
theorem mem_queued_of_upcoming {m : AppMsg} (h : s.upcoming = some m) : m ∈ s.queued := by
  unfold upcoming at h
  split at h
  · next hr =>
    cases h
    simp [queued,hr,messages]
  · simp at h
end Session
end RustyRtc.Core
