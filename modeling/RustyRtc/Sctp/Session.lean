import RustyRtc.Foundation.Table
import RustyRtc.Sctp.Protocol

/-! # The SCTP session

`sctp/sctp_session`, `sctp/sender`, `sctp/receiver` and `sctp/stream`: the router and the two threads around the
association. The association itself is the environment: it says what becomes of a write and what comes in.
The router only passes events on from one channel to others, so what it would hold is put straight into the
channels it serves.
-/
namespace RustyRtc.Sctp
structure SctpFileProperties where
  fileName : String
  fileSize : UInt64
  transactionId : UInt32
  deriving DecidableEq, Repr

inductive SctpEvents where
  | sendAccept (id : UInt32)
  | sendCancel (id : UInt32)
  | sendChunk (fileId : UInt32) (payload : Bytes)
  | sendEndFile (id : UInt32)
  | sendOffer (fileProperties : SctpFileProperties)
  | sendReject (id : UInt32)
  | receivedOffer (fileProperties : SctpFileProperties)
  | receivedAccept (id : UInt32)
  | receivedReject (id : UInt32)
  | receivedCancel (id : UInt32)
  | receivedChunk (id seq : UInt32) (payload : Bytes)
  | receivedEndFile (id : UInt32)
  | sctpConnected
  | kickSender
  deriving DecidableEq, Repr

/-- Times are in milliseconds. -/
structure SctpStream where
  properties : SctpFileProperties
  lastActivity : ℕ
  nextSeq : UInt64
  timeout : ℕ
  deriving DecidableEq, Repr

namespace SctpStream
def new (properties : SctpFileProperties) (now : ℕ) : SctpStream :=
  { properties := properties, lastActivity := now, nextSeq := 0, timeout := 10000 }
def updateActivity (stream : SctpStream) (now : ℕ) : SctpStream := { stream with lastActivity := now }
def isTimedOut (stream : SctpStream) (now : ℕ) : Bool := now - stream.lastActivity > stream.timeout
end SctpStream

inductive WriteResult where
  | noAssociation
  /-- Stream 0 can neither be found nor opened. -/
  | noStream
  | written
  /-- `ErrPayloadDataStateNotExist`. -/
  | notReady
  /-- Any other error of the write. -/
  | failed
  deriving DecidableEq, Repr

def SctpEvents.forSender : SctpEvents → Bool
  | .receivedOffer _ | .receivedReject _ | .receivedCancel _ | .receivedChunk .. | .receivedEndFile _ => false
  | _ => true
def SctpEvents.forParent : SctpEvents → Bool
  | .receivedAccept _ | .receivedOffer _ | .receivedReject _ | .receivedCancel _ | .receivedChunk ..
  | .receivedEndFile _ => true
  | _ => false

/-- The transfer whose stream the sender opens on an event, and the one whose stream it takes out. -/
def SctpEvents.opens : SctpEvents → Option UInt32
  | .sendOffer props => some props.transactionId
  | .sendAccept id | .receivedAccept id => some id
  | _ => none
def SctpEvents.closes : SctpEvents → Option UInt32
  | .sendCancel id | .sendEndFile id => some id
  | _ => none
def SctpProtocolMessage.report : SctpProtocolMessage → SctpEvents
  | .offer id filename fileSize => .receivedOffer { fileName := filename, fileSize := fileSize, transactionId := id }
  | .accept id => .receivedAccept id
  | .reject id => .receivedReject id
  | .cancel id => .receivedCancel id
  | .chunk id seq payload => .receivedChunk id seq.toUInt32 payload
  | .endFile id => .receivedEndFile id
theorem SctpProtocolMessage.forParent_report (msg : SctpProtocolMessage) : msg.report.forParent = true := by
  cases msg <;> rfl

theorem SctpEvents.forParent_of_mem_nil : ∀ event ∈ ([] : List SctpEvents), event.forParent = true := by simp

/-- The channels to the sender and to the parent, what the threads share, and the messages that were written
to stream 0 and have not arrived yet. -/
structure SctpSession where
  streams : Table UInt32 SctpStream := ∅
  pending : List SctpProtocolMessage := []
  toSender : List SctpEvents := []
  toParent : List SctpEvents := []
  /-- The parent hears of nothing but what came in. -/
  forParent_of_mem : ∀ event ∈ toParent, event.forParent = true := by exact SctpEvents.forParent_of_mem_nil
  stream0 : List Bytes := []

namespace SctpSession
def route (s : SctpSession) (event : SctpEvents) : SctpSession :=
  { s with
    toSender := if event.forSender then s.toSender ++ [event] else s.toSender
    toParent := if event.forParent then s.toParent ++ [event] else s.toParent
    forParent_of_mem := by
      have hold := s.forParent_of_mem
      split
      · next hevent => simpa [or_imp,forall_and,hevent] using hold
      · exact hold }

def nextForParent (s : SctpSession) : SctpSession :=
  { s with
    toParent := s.toParent.tail
    forParent_of_mem := fun event hevent => s.forParent_of_mem event (List.mem_of_mem_tail hevent) }

def sendMessage (result : WriteResult) (s : SctpSession) (msg : SctpProtocolMessage) : SctpSession :=
  match msg.serialize with
  | .error _ => s
  | .ok payload =>
    match result with
    | .written => { s with stream0 := s.stream0 ++ [payload] }
    | .notReady | .noAssociation => { s with pending := s.pending ++ [msg] }
    | .noStream | .failed => s

section Frame
variable (result : WriteResult) (s : SctpSession) (msg : SctpProtocolMessage)

/-- A message is written, put off or dropped. -/
theorem sendMessage_cases : ∃ data, msg.serialize = .ok data ∧
    ((result = .written ∧ sendMessage result s msg = { s with stream0 := s.stream0 ++ [data] }) ∨
      (result ≠ .written ∧ sendMessage result s msg = { s with pending := s.pending ++ [msg] }) ∨
      (result ≠ .written ∧ sendMessage result s msg = s)) := by
  obtain ⟨rest,hrest⟩ := msg.serialize_eq
  refine ⟨_,hrest,?_⟩
  cases result <;> simp [sendMessage,hrest]

theorem sendMessage_written {msg : SctpProtocolMessage} {data : Bytes} (hdata : msg.serialize = .ok data) :
    sendMessage .written s msg = { s with stream0 := s.stream0 ++ [data] } := by
  rw [sendMessage,hdata]
@[simp] theorem sendMessage_streams : (sendMessage result s msg).streams = s.streams := by
  obtain ⟨data,-,⟨-,h⟩ | ⟨-,h⟩ | ⟨-,h⟩⟩ := sendMessage_cases result s msg <;> rw [h]
@[simp] theorem sendMessage_toSender : (sendMessage result s msg).toSender = s.toSender := by
  obtain ⟨data,-,⟨-,h⟩ | ⟨-,h⟩ | ⟨-,h⟩⟩ := sendMessage_cases result s msg <;> rw [h]
@[simp] theorem sendMessage_toParent : (sendMessage result s msg).toParent = s.toParent := by
  obtain ⟨data,-,⟨-,h⟩ | ⟨-,h⟩ | ⟨-,h⟩⟩ := sendMessage_cases result s msg <;> rw [h]
end Frame
def flush (results : ℕ → WriteResult) (s : SctpSession) : SctpSession :=
  s.pending.zipIdx.foldl (fun s m => sendMessage (results m.2) s m.1) { s with pending := [] }
def emptyProperties (id : UInt32) : SctpFileProperties := { fileName := "", fileSize := 0, transactionId := id }

/-- One event of `SctpSender::run`; `results` are those of the writes, one after another. -/
def handle (now : ℕ) (results : ℕ → WriteResult) (s : SctpSession) : SctpEvents → SctpSession
  | .sendOffer props =>
    sendMessage (results 0) { s with streams := s.streams.insert props.transactionId (.new props now) }
      (.offer props.transactionId props.fileName props.fileSize)
  | .sendAccept id =>
    sendMessage (results 0) { s with streams := s.streams.insert id (.new (emptyProperties id) now) } (.accept id)
  | .receivedAccept id => { s with streams := s.streams.insert id (.new (emptyProperties id) now) }
  | .sendReject id => sendMessage (results 0) s (.reject id)
  | .sendCancel id => sendMessage (results 0) { s with streams := s.streams.erase id } (.cancel id)
  | .sendChunk fileId payload =>
    match s.streams.lookup fileId with
    | some stream =>
      let stream' := { stream.updateActivity now with nextSeq := stream.nextSeq + 1 }
      sendMessage (results 0) { s with streams := s.streams.insert fileId stream' }
        (.chunk fileId stream.nextSeq payload)
    | none => s
  | .sendEndFile id => sendMessage (results 0) { s with streams := s.streams.erase id } (.endFile id)
  | .sctpConnected => s.flush results
  | _ => s

def messageOf (s : SctpSession) : SctpEvents → Option SctpProtocolMessage
  | .sendOffer props => some (.offer props.transactionId props.fileName props.fileSize)
  | .sendAccept id => some (.accept id)
  | .sendReject id => some (.reject id)
  | .sendCancel id => some (.cancel id)
  | .sendChunk fileId payload =>
    (s.streams.lookup fileId).map fun stream => .chunk fileId stream.nextSeq payload
  | .sendEndFile id => some (.endFile id)
  | _ => none

def transmit (now : ℕ) (results : ℕ → WriteResult) (s : SctpSession) : SctpSession :=
  match s.toSender with
  | [] => s
  | event :: rest => handle now results { s with toSender := rest } event
theorem foldl_sendMessage {I : SctpSession → Prop} {results : ℕ → WriteResult} {ms : List (SctpProtocolMessage × ℕ)}
    {s : SctpSession} (hs : I s) (hstep : ∀ s m, m ∈ ms → I s → I (sendMessage (results m.2) s m.1)) :
    I (ms.foldl (fun s m => sendMessage (results m.2) s m.1) s) := by
  induction ms generalizing s with
  | nil => exact hs
  | cons m ms ih => exact ih (hstep s m (by simp) hs) fun s m' hm' => hstep s m' (by simp [hm'])

section Frame
variable (now : ℕ) (results : ℕ → WriteResult) (s : SctpSession)

@[simp] theorem flush_streams : (s.flush results).streams = s.streams :=
  foldl_sendMessage (I := fun s' => s'.streams = s.streams) rfl fun _ _ _ h => by simpa using h
@[simp] theorem flush_toSender : (s.flush results).toSender = s.toSender :=
  foldl_sendMessage (I := fun s' => s'.toSender = s.toSender) rfl fun _ _ _ h => by simpa using h
@[simp] theorem flush_toParent : (s.flush results).toParent = s.toParent :=
  foldl_sendMessage (I := fun s' => s'.toParent = s.toParent) rfl fun _ _ _ h => by simpa using h

/-- An event other than `SctpConnected` changes the stream table and hands its message to the association. -/
theorem handle_eq {event : SctpEvents} (h : event ≠ .sctpConnected) : ∃ streams, handle now results s event =
    (s.messageOf event).elim { s with streams := streams } (sendMessage (results 0) { s with streams := streams }) := by
  cases event with
  | sctpConnected => exact absurd rfl h
  | sendChunk fileId payload =>
    unfold handle messageOf
    dsimp only
    cases s.streams.lookup fileId with
    | none => exact ⟨s.streams,rfl⟩
    | some stream => exact ⟨_,rfl⟩
  | _ => exact ⟨_,rfl⟩

theorem handle_cases {P : SctpSession → Prop} {event : SctpEvents}
    (hflush : event = .sctpConnected → P (s.flush results)) (hquiet : ∀ streams, P { s with streams := streams })
    (hsend : ∀ streams, ∀ msg ∈ s.messageOf event, P (sendMessage (results 0) { s with streams := streams } msg)) :
    P (handle now results s event) := by
  by_cases hevent : event = .sctpConnected
  · rw [hevent]
    exact hflush hevent
  · obtain ⟨streams,heq⟩ := handle_eq now results s hevent
    rw [heq]
    cases hmsg : s.messageOf event with
    | none => exact hquiet streams
    | some msg => exact hsend streams msg hmsg

@[simp] theorem handle_toSender (event : SctpEvents) : (handle now results s event).toSender = s.toSender :=
  handle_cases (P := fun s' => s'.toSender = s.toSender) now results s (by simp) (by simp) (by simp)
@[simp] theorem handle_toParent (event : SctpEvents) : (handle now results s event).toParent = s.toParent :=
  handle_cases (P := fun s' => s'.toParent = s.toParent) now results s (by simp) (by simp) (by simp)

@[simp] theorem transmit_toParent : (transmit now results s).toParent = s.toParent := by
  rw [transmit]
  cases s.toSender <;> simp
end Frame

/-- A stream of the table is one that the event opens, or was there before and is not taken out. -/
theorem mem_streams_handle {now : ℕ} {results : ℕ → WriteResult} {s : SctpSession} {event : SctpEvents} {k : UInt32}
    (h : k ∈ (handle now results s event).streams) :
    event.opens = some k ∨ k ∈ s.streams ∧ event.closes ≠ some k := by
  cases event with
  | sendOffer _ | sendAccept _ =>
    change k ∈ (sendMessage _ _ _).streams at h
    rw [sendMessage_streams,AList.mem_insert] at h
    exact h.imp (fun heq => congrArg some heq.symm) fun hold => ⟨hold,by simp [SctpEvents.closes]⟩
  | receivedAccept _ =>
    exact ((AList.mem_insert _).mp h).imp (fun heq => congrArg some heq.symm) fun hold => ⟨hold,by simp [SctpEvents.closes]⟩
  | sendCancel _ | sendEndFile _ =>
    change k ∈ (sendMessage _ _ _).streams at h
    rw [sendMessage_streams,AList.mem_erase] at h
    exact .inr ⟨h.2,fun heq => h.1 (Option.some.inj heq).symm⟩
  | sendChunk fileId payload =>
    refine .inr ⟨?_,by simp [SctpEvents.closes]⟩
    unfold handle at h
    dsimp only at h
    cases hl : s.streams.lookup fileId with
    | none => simpa only [hl] using h
    | some stream =>
      have hid : fileId ∈ s.streams := Table.mem_iff.mpr ⟨_,hl⟩
      simp only [hl,sendMessage_streams,AList.mem_insert] at h
      exact h.elim (fun heq => heq ▸ hid) (·)
  | sctpConnected => exact .inr ⟨flush_streams results s ▸ h,by simp [SctpEvents.closes]⟩
  | sendReject id => exact .inr ⟨sendMessage_streams (results 0) s (.reject id) ▸ h,by simp [SctpEvents.closes]⟩
  | _ => exact .inr ⟨h,by simp [SctpEvents.closes]⟩

def handleChunkData (now : ℕ) (s : SctpSession) (data : Bytes) : SctpSession :=
  match SctpProtocolMessage.deserialize data with
  | .error _ => s
  | .ok (.offer id filename fileSize) =>
    s.route (.receivedOffer { fileName := filename, fileSize := fileSize, transactionId := id })
  | .ok (.accept id) => s.route (.receivedAccept id)
  | .ok (.reject id) => s.route (.receivedReject id)
  | .ok (.cancel id) => s.route (.receivedCancel id)
  | .ok (.chunk id seq payload) =>
    let streams := match s.streams.lookup id with
      | some stream => s.streams.insert id (stream.updateActivity now)
      | none => s.streams
    route { s with streams := streams } (.receivedChunk id seq.toUInt32 payload)
  | .ok (.endFile id) => s.route (.receivedEndFile id)

/-- A message that can be read is reported, and no stream comes or goes. -/
theorem handleChunkData_cases (now : ℕ) (s : SctpSession) (data : Bytes) :
    ((∃ e, SctpProtocolMessage.deserialize data = .error e) ∧ handleChunkData now s data = s) ∨
      ∃ msg streams, SctpProtocolMessage.deserialize data = .ok msg ∧ (∀ k, k ∈ streams ↔ k ∈ s.streams) ∧
        handleChunkData now s data = route { s with streams := streams } msg.report := by
  unfold handleChunkData
  cases SctpProtocolMessage.deserialize data with
  | error e => exact .inl ⟨⟨e,rfl⟩,rfl⟩
  | ok msg =>
    right
    cases msg with
    | chunk id seq payload =>
      refine ⟨_,_,rfl,fun k => ?_,rfl⟩
      cases hl : s.streams.lookup id with
      | none => rfl
      | some stream =>
        have hid : id ∈ s.streams := Table.mem_iff.mpr ⟨_,hl⟩
        rw [AList.mem_insert]
        exact ⟨fun h => h.elim (fun heq => heq ▸ hid) (·), .inr⟩
    | _ => exact ⟨_,s.streams,rfl,fun _ => .rfl,rfl⟩

def timedOutIds (now : ℕ) (streams : Table UInt32 SctpStream) : List UInt32 :=
  (streams.entries.filter fun e => e.2.isTimedOut now).map (·.1)
def checkStreamTimeouts (now : ℕ) (ids : Iteration UInt32) (s : SctpSession) : SctpSession :=
  (ids.order (timedOutIds now s.streams)).foldl (fun s id => s.route (.sendCancel id)) s

/-- The silent streams are cancelled, the other channels and tables are left alone. -/
theorem checkStreamTimeouts_cancels (now : ℕ) (ids : Iteration UInt32) (s : SctpSession) :
    checkStreamTimeouts now ids s =
      { s with toSender := s.toSender ++ (ids.order (timedOutIds now s.streams)).map .sendCancel } := by
  rw [checkStreamTimeouts]
  generalize ids.order (timedOutIds now s.streams) = silent
  induction silent generalizing s with
  | nil => simp
  | cons id silent ih =>
    rw [List.foldl_cons,ih]
    simp [route,SctpEvents.forSender,SctpEvents.forParent]

theorem checkStreamTimeouts_eq (now : ℕ) (ids : Iteration UInt32) (s : SctpSession) :
    ∃ silent : List UInt32, checkStreamTimeouts now ids s = { s with toSender := s.toSender ++ silent.map .sendCancel } :=
  ⟨_,checkStreamTimeouts_cancels now ids s⟩
end SctpSession
end RustyRtc.Sctp
