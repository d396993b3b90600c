import RustyRtc.Core.Network
import RustyRtc.Files.FileHandler

/-! # File transfers between two clients

The file parts of `core/engine`, `core/session` and `app/rtc_app`: the engine's queue of events, the thread that
turns messages of the association into such events, the thread that asks for chunks, and the buttons the user
has. Each thread takes turns of its own. Two clients are joined by an association that delivers what was
written to stream 0 in order and once.
-/
namespace RustyRtc.Files
open Sctp Core

inductive FileTransferState where
  | idle
  | remoteOffered (props : SctpFileProperties)
  | sending (id : UInt32) (filename : String)
  | receiving (id : UInt32) (filename : String)
  | finished (msg : String)
  deriving DecidableEq, Repr

/-- What the user does in the window of file transfers. The id of a new transfer is drawn at random. -/
inductive UserAction where
  | sendFile (filePathInput : Text) (id : UInt32)
  | accept
  | reject
  | cancel
  | ok
  deriving DecidableEq, Repr

/-- The thread that asks for chunks: asleep, past the flag that it has found up, in a burst with some `DrainChunks` left
to send, or at its end. -/
inductive DrainThread where
  | asleep
  | flagged
  | bursting (left : ℕ)
  | ended
  deriving DecidableEq, Repr

/-- `session` and `fileHandler` say whether the engine still has them. `out` is what `poll` has collected for the
window. -/
structure Peer where
  handler : FileHandler := {}
  sctp : SctpSession := {}
  events : List EngineEvent := []
  out : List EngineEvent := []
  session : Bool := true
  fileHandler : Bool := true
  sendingFiles : Bool := false
  receivingFiles : Bool := false
  fileTransferState : FileTransferState := .idle
  drainThread : DrainThread := .asleep

/-- The turn of one of the threads. -/
inductive Turn where
  /-- The listener of the file handler. -/
  | listen (w : Surroundings)
  /-- A reader or writer. -/
  | work (i : ℕ) (r : FileHandler.CallResult)
  /-- The SCTP sender. -/
  | transmit (now : ℕ) (results : ℕ → WriteResult)
  /-- The receiver looks for streams that have been silent. -/
  | checkTimeouts (now : ℕ) (ids : Iteration UInt32)
  /-- The receiver hears that the association is up. -/
  | connected
  /-- The thread between the association and the engine. -/
  | report
  /-- The next event of the engine. -/
  | poll
  /-- The thread that asks for chunks; `highBuffer` is what it finds when it looks at the buffer of the session. -/
  | drain (highBuffer : Bool)
  /-- The window handles what `poll` has collected, then the user acts. -/
  | frame (action : Option UserAction)
  /-- `Engine::stop`. -/
  | stop
  /-- `Engine::close_session`. -/
  | close

namespace Peer

def toHandler (p : Peer) (event : FileHandlerEvents) : Peer :=
  if p.fileHandler then { p with handler := p.handler.send event } else p
def toSession (p : Peer) (event : SctpEvents) : Peer :=
  if p.session then { p with sctp := p.sctp.route event } else p
def sendFile (p : Peer) (path : Text) (id : UInt32) : Peer :=
  if p.fileHandler then toHandler { p with sendingFiles := true } (.readFile path id) else p
def acceptFile (p : Peer) (id : UInt32) (filename : String) : Peer :=
  let p := if p.session then toSession { p with receivingFiles := true } (.sendAccept id) else p
  p.toHandler (.writeFile filename id)
def rejectFile (p : Peer) (id : UInt32) : Peer := p.toSession (.sendReject id)
def cancelFile (p : Peer) (id : UInt32) : Peer := (p.toSession (.sendCancel id)).toHandler (.cancel id)
def expose (p : Peer) (event : EngineEvent) : Peer := { p with out := p.out ++ [event] }

/-- One event of `Engine::poll`. Whatever is not for the engine goes to the window. -/
def pollEvent (p : Peer) : EngineEvent → Peer
  | .sendFileOffer props => p.toSession (.sendOffer props)
  | .sendFileChunk id payload => p.toSession (.sendChunk id payload)
  | .sendFileEnd id => { p.toSession (.sendEndFile id) with sendingFiles := false }
  | .receivedFileChunk id _ payload => p.toHandler (.writeChunk id payload)
  | .receivedFileEnd id => expose { p with receivingFiles := false } (.receivedFileEnd id)
  | .receivedFileAccept id => (p.toHandler (.remoteAccepted id)).expose (.receivedFileAccept id)
  | event => p.expose event

def poll (p : Peer) : Peer :=
  match p.events with
  | [] => p
  | event :: rest => pollEvent { p with events := rest } event

/-- The flag is looked at once, before the buffer and the whole burst. -/
def drain (highBuffer : Bool) (p : Peer) : Peer :=
  match p.drainThread with
  | .asleep =>
    if p.sendingFiles then { p with drainThread := .flagged }
    else if p.fileHandler then p
    else { p with drainThread := .ended }
  | .flagged => { p with drainThread := if highBuffer then .asleep else .bursting 20 }
  | .bursting 0 => { p with drainThread := .asleep }
  | .bursting (left + 1) =>
    if p.fileHandler then toHandler { p with drainThread := .bursting left } .drainChunks
    else { p with drainThread := .ended }
  | .ended => p

def stop (p : Peer) : Peer :=
  if p.fileHandler then
    { p with
      sendingFiles := false
      receivingFiles := false
      handler := p.handler.shutdown
      fileHandler := false }
  else p

def closeSession (p : Peer) : Peer := { p with session := false, fileHandler := false }

/-- The thread that `Session::new` starts. -/
def engineEvent : SctpEvents → Option EngineEvent
  | .receivedOffer props => some (.receivedFileOffer props)
  | .receivedAccept id => some (.receivedFileAccept id)
  | .receivedReject id => some (.receivedFileReject id)
  | .receivedCancel id => some (.receivedFileCancel id)
  | .receivedChunk id seq payload => some (.receivedFileChunk id seq payload)
  | .receivedEndFile id => some (.receivedFileEnd id)
  | .sendOffer props => some (.sendFileOffer props)
  | .sendAccept id => some (.sendFileAccept id)
  | .sendReject id => some (.sendFileReject id)
  | .sendCancel id => some (.sendFileCancel id)
  | .sendChunk id payload => some (.sendFileChunk id payload)
  | .sendEndFile id => some (.sendFileEnd id)
  | .sctpConnected | .kickSender => none

def report (p : Peer) : Peer :=
  match p.sctp.toParent with
  | [] => p
  | event :: _ => { p with sctp := p.sctp.nextForParent, events := p.events ++ (engineEvent event).toList }

/-- `s.contains("File download complete")`. -/
def announcesDownload (s : String) : Bool := decide ("File download complete".toList <:+: s.toList)

/-- `poll_engine_events`. -/
def handleEngineEvent (p : Peer) : EngineEvent → Peer
  | .status s =>
    if announcesDownload s then { p with fileTransferState := .finished s, receivingFiles := false } else p
  | .receivedFileOffer props => { p with fileTransferState := .remoteOffered props }
  | .receivedFileReject _ => { p with fileTransferState := .idle, sendingFiles := false }
  | .receivedFileCancel _ =>
    { p with fileTransferState := .idle, sendingFiles := false, receivingFiles := false }
  | .sendFileOffer props => { p with fileTransferState := .sending props.transactionId props.fileName }
  | .sendFileEnd _ => { p with fileTransferState := .idle, sendingFiles := false }
  | .receivedFileEnd _ => { p with fileTransferState := .idle, receivingFiles := false }
  | _ => p

/-- `render_file_transfer`: each state has its own buttons. -/
def act (p : Peer) (action : UserAction) : Peer :=
  match p.fileTransferState, action with
  | .idle, .sendFile filePathInput id =>
    if p.sendingFiles || p.receivingFiles then p
    else
      let path := trim filePathInput
      if path.isEmpty then p else p.sendFile path id
  | .idle, .cancel =>
    if p.sendingFiles || p.receivingFiles then
      { p.cancelFile 0 with sendingFiles := false, receivingFiles := false }
    else p
  | .remoteOffered props, .accept =>
    { p.acceptFile props.transactionId props.fileName with
      fileTransferState := .receiving props.transactionId props.fileName }
  | .remoteOffered props, .reject => { p.rejectFile props.transactionId with fileTransferState := .idle }
  | .sending id _, .cancel => { p.cancelFile id with sendingFiles := false, fileTransferState := .idle }
  | .receiving id _, .cancel => { p.cancelFile id with receivingFiles := false, fileTransferState := .idle }
  | .finished _, .ok => { p with fileTransferState := .idle }
  | _, _ => p

def frame (p : Peer) (action : Option UserAction) : Peer :=
  let p := p.out.foldl handleEngineEvent { p with out := [] }
  match action with
  | some action => p.act action
  | none => p

def step (c : Computer) (p : Peer) : Turn → Peer
  | .listen w =>
    let (handler,events) := p.handler.listen c w
    { p with handler := handler, events := p.events ++ events }
  | .work i r => { p with handler := p.handler.work i r }
  | .transmit now results => { p with sctp := p.sctp.transmit now results }
  | .checkTimeouts now ids => { p with sctp := p.sctp.checkStreamTimeouts now ids }
  | .connected => { p with sctp := p.sctp.route .sctpConnected }
  | .report => p.report
  | .poll => p.poll
  | .drain highBuffer => p.drain highBuffer
  | .frame action => p.frame action
  | .stop => p.stop
  | .close => p.closeSession

def hear (now : ℕ) (p : Peer) (data : Bytes) : Peer := { p with sctp := p.sctp.handleChunkData now data }
end Peer
inductive Act where
  | turn (who : Side) (t : Turn)
  | deliver (dest : Side) (now : ℕ)
def Link := Side → Peer

namespace Link
variable (computers : Side → Computer)
def set (link : Link) (who : Side) (p : Peer) : Link := fun side => if side = who then p else link side

/-- The oldest message that was written on the other side comes in. -/
def deliver (link : Link) (dest : Side) (now : ℕ) : Link :=
  let other := link dest.other
  match other.sctp.stream0 with
  | [] => link
  | data :: rest =>
    (link.set dest.other { other with sctp := { other.sctp with stream0 := rest } }).set dest
      ((link dest).hear now data)

def step (link : Link) : Act → Link
  | .turn who t => link.set who ((link who).step (computers who) t)
  | .deliver dest now => link.deliver dest now
end Link
end RustyRtc.Files
