import RustyRtc.Connection.Manager
import RustyRtc.Signaling.Protocol

/-! # The client

`app/rtc_app.rs`: the call flow of the graphical client, driven once a frame by the pending answer, the engine's
events, the messages of the signaling server and the user. What the client only shows (status line, logs,
errors, video) is left out, and so are the parts of `core/engine.rs` that carry media and files.
-/
namespace RustyRtc.App
open Connection Signaling Ice

structure Environment extends Surroundings where
  accepts : SignalingMsg → Bool
  /-- `codec_descriptors` of the media transport. -/
  codecs : List CodecDescriptor
  maxCandidatePairs : ℕ
  credentials : String × String
  fingerprint : Option Text

/-- The engine as far as calls go; `session` says whether there is one. -/
structure Engine where
  cm : ConnectionManager
  session : Bool
  deriving DecidableEq, Repr

namespace Engine
def new (env : Environment) : Engine := ⟨.new env.maxCandidatePairs env.credentials env.fingerprint,false⟩
def outbound : OutboundSdp → Option Text
  | .offer sdp => some sdp.encode
  | .answer sdp => some sdp.encode
  | .none => none

variable (v6 : Ipv6Text)
def negotiate (env : Environment) (e : Engine) : Engine × Except ConnectionError (Option Text) :=
  let (cm,out) := (e.cm.setLocalRtpCodecs env.codecs).negotiate v6 env.toSurroundings
  ({ e with cm },out.map outbound)
def applyRemoteSdp (env : Environment) (e : Engine) (remote : Text) : Engine × Except ConnectionError (Option Text) :=
  let (cm,out,_) := (e.cm.setLocalRtpCodecs env.codecs).applyRemoteSdp v6 env.toSurroundings remote
  ({ e with cm },out.map outbound)
def applyRemoteCandidate (e : Engine) (line : Text) : Engine × Except ConnectionError Unit :=
  let (cm,out) := e.cm.applyRemoteTrickleCandidate v6 line
  ({ e with cm },out)
def localCandidatesAsSdpLines (e : Engine) : List Text := e.cm.iceAgent.localCandidates.map (IceAndSdp.fmt v6)
def closeSession (env : Environment) (e : Engine) : Engine :=
  ⟨e.cm.reset env.maxCandidatePairs env.credentials,false⟩

/-- ICE packets first. Once a pair is nominated its socket is connected and a session opened over DTLS, of which
either may fail. -/
def poll (env : Environment) (packets : List (Bytes × SocketAddr)) (connects handshakes : Bool) (e : Engine) : Engine :=
  let e := { e with cm := (e.cm.drainIceEvents env.sendOk packets).1 }
  if !e.session && (e.cm.iceAgent.getDataChannelSocket fun _ => "").isOk && connects then
    ⟨e.cm.stopIceWorker,handshakes⟩
  else e
end Engine
inductive ConnState where
  | idle
  | connecting
  | running
  | stopped
  deriving DecidableEq, Repr
inductive SignalingScreen where
  | connect
  | login
  | home
  deriving DecidableEq, Repr
inductive CallFlow where
  | idle
  | dialing (peer : UserName) (txnId : TxnId)
  | incoming (sender : UserName) (txnId : TxnId) (sdp : Text)
  | active (peer : UserName)
  deriving DecidableEq, Repr

structure RtcApp where
  remoteSdpText : Text
  localSdpText : Text
  pendingRemoteSdp : Option Text
  engine : Engine
  hasRemoteDescription : Bool
  hasLocalDescription : Bool
  isLocalOfferer : Bool
  connState : ConnState
  signalingClient : Bool
  signalingScreen : SignalingScreen
  peersOnline : List (UserName × PeerStatus)
  currentUsername : Option UserName
  callFlow : CallFlow
  nextTxnId : TxnId
  deriving DecidableEq, Repr

inductive SignalingEvent where
  | connected
  | disconnected
  | error (text : String)
  | serverMsg (msg : SignalingMsg)
  deriving DecidableEq, Repr
inductive EngineEvent where
  | established
  | closing
  | closed
  deriving DecidableEq, Repr

/-- The buttons; `ok` says whether a connection is made. -/
inductive UserAction where
  | connect (ok : Bool)
  | disconnect
  | login (username password : String)
  | register (username password : String)
  | refreshPeers
  | call (peer : UserName)
  | cancel
  | accept
  | decline
  | hangUp
  | endCall
  deriving DecidableEq, Repr

namespace RtcApp
def new (env : Environment) : RtcApp where
  remoteSdpText := []
  localSdpText := []
  pendingRemoteSdp := none
  engine := .new env
  hasRemoteDescription := false
  hasLocalDescription := false
  isLocalOfferer := false
  connState := .idle
  signalingClient := false
  signalingScreen := .connect
  peersOnline := []
  currentUsername := none
  callFlow := .idle
  nextTxnId := 1

def currentPeer (app : RtcApp) : Option UserName :=
  match app.callFlow with
  | .dialing peer _ => some peer
  | .active peer => some peer
  | .incoming sender _ _ => some sender
  | .idle => none

def sendSignaling (env : Environment) (app : RtcApp) (msg : SignalingMsg) : List SignalingMsg :=
  if app.signalingClient && env.accepts msg then [msg] else []
def requestPeerList (env : Environment) (app : RtcApp) : List SignalingMsg := app.sendSignaling env .listPeers
def username (app : RtcApp) : UserName := app.currentUsername.getD ""
def sendBye (env : Environment) (app : RtcApp) (peer : UserName) (reason : Option String) : List SignalingMsg :=
  match app.currentUsername with
  | none => []
  | some user => app.sendSignaling env (.bye user peer reason)
def bytes (t : Text) : Bytes := utf8 (String.ofList t)

section
variable (v6 : Ipv6Text)
def sendLocalCandidates (env : Environment) (app : RtcApp) (peer : UserName) : List SignalingMsg :=
  match app.currentUsername with
  | none => []
  | some user => (app.engine.localCandidatesAsSdpLines v6).flatMap fun line =>
      app.sendSignaling env (.candidate user peer "0" 0 (bytes line))
def createOrRenegotiateLocalSdp (env : Environment) (app : RtcApp) : RtcApp × Except ConnectionError Unit :=
  match app.engine.negotiate v6 env with
  | (engine, .error e) => ({ app with engine }, .error e)
  | (engine, .ok none) => ({ app with engine }, .ok ())
  | (engine, .ok (some text)) =>
    ({ app with engine,localSdpText := text,hasLocalDescription := true,isLocalOfferer := true }, .ok ())

def setRemoteSdp (env : Environment) (app : RtcApp) (sdp : Text) : RtcApp × Except ConnectionError Unit :=
  match app.engine.applyRemoteSdp v6 env sdp with
  | (engine, .error e) => ({ app with engine }, .error e)
  | (engine, .ok none) => ({ app with engine,hasRemoteDescription := true }, .ok ())
  | (engine, .ok (some text)) =>
    ({ app with
      engine
      localSdpText := text
      hasLocalDescription := true
      isLocalOfferer := false
      hasRemoteDescription := true }, .ok ())

def startOutgoingCall (env : Environment) (app : RtcApp) (peer : UserName) : RtcApp × List SignalingMsg :=
  if app.callFlow ≠ .idle ∨ app.currentUsername = none then (app,[])
  else
    match app.createOrRenegotiateLocalSdp v6 env with
    | (app, .error _) => (app,[])
    | (app, .ok _) =>
      if trim app.localSdpText = [] then (app,[])
      else
        let txnId := app.nextTxnId
        let app := { app with nextTxnId := txnId + 1 }
        let sent := app.sendSignaling env (.offer txnId app.username peer (bytes app.localSdpText))
        if sent = [] then (app,[])
        else ({ app with callFlow := .dialing peer txnId },sent ++ app.sendLocalCandidates v6 env peer)

def acceptIncomingCall (env : Environment) (app : RtcApp) : RtcApp × List SignalingMsg :=
  match app.callFlow with
  | .incoming sender txnId sdp =>
    match app.setRemoteSdp v6 env sdp with
    | (app, .error _) => (app,[])
    | (app, .ok _) =>
      if trim app.localSdpText = [] then (app,[])
      else
        let sent := app.sendSignaling env (.answer txnId app.username sender (bytes app.localSdpText))
        if sent = [] then (app,[])
        else ({ app with callFlow := .active sender },sent ++ app.sendLocalCandidates v6 env sender)
  | _ => (app,[])
end

def teardownCall (env : Environment) (app : RtcApp) (reason : Option String) (sendsBye : Bool) :
    RtcApp × List SignalingMsg :=
  let sent :=
    if sendsBye then
      match app.currentPeer with
      | some peer => app.sendBye env peer reason
      | none => []
    else []
  ({ app with
    engine := .new env
    callFlow := .idle
    connState := .idle
    pendingRemoteSdp := none
    hasLocalDescription := false
    hasRemoteDescription := false
    localSdpText := []
    remoteSdpText := [] },sent)

def declineIncomingCall (env : Environment) (app : RtcApp) : RtcApp × List SignalingMsg :=
  app.teardownCall env (some "declined") true

def clearSignalingState (app : RtcApp) : RtcApp :=
  { app with
    signalingClient := false
    signalingScreen := .connect
    currentUsername := none
    peersOnline := []
    callFlow := .idle }

variable (v6 : Ipv6Text)
def handleSignalingServerMsg (env : Environment) (app : RtcApp) : SignalingMsg → RtcApp × List SignalingMsg
  | .loginOk username =>
    let app := { app with currentUsername := some username,signalingScreen := .home }
    (app,app.requestPeerList env)
  | .peersOnline peers => ({ app with peersOnline := peers },[])
  | .offer txnId sender _ sdp =>
    if app.callFlow ≠ .idle then (app,app.sendSignaling env (.bye app.username sender (some "User is busy")))
    else
      match fromUtf8 sdp with
      | some body =>
        ({ app with remoteSdpText := body.toList,callFlow := .incoming sender txnId body.toList },
          app.sendSignaling env (.ack app.username sender txnId))
      | none => (app,[])
  | .answer txnId sender _ sdp =>
    match fromUtf8 sdp with
    | some body =>
      ({ app with
        remoteSdpText := body.toList
        pendingRemoteSdp := some body.toList
        callFlow := .active sender },app.sendSignaling env (.ack app.username sender txnId))
    | none => (app,[])
  | .candidate _ _ _ _ cand =>
    match fromUtf8 cand with
    | some line => ({ app with engine := (app.engine.applyRemoteCandidate v6 line.toList).1 },[])
    | none => (app,[])
  | .ping nonce => (app,app.sendSignaling env (.pong nonce))
  | .bye _ _ reason => app.teardownCall env reason false
  -- errors and acknowledgements are only shown
  | _ => (app,[])

def handleSignalingEvent (env : Environment) (app : RtcApp) : SignalingEvent → RtcApp × List SignalingMsg
  | .connected => (app,[])
  | .disconnected => (app.clearSignalingState,[])
  | .error _ => (app,[])
  | .serverMsg msg => app.handleSignalingServerMsg v6 env msg
def each {α : Type} (f : RtcApp → α → RtcApp × List SignalingMsg) (app : RtcApp) : List α → RtcApp × List SignalingMsg
  | [] => (app,[])
  | a :: as =>
    let (app,sent) := f app a
    let (app,sent') := each f app as
    (app,sent ++ sent')
def handleEngineEvent (env : Environment) (app : RtcApp) : EngineEvent → RtcApp
  | .established => { app with connState := .running }
  | .closing => { app with connState := .stopped,callFlow := .idle }
  | .closed => { app with connState := .stopped,engine := app.engine.closeSession env,callFlow := .idle }

def actHome (env : Environment) (app : RtcApp) : UserAction → RtcApp × List SignalingMsg
  | .disconnect => (app.clearSignalingState,[])
  | .refreshPeers => (app,app.requestPeerList env)
  | .call peer =>
    if (peer, .available) ∈ app.peersOnline then app.startOutgoingCall v6 env peer else (app,[])
  | .cancel =>
    match app.callFlow with
    | .dialing _ _ => app.teardownCall env (some "cancelled") true
    | _ => (app,[])
  | .accept => app.acceptIncomingCall v6 env
  | .decline =>
    match app.callFlow with
    | .incoming _ _ _ => app.declineIncomingCall env
    | _ => (app,[])
  | .hangUp =>
    match app.callFlow with
    | .active _ => app.teardownCall env (some "hangup") true
    | _ => (app,[])
  | .endCall => if app.connState = .running then app.teardownCall env (some "stopped") true else (app,[])
  | _ => (app,[])

/-- A button that is not shown or not enabled does nothing. -/
def act (env : Environment) (app : RtcApp) (a : UserAction) : RtcApp × List SignalingMsg :=
  match app.signalingScreen with
  | .connect =>
    if a = .connect true then ({ app with signalingClient := true,signalingScreen := .login },[]) else (app,[])
  | .login =>
    match a with
    | .login username password => (app,app.sendSignaling env (.login username password))
    | .register username password => (app,app.sendSignaling env (.register username password))
    | .disconnect => (app.clearSignalingState,[])
    | _ => (app,[])
  | .home => app.actHome v6 env a

structure Frame where
  env : Environment
  packets : List (Bytes × SocketAddr)
  connects : Bool
  handshakes : Bool
  engineEvents : List EngineEvent
  signalingEvents : List SignalingEvent
  actions : List UserAction

def takePending (env : Environment) (app : RtcApp) : RtcApp :=
  match app.pendingRemoteSdp with
  | none => app
  | some sdp => (setRemoteSdp v6 env { app with pendingRemoteSdp := none } sdp).1

def update (app : RtcApp) (f : Frame) : RtcApp × List SignalingMsg :=
  let app := app.takePending v6 f.env
  let app := { app with engine := app.engine.poll f.env f.packets f.connects f.handshakes }
  let app := f.engineEvents.foldl (handleEngineEvent f.env) app
  -- messages are polled only while there is a connection
  let (app,sent) := if app.signalingClient then each (handleSignalingEvent v6 f.env) app f.signalingEvents else (app,[])
  let (app,sent') := each (act v6 f.env) app f.actions
  (app,sent ++ sent')

def run (app : RtcApp) (frames : List Frame) : RtcApp := frames.foldl (fun app f => (app.update v6 f).1) app
end RtcApp
end RustyRtc.App
