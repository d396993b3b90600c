import Mathlib.Data.List.Infix
import RustyRtc.Connection.Attributes
import RustyRtc.Foundation.Lists
import RustyRtc.Media.Spec
import RustyRtc.Sdp.Sdpc

/-! # The connection manager

`connection_manager/connection_manager.rs`: offers and answers, what is taken from the peer's description,
and when ICE starts. Each call is given what it finds outside: the sockets, the clock and the network. A call
that fails leaves behind what it had stored by then. Log lines are left out.
-/
namespace RustyRtc.Connection
open Ice Sdp

structure RtpCodec where
  payloadType : UInt8
  clockRate : UInt32
  name : Text
  deriving DecidableEq, Repr
structure CodecDescriptor where
  rtpRepresentation : RtpCodec
  sdpFmtp : Option Text
  spec : CodecSpec
  deriving DecidableEq, Repr
inductive SignalingState where
  | stable
  | haveLocalOffer
  | haveRemoteOffer
  | closed
  deriving DecidableEq, Repr
inductive IcePhase where
  | idle
  | gathering
  | checking
  | nominated
  deriving DecidableEq, Repr
inductive ConnectionError where
  | iceAgent
  | negotiation (message : String)
  | sdp (e : SdpError)
  | rtpMap (message : String)
  deriving DecidableEq, Repr
inductive OutboundSdp where
  | offer (sdp : Sdp)
  | answer (sdp : Sdp)
  | none
  deriving DecidableEq, Repr
structure IceWorker where
  targets : List (SocketAddr × SocketAddr)
  deriving DecidableEq, Repr

structure ConnectionManager where
  iceAgent : IceAgent
  signaling : SignalingState
  localDescription : Option Sdp
  remoteDescription : Option Sdp
  icePhase : IcePhase
  localCodecs : List CodecDescriptor
  remoteCodecs : List RtpCodec
  iceWorker : Option IceWorker
  localFingerprint : Text
  remoteFingerprint : Option Text
  deriving DecidableEq, Repr

structure Surroundings where
  hostCandidates : List Candidate
  candidates : List Candidate
  ntpSeconds : UInt64
  sendOk : SocketAddr → SocketAddr → Bool
def DEFAULT_FINGERPRINT : Text := "00:00:00:00:00:00:00:00:00:00:00:00:00:00:00:00:00:00:00:00:00:00:00:00".toList

namespace ConnectionManager

/-- `fingerprint` is `get_local_fingerprint_sha256`. -/
def new (maxCandidatePairs : ℕ) (credentials : String × String) (fingerprint : Option Text) : ConnectionManager where
  iceAgent := .withLogger .controlling maxCandidatePairs credentials
  signaling := .stable
  localDescription := none
  remoteDescription := none
  icePhase := .idle
  localCodecs := []
  remoteCodecs := []
  iceWorker := none
  localFingerprint := fingerprint.getD DEFAULT_FINGERPRINT
  remoteFingerprint := none

def setLocalRtpCodecs (cm : ConnectionManager) (codecs : List CodecDescriptor) : ConnectionManager :=
  { cm with localCodecs := codecs }

def reset (maxCandidatePairs : ℕ) (credentials : String × String) (cm : ConnectionManager) : ConnectionManager :=
  { cm with
    iceAgent := .withLogger .controlling maxCandidatePairs credentials
    signaling := .stable
    localDescription := none
    remoteDescription := none
    icePhase := .idle
    remoteCodecs := []
    iceWorker := none
    remoteFingerprint := none }

section
variable (v6 : Ipv6Text)
def getLocalCandidatesAsAttributes (env : Surroundings) (cm : ConnectionManager) :
    ConnectionManager × List Attribute :=
  ({ cm with iceAgent := env.hostCandidates.foldl IceAgent.addLocalCandidate cm.iceAgent },
    env.hostCandidates.map fun c => ⟨"candidate".toList,some (IceAndSdp.fmt v6 c)⟩)

/-- A codec without a name goes by its medium's usual one. -/
def rtpmapName (mediaType : MediaType) (codec : RtpCodec) : Text :=
  if codec.name.isEmpty then
    match mediaType with
    | .audio => "PCMU".toList
    | .video => "H264".toList
  else codec.name

def codecAttrs (mediaType : MediaType) (descriptor : CodecDescriptor) : List Attribute :=
  let codec := descriptor.rtpRepresentation
  let pt := decimal codec.payloadType.toNat
  ⟨"rtpmap".toList,some (pt ++ [' '] ++ rtpmapName mediaType codec ++ ['/'] ++ decimal codec.clockRate.toNat)⟩ ::
    match descriptor.sdpFmtp with
    | some fmtp => [⟨"fmtp".toList,some (pt ++ [' '] ++ fmtp)⟩]
    | none => []

def buildMediaDescription (cm : ConnectionManager) (mediaType : MediaType) (codecs : List CodecDescriptor)
    (candidates : List Attribute) : Media where
  kind := match mediaType with
    | .audio => .audio
    | .video => .video
  port := ⟨9,none⟩
  proto := "UDP/TLS/RTP/SAVPF".toList
  fmts :=
    if codecs.isEmpty then ["96".toList]
    else codecs.map fun c => decimal c.rtpRepresentation.payloadType.toNat
  title := none
  connection := some ⟨"IN".toList, .ip4,"0.0.0.0".toList⟩
  bandwidth := []
  attrs :=
    candidates ++
      [⟨"ice-ufrag".toList,some cm.iceAgent.ufrag.toList⟩,⟨"ice-pwd".toList,some cm.iceAgent.pwd.toList⟩,
        ⟨"fingerprint".toList,some ("sha-256 ".toList ++ cm.localFingerprint)⟩,
        ⟨"setup".toList,some (if cm.signaling = .stable then "actpass".toList else "active".toList)⟩] ++
      (if codecs.isEmpty then [⟨"rtpmap".toList,some "96 H264/90000".toList⟩]
        else codecs.flatMap (codecAttrs mediaType)) ++
      [⟨"rtcp-mux".toList,none⟩]
  extraLines := []

def mediaOf (cm : ConnectionManager) (candidates : List Attribute) (mediaType : MediaType) : List Media :=
  let codecs := cm.localCodecs.filter (·.spec.mediaType = mediaType)
  if codecs.isEmpty then [] else [cm.buildMediaDescription mediaType codecs candidates]

/-- Audio comes before video; a manager without codecs offers video. -/
def buildLocalSdp (env : Surroundings) (cm : ConnectionManager) : ConnectionManager × Sdp :=
  let (cm,candidates) := cm.getLocalCandidatesAsAttributes v6 env
  let media := cm.mediaOf candidates .audio ++ cm.mediaOf candidates .video
  let media := if media.isEmpty then [cm.buildMediaDescription .video [] candidates] else media
  (cm,⟨0, .newBlank env.ntpSeconds,"demo_session".toList,none,none,[],[],none,[],[.newBlank],[],media,[]⟩)
def setIceRoleFromSignaling (cm : ConnectionManager) (weAreOfferer remoteIsIceLite : Bool) : ConnectionManager :=
  { cm with iceAgent := { cm.iceAgent with
      role := if remoteIsIceLite ∨ weAreOfferer then .controlling else .controlled } }

def negotiate (env : Surroundings) (cm : ConnectionManager) :
    ConnectionManager × Except ConnectionError OutboundSdp :=
  match cm.signaling with
  | .stable =>
    let (cm,offer) := cm.buildLocalSdp v6 env
    (setIceRoleFromSignaling { cm with localDescription := some offer,signaling := .haveLocalOffer } true false,
      .ok (.offer offer))
  | .haveLocalOffer => (cm, .ok .none)
  | .haveRemoteOffer => (cm, .error (.negotiation "cannot create offer while have-remote-offer"))
  | .closed => (cm, .error (.negotiation "connection closed"))

structure IceMeta where
  remoteIsIceLite : Bool
  ufrag : Option Text
  pwd : Option Text
  deriving DecidableEq, Repr

/-- A session attribute; the last one counts. -/
def IceMeta.session (m : IceMeta) (a : Attribute) : IceMeta :=
  if a.key = "ice-lite".toList then { m with remoteIsIceLite := true }
  else if a.key = "ice-ufrag".toList then { m with ufrag := a.value }
  else if a.key = "ice-pwd".toList then { m with pwd := a.value }
  else m

/-- A media attribute other than a candidate; the first one counts. -/
def IceMeta.media (m : IceMeta) (a : Attribute) : IceMeta :=
  if a.key = "ice-ufrag".toList then { m with ufrag := m.ufrag.or a.value }
  else if a.key = "ice-pwd".toList then { m with pwd := m.pwd.or a.value }
  else if a.key = "ice-lite".toList then { m with remoteIsIceLite := true }
  else m

/-- The attributes of all media sections. Candidates are added one by one until one cannot be read. -/
def mediaIceMeta : List Attribute → IceAgent → IceMeta → IceAgent × Except ConnectionError IceMeta
  | [],agent,m => (agent, .ok m)
  | a :: rest,agent,m =>
    if a.key = "candidate".toList then
      match a.value.map (IceAndSdp.fromStr v6) with
      | some (.ok c) => mediaIceMeta rest (agent.addRemoteCandidate c) m
      | _ => (agent, .error .iceAgent)
    else mediaIceMeta rest agent (m.media a)

def extractAndStoreRemoteIceMeta (cm : ConnectionManager) (remote : Sdp) :
    ConnectionManager × Except ConnectionError IceMeta :=
  let found := mediaIceMeta v6 (remote.media.flatMap (·.attrs)) cm.iceAgent
    (remote.attrs.foldl IceMeta.session ⟨false,none,none⟩)
  match found.2 with
  | .error e => ({ cm with iceAgent := found.1 }, .error e)
  | .ok m =>
    ({ cm with iceAgent := { found.1 with
        remoteUfrag := (m.ufrag.map String.ofList).getD found.1.remoteUfrag
        remotePwd := (m.pwd.map String.ofList).getD found.1.remotePwd } }, .ok m)
end

/-- Only ASCII letters have `R`, `T` or `P` alone for their capital. -/
def isRtp (proto : Text) : Bool := "RTP".toList <:+: proto.map Char.toUpper

def rtpmapCodec (allowed : List UInt8) (a : Attribute) : Except ConnectionError (Option RtpCodec) :=
  if a.key ≠ "rtpmap".toList then .ok none
  else
    match a.value with
    | none => .error (.rtpMap "Wrong value")
    | some raw =>
      match RtpMap.fromStr raw with
      | .error _ => .error (.rtpMap "Failed parsing rtpmap")
      | .ok rm =>
        if allowed ≠ [] ∧ rm.payloadType ∉ allowed then .ok none
        else .ok (some ⟨rm.payloadType,rm.clockRate,rm.encodingName⟩)

def mediaCodecs (m : Media) : Except ConnectionError (List RtpCodec) :=
  if isRtp m.proto then do
    let allowed := m.fmts.filterMap fun fmt => (parseU8 fmt).toOption
    return (← m.attrs.mapM (rtpmapCodec allowed)).reduceOption
  else .ok []

def extractAndStoreRtpMeta (cm : ConnectionManager) (remote : Sdp) :
    ConnectionManager × Except ConnectionError Unit :=
  match remote.media.mapM mediaCodecs with
  | .error e => (cm, .error e)
  | .ok discovered =>
    let sorted := discovered.flatten.insertionSort fun c d => c.payloadType ≤ d.payloadType
    ({ cm with remoteCodecs := dedupByKey (·.payloadType) sorted }, .ok ())

def fingerprintOf (a : Attribute) : Option Text :=
  if a.key = "fingerprint".toList then a.value.bind fun v => (splitWhitespace v)[1]? else none

/-- The first media section with a fingerprint has it; without any the old one stays. -/
def extractAndStoreFingerprint (cm : ConnectionManager) (remote : Sdp) : ConnectionManager :=
  match (remote.media.flatMap (·.attrs)).findSome? fingerprintOf with
  | some hash => { cm with remoteFingerprint := some hash }
  | none => cm
def spawnIceWorker (cm : ConnectionManager) : ConnectionManager :=
  match cm.iceWorker with
  | some _ => cm
  | none =>
    { cm with iceWorker := some ⟨cm.iceAgent.candidatePairs.filterMap fun p =>
        p.localCand.socket.map fun s => (s,p.remote.address)⟩ }

def startConnectivityChecks (env : Surroundings) (cm : ConnectionManager) :
    ConnectionManager × Except ConnectionError (List Datagram) :=
  if cm.localDescription.isNone ∨ cm.remoteDescription.isNone then
    (cm, .error (.negotiation "SDP not complete for ICE"))
  else
    let agent :=
      if cm.iceAgent.localCandidates.isEmpty then env.candidates.foldl IceAgent.addLocalCandidate cm.iceAgent
      else cm.iceAgent
    let (agent,sent) := agent.formCandidatePairs.1.startChecks env.sendOk
    (spawnIceWorker { cm with iceAgent := agent,icePhase := .checking }, .ok sent)

def maybeStartIce (env : Surroundings) (cm : ConnectionManager) :
    ConnectionManager × Except ConnectionError (List Datagram) :=
  if cm.localDescription.isSome ∧ cm.remoteDescription.isSome ∧ cm.signaling = .stable then
    cm.startConnectivityChecks env
  else (cm, .ok [])
def stopIceWorker (cm : ConnectionManager) : ConnectionManager := { cm with iceWorker := none }
def handlePackets (sendOk : SocketAddr → SocketAddr → Bool) (agent : IceAgent)
    (packets : List (Bytes × SocketAddr)) : IceAgent × List Datagram :=
  packets.foldl (fun r p =>
    let handled := r.1.handleIncomingPacket sendOk p.1 p.2
    (handled.1,r.2 ++ handled.2)) (agent,[])

/-- Handles the packets that a running worker has received, and stops it once a pair is nominated. -/
def drainIceEvents (sendOk : SocketAddr → SocketAddr → Bool) (packets : List (Bytes × SocketAddr))
    (cm : ConnectionManager) : ConnectionManager × List Datagram :=
  let handled := if cm.iceWorker.isSome then handlePackets sendOk cm.iceAgent packets else (cm.iceAgent,[])
  let cm := { cm with iceAgent := handled.1 }
  if cm.iceAgent.nominatedPair.isSome ∧ cm.icePhase ≠ .nominated then
    (stopIceWorker { cm with icePhase := .nominated },handled.2)
  else (cm,handled.2)

def isProbablyOffer (_ : Sdp) : Bool := false
def rollbackToStable (cm : ConnectionManager) : ConnectionManager :=
  { cm with localDescription := none,signaling := .stable }

variable (v6 : Ipv6Text)
def extract (cm : ConnectionManager) (sdp : Sdp) : ConnectionManager × Except ConnectionError Bool :=
  match cm.extractAndStoreRemoteIceMeta v6 sdp with
  | (cm, .error e) => (cm, .error e)
  | (cm, .ok m) =>
    match cm.extractAndStoreRtpMeta sdp with
    | (cm, .error e) => (cm, .error e)
    | (cm, .ok _) =>
      ({ cm.extractAndStoreFingerprint sdp with remoteDescription := some sdp }, .ok m.remoteIsIceLite)

def applyOffer (env : Surroundings) (cm : ConnectionManager) (sdp : Sdp) :
    ConnectionManager × Except ConnectionError OutboundSdp :=
  match cm.extract v6 sdp with
  | (cm, .error e) => (cm, .error e)
  | (cm, .ok remoteIsIceLite) =>
    let (cm,answer) := buildLocalSdp v6 env { cm with signaling := .haveRemoteOffer }
    let cm := setIceRoleFromSignaling { cm with localDescription := some answer } false remoteIsIceLite
    ({ cm with signaling := .stable }, .ok (.answer answer))

def applyAnswer (cm : ConnectionManager) (sdp : Sdp) : ConnectionManager × Except ConnectionError OutboundSdp :=
  match cm.extract v6 sdp with
  | (cm, .error e) => (cm, .error e)
  | (cm, .ok _) => ({ cm with signaling := .stable }, .ok .none)

def applyParsed (env : Surroundings) (cm : ConnectionManager) (sdp : Sdp) :
    ConnectionManager × Except ConnectionError OutboundSdp :=
  match cm.signaling with
  | .stable => cm.applyOffer v6 env sdp
  | .haveLocalOffer =>
    -- after a rollback the same text is applied again, now as an offer
    if isProbablyOffer sdp then cm.rollbackToStable.applyOffer v6 env sdp else cm.applyAnswer v6 sdp
  | .haveRemoteOffer => (cm, .error (.negotiation "unexpected SDP while have-remote-offer"))
  | .closed => (cm, .error (.negotiation "connection closed"))

def applyRemoteSdp (env : Surroundings) (cm : ConnectionManager) (remote : Text) :
    ConnectionManager × Except ConnectionError OutboundSdp × List Datagram :=
  match Sdp.parse remote with
  | .error e => (cm, .error (.sdp e),[])
  | .ok sdp =>
    match cm.applyParsed v6 env sdp with
    | (cm, .error e) => (cm, .error e,[])
    | (cm, .ok out) =>
      let (cm,started) := cm.maybeStartIce env
      (cm, .ok out,(started.toOption).getD [])

def applyRemoteTrickleCandidate (cm : ConnectionManager) (candAttrLine : Text) :
    ConnectionManager × Except ConnectionError Unit :=
  match IceAndSdp.fromStr v6 candAttrLine with
  | .error _ => (cm, .error .iceAgent)
  | .ok c => ({ cm with iceAgent := cm.iceAgent.addRemoteCandidate c }, .ok ())
end ConnectionManager
end RustyRtc.Connection
