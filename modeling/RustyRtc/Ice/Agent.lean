import Mathlib.Data.List.Sort
import RustyRtc.Foundation.Text

/-! # The ICE agent

`ice/type_ice`: candidates, candidate pairs and the agent that checks and nominates them. A socket is
given by the address its datagrams come from. Whether a `send_to` succeeds is the caller's choice.
Log lines and the data channel's test messages are left out; STUN has a module of its own.
-/
namespace RustyRtc.Ice
inductive IpAddr where
  | v4 (a b c d : UInt8)
  | v6 (bits : BitVec 128)
  deriving DecidableEq, Repr
structure SocketAddr where
  ip : IpAddr
  port : UInt16
  deriving DecidableEq, Repr
def SocketAddr.isIpv4 (addr : SocketAddr) : Bool :=
  match addr.ip with
  | .v4 .. => true
  | .v6 _ => false
inductive CandidateType where
  | host
  | serverReflexive
  | peerReflexive
  | relayed
  deriving DecidableEq, Repr

structure Candidate where
  foundation : String
  component : UInt8
  transport : String
  priority : UInt32
  address : SocketAddr
  candType : CandidateType
  relatedAddress : Option SocketAddr
  socket : Option SocketAddr
  deriving DecidableEq, Repr

namespace Candidate
def cloneLight (c : Candidate) : Candidate := { c with socket := none }
end Candidate
inductive IceRole where
  | controlling
  | controlled
  deriving DecidableEq, Repr
inductive CandidatePairState where
  | waiting
  | inProgress
  | succeeded
  | failed
  deriving DecidableEq, Repr
def CandidatePairState.debug : CandidatePairState → String
  | .waiting => "Waiting"
  | .inProgress => "InProgress"
  | .succeeded => "Succeeded"
  | .failed => "Failed"

structure CandidatePair where
  localCand : Candidate
  remote : Candidate
  priority : UInt64
  state : CandidatePairState
  isNominated : Bool
  deriving DecidableEq, Repr

namespace CandidatePair
def new (localCand remote : Candidate) (priority : UInt64) : CandidatePair :=
  ⟨localCand,remote,priority, .waiting,false⟩
def cloneLight (p : CandidatePair) : CandidatePair :=
  { p with localCand := p.localCand.cloneLight,remote := p.remote.cloneLight }

/-- In 64 bits, which the two largest priorities exceed. -/
def calculatePairPriority (localCand remote : Candidate) (role : IceRole) : UInt64 :=
  let (g,d) := match role with
    | .controlling => (localCand.priority.toUInt64,remote.priority.toUInt64)
    | .controlled => (remote.priority.toUInt64,localCand.priority.toUInt64)
  let tieBreak : UInt64 := if g > d then 1 else 0
  ((1 : UInt64) <<< 32) * min g d + 2 * max g d + tieBreak
def addresses (p : CandidatePair) : SocketAddr × SocketAddr := (p.localCand.address,p.remote.address)
end CandidatePair
structure Datagram where
  src : SocketAddr
  dst : SocketAddr
  payload : Bytes
  deriving DecidableEq, Repr
def BINDING_REQUEST : Bytes := utf8 "BINDING-REQUEST"
def BINDING_RESPONSE : Bytes := utf8 "BINDING-RESPONSE"
def NOMINATION_REQUEST : Bytes := utf8 "NOMINATE-BINDING-REQUEST"
def sendTo (sendOk : SocketAddr → SocketAddr → Bool) (socket : Option SocketAddr) (dst : SocketAddr)
    (payload : Bytes) : List Datagram :=
  match socket with
  | some src => if sendOk src dst then [⟨src,dst,payload⟩] else []
  | none => []

structure IceAgent where
  maxCandidatePairs : ℕ
  localCandidates : List Candidate
  remoteCandidates : List Candidate
  candidatePairs : List CandidatePair
  role : IceRole
  ufrag : String
  pwd : String
  remoteUfrag : String
  remotePwd : String
  nominatedPair : Option CandidatePair
  deriving DecidableEq, Repr

namespace IceAgent
def withLogger (role : IceRole) (maxCandidatePairs : ℕ) (credentials : String × String) : IceAgent :=
  ⟨maxCandidatePairs,[],[],[],role,credentials.1,credentials.2,"","",none⟩
def addLocalCandidate (a : IceAgent) (c : Candidate) : IceAgent :=
  { a with localCandidates := a.localCandidates ++ [c] }
def addRemoteCandidate (a : IceAgent) (c : Candidate) : IceAgent :=
  { a with remoteCandidates := a.remoteCandidates ++ [c] }

def pairWith (role : IceRole) (limit : ℕ) (c : Candidate) :
    List Candidate → List CandidatePair → List CandidatePair
  | [],pairs => pairs
  | remote :: rest,pairs =>
    let priority := CandidatePair.calculatePairPriority c remote role
    if c.address.isIpv4 ≠ remote.address.isIpv4 ∨ c.transport ≠ remote.transport ∨ priority < 1 then
      pairWith role limit c rest pairs
    else
      let pairs := pairs ++ [.new c remote priority]
      if pairs.length ≥ limit then pairs else pairWith role limit c rest pairs

def pairAll (role : IceRole) (limit : ℕ) (remotes : List Candidate) :
    List Candidate → List CandidatePair → List CandidatePair
  | [],pairs => pairs
  | c :: rest,pairs =>
    if pairs.length ≥ limit then pairs
    else pairAll role limit remotes rest (pairWith role limit c remotes pairs)

/-- All pairs in descending order of priority. Like `sort_by`, insertion keeps the order of equals. -/
def formCandidatePairs (a : IceAgent) : IceAgent × ℕ :=
  let pairs := (pairAll a.role a.maxCandidatePairs a.remoteCandidates a.localCandidates []).insertionSort
    fun p q => q.priority ≤ p.priority
  ({ a with candidatePairs := pairs },pairs.length)
def startCheck (sendOk : SocketAddr → SocketAddr → Bool) (p : CandidatePair) : CandidatePair × List Datagram :=
  if p.state ≠ .waiting then (p,[])
  else
    match sendTo sendOk p.localCand.socket p.remote.address BINDING_REQUEST with
    | [] => ({ p with state := .failed },[])
    | sent => ({ p with state := .inProgress },sent)
def startChecks (sendOk : SocketAddr → SocketAddr → Bool) (a : IceAgent) : IceAgent × List Datagram :=
  let checked := a.candidatePairs.map (startCheck sendOk)
  ({ a with candidatePairs := checked.map Prod.fst },checked.flatMap Prod.snd)

/-- What the worker thread sends every 200 ms. -/
def resend (sendOk : SocketAddr → SocketAddr → Bool) (a : IceAgent) : List Datagram :=
  a.candidatePairs.flatMap fun p => sendTo sendOk p.localCand.socket p.remote.address BINDING_REQUEST

/-- The first pair with a remote address: the one an incoming packet is for. -/
def pairFor (a : IceAgent) (fromAddr : SocketAddr) : Option CandidatePair :=
  a.candidatePairs.find? (·.remote.address = fromAddr)
def setPair (fromAddr : SocketAddr) (pair : CandidatePair) : List CandidatePair → List CandidatePair
  | [] => []
  | p :: ps => if p.remote.address = fromAddr then pair :: ps else p :: setPair fromAddr pair ps

/-- The controlling agent's test: no pair is nominated yet, or one of lower priority. -/
def shouldNominate (a : IceAgent) (pair : CandidatePair) : Bool :=
  match a.nominatedPair with
  | none => true
  | some current => pair.priority > current.priority

/-- The controlled agent's test: no pair is nominated yet, or one with other addresses. -/
def nominatesOther (a : IceAgent) (pair : CandidatePair) : Bool :=
  match a.nominatedPair with
  | none => true
  | some np => np.localCand.address ≠ pair.localCand.address ∨ np.remote.address ≠ pair.remote.address

def handleIncomingPacket (sendOk : SocketAddr → SocketAddr → Bool) (a : IceAgent) (packet : Bytes)
    (fromAddr : SocketAddr) : IceAgent × List Datagram :=
  match a.pairFor fromAddr with
  | none => (a,[])
  | some pair =>
    if packet = BINDING_RESPONSE then
      if pair.state = .succeeded then (a,[])
      else
        let pair := { pair with state := .succeeded }
        if a.role = .controlling ∧ a.shouldNominate pair then
          let pair := { pair with isNominated := true }
          ({ a with candidatePairs := setPair fromAddr pair a.candidatePairs,nominatedPair := some pair.cloneLight },
            sendTo sendOk pair.localCand.socket pair.remote.address NOMINATION_REQUEST)
        else ({ a with candidatePairs := setPair fromAddr pair a.candidatePairs },[])
    else if packet = BINDING_REQUEST ∨ packet = NOMINATION_REQUEST then
      let answer := sendTo sendOk pair.localCand.socket fromAddr BINDING_RESPONSE
      -- the last nomination to arrive wins, whatever the priorities
      if a.role = .controlled ∧ packet = NOMINATION_REQUEST ∧ a.nominatesOther pair then
        let pair := { pair with isNominated := true,state := .succeeded }
        ({ a with candidatePairs := setPair fromAddr pair a.candidatePairs,nominatedPair := some pair.cloneLight },
          answer)
      else (a,answer)
    else (a,[])

/-- The last of the best succeeded pairs, as `max_by_key` takes it. -/
def bestSucceeded (pairs : List CandidatePair) : Option ℕ :=
  (pairs.zipIdx.filter (·.1.state = .succeeded)).foldl
    (fun best p => match best with
      | none => some p
      | some q => if q.1.priority ≤ p.1.priority then some p else best) none |>.map Prod.snd

def selectValidPair (a : IceAgent) : IceAgent × Option CandidatePair :=
  match bestSucceeded a.candidatePairs with
  | none => (a,none)
  | some i =>
    let pairs := a.candidatePairs.modify i fun p => { p with isNominated := true }
    match pairs[i]? with
    | none => (a,none)
    | some pair => ({ a with candidatePairs := pairs,nominatedPair := some pair.cloneLight },some pair)

def getDataChannelSocket (display : SocketAddr → String) (a : IceAgent) :
    Except String (SocketAddr × SocketAddr) :=
  match a.nominatedPair with
  | none => .error "No nominated pair available to get UDP channel socket."
  | some np =>
    if np.state ≠ .succeeded then
      .error ("Cannot get UDP channel socket — pair not in Succeeded state (current: " ++ np.state.debug ++ ")")
    else
      match a.candidatePairs.find? (fun p => p.localCand.address = np.localCand.address ∧
          p.remote.address = np.remote.address) with
      | none => .error "Nominated pair not found in candidate_pairs."
      | some pair =>
        match pair.localCand.socket with
        | none =>
          .error ("Nominated local candidate " ++ display pair.localCand.address ++ " has no associated socket.")
        | some sock => .ok (sock,pair.remote.address)
end IceAgent
end RustyRtc.Ice
