import RustyRtc.Foundation.Execution
import RustyRtc.Signaling.Auth
import RustyRtc.Signaling.Presence
import RustyRtc.Signaling.Sessions

/-! # The server engine

`signaling/server_engine.rs`: the state machine behind the signaling server. A message from a
client, or the end of a connection, changes the state and gives a list of messages to send.
The authentication backend is a parameter. What a handler gets from its surroundings (the order
of its iterations, random numbers) comes with the event.
-/
namespace RustyRtc.Signaling
inductive LoginErrorCode where
  | alreadyLoggedIn | notAuthorized | invalidCredentials | internal
  deriving DecidableEq, Repr
def LoginErrorCode.asU16 : LoginErrorCode → UInt16
  | alreadyLoggedIn => 1 | notAuthorized => 2 | invalidCredentials => 3 | internal => 4
inductive JoinErrorCode where
  | notLoggedIn | notFound | full
  deriving DecidableEq, Repr
def JoinErrorCode.asU16 : JoinErrorCode → UInt16
  | notLoggedIn => 10 | notFound => 20 | full => 21

/-- `RegisterErrorCode::from` followed by `as_u16`. -/
def RegisterError.code : RegisterError → UInt16
  | usernameTaken => 1 | invalidUsername => 2 | weakPassword => 3 | internal => 4 | unsupported => 5
structure ServerEngine (β : Type) where
  presence : Presence
  sessions : Sessions
  nextSessionId : UInt64
  auth : β

/-- What handling one event gets from its surroundings. -/
structure Choices (ρ : Type) where
  users : Iteration UserName
  clients : Iteration ClientId
  sessions : Sessions.Orders
  draws : Fin 100 → Fin 1000000
  register : ρ
def Choices.plain {ρ : Type} (r : ρ) : Choices ρ :=
  ⟨⟨id,fun _ => .rfl⟩,⟨id,fun _ => .rfl⟩,⟨⟨id,fun _ => .rfl⟩,⟨id,fun _ => .rfl⟩⟩,fun _ => 0,r⟩

namespace ServerEngine
variable {β ρ : Type} {s s' : ServerEngine β} {code : SessionCode}
def new (auth : β) : ServerEngine β := ⟨Presence.new,Sessions.new,1,auth⟩
def requireLoggedIn (s : ServerEngine β) (clientId : ClientId) : Option UserName := s.presence.usernameFor clientId
def allocSessionId (s : ServerEngine β) : ServerEngine β × SessionId :=
  ({ s with nextSessionId := s.nextSessionId + 1 },"sess-" ++ toString s.nextSessionId.toNat)
def sixDigits (n : ℕ) : SessionCode := String.ofList (.replicate (6 - (toString n).length) '0') ++ toString n

/-- The walk of `alloc_session_code` over the counter. It goes round at most `fuel` times; no result
stands for a walk that is still going. -/
def walkCodes : ℕ → ServerEngine β → Option (ServerEngine β × SessionCode)
  | 0,_ => none
  | fuel + 1,s =>
    let code := sixDigits s.nextSessionId.toNat
    let s := { s with nextSessionId := s.nextSessionId + 1 }
    if s.sessions.containsCode code then walkCodes fuel s else some (s,code)

/-- A hundred random attempts, then the walk. One code more than are in use is enough to try. -/
def allocSessionCode (draws : Fin 100 → Fin 1000000) (s : ServerEngine β) :
    Option (ServerEngine β × SessionCode) :=
  match (List.ofFn fun i => sixDigits (draws i).val).find? fun code => !s.sessions.containsCode code with
  | some code => some (s,code)
  | none => walkCodes (s.sessions.bySessCode.keys.length + 1) s

/-- A code that is handed out is free and the code of a number, and nothing but the counter changes. -/
structure Allocates (s s' : ServerEngine β) (code : SessionCode) : Prop where
  state : ∃ next, s' = { s with nextSessionId := next }
  fresh : code ∉ s.sessions.bySessCode
  number : ∃ n < 2 ^ 64, code = sixDigits n

theorem walkCodes_allocates {fuel : ℕ} (h : walkCodes fuel s = some (s',code)) : Allocates s s' code := by
  induction fuel generalizing s with
  | zero => cases h
  | succ fuel ih =>
    rw [walkCodes] at h
    split at h
    · obtain ⟨state,fresh,number⟩ := ih h
      exact ⟨state,fresh,number⟩
    · next hfree =>
      cases h
      exact ⟨⟨_,rfl⟩,by simpa [Sessions.containsCode] using hfree,_,s.nextSessionId.toNat_lt,rfl⟩

theorem allocSessionCode_allocates {draws : Fin 100 → Fin 1000000}
    (h : s.allocSessionCode draws = some (s',code)) : Allocates s s' code := by
  unfold allocSessionCode at h
  split at h
  · next found hfound =>
    cases h
    obtain ⟨i,hi⟩ := List.mem_ofFn.mp (List.mem_of_find?_eq_some hfound)
    refine ⟨⟨_,rfl⟩,?_,_,?_,hi.symm⟩
    · simpa [Sessions.containsCode] using List.find?_some hfound
    · omega
  · exact walkCodes_allocates h

def status (s : ServerEngine β) (username : UserName) : PeerStatus :=
  if s.presence.isBusy username then .busy else .available
def peersFor (users : Iteration UserName) (s : ServerEngine β) (me : UserName) : List (UserName × PeerStatus) :=
  ((s.presence.onlineUsernames users).filter (· ≠ me)).map fun u => (u,s.status u)
def broadcastPeerListUpdate (choices : Choices ρ) (s : ServerEngine β) : List OutgoingMsg :=
  (s.presence.allClientIds choices.clients).filterMap fun clientId =>
    (s.presence.usernameFor clientId).map fun me => ⟨clientId, .peersOnline (s.peersFor choices.users me)⟩

def handleDisconnect (choices : Choices ρ) (s : ServerEngine β) (client : ClientId) :
    ServerEngine β × List OutgoingMsg :=
  let (presence,username) := s.presence.logout client
  let (sessions,leftSessions) := s.sessions.leaveAll choices.sessions client
  let s := { s with presence,sessions }
  match username with
  | none => (s,[])
  | some username =>
    (s,(leftSessions.flatMap fun left => left.2.map fun member => ⟨member, .peerLeft left.1 username⟩) ++
      s.broadcastPeerListUpdate choices)

def handleLogin (backend : AuthBackend β ρ) (choices : Choices ρ) (s : ServerEngine β) (client : ClientId)
    (username : UserName) (password : String) : ServerEngine β × List OutgoingMsg :=
  match backend.verify s.auth username password with
  | .error err =>
    let code := match err with
      | .invalidCredentials => LoginErrorCode.invalidCredentials.asU16
      | .internal => LoginErrorCode.internal.asU16
    (s,[⟨client, .loginErr code⟩])
  | .ok _ =>
    match s.presence.clientIdFor username with
    | some _ => (s,[⟨client, .loginErr LoginErrorCode.alreadyLoggedIn.asU16⟩])
    | none =>
      let s := { s with presence := (s.presence.login client username).1 }
      (s,⟨client, .loginOk username⟩ :: s.broadcastPeerListUpdate choices)

def handleRegister (backend : AuthBackend β ρ) (choices : Choices ρ) (s : ServerEngine β) (clientId : ClientId)
    (username : UserName) (password : String) : ServerEngine β × List OutgoingMsg :=
  let (auth,res) := backend.register s.auth choices.register username password
  let s := { s with auth }
  match res with
  | .ok _ => (s,[⟨clientId, .registerOk username⟩])
  | .error err => (s,[⟨clientId, .registerErr err.code⟩])

def handleListPeers (choices : Choices ρ) (s : ServerEngine β) (clientId : ClientId) : List OutgoingMsg :=
  match s.requireLoggedIn clientId with
  | none => [⟨clientId, .peersOnline []⟩]
  | some requester => [⟨clientId, .peersOnline (s.peersFor choices.users requester)⟩]

def handleCreateSession (choices : Choices ρ) (s : ServerEngine β) (clientId : ClientId) (capacity : UInt8) :
    Option (ServerEngine β × List OutgoingMsg) :=
  match s.requireLoggedIn clientId with
  | none => some (s,[⟨clientId, .joinErr JoinErrorCode.notLoggedIn.asU16⟩])
  | some _ => do
    let (s,id) := s.allocSessionId
    let (s,code) ← s.allocSessionCode choices.draws
    let sessions := s.sessions.insert ⟨id,code,capacity,(∅ : TableSet ClientId).insert clientId ()⟩
    return ({ s with sessions },[⟨clientId, .created id code⟩])

def handleJoin (choices : Choices ρ) (s : ServerEngine β) (clientId : ClientId) (sessionCode : SessionCode) :
    Option (ServerEngine β × List OutgoingMsg) :=
  match s.requireLoggedIn clientId with
  | none => some (s,[⟨clientId, .joinErr JoinErrorCode.notLoggedIn.asU16⟩])
  | some username => do
    let (sessions,res) ← s.sessions.joinByCode sessionCode clientId
    let s := { s with sessions }
    match res with
    | .ok sessionId =>
      let members := match s.sessions.get sessionId with
        | some sess => (choices.sessions.members.order sess.members.keys).filter (· ≠ clientId)
        | none => []
      return (s,⟨clientId, .joinOk sessionId⟩ :: members.map fun member => ⟨member, .peerJoined sessionId username⟩)
    | .error .notFound => return (s,[⟨clientId, .joinErr JoinErrorCode.notFound.asU16⟩])
    | .error .full => return (s,[⟨clientId, .joinErr JoinErrorCode.full.asU16⟩])

def forward (s : ServerEngine β) (fromUsername : UserName) (txnId : TxnId) (toUsername : UserName)
    (builder : UserName → TxnId → UserName → SignalingMsg) : List OutgoingMsg :=
  match s.presence.clientIdFor toUsername with
  | none => []
  | some targetClient => [⟨targetClient,builder fromUsername txnId toUsername⟩]
def setBoth (s : ServerEngine β) (a b : UserName) (busy : Bool) : ServerEngine β :=
  { s with presence := (s.presence.setBusy a busy).setBusy b busy }

def forwardSignaling (choices : Choices ρ) (s : ServerEngine β) (sender : ClientId) (msg : SignalingMsg) :
    ServerEngine β × List OutgoingMsg :=
  match s.requireLoggedIn sender with
  | none => (s,[])
  | some fromUsername =>
    match msg with
    | .offer txnId _ dest sdp =>
      (s,s.forward fromUsername txnId dest fun username txnId dest => .offer txnId username dest sdp)
    | .answer txnId _ dest sdp =>
      let s := s.setBoth fromUsername dest true
      (s,(s.forward fromUsername txnId dest fun username txnId dest => .answer txnId username dest sdp) ++
        s.broadcastPeerListUpdate choices)
    | .candidate _ dest mid mlineIndex cand =>
      (s,s.forward fromUsername 0 dest fun username _ dest => .candidate username dest mid mlineIndex cand)
    | .ack _ dest txnId => (s,s.forward fromUsername txnId dest fun username txnId dest => .ack username dest txnId)
    | .bye _ dest reason =>
      let s := s.setBoth fromUsername dest false
      (s,(s.forward fromUsername 0 dest fun username _ dest => .bye username dest reason) ++
        s.broadcastPeerListUpdate choices)
    | _ => (s,[])

/-- No result: the server has panicked, or does not come back. -/
def handle (backend : AuthBackend β ρ) (choices : Choices ρ) (s : ServerEngine β) (fromCid : ClientId)
    (msg : SignalingMsg) : Option (ServerEngine β × List OutgoingMsg) :=
  match msg with
  | .hello _ => some (s,[])
  | .login username password => some (s.handleLogin backend choices fromCid username password)
  | .register username password => some (s.handleRegister backend choices fromCid username password)
  | .listPeers => some (s,s.handleListPeers choices fromCid)
  | .createSession capacity => s.handleCreateSession choices fromCid capacity
  | .join sessionCode => s.handleJoin choices fromCid sessionCode
  | .offer .. | .answer .. | .candidate .. | .ack .. | .bye .. => some (s.forwardSignaling choices fromCid msg)
  | .ping nonce => some (s,[⟨fromCid, .pong nonce⟩])
  | .pong _ => some (s,[])
  | .loginOk _ | .loginErr _ | .registerOk _ | .registerErr _ | .peersOnline _ | .created .. | .joinOk _
  | .joinErr _ | .peerJoined .. | .peerLeft .. => some (s,[])

inductive Event (ρ : Type) where
  | message (client : ClientId) (msg : SignalingMsg) (choices : Choices ρ)
  | disconnect (client : ClientId) (choices : Choices ρ)
def step (backend : AuthBackend β ρ) (s : ServerEngine β) : Event ρ → Option (ServerEngine β × List OutgoingMsg)
  | .message client msg choices => s.handle backend choices client msg
  | .disconnect client choices => some (s.handleDisconnect choices client)
end ServerEngine

namespace SignalingMsg
def isCall : SignalingMsg → Bool
  | .offer .. | .answer .. | .candidate .. | .ack .. | .bye .. => true
  | _ => false
def setsBusy : SignalingMsg → Bool
  | .answer .. | .bye .. => true
  | _ => false
def sender : SignalingMsg → UserName
  | .offer _ sender _ _ | .answer _ sender _ _ | .candidate sender .. | .ack sender .. | .bye sender .. => sender
  | _ => ""
def dest : SignalingMsg → UserName
  | .offer _ _ dest _ | .answer _ _ dest _ | .candidate _ dest .. | .ack _ dest _ | .bye _ dest _ => dest
  | _ => ""

def withSender (username : UserName) : SignalingMsg → SignalingMsg
  | .offer txnId _ dest sdp => .offer txnId username dest sdp
  | .answer txnId _ dest sdp => .answer txnId username dest sdp
  | .candidate _ dest mid mlineIndex cand => .candidate username dest mid mlineIndex cand
  | .ack _ dest txnId => .ack username dest txnId
  | .bye _ dest reason => .bye username dest reason
  | msg => msg

@[simp] theorem isCall_withSender (username : UserName) (msg : SignalingMsg) :
    (msg.withSender username).isCall = msg.isCall := by
  cases msg <;> rfl
end SignalingMsg

namespace ServerEngine
variable {β ρ : Type} {s : ServerEngine β} {msg : SignalingMsg} {choices : Choices ρ} {o : OutgoingMsg}
def calls (out : List OutgoingMsg) : List OutgoingMsg := out.filter (·.msg.isCall)

def forwarded (s : ServerEngine β) : Event ρ → List OutgoingMsg
  | .disconnect .. => []
  | .message client msg _ =>
    if msg.isCall then
      match s.presence.usernameFor client with
      | none => []
      | some username => (s.presence.clientIdFor msg.dest).toList.map fun target => ⟨target,msg.withSender username⟩
    else []

theorem mem_forwarded {client : ClientId} : o ∈ s.forwarded (.message client msg choices) ↔ msg.isCall = true ∧
      ∃ username target, s.presence.usernameFor client = some username ∧
        s.presence.clientIdFor msg.dest = some target ∧ o = ⟨target,msg.withSender username⟩ := by
  simp only [forwarded]
  cases msg.isCall with
  | false => simp
  | true =>
    cases s.presence.usernameFor client with
    | none => simp
    | some username => cases s.presence.clientIdFor msg.dest <;> simp

theorem forwarded_of_not_call (s : ServerEngine β) (client : ClientId) (choices : Choices ρ)
    (h : msg.isCall = false) : s.forwarded (.message client msg choices) = [] := by simp [forwarded,h]

theorem forwarded_length_le (s : ServerEngine β) (e : Event ρ) : (s.forwarded e).length ≤ 1 := by
  cases e with
  | disconnect => simp [forwarded]
  | message client msg choices =>
    simp only [forwarded]
    split
    · split
      · simp
      · cases s.presence.clientIdFor msg.dest <;> simp
    · simp

theorem mem_broadcast (h : o ∈ s.broadcastPeerListUpdate choices) :
    ∃ me, s.presence.usernameFor o.clientIdTarget = some me ∧ o.msg = .peersOnline (s.peersFor choices.users me) := by
  obtain ⟨client,-,hclient⟩ := List.mem_filterMap.mp h
  obtain ⟨me,hme,rfl⟩ := Option.map_eq_some_iff.mp hclient
  exact ⟨me,hme,rfl⟩
theorem calls_broadcast (choices : Choices ρ) (s : ServerEngine β) : calls (s.broadcastPeerListUpdate choices) = [] := by
  apply List.filter_eq_nil_iff.mpr
  intro o ho
  obtain ⟨me,-,hmsg⟩ := mem_broadcast ho
  simp [hmsg,SignalingMsg.isCall]
theorem calls_append (out out' : List OutgoingMsg) : calls (out ++ out') = calls out ++ calls out' := List.filter_append ..
theorem forward_eq (s : ServerEngine β) (u : UserName) (txnId : TxnId) (dest : UserName)
    (builder : UserName → TxnId → UserName → SignalingMsg) : s.forward u txnId dest builder =
      (s.presence.clientIdFor dest).toList.map fun target => ⟨target,builder u txnId dest⟩ := by
  unfold forward
  cases s.presence.clientIdFor dest <;> rfl
@[simp] theorem setBoth_presence (s : ServerEngine β) (a b : UserName) (busy : Bool) :
    (s.setBoth a b busy).presence = (s.presence.setBusy a busy).setBusy b busy := rfl

/-- What `forward_signaling` does: only the busy users change, and what it sends beyond peer lists is
the message under the name the sender is logged in with. -/
theorem forwardSignaling_spec (choices : Choices ρ) (s : ServerEngine β) (client : ClientId)
    (hmsg : msg.isCall = true) :
    ∃ s' rest, s.forwardSignaling choices client msg = (s',s.forwarded (.message client msg choices) ++ rest) ∧
      (∃ busyUsers, s' = { s with presence := { s.presence with busyUsers } }) ∧
      (rest = [] ∧ s' = s ∨ rest = s'.broadcastPeerListUpdate choices ∧ msg.setsBusy = true ∧
        (s.presence.usernameFor client).isSome) := by
  cases huser : s.presence.usernameFor client with
  | none => exact ⟨s,[],by simp [forwardSignaling,requireLoggedIn,forwarded,huser],⟨_,rfl⟩, .inl ⟨rfl,rfl⟩⟩
  | some username =>
    have hforwarded : s.forwarded (.message client msg choices) =
        (s.presence.clientIdFor msg.dest).toList.map fun target => ⟨target,msg.withSender username⟩ := by
      simp [forwarded,hmsg,huser]
    rw [hforwarded]
    cases msg with
    | offer txnId sender dest sdp | candidate sender dest mid mlineIndex cand | ack sender dest txnId =>
      exact ⟨s,[],by simp [forwardSignaling,requireLoggedIn,huser,forward_eq,SignalingMsg.dest,SignalingMsg.withSender],
        ⟨_,rfl⟩, .inl ⟨rfl,rfl⟩⟩
    | answer txnId sender dest sdp =>
      refine ⟨s.setBoth username dest true,_,?_,⟨_,rfl⟩, .inr ⟨rfl,rfl,rfl⟩⟩
      simp [forwardSignaling,requireLoggedIn,huser,forward_eq,SignalingMsg.dest,SignalingMsg.withSender]
    | bye sender dest reason =>
      refine ⟨s.setBoth username dest false,_,?_,⟨_,rfl⟩, .inr ⟨rfl,rfl,rfl⟩⟩
      simp [forwardSignaling,requireLoggedIn,huser,forward_eq,SignalingMsg.dest,SignalingMsg.withSender]
    | _ => cases hmsg

theorem handle_call (backend : AuthBackend β ρ) (choices : Choices ρ) (s : ServerEngine β) (client : ClientId)
    (hmsg : msg.isCall = true) :
    s.handle backend choices client msg = some (s.forwardSignaling choices client msg) := by
  cases msg <;> first | rfl | cases hmsg

inductive Transition (backend : AuthBackend β ρ) (s : ServerEngine β) :
    Event ρ → ServerEngine β → List OutgoingMsg → Prop
  | ignored {client msg choices} : msg.isCall = false → Transition backend s (.message client msg choices) s []
  | pong {client nonce choices} :
      Transition backend s (.message client (.ping nonce) choices) s [⟨client, .pong nonce⟩]
  | loginRefused {client username password choices code} :
      Transition backend s (.message client (.login username password) choices) s [⟨client, .loginErr code⟩]
  | login {client username password choices s'} : backend.verify s.auth username password = .ok () →
      s.presence.clientIdFor username = none → s' = { s with presence := (s.presence.login client username).1 } →
      Transition backend s (.message client (.login username password) choices) s'
        (⟨client, .loginOk username⟩ :: s'.broadcastPeerListUpdate choices)
  | register {client username password choices auth res} :
      backend.register s.auth choices.register username password = (auth,res) →
      Transition backend s (.message client (.register username password) choices) { s with auth }
        [⟨client,match res with | .ok _ => .registerOk username | .error err => .registerErr err.code⟩]
  | listPeers {client choices} : Transition backend s (.message client .listPeers choices) s
      [⟨client, .peersOnline ((s.presence.usernameFor client).elim [] (s.peersFor choices.users))⟩]
  | sessionRefused {client msg choices code} : msg.isCall = false →
      Transition backend s (.message client msg choices) s [⟨client, .joinErr code⟩]
  | created {client capacity choices username next code session} : s.presence.usernameFor client = some username →
      (s.allocSessionId.1).allocSessionCode choices.draws = some ({ s with nextSessionId := next },code) →
      session = ⟨s.allocSessionId.2,code,capacity,(∅ : TableSet ClientId).insert client ()⟩ →
      Transition backend s (.message client (.createSession capacity) choices)
        { s with nextSessionId := next, sessions := s.sessions.insert session }
        [⟨client, .created session.sessionId code⟩]
  | joined {client code choices username id session s'} : s.presence.usernameFor client = some username →
      s.sessions.bySessCode.lookup code = some id → s.sessions.bySessId.lookup id = some session →
      session.members.keys.length < session.capacity.toNat →
      s' = { s with sessions := ⟨s.sessions.bySessId.insert id (session.joinedBy client),s.sessions.bySessCode⟩ } →
      Transition backend s (.message client (.join code) choices) s' (⟨client, .joinOk id⟩ ::
        ((choices.sessions.members.order (session.joinedBy client).members.keys).filter (· ≠ client)).map
          fun member => ⟨member, .peerJoined id username⟩)
  | forwarded {client msg choices busyUsers s' rest} : msg.isCall = true →
      s' = { s with presence := { s.presence with busyUsers } } →
      (rest = [] ∧ s' = s ∨ rest = s'.broadcastPeerListUpdate choices ∧ msg.setsBusy = true ∧
        (s.presence.usernameFor client).isSome) →
      Transition backend s (.message client msg choices) s' (s.forwarded (.message client msg choices) ++ rest)
  | disconnected {client choices s'} : s' = { s with
        presence := (s.presence.logout client).1
        sessions := (s.sessions.leaveAll choices.sessions client).1 } →
      Transition backend s (.disconnect client choices) s' ((s.presence.usernameFor client).elim [] fun username =>
        ((s.sessions.leaveAll choices.sessions client).2.flatMap fun left =>
          left.2.map fun member => ⟨member, .peerLeft left.1 username⟩) ++ s'.broadcastPeerListUpdate choices)

theorem step_cases {backend : AuthBackend β ρ} {s' : ServerEngine β} {e : Event ρ} {out : List OutgoingMsg}
    (h : s.step backend e = some (s',out)) : Transition backend s e s' out := by
  cases e with
  | disconnect client choices =>
    rcases hlogout : s.presence.logout client with ⟨presence,username⟩
    rcases hleave : s.sessions.leaveAll choices.sessions client with ⟨sessions,left⟩
    simp only [step,handleDisconnect,hlogout,hleave] at h
    have htransition := @Transition.disconnected _ _ backend s client choices _ rfl
    rw [← Presence.logout_snd,hlogout,hleave] at htransition
    cases username with
    | none | some username =>
      cases h
      exact htransition
  | message client msg choices =>
    by_cases hcall : msg.isCall = true
    · obtain ⟨s₁,rest,hrun,⟨busyUsers,hs₁⟩,hrest⟩ := forwardSignaling_spec choices s client hcall
      rw [step,handle_call backend choices s client hcall,hrun] at h
      cases h
      exact .forwarded hcall hs₁ hrest
    cases msg with
    | login username password =>
      simp only [step,handle,handleLogin] at h
      cases hverify : backend.verify s.auth username password with
      | error err =>
        simp only [hverify] at h
        cases h
        exact .loginRefused
      | ok _ =>
        cases honline : s.presence.clientIdFor username with
        | some other =>
          simp only [hverify,honline] at h
          cases h
          exact .loginRefused
        | none =>
          simp only [hverify,honline] at h
          cases h
          exact .login hverify honline rfl
    | register username password =>
      rcases hregister : backend.register s.auth choices.register username password with ⟨auth,res⟩
      have htransition := @Transition.register _ _ backend s client _ _ _ _ _ hregister
      simp only [step,handle,handleRegister,hregister] at h
      cases res <;>
      · cases h
        exact htransition
    | listPeers =>
      have htransition := @Transition.listPeers _ _ backend s client choices
      simp only [step,handle,handleListPeers,requireLoggedIn] at h
      cases hrequester : s.presence.usernameFor client <;>
      · rw [hrequester] at htransition
        simp only [hrequester] at h
        cases h
        exact htransition
    | createSession capacity =>
      simp only [step,handle,handleCreateSession] at h
      cases hrequester : s.requireLoggedIn client with
      | none =>
        simp only [hrequester] at h
        cases h
        exact .sessionRefused rfl
      | some requester =>
        simp only [hrequester,bind,Option.bind_eq_some_iff] at h
        obtain ⟨⟨s₁,code⟩,halloc,hpure⟩ := h
        cases hpure
        obtain ⟨next,rfl⟩ := (allocSessionCode_allocates halloc).state
        exact .created hrequester halloc rfl
    | join code =>
      simp only [step,handle,handleJoin] at h
      cases hrequester : s.requireLoggedIn client with
      | none =>
        simp only [hrequester] at h
        cases h
        exact .sessionRefused rfl
      | some requester =>
        simp only [hrequester,bind,Option.bind_eq_some_iff] at h
        obtain ⟨⟨sessions,res⟩,hjoin,hpure⟩ := h
        cases res with
        | ok sessionId =>
          obtain ⟨hcode,session,hsession,hroom,rfl⟩ := Sessions.joinByCode_ok hjoin
          simp only [Sessions.get,AList.lookup_insert] at hpure
          cases hpure
          exact .joined hrequester hcode hsession hroom rfl
        | error err =>
          obtain rfl := Sessions.joinByCode_error hjoin
          cases err <;>
          · cases hpure
            exact .sessionRefused rfl
    | ping nonce =>
      cases h
      exact .pong
    | offer | answer | candidate | ack | bye => exact absurd rfl hcall
    | _ =>
      cases h
      exact .ignored rfl
end ServerEngine
end RustyRtc.Signaling
