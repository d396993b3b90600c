import Mathlib.Algebra.Order.BigOperators.Group.List
import Mathlib.Algebra.Order.Group.Nat
import RustyRtc.Signaling.Framing
import RustyRtc.Signaling.Registry

/-! # Frames the server writes

The server's reader refuses bodies over `MAX_BODY_LEN`, but nothing holds the messages it writes
to that limit. Most of them are small because names and session ids are. Two kinds grow: a
call whose sender's name is put in place of a shorter one, and the list of everyone online.
-/
namespace RustyRtc.Signaling
open SignalingMsg
variable {m : SignalingMsg}
def Accepted (m : SignalingMsg) : Prop := ∃ s r, readMsg.runOn s = (.ok m,r)
theorem Accepted.bounds (h : Accepted m) : (∀ s ∈ m.strings, s.utf8ByteSize ≤ 65535) ∧ m.bodyLen ≤ MAX_BODY_LEN := by
  obtain ⟨s,r,hread⟩ := h
  obtain ⟨-,hmax,hwrite⟩ := readMsg_eq_ok hread
  exact ⟨((writeMsg_isOk_iff m).mp hwrite).1,hmax⟩
theorem Accepted.of_writeMsg {c : Bytes} (h : writeMsg m = .ok c) (hmax : m.bodyLen ≤ MAX_BODY_LEN)
    (hback : m.readBack = m) : Accepted m :=
  ⟨Incoming.ofBytes c ++ [],[],by rw [readMsg_writeMsg h hmax,hback]⟩

/-- A message that can be written, and that a reader then accepts. -/
def FitsFrame (m : SignalingMsg) : Prop :=
  m.bodyLen ≤ MAX_BODY_LEN ∧ ∃ bytes, writeMsg m = .ok bytes

theorem fitsFrame_iff (m : SignalingMsg) : FitsFrame m ↔
    (∀ s ∈ m.strings, s.utf8ByteSize ≤ 65535) ∧ m.peerCount ≤ 65535 ∧ m.bodyLen ≤ MAX_BODY_LEN := by
  have hlarge : MAX_BODY_LEN ≤ 4294967295 := by decide
  rw [FitsFrame,writeMsg_isOk_iff]
  constructor
  · rintro ⟨hmax,hstrings,hpeers,-⟩
    exact ⟨hstrings,hpeers,hmax⟩
  · rintro ⟨hstrings,hpeers,hmax⟩
    exact ⟨hmax,hstrings,hpeers,by omega⟩

/-- A message that is neither a call nor a peer list has at most two strings and little else. -/
theorem fitsFrame_of_strings (hcall : m.isCall = false) (hlist : ∀ ps, m ≠ .peersOnline ps)
    (hstrings : ∀ s ∈ m.strings, s.utf8ByteSize ≤ 65535) : FitsFrame m := by
  have hmax : MAX_BODY_LEN = 1048576 := rfl
  rw [fitsFrame_iff]
  cases m with
  | offer | answer | candidate | ack | bye => cases hcall
  | peersOnline ps => exact absurd rfl (hlist ps)
  | _ =>
    refine ⟨hstrings,Nat.zero_le _,?_⟩
    simp only [strings,List.mem_cons,List.not_mem_nil,or_false,forall_eq_or_imp,forall_eq,
      IsEmpty.forall_iff,implies_true] at hstrings
    simp only [bodyLen]
    omega

theorem bodyLen_withSender (hm : m.isCall = true) (username : UserName) :
    (m.withSender username).bodyLen + m.sender.utf8ByteSize = m.bodyLen + username.utf8ByteSize := by
  cases m with
  | offer | answer | candidate | ack | bye =>
    simp only [withSender,SignalingMsg.sender,bodyLen]
    omega
  | _ => cases hm

theorem mem_strings_withSender {username s : String} (h : s ∈ (m.withSender username).strings) :
    s = username ∨ s ∈ m.strings := by
  cases m <;> simp only [withSender,strings,List.mem_cons] at h ⊢ <;> tauto

theorem fitsFrame_withSender (hm : Accepted m) (hcall : m.isCall = true) {username : UserName}
    (huser : username.utf8ByteSize ≤ 65535)
    (hfits : m.bodyLen + username.utf8ByteSize ≤ MAX_BODY_LEN + m.sender.utf8ByteSize) :
    FitsFrame (m.withSender username) := by
  obtain ⟨hstrings,-⟩ := hm.bounds
  have hlen := bodyLen_withSender hcall username
  rw [fitsFrame_iff]
  refine ⟨?_,?_,by omega⟩
  · intro s hs
    rcases mem_strings_withSender hs with rfl | hs
    · exact huser
    · exact hstrings s hs
  · cases m with
    | offer | answer | candidate | ack | bye => exact Nat.zero_le _
    | _ => cases hcall

namespace ServerEngine
variable {β ρ : Type} {s s' : ServerEngine β} {backend : AuthBackend β ρ} {code : SessionCode} {e : Event ρ}
variable {out : List OutgoingMsg}

/-- Names come from accepted messages, and the server's own session ids are short. -/
structure Bounded (s : ServerEngine β) : Prop where
  online : ∀ u ∈ s.presence.userToClient, u.utf8ByteSize ≤ 65535
  loggedIn : ∀ c u, s.presence.usernameFor c = some u → u.utf8ByteSize ≤ 65535
  ids : ∀ id ∈ s.sessions.bySessId, id.utf8ByteSize ≤ 65535
  codes : ∀ code id, s.sessions.bySessCode.lookup code = some id → id.utf8ByteSize ≤ 65535
theorem allocSessionId_size (s : ServerEngine β) : s.allocSessionId.2.utf8ByteSize ≤ 65535 := by
  have hn := s.nextSessionId.toNat_lt
  have hdigits := (Nat.length_repr_le_iff (n := s.nextSessionId.toNat) (k := 20) (by decide)).mpr (by omega)
  have hsize := utf8ByteSize_le s.allocSessionId.2
  have hlen : s.allocSessionId.2.length = 5 + (Nat.repr s.nextSessionId.toNat).length := String.length_append _ _
  omega

theorem sixDigits_size {n : ℕ} (hn : n < 2 ^ 64) : (sixDigits n).utf8ByteSize ≤ 65535 := by
  have hdigits := (Nat.length_repr_le_iff (n := n) (k := 20) (by decide)).mpr (by omega)
  have hsize := utf8ByteSize_le (sixDigits n)
  have hlen : (sixDigits n).length = 6 - (Nat.repr n).length + (Nat.repr n).length := by
    rw [sixDigits,String.length_append,String.length_ofList,List.length_replicate]
    rfl
  omega

def Event.Accepted : Event ρ → Prop
  | .message _ msg _ => Signaling.Accepted msg
  | .disconnect .. => True
theorem Bounded.new (auth : β) : (new auth).Bounded where
  online u hu := absurd hu (AList.notMem_empty u)
  loggedIn c u h := by cases h
  ids id hid := absurd hid (AList.notMem_empty id)
  codes code id h := by cases h

theorem bounded_step (h : Transition backend s e s' out) (hs : s.Bounded) (he : e.Accepted) : s'.Bounded := by
  cases h with
  | ignored | pong | loginRefused | listPeers | sessionRefused => exact hs
  | register => exact ⟨hs.online,hs.loggedIn,hs.ids,hs.codes⟩
  | @login client username password choices s' hverify honline heq =>
    subst heq
    have huser : username.utf8ByteSize ≤ 65535 := (Accepted.bounds he).1 username (by simp [strings])
    refine ⟨?_,?_,hs.ids,hs.codes⟩
    · intro u hu
      rcases (AList.mem_insert _).mp hu with rfl | hu
      · exact huser
      · exact hs.online u hu
    · intro c u hu
      rw [Presence.usernameFor_login] at hu
      split at hu
      · exact Option.some.inj hu ▸ huser
      · exact hs.loggedIn c u hu
  | @created client capacity choices username next code session huser halloc hsession =>
    subst hsession
    have hid := allocSessionId_size s
    refine ⟨hs.online,hs.loggedIn,?_,?_⟩
    · intro id hmem
      rcases (AList.mem_insert _).mp hmem with rfl | hmem
      · exact hid
      · exact hs.ids id hmem
    · intro code' id hcode
      rcases Table.lookup_insert_eq_some.mp hcode with ⟨-,rfl⟩ | ⟨-,hold⟩
      · exact hid
      · exact hs.codes code' id hold
  | @joined client code choices username id session s' huser hcode hsession _ heq =>
    subst heq
    refine ⟨hs.online,hs.loggedIn,?_,hs.codes⟩
    intro id' hid
    rcases (AList.mem_insert _).mp hid with rfl | hid
    · exact hs.codes code _ hcode
    · exact hs.ids id' hid
  | forwarded _ heq =>
    subst heq
    exact ⟨hs.online,hs.loggedIn,hs.ids,hs.codes⟩
  | @disconnected client choices s' heq =>
    subst heq
    refine ⟨fun u hu => hs.online u (Presence.mem_userToClient_of_logout hu),?_,
      fun id hid => hs.ids id (Sessions.mem_of_mem_leaveAll hid),
      fun code id hcode => hs.codes code id (Sessions.lookup_code_leaveAll.mp hcode).1⟩
    intro c u hu
    rw [Presence.usernameFor_logout,Option.ite_none_left_eq_some] at hu
    exact hs.loggedIn c u hu.2

theorem Bounded.reached {auth : β} {h : List (Exchange ρ)}
    (hs : Reaches (step backend) (ServerEngine.new auth) h s) (he : ∀ x ∈ h, x.1.Accepted) : s.Bounded := by
  induction hs with
  | init => exact Bounded.new auth
  | @snoc h s s' e out hprev hstep ih =>
    exact bounded_step (step_cases hstep) (ih fun x hx => he x (by simp [hx])) (he (e,out) (by simp))

/-- The peer lists that an event makes the server send: to whom, and who is online then. -/
inductive Lists (backend : AuthBackend β ρ) (s : ServerEngine β) : Event ρ → UserName → List UserName → Prop
  | asked {client choices me} : s.presence.usernameFor client = some me →
      Lists backend s (.message client .listPeers choices) me s.presence.userToClient.keys
  | login {client username password choices me} : backend.verify s.auth username password = .ok () →
      s.presence.clientIdFor username = none → (me = username ∨ ∃ c ≠ client, s.presence.usernameFor c = some me) →
      Lists backend s (.message client (.login username password) choices) me
        (username :: s.presence.userToClient.keys)
  | call {client msg choices me} : msg.setsBusy = true → (s.presence.usernameFor client).isSome →
      (∃ c, s.presence.usernameFor c = some me) →
      Lists backend s (.message client msg choices) me s.presence.userToClient.keys
  | disconnect {client choices username me} : s.presence.usernameFor client = some username →
      (∃ c ≠ client, s.presence.usernameFor c = some me) →
      Lists backend s (.disconnect client choices) me (s.presence.userToClient.keys.erase username)
def ListFits (names : List UserName) : Prop :=
  names.length ≤ 65535 ∧ 2 + (names.map fun u => 3 + u.utf8ByteSize).sum ≤ MAX_BODY_LEN
theorem ListFits.filter {names : List UserName} (h : ListFits names) (p : UserName → Bool) :
    ListFits (names.filter p) := by
  have hsum := ((List.filter_sublist (l := names) (p := p)).map fun u => 3 + u.utf8ByteSize).sum_le_sum (by simp)
  exact ⟨(List.length_filter_le p names).trans h.1,(Nat.add_le_add_left hsum 2).trans h.2⟩

/-- There is room for what the event makes the server send: for a call that is passed on under its sender's name, and
for every peer list, which leaves out the name of the one it goes to. -/
structure Roomy (backend : AuthBackend β ρ) (s : ServerEngine β) (e : Event ρ) : Prop where
  call : ∀ client msg choices username target, e = .message client msg choices → msg.isCall = true →
    s.presence.usernameFor client = some username → s.presence.clientIdFor msg.dest = some target →
    msg.bodyLen + username.utf8ByteSize ≤ MAX_BODY_LEN + msg.sender.utf8ByteSize
  peers : ∀ me names, Lists backend s e me names → ListFits (names.filter (· ≠ me))

theorem fitsFrame_peersOnline (hs : s.Bounded) {names : List UserName}
    (hnames : s.presence.userToClient.keys.Perm names) {me : UserName} (hfits : ListFits (names.filter (· ≠ me)))
    (users : Iteration UserName) : FitsFrame (.peersOnline (s.peersFor users me)) := by
  have hperm := ((users.perm s.presence.userToClient.keys).trans hnames).filter (· ≠ me)
  rw [fitsFrame_iff]
  refine ⟨?_,?_,?_⟩
  · intro name hname
    obtain ⟨p,hp,rfl⟩ := List.mem_map.mp hname
    obtain ⟨u,hu,rfl⟩ := List.mem_map.mp hp
    exact hs.online u ((users.perm _).mem_iff.mp (List.mem_of_mem_filter hu))
  · simp only [peerCount,peersFor,List.length_map]
    exact hperm.length_eq.trans_le hfits.1
  · have hbody : (SignalingMsg.peersOnline (s.peersFor users me)).bodyLen =
        2 + (((s.presence.onlineUsernames users).filter (· ≠ me)).map fun u => 3 + u.utf8ByteSize).sum := by
      simp only [bodyLen,peersFor,List.map_map]
      congr 3
      funext u
      simp only [Function.comp_apply]
      omega
    rw [hbody]
    exact (congrArg (2 + ·) (hperm.map fun u => 3 + u.utf8ByteSize).sum_eq).trans_le hfits.2

/-- A step that finds room puts out nothing but messages that fit a frame. -/
theorem fitsFrame_of_transition (h : Transition backend s e s' out) (hs : s.Bounded) (he : e.Accepted)
    (hroom : Roomy backend s e) : ∀ o ∈ out, FitsFrame o.msg := by
  have hs' := bounded_step h hs he
  have hbroadcast : ∀ {names : List UserName}, s'.presence.userToClient.keys.Perm names →
      (∀ c me, s'.presence.usernameFor c = some me → Lists backend s e me names) →
      ∀ choices : Choices ρ, ∀ o ∈ s'.broadcastPeerListUpdate choices, FitsFrame o.msg := by
    intro names hnames hlists choices o ho
    obtain ⟨me,hme,hmsg⟩ := mem_broadcast ho
    rw [hmsg]
    exact fitsFrame_peersOnline hs' hnames (hroom.peers me names (hlists _ me hme)) choices.users
  cases h with
  | ignored => simp
  | pong | loginRefused | sessionRefused =>
    intro o ho
    obtain rfl := List.mem_singleton.mp ho
    exact fitsFrame_of_strings rfl (by simp) (by simp [strings])
  | @login client username password choices s' hverify honline heq =>
    have huser : username.utf8ByteSize ≤ 65535 := (Accepted.bounds he).1 username (by simp [strings])
    intro o ho
    rcases List.mem_cons.mp ho with rfl | ho
    · exact fitsFrame_of_strings rfl (by simp) (by simpa [strings] using huser)
    · subst heq
      refine hbroadcast (.of_eq ?_) (fun c me hme => .login hverify honline ?_) choices o ho
      · exact (AList.keys_insert _).trans (by rw [List.erase_of_not_mem (AList.lookup_eq_none.mp honline)])
      · rw [Presence.usernameFor_login] at hme
        split at hme
        · exact .inl (Option.some.inj hme).symm
        · next hc => exact .inr ⟨c,hc,hme⟩
  | @register client username password choices auth res =>
    have huser : username.utf8ByteSize ≤ 65535 := (Accepted.bounds he).1 username (by simp [strings])
    intro o ho
    obtain rfl := List.mem_singleton.mp ho
    cases res with
    | ok _ => exact fitsFrame_of_strings rfl (by simp) (by simpa [strings] using huser)
    | error err => exact fitsFrame_of_strings rfl (by simp) (by simp [strings])
  | @listPeers client choices =>
    intro o ho
    obtain rfl := List.mem_singleton.mp ho
    cases hme : s.presence.usernameFor client with
    | none => exact (fitsFrame_iff _).mpr ⟨by simp [strings],Nat.zero_le _,by simp [bodyLen,MAX_BODY_LEN]⟩
    | some me => exact fitsFrame_peersOnline hs (.refl _) (hroom.peers me _ (.asked hme)) choices.users
  | @created client capacity choices username next code session huser halloc hsession =>
    subst hsession
    have hid := allocSessionId_size s
    obtain ⟨n,hn,rfl⟩ := (allocSessionCode_allocates halloc).number
    have hcode := sixDigits_size hn
    intro o ho
    obtain rfl := List.mem_singleton.mp ho
    exact fitsFrame_of_strings rfl (by simp) (by simp [strings,hid,hcode])
  | @joined client code choices username id session s' huser hcode =>
    have hid := hs.codes code id hcode
    have hname := hs.loggedIn client username huser
    intro o ho
    rcases List.mem_cons.mp ho with rfl | ho
    · exact fitsFrame_of_strings rfl (by simp) (by simpa [strings] using hid)
    · obtain ⟨member,-,rfl⟩ := List.mem_map.mp ho
      exact fitsFrame_of_strings rfl (by simp) (by simp [strings,hid,hname])
  | @forwarded client msg choices busyUsers s' rest hcall heq hrest =>
    subst heq
    intro o ho
    rcases List.mem_append.mp ho with ho | ho
    · obtain ⟨-,username,target,huser,htarget,rfl⟩ := mem_forwarded.mp ho
      exact fitsFrame_withSender he hcall (hs.loggedIn client username huser)
        (hroom.call client msg choices username target rfl hcall huser htarget)
    · rcases hrest with ⟨rfl,-⟩ | ⟨rfl,hbusy,huser⟩
      · cases ho
      · exact hbroadcast (.refl _) (fun c me hme => .call hbusy huser ⟨c,hme⟩) choices o ho
  | @disconnected client choices s' heq =>
    subst heq
    cases huser : s.presence.usernameFor client with
    | none => simp
    | some username =>
      have hname := hs.loggedIn client username huser
      intro o ho
      rcases List.mem_append.mp ho with ho | ho
      · obtain ⟨l,hl,ho⟩ := List.mem_flatMap.mp ho
        obtain ⟨member,-,rfl⟩ := List.mem_map.mp ho
        have hid := hs.ids l.1 (Sessions.mem_of_left hl)
        exact fitsFrame_of_strings rfl (by simp) (by simp [strings,hid,hname])
      · refine hbroadcast (.of_eq (s.presence.keys_logout huser)) (fun c me hme => .disconnect huser ⟨c,?_⟩) choices o ho
        rwa [Presence.usernameFor_logout,Option.ite_none_left_eq_some] at hme

/-- After every history of accepted messages, an event that finds room for its call, if it is passed on, and for the
peer lists makes the server send only frames that their readers accept. -/
theorem server_frames_within_limit (backend : AuthBackend β ρ) {auth : β} {history : List (Exchange ρ)}
    (hs : Reaches (step backend) (new auth) history s) (hstep : s.step backend e = some (s',out))
    (haccepted : ∀ x ∈ history, x.1.Accepted) (he : e.Accepted) (hroom : Roomy backend s e) :
    ∀ o ∈ out, o.msg.bodyLen ≤ MAX_BODY_LEN ∧ ∃ bytes, writeMsg o.msg = .ok bytes ∧
      ∀ r, readMsg.runOn (Incoming.ofBytes bytes ++ r) = (.ok o.msg.readBack,r) := by
  intro o ho
  obtain ⟨hmax,bytes,hwrite⟩ := fitsFrame_of_transition (step_cases hstep) (.reached hs haccepted) he hroom o ho
  exact ⟨hmax,bytes,hwrite,readMsg_writeMsg hwrite hmax⟩

theorem server_frames_answer : ∃ history s s' out, Reaches (step allowAll) (new ()) history s ∧
    history.map Prod.fst = [.message 1 (.login "alice" "a") (.plain ()), .message 2 (.login "bob" "b") (.plain ())] ∧
    s.step allowAll (.message 2 (.answer 7 "" "alice" [1,2]) (.plain ())) = some (s',out) ∧
    out.map OutgoingMsg.msg = [.answer 7 "bob" "alice" [1,2], .peersOnline [("alice", .busy)],
      .peersOnline [("bob", .busy)]] ∧
    ∀ o ∈ out, o.msg.bodyLen ≤ MAX_BODY_LEN ∧ ∃ bytes, writeMsg o.msg = .ok bytes ∧
      ∀ r, readMsg.runOn (Incoming.ofBytes bytes ++ r) = (.ok o.msg.readBack,r) := by
  have hs : Reaches (step allowAll) (new ()) ([] ++ [(.message 1 (.login "alice" "a") (.plain ()),_)] ++
      [(.message 2 (.login "bob" "b") (.plain ()),_)]) _ := .snoc (.snoc .init rfl) rfl
  refine ⟨_,_,_,_,hs,rfl,rfl,by decide +kernel,?_⟩
  refine server_frames_within_limit allowAll (e := .message 2 (.answer 7 "" "alice" [1,2]) (.plain ())) hs rfl ?_ ?_ ?_
  · intro x hx
    simp only [List.nil_append,List.cons_append,List.mem_cons,List.not_mem_nil,or_false] at hx
    rcases hx with rfl | rfl <;> exact Accepted.of_writeMsg rfl (by decide +kernel) rfl
  · exact Accepted.of_writeMsg rfl (by decide +kernel) rfl
  · constructor
    · rintro client msg choices username target ⟨⟩ - huser -
      cases huser
      decide +kernel
    · intro me names hlists
      cases hlists with
      | call => exact ListFits.filter ⟨by decide +kernel,by decide +kernel⟩ _

/-- The description stays abstract here: its million bytes are never computed with. -/
theorem offer_refused_of_length {sdp : Bytes} (hlen : sdp.length = 1048555) :
    ∃ before out s, Reaches (step allowAll) (new ()) (before ++
        [(.message 2 (.offer 7 "" "alice" sdp) (.plain ()),out)]) s ∧
      before.map Prod.fst = [.message 1 (.login "alice" "a") (.plain ()), .message 2 (.login "bob" "b") (.plain ())] ∧
      (∀ x ∈ before, x.1.Accepted) ∧ Accepted (.offer 7 "" "alice" sdp) ∧
      ∃ bytes, out.map (fun o => (o.clientIdTarget,writeMsg o.msg)) = [(1, .ok bytes)] ∧
        ∀ r, ∃ r', readMsg.runOn (Incoming.ofBytes bytes ++ r) = (.error (.proto .tooLarge),r') := by
  have hwrite : ∀ sender ∈ ["","bob"], ∃ c, writeMsg (.offer 7 sender "alice" sdp) = .ok c := by
    intro sender hsender
    have hsmall : ∀ s ∈ ["","bob","alice"], s.utf8ByteSize ≤ 5 := by decide +kernel
    have hlong := hsmall sender (by simp at hsender ⊢; tauto)
    have halice := hsmall "alice" (by simp)
    apply (writeMsg_isOk_iff _).mpr
    simp only [strings,peerCount,bodyLen,List.mem_cons,
      List.not_mem_nil,or_false,forall_eq_or_imp,forall_eq,hlen]
    omega
  have halice : String.utf8ByteSize "alice" = 5 := by decide +kernel
  have hbob : String.utf8ByteSize "bob" = 3 := by decide +kernel
  obtain ⟨c,hc⟩ := hwrite "" (by simp)
  obtain ⟨bytes,hbytes⟩ := hwrite "bob" (by simp)
  refine ⟨_,_,_, .snoc (.snoc (.snoc .init rfl) rfl) rfl,rfl,?_,?_,bytes,?_,?_⟩
  · intro x hx
    simp only [List.nil_append,List.cons_append,List.mem_cons,List.not_mem_nil,or_false] at hx
    rcases hx with rfl | rfl <;> exact Accepted.of_writeMsg rfl (by decide +kernel) rfl
  · apply Accepted.of_writeMsg hc _ rfl
    simp [bodyLen,hlen,halice,MAX_BODY_LEN]
  · exact congrArg (fun w => [((1 : ClientId),w)]) hbytes
  · apply readMsg_tooLarge hbytes
    simp [bodyLen,hlen,halice,hbob,MAX_BODY_LEN]

/-- Bob sends alice an offer of exactly the largest size, with no sender in it. With bob's name filled in
it is too large, and alice's reader refuses it. -/
theorem largest_offer_refused_by_receiver :
    ∃ before out s, Reaches (step allowAll) (new ()) (before ++
        [(.message 2 (.offer 7 "" "alice" (.replicate 1048555 0)) (.plain ()),out)]) s ∧
      before.map Prod.fst = [.message 1 (.login "alice" "a") (.plain ()), .message 2 (.login "bob" "b") (.plain ())] ∧
      (∀ x ∈ before, x.1.Accepted) ∧ Accepted (.offer 7 "" "alice" (.replicate 1048555 0)) ∧
      ∃ bytes, out.map (fun o => (o.clientIdTarget,writeMsg o.msg)) = [(1, .ok bytes)] ∧
        ∀ r, ∃ r', readMsg.runOn (Incoming.ofBytes bytes ++ r) = (.error (.proto .tooLarge),r') :=
  offer_refused_of_length List.length_replicate
end ServerEngine
end RustyRtc.Signaling
