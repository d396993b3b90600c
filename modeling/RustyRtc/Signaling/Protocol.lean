import RustyRtc.Foundation.Codec
import RustyRtc.Foundation.Text

/-! # Signaling messages and their bodies

`signaling/protocol`: the 23 kinds of message and the layout of each body. A body is a
sequence of fields; `encode_msg` writes them in order and `decode_msg` reads them back with a
cursor that must end up empty.
-/
namespace RustyRtc.Signaling
variable {c : Bytes} {t : MsgType} {m : SignalingMsg} {b body : Bytes}
abbrev UserName := String
abbrev SessionId := String
abbrev SessionCode := String
abbrev TxnId := UInt64
inductive PeerStatus where
  | available
  | busy
  deriving DecidableEq, Repr

inductive SignalingMsg where
  | hello (clientVersion : String)
  | login (username : UserName) (password : String)
  | loginOk (username : UserName)
  | loginErr (code : UInt16)
  | register (username : UserName) (password : String)
  | registerOk (username : UserName)
  | registerErr (code : UInt16)
  | listPeers
  | peersOnline (peers : List (UserName × PeerStatus))
  | createSession (capacity : UInt8)
  | created (sessionId : SessionId) (sessionCode : SessionCode)
  | join (sessionCode : SessionCode)
  | joinOk (sessionId : SessionId)
  | joinErr (code : UInt16)
  | peerJoined (sessionId : SessionId) (username : UserName)
  | peerLeft (sessionId : SessionId) (username : UserName)
  | offer (txnId : TxnId) (sender dest : UserName) (sdp : Bytes)
  | answer (txnId : TxnId) (sender dest : UserName) (sdp : Bytes)
  | candidate (sender dest : UserName) (mid : String) (mlineIndex : UInt16) (cand : Bytes)
  | ack (sender dest : UserName) (txnId : TxnId)
  | bye (sender dest : UserName) (reason : Option String)
  | ping (nonce : UInt64)
  | pong (nonce : UInt64)
  deriving DecidableEq, Repr

abbrev ClientId := UInt64
structure OutgoingMsg where
  clientIdTarget : ClientId
  msg : SignalingMsg
  deriving DecidableEq, Repr
inductive MsgType where
  | hello | login | loginOk | loginErr | register | registerOk | registerErr | listPeers | peersOnline
  | createSession | created | join | joinOk | joinErr | peerJoined | peerLeft
  | offer | answer | candidate | ack | bye
  | ping | pong
  deriving DecidableEq, Repr

inductive ProtoError where
  | unknownType (v : UInt8)
  | truncated
  | invalidUtf8
  | tooLarge
  | invalidFormat (text : String)
  | stringTooLong (max actual : ℕ)
  deriving DecidableEq, Repr

namespace MsgType
def asU8 : MsgType → UInt8
  | hello => 0x01 | login => 0x02 | loginOk => 0x03 | loginErr => 0x04
  | register => 0x05 | registerOk => 0x06 | registerErr => 0x07
  | listPeers => 0x08 | peersOnline => 0x09
  | createSession => 0x10 | created => 0x11 | join => 0x12 | joinOk => 0x13 | joinErr => 0x14
  | peerJoined => 0x15 | peerLeft => 0x16
  | offer => 0x20 | answer => 0x21 | candidate => 0x22 | ack => 0x23 | bye => 0x24
  | ping => 0x30 | pong => 0x31

def fromU8 (v : UInt8) : Except ProtoError MsgType :=
  match v.toNat with
  | 0x01 => .ok hello | 0x02 => .ok login | 0x03 => .ok loginOk | 0x04 => .ok loginErr
  | 0x05 => .ok register | 0x06 => .ok registerOk | 0x07 => .ok registerErr
  | 0x08 => .ok listPeers | 0x09 => .ok peersOnline
  | 0x10 => .ok createSession | 0x11 => .ok created | 0x12 => .ok join | 0x13 => .ok joinOk
  | 0x14 => .ok joinErr | 0x15 => .ok peerJoined | 0x16 => .ok peerLeft
  | 0x20 => .ok offer | 0x21 => .ok answer | 0x22 => .ok candidate | 0x23 => .ok ack | 0x24 => .ok bye
  | 0x30 => .ok ping | 0x31 => .ok pong
  | _ => .error (.unknownType v)

theorem fromU8_asU8 (t : MsgType) : fromU8 t.asU8 = .ok t := by cases t <;> rfl
end MsgType

namespace Field
open Codec

def u8 : Codec ProtoError UInt8 := Codec.u8 .truncated
def u16 : Codec ProtoError UInt16 := Codec.u16 .truncated
def u32 : Codec ProtoError UInt32 := Codec.u32 .truncated
def u64 : Codec ProtoError UInt64 := Codec.u64 .truncated

/-- `put_str16`, `get_str16`: a 16-bit length, then UTF-8. -/
def str16 : Codec ProtoError String :=
  ((blob u16 UInt16.toNat UInt16.ofNat (fun _ => UInt16.ofNat_toNat) .truncated).guard
      (fun b => b.length > 65535) (fun b => .stringTooLong 65535 b.length) (by
        rintro b ⟨-,hb⟩
        have := (UInt16.ofNat b.length).toNat_lt
        omega)).via
    utf8 (fun b => (fromUtf8 b).elim (.error .invalidUtf8) .ok) (fun _ => True) (by
      intro b s
      rw [true_and, ← fromUtf8_eq_some]
      cases fromUtf8 b <;> simp)

/-- A 32-bit length (`len as u32`), then the bytes. -/
def bytes32 : Codec ProtoError Bytes :=
  blob u32 UInt32.toNat UInt32.ofNat (fun _ => UInt32.ofNat_toNat) .truncated

def status : Codec ProtoError PeerStatus :=
  u8.via (fun | .available => 0 | .busy => 1)
    (fun b =>
      if b = 0 then .ok .available
      else if b = 1 then .ok .busy
      else .error (.invalidFormat "unknown peer status byte")) (fun _ => True) (by
      rintro b (_ | _) <;> by_cases h0 : b = 0 <;> by_cases h1 : b = 1 <;> simp_all [eq_comm])

def peers : Codec ProtoError (List (UserName × PeerStatus)) :=
  (list u16 UInt16.toNat UInt16.ofNat (fun _ => UInt16.ofNat_toNat) (str16.pair status)).guard
    (fun ps => ps.length > 65535) (fun _ => .invalidFormat "too many peers") (by
      rintro ps ⟨⟨-,hps⟩,-⟩
      have := (UInt16.ofNat ps.length).toNat_lt
      omega)

/-- The reason of a Bye: the empty string stands for none. -/
def reason : Codec ProtoError (Option String) :=
  str16.via (fun r => r.getD "") (fun s => .ok (if s.isEmpty then none else some s)) (fun r => r ≠ some "") (by
    intro s r
    rw [Except.ok.injEq]
    by_cases hs : s = ""
    · subst hs
      cases r <;> simp
    · have hs' : ¬ "" = s := fun h => hs h.symm
      cases r with
      | none => simp [hs,hs']
      | some r =>
        simp only [String.isEmpty_iff, hs, if_false, Option.some.injEq, ne_eq, Option.getD_some]
        constructor
        · rintro rfl
          exact ⟨hs,rfl⟩
        · rintro ⟨-,rfl⟩
          rfl)

theorem str16_put (s : String) : str16.put s =
    if s.utf8ByteSize > 65535 then .error (.stringTooLong 65535 s.utf8ByteSize)
    else .ok (beBytes16 (UInt16.ofNat s.utf8ByteSize) ++ utf8 s) := rfl
theorem str16_put_eq_ok {s : String} : str16.put s = .ok c ↔
      s.utf8ByteSize ≤ 65535 ∧ beBytes16 (UInt16.ofNat s.utf8ByteSize) ++ utf8 s = c := by
  rw [str16_put]
  split <;> simp <;> omega
theorem str16_total : str16.Total := by
  intro s c h
  have hlen := (str16_put_eq_ok.mp h).1
  refine ⟨trivial,trivial,?_⟩
  rw [utf8_length,UInt16.toNat_ofNat']
  omega

theorem u8_total : u8.Total := fun _ _ _ => trivial
theorem u16_total : u16.Total := fun _ _ _ => trivial
theorem u64_total : u64.Total := fun _ _ _ => trivial
theorem status_total : status.Total := fun _ _ _ => ⟨trivial,trivial⟩
theorem peers_put (ps : List (UserName × PeerStatus)) : peers.put ps =
    if ps.length > 65535 then .error (.invalidFormat "too many peers")
    else do return beBytes16 (UInt16.ofNat ps.length) ++ (← (str16.pair status).putAll ps) := rfl

theorem peers_put_eq_ok {ps : List (UserName × PeerStatus)} : peers.put ps = .ok c ↔ ps.length ≤ 65535 ∧
      ∃ d, (str16.pair status).putAll ps = .ok d ∧ beBytes16 (UInt16.ofNat ps.length) ++ d = c := by
  rw [peers_put]
  split
  · simp
    omega
  · next h =>
    cases (str16.pair status).putAll ps <;> simp [bind,Except.bind,pure,Except.pure]
    omega

theorem peers_total : peers.Total := by
  intro ps c h
  obtain ⟨hlen,d,hd,-⟩ := peers_put_eq_ok.mp h
  refine ⟨⟨trivial,?_⟩,(str16_total.pair status_total).forall_mem hd⟩
  rw [UInt16.toNat_ofNat']
  omega
theorem str16_accepts : str16.Accepts (fun s => s.utf8ByteSize ≤ 65535) := by
  intro s
  simp [str16_put_eq_ok]

theorem bytes32_accepts : bytes32.Accepts (fun _ => True) := fun _ => ⟨fun _ => trivial,fun _ => ⟨_,rfl⟩⟩
theorem u8_accepts : u8.Accepts (fun _ => True) := fun _ => ⟨fun _ => trivial,fun _ => ⟨_,rfl⟩⟩
theorem u16_accepts : u16.Accepts (fun _ => True) := fun _ => ⟨fun _ => trivial,fun _ => ⟨_,rfl⟩⟩
theorem u64_accepts : u64.Accepts (fun _ => True) := fun _ => ⟨fun _ => trivial,fun _ => ⟨_,rfl⟩⟩
theorem status_accepts : status.Accepts (fun _ => True) := fun _ => ⟨fun _ => trivial,fun _ => ⟨_,rfl⟩⟩
theorem peers_accepts : peers.Accepts (fun ps => (∀ p ∈ ps, p.1.utf8ByteSize ≤ 65535) ∧ ps.length ≤ 65535) := by
  intro ps
  have hall := (str16_accepts.pair status_accepts).putAll ps
  simp only [and_true] at hall
  simp only [peers_put_eq_ok]
  constructor
  · rintro ⟨_,hlen,d,hd,-⟩
    exact ⟨hall.1 ⟨d,hd⟩,hlen⟩
  · rintro ⟨hps,hlen⟩
    obtain ⟨d,hd⟩ := hall.2 hps
    exact ⟨_,hlen,d,hd,rfl⟩

theorem reason_accepts : reason.Accepts (fun r => (r.getD "").utf8ByteSize ≤ 65535) :=
  fun r => str16_accepts (r.getD "")
theorem str16_sized : str16.Sized (fun s => 2 + s.utf8ByteSize) := by
  intro s c h
  obtain ⟨-,rfl⟩ := str16_put_eq_ok.mp h
  simp
theorem status_sized : status.Sized (fun _ => 1) := by
  intro st c h
  cases h
  rfl
theorem u8_sized : u8.Sized (fun _ => 1) := by
  intro x c h
  cases h
  rfl
theorem u16_sized : u16.Sized (fun _ => 2) := by
  intro x c h
  cases h
  rfl
theorem u64_sized : u64.Sized (fun _ => 8) := by
  intro x c h
  cases h
  rfl
theorem peers_sized : peers.Sized (fun ps => 2 + (ps.map fun p => 2 + p.1.utf8ByteSize + 1).sum) := by
  intro ps c h
  obtain ⟨-,d,hd,rfl⟩ := peers_put_eq_ok.mp h
  rw [List.length_append,(str16_sized.pair status_sized).putAll hd]
  rfl
theorem reason_sized : reason.Sized (fun r => 2 + (r.getD "").utf8ByteSize) :=
  fun r c h => str16_sized (r.getD "") c h
theorem bytes32_sized : bytes32.Sized (fun b => 4 + b.length) := by
  intro b c h
  cases h
  simp
theorem bytes32_fits (h : b.length < 4294967296) : bytes32.Fits b := by
  refine ⟨trivial,?_⟩
  rw [UInt32.toNat_ofNat']
  omega
end Field

open Field SignalingMsg

def encodeMsg : SignalingMsg → Except ProtoError (MsgType × Bytes)
  | .hello clientVersion => do return (.hello,← str16.put clientVersion)
  | .login username password => do return (.login,← (str16.pair str16).put (username,password))
  | .loginOk username => do return (.loginOk,← str16.put username)
  | .loginErr code => do return (.loginErr,← u16.put code)
  | .register username password => do return (.register,← (str16.pair str16).put (username,password))
  | .registerOk username => do return (.registerOk,← str16.put username)
  | .registerErr code => do return (.registerErr,← u16.put code)
  | .listPeers => return (.listPeers,[])
  | .peersOnline ps => do return (.peersOnline,← peers.put ps)
  | .createSession capacity => do return (.createSession,← u8.put capacity)
  | .created sessionId sessionCode => do
    return (.created,← (str16.pair str16).put (sessionId,sessionCode))
  | .join sessionCode => do return (.join,← str16.put sessionCode)
  | .joinOk sessionId => do return (.joinOk,← str16.put sessionId)
  | .joinErr code => do return (.joinErr,← u16.put code)
  | .peerJoined sessionId username => do
    return (.peerJoined,← (str16.pair str16).put (sessionId,username))
  | .peerLeft sessionId username => do return (.peerLeft,← (str16.pair str16).put (sessionId,username))
  | .offer txnId sender dest sdp => do
    return (.offer,← (u64.pair (str16.pair (str16.pair bytes32))).put (txnId,sender,dest,sdp))
  | .answer txnId sender dest sdp => do
    return (.answer,← (u64.pair (str16.pair (str16.pair bytes32))).put (txnId,sender,dest,sdp))
  | .candidate sender dest mid mlineIndex cand => do
    return (.candidate,← (str16.pair (str16.pair (str16.pair (u16.pair bytes32)))).put
      (sender,dest,mid,mlineIndex,cand))
  | .ack sender dest txnId => do return (.ack,← (str16.pair (str16.pair u64)).put (sender,dest,txnId))
  | .bye sender dest r => do return (.bye,← (str16.pair (str16.pair reason)).put (sender,dest,r))
  | .ping nonce => do return (.ping,← u64.put nonce)
  | .pong nonce => do return (.pong,← u64.put nonce)

/-- The part of `decode_msg` in front of `cursor.finish()`. -/
def decodeBody : MsgType → Reader ProtoError SignalingMsg
  | .hello => do return .hello (← str16.get)
  | .login => do
    let (username,password) ← (str16.pair str16).get
    return .login username password
  | .loginOk => do return .loginOk (← str16.get)
  | .loginErr => do return .loginErr (← u16.get)
  | .register => do
    let (username,password) ← (str16.pair str16).get
    return .register username password
  | .registerOk => do return .registerOk (← str16.get)
  | .registerErr => do return .registerErr (← u16.get)
  | .listPeers => return .listPeers
  | .peersOnline => do return .peersOnline (← peers.get)
  | .createSession => do return .createSession (← u8.get)
  | .created => do
    let (sessionId,sessionCode) ← (str16.pair str16).get
    return .created sessionId sessionCode
  | .join => do return .join (← str16.get)
  | .joinOk => do return .joinOk (← str16.get)
  | .joinErr => do return .joinErr (← u16.get)
  | .peerJoined => do
    let (sessionId,username) ← (str16.pair str16).get
    return .peerJoined sessionId username
  | .peerLeft => do
    let (sessionId,username) ← (str16.pair str16).get
    return .peerLeft sessionId username
  | .offer => do
    let (txnId,sender,dest,sdp) ← (u64.pair (str16.pair (str16.pair bytes32))).get
    return .offer txnId sender dest sdp
  | .answer => do
    let (txnId,sender,dest,sdp) ← (u64.pair (str16.pair (str16.pair bytes32))).get
    return .answer txnId sender dest sdp
  | .candidate => do
    let (sender,dest,mid,mlineIndex,cand) ← (str16.pair (str16.pair (str16.pair (u16.pair bytes32)))).get
    return .candidate sender dest mid mlineIndex cand
  | .ack => do
    let (sender,dest,txnId) ← (str16.pair (str16.pair u64)).get
    return .ack sender dest txnId
  | .bye => do
    let (sender,dest,r) ← (str16.pair (str16.pair reason)).get
    return .bye sender dest r
  | .ping => do return .ping (← u64.get)
  | .pong => do return .pong (← u64.get)

def decodeMsg (t : MsgType) (body : Bytes) : Except ProtoError SignalingMsg := do
  let (msg,rest) ← (decodeBody t).run body
  if !rest.isEmpty then throw (.invalidFormat "trailing bytes in message body")
  return msg
def SignalingMsg.contents : SignalingMsg → ℕ
  | .offer _ _ _ sdp | .answer _ _ _ sdp => sdp.length
  | .candidate _ _ _ _ cand => cand.length
  | _ => 0

/-- What a reader makes of a message: a Bye with an empty reason has none. -/
def SignalingMsg.readBack : SignalingMsg → SignalingMsg
  | .bye sender dest r => .bye sender dest (if r = some "" then none else r)
  | msg => msg
theorem tagged_eq_ok {e : Except ProtoError Bytes} {t' : MsgType} :
    (do return (t,← e) : Except ProtoError (MsgType × Bytes)) = .ok (t',c) ↔ t = t' ∧ e = .ok c := by
  cases e <;> simp [bind,Except.bind,pure,Except.pure]

theorem encodeMsg_of_decodeBody {rest : Bytes}
    (h : (decodeBody t).run b = .ok (m,rest)) : ∃ c, encodeMsg m = .ok (t,c) ∧ b = c ++ rest := by
  cases t
  case listPeers =>
    obtain ⟨rfl,rfl⟩ := Reader.run_pure_eq_ok.mp h
    exact ⟨[],rfl,rfl⟩
  all_goals
    obtain ⟨x,mid,hx,hm⟩ := Reader.run_bind_eq_ok.mp h
    obtain ⟨-,c,hc,rfl⟩ := (Codec.law _).mp hx
    obtain ⟨rfl,rfl⟩ := Reader.run_pure_eq_ok.mp hm
    exact ⟨c,tagged_eq_ok.mpr ⟨rfl,hc⟩,rfl⟩

theorem encodeMsg_readBack (m : SignalingMsg) : encodeMsg m.readBack = encodeMsg m := by
  cases m with
  | bye sender dest r =>
    by_cases hr : r = some ""
    · subst hr
      rfl
    · simp [readBack,hr]
  | _ => rfl

theorem decodeBody_of_encodeMsg (h : encodeMsg m = .ok (t,c)) (hsize : m.contents < 4294967296) (rest : Bytes) :
    (decodeBody t).run (c ++ rest) = .ok (m.readBack,rest) := by
  have hback := (encodeMsg_readBack m).trans h
  cases m
  case listPeers =>
    cases h
    rfl
  all_goals
    obtain ⟨rfl,hc⟩ := tagged_eq_ok.mp h
    apply Reader.run_bind_eq_ok.mpr
  case hello | loginOk | registerOk | join | joinOk => exact ⟨_,_,str16_total.run_get hc rest,rfl⟩
  case login | register | created | peerJoined | peerLeft =>
    exact ⟨_,_,(str16_total.pair str16_total).run_get hc rest,rfl⟩
  case loginErr | registerErr | joinErr => exact ⟨_,_,u16_total.run_get hc rest,rfl⟩
  case peersOnline => exact ⟨_,_,peers_total.run_get hc rest,rfl⟩
  case createSession => exact ⟨_,_,u8_total.run_get hc rest,rfl⟩
  case ping | pong => exact ⟨_,_,u64_total.run_get hc rest,rfl⟩
  case ack => exact ⟨_,_,(str16_total.pair (str16_total.pair u64_total)).run_get hc rest,rfl⟩
  case offer | answer =>
    -- the 32-bit count of the description is not checked by the writer
    obtain ⟨_,_,htxn,hc',rfl⟩ := Codec.put_pair_eq_ok.mp hc
    obtain ⟨_,_,hsender,hc'',rfl⟩ := Codec.put_pair_eq_ok.mp hc'
    obtain ⟨_,_,hdest,-,rfl⟩ := Codec.put_pair_eq_ok.mp hc''
    exact ⟨_,_,(Codec.law _).mpr ⟨⟨trivial,str16_total _ _ hsender,str16_total _ _ hdest,bytes32_fits hsize⟩,
      _,hc,rfl⟩,rfl⟩
  case candidate =>
    obtain ⟨_,_,hsender,hc',rfl⟩ := Codec.put_pair_eq_ok.mp hc
    obtain ⟨_,_,hdest,hc'',rfl⟩ := Codec.put_pair_eq_ok.mp hc'
    obtain ⟨_,_,hmid,-,rfl⟩ := Codec.put_pair_eq_ok.mp hc''
    exact ⟨_,_,(Codec.law _).mpr ⟨⟨str16_total _ _ hsender,str16_total _ _ hdest,str16_total _ _ hmid,
      trivial,bytes32_fits hsize⟩,_,hc,rfl⟩,rfl⟩
  case bye sender dest r =>
    obtain ⟨-,hc⟩ := tagged_eq_ok.mp hback
    obtain ⟨_,_,hsender,hc',rfl⟩ := Codec.put_pair_eq_ok.mp hc
    obtain ⟨_,_,hdest,hreason,rfl⟩ := Codec.put_pair_eq_ok.mp hc'
    refine ⟨_,_,(Codec.law _).mpr ⟨⟨str16_total _ _ hsender,str16_total _ _ hdest,?_,str16_total _ _ hreason⟩,
      _,hc,rfl⟩,rfl⟩
    change (if r = some "" then none else r) ≠ some ""
    split <;> simp_all

theorem decodeMsg_eq_ok : decodeMsg t body = .ok m ↔ (decodeBody t).run body = .ok (m,[]) := by
  unfold decodeMsg
  cases (decodeBody t).run body with
  | error e => simp [bind,Except.bind]
  | ok p =>
    obtain ⟨m',rest⟩ := p
    cases rest <;> simp [bind,Except.bind,pure,Except.pure,throw,throwThe,MonadExceptOf.throw]

theorem encodeMsg_of_decodeMsg (h : decodeMsg t body = .ok m) : encodeMsg m = .ok (t,body) := by
  obtain ⟨c,hc,hbody⟩ := encodeMsg_of_decodeBody (decodeMsg_eq_ok.mp h)
  rw [hc,hbody,List.append_nil]

/-- Decoding is canonical: what is accepted is written back byte by byte, and no other body of its type is read as
the same message. -/
theorem decodeMsg_canonical {t : MsgType} {body : Bytes} {m : SignalingMsg} (h : decodeMsg t body = .ok m) :
    encodeMsg m = .ok (t,body) ∧ ∀ body', decodeMsg t body' = .ok m → body' = body := by
  have hback := encodeMsg_of_decodeMsg h
  refine ⟨hback,fun body' h' => ?_⟩
  have hsame := (encodeMsg_of_decodeMsg h').symm.trans hback
  exact (Prod.mk.inj (Except.ok.inj hsame)).2

theorem decodeMsg_canonical_bye : encodeMsg (.bye "a" "b" none) = .ok (.bye,[0,1,97,0,1,98,0,0]) ∧
    ∀ body', decodeMsg .bye body' = .ok (.bye "a" "b" none) → body' = [0,1,97,0,1,98,0,0] :=
  decodeMsg_canonical (by decide +kernel)
theorem decodeMsg_of_encodeMsg
    (h : encodeMsg m = .ok (t,c)) (hsize : m.contents < 4294967296) : decodeMsg t c = .ok m.readBack := by
  apply decodeMsg_eq_ok.mpr
  simpa using decodeBody_of_encodeMsg h hsize []

namespace SignalingMsg
def strings : SignalingMsg → List String
  | .hello s | .loginOk s | .registerOk s | .join s | .joinOk s => [s]
  | .login s s' | .register s s' | .created s s' | .peerJoined s s' | .peerLeft s s' => [s,s']
  | .peersOnline ps => ps.map Prod.fst
  | .offer _ sender dest _ | .answer _ sender dest _ | .ack sender dest _ => [sender,dest]
  | .candidate sender dest mid _ _ => [sender,dest,mid]
  | .bye sender dest r => sender :: dest :: r.toList
  | .loginErr _ | .registerErr _ | .joinErr _ | .listPeers | .createSession _ | .ping _ | .pong _ => []

def peerCount : SignalingMsg → ℕ
  | .peersOnline ps => ps.length
  | _ => 0

def bodyLen : SignalingMsg → ℕ
  | .hello s | .loginOk s | .registerOk s | .join s | .joinOk s => 2 + s.utf8ByteSize
  | .login s s' | .register s s' | .created s s' | .peerJoined s s' | .peerLeft s s' =>
    2 + s.utf8ByteSize + (2 + s'.utf8ByteSize)
  | .loginErr _ | .registerErr _ | .joinErr _ => 2
  | .listPeers => 0
  | .peersOnline ps => 2 + (ps.map fun p => 2 + p.1.utf8ByteSize + 1).sum
  | .createSession _ => 1
  | .offer _ sender dest sdp | .answer _ sender dest sdp =>
    8 + (2 + sender.utf8ByteSize + (2 + dest.utf8ByteSize + (4 + sdp.length)))
  | .candidate sender dest mid _ cand =>
    2 + sender.utf8ByteSize + (2 + dest.utf8ByteSize + (2 + mid.utf8ByteSize + (2 + (4 + cand.length))))
  | .ack sender dest _ => 2 + sender.utf8ByteSize + (2 + dest.utf8ByteSize + 8)
  | .bye sender dest r =>
    2 + sender.utf8ByteSize + (2 + dest.utf8ByteSize + (2 + (r.getD "").utf8ByteSize))
  | .ping _ | .pong _ => 8
end SignalingMsg

theorem encodeMsg_length (h : encodeMsg m = .ok (t,c)) : c.length = m.bodyLen := by
  cases m
  case listPeers =>
    cases h
    rfl
  all_goals obtain ⟨rfl,hc⟩ := tagged_eq_ok.mp h
  case hello | loginOk | registerOk | join | joinOk => exact str16_sized _ _ hc
  case login | register | created | peerJoined | peerLeft => exact (str16_sized.pair str16_sized) _ _ hc
  case loginErr | registerErr | joinErr => exact u16_sized _ _ hc
  case peersOnline => exact peers_sized _ _ hc
  case createSession => exact u8_sized _ _ hc
  case ping | pong => exact u64_sized _ _ hc
  case ack => exact (str16_sized.pair (str16_sized.pair u64_sized)) _ _ hc
  case offer | answer =>
    exact (u64_sized.pair (str16_sized.pair (str16_sized.pair bytes32_sized))) _ _ hc
  case candidate =>
    exact (str16_sized.pair (str16_sized.pair (str16_sized.pair (u16_sized.pair bytes32_sized)))) _ _ hc
  case bye => exact (str16_sized.pair (str16_sized.pair reason_sized)) _ _ hc

theorem contents_le_bodyLen (m : SignalingMsg) : m.contents ≤ m.bodyLen := by
  cases m <;> simp only [contents,bodyLen] <;> omega

/-- The encoder refuses exactly the messages with a string or a peer list too long to be counted. -/
theorem encodeMsg_isOk_iff (m : SignalingMsg) :
    (∃ t c, encodeMsg m = .ok (t,c)) ↔ (∀ s ∈ m.strings, s.utf8ByteSize ≤ 65535) ∧ m.peerCount ≤ 65535 := by
  have htag : ∀ {t : MsgType} {e : Except ProtoError Bytes},
      (∃ t' c, (do return (t,← e) : Except ProtoError (MsgType × Bytes)) = .ok (t',c)) ↔ ∃ c, e = .ok c := by
    intro t e
    cases e <;> simp [bind,Except.bind,pure,Except.pure]
  cases m
  case listPeers => exact ⟨fun _ => by simp [strings,peerCount],fun _ => ⟨_,_,rfl⟩⟩
  all_goals rw [encodeMsg,htag]
  case hello | loginOk | registerOk | join | joinOk =>
    simp [str16_accepts _,strings,peerCount]
  case login | register | created | peerJoined | peerLeft =>
    simp [(str16_accepts.pair str16_accepts) _,strings,peerCount]
  case loginErr | registerErr | joinErr => simp [u16_accepts _,strings,peerCount]
  case peersOnline => simp [peers_accepts _,strings,peerCount]
  case createSession => simp [u8_accepts _,strings,peerCount]
  case ping | pong => simp [u64_accepts _,strings,peerCount]
  case ack =>
    simp [(str16_accepts.pair (str16_accepts.pair u64_accepts)) _,strings,peerCount]
  case offer | answer =>
    simp [(u64_accepts.pair (str16_accepts.pair (str16_accepts.pair bytes32_accepts))) _,
      strings,peerCount]
  case candidate =>
    simp [(str16_accepts.pair (str16_accepts.pair (str16_accepts.pair (u16_accepts.pair bytes32_accepts)))) _,
      strings,peerCount]
  case bye sender dest r =>
    cases r <;> simp [(str16_accepts.pair (str16_accepts.pair reason_accepts)) _,
      strings,peerCount]
end RustyRtc.Signaling
