import RustyRtc.Core.Session
import RustyRtc.Rtcp.RoundTrip
import RustyRtc.Rtp.SendStream

/-! # One socket for four kinds of datagrams

The text of the handshake messages (`core/protocol.rs`), the receiver thread's choice of a handler by the
first octet (`core/session.rs`) and the media loop's choice between RTP and RTCP (`rtp_session_c.rs`).
-/
namespace RustyRtc.Core
open Srtp Rtp Rtcp
variable (repair : Bytes → String) (m : AppMsg)

def hex (token : UInt64) : Text := lowerHex 16 token.toNat
def encodeSyn (token : UInt64) : Text := "SYN".toList ++ ' ' :: hex token
def encodeSynack (your mine : UInt64) : Text := "SYN-ACK".toList ++ ' ' :: hex your ++ ' ' :: hex mine
def encodeAck (your : UInt64) : Text := "ACK".toList ++ ' ' :: hex your
def encodeFin (token : UInt64) : Text := "FIN".toList ++ ' ' :: hex token
def encodeFinack (your mine : UInt64) : Text := "FIN-ACK".toList ++ ' ' :: hex your ++ ' ' :: hex mine
def encodeFinack2 (your : UInt64) : Text := "FIN-ACK2".toList ++ ' ' :: hex your

def AppMsg.encode : AppMsg → Text
  | .syn token => encodeSyn token
  | .synAck your mine => encodeSynack your mine
  | .ack your => encodeAck your
  | .fin token => encodeFin token
  | .finAck your mine => encodeFinack your mine
  | .finAck2 your => encodeFinack2 your

def AppMsg.datagram (m : AppMsg) : Bytes := utf8 (String.ofList m.encode)
def parseHex (t : Text) : Option UInt64 := (parseHexU64 t).toOption

def parseAppMsg (repair : Bytes → String) (bytes : Bytes) : Option AppMsg :=
  let s := trim (fromUtf8Lossy repair bytes).toList
  match splitWhitespace s with
  | [] => none
  | kind :: it =>
    -- the first and the second call of `next` after the kind
    let first := it[0]?.bind parseHex
    let second := it[1]?.bind parseHex
    if kind = "SYN".toList then first.map .syn
    else if kind = "SYN-ACK".toList then first.bind fun your => second.map fun mine => .synAck your mine
    else if kind = "ACK".toList then first.map .ack
    else if kind = "FIN".toList then first.map .fin
    else if kind = "FIN-ACK".toList then first.bind fun your => second.map fun mine => .finAck your mine
    else if kind = "FIN-ACK2".toList then first.map .finAck2
    else none

inductive Handled where
  | sctp (pkt : Bytes)
  | media (pkt : Bytes)
  | mediaDropped
  | app (msg : AppMsg)
  | ignored
  deriving DecidableEq, Repr

/-- RTP and RTCP go to the media loop while the session is established and the loop's channel is there. -/
def mediaPath (s : Shared) (pkt : Bytes) : Handled :=
  if s.established && s.rtpMediaTx then .media pkt else .mediaDropped

/-- The body of the loop over the batch; an empty datagram never gets there. -/
def demultiplex (repair : Bytes → String) (s : Shared) (pkt : Bytes) : Handled :=
  let firstByte := pkt.getD 0 0
  if 20 ≤ firstByte ∧ firstByte ≤ 63 then .sctp pkt
  else if 128 ≤ firstByte ∧ firstByte ≤ 191 then mediaPath s pkt
  else (parseAppMsg repair pkt).elim .ignored .app
def isRtcp (pkt : Bytes) : Bool :=
  if pkt.length < 4 then false
  else if pkt.getD 0 0 >>> 6 ≠ 2 then false
  else 200 ≤ pkt.getD 1 0 && pkt.getD 1 0 ≤ 206
inductive MediaKind where
  | tooShort
  | rtcp
  | invalidHeader
  | rtp
  deriving DecidableEq, Repr
def mediaKind (pkt : Bytes) : MediaKind :=
  if pkt.length < 2 then .tooShort
  else if isRtcp pkt then .rtcp
  else if pkt.length < 12 ∨ pkt.getD 0 0 >>> 6 ≠ 2 then .invalidHeader
  else .rtp
theorem parseHex_hex (token : UInt64) : parseHex (hex token) = some token := by
  rw [parseHex,hex,parseHexU64_lowerHex]
  rfl

def AppMsg.words : AppMsg → List Text
  | .syn token => ["SYN".toList,hex token]
  | .synAck your mine => ["SYN-ACK".toList,hex your,hex mine]
  | .ack your => ["ACK".toList,hex your]
  | .fin token => ["FIN".toList,hex token]
  | .finAck your mine => ["FIN-ACK".toList,hex your,hex mine]
  | .finAck2 your => ["FIN-ACK2".toList,hex your]

theorem AppMsg.encode_eq : m.encode = List.intercalate [' '] m.words := by
  have htwo : ∀ t u : Text, t ++ ' ' :: u = List.intercalate [' '] [t,u] := by simp
  have hthree : ∀ t u v : Text, t ++ ' ' :: u ++ ' ' :: v = List.intercalate [' '] [t,u,v] := by simp
  cases m with
  | syn token => exact htwo _ _
  | synAck your mine => exact hthree _ _ _
  | ack your => exact htwo _ _
  | fin token => exact htwo _ _
  | finAck your mine => exact hthree _ _ _
  | finAck2 your => exact htwo _ _

theorem AppMsg.token_of_mem_words : ∀ t ∈ m.words, Token t := by
  have hhex : ∀ token, Token (hex token) := fun token => token_lowerHex 16 token.toNat
  have hkind : ∀ kind ∈ ["SYN".toList,"SYN-ACK".toList,"ACK".toList,"FIN".toList,"FIN-ACK".toList,"FIN-ACK2".toList],
      kind ≠ [] ∧ ∀ c ∈ kind, isWhitespace c = false := by decide
  cases m <;> simp only [words,List.forall_mem_cons,List.not_mem_nil,hhex,implies_true,and_true,
    false_imp_iff] <;> exact hkind _ (by decide)
theorem parseAppMsg_datagram (m : AppMsg) : parseAppMsg repair m.datagram = some m := by
  have htext : (fromUtf8Lossy repair m.datagram).toList = m.encode := by
    rw [AppMsg.datagram,fromUtf8Lossy_utf8,String.toList_ofList]
  rw [parseAppMsg,htext,m.encode_eq,trim_intercalate m.token_of_mem_words,
    splitWhitespace_intercalate m.token_of_mem_words]
  cases m <;> simp [AppMsg.words,parseHex_hex]

theorem AppMsg.first_datagram : 63 < m.datagram.getD 0 0 ∧ m.datagram.getD 0 0 < 128 := by
  have hletter : ∃ c ∈ ['S','A','F'], ∃ rest, m.encode = c :: rest := by
    cases m with
    | syn token | synAck your mine => exact ⟨'S',by decide,_,rfl⟩
    | ack your => exact ⟨'A',by decide,_,rfl⟩
    | fin token | finAck your mine | finAck2 your => exact ⟨'F',by decide,_,rfl⟩
  obtain ⟨c,hc,rest,hencode⟩ := hletter
  have hbyte : ∀ c ∈ ['S','A','F'], ∃ b, String.utf8EncodeChar c = [b] ∧ 63 < b ∧ b < 128 := by
    simp only [List.forall_mem_cons,List.not_mem_nil,false_imp_iff,implies_true,and_true]
    exact ⟨⟨_,rfl,by decide⟩,⟨_,rfl,by decide⟩,⟨_,rfl,by decide⟩⟩
  obtain ⟨b,hb,hrange⟩ := hbyte c hc
  rw [datagram,utf8_ofList,hencode,List.flatMap_cons,hb]
  exact hrange

theorem demultiplex_datagram (s : Shared) (m : AppMsg) : demultiplex repair s m.datagram = .app m := by
  obtain ⟨hlow,hhigh⟩ := m.first_datagram
  have hsctp : ¬ (20 ≤ m.datagram.getD 0 0 ∧ m.datagram.getD 0 0 ≤ 63) := fun h => UInt8.not_le.mpr hlow h.2
  have hmedia : ¬ (128 ≤ m.datagram.getD 0 0 ∧ m.datagram.getD 0 0 ≤ 191) := fun h => UInt8.not_le.mpr hhigh h.1
  rw [demultiplex,if_neg hsctp,if_neg hmedia,parseAppMsg_datagram]
  rfl

/-- What the media loop's channel does to a datagram of the media path. -/
def OnMediaPath (s : Shared) (pkt : Bytes) (h : Handled) : Prop :=
  (s.established = true ∧ s.rtpMediaTx = true → h = .media pkt) ∧
    ((s.established = true → s.rtpMediaTx = false) → h = .mediaDropped)

theorem demultiplex_of_version (s : Shared) {pkt : Bytes}
    (hversion : pkt.getD 0 0 >>> 6 = 2) : OnMediaPath s pkt (demultiplex repair s pkt) := by
  have hrange : ∀ b : UInt8, b >>> 6 = 2 → 128 ≤ b ∧ b ≤ 191 :=
    forall_byte (p := fun b => b >>> 6 = 2 → 128 ≤ b ∧ b ≤ 191) (by decide +kernel)
  have hmedia := hrange _ hversion
  have hsctp : ¬ (20 ≤ pkt.getD 0 0 ∧ pkt.getD 0 0 ≤ 63) := by
    intro h
    exact absurd (UInt8.le_trans hmedia.1 h.2) (by decide)
  rw [demultiplex,if_neg hsctp,if_pos hmedia,mediaPath]
  constructor
  · rintro ⟨hest,htx⟩
    simp [hest,htx]
  · intro hclosed
    cases hest : s.established with
    | false => rfl
    | true => simp [hclosed hest]

theorem mPt_not_rtcp (marker : Bool) {pt : UInt8} (hpt : pt < 128) (hreserved : ¬ (72 ≤ pt ∧ pt ≤ 78)) :
    ¬ ((200 : UInt8) ≤ marker.toUInt8 <<< 7 ||| pt &&& 0x7F ∧ marker.toUInt8 <<< 7 ||| pt &&& 0x7F ≤ (206 : UInt8)) := by
  have h : ∀ b : UInt8, ∀ m : Bool, b < 128 → ¬ (72 ≤ b ∧ b ≤ 78) →
      ¬ ((200 : UInt8) ≤ m.toUInt8 <<< 7 ||| b &&& 0x7F ∧ m.toUInt8 <<< 7 ||| b &&& 0x7F ≤ (206 : UInt8)) :=
    forall_byte (p := fun b => ∀ m : Bool, b < 128 → ¬ (72 ≤ b ∧ b ≤ 78) →
      ¬ ((200 : UInt8) ≤ m.toUInt8 <<< 7 ||| b &&& 0x7F ∧ m.toUInt8 <<< 7 ||| b &&& 0x7F ≤ (206 : UInt8)))
      (by decide +kernel)
  exact h pt marker hpt hreserved

theorem version_vpxcc (pad ext : Bool) (n : ℕ) :
    ((rtpVersion &&& 0b11) <<< 6 ||| (pad.toUInt8 <<< 5) ||| (ext.toUInt8 <<< 4) ||| UInt8.ofNat (n &&& 0x0F)) >>> 6 =
      2 := by
  have h : ∀ (pad ext : Bool) (cc : Fin 16), ((rtpVersion &&& 0b11) <<< 6 ||| (pad.toUInt8 <<< 5) |||
      (ext.toUInt8 <<< 4) ||| UInt8.ofNat cc) >>> 6 = 2 := by decide
  exact h pad ext ⟨n &&& 0x0F,Nat.lt_succ_of_le Nat.and_le_right⟩

theorem media_of_rtp {P : Primitives} {ctx : Option SrtpContext} {ssrc : UInt32} {p : RtpPacket}
    {encoded wire : Bytes} (hversion : p.header.version = rtpVersion) (hpt : p.payloadType < 128)
    (hreserved : ¬ (72 ≤ p.payloadType ∧ p.payloadType ≤ 78)) (hencode : p.encode = .ok encoded)
    (hprotect : (RtpSendStream.protect P ctx ssrc encoded).2 = .ok wire) :
    wire.getD 0 0 >>> 6 = 2 ∧ isRtcp wire = false ∧ mediaKind wire = .rtp := by
  obtain ⟨rest,rfl⟩ := RtpSendStream.encodeFixed_of_protect hencode hprotect
  have hfirst : (p.encodeFixed ++ rest).getD 0 0 >>> 6 = 2 := by
    simp only [RtpPacket.encodeFixed,hversion]
    exact version_vpxcc _ _ _
  have hlen : 12 ≤ (p.encodeFixed ++ rest).length := by
    rw [List.length_append]
    exact Nat.le_add_right 12 _
  have hnot : isRtcp (p.encodeFixed ++ rest) = false := by
    have hsecond := mPt_not_rtcp p.header.marker hpt hreserved
    rw [isRtcp,if_neg (by omega),if_neg (by simpa using hfirst),← Bool.not_eq_true,Bool.and_eq_true,
      decide_eq_true_eq,decide_eq_true_eq]
    exact hsecond
  refine ⟨hfirst,hnot,?_⟩
  rw [mediaKind,if_neg (by omega),hnot,if_neg Bool.false_ne_true,if_neg]
  rintro (hshort | hbad)
  · omega
  · exact hbad hfirst

theorem media_of_rtcp {pkts : List RtcpPacket} (hne : pkts ≠ []) {wire : Bytes}
    (hencode : RtcpPacket.encodeCompound pkts = .ok wire) :
    wire.getD 0 0 >>> 6 = 2 ∧ isRtcp wire = true ∧ mediaKind wire = .rtcp := by
  obtain ⟨p,ps,rfl⟩ := List.exists_cons_of_ne_nil hne
  obtain ⟨c,d,hc,-,rfl⟩ := writeAll_cons_eq_ok.mp hencode
  obtain ⟨rc,body,rfl,-⟩ := RtcpPacket.encodeInto_spec hc
  have hfirst : (finish rc p.packetType body ++ d).getD 0 0 >>> 6 = 2 := by
    rw [finish_eq]
    exact forall_byte (p := fun rc => (0x80 ||| (rc &&& 0x1F)) >>> 6 = (2 : UInt8)) (by decide +kernel) rc
  have hsecond : (finish rc p.packetType body ++ d).getD 1 0 = p.packetType := by
    rw [finish_eq]
    rfl
  have hlen : 4 ≤ (finish rc p.packetType body ++ d).length := by
    rw [List.length_append,finish_length]
    omega
  have htype : 200 ≤ p.packetType ∧ p.packetType ≤ 206 := by
    cases p <;> simp only [RtcpPacket.packetType] <;> decide
  have hrtcp : isRtcp (finish rc p.packetType body ++ d) = true := by
    rw [isRtcp,if_neg (by omega),if_neg (by simpa using hfirst),hsecond,Bool.and_eq_true,decide_eq_true_eq,
      decide_eq_true_eq]
    exact htype
  refine ⟨hfirst,hrtcp,?_⟩
  rw [mediaKind,if_neg (by omega),if_pos hrtcp]

/-- Whatever the program puts on the media socket reaches the handler it is meant for: handshake messages are
read back as they were, RTP (in clear or protected) and RTCP go to the media loop of an established session and
are told apart there, and DTLS records go to SCTP. A session that is not established, or has no media loop, drops
RTP and RTCP. -/
theorem demultiplexing_unambiguous (repair : Bytes → String) (P : Primitives) (s : Shared) :
    (∀ m : AppMsg, demultiplex repair s m.datagram = .app m) ∧
    (∀ (p : RtpPacket) (encoded : Bytes) (ctx : Option SrtpContext) (ssrc : UInt32) (wire : Bytes),
      p.header.version = rtpVersion → p.payloadType < 128 → ¬ (72 ≤ p.payloadType ∧ p.payloadType ≤ 78) →
      p.encode = .ok encoded → (RtpSendStream.protect P ctx ssrc encoded).2 = .ok wire →
      (s.established = true ∧ s.rtpMediaTx = true → demultiplex repair s wire = .media wire) ∧
      ((s.established = true → s.rtpMediaTx = false) → demultiplex repair s wire = .mediaDropped) ∧
      isRtcp wire = false ∧ mediaKind wire = .rtp) ∧
    (∀ (pkts : List RtcpPacket) (wire : Bytes), pkts ≠ [] → RtcpPacket.encodeCompound pkts = .ok wire →
      (s.established = true ∧ s.rtpMediaTx = true → demultiplex repair s wire = .media wire) ∧
      ((s.established = true → s.rtpMediaTx = false) → demultiplex repair s wire = .mediaDropped) ∧
      isRtcp wire = true ∧ mediaKind wire = .rtcp) ∧
    ∀ (b : UInt8) (record : Bytes), 20 ≤ b → b ≤ 63 → demultiplex repair s (b :: record) = .sctp (b :: record) := by
  refine ⟨demultiplex_datagram repair s,?_,?_,?_⟩
  · intro p encoded ctx ssrc wire hversion hpt hreserved hencode hprotect
    obtain ⟨hfirst,hkind⟩ := media_of_rtp hversion hpt hreserved hencode hprotect
    obtain ⟨hopen,hclosed⟩ := demultiplex_of_version repair s hfirst
    exact ⟨hopen,hclosed,hkind⟩
  · intro pkts wire hne hencode
    obtain ⟨hfirst,hkind⟩ := media_of_rtcp hne hencode
    obtain ⟨hopen,hclosed⟩ := demultiplex_of_version repair s hfirst
    exact ⟨hopen,hclosed,hkind⟩
  · intro b record hlow hhigh
    exact if_pos ⟨hlow,hhigh⟩

def started : Shared := (Session.start 5 (.ok ())).shared
def oneFrame : RtpPacket := .simple 96 true 65535 9000 7 [1,2,3]
theorem demultiplexing_unambiguous_established : ∃ wire, oneFrame.encode = .ok wire ∧
    demultiplex (fun _ => "") { started with established := true } wire = .media wire ∧ mediaKind wire = .rtp := by
  obtain ⟨-,hrtp,-⟩ := demultiplexing_unambiguous (fun _ => "") plainPrimitives { started with established := true }
  obtain ⟨hmedia,-,-,hkind⟩ := hrtp oneFrame _ none 7 _ rfl (by decide) (by decide) rfl rfl
  exact ⟨_,rfl,hmedia (by decide),hkind⟩

/-- A packet that comes before the session is established reaches no handler. -/
theorem media_dropped_before_established : ∃ wire, oneFrame.encode = .ok wire ∧
    (RtpSendStream.protect plainPrimitives none 7 wire).2 = .ok wire ∧
    demultiplex (fun _ => "") started wire = .mediaDropped :=
  ⟨_,rfl,rfl,by decide +kernel⟩
end RustyRtc.Core
