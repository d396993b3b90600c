import RustyRtc.Foundation.Codec
import RustyRtc.Foundation.Text

/-! # RTCP packets

`rtcp`: the common header, the seven packet kinds and compound packets. The encoders append to a
buffer and patch the length field of what they appended, so each is given here by the bytes it
appends; every caller drops the buffer if an encoder fails. A decoder reads the payload that the
common header delimits and ignores what it leaves over, except where the source looks at it.
-/
namespace RustyRtc.Rtcp
open Reader
variable {b left : Bytes} (repair : Bytes → String)
def RTCP_VERSION : UInt8 := 2

def PT_SR : UInt8 := 200
def PT_RR : UInt8 := 201
def PT_SDES : UInt8 := 202
def PT_BYE : UInt8 := 203
def PT_APP : UInt8 := 204
def PT_RTPFB : UInt8 := 205
def PT_PSFB : UInt8 := 206

inductive RtcpError where
  | tooShort
  | badVersion (version : UInt8)
  | lengthMismatch
  | paddingTooShort
  | unknownPacketType (pt : UInt8)
  | truncated
  | invalid
  | sdesItemTooShort
  | sdesItemTooLong
  | tooManyReportBlocks (count : ℕ)
  | tooManySdesItems (count : ℕ)
  | tooManyByeSources (count : ℕ)
  deriving DecidableEq, Repr

structure CommonHeader where
  version : UInt8
  padding : Bool
  rcOrFmt : UInt8
  pt : UInt8
  lengthWords : UInt16
  deriving DecidableEq, Repr

namespace CommonHeader
def new (rcOrFmt pt : UInt8) (padding : Bool) : CommonHeader := ⟨RTCP_VERSION,padding,rcOrFmt,pt,0⟩

def decode (buf : Bytes) : Except RtcpError (CommonHeader × ℕ) :=
  if buf.length < 4 then .error .tooShort
  else
    let vprc := buf.getD 0 0
    let version := vprc >>> 6
    if version ≠ RTCP_VERSION then .error (.badVersion version)
    else
      let lengthWords := readU16 buf 2
      let total := (lengthWords.toNat + 1) * 4
      if buf.length < total then .error .tooShort
      else .ok (⟨version,(vprc >>> 5) &&& 1 != 0,vprc &&& 0x1F,buf.getD 1 0,lengthWords⟩,total)

def encodeInto (h : CommonHeader) : Bytes :=
  ((h.version &&& 3) <<< 6 ||| h.padding.toUInt8 <<< 5 ||| (h.rcOrFmt &&& 0x1F)) :: h.pt ::
    beBytes16 h.lengthWords
end CommonHeader
def padding (n : ℕ) : Bytes := .replicate ((4 - n % 4) % 4) 0

/-- How every encoder ends: header and contents, zeros, then the length field is overwritten. -/
def finish (rcOrFmt pt : UInt8) (body : Bytes) : Bytes :=
  let out := (CommonHeader.new rcOrFmt pt false).encodeInto ++ body
  let out := out ++ padding out.length
  let lenWords := out.length / 4 - 1
  (out.set 2 ((lenWords >>> 8) &&& 0xFF).toUInt8).set 3 (lenWords &&& 0xFF).toUInt8

structure ReportBlock where
  ssrc : UInt32
  fractionLost : UInt8
  cumulativeLost : Int32
  highestSeqNoReceived : UInt32
  interarrivalJitter : UInt32
  lsr : UInt32
  dlsr : UInt32
  deriving DecidableEq, Repr

/-- `clamp(-8_388_608, 8_388_607)`, then the low 24 bits. -/
def lostBytes (cumulativeLost : Int32) : Bytes :=
  let cl := if cumulativeLost < -8388608 then -8388608
    else if 8388607 < cumulativeLost then 8388607 else cumulativeLost
  let clU := cl.toUInt32 &&& 0x00FFFFFF
  [((clU >>> 16) &&& 0xFF).toUInt8,((clU >>> 8) &&& 0xFF).toUInt8,(clU &&& 0xFF).toUInt8]
def lostOf (x y z : UInt8) : Int32 :=
  let clRaw := x.toUInt32 <<< 16 ||| y.toUInt32 <<< 8 ||| z.toUInt32
  if clRaw &&& 0x800000 ≠ 0 then (clRaw ||| 0xFF000000).toInt32 else clRaw.toInt32
abbrev u8 : Reader RtcpError UInt8 := (Codec.u8 .tooShort).get
abbrev u16 : Reader RtcpError UInt16 := (Codec.u16 .tooShort).get
abbrev u32 : Reader RtcpError UInt32 := (Codec.u32 .tooShort).get

theorem length_of_u16 {x : UInt16} (h : u16.run b = .ok (x,left)) : b.length = left.length + 2 := by
  obtain ⟨-,c,hc,rfl⟩ := (Codec.u16 _).law.mp h
  cases hc
  rw [List.length_append,beBytes16_length,Nat.add_comm]
theorem length_of_u32 {x : UInt32} (h : u32.run b = .ok (x,left)) : b.length = left.length + 4 := by
  obtain ⟨-,c,hc,rfl⟩ := (Codec.u32 _).law.mp h
  cases hc
  rw [List.length_append,beBytes32_length,Nat.add_comm]

namespace ReportBlock
def decode : Reader RtcpError ReportBlock := atLeast 24 .tooShort do
  let ssrc ← u32
  let fractionLost ← u8
  let x ← u8
  let y ← u8
  let z ← u8
  let highestSeqNoReceived ← u32
  let interarrivalJitter ← u32
  let lsr ← u32
  let dlsr ← u32
  return ⟨ssrc,fractionLost,lostOf x y z,highestSeqNoReceived,interarrivalJitter,lsr,dlsr⟩

def encodeInto (rb : ReportBlock) : Bytes :=
  beBytes32 rb.ssrc ++ [rb.fractionLost] ++ lostBytes rb.cumulativeLost ++
    beBytes32 rb.highestSeqNoReceived ++ beBytes32 rb.interarrivalJitter ++ beBytes32 rb.lsr ++ beBytes32 rb.dlsr
def decodeBlocks (rc : UInt8) : Reader RtcpError (List ReportBlock) :=
  readMany (atLeast 24 .truncated decode) rc.toNat
end ReportBlock

structure SenderInfo where
  ntpMostSw : UInt32
  nowLeastSw : UInt32
  rtpTs : UInt32
  packetCount : UInt32
  octetCount : UInt32
  deriving DecidableEq, Repr

namespace SenderInfo
def decode : Reader RtcpError SenderInfo := atLeast 20 .tooShort do
  let ntpMostSw ← u32
  let nowLeastSw ← u32
  let rtpTs ← u32
  let packetCount ← u32
  let octetCount ← u32
  return ⟨ntpMostSw,nowLeastSw,rtpTs,packetCount,octetCount⟩

def encodeInto (i : SenderInfo) : Bytes :=
  beBytes32 i.ntpMostSw ++ beBytes32 i.nowLeastSw ++ beBytes32 i.rtpTs ++ beBytes32 i.packetCount ++
    beBytes32 i.octetCount
end SenderInfo

inductive SdesItem where
  | cname (s : String)
  | name (s : String)
  | email (s : String)
  | phone (s : String)
  | loc (s : String)
  | tool (s : String)
  | note (s : String)
  | priv (data : Bytes)
  | unknown (t : UInt8) (data : Bytes)
  deriving DecidableEq, Repr

namespace SdesItem
def typCode : SdesItem → UInt8
  | cname _ => 1
  | name _ => 2
  | email _ => 3
  | phone _ => 4
  | loc _ => 5
  | tool _ => 6
  | note _ => 7
  | priv _ => 8
  | unknown t _ => t

def asBytes : SdesItem → Bytes
  | cname s | name s | email s | phone s | loc s | tool s | note s => utf8 s
  | priv data => data
  | unknown _ data => data
def encodeInto (item : SdesItem) : Except RtcpError Bytes :=
  if item.asBytes.length > 255 then .error .sdesItemTooLong
  else .ok (item.typCode :: UInt8.ofNat item.asBytes.length :: item.asBytes)

def ofData (repair : Bytes → String) (t : UInt8) (data : Bytes) : SdesItem :=
  match t.toNat with
  | 1 => cname (fromUtf8Lossy repair data)
  | 2 => name (fromUtf8Lossy repair data)
  | 3 => email (fromUtf8Lossy repair data)
  | 4 => phone (fromUtf8Lossy repair data)
  | 5 => loc (fromUtf8Lossy repair data)
  | 6 => tool (fromUtf8Lossy repair data)
  | 7 => note (fromUtf8Lossy repair data)
  | 8 => priv data
  | _ => unknown t data
end SdesItem

structure SdesChunk where
  ssrc : UInt32
  items : List SdesItem
  deriving DecidableEq, Repr

namespace SdesChunk
def encodeInto (chunk : SdesChunk) : Except RtcpError Bytes := do
  let items ← writeAll SdesItem.encodeInto chunk.items
  let out := beBytes32 chunk.ssrc ++ items ++ [0]
  return out ++ padding out.length

/-- The items from position `idx` of the chunk on, up to END and the zeros after it. A chunk may also
stop, without END, where the payload does. -/
def decodeItems (repair : Bytes → String) (idx : ℕ) : Bytes → Except RtcpError (List SdesItem × Bytes)
  | [] => .ok ([],[])
  | t :: buf =>
    if t = 0 then
      let pad := (4 - (idx + 1) % 4) % 4
      if buf.length < pad then .error .truncated else .ok ([],buf.drop pad)
    else
      match buf with
      | [] => .error .sdesItemTooShort
      | len :: buf =>
        if buf.length < len.toNat then .error .sdesItemTooShort
        else do
          let (items,left) ← decodeItems repair (idx + 2 + len.toNat) (buf.drop len.toNat)
          return (.ofData repair t (buf.take len.toNat) :: items,left)
termination_by b => b.length
decreasing_by
  rw [List.length_drop, List.length_cons, List.length_cons]
  omega

def decode (repair : Bytes → String) : Reader RtcpError SdesChunk := atLeast 4 .tooShort do
  let ssrc ← u32
  let items ← decodeItems repair 4
  return ⟨ssrc,items⟩
end SdesChunk
structure SenderReport where
  ssrc : UInt32
  info : SenderInfo
  reports : List ReportBlock
  profileExt : Bytes
  deriving DecidableEq, Repr
structure ReceiverReport where
  ssrc : UInt32
  reports : List ReportBlock
  profileExt : Bytes
  deriving DecidableEq, Repr

structure Sdes where
  chunks : List SdesChunk
  deriving DecidableEq, Repr
structure Bye where
  sources : List UInt32
  reason : Option String
  deriving DecidableEq, Repr
structure App where
  subtype : UInt8
  name : Vector UInt8 4
  ssrc : UInt32
  data : Bytes
  deriving DecidableEq, Repr
structure GenericNack where
  senderSsrc : UInt32
  mediaSsrc : UInt32
  entries : List (UInt16 × UInt16)
  deriving DecidableEq, Repr
structure PictureLossIndication where
  senderSsrc : UInt32
  mediaSsrc : UInt32
  deriving DecidableEq, Repr

inductive RtcpPacket where
  | sr (p : SenderReport)
  | rr (p : ReceiverReport)
  | sdes (p : Sdes)
  | bye (p : Bye)
  | app (p : App)
  | nack (p : GenericNack)
  | pli (p : PictureLossIndication)
  deriving DecidableEq, Repr

namespace SenderReport
def MAX_RC : ℕ := 31
def encodeInto (p : SenderReport) : Except RtcpError Bytes :=
  if p.reports.length > MAX_RC then .error (.tooManyReportBlocks p.reports.length)
  else .ok (finish (.ofNat p.reports.length) PT_SR
    (beBytes32 p.ssrc ++ p.info.encodeInto ++ p.reports.flatMap ReportBlock.encodeInto ++ p.profileExt))

def decode (hdr : CommonHeader) : Reader RtcpError RtcpPacket := atLeast 24 .tooShort do
  let ssrc ← u32
  let info ← SenderInfo.decode
  let reports ← ReportBlock.decodeBlocks hdr.rcOrFmt
  let profileExt ← rest
  return .sr ⟨ssrc,info,reports,profileExt⟩
end SenderReport

namespace ReceiverReport

/-- Unlike the sender report, no limit on the number of blocks. -/
def encodeInto (p : ReceiverReport) : Except RtcpError Bytes :=
  .ok (finish (.ofNat p.reports.length) PT_RR
    (beBytes32 p.ssrc ++ p.reports.flatMap ReportBlock.encodeInto ++ p.profileExt))
def decode (hdr : CommonHeader) : Reader RtcpError RtcpPacket := atLeast 4 .tooShort do
  let ssrc ← u32
  let reports ← ReportBlock.decodeBlocks hdr.rcOrFmt
  let profileExt ← rest
  return .rr ⟨ssrc,reports,profileExt⟩
end ReceiverReport

theorem SdesChunk.decodeItems_length {repair : Bytes → String} {idx : ℕ}
    {items : List SdesItem} (h : SdesChunk.decodeItems repair idx b = .ok (items,left)) : left.length ≤ b.length := by
  fun_induction SdesChunk.decodeItems repair idx b generalizing items left with
  | case1 =>
    cases h
    exact Nat.le_refl _
  | case2 => cases h
  | case3 =>
    cases h
    simp only [List.length_drop,List.length_cons]
    omega
  | case4 => cases h
  | case5 => cases h
  | case6 idx t ht len buf hlen ih =>
    obtain ⟨⟨items',left'⟩,hrec,hret⟩ := bind_eq_ok.mp h
    cases hret
    have hle := ih hrec
    simp only [List.length_drop,List.length_cons] at hle ⊢
    omega

theorem SdesChunk.decode_consumes : (SdesChunk.decode repair).Consumes := by
  intro b chunk left h
  have hrun := run_of_atLeast h
  obtain ⟨ssrc,mid,hssrc,hrun⟩ := run_bind_eq_ok.mp hrun
  obtain ⟨items,mid',hitems,hrun⟩ := run_bind_eq_ok.mp hrun
  obtain ⟨-,rfl⟩ := run_pure_eq_ok.mp hrun
  have hlen := length_of_u32 hssrc
  have hle := SdesChunk.decodeItems_length hitems
  omega

namespace Sdes
def encodeInto (p : Sdes) : Except RtcpError Bytes := do
  let chunks ← writeAll SdesChunk.encodeInto p.chunks
  return finish (.ofNat p.chunks.length) PT_SDES chunks

/-- The count of the header is not looked at. -/
def decode (repair : Bytes → String) (_hdr : CommonHeader) : Reader RtcpError RtcpPacket := do
  let payload ← rest
  let chunks ← StateT.lift (readAll (SdesChunk.decode repair) (SdesChunk.decode_consumes repair) 4 .truncated payload)
  return .sdes ⟨chunks⟩
end Sdes

namespace Bye

/-- A reason too long for its length byte is written behind a zero: `u8::try_from(len).unwrap_or(0)`. -/
def reasonBytes : Option String → Bytes
  | none => []
  | some reason =>
    let rbytes := utf8 reason
    (if rbytes.length ≤ 255 then UInt8.ofNat rbytes.length else 0) :: rbytes ++ padding (1 + rbytes.length)
def encodeInto (p : Bye) : Except RtcpError Bytes :=
  if p.sources.length ≥ 31 then .error (.tooManyByeSources p.sources.length)
  else .ok (finish (.ofNat p.sources.length) PT_BYE (p.sources.flatMap beBytes32 ++ reasonBytes p.reason))
def decodeReason (repair : Bytes → String) : Reader RtcpError (Option String)
  | [] => .ok (none,[])
  | len :: buf =>
    if buf.length < len.toNat then .error .truncated
    else .ok (some (fromUtf8Lossy repair (buf.take len.toNat)),buf.drop len.toNat)
def decode (repair : Bytes → String) (hdr : CommonHeader) : Reader RtcpError RtcpPacket :=
  atLeast (hdr.rcOrFmt.toNat * 4) .truncated do
    let sources ← readMany u32 hdr.rcOrFmt.toNat
    let reason ← decodeReason repair
    return .bye ⟨sources,reason⟩
end Bye

namespace App
def encodeInto (p : App) : Except RtcpError Bytes :=
  .ok (finish (p.subtype &&& 0x1F) PT_APP (beBytes32 p.ssrc ++ p.name.toList ++ p.data))
def name4 : Reader RtcpError (Vector UInt8 4) := do
  let a ← u8
  let b ← u8
  let c ← u8
  let d ← u8
  return #v[a,b,c,d]
def decode (hdr : CommonHeader) : Reader RtcpError RtcpPacket := atLeast 8 .tooShort do
  let ssrc ← u32
  let name ← name4
  let data ← rest
  return .app ⟨hdr.rcOrFmt &&& 0x1F,name,ssrc,data⟩
end App
def GenericNack.entry : Reader RtcpError (UInt16 × UInt16) := do return (← u16,← u16)

theorem GenericNack.entry_consumes : GenericNack.entry.Consumes := by
  intro b e left h
  obtain ⟨pid,mid,hpid,h⟩ := run_bind_eq_ok.mp h
  obtain ⟨blp,mid',hblp,h⟩ := run_bind_eq_ok.mp h
  obtain ⟨-,rfl⟩ := run_pure_eq_ok.mp h
  have h₁ := length_of_u16 hpid
  have h₂ := length_of_u16 hblp
  omega

namespace GenericNack
def encodeInto (p : GenericNack) : Except RtcpError Bytes :=
  .ok (finish 1 PT_RTPFB (beBytes32 p.senderSsrc ++ beBytes32 p.mediaSsrc ++
    p.entries.flatMap fun e => beBytes16 e.1 ++ beBytes16 e.2))

def decode (hdr : CommonHeader) : Reader RtcpError RtcpPacket := atLeast 8 .tooShort do
  let senderSsrc ← u32
  let mediaSsrc ← u32
  if hdr.rcOrFmt = 1 then
    let entries ← StateT.lift (readAll entry entry_consumes 4 .truncated (← rest))
    return .nack ⟨senderSsrc,mediaSsrc,entries⟩
  else throw .invalid
end GenericNack

namespace PictureLossIndication
def encodeInto (p : PictureLossIndication) : Except RtcpError Bytes :=
  .ok (finish 1 PT_PSFB (beBytes32 p.senderSsrc ++ beBytes32 p.mediaSsrc))
def decode (hdr : CommonHeader) : Reader RtcpError RtcpPacket := atLeast 8 .tooShort do
  let senderSsrc ← u32
  let mediaSsrc ← u32
  if hdr.rcOrFmt = 1 then return .pli ⟨senderSsrc,mediaSsrc⟩ else throw .invalid
end PictureLossIndication

namespace RtcpPacket
def encodeInto : RtcpPacket → Except RtcpError Bytes
  | sr p => p.encodeInto
  | rr p => p.encodeInto
  | sdes p => p.encodeInto
  | bye p => p.encodeInto
  | app p => p.encodeInto
  | nack p => p.encodeInto
  | pli p => p.encodeInto

def encodeCompound (pkts : List RtcpPacket) : Except RtcpError Bytes := writeAll encodeInto pkts

def decodeBody (repair : Bytes → String) (hdr : CommonHeader) : Reader RtcpError RtcpPacket :=
  if hdr.pt = PT_SR then SenderReport.decode hdr
  else if hdr.pt = PT_RR then ReceiverReport.decode hdr
  else if hdr.pt = PT_SDES then Sdes.decode repair hdr
  else if hdr.pt = PT_BYE then Bye.decode repair hdr
  else if hdr.pt = PT_APP then App.decode hdr
  else if hdr.pt = PT_RTPFB then GenericNack.decode hdr
  else if hdr.pt = PT_PSFB then PictureLossIndication.decode hdr
  else throw (.unknownPacketType hdr.pt)

def stripPadding (hdr : CommonHeader) (pktBytes : Bytes) : Except RtcpError Bytes :=
  let payload := pktBytes.drop 4
  if hdr.padding then
    if payload.isEmpty then .error .paddingTooShort
    else
      match pktBytes.getLast? with
      | none => .error .invalid
      | some last =>
        let pad := last.toNat
        if pad = 0 ∨ pad > payload.length then .error .paddingTooShort
        else .ok (payload.take (payload.length - pad))
  else .ok payload

def decodeOne (repair : Bytes → String) : Reader RtcpError RtcpPacket := fun buf => do
  let (hdr,total) ← CommonHeader.decode buf
  if total < 4 ∨ buf.length < total then throw .truncated
  let payload ← stripPadding hdr (buf.take total)
  let (pkt,_) ← (decodeBody repair hdr).run payload
  return (pkt,buf.drop total)

theorem decodeOne_consumes : (decodeOne repair).Consumes := by
  intro b pkt left h
  obtain ⟨⟨hdr,total⟩,-,h⟩ := bind_eq_ok.mp h
  dsimp only at h
  split at h
  · cases h
  · next hbounds =>
    obtain ⟨-,-,h⟩ := bind_eq_ok.mp h
    obtain ⟨payload,-,h⟩ := bind_eq_ok.mp h
    obtain ⟨⟨pkt',_⟩,-,h⟩ := bind_eq_ok.mp h
    cases h
    rw [List.length_drop]
    omega

def decodeCompound (repair : Bytes → String) (buf : Bytes) : Except RtcpError (List RtcpPacket) :=
  if buf.length < 4 then .error .tooShort
  else readAll (decodeOne repair) (decodeOne_consumes repair) 4 .tooShort buf
end RtcpPacket
end RustyRtc.Rtcp
