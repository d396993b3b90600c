import RustyRtc.Foundation.Codec

/-! # RTP packets

The packet record of `rtp_packet.rs` with its encoder and decoder, with the header flags, the
CSRC list, the extension and the padding laid out as the source writes and reads them. The
decoder's `idx` is the start of what is left to read.
-/
namespace RustyRtc.Rtp
open Reader

def rtpVersion : UInt8 := 2

inductive RtpError where
  | tooShort
  | badVersion (version : UInt8)
  | csrcCountMismatch (expected bufLeft : ℕ)
  | headerExtensionTooShort
  | headerExtensionTooLong
  | paddingTooShort
  | invalid
  deriving DecidableEq, Repr

structure RtpHeaderExtension where
  profile : UInt16
  data : Bytes
  deriving DecidableEq, Repr

structure RtpHeader where
  version : UInt8
  padding : Bool
  extension : Bool
  marker : Bool
  payloadType : UInt8
  sequenceNumber : UInt16
  timestamp : UInt32
  ssrc : UInt32
  csrcs : List UInt32
  headerExtension : Option RtpHeaderExtension
  deriving DecidableEq, Repr

def RtpHeader.new (payloadType : UInt8) (sequenceNumber : UInt16) (timestamp ssrc : UInt32) : RtpHeader where
  version := rtpVersion
  padding := false
  extension := false
  marker := false
  payloadType := payloadType
  sequenceNumber := sequenceNumber
  timestamp := timestamp
  ssrc := ssrc
  csrcs := []
  headerExtension := none

def RtpHeader.withMarker (h : RtpHeader) (marker : Bool) : RtpHeader := { h with marker := marker }

/-- `payload` excludes the padding, which is only counted. -/
structure RtpPacket where
  header : RtpHeader
  payload : Bytes
  paddingBytes : UInt8
  deriving DecidableEq, Repr

namespace RtpPacket
def new (header : RtpHeader) (payload : Bytes) : RtpPacket := ⟨header,payload,0⟩
def simple (payloadType : UInt8) (marker : Bool) (seq : UInt16) (ts ssrc : UInt32) (payload : Bytes) :
    RtpPacket := new ((RtpHeader.new payloadType seq ts ssrc).withMarker marker) payload
def payloadType (p : RtpPacket) : UInt8 := p.header.payloadType
def marker (p : RtpPacket) : Bool := p.header.marker
def seq (p : RtpPacket) : UInt16 := p.header.sequenceNumber
def timestamp (p : RtpPacket) : UInt32 := p.header.timestamp
def ssrc (p : RtpPacket) : UInt32 := p.header.ssrc

/-- The twelve fixed octets; `cc` keeps only the low four bits of the CSRC count. -/
def encodeFixed (p : RtpPacket) : Bytes :=
  let cc := UInt8.ofNat (p.header.csrcs.length &&& 0x0F)
  let hasExt := p.header.headerExtension.isSome
  let hasPad := decide (p.paddingBytes > 0)
  let vpxcc := (p.header.version &&& 0b11) <<< 6 ||| (hasPad.toUInt8 <<< 5) ||| (hasExt.toUInt8 <<< 4) ||| cc
  let mPt := (p.header.marker.toUInt8 <<< 7) ||| (p.header.payloadType &&& 0x7F)
  vpxcc :: mPt ::
    (beBytes16 p.header.sequenceNumber ++ beBytes32 p.header.timestamp ++ beBytes32 p.header.ssrc)

/-- The extension is refused when its length in words, taken as `u32`, exceeds sixteen bits. -/
def encodeExtension : Option RtpHeaderExtension → Except RtpError Bytes
  | none => .ok []
  | some ext =>
    let words := UInt32.ofNat ((ext.data.length + 3) / 4)
    if words > 65535 then .error .headerExtensionTooLong
    else
      let pad := (4 - ext.data.length % 4) % 4
      .ok (beBytes16 ext.profile ++ beBytes16 words.toUInt16 ++ ext.data ++ List.replicate pad 0)

def encodePadding (paddingBytes : UInt8) : Bytes :=
  if paddingBytes > 0 then List.replicate (paddingBytes.toNat - 1) 0 ++ [paddingBytes] else []
def encode (p : RtpPacket) : Except RtpError Bytes :=
  match encodeExtension p.header.headerExtension with
  | .error e => .error e
  | .ok ext =>
    .ok (p.encodeFixed ++ p.header.csrcs.flatMap beBytes32 ++ ext ++ p.payload ++ encodePadding p.paddingBytes)
def simpleHeader (payloadType : UInt8) (marker : Bool) (seq : UInt16) (ts ssrc : UInt32) : Bytes :=
  0x80 :: (marker.toUInt8 <<< 7 ||| payloadType &&& 0x7F) :: (beBytes16 seq ++ beBytes32 ts ++ beBytes32 ssrc)

theorem encode_simple (payloadType : UInt8) (marker : Bool) (seq : UInt16) (ts ssrc : UInt32) (payload : Bytes) :
    (simple payloadType marker seq ts ssrc payload).encode =
      .ok (simpleHeader payloadType marker seq ts ssrc ++ payload) := by
  have hfixed : (simple payloadType marker seq ts ssrc payload).encodeFixed =
      simpleHeader payloadType marker seq ts ssrc := by
    simp [simple,new,RtpHeader.new,RtpHeader.withMarker,encodeFixed,simpleHeader,rtpVersion]
    decide
  simp only [encode,hfixed]
  simp [simple,new,RtpHeader.new,RtpHeader.withMarker,encodeExtension,encodePadding]

abbrev u16 : Reader RtpError UInt16 := (Codec.u16 .invalid).get
abbrev u32 : Reader RtpError UInt32 := (Codec.u32 .invalid).get
def decodeCsrcs (cc : ℕ) : Reader RtpError (List UInt32) := fun b =>
  if b.length < cc * 4 then .error (.csrcCountMismatch cc b.length) else (readMany u32 cc).run b

def decodeExtension (extension : Bool) : Reader RtpError (Option RtpHeaderExtension) :=
  if extension then atLeast 4 .headerExtensionTooShort do
    let profile ← u16
    let lengthWords ← u16
    let data ← Codec.take .headerExtensionTooShort (lengthWords.toNat * 4)
    return some ⟨profile,data⟩
  else pure none

/-- The payload, and the padding count that its last octet gives if the P bit is set. -/
def decodePayload (padding : Bool) (b : Bytes) : Except RtpError (Bytes × UInt8) :=
  if padding then
    if b.isEmpty then .error .paddingTooShort
    else
      let pad := b.getLastD 0
      if pad = 0 then .error .paddingTooShort
      else if pad.toNat > b.length then .error .paddingTooShort
      else .ok (b.take (b.length - pad.toNat),pad)
  else .ok (b,0)

def decode (buf : Bytes) : Except RtpError RtpPacket :=
  if buf.length < 12 then .error .tooShort
  else
    let vpxcc := buf.getD 0 0
    let mPt := buf.getD 1 0
    let version := (vpxcc >>> 6) &&& 0b11
    if version ≠ rtpVersion then .error (.badVersion version)
    else do
      let padding := ((vpxcc >>> 5) &&& 1) != 0
      let extension := ((vpxcc >>> 4) &&& 1) != 0
      let cc := (vpxcc &&& 0x0F).toNat
      let marker := (mPt >>> 7) != 0
      let payloadType := mPt &&& 0x7F
      let (csrcs,b) ← (decodeCsrcs cc).run (buf.drop 12)
      let (headerExtension,b) ← (decodeExtension extension).run b
      let (payload,paddingBytes) ← decodePayload padding b
      return {
        header := {
          version, padding, extension, marker, payloadType
          sequenceNumber := readU16 buf 2
          timestamp := readU32 buf 4
          ssrc := readU32 buf 8
          csrcs, headerExtension }
        payload, paddingBytes }
end RtpPacket
end RustyRtc.Rtp
