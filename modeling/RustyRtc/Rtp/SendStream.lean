import RustyRtc.Rtp.WireFormat
import RustyRtc.Srtp.Context

/-! # The send streams of a session

`rtp_send_stream.rs` and the map of streams in `rtp_session_c.rs` that share one outbound SRTP context.
The result of the socket and the clock reading are inputs of each call. A datagram is on the wire when
`send_to` succeeds.
-/
namespace RustyRtc.Rtp
open Srtp

inductive RtpSendError where
  | network
  | rtp (e : RtpError)
  | srtp (message : String)
  deriving DecidableEq, Repr
inductive RtpSessionError where
  | sendStreamMissing (ssrc : UInt32)
  | sendStream (source : RtpSendError) (ssrc : UInt32)
  deriving DecidableEq, Repr

/-- Of the codec only its payload type is read here. -/
structure RtpSendStream where
  payloadType : UInt8
  localSsrc : UInt32
  seq : UInt16
  timestamp : UInt32
  packetCount : UInt32
  octetCount : UInt32
  lastPktSent : ℕ
  deriving DecidableEq, Repr

/-- A payload given to `send_rtp_payload`, with what the socket and the clock answer. -/
structure Payload where
  bytes : Bytes
  timestamp : UInt32
  marker : Bool
  sent : Bool
  now : ℕ
  deriving DecidableEq, Repr

structure Sending where
  stream : RtpSendStream
  srtpContext : Option SrtpContext
  datagram : Option Bytes
  result : Except RtpSendError Unit

namespace RtpSendStream
def new (payloadType : UInt8) (localSsrc : UInt32) (seq : UInt16) (timestamp : UInt32) (now : ℕ) :
    RtpSendStream :=
  ⟨payloadType,localSsrc,seq,timestamp,0,0,now⟩
def protect (P : Primitives) (ctx : Option SrtpContext) (ssrc : UInt32) (encoded : Bytes) :
    Option SrtpContext × Except String Bytes :=
  match ctx with
  | none => (none, .ok encoded)
  | some ctx => ((ctx.protect P ssrc encoded).map some id)
def packet (st : RtpSendStream) (p : Payload) : RtpPacket :=
  .simple st.payloadType p.marker st.seq p.timestamp st.localSsrc p.bytes

def sendRtpPayload (P : Primitives) (st : RtpSendStream) (ctx : Option SrtpContext) (p : Payload) : Sending :=
  match (st.packet p).encode with
  | .error e => ⟨st,ctx,none, .error (.rtp e)⟩
  | .ok encoded =>
    match protect P ctx st.localSsrc encoded with
    | (ctx, .error e) => ⟨st,ctx,none, .error (.srtp ("[SRTP] could not protect packet: " ++ e))⟩
    | (ctx, .ok encoded) =>
      if p.sent then
        let st := { st with
          lastPktSent := p.now
          seq := st.seq + 1
          packetCount := st.packetCount + 1
          octetCount := st.octetCount + UInt32.ofNat p.bytes.length
          timestamp := p.timestamp }
        ⟨st,ctx,some encoded, .ok ()⟩
      else ⟨st,ctx,none, .error .network⟩

theorem encodeFixed_of_protect {P : Primitives} {ctx : Option SrtpContext} {ssrc : UInt32} {p : RtpPacket}
    {encoded wire : Bytes} (hencode : p.encode = .ok encoded)
    (hprotect : (protect P ctx ssrc encoded).2 = .ok wire) : ∃ rest, wire = p.encodeFixed ++ rest := by
  obtain ⟨ext,-,hencoded⟩ := RtpPacket.encode_eq_ok.mp hencode
  cases ctx with
  | none =>
    obtain rfl : encoded = wire := Except.ok.inj hprotect
    exact ⟨_,hencoded⟩
  | some ctx =>
    have hctx : (ctx.protect P ssrc encoded).2 = .ok wire := hprotect
    have hfixed : wire.take 12 = p.encodeFixed := by
      rw [(SrtpContext.take_of_protect hctx).2,hencoded]
      rfl
    exact ⟨wire.drop 12,by rw [← hfixed,List.take_append_drop]⟩
end RtpSendStream

/-- `send_streams`, with the outbound context that all of them share. Each stream stands under its own SSRC. -/
structure SendSide where
  srtpOutbound : Option SrtpContext
  sendStreams : UInt32 → Option RtpSendStream
  keyed : ∀ {ssrc st}, sendStreams ssrc = some st → st.localSsrc = ssrc

theorem RtpSendStream.sendRtpPayload_localSsrc (P : Primitives) (st : RtpSendStream) (ctx : Option SrtpContext)
    (p : Payload) : (st.sendRtpPayload P ctx p).stream.localSsrc = st.localSsrc := by
  unfold sendRtpPayload
  split
  · rfl
  · split
    · rfl
    · split <;> rfl

namespace SendSide
def put (s : SendSide) {ssrc : UInt32} {st : RtpSendStream} (hst : s.sendStreams ssrc = some st) (after : Sending)
    (h : after.stream.localSsrc = st.localSsrc) : SendSide where
  srtpOutbound := after.srtpContext
  sendStreams := Function.update s.sendStreams ssrc (some after.stream)
  keyed := by
    intro other st' hst'
    by_cases hother : other = ssrc
    · subst hother
      rw [Function.update_self, Option.some.injEq] at hst'
      rw [← hst', h, s.keyed hst]
    · rw [Function.update_of_ne hother] at hst'
      exact s.keyed hst'

structure Call where
  localSsrc : UInt32
  payload : Payload
  deriving DecidableEq, Repr

def sendRtpPayload (P : Primitives) (s : SendSide) (c : Call) :
    SendSide × Option Bytes × Except RtpSessionError Unit :=
  match hst : s.sendStreams c.localSsrc with
  | none => (s,none, .error (.sendStreamMissing c.localSsrc))
  | some st =>
    let after := st.sendRtpPayload P s.srtpOutbound c.payload
    (s.put hst after (st.sendRtpPayload_localSsrc P _ _),after.datagram,
      after.result.mapError fun source => .sendStream source c.localSsrc)
end SendSide
end RustyRtc.Rtp
