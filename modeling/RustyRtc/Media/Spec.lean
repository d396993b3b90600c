import RustyRtc.Foundation.Bytes

/-! # Kinds of media

`media_agent/spec.rs`: what is negotiated, packetized and decoded.
-/
namespace RustyRtc

inductive MediaType where
  | video
  | audio
  deriving DecidableEq, Repr
inductive CodecSpec where
  | h264
  | g711u
  deriving DecidableEq, Repr
def CodecSpec.mediaType : CodecSpec → MediaType
  | .h264 => .video
  | .g711u => .audio
end RustyRtc
