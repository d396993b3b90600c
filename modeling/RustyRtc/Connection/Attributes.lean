import RustyRtc.Ice.Agent

/-! # Candidates and codecs as attributes

`connection_manager/ice_and_sdp.rs` and `rtp_map.rs`: the values of `a=candidate` and `a=rtpmap`. The text
of an IPv6 address is the standard library's.
-/
namespace RustyRtc.Connection
open Ice

/-- `Ipv6Addr` as `Display` and `FromStr` have it. -/
structure Ipv6Text where
  fmt : BitVec 128 → Text
  fromStr : Text → Option (BitVec 128)
def noIpv6 : Ipv6Text := ⟨fun _ => [],fun _ => none⟩
def octet (s : Text) : Option UInt8 :=
  if s.length ≤ 3 ∧ (s.head? = some '0' → s.length = 1) ∧ s.all Char.isDigit then (parseU8 s).toOption else none

variable (v6 : Ipv6Text)
def fmtIp : IpAddr → Text
  | .v4 a b c d => List.intercalate ['.'] ([a,b,c,d].map fun x => decimal x.toNat)
  | .v6 bits => v6.fmt bits
def parseIp (s : Text) : Option IpAddr :=
  let quad : Option IpAddr := match s.splitOn '.' with
    | [a,b,c,d] => do return .v4 (← octet a) (← octet b) (← octet c) (← octet d)
    | _ => none
  quad.or ((v6.fromStr s).map .v6)

namespace IceAndSdp
def typ : CandidateType → Text
  | .host => "host".toList
  | .peerReflexive => "prflx".toList
  | .relayed => "relay".toList
  | .serverReflexive => "srflx".toList
def related (addr : SocketAddr) : Text :=
  "raddr ".toList ++ fmtIp v6 addr.ip ++ " rport ".toList ++ decimal addr.port.toNat

def fmt (c : Candidate) : Text :=
  c.foundation.toList ++ [' '] ++ decimal c.component.toNat ++ [' '] ++ c.transport.toList ++ [' '] ++
    decimal c.priority.toNat ++ [' '] ++ fmtIp v6 c.address.ip ++ [' '] ++ decimal c.address.port.toNat ++
    " typ ".toList ++ typ c.candType ++
    match c.relatedAddress with
    | some addr => ' ' :: related v6 addr
    | none => []

def parseTyp (s : Text) : Except String CandidateType :=
  if s = "host".toList then .ok .host
  else if s = "srflx".toList then .ok .serverReflexive
  else if s = "prflx".toList then .ok .peerReflexive
  else if s = "relay".toList then .ok .relayed
  else .error ("Unknown candidate type: " ++ String.ofList s)
def parseAddr (message : String) (s : Text) : Except String IpAddr :=
  match parseIp v6 s with
  | some ip => .ok ip
  | none => .error message

/-- The pairs of words after the type; a port that comes before its address is dropped. -/
def parseRelated : List Text → Option SocketAddr → Except String (Option SocketAddr)
  | key :: value :: rest,addr =>
    if key = "raddr".toList then do
      let ip ← parseAddr v6 "Invalid raddr IP" value
      parseRelated rest (some ⟨ip,0⟩)
    else if key = "rport".toList then do
      let port ← (parseU16 value).mapError fun _ => "Invalid rport value"
      parseRelated rest (addr.map fun a => { a with port })
    else parseRelated (value :: rest) addr
  | _,addr => .ok addr

def fromStr (s : Text) : Except String Candidate :=
  let s := trim s
  let s := if "candidate:".toList <+: s then s.drop "candidate:".length else s
  match splitWhitespace s with
  | foundation :: component :: transport :: priority :: ip :: port :: word :: typ :: rest => do
    let component ← (parseU8 component).mapError fun _ => "Invalid component"
    let priority ← (parseU32 priority).mapError fun _ => "Invalid priority"
    let ip ← parseAddr v6 "Invalid IP address" ip
    let port ← (parseU16 port).mapError fun _ => "Invalid port"
    if word ≠ "typ".toList then .error "Missing 'typ' token in candidate"
    else
      let candType ← parseTyp typ
      let relatedAddress ← parseRelated v6 rest none
      return ⟨String.ofList foundation,component,String.ofList transport,priority,⟨ip,port⟩,candType,relatedAddress,
        none⟩
  | _ => .error ("Invalid candidate string: '" ++ String.ofList s ++ "'")
end IceAndSdp

structure RtpMap where
  payloadType : UInt8
  encodingName : Text
  clockRate : UInt32
  encodingParams : Option UInt16
  deriving DecidableEq, Repr

inductive RtpMapParseError where
  | missingParts
  | invalidPayloadType
  | invalidClockRate
  | payloadTypeOutOfRange
  | trailingGarbage
  deriving DecidableEq, Repr

namespace RtpMap
def parseParams : Option Text → Except RtpMapParseError (Option UInt16)
  | none => .ok none
  | some p =>
    let p := trim p
    if p.isEmpty then .ok none
    else do
      let v ← (parseU16 p).mapError fun _ => .missingParts
      return if v = 0 then none else some v

def fromStr (s : Text) : Except RtpMapParseError RtpMap :=
  match splitWhitespace (trim s) with
  | [] | [_] => .error .missingParts
  | [pt,rhs] => do
    let payloadType ← (parseU8 pt).mapError fun _ => .invalidPayloadType
    if payloadType > 127 then .error .payloadTypeOutOfRange
    else
      let some (name,rest) := splitOnce '/' rhs | .error .missingParts
      let (clock,params) := match splitOnce '/' rest with
        | some (clock,params) => (clock,some params)
        | none => (rest,none)
      let clockRate ← (parseU32 (trim clock)).mapError fun _ => .invalidClockRate
      let encodingParams ← parseParams params
      return ⟨payloadType,trim name,clockRate,encodingParams⟩
  | _ => .error .trailingGarbage
end RtpMap
end RustyRtc.Connection
