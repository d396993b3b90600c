import RustyRtc.Foundation.Text

/-! # The lines of a session description

`sdp/*.rs`: what stands on the lines of a description, with the reader (`FromStr`) and the writer
(`Display`) of each kind of line. A block of several lines is written as the list of its lines.
-/
namespace RustyRtc.Sdp
inductive SdpError where
  | missing (field : String)
  | invalid (field : String)
  | parseInt (kind : IntErrorKind)
  | addrType
  deriving DecidableEq, Repr
def number {α : Type} (r : Except IntErrorKind α) : Except SdpError α := r.mapError .parseInt
inductive AddrType where
  | ip4
  | ip6
  deriving DecidableEq, Repr

namespace AddrType
def fmt : AddrType → Text
  | .ip4 => "IP4".toList
  | .ip6 => "IP6".toList
def fromStr (s : Text) : Except SdpError AddrType :=
  if s = "IP4".toList then .ok .ip4
  else if s = "IP6".toList then .ok .ip6
  else .error .addrType
end AddrType
structure Attribute where
  key : Text
  value : Option Text
  deriving DecidableEq, Repr

namespace Attribute
def fromStr (s : Text) : Attribute :=
  match splitOnce ':' s with
  | some (k,v) => ⟨trim k,some (trim v)⟩
  | none => ⟨trim s,none⟩
def fmt (a : Attribute) : Text :=
  match a.value with
  | some v => a.key ++ [':'] ++ v
  | none => a.key
end Attribute
structure Bandwidth where
  bwtype : Text
  bandwidth : UInt64
  deriving DecidableEq, Repr

namespace Bandwidth
def fromStr (s : Text) : Except SdpError Bandwidth :=
  match splitOnce ':' s with
  | some (typ,val) => return ⟨typ,← number (parseU64 val)⟩
  | none => .error (.invalid "b=")
def fmt (b : Bandwidth) : Text := b.bwtype ++ [':'] ++ decimal b.bandwidth.toNat
end Bandwidth
structure Connection where
  netType : Text
  addrType : AddrType
  connAddress : Text
  deriving DecidableEq, Repr

namespace Connection
def fromStr (s : Text) : Except SdpError Connection :=
  match splitWhitespace s with
  | [netType,addrType,address] => return ⟨netType,← AddrType.fromStr addrType,address⟩
  | _ => .error (.invalid "c=")
def fmt (c : Connection) : Text := c.netType ++ [' '] ++ c.addrType.fmt ++ [' '] ++ c.connAddress
end Connection

structure Origin where
  username : Text
  sessionId : UInt64
  sessionVersion : UInt64
  netType : Text
  addrType : AddrType
  unicastAddress : Option Text
  deriving DecidableEq, Repr

namespace Origin

/-- `ntp_seconds` is the caller's. -/
def newBlank (ntpSeconds : UInt64) : Origin := ⟨['-'],ntpSeconds,ntpSeconds,"IN".toList, .ip4,none⟩

def fromStr (s : Text) : Except SdpError Origin :=
  match splitWhitespace s with
  | username :: sessionId :: sessionVersion :: netType :: addrType :: rest => do
    let sessionId ← number (parseU64 sessionId)
    let sessionVersion ← number (parseU64 sessionVersion)
    let addrType ← AddrType.fromStr addrType
    return ⟨username,sessionId,sessionVersion,netType,addrType,rest.head?⟩
  | _ => .error (.invalid "o=")

/-- An address comes after two spaces, and one space is left where there is none. -/
def fmt (o : Origin) : Text :=
  o.username ++ [' '] ++ decimal o.sessionId.toNat ++ [' '] ++ decimal o.sessionVersion.toNat ++ [' '] ++
    o.netType ++ [' '] ++ o.addrType.fmt ++ [' '] ++
    match o.unicastAddress with
    | some address => ' ' :: address
    | none => []
end Origin

structure TimeDesc where
  start : UInt64
  stop : UInt64
  repeats : List Text
  zone : Option Text
  deriving DecidableEq, Repr

namespace TimeDesc
def newBlank : TimeDesc := ⟨0,0,[],none⟩
def addRepeat (t : TimeDesc) (line : Text) : TimeDesc := { t with repeats := t.repeats ++ [line] }
def setZone (t : TimeDesc) (zone : Option Text) : TimeDesc := { t with zone }

def fromStr (s : Text) : Except SdpError TimeDesc :=
  match splitWhitespace s with
  | start :: stop :: _ => do
    let start ← number (parseU64 start)
    let stop ← number (parseU64 stop)
    return ⟨start,stop,[],none⟩
  | _ => .error (.invalid "t=")

def fmtLines (t : TimeDesc) : List Text :=
  ("t=".toList ++ decimal t.start.toNat ++ [' '] ++ decimal t.stop.toNat) ::
    (t.repeats.map ("r=".toList ++ ·) ++ (t.zone.map ("z=".toList ++ ·)).toList)
end TimeDesc
structure PortSpec where
  base : UInt16
  num : Option UInt16
  deriving DecidableEq, Repr

namespace PortSpec
def fromStr (s : Text) : Except SdpError PortSpec :=
  match splitOnce '/' s with
  | some (a,b) => do
    let base ← number (parseU16 a)
    let num ← number (parseU16 b)
    return ⟨base,some num⟩
  | none => return ⟨← number (parseU16 s),none⟩

def fmt (p : PortSpec) : Text :=
  match p.num with
  | some n => decimal p.base.toNat ++ ['/'] ++ decimal n.toNat
  | none => decimal p.base.toNat
end PortSpec

inductive MediaKind where
  | audio
  | video
  | text
  | application
  | message
  | other (name : Text)
  deriving DecidableEq, Repr

namespace MediaKind
def fmt : MediaKind → Text
  | .audio => "audio".toList
  | .video => "video".toList
  | .text => "text".toList
  | .application => "application".toList
  | .message => "message".toList
  | .other name => name

def fromStr (s : Text) : MediaKind :=
  if s = "audio".toList then .audio
  else if s = "video".toList then .video
  else if s = "text".toList then .text
  else if s = "application".toList then .application
  else if s = "message".toList then .message
  else .other s
end MediaKind

structure Media where
  kind : MediaKind
  port : PortSpec
  proto : Text
  fmts : List Text
  title : Option Text
  connection : Option Connection
  bandwidth : List Bandwidth
  attrs : List Attribute
  extraLines : List Text
  deriving DecidableEq, Repr

namespace Media
def setTitle (m : Media) (title : Option Text) : Media := { m with title }
def setConnection (m : Media) (connection : Option Connection) : Media := { m with connection }
def addBandwidth (m : Media) (b : Bandwidth) : Media := { m with bandwidth := m.bandwidth ++ [b] }
def addAttr (m : Media) (a : Attribute) : Media := { m with attrs := m.attrs ++ [a] }
def addExtraLine (m : Media) (line : Text) : Media := { m with extraLines := m.extraLines ++ [line] }

/-- The `m=` line alone. -/
def fromStr (s : Text) : Except SdpError Media :=
  match splitWhitespace s with
  | [] => .error (.invalid "m=")
  | [_] => .error (.invalid "m= port")
  | [_,port] => do
    let _ ← PortSpec.fromStr port
    .error (.invalid "m= proto")
  | kind :: port :: proto :: fmts => do
    let port ← PortSpec.fromStr port
    return ⟨MediaKind.fromStr kind,port,proto,fmts,none,none,[],[],[]⟩

def fmtLines (m : Media) : List Text :=
  let fmts := if m.fmts.isEmpty then [] else ' ' :: List.intercalate [' '] m.fmts
  ("m=".toList ++ m.kind.fmt ++ [' '] ++ m.port.fmt ++ [' '] ++ m.proto ++ fmts) ::
    ((m.title.map ("i=".toList ++ ·)).toList ++ (m.connection.map ("c=".toList ++ ·.fmt)).toList ++
      m.bandwidth.map ("b=".toList ++ ·.fmt) ++ m.attrs.map ("a=".toList ++ ·.fmt) ++ m.extraLines)
end Media
end RustyRtc.Sdp
