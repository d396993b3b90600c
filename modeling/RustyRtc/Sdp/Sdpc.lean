import RustyRtc.Sdp.Fields

/-! # Session descriptions

`sdp/sdpc.rs`: a description is read line by line. Lines of a kind that both levels have go to the last
media section once there is one, and a line of the session level ends it. It is written with the session's
lines first and each line ended by a carriage return and a line feed.
-/
namespace RustyRtc
open Sdp in
structure Sdp where
  version : UInt8
  origin : Origin
  sessionName : Text
  sessionInfo : Option Text
  uri : Option Text
  emails : List Text
  phones : List Text
  connection : Option Connection
  bandwidth : List Bandwidth
  times : List TimeDesc
  attrs : List Attribute
  media : List Media
  extraLines : List Text
  deriving DecidableEq, Repr

namespace Sdp
def attributes (s : Sdp) : List Attribute := s.attrs ++ s.media.flatMap (·.attrs)

structure Parsing where
  version : Option UInt8
  origin : Option Origin
  sessionName : Option Text
  sessionInfo : Option Text
  uri : Option Text
  emails : List Text
  phones : List Text
  connection : Option Connection
  bandwidth : List Bandwidth
  times : List TimeDesc
  attrs : List Attribute
  media : List Media
  extraLines : List Text
  inMedia : Bool
  deriving DecidableEq, Repr

/-- `last_mut`, if there is a last element. -/
def onLast {α : Type} (f : α → α) (l : List α) : List α := l.dropLast ++ (l.getLast?.map f).toList

namespace Parsing
def init : Parsing := ⟨none,none,none,none,none,[],[],none,[],[],[],[],[],false⟩
def onMedia (p : Parsing) (f : Media → Media) : Parsing := { p with media := onLast f p.media }
def onTime (p : Parsing) (field : String) (f : TimeDesc → TimeDesc) : Except SdpError Parsing :=
  if p.times.isEmpty then .error (.invalid (field ++ " without t="))
  else .ok { p with times := onLast f p.times }

/-- One line, split at its first equals sign. -/
def field (p : Parsing) (line kind rest : Text) : Except SdpError Parsing :=
  match kind with
  | ['v'] => return { p with version := some (← number (parseU8 rest)),inMedia := false }
  | ['o'] => return { p with origin := some (← Origin.fromStr rest),inMedia := false }
  | ['s'] => .ok { p with sessionName := some rest,inMedia := false }
  | ['i'] => .ok (if p.inMedia then p.onMedia (·.setTitle (some rest)) else { p with sessionInfo := some rest })
  | ['u'] => .ok { p with uri := some rest,inMedia := false }
  | ['e'] => .ok { p with emails := p.emails ++ [rest] }
  | ['p'] => .ok { p with phones := p.phones ++ [rest] }
  | ['c'] => do
    let c ← Connection.fromStr rest
    return if p.inMedia then p.onMedia (·.setConnection (some c)) else { p with connection := some c }
  | ['b'] => do
    let b ← Bandwidth.fromStr rest
    return if p.inMedia then p.onMedia (·.addBandwidth b) else { p with bandwidth := p.bandwidth ++ [b] }
  | ['t'] => return { p with times := p.times ++ [← TimeDesc.fromStr rest],inMedia := false }
  | ['r'] => p.onTime "r=" (·.addRepeat rest)
  | ['z'] => p.onTime "z=" (·.setZone (some rest))
  | ['m'] => return { p with media := p.media ++ [← Media.fromStr rest],inMedia := true }
  | ['a'] =>
    let a := Attribute.fromStr rest
    .ok (if p.inMedia then p.onMedia (·.addAttr a) else { p with attrs := p.attrs ++ [a] })
  | _ => .ok (if p.inMedia then p.onMedia (·.addExtraLine line) else { p with extraLines := p.extraLines ++ [line] })

/-- A line without an equals sign, such as an empty one, is skipped. -/
def line (p : Parsing) (l : Text) : Except SdpError Parsing :=
  match splitOnce '=' l with
  | none => .ok p
  | some (kind,rest) => p.field l kind rest
def finish (p : Parsing) : Except SdpError Sdp := do
  let some version := p.version | .error (.missing "v=")
  let some origin := p.origin | .error (.missing "o=")
  let some sessionName := p.sessionName | .error (.missing "s=")
  return { p with version,origin,sessionName }
end Parsing

/-- A line without the carriage returns at its end. -/
def chomp (l : Text) : Text := l.rdropWhile (· = '\r')
def textLines (input : Text) : List Text := (input.splitOn '\n').map chomp
def parse (input : Text) : Except SdpError Sdp := (textLines input).foldlM Parsing.line .init >>= Parsing.finish

def fmtLines (s : Sdp) : List Text :=
  ["v=".toList ++ decimal s.version.toNat,"o=".toList ++ s.origin.fmt,"s=".toList ++ s.sessionName] ++
    (s.sessionInfo.map ("i=".toList ++ ·)).toList ++ (s.uri.map ("u=".toList ++ ·)).toList ++
    s.emails.map ("e=".toList ++ ·) ++ s.phones.map ("p=".toList ++ ·) ++
    (s.connection.map ("c=".toList ++ ·.fmt)).toList ++ s.bandwidth.map ("b=".toList ++ ·.fmt) ++
    (if s.times.isEmpty then ["t=0 0".toList] else s.times.flatMap TimeDesc.fmtLines) ++
    s.attrs.map ("a=".toList ++ ·.fmt) ++ s.extraLines ++ s.media.flatMap Media.fmtLines

def encode (s : Sdp) : Text := s.fmtLines.flatMap (· ++ ['\r','\n'])
end Sdp
end RustyRtc
