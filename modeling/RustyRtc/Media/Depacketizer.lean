import RustyRtc.Media.AnnexB
import RustyRtc.Rtp.Packet

/-! # The H.264 depacketizer

`push_rtp` in its four stages: timestamp, sequence number, payload, marker. Every early
return of the source ends in `finish_if_marker`, so the stages compose.
-/
namespace RustyRtc.Media
open Rtp

structure FuState where
  naluHeader : UInt8
  buf : Bytes
  deriving DecidableEq, Repr

structure H264Depacketizer where
  curTs : Option UInt32
  expectedSeq : Option UInt16
  nalus : List Bytes
  fua : Option FuState
  frameCorrupted : Bool
  deriving DecidableEq, Repr

def naluType (naluHeader : UInt8) : UInt8 := naluHeader &&& 0x1F

namespace H264Depacketizer
variable (d : H264Depacketizer)
def new : H264Depacketizer := ⟨none,none,[],none,false⟩
def corrupt (d : H264Depacketizer) : H264Depacketizer := { d with frameCorrupted := true }
def pushIfNew (d : H264Depacketizer) (nalu : Bytes) : H264Depacketizer :=
  if d.nalus.getLast? = some nalu then d else { d with nalus := d.nalus ++ [nalu] }
def pushSliceIfNew (d : H264Depacketizer) (nalu : Bytes) : H264Depacketizer := d.pushIfNew nalu
def pushVecIfNew (d : H264Depacketizer) (nalu : Bytes) : H264Depacketizer := d.pushIfNew nalu
def resetForNewTs (_ : H264Depacketizer) (newTs : UInt32) : H264Depacketizer := ⟨some newTs,none,[],none,false⟩
def finishIfMarker (d : H264Depacketizer) (marker : Bool) : H264Depacketizer × Option Bytes :=
  if !marker then (d,none)
  else
    let out := if !d.frameCorrupted && !d.nalus.isEmpty then some (annexb d.nalus) else none
    (⟨none,none,[],none,false⟩,out)
def enterTimestamp (d : H264Depacketizer) (timestamp : UInt32) : H264Depacketizer :=
  match d.curTs with
  | some ts => if timestamp ≠ ts then d.resetForNewTs timestamp else d
  | none => { d with curTs := some timestamp }
def trackSeq (d : H264Depacketizer) (seq : UInt16) : H264Depacketizer :=
  let d :=
    match d.expectedSeq with
    | some expect => if seq ≠ expect then d.corrupt else d
    | none => d
  { d with expectedSeq := some (seq + 1) }
def extendFragment (d : H264Depacketizer) (start : Bool) (origHdr : UInt8) (body : Bytes) : H264Depacketizer :=
  if start then { d with fua := some ⟨origHdr,origHdr :: body⟩ }
  else
    match d.fua with
    | some st => { d with fua := some { st with buf := st.buf ++ body } }
    | none => d.corrupt
def completeFragment (d : H264Depacketizer) (last : Bool) : H264Depacketizer :=
  if last then
    match d.fua with
    | some st => { d with fua := none }.pushVecIfNew st.buf
    | none => d.corrupt
  else d

def absorbFragment (d : H264Depacketizer) (fuIndicator : UInt8) : Bytes → H264Depacketizer
  | [] => d.corrupt
  | fuHeader :: body =>
    let start := fuHeader &&& 0x80 != 0
    let last := fuHeader &&& 0x40 != 0
    let ttype := fuHeader &&& 0x1F
    let origHdr := (fuIndicator &&& 0xE0) ||| ttype
    (d.extendFragment start origHdr body).completeFragment last

def dropFragment (d : H264Depacketizer) : H264Depacketizer :=
  if d.fua.isSome then { d.corrupt with fua := none } else d

def absorb (d : H264Depacketizer) : Bytes → H264Depacketizer
  | [] => d.corrupt
  | naluHeader :: rest =>
    if 1 ≤ naluType naluHeader ∧ naluType naluHeader ≤ 23 then
      d.dropFragment.pushSliceIfNew (naluHeader :: rest)
    else if naluType naluHeader = 28 then d.absorbFragment naluHeader rest
    else if naluType naluHeader = 24 then d
    else d.corrupt

def pushRtp (d : H264Depacketizer) (payload : Bytes) (marker : Bool) (timestamp : UInt32) (seq : UInt16) :
    H264Depacketizer × Option Bytes :=
  (((d.enterTimestamp timestamp).trackSeq seq).absorb payload).finishIfMarker marker
def pushPacket (d : H264Depacketizer) (packet : RtpPacket) : H264Depacketizer × Option Bytes :=
  d.pushRtp packet.payload packet.marker packet.timestamp packet.seq
def pushAll (d : H264Depacketizer) : List RtpPacket → H264Depacketizer × List (Option Bytes)
  | [] => (d,[])
  | packet :: rest =>
    let (d,out) := d.pushPacket packet
    let (d,outs) := pushAll d rest
    (d,out :: outs)
theorem pushAll_append (xs ys : List RtpPacket) : d.pushAll (xs ++ ys) =
      (((d.pushAll xs).1.pushAll ys).1,(d.pushAll xs).2 ++ ((d.pushAll xs).1.pushAll ys).2) := by
  induction xs generalizing d with
  | nil => rfl
  | cons x xs ih => simp only [List.cons_append,pushAll,ih]

/-- What the payload stage never does: touch the counters or clear the corruption flag. -/
structure Keeps (d d' : H264Depacketizer) : Prop where
  curTs : d'.curTs = d.curTs
  expectedSeq : d'.expectedSeq = d.expectedSeq
  frameCorrupted : d.frameCorrupted = true → d'.frameCorrupted = true
theorem Keeps.trans {d e f : H264Depacketizer} (h : Keeps d e) (h' : Keeps e f) : Keeps d f :=
  ⟨h'.curTs.trans h.curTs,h'.expectedSeq.trans h.expectedSeq,fun hc => h'.frameCorrupted (h.frameCorrupted hc)⟩
theorem keeps_corrupt : Keeps d d.corrupt := ⟨rfl,rfl,fun _ => rfl⟩
theorem keeps_pushIfNew (nalu : Bytes) : Keeps d (d.pushIfNew nalu) := by
  unfold pushIfNew
  split <;> exact ⟨rfl,rfl,id⟩

theorem keeps_extendFragment (start : Bool) (origHdr : UInt8) (body : Bytes) :
    Keeps d (d.extendFragment start origHdr body) := by
  unfold extendFragment
  split
  · exact ⟨rfl,rfl,id⟩
  · split
    · exact ⟨rfl,rfl,id⟩
    · exact keeps_corrupt d

theorem keeps_completeFragment (last : Bool) : Keeps d (d.completeFragment last) := by
  unfold completeFragment
  split
  · split
    · exact Keeps.trans (e := { d with fua := none }) ⟨rfl,rfl,id⟩ (keeps_pushIfNew _ _)
    · exact keeps_corrupt d
  · exact ⟨rfl,rfl,id⟩

theorem keeps_dropFragment : Keeps d d.dropFragment := by
  unfold dropFragment
  split
  · exact ⟨rfl,rfl,fun _ => rfl⟩
  · exact ⟨rfl,rfl,id⟩

theorem keeps_absorb (payload : Bytes) : Keeps d (d.absorb payload) := by
  cases payload with
  | nil => exact keeps_corrupt d
  | cons naluHeader rest =>
    rw [absorb]
    split
    · exact (keeps_dropFragment d).trans (keeps_pushIfNew _ _)
    · split
      · cases rest with
        | nil => exact keeps_corrupt d
        | cons fuHeader body => exact (keeps_extendFragment d _ _ body).trans (keeps_completeFragment _ _)
      · split
        · exact ⟨rfl,rfl,id⟩
        · exact keeps_corrupt d
end H264Depacketizer
end RustyRtc.Media
