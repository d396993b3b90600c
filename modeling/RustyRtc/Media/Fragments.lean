import RustyRtc.Media.PacketizerShape

/-! # Fragments that do not make up a unit

A frame is read strictly first: a unit begins with a start fragment, goes on with fragments
that are neither, ends with an end fragment, and nothing comes in between. The depacketizer
notices most departures from that. It does not notice a start fragment while a unit is open,
which takes the place of what was received of it, nor a unit that is open at the marker.
-/
namespace RustyRtc.Media
open Rtp H264Depacketizer
variable {units : List Bytes}
inductive Piece where
  | single (nalu : Bytes)
  | part (fragment : FuPart)
  | other
  deriving DecidableEq, Repr
def piece : Bytes → Piece
  | [] => .other
  | header :: rest =>
    if 1 ≤ naluType header ∧ naluType header ≤ 23 then .single (header :: rest)
    else (fuPart (header :: rest)).elim .other .part
def FuPart.header (f : FuPart) : UInt8 := f.importance ||| f.unitType
structure Assembly where
  units : List Bytes
  pending : Option Bytes
  deriving DecidableEq, Repr

namespace Assembly
def extend (units : List Bytes) (buf : Bytes) (last : Bool) : Assembly :=
  if last then ⟨units ++ [buf],none⟩ else ⟨units,some buf⟩

def step (a : Assembly) (payload : Bytes) : Option Assembly :=
  match piece payload, a.pending with
  | .single nalu, none => some ⟨a.units ++ [nalu],none⟩
  | .part f, none => if f.start then some (extend a.units (f.header :: f.body) f.last) else none
  | .part f, some buf => if f.start then none else some (extend a.units (buf ++ f.body) f.last)
  | _, _ => none
end Assembly

/-- The units of a frame, if every one of them is complete. -/
def assemble (payloads : List Bytes) : Option (List Bytes) :=
  (payloads.foldlM Assembly.step ⟨[],none⟩).bind fun a => if a.pending.isNone then some a.units else none
def opens (pending : Bool) (payload : Bytes) : Bool :=
  match piece payload with
  | .single _ => false
  | .part f => (f.start || pending) && !f.last
  | .other => pending

/-- The payload does not begin a unit while another one is open. -/
def InTurn (pending : Bool) (payload : Bytes) : Prop :=
  pending = true → (fuPart payload).all (!·.start) = true
instance (pending : Bool) (payload : Bytes) : Decidable (InTurn pending payload) :=
  inferInstanceAs (Decidable (pending = true → (fuPart payload).all (!·.start) = true))
def RestartFree (payloads : List Bytes) : Prop := Along opens InTurn false payloads
def ClosedAtMarker (payloads : List Bytes) : Prop := payloads.foldl opens false = false
instance (payloads : List Bytes) : Decidable (RestartFree payloads) :=
  inferInstanceAs (Decidable (Along opens InTurn false payloads))
instance (payloads : List Bytes) : Decidable (ClosedAtMarker payloads) :=
  inferInstanceAs (Decidable (payloads.foldl opens false = false))
def Modelled (payload : Bytes) : Prop :=
  ∃ header rest, payload = header :: rest ∧
    (1 ≤ naluType header ∧ naluType header ≤ 23 ∨ naluType header = 28)

section Pieces
variable {payload : Bytes} {f : FuPart}
theorem fuPart_of_piece (h : piece payload = .part f) : fuPart payload = some f := by
  cases payload with
  | nil => cases h
  | cons header rest =>
    rw [piece] at h
    split at h
    · cases h
    · cases hf : fuPart (header :: rest) with
      | none => rw [hf] at h; cases h
      | some g =>
        rw [hf] at h
        exact congrArg some (Piece.part.inj h)

theorem absorb_eq (hp : Modelled payload) (d : H264Depacketizer) : d.absorb payload = match piece payload with
    | .single nalu => d.dropFragment.pushIfNew nalu
    | .part f => (d.extendFragment f.start f.header f.body).completeFragment f.last
    | .other => d.corrupt := by
  obtain ⟨header,rest,rfl,hkind⟩ := hp
  by_cases hsingle : 1 ≤ naluType header ∧ naluType header ≤ 23
  · rw [absorb,if_pos hsingle,piece,if_pos hsingle]
    rfl
  · have h28 := hkind.resolve_left hsingle
    rw [absorb,if_neg hsingle,if_pos h28,piece,if_neg hsingle]
    cases rest with
    | nil => rfl
    | cons fuHeader body => simp [fuPart,h28,absorbFragment,FuPart.header]
end Pieces

/-- The depacketizer holds what was assembled so far, repeated neighbours dropped. -/
structure Holds (d : H264Depacketizer) (a : Assembly) : Prop where
  nalus : d.nalus = a.units.foldl pushNew []
  pending : d.fua.map (·.buf) = a.pending
  uncorrupted : d.frameCorrupted = false

theorem Holds.complete {d : H264Depacketizer} {hdr : UInt8} {buf : Bytes}
    (hnalus : d.nalus = units.foldl pushNew []) (hclean : d.frameCorrupted = false) (last : Bool) :
    Holds ({ d with fua := some ⟨hdr,buf⟩ }.completeFragment last) (Assembly.extend units buf last) := by
  cases last with
  | false => exact ⟨hnalus,rfl,hclean⟩
  | true =>
    simp only [completeFragment,Assembly.extend,↓reduceIte,pushVecIfNew,pushIfNew_eq]
    exact ⟨by simp [hnalus],rfl,hclean⟩

section Steps
variable {d : H264Depacketizer} {a a' : Assembly} {payload : Bytes}
theorem Holds.absorb (h : Holds d a) (hp : Modelled payload) (hclean : (d.absorb payload).frameCorrupted = false)
    (hstart : InTurn a.pending.isSome payload) : ∃ a', a.step payload = some a' ∧ Holds (d.absorb payload) a' := by
  rw [absorb_eq hp] at hclean ⊢
  unfold Assembly.step
  have hpending := h.pending
  cases hpiece : piece payload with
  | other => simp [hpiece,corrupt] at hclean
  | single nalu =>
    simp only [hpiece] at hclean ⊢
    cases hfua : d.fua with
    | some st =>
      have := (keeps_pushIfNew d.dropFragment nalu).frameCorrupted (by simp [dropFragment,hfua,corrupt])
      rw [this] at hclean
      cases hclean
    | none =>
      rw [hfua] at hpending
      rw [← hpending]
      refine ⟨_,rfl,?_⟩
      simp only [dropFragment,hfua,Option.isSome_none,Bool.false_eq_true,↓reduceIte,pushIfNew_eq]
      exact ⟨by simp [h.nalus],rfl,h.uncorrupted⟩
  | part f =>
    simp only [hpiece] at hclean ⊢
    rw [InTurn,fuPart_of_piece hpiece] at hstart
    cases hfua : d.fua with
    | none =>
      rw [hfua] at hpending
      rw [← hpending]
      cases hs : f.start with
      | false =>
        have := (keeps_completeFragment (d.extendFragment f.start f.header f.body) f.last).frameCorrupted
          (by simp [extendFragment,hs,hfua,corrupt])
        rw [this] at hclean
        cases hclean
      | true =>
        refine ⟨_,if_pos hs,?_⟩
        simp only [extendFragment,↓reduceIte]
        exact Holds.complete h.nalus h.uncorrupted f.last
    | some st =>
      rw [hfua] at hpending
      rw [← hpending] at hstart ⊢
      have hs : f.start = false := by simpa using hstart rfl
      simp only [extendFragment,hs,hfua,Bool.false_eq_true,↓reduceIte]
      exact ⟨_,if_neg (by simp [hs]),Holds.complete h.nalus h.uncorrupted f.last⟩

/-- The strict reading never goes on over a start fragment in an open unit, and it keeps
track of what is open. -/
theorem Assembly.step_opens (h : a.step payload = some a') :
    InTurn a.pending.isSome payload ∧ a'.pending.isSome = opens a.pending.isSome payload := by
  have hextend : ∀ units buf last, (extend units buf last).pending.isSome = !last := by
    intro units buf last
    cases last <;> rfl
  unfold step at h
  unfold opens InTurn
  split at h
  · next nalu hpiece hnone =>
    cases h
    simp [hnone,hpiece]
  · next f hpiece hnone =>
    split at h
    · next hs =>
      cases h
      simp [hnone,hpiece,hs,hextend]
    · cases h
  · next f buf hpiece hsome =>
    split at h
    · cases h
    · next hs =>
      cases h
      simp [hsome,hpiece,hs,hextend,fuPart_of_piece hpiece]
  · cases h
end Steps

section Runs
variable {d : H264Depacketizer} {a a' : Assembly} {payloads : List Bytes}
theorem Holds.absorbAll (h : Holds d a) (hp : ∀ payload ∈ payloads, Modelled payload)
    (hclean : (absorbAll d payloads).frameCorrupted = false) (hstart : Along opens InTurn a.pending.isSome payloads) :
    ∃ a', payloads.foldlM Assembly.step a = some a' ∧ Holds (absorbAll d payloads) a' := by
  induction payloads generalizing d a with
  | nil => exact ⟨a,rfl,h⟩
  | cons payload payloads ih =>
    rw [absorbAll_cons] at hclean ⊢
    have hnow : (d.absorb payload).frameCorrupted = false := by
      by_contra hc
      rw [(keeps_absorbAll _ payloads).frameCorrupted (by simpa using hc)] at hclean
      cases hclean
    obtain ⟨a₁,hstep,hholds⟩ := h.absorb (hp payload (by simp)) hnow hstart.1
    have hopens := (Assembly.step_opens hstep).2
    obtain ⟨a',hrun,hend⟩ := ih hholds (fun q hq => hp q (by simp [hq])) hclean (hopens ▸ hstart.2)
    exact ⟨a',by simpa [List.foldlM_cons,hstep] using hrun,hend⟩

theorem Assembly.run_opens (h : payloads.foldlM Assembly.step a = some a') :
    Along opens InTurn a.pending.isSome payloads ∧ payloads.foldl opens a.pending.isSome = a'.pending.isSome := by
  induction payloads generalizing a with
  | nil =>
    cases h
    exact ⟨trivial,rfl⟩
  | cons payload payloads ih =>
    rw [List.foldlM_cons] at h
    obtain ⟨a₁,hstep,hrun⟩ := Option.bind_eq_some_iff.mp h
    obtain ⟨hstart,hopens⟩ := Assembly.step_opens hstep
    obtain ⟨halong,hend⟩ := ih hrun
    rw [hopens] at halong hend
    exact ⟨⟨hstart,halong⟩,hend⟩

theorem assemble_conditions (h : assemble payloads = some units) : RestartFree payloads ∧ ClosedAtMarker payloads := by
  obtain ⟨a,hrun,hclosed⟩ := Option.bind_eq_some_iff.mp h
  obtain ⟨halong,hend⟩ := Assembly.run_opens hrun
  split at hclosed
  · next hnone =>
    refine ⟨halong,?_⟩
    rw [ClosedAtMarker]
    exact hend.trans (by simpa using hnone)
  · cases hclosed
end Runs

/-- An emitted frame consists of complete units, with all their bytes, exactly when no unit
was begun while another was open and none was open at the marker. -/
theorem emitted_frame_complete_iff (ts : UInt32) (packets : List RtpPacket) (hframe : OneFrame ts packets)
    (hkinds : ∀ packet ∈ packets, Modelled packet.payload) (d : H264Depacketizer) (hd : Boundary d ts) (au : Bytes)
    (hout : some au ∈ (d.pushAll packets).2) :
    (∃ units, assemble (packets.map (·.payload)) = some units ∧ au = annexb (units.destutter (· ≠ ·))) ↔
      RestartFree (packets.map (·.payload)) ∧ ClosedAtMarker (packets.map (·.payload)) := by
  have hp : ∀ payload ∈ packets.map (·.payload), Modelled payload := by simpa using hkinds
  have hfinish : ((absorbAll (clean ts) (packets.map (·.payload))).finishIfMarker true).2 = some au := by
    rw [hframe.pushAll hd] at hout
    simpa [eq_comm] using hout
  simp only [finishIfMarker, Bool.not_true, Bool.false_eq_true, ↓reduceIte] at hfinish
  split at hfinish
  · next hemit =>
    cases hfinish
    have huncorrupted : (absorbAll (clean ts) (packets.map (·.payload))).frameCorrupted = false := by
      simp only [Bool.and_eq_true, Bool.not_eq_true'] at hemit
      exact hemit.1
    constructor
    · rintro ⟨units,hunits,_⟩
      exact assemble_conditions hunits
    · rintro ⟨hfree,hclosed⟩
      have hstart : Holds (clean ts) ⟨[],none⟩ := ⟨rfl,rfl,rfl⟩
      obtain ⟨a,hrun,hholds⟩ := hstart.absorbAll hp huncorrupted hfree
      have hpending : a.pending = none :=
        Option.not_isSome_iff_eq_none.mp (Bool.eq_false_iff.mp ((Assembly.run_opens hrun).2.symm.trans hclosed))
      refine ⟨a.units,?_,by rw [hholds.nalus, foldl_pushNew]⟩
      simp [assemble,hrun,hpending]
  · cases hfinish

theorem emitted_frame_complete_fragmented :
    let packets := [RtpPacket.simple 96 false 7 9000 1 [0x67,1],RtpPacket.simple 96 false 8 9000 1 [0x7C,0x85,1],
      RtpPacket.simple 96 false 9 9000 1 [0x7C,0x05,2],RtpPacket.simple 96 false 10 9000 1 [0x7C,0x45,3],
      RtpPacket.simple 96 true 11 9000 1 [0x61,4]]
    RestartFree (packets.map (·.payload)) ∧ ClosedAtMarker (packets.map (·.payload)) ∧
      ∃ units, assemble (packets.map (·.payload)) = some units ∧
        annexb [[0x67,1],[0x65,1,2,3],[0x61,4]] = annexb (units.destutter (· ≠ ·)) := by
  intro packets
  have hframe : OneFrame 9000 packets := ⟨by decide,by decide,by decide,_,rfl,rfl⟩
  have hkinds : ∀ packet ∈ packets, Modelled packet.payload := by
    intro packet hpacket
    simp only [packets, List.mem_cons, List.not_mem_nil, or_false] at hpacket
    rcases hpacket with rfl | rfl | rfl | rfl | rfl <;> exact ⟨_,_,rfl,by decide⟩
  have hconditions : RestartFree (packets.map (·.payload)) ∧ ClosedAtMarker (packets.map (·.payload)) := by decide
  exact ⟨hconditions.1,hconditions.2,(emitted_frame_complete_iff 9000 packets hframe hkinds H264Depacketizer.new
    (Or.inl rfl) _ (by decide +kernel)).mpr hconditions⟩

/-- A second start fragment silently replaces the first part of a unit, and a unit open at the
marker is silently left out: both frames are emitted. -/
theorem incomplete_frames_emitted :
    let restarted := [RtpPacket.simple 96 false 7 9000 1 [0x7C,0x85,1],RtpPacket.simple 96 true 8 9000 1 [0x7C,0xC5,2]]
    let unfinished := [RtpPacket.simple 96 false 7 9000 1 [0x67,1],RtpPacket.simple 96 true 8 9000 1 [0x7C,0x85,1]]
    (H264Depacketizer.new.pushAll restarted).2 = [none,some (annexb [[0x65,2]])] ∧
      assemble (restarted.map (·.payload)) = none ∧
    (H264Depacketizer.new.pushAll unfinished).2 = [none,some (annexb [[0x67,1]])] ∧
      assemble (unfinished.map (·.payload)) = none := by
  decide +kernel
end RustyRtc.Media
