import RustyRtc.Media.RoundTrip

/-! # The shape of the packetizer's output

What a receiver can read off the chunks of a frame, for every byte string and every budget:
their sizes, the units behind them, the bits of the FU-A fragments and the marker. A budget
below three bytes cannot hold a fragment; a unit that needs one is skipped then, and with the
last unit of the frame the marker is skipped too.
-/
namespace RustyRtc.Media
open Rtp

/-- What a payload says as an FU-A fragment: F and NRI, the unit's type, the two bits, the bytes. -/
structure FuPart where
  importance : UInt8
  unitType : UInt8
  start : Bool
  last : Bool
  body : Bytes
  deriving DecidableEq, Repr

def fuPart : Bytes → Option FuPart
  | indicator :: header :: body =>
    if naluType indicator = 28 then
      some ⟨indicator &&& 0xE0,header &&& 0x1F,header &&& 0x80 != 0,header &&& 0x40 != 0,body⟩
    else none
  | _ => none

/-- The payloads are the fragments of the unit: at least two parts in order, which make up the
unit without its header byte; the start bit on the first and the end bit on the last only. -/
def FragmentsOf (nalu : Bytes) (payloads : List Bytes) : Prop :=
  ∃ parts : List Bytes, 2 ≤ parts.length ∧ (∀ part ∈ parts, part ≠ []) ∧ nalu.tail = parts.flatten ∧
    payloads.map fuPart = parts.zipIdx.map fun e =>
      some ⟨nalu.getD 0 0 &&& 0xE0,nalu.getD 0 0 &&& 0x1F,e.2 = 0,e.2 + 1 = parts.length,e.1⟩
def Carries (maxPayload : ℕ) (nalu : Bytes) (payloads : List Bytes) : Prop :=
  if nalu.length ≤ maxPayload then payloads = [nalu]
  else if 3 ≤ maxPayload then FragmentsOf nalu payloads
  else payloads = []
def MarkedLast (chunks : List RtpPayloadChunk) : Prop :=
  chunks.map (·.marker) = List.replicate (chunks.length - 1) false ++ [true]
instance (chunks : List RtpPayloadChunk) : Decidable (MarkedLast chunks) :=
  inferInstanceAs (Decidable (chunks.map (·.marker) = List.replicate (chunks.length - 1) false ++ [true]))
def fragment (header : UInt8) (start last : Bool) (part : Bytes) : Bytes :=
  fuIndicator header :: fuHeader start last header :: part
theorem fuIndicator_importance (header : UInt8) : fuIndicator header &&& 0xE0 = header &&& 0xE0 := by
  revert header
  exact forall_byte (by decide +kernel)
theorem fuHeader_unitType (start last : Bool) (header : UInt8) :
    fuHeader start last header &&& 0x1F = header &&& 0x1F := by
  revert header
  cases start <;> cases last <;> exact forall_byte (by decide +kernel)
theorem fuPart_fragment (header : UInt8) (start last : Bool) (part : Bytes) : fuPart (fragment header start last part) =
      some ⟨header &&& 0xE0,header &&& 0x1F,start,last,part⟩ := by
  rw [fragment,fuPart,if_pos (naluType_fuIndicator header),fuIndicator_importance,fuHeader_unitType,
    fuHeader_start,fuHeader_last]

section Fragmentation
variable {nalu : Bytes} {maxPayload : ℕ}

/-- The loop from an offset on: the rest of the unit in parts of at most the budget. The start
bit depends on the offset, the end bit on the part being the last one. -/
theorem fragmentLoop_parts (fragBudget : ℕ) (hbudget : 0 < fragBudget) (offset : ℕ) :
    offset < nalu.length → 1 ≤ offset → ∃ parts : List Bytes,
      parts ≠ [] ∧ (∀ part ∈ parts, part ≠ [] ∧ part.length ≤ fragBudget) ∧ nalu.drop offset = parts.flatten ∧
      ((fragmentLoop nalu fragBudget hbudget).run offset).2.map (·.bytes) = parts.zipIdx.map fun e =>
        fragment (nalu.getD 0 0) (offset = 1 ∧ e.2 = 0) (e.2 + 1 = parts.length) e.1 := by
  induction offset using (fragmentLoop nalu fragBudget hbudget).induction with
  | stop offset h =>
    intro hlt _
    simp [fragmentLoop,fragmentBody,hlt] at h
  | next offset offset' out h ih =>
    intro hlt hpos
    rw [Loop.run_next h]
    simp only [fragmentLoop,fragmentBody,if_pos hlt] at h
    cases h
    set take := min (nalu.length - offset) fragBudget with htake
    set part := (nalu.drop offset).take take with hpart
    have hlen : part.length = take := by
      rw [hpart,List.length_take,List.length_drop]
      omega
    have hsize : part ≠ [] ∧ part.length ≤ fragBudget :=
      ⟨List.ne_nil_of_length_pos (by omega),by omega⟩
    by_cases hlast : offset + take = nalu.length
    · have hstop : (fragmentLoop nalu fragBudget hbudget).body (offset + take) = none := by
        simp only [fragmentLoop,fragmentBody]
        rw [if_neg (by omega)]
      refine ⟨[part],by simp,by simpa using hsize,?_,?_⟩
      · rw [List.flatten_singleton,hpart,List.take_of_length_le (by rw [List.length_drop]; omega)]
      · rw [Loop.run_stop hstop]
        simp [fragment,hlast]
    · obtain ⟨parts,hne,hparts,hflat,hrun⟩ := ih (by omega) (by omega)
      refine ⟨part :: parts,by simp,?_,?_,?_⟩
      · rintro q (_ | ⟨_,hq⟩)
        · exact hsize
        · exact hparts q hq
      · rw [List.flatten_cons,← hflat,hpart,← List.drop_drop,List.take_append_drop]
      · have hmore : 0 ≠ parts.length := (List.length_pos_iff.mpr hne).ne
        have hlater : offset + take ≠ 1 := by omega
        rw [List.map_append,hrun,List.zipIdx_cons']
        simp [fragment,hlast,hlater,hmore,Function.comp_def]

theorem fragmentLoop_fragmentsOf (hmax : 3 ≤ maxPayload) (hbudget : 0 < maxPayload - 2)
    (hlong : maxPayload < nalu.length) :
    FragmentsOf nalu (((fragmentLoop nalu (maxPayload - 2) hbudget).run 1).2.map (·.bytes)) ∧
      ∀ payload ∈ ((fragmentLoop nalu (maxPayload - 2) hbudget).run 1).2.map (·.bytes),
        payload ≠ [] ∧ payload.length ≤ maxPayload := by
  obtain ⟨parts,hne,hparts,hflat,hrun⟩ :=
    @fragmentLoop_parts nalu (maxPayload - 2) hbudget 1 (by omega) le_rfl
  rw [hrun]
  constructor
  · refine ⟨parts,?_,fun part h => (hparts part h).1,by rw [← List.drop_one,hflat],?_⟩
    · -- one part would be the whole unit without its header
      by_contra hone
      have hpos : 0 < parts.length := List.length_pos_iff.mpr hne
      obtain ⟨part,rfl⟩ := List.length_eq_one_iff.mp (show parts.length = 1 by omega)
      have hlen := congrArg List.length hflat
      have hle := (hparts part (by simp)).2
      simp only [List.length_drop,List.flatten_singleton] at hlen
      omega
    · rw [List.map_map]
      exact List.map_congr_left fun e _ => by simp [fuPart_fragment]
  · intro payload h
    obtain ⟨e,he,rfl⟩ := List.mem_map.mp h
    have hle := (hparts e.1 (List.fst_mem_of_mem_zipIdx he)).2
    exact ⟨by simp [fragment],by simp only [fragment,List.length_cons]; omega⟩

theorem naluChunks_carries (hne : nalu ≠ []) : Carries maxPayload nalu ((naluChunks maxPayload nalu).map (·.bytes)) ∧
      ∀ payload ∈ (naluChunks maxPayload nalu).map (·.bytes), payload ≠ [] ∧ payload.length ≤ maxPayload := by
  have hnalu : ¬ nalu.isEmpty := by simpa using hne
  by_cases hfits : nalu.length ≤ maxPayload
  · simp [Carries,naluChunks,packetizeNalu,hfits,hne]
  · by_cases hmax : 3 ≤ maxPayload
    · have hbudget : maxPayload - 2 ≠ 0 := by omega
      simp only [Carries,naluChunks,packetizeNalu,if_neg hfits,if_pos hmax,if_neg hnalu,dif_neg hbudget]
      exact fragmentLoop_fragmentsOf hmax (by omega) (by omega)
    · have hbudget : maxPayload - 2 = 0 := by omega
      simp [Carries,naluChunks,packetizeNalu,hfits,hmax,hbudget]
end Fragmentation

section Frames
variable (p : H264Packetizer) (annexbFrame : Bytes) {chunks : List RtpPayloadChunk}
theorem map_bytes_markLast (chunks : List RtpPayloadChunk) :
    (markLast chunks).map (·.bytes) = chunks.map (·.bytes) := by
  rcases List.eq_nil_or_concat' chunks with rfl | ⟨init,last,rfl⟩
  · rfl
  · simp [markLast_append_singleton]

theorem payloads_eq : (p.packetizeAnnexbToPayloads annexbFrame).map (·.bytes) =
    ((splitAnnexbNalus annexbFrame).map fun u => (naluChunks p.maxPayload u).map (·.bytes)).flatten := by
  by_cases hne : splitAnnexbNalus annexbFrame = []
  · simp [H264Packetizer.packetizeAnnexbToPayloads,hne]
  · rw [p.packetizeAnnexbToPayloads_of_units hne,← List.flatMap_def,← List.map_flatMap]
    split
    · exact map_bytes_markLast _
    · rfl

theorem markedLast_markLast (hne : chunks ≠ [])
    (h : ∀ c ∈ chunks, c.marker = false) : MarkedLast (markLast chunks) := by
  obtain ⟨init,last,rfl⟩ := (List.eq_nil_or_concat' chunks).resolve_left hne
  have hinit : init.map (·.marker) = List.replicate init.length false :=
    List.eq_replicate_iff.mpr ⟨by simp,by simpa using fun c hc => h c (by simp [hc])⟩
  rw [markLast_append_singleton]
  simp [MarkedLast,hinit]

theorem not_markedLast (h : ∀ c ∈ chunks, c.marker = false) : ¬ MarkedLast chunks := by
  intro hmarked
  have htrue : true ∈ chunks.map (·.marker) := hmarked ▸ by simp
  obtain ⟨c,hc,hm⟩ := List.mem_map.mp htrue
  rw [h c hc] at hm
  cases hm

theorem markedLast_iff (hout : p.packetizeAnnexbToPayloads annexbFrame ≠ []) :
    MarkedLast (p.packetizeAnnexbToPayloads annexbFrame) ↔
      ∀ last ∈ (splitAnnexbNalus annexbFrame).getLast?, Sendable p.maxPayload last := by
  have hne : splitAnnexbNalus annexbFrame ≠ [] := by
    intro hnil
    exact hout (by simp [H264Packetizer.packetizeAnnexbToPayloads,hnil])
  have hunmarked : ∀ c ∈ (splitAnnexbNalus annexbFrame).flatMap (naluChunks p.maxPayload), c.marker = false := by
    intro c hc
    obtain ⟨u,_,hu⟩ := List.mem_flatMap.mp hc
    exact naluChunks_marker hu
  rw [p.packetizeAnnexbToPayloads_of_units hne] at hout ⊢
  simp only [List.getLast?_eq_some_getLast hne,Option.mem_some_iff,forall_eq']
  split
  · next hsend =>
    rw [if_pos hsend] at hout
    refine iff_of_true (markedLast_markLast (fun hnil => hout (by rw [hnil]; rfl)) hunmarked) hsend
  · next hskip => exact iff_of_false (not_markedLast hunmarked) hskip

/-- The whole output for every byte string and every budget: sizes, units and fragments hold
without exception, the marker exactly where the frame's last unit is not skipped. -/
theorem packetizer_output_shape :
    (∀ chunk ∈ p.packetizeAnnexbToPayloads annexbFrame,
      chunk.bytes ≠ [] ∧ chunk.bytes.length ≤ p.maxPayload) ∧
    (∃ payloads : List (List Bytes),
      List.Forall₂ (Carries p.maxPayload) (splitAnnexbNalus annexbFrame) payloads ∧
      (p.packetizeAnnexbToPayloads annexbFrame).map (·.bytes) = payloads.flatten) ∧
    (p.packetizeAnnexbToPayloads annexbFrame ≠ [] →
      (MarkedLast (p.packetizeAnnexbToPayloads annexbFrame) ↔
        ∀ last ∈ (splitAnnexbNalus annexbFrame).getLast?, last.length ≤ p.maxPayload ∨ 3 ≤ p.maxPayload)) := by
  refine ⟨?_,⟨_,?_,payloads_eq p annexbFrame⟩,markedLast_iff p annexbFrame⟩
  · intro chunk hchunk
    have hin := List.mem_map_of_mem (f := RtpPayloadChunk.bytes) hchunk
    rw [payloads_eq] at hin
    obtain ⟨payloads,hpayloads,hmem⟩ := List.mem_flatten.mp hin
    obtain ⟨u,hu,rfl⟩ := List.mem_map.mp hpayloads
    exact (naluChunks_carries (splitAnnexbNalus_ne_nil hu)).2 _ hmem
  · rw [List.forall₂_map_right_iff]
    exact List.forall₂_same.mpr fun u hu => (naluChunks_carries (splitAnnexbNalus_ne_nil hu)).1

/-- Two bytes of budget: the first unit is sent, the last one needs fragments and is skipped
together with the marker. -/
theorem skipped_last_unit_loses_marker :
    let p := (H264Packetizer.new 2).withOverhead 0
    let frame := annexb [[0x67,1],[0x65,1,2]]
    p.packetizeAnnexbToPayloads frame = [⟨[0x67,1],false⟩] ∧
      ¬ MarkedLast (p.packetizeAnnexbToPayloads frame) := by
  decide +kernel
end Frames
end RustyRtc.Media
