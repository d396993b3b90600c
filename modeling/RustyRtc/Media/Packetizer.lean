import RustyRtc.Media.AnnexB
import RustyRtc.Rtp.Packet

/-! # The H.264 packetizer

One access unit becomes single-unit packets and FU-A fragments. The two `continue`
statements of the loop over units skip the marker as well; they are kept apart from an
empty list of chunks.
-/
namespace RustyRtc.Media
open Rtp
variable {annexbFrame : Bytes} (p : H264Packetizer)
structure RtpPayloadChunk where
  bytes : Bytes
  marker : Bool
  deriving DecidableEq, Repr
structure H264Packetizer where
  mtu : ℕ
  rtpOverhead : ℕ
  deriving DecidableEq, Repr
def H264Packetizer.new (mtu : ℕ) : H264Packetizer := ⟨mtu,12⟩
def H264Packetizer.withOverhead (p : H264Packetizer) (overhead : ℕ) : H264Packetizer :=
  { p with rtpOverhead := overhead }
def H264Packetizer.maxPayload (p : H264Packetizer) : ℕ := p.mtu - p.rtpOverhead

/-- F and NRI of the unit's header, with type 28. -/
def fuIndicator (naluHeader : UInt8) : UInt8 := naluHeader &&& 0x80 ||| naluHeader &&& 0x60 ||| 28
def fuHeader (start last : Bool) (naluHeader : UInt8) : UInt8 :=
  (if start then 0x80 else 0x00) ||| (if last then 0x40 else 0x00) ||| (naluHeader &&& 0x1F)

def fragmentBody (nalu : Bytes) (fragBudget offset : ℕ) : Option (ℕ × List RtpPayloadChunk) :=
  let n := nalu.length
  if offset < n then
    let remaining := n - offset
    let take := min remaining fragBudget
    let naluHeader := nalu.getD 0 0
    let payload := fuIndicator naluHeader :: fuHeader (offset = 1) (offset + take = n) naluHeader ::
      (nalu.drop offset).take take
    some (offset + take,[⟨payload,false⟩])
  else none

def fragmentLoop (nalu : Bytes) (fragBudget : ℕ) (hbudget : 0 < fragBudget) : Loop ℕ RtpPayloadChunk where
  body := fragmentBody nalu fragBudget
  measure := fun offset => nalu.length - offset
  decreases := by
    intro offset offset' out h
    unfold fragmentBody at h
    dsimp only at h
    split at h
    · cases h
      omega
    · cases h

/-- The chunks of one unit; `none` where the source goes on to the next unit at once. -/
def packetizeNalu (maxPayload : ℕ) (nalu : Bytes) : Option (List RtpPayloadChunk) :=
  if nalu.isEmpty then none
  else if nalu.length ≤ maxPayload then some [⟨nalu,false⟩]
  else if h : maxPayload - 2 = 0 then none
  else some ((fragmentLoop nalu (maxPayload - 2) (Nat.pos_of_ne_zero h)).run 1).2

def markLast : List RtpPayloadChunk → List RtpPayloadChunk
  | [] => []
  | [chunk] => [{ chunk with marker := true }]
  | chunk :: rest => chunk :: markLast rest
def addNalu (maxPayload count : ℕ) (out : List RtpPayloadChunk) (entry : Bytes × ℕ) : List RtpPayloadChunk :=
  match packetizeNalu maxPayload entry.1 with
  | none => out
  | some chunks => if entry.2 + 1 = count then markLast (out ++ chunks) else out ++ chunks

namespace H264Packetizer
def packetizeAnnexbToPayloads (p : H264Packetizer) (annexbFrame : Bytes) : List RtpPayloadChunk :=
  let nalus := splitAnnexbNalus annexbFrame
  if nalus.isEmpty then []
  else nalus.zipIdx.foldl (addNalu p.maxPayload nalus.length) []
def numberChunks (payloadType : UInt8) (timestamp ssrc : UInt32) :
    UInt16 → List RtpPayloadChunk → List RtpPacket × UInt16
  | seq, [] => ([],seq)
  | seq, chunk :: rest =>
    let (packets,next) := numberChunks payloadType timestamp ssrc (seq + 1) rest
    (RtpPacket.simple payloadType chunk.marker seq timestamp ssrc chunk.bytes :: packets,next)
def packetizeAnnexbToRtp (p : H264Packetizer) (annexbFrame : Bytes) (payloadType : UInt8)
    (timestamp ssrc : UInt32) (seqStart : UInt16) : List RtpPacket × UInt16 :=
  numberChunks payloadType timestamp ssrc seqStart (p.packetizeAnnexbToPayloads annexbFrame)
end H264Packetizer

/-- The chunks of one unit when the budget leaves room for fragments. -/
def naluChunks (maxPayload : ℕ) (nalu : Bytes) : List RtpPayloadChunk := (packetizeNalu maxPayload nalu).getD []

variable {maxPayload : ℕ} {nalu : Bytes}

/-- A unit too long for one payload needs room for the two FU-A bytes and one byte more. -/
def Sendable (maxPayload : ℕ) (nalu : Bytes) : Prop := nalu.length ≤ maxPayload ∨ 3 ≤ maxPayload
instance : Decidable (Sendable maxPayload nalu) :=
  inferInstanceAs (Decidable (nalu.length ≤ maxPayload ∨ 3 ≤ maxPayload))

theorem packetizeNalu_eq (hsend : Sendable maxPayload nalu) (hne : nalu ≠ []) :
    packetizeNalu maxPayload nalu = some (naluChunks maxPayload nalu) := by
  unfold naluChunks packetizeNalu
  rw [if_neg (by simpa using hne)]
  split
  · rfl
  · next hlong =>
    have hmax : 3 ≤ maxPayload := hsend.resolve_left hlong
    rw [dif_neg (by omega)]
    rfl

theorem packetizeNalu_eq_none (h : ¬ Sendable maxPayload nalu) : packetizeNalu maxPayload nalu = none := by
  obtain ⟨hlong,hmax⟩ := not_or.mp h
  unfold packetizeNalu
  rw [if_neg hlong,dif_pos (by omega)]
  split <;> rfl

theorem fragmentLoop_marker (fragBudget : ℕ) (hbudget : 0 < fragBudget) (offset : ℕ) :
    ∀ chunk ∈ ((fragmentLoop nalu fragBudget hbudget).run offset).2, chunk.marker = false := by
  induction offset using (fragmentLoop nalu fragBudget hbudget).induction with
  | stop offset h => simp [Loop.run_stop h]
  | next offset offset' out h ih =>
    intro chunk hchunk
    rw [Loop.run_next h] at hchunk
    simp only [fragmentLoop,fragmentBody] at h
    split at h
    · cases h
      rcases List.mem_append.mp hchunk with hout | hrest
      · obtain rfl := List.mem_singleton.mp hout
        rfl
      · exact ih chunk hrest
    · cases h

theorem naluChunks_marker {chunk : RtpPayloadChunk} (h : chunk ∈ naluChunks maxPayload nalu) :
    chunk.marker = false := by
  unfold naluChunks packetizeNalu at h
  split at h
  · simp at h
  · split at h
    · obtain rfl := List.mem_singleton.mp h
      rfl
    · split at h
      · simp at h
      · exact fragmentLoop_marker _ _ _ chunk h

theorem naluChunks_ne_nil (hmax : 3 ≤ maxPayload) (hne : nalu ≠ []) : naluChunks maxPayload nalu ≠ [] := by
  have hbudget : maxPayload - 2 ≠ 0 := by omega
  unfold naluChunks packetizeNalu
  rw [if_neg (by simpa using hne),dif_neg hbudget]
  split
  · simp
  · next hlong =>
    have hbody : (fragmentLoop nalu (maxPayload - 2) (Nat.pos_of_ne_zero hbudget)).body 1 ≠ none := by
      simp only [fragmentLoop,fragmentBody]
      rw [if_pos (by omega)]
      simp
    obtain ⟨⟨offset,out⟩,hnext⟩ := Option.ne_none_iff_exists'.mp hbody
    rw [Option.getD_some,Loop.run_next hnext]
    simp only [fragmentLoop,fragmentBody] at hnext
    rw [if_pos (by omega)] at hnext
    cases hnext
    simp

theorem markLast_append_singleton (init : List RtpPayloadChunk) (chunk : RtpPayloadChunk) :
    markLast (init ++ [chunk]) = init ++ [{ chunk with marker := true }] := by
  induction init with
  | nil => rfl
  | cons c init ih =>
    cases init with
    | nil => rfl
    | cons d init =>
      rw [List.cons_append,List.cons_append,markLast,← List.cons_append,ih]
      · rfl
      · simp

theorem foldl_addNalu {nalus : List Bytes} (hne : nalus ≠ []) (h : ∀ u ∈ nalus, u ≠ []) {k count : ℕ}
    (hcount : k + nalus.length = count) (out : List RtpPayloadChunk) :
    (nalus.zipIdx k).foldl (addNalu maxPayload count) out =
      if Sendable maxPayload (nalus.getLast hne) then markLast (out ++ nalus.flatMap (naluChunks maxPayload))
      else out ++ nalus.flatMap (naluChunks maxPayload) := by
  induction nalus generalizing k out with
  | nil => exact absurd rfl hne
  | cons u nalus ih =>
    cases nalus with
    | nil =>
      by_cases hsend : Sendable maxPayload u
      · simp [addNalu,packetizeNalu_eq hsend (h u (by simp)),show k + 1 = count from hcount,hsend]
      · simp [addNalu,naluChunks,packetizeNalu_eq_none hsend,hsend]
    | cons v nalus =>
      have hk : k + 1 ≠ count := by
        simp only [List.length_cons] at hcount
        omega
      have hadd : addNalu maxPayload count out (u,k) = out ++ naluChunks maxPayload u := by
        by_cases hsend : Sendable maxPayload u
        · simp [addNalu,packetizeNalu_eq hsend (h u (by simp)),hk]
        · simp [addNalu,naluChunks,packetizeNalu_eq_none hsend]
      rw [List.zipIdx_cons, List.foldl_cons, ih (by simp) (fun w hw => h w (by simp [hw]))
        (by simp only [List.length_cons] at hcount ⊢; omega), hadd]
      simp [List.getLast_cons]

theorem H264Packetizer.packetizeAnnexbToPayloads_of_units
    (hne : splitAnnexbNalus annexbFrame ≠ []) : p.packetizeAnnexbToPayloads annexbFrame =
      if Sendable p.maxPayload ((splitAnnexbNalus annexbFrame).getLast hne) then
        markLast ((splitAnnexbNalus annexbFrame).flatMap (naluChunks p.maxPayload))
      else (splitAnnexbNalus annexbFrame).flatMap (naluChunks p.maxPayload) := by
  unfold H264Packetizer.packetizeAnnexbToPayloads
  rw [if_neg (by simpa using hne)]
  exact foldl_addNalu hne (fun u hu => splitAnnexbNalus_ne_nil hu) (Nat.zero_add _) []

theorem H264Packetizer.packetizeAnnexbToPayloads_eq (hmax : 3 ≤ p.maxPayload)
    (hne : splitAnnexbNalus annexbFrame ≠ []) : p.packetizeAnnexbToPayloads annexbFrame =
      markLast ((splitAnnexbNalus annexbFrame).flatMap (naluChunks p.maxPayload)) := by
  have hsend : Sendable p.maxPayload ((splitAnnexbNalus annexbFrame).getLast hne) := Or.inr hmax
  rw [p.packetizeAnnexbToPayloads_of_units hne,if_pos hsend]

theorem H264Packetizer.packetizeAnnexbToPayloads_concat (hmax : 3 ≤ p.maxPayload)
    (hne : splitAnnexbNalus annexbFrame ≠ []) : ∃ (init : List RtpPayloadChunk) (last : Bytes),
      p.packetizeAnnexbToPayloads annexbFrame = init ++ [⟨last,true⟩] ∧ (∀ c ∈ init, c.marker = false) ∧
      init.map (·.bytes) ++ [last] =
        ((splitAnnexbNalus annexbFrame).flatMap (naluChunks p.maxPayload)).map (·.bytes) := by
  have hchunks : (splitAnnexbNalus annexbFrame).flatMap (naluChunks p.maxPayload) ≠ [] := by
    obtain ⟨u,rest,hcons⟩ := List.exists_cons_of_ne_nil hne
    have hu : u ∈ splitAnnexbNalus annexbFrame := by simp [hcons]
    simp [hcons,naluChunks_ne_nil hmax (splitAnnexbNalus_ne_nil hu)]
  obtain ⟨init,last,hsplit⟩ := (List.eq_nil_or_concat' _).resolve_left hchunks
  refine ⟨init,last.bytes,?_,?_,?_⟩
  · rw [p.packetizeAnnexbToPayloads_eq hmax hne,hsplit,markLast_append_singleton]
  · intro c hc
    have hin : c ∈ (splitAnnexbNalus annexbFrame).flatMap (naluChunks p.maxPayload) := by simp [hsplit,hc]
    obtain ⟨u,_,hu⟩ := List.mem_flatMap.mp hin
    exact naluChunks_marker hu
  · simp [hsplit]
end RustyRtc.Media
