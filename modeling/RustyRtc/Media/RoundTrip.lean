import Mathlib.Data.List.Destutter
import RustyRtc.Media.Depacketizer
import RustyRtc.Media.Packetizer

/-! # Packetizing and reassembling a frame

The simulation between the fragmentation loop and the reassembly buffer: after the
fragments up to an offset, the buffer holds the unit up to that offset. Units, then
frames, then packets with numbers and timestamps are built on it.
-/
namespace RustyRtc.Media
open Rtp H264Depacketizer
variable {nalu : Bytes} {d : H264Depacketizer} {ts : UInt32} {maxPayload : ℕ} {packet : RtpPacket} (start : Bool)
theorem naluType_fuIndicator (h : UInt8) : naluType (fuIndicator h) = 28 := by
  revert h
  exact forall_byte (by decide +kernel)
theorem fuHeader_start (last : Bool) (h : UInt8) : (fuHeader start last h &&& 0x80 != 0) = start := by
  revert h
  cases start <;> cases last <;> exact forall_byte (by decide +kernel)
theorem fuHeader_last (last : Bool) (h : UInt8) : (fuHeader start last h &&& 0x40 != 0) = last := by
  revert h
  cases start <;> cases last <;> exact forall_byte (by decide +kernel)
theorem origHdr_eq (last : Bool) (h : UInt8) : (fuIndicator h &&& 0xE0) ||| (fuHeader start last h &&& 0x1F) = h := by
  revert h
  cases start <;> cases last <;> exact forall_byte (by decide +kernel)
theorem absorb_fragment (d : H264Depacketizer) (h : UInt8) (start last : Bool) (body : Bytes) :
    d.absorb (fuIndicator h :: fuHeader start last h :: body) =
      (d.extendFragment start h body).completeFragment last := by
  rw [absorb,naluType_fuIndicator,if_neg (by decide),if_pos rfl]
  simp only [absorbFragment,fuHeader_start,fuHeader_last,origHdr_eq]
def absorbAll (d : H264Depacketizer) (payloads : List Bytes) : H264Depacketizer := payloads.foldl absorb d
theorem absorbAll_append (d : H264Depacketizer) (xs ys : List Bytes) :
    absorbAll d (xs ++ ys) = absorbAll (absorbAll d xs) ys := List.foldl_append
theorem absorbAll_cons (d : H264Depacketizer) (x : Bytes) (ys : List Bytes) :
    absorbAll d (x :: ys) = absorbAll (d.absorb x) ys := rfl

/-- From any offset on, with the unit so far in the buffer, the loop's fragments complete
the unit. The first fragment needs no buffer. -/
theorem absorbAll_fragmentLoop {header : UInt8} {rest : Bytes} (fragBudget : ℕ) (hbudget : 0 < fragBudget)
    (offset : ℕ) : ∀ d : H264Depacketizer, 1 ≤ offset → offset < (header :: rest).length →
      (offset = 1 ∨ d.fua = some ⟨header,(header :: rest).take offset⟩) →
      absorbAll d (((fragmentLoop (header :: rest) fragBudget hbudget).run offset).2.map (·.bytes)) =
        { d with fua := none }.pushIfNew (header :: rest) := by
  induction offset using (fragmentLoop (header :: rest) fragBudget hbudget).induction with
  | stop offset h =>
    intro d _ hlt _
    simp [fragmentLoop,fragmentBody] at h
    simp at hlt
    omega
  | next offset offset' out h ih =>
    intro d hpos hlt hbuf
    rw [Loop.run_next h]
    simp only [fragmentLoop,fragmentBody,if_pos hlt] at h
    cases h
    set take := min ((header :: rest).length - offset) fragBudget with htake
    have hextend : d.extendFragment (decide (offset = 1)) header (((header :: rest).drop offset).take take) =
        { d with fua := some ⟨header,(header :: rest).take (offset + take)⟩ } := by
      have hsplit : (header :: rest).take (offset + take) =
          (header :: rest).take offset ++ ((header :: rest).drop offset).take take := List.take_add
      by_cases hfirst : offset = 1
      · subst hfirst
        simp [extendFragment,hsplit]
      · have hst := hbuf.resolve_left hfirst
        simp [extendFragment,hfirst,hst,hsplit]
    rw [List.map_append,List.map_cons,List.map_nil,List.singleton_append,absorbAll_cons]
    simp only [List.getD_cons_zero]
    rw [absorb_fragment,hextend]
    by_cases hlast : offset + take = (header :: rest).length
    · have hstop : (fragmentLoop (header :: rest) fragBudget hbudget).body (offset + take) = none := by
        simp only [fragmentLoop,fragmentBody]
        rw [if_neg (by omega)]
      rw [Loop.run_stop hstop,hlast,List.take_length]
      simp [completeFragment,absorbAll,pushVecIfNew]
    · have hmore : offset + take < (header :: rest).length := by omega
      simp only [hlast,decide_false,completeFragment,Bool.false_eq_true,↓reduceIte]
      rw [ih _ (by omega) hmore (Or.inr rfl)]

def SingleType (nalu : Bytes) : Prop :=
  ∃ header rest, nalu = header :: rest ∧ 1 ≤ naluType header ∧ naluType header ≤ 23
theorem SingleType.ne_nil (h : SingleType nalu) : nalu ≠ [] := by
  obtain ⟨header,rest,rfl,_⟩ := h
  exact List.cons_ne_nil header rest
theorem absorb_single (h : SingleType nalu) (hfua : d.fua = none) : d.absorb nalu = d.pushIfNew nalu := by
  obtain ⟨header,rest,rfl,htype⟩ := h
  rw [absorb,if_pos htype]
  simp [dropFragment,hfua,pushSliceIfNew]

theorem absorbAll_naluChunks (hmax : 3 ≤ maxPayload) (h : SingleType nalu) (hfua : d.fua = none) :
    absorbAll d ((naluChunks maxPayload nalu).map (·.bytes)) = d.pushIfNew nalu := by
  have hbudget : maxPayload - 2 ≠ 0 := by omega
  unfold naluChunks packetizeNalu
  rw [if_neg (by simpa using h.ne_nil),dif_neg hbudget]
  split
  · exact absorb_single h hfua
  · next hlong =>
    obtain ⟨header,rest,rfl,_⟩ := h
    have hclear : { d with fua := none } = d := by rw [← hfua]
    rw [Option.getD_some,absorbAll_fragmentLoop _ _ 1 d le_rfl (by omega) (Or.inl rfl),hclear]

def pushNew (nalus : List Bytes) (nalu : Bytes) : List Bytes :=
  if nalus.getLast? = some nalu then nalus else nalus ++ [nalu]
theorem pushIfNew_eq (d : H264Depacketizer) (nalu : Bytes) :
    d.pushIfNew nalu = { d with nalus := pushNew d.nalus nalu } := by
  unfold pushIfNew pushNew
  split <;> rfl

theorem absorbAll_units (hmax : 3 ≤ maxPayload) {nalus : List Bytes}
    (h : ∀ u ∈ nalus, SingleType u) (d : H264Depacketizer) (hfua : d.fua = none) :
    absorbAll d ((nalus.flatMap (naluChunks maxPayload)).map (·.bytes)) =
      { d with nalus := nalus.foldl pushNew d.nalus } := by
  induction nalus generalizing d with
  | nil => rfl
  | cons u nalus ih =>
    rw [List.flatMap_cons,List.map_append,absorbAll_append,absorbAll_naluChunks hmax (h u (by simp)) hfua,
      pushIfNew_eq]
    exact ih (fun v hv => h v (by simp [hv])) { d with nalus := pushNew d.nalus u } hfua

theorem foldl_pushNew_concat (front : List Bytes) (u : Bytes) (nalus : List Bytes) :
    nalus.foldl pushNew (front ++ [u]) = front ++ nalus.destutter' (· ≠ ·) u := by
  induction nalus generalizing front u with
  | nil => rfl
  | cons v nalus ih =>
    rw [List.foldl_cons,List.destutter'_cons]
    by_cases huv : u = v
    · subst huv
      rw [if_neg (by simp),show pushNew (front ++ [u]) u = front ++ [u] by simp [pushNew]]
      exact ih front u
    · rw [if_pos huv,show pushNew (front ++ [u]) v = (front ++ [u]) ++ [v] by simp [pushNew,huv],ih]
      simp

theorem foldl_pushNew (nalus : List Bytes) : nalus.foldl pushNew [] = nalus.destutter (· ≠ ·) := by
  cases nalus with
  | nil => rfl
  | cons u nalus => exact foldl_pushNew_concat [] u nalus
def clean (ts : UInt32) : H264Depacketizer := ⟨some ts,none,[],none,false⟩

/-- Between two frames, or inside one with another timestamp. -/
def Boundary (d : H264Depacketizer) (ts : UInt32) : Prop :=
  d = H264Depacketizer.new ∨ ∃ other, d.curTs = some other ∧ other ≠ ts
theorem Boundary.enterTimestamp (h : Boundary d ts) : d.enterTimestamp ts = clean ts := by
  rcases h with rfl | ⟨other,hcur,hne⟩
  · rfl
  · simp [H264Depacketizer.enterTimestamp,hcur,hne.symm,resetForNewTs,clean]
theorem Boundary.pushAll_cons (h : Boundary d ts) (hts : packet.timestamp = ts) (rest : List RtpPacket) :
    d.pushAll (packet :: rest) = (clean ts).pushAll (packet :: rest) := by
  have hclean : (clean ts).enterTimestamp ts = clean ts := by simp [H264Depacketizer.enterTimestamp,clean]
  simp only [pushAll,pushPacket,pushRtp,hts,h.enterTimestamp,hclean]

theorem absorb_expectedSeq (d : H264Depacketizer) (e : Option UInt16) (payload : Bytes) :
    { d with expectedSeq := e }.absorb payload = { d.absorb payload with expectedSeq := e } := by
  cases payload with
  | nil => rfl
  | cons header rest =>
    simp only [absorb, apply_ite (fun d : H264Depacketizer => { d with expectedSeq := e })]
    congr 1
    · cases hfua : d.fua <;> simp [dropFragment,hfua,pushSliceIfNew,pushIfNew_eq,corrupt]
    · congr 1
      cases rest with
      | nil => rfl
      | cons fuHeader body =>
        simp only [absorbFragment]
        cases hstart : fuHeader &&& 0x80 != 0 <;> cases hlast : fuHeader &&& 0x40 != 0 <;>
          cases hfua : d.fua <;> simp [extendFragment,completeFragment,hfua,pushVecIfNew,pushIfNew_eq,corrupt]

theorem keeps_absorbAll (d : H264Depacketizer) (payloads : List Bytes) : Keeps d (absorbAll d payloads) := by
  induction payloads generalizing d with
  | nil => exact ⟨rfl,rfl,id⟩
  | cons payload payloads ih => exact (keeps_absorb d payload).trans (ih _)
theorem absorbAll_expectedSeq (d : H264Depacketizer) (e : Option UInt16) (payloads : List Bytes) :
    absorbAll { d with expectedSeq := e } payloads = { absorbAll d payloads with expectedSeq := e } := by
  induction payloads generalizing d with
  | nil => rfl
  | cons payload payloads ih => rw [absorbAll_cons,absorb_expectedSeq,ih,absorbAll_cons]

theorem pushPacket_inStep (hts : d.curTs = some packet.timestamp)
    (hseq : d.expectedSeq = none ∨ d.expectedSeq = some packet.seq) : d.pushPacket packet =
      { d.absorb packet.payload with expectedSeq := some (packet.seq + 1) }.finishIfMarker packet.marker := by
  have henter : d.enterTimestamp packet.timestamp = d := by simp [H264Depacketizer.enterTimestamp,hts]
  have htrack : d.trackSeq packet.seq = { d with expectedSeq := some (packet.seq + 1) } := by
    rcases hseq with hnone | hsome
    · simp [trackSeq,hnone]
    · simp [trackSeq,hsome]
  rw [← absorb_expectedSeq,← htrack,pushPacket,pushRtp,henter]

/-- Packets of one timestamp with consecutive numbers, the marker on the last one only. -/
structure OneFrame (ts : UInt32) (packets : List RtpPacket) : Prop where
  timestamp : ∀ packet ∈ packets, packet.timestamp = ts
  consecutive : packets.IsChain fun x y => y.seq = x.seq + 1
  unmarked : ∀ packet ∈ packets.dropLast, packet.marker = false
  marked : ∃ last ∈ packets.getLast?, last.marker = true

theorem pushAll_concat {front : List RtpPacket} {last : RtpPacket}
    (hstamp : ∀ packet ∈ front ++ [last], packet.timestamp = ts)
    (hchain : (front ++ [last]).IsChain fun x y => y.seq = x.seq + 1)
    (hfront : ∀ packet ∈ front, packet.marker = false) (hlast : last.marker = true) (hts : d.curTs = some ts)
    (hseq : ∀ first ∈ (front ++ [last]).head?, d.expectedSeq = none ∨ d.expectedSeq = some first.seq) :
    d.pushAll (front ++ [last]) = (H264Depacketizer.new,List.replicate front.length none ++
      [((absorbAll d ((front ++ [last]).map (·.payload))).finishIfMarker true).2]) := by
  induction front generalizing d with
  | nil =>
    have hstep := pushPacket_inStep (hts.trans (by rw [hstamp last (by simp)])) (hseq last rfl)
    rw [hlast] at hstep
    simp only [List.nil_append,pushAll,hstep]
    rfl
  | cons packet front ih =>
    have hstep := pushPacket_inStep (hts.trans (by rw [hstamp packet (by simp)])) (hseq packet rfl)
    rw [hfront packet (by simp)] at hstep
    have hts' : { d.absorb packet.payload with expectedSeq := some (packet.seq + 1) }.curTs = some ts :=
      (keeps_absorb d packet.payload).curTs.trans hts
    have hchain' := List.isChain_cons.mp hchain
    have hrest := ih (fun q hq => hstamp q (by simp at hq ⊢; tauto)) hchain'.2 (fun q hq => hfront q (by simp [hq]))
      hts' (fun first hfirst => Or.inr (by rw [hchain'.1 first hfirst]))
    rw [absorbAll_expectedSeq] at hrest
    simp only [List.cons_append,pushAll,hstep,finishIfMarker,Bool.not_false,↓reduceIte,hrest,List.map_cons,
      absorbAll_cons,List.length_cons,List.replicate_succ]
    rfl

theorem OneFrame.pushAll {packets : List RtpPacket} (h : OneFrame ts packets) (hd : Boundary d ts) :
    d.pushAll packets = (H264Depacketizer.new,List.replicate (packets.length - 1) none ++
      [((absorbAll (clean ts) (packets.map (·.payload))).finishIfMarker true).2]) := by
  obtain ⟨last,hlast,hmarked⟩ := h.marked
  obtain ⟨front,rfl⟩ := List.getLast?_eq_some_iff.mp hlast
  obtain ⟨first,rest,hcons⟩ := List.exists_cons_of_ne_nil (show front ++ [last] ≠ [] by simp)
  have hstamp : first.timestamp = ts := h.timestamp first (by simp [hcons])
  have hrun := pushAll_concat h.timestamp h.consecutive (by simpa using h.unmarked) hmarked
    (d := clean ts) rfl (fun _ _ => Or.inl rfl)
  rw [hcons,hd.pushAll_cons hstamp,← hcons,hrun]
  simp

section Packets
variable (payloadType : UInt8) {ts : UInt32} (ssrc : UInt32)
open H264Packetizer

theorem numberChunks_timestamp (seq : UInt16) (chunks : List RtpPayloadChunk) :
    ∀ packet ∈ (numberChunks payloadType ts ssrc seq chunks).1, packet.timestamp = ts := by
  induction chunks generalizing seq with
  | nil => simp [numberChunks]
  | cons chunk chunks ih => exact List.forall_mem_cons.mpr ⟨rfl,ih (seq + 1)⟩
def chunkOf (packet : RtpPacket) : RtpPayloadChunk := ⟨packet.payload,packet.marker⟩
theorem map_chunkOf_numberChunks (seq : UInt16) (chunks : List RtpPayloadChunk) :
    (numberChunks payloadType ts ssrc seq chunks).1.map chunkOf = chunks := by
  induction chunks generalizing seq with
  | nil => rfl
  | cons chunk chunks ih => exact congrArg (chunk :: ·) (ih (seq + 1))

theorem numberChunks_consecutive (seq : UInt16) (chunks : List RtpPayloadChunk) :
    (∀ first ∈ (numberChunks payloadType ts ssrc seq chunks).1.head?, first.seq = seq) ∧
      (numberChunks payloadType ts ssrc seq chunks).1.IsChain fun x y => y.seq = x.seq + 1 := by
  induction chunks generalizing seq with
  | nil => exact ⟨by simp [numberChunks],List.isChain_nil⟩
  | cons chunk chunks ih =>
    refine ⟨?_,List.isChain_cons.mpr ⟨fun next hnext => (ih (seq + 1)).1 next hnext,(ih (seq + 1)).2⟩⟩
    rintro first ⟨⟩
    rfl

theorem numberChunks_oneFrame (seq : UInt16) {front : List RtpPayloadChunk}
    (hfront : ∀ c ∈ front, c.marker = false) (last : Bytes) :
    OneFrame ts (numberChunks payloadType ts ssrc seq (front ++ [⟨last,true⟩])).1 := by
  have hstamp := @numberChunks_timestamp payloadType ts ssrc seq (front ++ [⟨last,true⟩])
  have hchain := (@numberChunks_consecutive payloadType ts ssrc seq (front ++ [⟨last,true⟩])).2
  have hchunks := @map_chunkOf_numberChunks payloadType ts ssrc seq (front ++ [⟨last,true⟩])
  obtain ⟨packets,lasts,hsplit,rfl,hlasts⟩ := List.map_eq_append_iff.mp hchunks
  obtain ⟨packet,rfl,hpacket⟩ := List.map_eq_singleton_iff.mp hlasts
  rw [hsplit] at hstamp hchain ⊢
  refine ⟨hstamp,hchain,?_,packet,by simp,congrArg RtpPayloadChunk.marker hpacket⟩
  intro q hq
  exact hfront (chunkOf q) (List.mem_map_of_mem (by simpa using hq))

theorem pushAll_packetize (p : H264Packetizer) (hmax : 3 ≤ p.maxPayload) {bytes : Bytes}
    (hne : splitAnnexbNalus bytes ≠ []) (hunits : ∀ u ∈ splitAnnexbNalus bytes, SingleType u)
    (seq : UInt16) (hd : Boundary d ts) :
    let packets := (p.packetizeAnnexbToRtp bytes payloadType ts ssrc seq).1
    d.pushAll packets = (H264Depacketizer.new,List.replicate (packets.length - 1) none ++
      [some (annexb ((splitAnnexbNalus bytes).destutter (· ≠ ·)))]) := by
  intro packets
  obtain ⟨front,last,hfull,hfront,hbytes⟩ := p.packetizeAnnexbToPayloads_concat hmax hne
  have hpackets : packets = (numberChunks payloadType ts ssrc seq (front ++ [⟨last,true⟩])).1 := by
    simp only [packets,packetizeAnnexbToRtp,hfull]
  have hframe : OneFrame ts packets := hpackets ▸ numberChunks_oneFrame payloadType ssrc seq hfront last
  have hpayloads : packets.map (·.payload) =
      ((splitAnnexbNalus bytes).flatMap (naluChunks p.maxPayload)).map (·.bytes) := by
    have hchunks := @map_chunkOf_numberChunks payloadType ts ssrc seq (front ++ [⟨last,true⟩])
    rw [← hpackets] at hchunks
    have hmap := congrArg (List.map RtpPayloadChunk.bytes) hchunks
    rw [List.map_map,List.map_append] at hmap
    exact hmap.trans hbytes
  have hcollapsed : (splitAnnexbNalus bytes).destutter (· ≠ ·) ≠ [] := by simpa using hne
  rw [hframe.pushAll hd,hpayloads,absorbAll_units hmax hunits (clean ts) rfl]
  simp [finishIfMarker,clean,foldl_pushNew,hcollapsed]
end Packets

/-- The packets of a frame reach a depacketizer at a frame boundary: nothing comes out until
the last packet, and then the frame with runs of equal units collapsed. -/
theorem frame_roundTrip (p : H264Packetizer) (hmax : 3 ≤ p.maxPayload) (nalus : List Bytes) (hne : nalus ≠ [])
    (hnalus : ∀ u ∈ nalus, SingleType u ∧ CodeFree u) (payloadType : UInt8) (ts ssrc : UInt32) (seq : UInt16)
    (d : H264Depacketizer) (hd : d = H264Depacketizer.new ∨ ∃ other, d.curTs = some other ∧ other ≠ ts) :
    (d.pushAll (p.packetizeAnnexbToRtp (annexb nalus) payloadType ts ssrc seq).1).2 =
      List.replicate ((p.packetizeAnnexbToRtp (annexb nalus) payloadType ts ssrc seq).1.length - 1) none ++
        [some (annexb (nalus.destutter (· ≠ ·)))] := by
  have hsplit : splitAnnexbNalus (annexb nalus) = nalus :=
    splitAnnexbNalus_annexb hne (fun u hu => ⟨(hnalus u hu).1.ne_nil,(hnalus u hu).2⟩)
  have hrun := pushAll_packetize payloadType ssrc p hmax (by rw [hsplit]; exact hne)
    (by rw [hsplit]; exact fun u hu => (hnalus u hu).1) seq hd
  rw [hsplit] at hrun
  exact congrArg Prod.snd hrun

theorem frame_roundTrip_fragmented :
    (H264Depacketizer.new.pushAll ((H264Packetizer.new 16).packetizeAnnexbToRtp
        (annexb [[0x67,1,0],[0x65,1,2,3,4,5,0,0],[0x65,1,2,3,4,5,0,0]]) 96 9000 7 65534).1).2 =
      List.replicate 8 none ++ [some (annexb [[0x67,1,0],[0x65,1,2,3,4,5,0,0]])] := by
  have hnalus : ∀ u ∈ [[0x67,1,0],[0x65,1,2,3,4,5,0,0],[0x65,1,2,3,4,5,0,0]], SingleType u ∧ CodeFree u := by
    intro u hu
    simp only [List.mem_cons, List.not_mem_nil, or_false] at hu
    rcases hu with rfl | rfl | rfl <;> exact ⟨⟨_,_,rfl,by decide,by decide⟩,by decide⟩
  have hcount : ((H264Packetizer.new 16).packetizeAnnexbToRtp
      (annexb [[0x67,1,0],[0x65,1,2,3,4,5,0,0],[0x65,1,2,3,4,5,0,0]]) 96 9000 7 65534).1.length = 9 := by
    decide +kernel
  rw [frame_roundTrip (H264Packetizer.new 16) (by decide) _ (by simp) hnalus 96 9000 7 65534 _ (Or.inl rfl), hcount]
  decide +kernel
end RustyRtc.Media
