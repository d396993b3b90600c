import RustyRtc.Media.RoundTrip

/-! # Frames over a lossy channel

Losses inside a frame show as a jump of the sequence number or as a fragment without its
beginning. The expected number is forgotten at every frame boundary, so a loss at the head
of a frame that ends where a unit ends shows as neither.
-/
namespace RustyRtc.Media
open Rtp H264Depacketizer
variable {packet : RtpPacket} {arrived : List RtpPacket}
structure Frame where
  bytes : Bytes
  timestamp : UInt32
  deriving DecidableEq, Repr
def sendFrames (p : H264Packetizer) (payloadType : UInt8) (ssrc : UInt32) :
    UInt16 → List Frame → List (Frame × List RtpPacket)
  | _, [] => []
  | seq, f :: frames =>
    let (packets,next) := p.packetizeAnnexbToRtp f.bytes payloadType f.timestamp ssrc seq
    (f,packets) :: sendFrames p payloadType ssrc next frames
def ofFrame (f : Frame) (delivered : List RtpPacket) : List RtpPacket :=
  delivered.filter (fun packet => packet.timestamp = f.timestamp)
def continuesUnit : Bytes → Bool
  | header :: fuHeader :: _ => naluType header = 28 && fuHeader &&& 0x80 == 0
  | _ => false

/-- A loss that leaves no trace: the marker arrives, the first packet that arrives begins a
unit, and the numbers of those that arrive follow each other. -/
structure Undetected (sent arrived : List RtpPacket) : Prop where
  lost : arrived ≠ sent
  marked : ∃ last ∈ arrived.getLast?, last.marker = true
  begins : ∀ first ∈ arrived.head?, continuesUnit first.payload = false
  consecutive : arrived.IsChain (fun x y => y.seq = x.seq + 1)
def take (d : H264Depacketizer) (packet : RtpPacket) : H264Depacketizer :=
  (d.trackSeq packet.seq).absorb packet.payload

variable {ts : UInt32} {d : H264Depacketizer}
theorem pushPacket_eq_take (hts : d.curTs = some ts) (hp : packet.timestamp = ts) :
    d.pushPacket packet = (take d packet).finishIfMarker packet.marker := by
  have henter : d.enterTimestamp ts = d := by simp [H264Depacketizer.enterTimestamp,hts]
  simp only [pushPacket,pushRtp,hp,henter,take]
theorem trackSeq_curTs (d : H264Depacketizer) (seq : UInt16) : (d.trackSeq seq).curTs = d.curTs := by
  unfold trackSeq
  split
  · dsimp only
    split <;> rfl
  · rfl
theorem take_curTs (d : H264Depacketizer) (packet : RtpPacket) : (take d packet).curTs = d.curTs :=
  (keeps_absorb _ _).curTs.trans (trackSeq_curTs d packet.seq)

theorem take_uncorrupted (h : (take d packet).frameCorrupted = false) :
    d.frameCorrupted = false ∧ ∀ expect ∈ d.expectedSeq, packet.seq = expect := by
  have htrack : (d.trackSeq packet.seq).frameCorrupted = false := by
    cases hc : (d.trackSeq packet.seq).frameCorrupted with
    | false => rfl
    | true =>
      rw [take,(keeps_absorb _ _).frameCorrupted hc] at h
      cases h
  unfold trackSeq at htrack
  cases hexpect : d.expectedSeq with
  | none =>
    simp only [hexpect] at htrack
    exact ⟨htrack,by simp⟩
  | some expect =>
    simp only [hexpect] at htrack
    split at htrack
    · cases htrack
    · next heq => exact ⟨htrack,by simpa [eq_comm] using heq⟩

theorem take_expectedSeq (d : H264Depacketizer) (packet : RtpPacket) :
    (take d packet).expectedSeq = some (packet.seq + 1) := (keeps_absorb _ _).expectedSeq

theorem foldl_take_uncorrupted (h : (arrived.foldl take d).frameCorrupted = false) :
    d.frameCorrupted = false ∧ (∀ expect ∈ d.expectedSeq, ∀ first ∈ arrived.head?, first.seq = expect) ∧
      arrived.IsChain (fun x y => y.seq = x.seq + 1) := by
  induction arrived generalizing d with
  | nil => exact ⟨h,by simp,List.isChain_nil⟩
  | cons packet arrived ih =>
    obtain ⟨hstep,hnext,hchain⟩ := ih h
    obtain ⟨hbefore,hexpect⟩ := take_uncorrupted hstep
    refine ⟨hbefore,by simpa using hexpect,List.isChain_cons.mpr ⟨?_,hchain⟩⟩
    exact fun next hin => hnext _ (take_expectedSeq d packet) next hin

theorem take_clean_continues (h : (take (clean ts) packet).frameCorrupted = false) :
    continuesUnit packet.payload = false := by
  cases hc : continuesUnit packet.payload with
  | false => rfl
  | true =>
    unfold continuesUnit at hc
    split at hc
    · next header fuHeader body hpayload =>
      simp only [Bool.and_eq_true,decide_eq_true_eq,beq_iff_eq] at hc
      have htrack : (clean ts).trackSeq packet.seq = ⟨some ts,some (packet.seq + 1),[],none,false⟩ := rfl
      rw [take,hpayload,htrack,absorb,hc.1,if_neg (by decide),if_pos rfl] at h
      simp only [absorbFragment,hc.2,bne_self_eq_false,extendFragment,Bool.false_eq_true,↓reduceIte] at h
      rw [(keeps_completeFragment _ _).frameCorrupted rfl] at h
      cases h
    · cases hc

theorem pushAll_arrived (hts : d.curTs = some ts) (hstamp : ∀ packet ∈ arrived, packet.timestamp = ts)
    (hmark : arrived.Pairwise (fun packet _ => packet.marker = false)) : (∀ au, some au ∈ (d.pushAll arrived).2 →
      (∃ last ∈ arrived.getLast?, last.marker = true) ∧ (arrived.foldl take d).frameCorrupted = false) ∧
    ((d.pushAll arrived).1 = H264Depacketizer.new ∨ (d.pushAll arrived).1.curTs = some ts) := by
  induction arrived generalizing d with
  | nil => exact ⟨by simp [pushAll],Or.inr hts⟩
  | cons packet arrived ih =>
    have hpush := pushPacket_eq_take hts (hstamp packet (by simp))
    obtain ⟨hbefore,hrest⟩ := List.pairwise_cons.mp hmark
    cases hm : packet.marker with
    | true =>
      have hnil : arrived = [] := by
        cases arrived with
        | nil => rfl
        | cons next arrived => exact absurd (hbefore next (by simp)) (by simp [hm])
      subst hnil
      rw [hm] at hpush
      simp only [pushAll,hpush,finishIfMarker,Bool.not_true,Bool.false_eq_true,↓reduceIte]
      refine ⟨?_,Or.inl rfl⟩
      intro au hau
      refine ⟨⟨packet,rfl,hm⟩,?_⟩
      simp only [List.mem_singleton] at hau
      split at hau
      · next hok =>
        simp only [Bool.and_eq_true,Bool.not_eq_eq_eq_not,Bool.not_true] at hok
        exact hok.1
      · cases hau
    | false =>
      rw [hm] at hpush
      have hcur : (take d packet).curTs = some ts := (take_curTs d packet).trans hts
      obtain ⟨hout,hstate⟩ := ih hcur (fun q hq => hstamp q (by simp [hq])) hrest
      simp only [pushAll,hpush,finishIfMarker,Bool.not_false,↓reduceIte]
      refine ⟨?_,hstate⟩
      intro au hau
      have hin : some au ∈ ((take d packet).pushAll arrived).2 := by simpa using hau
      obtain ⟨⟨last,hlast,hmarked⟩,hclean⟩ := hout au hin
      refine ⟨⟨last,?_,hmarked⟩,hclean⟩
      rw [List.getLast?_cons,Option.mem_def.mp hlast]
      rfl

section Numbering
variable (payloadType : UInt8) (ssrc : UInt32)
open H264Packetizer
variable {f : Frame} {xs : List RtpPacket} (p : H264Packetizer)
theorem numberChunks_marker (seq : UInt16) {chunks : List RtpPayloadChunk}
    (h : chunks.Pairwise (fun chunk _ => chunk.marker = false)) :
    (numberChunks payloadType ts ssrc seq chunks).1.Pairwise (fun packet _ => packet.marker = false) := by
  induction chunks generalizing seq with
  | nil => exact List.Pairwise.nil
  | cons chunk chunks ih =>
    obtain ⟨hbefore,hrest⟩ := List.pairwise_cons.mp h
    refine List.pairwise_cons.mpr ⟨?_,ih (seq + 1) hrest⟩
    intro packet hin
    cases chunks with
    | nil => simp [numberChunks] at hin
    | cons next chunks => exact hbefore next (by simp)

theorem packetize_marker (hmax : 3 ≤ p.maxPayload) (bytes : Bytes) (seq : UInt16) :
    (p.packetizeAnnexbToRtp bytes payloadType ts ssrc seq).1.Pairwise (fun packet _ => packet.marker = false) := by
  apply numberChunks_marker
  by_cases hne : splitAnnexbNalus bytes = []
  · simp [packetizeAnnexbToPayloads,hne]
  · obtain ⟨init,last,hfull,hinit,_⟩ := p.packetizeAnnexbToPayloads_concat hmax hne
    rw [hfull]
    refine List.pairwise_append.mpr ⟨?_,List.pairwise_singleton _ _,fun c hc _ _ => hinit c hc⟩
    exact List.pairwise_of_forall_mem_list (fun c hc _ _ => hinit c hc)

/-- One frame of the run: an access unit comes out only if all of it arrived, unless the
loss is one that leaves no trace. -/
theorem pushAll_frame (hmax : 3 ≤ p.maxPayload) {bytes : Bytes} (seq : UInt16)
    (hunits : ∀ u ∈ splitAnnexbNalus bytes, SingleType u) (hd : Boundary d ts)
    (hsub : arrived.Sublist (p.packetizeAnnexbToRtp bytes payloadType ts ssrc seq).1)
    (hloss : ¬ Undetected (p.packetizeAnnexbToRtp bytes payloadType ts ssrc seq).1 arrived) :
    (∀ au, some au ∈ (d.pushAll arrived).2 → arrived = (p.packetizeAnnexbToRtp bytes payloadType ts ssrc seq).1 ∧
        au = annexb ((splitAnnexbNalus bytes).destutter (· ≠ ·))) ∧
    ((d.pushAll arrived).1 = d ∨ (d.pushAll arrived).1 = H264Depacketizer.new ∨
      (d.pushAll arrived).1.curTs = some ts) := by
  cases arrived with
  | nil => exact ⟨by simp [pushAll],Or.inl rfl⟩
  | cons first rest =>
    have hstamp : ∀ packet ∈ first :: rest, packet.timestamp = ts :=
      fun packet hin => numberChunks_timestamp payloadType ssrc seq _ packet (hsub.subset hin)
    have hmark : (first :: rest).Pairwise (fun packet _ => packet.marker = false) :=
      List.Pairwise.sublist hsub (packetize_marker payloadType ssrc p hmax bytes seq)
    have hpush := hd.pushAll_cons (hstamp first (by simp)) rest
    obtain ⟨hout,hstate⟩ := pushAll_arrived (d := clean ts) rfl hstamp hmark
    rw [hpush]
    refine ⟨?_,Or.inr hstate⟩
    intro au hau
    obtain ⟨hmarked,huncorrupted⟩ := hout au hau
    have hrest : (rest.foldl take (take (clean ts) first)).frameCorrupted = false := huncorrupted
    have hbegins : ∀ packet ∈ (first :: rest).head?, continuesUnit packet.payload = false := by
      intro packet hin
      obtain rfl : first = packet := by simpa using hin
      exact take_clean_continues (foldl_take_uncorrupted hrest).1
    have hall : first :: rest = (p.packetizeAnnexbToRtp bytes payloadType ts ssrc seq).1 := by
      by_contra hlost
      exact hloss ⟨hlost,hmarked,hbegins,(foldl_take_uncorrupted huncorrupted).2.2⟩
    have hne : splitAnnexbNalus bytes ≠ [] := by
      intro hnil
      simp [packetizeAnnexbToRtp,packetizeAnnexbToPayloads,hnil,numberChunks] at hall
    have hwhole := pushAll_packetize payloadType ssrc p hmax hne hunits seq hd
    rw [← hpush,hall,hwhole] at hau
    refine ⟨hall,?_⟩
    simpa using hau

theorem sendFrames_timestamp (seq : UInt16) (frames : List Frame) : ∀ sent ∈ sendFrames p payloadType ssrc seq frames,
      sent.1 ∈ frames ∧ ∀ packet ∈ sent.2, packet.timestamp = sent.1.timestamp := by
  induction frames generalizing seq with
  | nil => simp [sendFrames]
  | cons f frames ih =>
    refine List.forall_mem_cons.mpr ⟨⟨by simp,numberChunks_timestamp payloadType ssrc seq _⟩,?_⟩
    exact fun sent hsent => ⟨by simp [(ih _ sent hsent).1],(ih _ sent hsent).2⟩

theorem ofFrame_append_left {ys : List RtpPacket} (hxs : ∀ x ∈ xs, x.timestamp = f.timestamp)
    (hys : ∀ y ∈ ys, y.timestamp ≠ f.timestamp) : ofFrame f (xs ++ ys) = xs := by
  rw [ofFrame,List.filter_append,List.filter_eq_self.mpr (by simpa using hxs),
    List.filter_eq_nil_iff.mpr (by simpa using hys),List.append_nil]
theorem ofFrame_append_right (hxs : ∀ x ∈ xs, x.timestamp ≠ f.timestamp)
    (ys : List RtpPacket) : ofFrame f (xs ++ ys) = ofFrame f ys := by
  rw [ofFrame,List.filter_append,List.filter_eq_nil_iff.mpr (by simpa using hxs)]
  rfl

/-- The run: whatever subsequence of the packets arrives, an access unit that comes out is
that of a frame all of whose packets arrived. -/
theorem pushAll_frames (hmax : 3 ≤ p.maxPayload) (frames : List Frame) (seq : UInt16)
    (hstamps : (frames.map Frame.timestamp).Nodup)
    (hunits : ∀ f ∈ frames, ∀ u ∈ splitAnnexbNalus f.bytes, SingleType u) (delivered : List RtpPacket)
    (hsub : delivered.Sublist ((sendFrames p payloadType ssrc seq frames).map Prod.snd).flatten)
    (hloss : ∀ sent ∈ sendFrames p payloadType ssrc seq frames, ¬ Undetected sent.2 (ofFrame sent.1 delivered))
    (hd : ∀ f ∈ frames, Boundary d f.timestamp) : ∀ au, some au ∈ (d.pushAll delivered).2 →
      ∃ sent ∈ sendFrames p payloadType ssrc seq frames, ofFrame sent.1 delivered = sent.2 ∧
        au = annexb ((splitAnnexbNalus sent.1.bytes).destutter (· ≠ ·)) := by
  induction frames generalizing seq delivered d with
  | nil =>
    intro au hau
    obtain rfl : delivered = [] := by simpa [sendFrames] using hsub
    simp [pushAll] at hau
  | cons f frames ih =>
    obtain ⟨hf,hrest⟩ := List.nodup_cons.mp hstamps
    obtain ⟨arrived,later,rfl,harrived,hlater⟩ := List.sublist_append_iff.mp hsub
    have hnow : ∀ packet ∈ arrived, packet.timestamp = f.timestamp :=
      fun packet hin => numberChunks_timestamp payloadType ssrc seq _ packet (harrived.subset hin)
    have hthen : ∀ packet ∈ later, packet.timestamp ∈ frames.map Frame.timestamp := by
      intro packet hin
      obtain ⟨packets,hpackets,hmem⟩ := List.mem_flatten.mp (hlater.subset hin)
      obtain ⟨sent,hsent,rfl⟩ := List.mem_map.mp hpackets
      obtain ⟨hframe,hstamp⟩ := sendFrames_timestamp payloadType ssrc p _ frames sent hsent
      rw [hstamp packet hmem]
      exact List.mem_map_of_mem hframe
    have hhere : ofFrame f (arrived ++ later) = arrived :=
      ofFrame_append_left hnow (fun packet hin heq => hf (heq ▸ hthen packet hin))
    have hthere : ∀ g ∈ frames, ofFrame g (arrived ++ later) = ofFrame g later := by
      intro g hg
      refine ofFrame_append_right ?_ later
      intro packet hin heq
      exact hf (hnow packet hin ▸ heq ▸ List.mem_map_of_mem hg)
    have hfirst := hloss _ List.mem_cons_self
    rw [hhere] at hfirst
    obtain ⟨hout,hstate⟩ := pushAll_frame payloadType ssrc p hmax seq (hunits f (by simp)) (hd f (by simp))
      harrived hfirst
    have hboundary : ∀ g ∈ frames, Boundary (d.pushAll arrived).1 g.timestamp := by
      intro g hg
      rcases hstate with hsame | hnew | hcur
      · rw [hsame]
        exact hd g (by simp [hg])
      · exact Or.inl hnew
      · exact Or.inr ⟨f.timestamp,hcur,fun heq => hf (heq ▸ List.mem_map_of_mem hg)⟩
    have hlost : ∀ sent ∈ sendFrames p payloadType ssrc
        (p.packetizeAnnexbToRtp f.bytes payloadType f.timestamp ssrc seq).2 frames,
        ¬ Undetected sent.2 (ofFrame sent.1 later) := by
      intro sent hsent
      have hg := (sendFrames_timestamp payloadType ssrc p _ frames sent hsent).1
      rw [← hthere _ hg]
      exact hloss sent (List.mem_cons_of_mem _ hsent)
    intro au hau
    rw [pushAll_append] at hau
    rcases List.mem_append.mp hau with hau | hau
    · obtain ⟨hall,hau⟩ := hout au hau
      exact ⟨_,List.mem_cons_self,hhere.trans hall,hau⟩
    · obtain ⟨sent,hsent,hall,hau⟩ :=
        ih _ hrest (fun g hg => hunits g (by simp [hg])) later hlater hlost hboundary au hau
      have hg := (sendFrames_timestamp payloadType ssrc p _ frames sent hsent).1
      exact ⟨sent,List.mem_cons_of_mem _ hsent,(hthere _ hg).trans hall,hau⟩
end Numbering

/-- Frames of ordinary units with distinct timestamps, any in-order subsequence of their
packets: when no loss goes undetected, each access unit that comes out is that of a frame
that arrived whole, byte for byte unless the frame repeats a unit. -/
theorem lossy_delivery_complete (p : H264Packetizer) (hmax : 3 ≤ p.maxPayload) (payloadType : UInt8)
    (ssrc : UInt32) (seq : UInt16) (frames : List Frame) (hstamps : (frames.map Frame.timestamp).Nodup)
    (hunits : ∀ f ∈ frames, ∀ u ∈ splitAnnexbNalus f.bytes, SingleType u) (delivered : List RtpPacket)
    (hsub : delivered.Sublist ((sendFrames p payloadType ssrc seq frames).map Prod.snd).flatten)
    (hloss : ∀ sent ∈ sendFrames p payloadType ssrc seq frames, ¬ Undetected sent.2 (ofFrame sent.1 delivered)) :
    ∀ au, some au ∈ (H264Depacketizer.new.pushAll delivered).2 →
      ∃ sent ∈ sendFrames p payloadType ssrc seq frames, ofFrame sent.1 delivered = sent.2 ∧
        au = annexb ((splitAnnexbNalus sent.1.bytes).destutter (· ≠ ·)) ∧
        ((splitAnnexbNalus sent.1.bytes).IsChain (· ≠ ·) →
          annexb (splitAnnexbNalus sent.1.bytes) = sent.1.bytes → au = sent.1.bytes) := by
  intro au hau
  obtain ⟨sent,hsent,hall,hframe⟩ := pushAll_frames payloadType ssrc p hmax frames seq hstamps hunits delivered
    hsub hloss (fun _ _ => Or.inl rfl) au hau
  refine ⟨sent,hsent,hall,hframe,?_⟩
  intro hchain hjoined
  rw [hframe, List.destutter_of_isChain _ _ hchain, hjoined]

def sampleFrames : List Frame := [⟨annexb [[0x67,1],[0x65,2]],9000⟩,⟨annexb [[0x41,3]],12000⟩]
theorem sendFrames_sampleFrames : sendFrames (H264Packetizer.new 1200) 96 7 65535 sampleFrames =
      [(⟨annexb [[0x67,1],[0x65,2]],9000⟩,
          [RtpPacket.simple 96 false 65535 9000 7 [0x67,1],RtpPacket.simple 96 true 0 9000 7 [0x65,2]]),
        (⟨annexb [[0x41,3]],12000⟩,[RtpPacket.simple 96 true 1 12000 7 [0x41,3]])] := by
  decide +kernel

theorem lossy_delivery_without_marker :
    ∃ sent ∈ sendFrames (H264Packetizer.new 1200) 96 7 65535 sampleFrames,
      ofFrame sent.1 [RtpPacket.simple 96 false 65535 9000 7 [0x67,1],RtpPacket.simple 96 true 1 12000 7 [0x41,3]] =
          sent.2 ∧
        annexb [[0x41,3]] = annexb ((splitAnnexbNalus sent.1.bytes).destutter (· ≠ ·)) ∧
        ((splitAnnexbNalus sent.1.bytes).IsChain (· ≠ ·) →
          annexb (splitAnnexbNalus sent.1.bytes) = sent.1.bytes → annexb [[0x41,3]] = sent.1.bytes) := by
  have hsplit : sampleFrames.map (fun f => splitAnnexbNalus f.bytes) = [[[0x67,1],[0x65,2]],[[0x41,3]]] := by
    decide +kernel
  refine lossy_delivery_complete (H264Packetizer.new 1200) (by decide) 96 7 65535 sampleFrames (by decide) ?_ _
    ?_ ?_ _ ?_
  · intro f hf u hu
    have hin := List.mem_map_of_mem (f := fun f => splitAnnexbNalus f.bytes) hf
    rw [hsplit] at hin
    simp only [List.mem_cons, List.not_mem_nil, or_false] at hin
    rcases hin with heq | heq
    · rw [heq] at hu
      simp only [List.mem_cons, List.not_mem_nil, or_false] at hu
      rcases hu with rfl | rfl <;> exact ⟨_,_,rfl,by decide,by decide⟩
    · rw [heq, List.mem_singleton] at hu
      exact ⟨_,_,hu,by decide,by decide⟩
  · rw [sendFrames_sampleFrames]
    decide
  · rw [sendFrames_sampleFrames]
    intro sent hsent hloss
    simp only [List.mem_cons, List.not_mem_nil, or_false] at hsent
    rcases hsent with rfl | rfl
    · exact absurd hloss.marked (by decide)
    · exact hloss.lost (by decide)
  · decide +kernel

/-- The first packet of the first frame is lost, and the rest of it comes out as a frame. -/
theorem headless_frame_emitted :
    [RtpPacket.simple 96 true 0 9000 7 [0x65,2]].Sublist
        ((sendFrames (H264Packetizer.new 1200) 96 7 65535 sampleFrames).map Prod.snd).flatten ∧
      (H264Depacketizer.new.pushAll [RtpPacket.simple 96 true 0 9000 7 [0x65,2]]).2 = [some (annexb [[0x65,2]])] ∧
      ∀ f ∈ sampleFrames, f.bytes ≠ annexb [[0x65,2]] := by
  rw [sendFrames_sampleFrames]
  decide +kernel
end RustyRtc.Media
