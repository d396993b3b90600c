import RustyRtc.Core.Demultiplexing
import RustyRtc.Media.AudioSending
import RustyRtc.Media.RoundTrip
import RustyRtc.Rtp.Session
import RustyRtc.Srtp.Keystream

/-! # A frame on its way

From the packetizer worker through the session of one peer and the session of the other to the depacketizer worker.
-/
namespace RustyRtc.Media
open Rtp Srtp SlidingWindow H264Packetizer RtpSession

/-- The chunks that an order is cut into. -/
def packetizerWorker (order : PacketizeOrder) : List RtpPayloadChunk :=
  match order.codecSpec with
  | .h264 => (H264Packetizer.new 1200).packetizeAnnexbToPayloads order.payload
  | .g711u => [⟨order.payload,true⟩]

/-- The first error ends the frame. -/
def sendRtpChunksForFrame (P : Primitives) (localSsrc : UInt32) :
    SendSide → List Payload → SendSide × List Bytes × Except RtpSessionError Unit
  | s, [] => (s,[],if (s.sendStreams localSsrc).isNone then .error (.sendStreamMissing localSsrc) else .ok ())
  | s, p :: ps =>
    match s.sendRtpPayload P ⟨localSsrc,p⟩ with
    | (s,datagram, .error e) => (s,datagram.toList, .error e)
    | (s,datagram, .ok ()) =>
      let (s,datagrams,result) := sendRtpChunksForFrame P localSsrc s ps
      (s,datagram.toList ++ datagrams,result)

def sendAllFrames (P : Primitives) (localSsrc : UInt32) : SendSide → List (List Payload) → List Bytes
  | _, [] => []
  | s, ps :: frames =>
    let (s,datagrams,_) := sendRtpChunksForFrame P localSsrc s ps
    datagrams ++ sendAllFrames P localSsrc s frames

/-- The packets that the calls encode for the payloads, before they are protected. -/
def packetsSent (P : Primitives) (localSsrc : UInt32) : SendSide → List Payload → List RtpPacket
  | _, [] => []
  | s, p :: ps => ((s.sendStreams localSsrc).map (·.packet p)).toList ++
    packetsSent P localSsrc (s.sendRtpPayload P ⟨localSsrc,p⟩).1 ps

/-- A datagram, with what the clocks read when it is handled. -/
structure Datagram where
  bytes : Bytes
  now : ℕ
  clock : ℕ → ℕ
  nanos : ℕ

/-- A turn of the inbound loop. -/
def inbound (repair : Bytes → String) (P : Primitives) (x : Option SrtpContext × RtpSession) (a : Datagram) :
    Option SrtpContext × RtpSession :=
  match Core.mediaKind a.bytes with
  | .tooShort | .invalidHeader => x
  | .rtcp =>
    (x.1,((Rtcp.RtcpPacket.decodeCompound repair a.bytes).toOption.getD []).foldl (·.handleRtcp a.nanos a.now ·) x.2)
  | .rtp =>
    let (ctx,opened) := x.1.elim (none,some a.bytes) fun ctx => (ctx.unprotect P a.bytes).map some Except.toOption
    match opened.bind fun pkt => (RtpPacket.decode pkt).toOption with
    | none => (ctx,x.2)
    | some packet => (ctx,x.2.handle (.rtp ⟨packet,a.now,a.clock⟩))

inductive DepacketizerEvent where
  | annexBFrameReady (bytes : Bytes)
  | encodedAudioFrameReady (payload : Bytes)
  deriving DecidableEq, Repr

/-- `codecOf` knows the payload types that are allowed. -/
def depacketizerWorker (codecOf : UInt8 → Option CodecSpec) (d : H264Depacketizer) (pkt : RtpIn) :
    H264Depacketizer × Option DepacketizerEvent :=
  match codecOf pkt.pt with
  | none => (d,none)
  | some .h264 => (d.pushRtp pkt.payload pkt.marker pkt.timestamp90khz pkt.seq).map id (·.map .annexBFrameReady)
  | some .g711u => (d,some (.encodedAudioFrameReady pkt.payload))

variable {P : Primitives} {I : ℕ} {ssrc : UInt32} {pt : UInt8} {seq : UInt16} {s : SendSide} {r : RtpSession}
variable {st : RtpSendStream} {inn ctx : SrtpContext} {a : Reception} (repair : Bytes → String)

theorem receive_next (rs : RtpRecvStream) (hremote : rs.remoteSsrc.getD a.packet.ssrc = a.packet.ssrc)
    (hbuffer : rs.jitterBuffer = ∅) (hnext : rs.nextSeq.getD a.packet.seq = a.packet.seq) :
    (rs.receive a).2 = [RtpIn.ofPacket a.packet] ∧ (rs.receive a).1.remoteSsrc = some a.packet.ssrc ∧
      (rs.receive a).1.jitterBuffer = ∅ ∧ (rs.receive a).1.nextSeq = some (a.packet.seq + 1) := by
  have hrest : (AList.singleton a.packet.seq ⟨a.packet,a.now⟩ : JitterBuffer).erase a.packet.seq = ∅ := by
    ext1
    exact List.kerase_cons_eq rfl
  have hfound := AList.lookup_insert (a := a.packet.seq) (b := ⟨a.packet,a.now⟩) (∅ : JitterBuffer)
  rw [AList.insert_empty] at hfound
  have hrun := (playoutLoop_single rs.maxLatency a.clock hfound (by rw [hrest]; rfl) 0).1
  rw [hrest] at hrun
  simp [RtpRecvStream.receive,RtpRecvStream.receiveRtpPacket,RtpRecvStream.processBuffer,hremote,hbuffer,hnext,hrun]

/-- The stream of the source, or the one that its first packet will bind, has nothing buffered and waits for `seq`. -/
def Listens (ssrc : UInt32) (pt : UInt8) (seq : UInt16) (r : RtpSession) : Prop :=
  ∃ x : Receiver, (r.recvStreams ssrc = some x ∧ x.stream.remoteSsrc.getD ssrc = ssrc ∨
      r.recvStreams ssrc = none ∧ ∃ rest, (r.pendingRecv.findIdx? (·.payloadType = pt)).bind
        (swapRemove r.pendingRecv) = some (x,rest)) ∧
    x.stream.jitterBuffer = ∅ ∧ x.stream.nextSeq.getD seq = seq

theorem Listens.handle (h : Listens a.packet.ssrc a.packet.payloadType a.packet.seq r) :
    (r.handle (.rtp a)).events = r.events ++ [.rtpIn a.packet.ssrc (.ofPacket a.packet)] ∧
      Listens a.packet.ssrc a.packet.payloadType (a.packet.seq + 1) (r.handle (.rtp a)) := by
  obtain ⟨x,⟨hx,hremote⟩ | ⟨hx,rest,hrest⟩,hbuffer,hnext⟩ := h
  · obtain ⟨hout,hremote,hbuffer,hnext⟩ := receive_next x.stream hremote hbuffer hnext
    simp [RtpSession.handle,hear,Listens,hx,hout,hremote,hbuffer,hnext]
  · obtain ⟨hout,hremote,hbuffer,hnext⟩ :=
      receive_next { x.stream with remoteSsrc := some a.packet.ssrc } rfl hbuffer hnext
    simp [RtpSession.handle,hear,Listens,hx,hrest,hout,hremote,hbuffer,hnext]

/-- The two sides stand at position `I` of the stream. -/
structure InStep (ssrc : UInt32) (pt : UInt8) (I : ℕ) (s : SendSide) (inn : SrtpContext) (r : RtpSession) : Prop where
  payloadType : pt < 128 ∧ ¬ (72 ≤ pt ∧ pt ≤ 78)
  stream : ∃ st, s.sendStreams ssrc = some st ∧ st.payloadType = pt ∧ st.seq = seqAt I
  context : ∃ out, s.srtpOutbound = some out ∧ out.Expects ssrc I ∧ inn.sessionKeys = out.sessionKeys
  roc : inn.estimateRoc ssrc (seqAt I) = rocAt I
  window : ∃ S, Tracks (inn.replayWindow ssrc).view S ∧ ∀ m ∈ S, m < I
  listens : Listens ssrc pt (seqAt I) r

theorem seqAt_succ (I : ℕ) : seqAt (I + 1) = seqAt I + 1 := by
  rw [seqAt,seqAt,UInt16.ofNat_add]
  rfl

theorem InStep.step (h : InStep ssrc pt I s inn r) (hI : I < 2 ^ 48) {p : Payload} (hsent : p.sent = true) :
    ∃ s' datagram, s.sendRtpPayload P ⟨ssrc,p⟩ = (s',some datagram, .ok ()) ∧ ∀ a : Datagram, a.bytes = datagram →
      ∃ inn' r', inbound repair P (some inn,r) a = (some inn',r') ∧ InStep ssrc pt (I + 1) s' inn' r' ∧
        r'.events = r.events ++ [.rtpIn ssrc (.ofPacket (.simple pt p.marker (seqAt I) p.timestamp ssrc p.bytes))] := by
  obtain ⟨st,hst,htype,hseq⟩ := h.stream
  obtain ⟨out,hout,hexpects,hkeys⟩ := h.context
  obtain ⟨S,hwin,hbelow⟩ := h.window
  have hencode := RtpPacket.encode_simple pt p.marker (seqAt I) p.timestamp ssrc p.bytes
  have hwf := wellFormed_encode hencode
  have hprotect : (RtpSendStream.protect P (some out) ssrc _).2 = .ok _ :=
    congrArg Prod.snd (congrArg (Prod.map some id) (out.protect_wellFormed hwf))
  have hsend := RtpSendStream.sendRtpPayload_eq P st out p
  have hkind := (Core.media_of_rtp (p := .simple pt p.marker (seqAt I) p.timestamp ssrc p.bytes) rfl h.payloadType.1
    h.payloadType.2 hencode hprotect).2.2
  have hopen := unprotect_sealPacket (P := P) hwf h.roc hwin hI (fun hmem => (hbelow I hmem).ne rfl)
    fun m hm => (hbelow m hm).trans (Nat.lt_add_of_pos_right (by decide))
  have hdecode : RtpPacket.decode _ = .ok (.simple pt p.marker (seqAt I) p.timestamp ssrc p.bytes) :=
    RtpPacket.decode_of_fits ⟨rfl,rfl,rfl⟩ ⟨Nat.zero_le _,h.payloadType.1,by rintro _ ⟨⟩⟩ hencode
  simp only [hsent,if_true,hseq,htype,s.keyed hst,SrtpContext.getOrCreateRoc_eq hexpects,
    SrtpContext.remember_sessionKeys,← hkeys] at hsend hkind
  have hcall := SendSide.sendRtpPayload_of_some (P := P) (c := ⟨ssrc,p⟩) hst
  simp only [hout,hsend] at hcall
  refine ⟨_,_,hcall,fun a ha => ?_⟩
  obtain ⟨hevents,hlistens⟩ :=
    Listens.handle (a := ⟨.simple pt p.marker (seqAt I) p.timestamp ssrc p.bytes,a.now,a.clock⟩) h.listens
  have hreceived := SrtpContext.received_accept hwin hI
  refine ⟨(inn.touch ssrc).accept ssrc (rocAt I) (seqAt I),_,?_,⟨h.payloadType,
    ⟨_,Function.update_self ..,rfl,(seqAt_succ I).symm⟩,⟨_,rfl,SrtpContext.expects_remember ..,hkeys⟩,
    hreceived.estimateRoc_eq (by omega) (by omega),⟨_,hreceived.window,?_⟩,seqAt_succ I ▸ hlistens⟩,hevents⟩
  · simp [inbound,ha,hkind,hopen,hdecode,Except.toOption]
  · rintro m (rfl | hm)
    · exact Nat.lt_succ_self _
    · exact (hbelow m hm).trans (Nat.lt_succ_self I)

theorem InStep.packetsSent_cons (h : InStep ssrc pt I s inn r) (p : Payload) (ps : List Payload) :
    packetsSent P ssrc s (p :: ps) = .simple pt p.marker (seqAt I) p.timestamp ssrc p.bytes ::
      packetsSent P ssrc (s.sendRtpPayload P ⟨ssrc,p⟩).1 ps := by
  obtain ⟨st,hst,rfl,hseq⟩ := h.stream
  simp [packetsSent,hst,RtpSendStream.packet,hseq,s.keyed hst]
def sessionEvent (p : RtpPacket) : SessionEvent := .rtpIn p.ssrc (.ofPacket p)

theorem InStep.frame {ps : List Payload} (h : InStep ssrc pt I s inn r) (hI : I + ps.length ≤ 2 ^ 48)
    (hps : ∀ p ∈ ps, p.timestamp = ts ∧ p.sent = true) {arrivals : List Datagram}
    (harrivals : arrivals.map (·.bytes) = (sendRtpChunksForFrame P ssrc s ps).2.1) :
    ∃ inn' r', arrivals.foldl (inbound repair P) (some inn,r) = (some inn',r') ∧
      InStep ssrc pt (I + ps.length) (sendRtpChunksForFrame P ssrc s ps).1 inn' r' ∧ r'.events = r.events ++
        (numberChunks pt ts ssrc (seqAt I) (ps.map fun p => ⟨p.bytes,p.marker⟩)).1.map sessionEvent ∧
      ∀ later, packetsSent P ssrc s (ps ++ later) =
        (numberChunks pt ts ssrc (seqAt I) (ps.map fun p => ⟨p.bytes,p.marker⟩)).1 ++
          packetsSent P ssrc (sendRtpChunksForFrame P ssrc s ps).1 later := by
  induction ps generalizing I s inn r arrivals with
  | nil =>
    obtain rfl := List.map_eq_nil_iff.mp harrivals
    exact ⟨inn,r,rfl,h,(List.append_nil _).symm,fun _ => rfl⟩
  | cons p ps ih =>
    obtain ⟨⟨rfl,hsent⟩,hps⟩ := List.forall_mem_cons.mp hps
    rw [List.length_cons] at hI ⊢
    obtain ⟨s',datagram,hcall,hstep⟩ := h.step (P := P) repair (by omega) hsent
    simp only [sendRtpChunksForFrame,hcall] at harrivals ⊢
    obtain ⟨a,arrivals,rfl,ha,harrivals⟩ := List.map_eq_cons_iff.mp harrivals
    obtain ⟨inn',r',hturn,hnext,hevents⟩ := hstep a ha
    obtain ⟨inn'',r'',hrun,hlast,hevents',hlater⟩ := ih hnext (by omega) hps harrivals
    rw [List.foldl_cons,hturn]
    refine ⟨inn'',r'',hrun,by rwa [← Nat.add_assoc,Nat.add_right_comm],?_,fun later => ?_⟩
    · rw [hevents',hevents,List.append_assoc,seqAt_succ]
      rfl
    · rw [List.cons_append,h.packetsSent_cons,hcall,hlater,seqAt_succ]
      rfl

/-- While the payload type is that of H.264, the worker is the depacketizer. -/
theorem answers_worker (hcodec : codecOf pt = some .h264) (seq : UInt16) (chunks : List RtpPayloadChunk)
    (rest : List RtpIn) (d : H264Depacketizer) :
    let packets := (numberChunks pt ts ssrc seq chunks).1
    answers (depacketizerWorker codecOf) d (packets.map .ofPacket ++ rest) =
      (d.pushAll packets).2.map (·.map .annexBFrameReady) ++
        answers (depacketizerWorker codecOf) (d.pushAll packets).1 rest := by
  induction chunks generalizing d seq with
  | nil => rfl
  | cons chunk chunks ih =>
    have hpush (p : RtpPacket) (hp : p.payloadType = pt) :
        depacketizerWorker codecOf d (.ofPacket p) = (d.pushPacket p).map id (·.map .annexBFrameReady) := by
      simp [depacketizerWorker,RtpIn.ofPacket,hp,hcodec,H264Depacketizer.pushPacket]
    simp only [numberChunks,List.map_cons,List.cons_append,answers,ih,
      hpush (.simple pt chunk.marker seq ts ssrc chunk.bytes) rfl]
    rfl

/-- An order for an access unit, with the payloads it becomes; the socket refuses none. -/
structure SentAs (order : PacketizeOrder) (ps : List Payload) : Prop where
  spec : order.codecSpec = .h264
  units : splitAnnexbNalus order.payload ≠ [] ∧ ∀ u ∈ splitAnnexbNalus order.payload, SingleType u
  chunks : ps.map (fun p => ⟨p.bytes,p.marker⟩) = packetizerWorker order
  sent : ∀ p ∈ ps, p.timestamp = order.rtpTs ∧ p.sent = true

/-- The units of a frame, less those that repeat the one before. -/
def accessUnit (order : PacketizeOrder) : Bytes := annexb ((splitAnnexbNalus order.payload).destutter (· ≠ ·))

variable {codecOf : UInt8 → Option CodecSpec} {frames : List (PacketizeOrder × List Payload)}
variable {arrivals : List Datagram}

theorem InStep.sendAllFrames (h : InStep ssrc pt I s inn r) (hI : I + (frames.map (·.2.length)).sum ≤ 2 ^ 48)
    (hcodec : codecOf pt = some .h264) (hframes : ∀ f ∈ frames, SentAs f.1 f.2)
    (harrivals : arrivals.map (·.bytes) = sendAllFrames P ssrc s (frames.map Prod.snd)) :
    let packets := packetsSent P ssrc s (frames.flatMap Prod.snd)
    (arrivals.foldl (inbound repair P) (some inn,r)).2.events = r.events ++ packets.map sessionEvent ∧
      (answers (depacketizerWorker codecOf) .new (packets.map .ofPacket)).filterMap id =
        frames.map fun f => .annexBFrameReady (accessUnit f.1) := by
  induction frames generalizing I s inn r arrivals with
  | nil =>
    obtain rfl := List.map_eq_nil_iff.mp harrivals
    exact ⟨(List.append_nil _).symm,rfl⟩
  | cons f frames ih =>
    obtain ⟨hf,hframes⟩ := List.forall_mem_cons.mp hframes
    rw [List.map_cons,List.sum_cons] at hI
    obtain ⟨front,back,rfl,hfront,hback⟩ := List.map_eq_append_iff.mp harrivals
    obtain ⟨inn',r',hrun,hnext,hevents,hlater⟩ := h.frame repair (by omega) hf.sent hfront
    obtain ⟨hrest,hout⟩ := ih hnext (by omega) hframes hback
    have hframe := pushAll_packetize pt ssrc (H264Packetizer.new 1200) (by decide) hf.units.1 hf.units.2 (seqAt I)
      (Or.inl rfl : Boundary .new f.1.rtpTs)
    simp only [packetizeAnnexbToRtp] at hframe
    rw [hf.chunks] at hevents
    rw [List.flatMap_cons,hlater,hf.chunks]
    refine ⟨by rw [List.foldl_append,hrun,hrest,hevents,List.append_assoc,← List.map_append],?_⟩
    rw [List.map_append,answers_worker hcodec]
    simp only [packetizerWorker,hf.spec]
    rw [hframe,List.filterMap_append,hout]
    simp [accessUnit]

/-- Between two sides that have just made their contexts from one master key, what is sent in order and arrives in order
comes out: the session passes on exactly the packets that were sent, and the depacketizer worker makes every access
unit of them. -/
theorem frames_delivered {master : SrtpEndpointKeys} (hnew : SrtpContext.new P master = some ctx)
    (hout : s.srtpOutbound = some ctx) (hst : s.sendStreams ssrc = some st)
    (hpt : st.payloadType < 128 ∧ ¬ (72 ≤ st.payloadType ∧ st.payloadType ≤ 78))
    (hcodec : codecOf st.payloadType = some .h264) (hlistens : Listens ssrc st.payloadType st.seq r)
    (hframes : ∀ f ∈ frames, SentAs f.1 f.2) (hcount : st.seq.toNat + (frames.map (·.2.length)).sum ≤ 2 ^ 48)
    (harrivals : arrivals.map (·.bytes) = sendAllFrames P ssrc s (frames.map Prod.snd)) :
    let packets := packetsSent P ssrc s (frames.flatMap Prod.snd)
    (arrivals.foldl (inbound repair P) (some ctx,r)).2.events = r.events ++ packets.map sessionEvent ∧
      (answers (depacketizerWorker codecOf) .new (packets.map .ofPacket)).filterMap id =
        frames.map fun f => .annexBFrameReady (accessUnit f.1) := by
  have hfresh := new_untouched hnew ssrc
  have hseq : seqAt st.seq.toNat = st.seq := UInt16.ofNat_toNat
  have hroc : rocAt st.seq.toNat = 0 := by rw [rocAt,Nat.div_eq_of_lt st.seq.toNat_lt]; rfl
  exact InStep.sendAllFrames repair ⟨hpt,⟨st,hst,rfl,hseq.symm⟩,⟨ctx,hout,new_expects hnew ssrc st.seq,rfl⟩,
    (hfresh.estimateRoc_eq _).trans hroc.symm,⟨∅,hfresh.tracks,by simp⟩,hseq.symm ▸ hlistens⟩
    hcount hcodec hframes harrivals

def wrappingSide : SendSide := { SendSide.twoStreams with srtpOutbound := some sampleContext }

/-- A parameter set and a picture, on either side of the wrap of the sequence numbers. -/
def wrappingFrames : List (PacketizeOrder × List Payload) :=
  [(⟨[0,0,0,1,0x67,1,0,0,1,0x65,2],9, .h264⟩,[⟨[0x67,1],9,false,true,0⟩,⟨[0x65,2],9,true,true,0⟩])]

theorem frames_delivered_over_wrap :
    let arrivals : List Datagram :=
      (sendAllFrames samplePrimitives 5 wrappingSide (wrappingFrames.map Prod.snd)).map (⟨·,0,fun _ => 0,0⟩)
    let packets := packetsSent samplePrimitives 5 wrappingSide (wrappingFrames.flatMap Prod.snd)
    (arrivals.foldl (inbound (fun _ => "") samplePrimitives) (some sampleContext,sampleSession)).2.events =
        packets.map sessionEvent ∧
      (answers (depacketizerWorker fun _ => some .h264) .new (packets.map .ofPacket)).filterMap id =
        wrappingFrames.map fun f => .annexBFrameReady (accessUnit f.1) := by
  intro arrivals packets
  have hnew : SrtpContext.new samplePrimitives sampleMaster = some sampleContext := rfl
  have hst : wrappingSide.sendStreams 5 = some (.new 96 5 65535 0 0) := rfl
  have hlistens : Listens 5 96 65535 .sampleSession := ⟨_,Or.inr ⟨rfl,[],rfl⟩,rfl,rfl⟩
  have hsplit : splitAnnexbNalus [0,0,0,1,0x67,1,0,0,1,0x65,2] = [[0x67,1],[0x65,2]] := by decide +kernel
  have hframes : ∀ f ∈ wrappingFrames, SentAs f.1 f.2 := by
    rintro f (_ | ⟨_,⟨⟩⟩)
    refine ⟨rfl,?_,by decide +kernel,by decide⟩
    rw [hsplit]
    exact ⟨by decide,by rintro u (_ | ⟨_,_ | ⟨_,⟨⟩⟩⟩) <;> exact ⟨_,_,rfl,by decide⟩⟩
  exact frames_delivered (fun _ => "") hnew rfl hst (by decide) rfl hlistens hframes (by decide)
    (by rw [List.map_map]; exact List.map_id _)

end RustyRtc.Media
