import RustyRtc.Core.CongestionController
import RustyRtc.Rtp.JitterBuffer
import RustyRtc.Rtp.SenderReports

/-! # The streams of a session

`rtp_session_c.rs`: what the inbound loop has decoded finds its stream, while the report thread asks every stream for
its block. A pool is locked while a thread works on it, so that work is one step.
-/
namespace RustyRtc.Rtp
open Rtcp Core

namespace RtpRecvStream

def onSenderReport (st : RtpRecvStream) (senderSsrc : UInt32) (info : SenderInfo) (arrivalNtp : UInt32 × UInt32)
    (now : ℕ) : RtpRecvStream :=
  if st.remoteSsrc.getD senderSsrc ≠ senderSsrc then st
  else { st with
    remoteSsrc := some senderSsrc
    lastActivity := now
    rx := st.rx.onSrReceived info.ntpMostSw info.nowLeastSw arrivalNtp }

def buildReportBlock (st : RtpRecvStream) (now : UInt32 × UInt32) : RtpRecvStream × Option ReportBlock :=
  match st.remoteSsrc with
  | none => (st,none)
  | some ssrc =>
    let (rx,block) := st.rx.buildReportBlock ssrc now
    ({ st with rx },some block)

end RtpRecvStream

/-- A receive stream with the payload type of its codec. -/
structure Receiver where
  payloadType : UInt8
  stream : RtpRecvStream

/-- What is sent to the engine; with a packet goes the source of the stream that sends it. -/
inductive SessionEvent where
  | rtpIn (ssrc : UInt32) (e : RtpIn)
  | networkMetrics (metrics : NetworkMetrics)
  | removedRecvStream (ssrc : UInt32)
  deriving DecidableEq, Repr
structure RtpSession where
  recvStreams : UInt32 → Option Receiver
  pendingRecv : List Receiver
  sendStreams : UInt32 → Option ReportingStream
  events : List SessionEvent

/-- What reaches the pools: a packet, one of the packets of an RTCP compound, a stream to receive, and the two halves of
a turn of the report thread. `nanos` is what `ntp_now` reads. -/
inductive Input where
  | rtp (a : Reception)
  | rtcp (packet : RtcpPacket) (nanos now : ℕ)
  | addRecvStream (payloadType : UInt8) (codec : RtpCodec) (remoteSsrc : Option UInt32) (now : ℕ)
  | senderReports (nanos now : ℕ)
  | report (nanos : ℕ)

/-- `Vec::swap_remove`. -/
def swapRemove {α : Type} (l : List α) (i : ℕ) : Option (α × List α) :=
  l[i]?.bind fun x => l.getLast?.map fun last => (x,(l.set i last).dropLast)
abbrev Hearing := RtpRecvStream → RtpRecvStream × List RtpIn

namespace RtpSession

def hear (s : RtpSession) (ssrc : UInt32) (r : Receiver) (f : Hearing) : RtpSession :=
  let (stream,out) := f r.stream
  { s with
    recvStreams := Function.update s.recvStreams ssrc (some { r with stream })
    events := s.events ++ out.map (.rtpIn ssrc) }

def onReportBlock (nanos now : ℕ) (s : RtpSession) (rb : ReportBlock) : RtpSession :=
  match s.sendStreams rb.ssrc with
  | none => s
  | some st =>
    let tx := st.tx.onReportBlock rb (ntpToCompact (ntpNow nanos).1 (ntpNow nanos).2) now
    let metrics := tx.rttMs.map fun rtt => .networkMetrics ⟨rtt.toNat * 1000000,tx.remoteFractionLost⟩
    { s with
      sendStreams := Function.update s.sendStreams rb.ssrc (some { st with tx })
      events := s.events ++ metrics.toList }

def onBye (s : RtpSession) (ssrc : UInt32) : RtpSession :=
  match s.recvStreams ssrc with
  | none => s
  | some _ => { s with
      recvStreams := Function.update s.recvStreams ssrc none
      events := s.events ++ [.removedRecvStream ssrc] }

def handleRtcp (nanos now : ℕ) (s : RtpSession) : RtcpPacket → RtpSession
  | .sr p =>
    let s := (s.recvStreams p.ssrc).elim s fun r =>
      s.hear p.ssrc r fun st => (st.onSenderReport p.ssrc p.info (ntpNow nanos) now,[])
    p.reports.foldl (onReportBlock nanos now) s
  | .rr p => p.reports.foldl (onReportBlock nanos now) s
  | .bye p => p.sources.foldl onBye s
  | .sdes _ | .app _ | .nack _ | .pli _ => s

def handle (s : RtpSession) : Input → RtpSession
  | .rtp a =>
    let ssrc := a.packet.ssrc
    match s.recvStreams ssrc with
    | some r => s.hear ssrc r (·.receive a)
    | none =>
      match (s.pendingRecv.findIdx? (·.payloadType = a.packet.payloadType)).bind (swapRemove s.pendingRecv) with
      | none => s
      | some (r,rest) =>
        hear { s with pendingRecv := rest } ssrc { r with stream := { r.stream with remoteSsrc := some ssrc } } (·.receive a)
  | .rtcp packet nanos now => s.handleRtcp nanos now packet
  | .addRecvStream payloadType codec remoteSsrc now =>
    let r : Receiver := ⟨payloadType, .new codec remoteSsrc now⟩
    match remoteSsrc with
    | some ssrc => { s with recvStreams := Function.update s.recvStreams ssrc (some r) }
    | none => { s with pendingRecv := s.pendingRecv ++ [r] }
  | .senderReports nanos now =>
    { s with sendStreams := fun ssrc => (s.sendStreams ssrc).map fun st => (st.maybeBuildSr nanos now).1 }
  | .report nanos =>
    { s with recvStreams := fun ssrc => (s.recvStreams ssrc).map fun r =>
      { r with stream := (r.stream.buildReportBlock (ntpNow nanos)).1 } }

/-- What the stream of one source hears in an input. -/
def heard (k : UInt32) : Input → List Hearing
  | .rtp a => if a.packet.ssrc = k then [(·.receive a)] else []
  | .rtcp (.sr p) nanos now =>
    if p.ssrc = k then [fun st => (st.onSenderReport p.ssrc p.info (ntpNow nanos) now,[])] else []
  | .report nanos => [fun st => ((st.buildReportBlock (ntpNow nanos)).1,[])]
  | .rtcp .. | .addRecvStream .. | .senderReports .. => []
def alone (x : RtpRecvStream × List RtpIn) (f : Hearing) : RtpRecvStream × List RtpIn :=
  ((f x.1).1,x.2 ++ (f x.1).2)

/-- The input ends the stream of a source, or puts another in its place. -/
def Ends (k : UInt32) : Input → Prop
  | .rtcp (.bye p) _ _ => k ∈ p.sources
  | .addRecvStream _ _ remoteSsrc _ => remoteSsrc = some k
  | _ => False
def rtpOf (k : UInt32) : SessionEvent → Option RtpIn
  | .rtpIn ssrc e => if ssrc = k then some e else none
  | _ => none

/-- The stream of a source, and what it has sent. -/
def Shows (k : UInt32) (s : RtpSession) (x : RtpRecvStream × List RtpIn) : Prop :=
  (s.recvStreams k).map (·.stream) = some x.1 ∧ s.events.filterMap (rtpOf k) = x.2

variable {k ssrc : UInt32} {s : RtpSession} {x : RtpRecvStream × List RtpIn}

/-- What leaves the stream alone, and sends nothing for it, does not show. -/
theorem Shows.quiet {s' : RtpSession} {out : List SessionEvent} (h : s.Shows k x)
    (hk : s'.recvStreams k = s.recvStreams k) (hevents : s'.events = s.events ++ out) (hout : ∀ e ∈ out, rtpOf k e = none) :
    s'.Shows k x := by
  refine ⟨by rw [hk]; exact h.1,?_⟩
  rw [hevents,List.filterMap_append,List.filterMap_eq_nil_iff.mpr hout,List.append_nil]
  exact h.2
theorem Shows.hear_self {r : Receiver} (h : s.Shows k x) (hr : s.recvStreams k = some r) (f : Hearing) :
    (s.hear k r f).Shows k (alone x f) := by
  obtain ⟨hstream,hevents⟩ := h
  have hx : r.stream = x.1 := by simpa [hr] using hstream
  refine ⟨by simp [hear,alone,hx],?_⟩
  simp [hear,alone,hevents,hx,List.filterMap_map,Function.comp_def,rtpOf]
theorem Shows.hear_other (h : s.Shows k x) (hne : ssrc ≠ k) (r : Receiver) (f : Hearing) :
    (s.hear ssrc r f).Shows k x := by
  refine h.quiet (Function.update_of_ne hne.symm ..) rfl fun e he => ?_
  obtain ⟨e,-,rfl⟩ := List.mem_map.mp he
  exact if_neg hne

theorem Shows.onReportBlock (h : s.Shows k x) (nanos now : ℕ) (rbs : List ReportBlock) :
    (rbs.foldl (onReportBlock nanos now) s).Shows k x := by
  refine List.foldlRecOn (motive := (Shows k · x)) rbs _ h fun s h rb _ => ?_
  unfold RtpSession.onReportBlock
  split
  · exact h
  · refine h.quiet rfl rfl fun e he => ?_
    obtain ⟨rtt,-,rfl⟩ := Option.map_eq_some_iff.mp (Option.mem_toList.mp he)
    rfl

theorem Shows.onBye (h : s.Shows k x) {sources : List UInt32} (hk : k ∉ sources) :
    (sources.foldl onBye s).Shows k x := by
  refine List.foldlRecOn (motive := (Shows k · x)) sources _ h fun s h ssrc hssrc => ?_
  unfold RtpSession.onBye
  split
  · exact h
  · exact h.quiet (Function.update_of_ne (ne_of_mem_of_not_mem hssrc hk).symm ..) rfl (by simp [rtpOf])

theorem Shows.handle (h : s.Shows k x) {i : Input} (hi : ¬ Ends k i) :
    (s.handle i).Shows k ((heard k i).foldl alone x) := by
  obtain ⟨r,hr,hx⟩ := Option.map_eq_some_iff.mp h.1
  cases i with
  | rtp a =>
    by_cases ha : a.packet.ssrc = k
    · simpa [RtpSession.handle,heard,ha,hr] using h.hear_self hr _
    · simp only [RtpSession.handle,heard,ha,if_false,List.foldl_nil]
      split
      · exact h.hear_other ha _ _
      · split
        · exact h
        · next r rest _ => exact Shows.hear_other (s := { s with pendingRecv := rest }) h ha _ _
  | rtcp packet nanos now =>
    cases packet with
    | sr p =>
      refine Shows.onReportBlock ?_ nanos now p.reports
      by_cases hp : p.ssrc = k
      · simpa [heard,hp,hr] using h.hear_self hr _
      · simp only [heard,hp,if_false,List.foldl_nil]
        cases s.recvStreams p.ssrc with
        | none => exact h
        | some r => exact h.hear_other hp r fun st => (st.onSenderReport p.ssrc p.info (ntpNow nanos) now,[])
    | rr p => exact h.onReportBlock nanos now p.reports
    | bye p => exact h.onBye hi
    | sdes p | app p | nack p | pli p => exact h
  | addRecvStream payloadType codec remoteSsrc now =>
    cases remoteSsrc with
    | none => exact h
    | some ssrc =>
      have hne : k ≠ ssrc := fun heq => hi (congrArg some heq.symm)
      exact h.quiet (Function.update_of_ne hne ..) (List.append_nil _).symm (by simp)
  | senderReports nanos now => exact h
  | report nanos =>
    refine ⟨?_,h.2.trans (List.append_nil _).symm⟩
    simp only [RtpSession.handle,hr,Option.map_some,hx]
    rfl

/-- Once a source has a stream, the stream is what its own packets, its own sender reports and the report thread make
of it, and it sends what they make it send, whatever else arrives, as long as nobody says goodbye for it. -/
theorem source_isolated {inputs : List Input} (hstays : ∀ i ∈ inputs, ¬ Ends k i) (hk : s.Shows k x) :
    (inputs.foldl handle s).Shows k ((inputs.flatMap (heard k)).foldl alone x) := by
  induction inputs generalizing s x with
  | nil => exact hk
  | cons i inputs ih =>
    rw [List.flatMap_cons, List.foldl_append]
    exact ih (fun j hj => hstays j (by simp [hj])) (hk.handle (hstays i (by simp)))

def sampleSession : RtpSession where
  recvStreams := Function.update (fun _ => none) 7 (some ⟨96, .new ⟨90000⟩ (some 7) 0⟩)
  pendingRecv := [⟨96, .new ⟨90000⟩ none 0⟩]
  sendStreams _ := none
  events := []
def sampleInputs : List Input :=
  [7,8,7].map (fun ssrc => .rtp ⟨.simple 96 false 1 0 ssrc [0x65],0,fun _ => 0⟩) ++ [.report 0, .rtcp (.bye ⟨[8],none⟩) 0 0]
theorem source_isolated_beside_another :
    (sampleInputs.foldl handle sampleSession).Shows 7
      ((sampleInputs.flatMap (heard 7)).foldl alone (.new ⟨90000⟩ (some 7) 0,[])) :=
  source_isolated (by simp [sampleInputs,Ends]) ⟨rfl,rfl⟩

end RtpSession
end RustyRtc.Rtp
