import RustyRtc.Rtp.RoundTripTime
import RustyRtc.Rtp.SendStream
import RustyRtc.Srtp.Delivery

/-! # Sender reports

`maybe_build_sr` of `rtp_send_stream.rs`, and the accounts of a stream over a run in which any call of
`send_rtp_payload` may fail: at the encoder, at the context or at the socket. The context is shared with
other streams, so each call finds it in some state of its own.
-/
namespace RustyRtc.Rtp
open Srtp Rtcp

/-- A stream with what its sender reports need besides the accounts. -/
structure ReportingStream extends RtpSendStream where
  lastSrBuilt : ℕ
  tx : TxTracker
  deriving DecidableEq, Repr

namespace ReportingStream

/-- The clock is read for `last_sr_built` first and for `last_pkt_sent` after it. -/
def new (payloadType : UInt8) (localSsrc : UInt32) (seq : UInt16) (timestamp : UInt32) (srBuilt pktSent : ℕ) :
    ReportingStream where
  toRtpSendStream := .new payloadType localSsrc seq timestamp pktSent
  lastSrBuilt := srBuilt
  tx := {}

/-- `nanos` is what `ntp_now` reads, `now` the instant after the report is built. -/
def maybeBuildSr (st : ReportingStream) (nanos now : ℕ) : ReportingStream × Option SenderReport :=
  if st.lastPktSent ≤ st.lastSrBuilt then (st,none)
  else
    let (ntpMostSw,nowLeastSw) := ntpNow nanos
    let senderInfo : SenderInfo := ⟨ntpMostSw,nowLeastSw,st.timestamp,st.packetCount,st.octetCount⟩
    ({ st with tx := st.tx.markSrSent ntpMostSw nowLeastSw, lastSrBuilt := now },
      some ⟨st.localSsrc,senderInfo,[],[]⟩)

inductive Op where
  | sendRtpPayload (ctx : Option SrtpContext) (p : Payload)
  | maybeBuildSr (nanos now : ℕ)
inductive Answer where
  | sent (datagram : Option Bytes) (result : Except RtpSendError Unit)
  | report (sr : Option SenderReport)
  deriving DecidableEq

def step (P : Primitives) (st : ReportingStream) : Op → Option (ReportingStream × Answer)
  | .sendRtpPayload ctx p =>
    let after := st.toRtpSendStream.sendRtpPayload P ctx p
    some ({ st with toRtpSendStream := after.stream }, .sent after.datagram after.result)
  | .maybeBuildSr nanos now =>
    let after := st.maybeBuildSr nanos now
    some (after.1, .report after.2)

abbrev Sent := Payload × Bytes
def sentBy : Op × Answer → Option Sent
  | (.sendRtpPayload _ p, .sent (some datagram) _) => some (p,datagram)
  | _ => none
def wire (h : List (Op × Answer)) : List Sent := h.filterMap sentBy
def octets (log : List Sent) : ℕ := (log.map fun x => x.1.bytes.length).sum
end ReportingStream

/-- A call that fails changes nothing of the stream. One that succeeds puts the packet on the wire, behind the header
it encoded. -/
theorem RtpSendStream.sendRtpPayload_cases (P : Primitives) (st : RtpSendStream) (ctx : Option SrtpContext) (p : Payload) :
    ((st.sendRtpPayload P ctx p).datagram = none ∧ (st.sendRtpPayload P ctx p).stream = st) ∨
    ∃ datagram rest, (st.sendRtpPayload P ctx p).datagram = some datagram ∧
      datagram = (st.packet p).encodeFixed ++ rest ∧ (st.sendRtpPayload P ctx p).stream = { st with
        lastPktSent := p.now
        seq := st.seq + 1
        packetCount := st.packetCount + 1
        octetCount := st.octetCount + UInt32.ofNat p.bytes.length
        timestamp := p.timestamp } := by
  unfold sendRtpPayload
  split
  · exact .inl ⟨rfl,rfl⟩
  · next encoded hencode =>
    split
    · exact .inl ⟨rfl,rfl⟩
    · next ctx' datagram hprotect =>
      split
      · obtain ⟨rest,hrest⟩ := encodeFixed_of_protect hencode (congrArg Prod.snd hprotect)
        exact .inr ⟨datagram,rest,rfl,hrest,rfl⟩
      · exact .inl ⟨rfl,rfl⟩

theorem RtpPacket.read_encodeFixed (p : RtpPacket) (rest : Bytes) :
    readU16 (p.encodeFixed ++ rest) 2 = p.seq ∧ readU32 (p.encodeFixed ++ rest) 4 = p.timestamp := by
  obtain ⟨vpxcc,mPt,hfixed⟩ : ∃ vpxcc mPt, p.encodeFixed ++ rest =
      [vpxcc,mPt] ++ (beBytes16 p.seq ++ (beBytes32 p.timestamp ++ (beBytes32 p.ssrc ++ rest))) :=
    ⟨_,_,by simp only [encodeFixed,List.cons_append,List.nil_append,List.append_assoc]; rfl⟩
  have hseq := readU16_append_right [vpxcc,mPt]
    (beBytes16 p.seq ++ (beBytes32 p.timestamp ++ (beBytes32 p.ssrc ++ rest))) (i := 0)
  have hts := readU32_append_right ([vpxcc,mPt] ++ beBytes16 p.seq)
    (beBytes32 p.timestamp ++ (beBytes32 p.ssrc ++ rest)) (i := 0)
  rw [readU16_beBytes16] at hseq
  rw [readU32_beBytes32,List.append_assoc] at hts
  rw [hfixed]
  exact ⟨hseq,hts⟩

namespace ReportingStream
variable {P : Primitives} {st₀ st st' : ReportingStream} {log : List Sent} {h : List (Op × Answer)}

/-- The accounts of a stream agree with what reached the socket since it stood at `st₀`. -/
structure Accounts (st₀ st : ReportingStream) (log : List Sent) : Prop where
  seq : st.seq = st₀.seq + UInt16.ofNat log.length
  packetCount : st.packetCount = st₀.packetCount + UInt32.ofNat log.length
  octetCount : st.octetCount = st₀.octetCount + UInt32.ofNat (octets log)
  timestamp : st.timestamp = log.getLast?.elim st₀.timestamp fun last => readU32 last.2 4
  numbers : ∀ i (h : i < log.length), readU16 log[i].2 2 = st₀.seq + UInt16.ofNat i
  unsent : log = [] → st.lastPktSent = st₀.lastPktSent ∧
    (st.lastSrBuilt = st₀.lastSrBuilt ∨ st₀.lastSrBuilt < st₀.lastPktSent)

theorem Accounts.refl (st : ReportingStream) : Accounts st st [] where
  seq := by simp
  packetCount := by simp
  octetCount := by simp [octets]
  timestamp := rfl
  numbers i h := absurd h (Nat.not_lt_zero i)
  unsent _ := ⟨rfl, .inl rfl⟩

theorem Accounts.send (hst : Accounts st₀ st log) (p : Payload) (rest : Bytes) :
    Accounts st₀ { st with
      lastPktSent := p.now
      seq := st.seq + 1
      packetCount := st.packetCount + 1
      octetCount := st.octetCount + UInt32.ofNat p.bytes.length
      timestamp := p.timestamp } (log ++ [(p,(st.packet p).encodeFixed ++ rest)]) := by
  obtain ⟨hseq,htimestamp⟩ := (st.packet p).read_encodeFixed rest
  refine ⟨?_,?_,?_,?_,?_,?_⟩
  · simp only [hst.seq,List.length_append,List.length_singleton,UInt16.ofNat_add,UInt16.add_assoc]
    rfl
  · simp only [hst.packetCount,List.length_append,List.length_singleton,UInt32.ofNat_add,UInt32.add_assoc]
    rfl
  · simp only [hst.octetCount,octets,List.map_append,List.sum_append,List.map_singleton,List.sum_singleton,
      UInt32.ofNat_add,UInt32.add_assoc]
  · simp only [List.getLast?_concat,Option.elim_some,htimestamp]
    rfl
  · intro i hi
    rw [List.length_append,List.length_singleton] at hi
    rcases Nat.lt_or_ge i log.length with hold | hnew
    · rw [List.getElem_append_left hold]
      exact hst.numbers i hold
    · obtain rfl : i = log.length := by omega
      rw [List.getElem_concat_length rfl,hseq]
      exact hst.seq
  · intro hnil
    exact absurd hnil (by simp)

theorem Accounts.maybeBuildSr (hst : Accounts st₀ st log) (nanos now : ℕ) :
    Accounts st₀ (st.maybeBuildSr nanos now).1 log := by
  unfold ReportingStream.maybeBuildSr
  split
  · exact hst
  · next hlater =>
    refine ⟨hst.seq,hst.packetCount,hst.octetCount,hst.timestamp,hst.numbers,fun hnil => ?_⟩
    obtain ⟨hpkt,hsr⟩ := hst.unsent hnil
    refine ⟨hpkt, .inr ?_⟩
    rcases hsr with hsr | hsr
    · rw [← hsr,← hpkt]
      exact Nat.not_le.mp hlater
    · exact hsr

theorem Accounts.step (hst : Accounts st₀ st log) {op : Op} {answer : Answer}
    (hstep : st.step P op = some (st',answer)) : Accounts st₀ st' (log ++ (sentBy (op,answer)).toList) := by
  cases op with
  | sendRtpPayload ctx p =>
    cases hstep
    rcases RtpSendStream.sendRtpPayload_cases P st.toRtpSendStream ctx p with ⟨hnone,hst'⟩ | ⟨_,rest,hsome,rfl,hst'⟩
    · rw [hnone,hst']
      simpa [sentBy] using hst
    · rw [hsome,hst']
      exact hst.send p rest
  | maybeBuildSr nanos now =>
    cases hstep
    simpa [sentBy] using hst.maybeBuildSr nanos now

theorem wire_concat (h : List (Op × Answer)) (x : Op × Answer) : wire (h ++ [x]) = wire h ++ (sentBy x).toList := by
  cases hx : sentBy x <;> simp [wire,hx]
theorem accounts_of_reaches (hreach : Reaches (step P) st₀ h st) : Accounts st₀ st (wire h) := by
  induction hreach with
  | init => exact .refl st₀
  | snoc _ hstep ih =>
    rw [wire_concat]
    exact ih.step hstep

theorem report_eq {nanos now : ℕ} {sr : SenderReport}
    (hstep : st.step P (.maybeBuildSr nanos now) = some (st', .report (some sr))) :
    st.lastSrBuilt < st.lastPktSent ∧ sr.info.packetCount = st.packetCount ∧ sr.info.octetCount = st.octetCount ∧
      sr.info.rtpTs = st.timestamp := by
  simp only [step,maybeBuildSr] at hstep
  split at hstep
  · simp at hstep
  · next hlater =>
    obtain ⟨-,hsr⟩ := Prod.mk.inj (Option.some.inj hstep)
    obtain rfl := Option.some.inj (Answer.report.inj hsr)
    exact ⟨Nat.not_le.mp hlater,rfl,rfl,rfl⟩

/-- Over any run of a new stream, whatever fails, the packets that reached the socket are numbered without a gap, and
every report states how many there were before it and how many payload bytes they carried. It states the timestamp
of the last of them too, once there is one. Before that it can only be built if the clock moved on while the stream
was created, and then states the random timestamp the stream started with. -/
theorem sender_accounting {payloadType : UInt8} {localSsrc : UInt32} {seq : UInt16} {ts : UInt32} {srBuilt pktSent : ℕ}
    (hreach : Reaches (step P) (new payloadType localSsrc seq ts srBuilt pktSent) h st) :
    (∀ i (hi : i < (wire h).length), readU16 (wire h)[i].2 2 = seq + UInt16.ofNat i) ∧
    ∀ before op sr after, h = before ++ (op,Answer.report (some sr)) :: after →
      sr.info.packetCount = UInt32.ofNat (wire before).length ∧
      sr.info.octetCount = UInt32.ofNat (octets (wire before)) ∧
      (∀ last ∈ (wire before).getLast?, sr.info.rtpTs = readU32 last.2 4) ∧
      (wire before = [] → srBuilt < pktSent ∧ sr.info.rtpTs = ts) := by
  refine ⟨(accounts_of_reaches hreach).numbers,?_⟩
  rintro before op sr after rfl
  obtain ⟨st₁,st₂,hbefore,hstep⟩ := hreach.middle
  have hst₁ := accounts_of_reaches hbefore
  cases op with
  | sendRtpPayload ctx p => simp [step] at hstep
  | maybeBuildSr nanos now =>
    obtain ⟨hlater,hcount,hoctets,hts⟩ := report_eq hstep
    refine ⟨?_,?_,?_,?_⟩
    · rw [hcount, hst₁.packetCount]
      exact UInt32.zero_add _
    · rw [hoctets, hst₁.octetCount]
      exact UInt32.zero_add _
    · intro last hlast
      rw [hts, hst₁.timestamp, Option.mem_def.mp hlast, Option.elim_some]
    · intro hnil
      obtain ⟨hpkt,hsr⟩ := hst₁.unsent hnil
      refine ⟨?_,by rw [hts, hst₁.timestamp, hnil]; rfl⟩
      rcases hsr with hsr | hsr
      · rw [hsr, hpkt] at hlater
        exact hlater
      · exact hsr

theorem sender_accounting_outage : ∃ h sr st,
    Reaches (step samplePrimitives) (new 96 7 65535 99 0 0) (h ++ [(.maybeBuildSr 0 9, .report (some sr))]) st ∧
    (wire h).map (fun x => readU16 x.2 2) = [65535,0] ∧
    sr.info.packetCount = 2 ∧ sr.info.octetCount = 3 ∧ sr.info.rtpTs = 20 := by
  have hfirst := @Reaches.init _ _ _ (step samplePrimitives) (new 96 7 65535 99 0 0)
  have hsent := hfirst.snoc (a := .sendRtpPayload none ⟨[1,2],10,false,true,1⟩) rfl
  have hlost := hsent.snoc (a := .sendRtpPayload none ⟨[3],15,false,false,2⟩) rfl
  have hagain := hlost.snoc (a := .sendRtpPayload (some sampleContext) ⟨[4],20,true,true,3⟩) rfl
  have hreport := hagain.snoc (a := .maybeBuildSr 0 9) rfl
  refine ⟨_,_,_,hreport,by decide +kernel,?_⟩
  obtain ⟨-,hall⟩ := sender_accounting hreport
  obtain ⟨hcount,hoctets,hts,-⟩ := hall _ _ _ [] rfl
  exact ⟨hcount,hoctets.trans (by decide +kernel),(hts _ rfl).trans (by decide +kernel)⟩

/-- The clock moves on while the stream is created, so a report is built although nothing was sent, with the random
timestamp. -/
theorem report_before_first_packet : ∃ sr st,
    Reaches (step samplePrimitives) (new 96 7 1 99 0 1) [(.maybeBuildSr 0 2, .report (some sr))] st ∧
    sr.info.packetCount = 0 ∧ sr.info.rtpTs = 99 :=
  ⟨_,_,Reaches.init.snoc rfl,rfl,rfl⟩
end ReportingStream
end RustyRtc.Rtp
