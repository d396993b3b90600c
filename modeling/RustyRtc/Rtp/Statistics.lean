import Mathlib.Data.List.Dedup
import RustyRtc.Rtp.SequenceNumbers

/-! # Receive statistics

`rx_tracker.rs` counts packets, tells what part of the expected ones was lost since the last report, and estimates the
interarrival jitter.
-/
namespace RustyRtc.Rtp
variable {events : List RxTracker.Event} {prev : UInt32}

/-- The packets that a stream takes in: those of its source, which without one given is that of the first packet. -/
def taken : Option UInt32 → List Arrival → List Arrival
  | _, [] => []
  | remoteSsrc, a :: arrivals =>
    if remoteSsrc.getD a.packet.ssrc = a.packet.ssrc then a :: taken (some a.packet.ssrc) arrivals
    else taken remoteSsrc arrivals
def RtpRecvStream.after (st : RtpRecvStream) (arrivals : List Arrival) : RtpRecvStream :=
  arrivals.foldl (fun st a => (st.receiveRtpPacket a.packet a.now a.clock).1) st

namespace RtpRecvStream
variable {st : RtpRecvStream} {packet : RtpPacket}
theorem processBuffer_frame (st : RtpRecvStream) (clock : ℕ → ℕ) :
    (st.processBuffer clock).1.rx = st.rx ∧ (st.processBuffer clock).1.remoteSsrc = st.remoteSsrc := by
  unfold processBuffer
  split <;> exact ⟨rfl,rfl⟩
theorem receiveRtpPacket_ignored (h : st.remoteSsrc.getD packet.ssrc ≠ packet.ssrc) (now : ℕ) (clock : ℕ → ℕ) :
    (st.receiveRtpPacket packet now clock).1.rx = st.rx ∧
      (st.receiveRtpPacket packet now clock).1.remoteSsrc = st.remoteSsrc := by
  simp [receiveRtpPacket,h]

theorem receiveRtpPacket_taken (h : st.remoteSsrc.getD packet.ssrc = packet.ssrc) (now : ℕ) (clock : ℕ → ℕ) :
    (∃ arrival, (st.receiveRtpPacket packet now clock).1.rx = st.rx.onRtp packet.seq packet.timestamp arrival) ∧
      (st.receiveRtpPacket packet now clock).1.remoteSsrc = some packet.ssrc := by
  simp only [receiveRtpPacket,h,ne_eq,not_true_eq_false,if_false]
  split
  · exact ⟨⟨_,rfl⟩,rfl⟩
  · obtain ⟨hrx,hssrc⟩ := processBuffer_frame
      { st with
        lastActivity := now
        remoteSsrc := some packet.ssrc
        rx := st.rx.onRtp packet.seq packet.timestamp (instantToRtpUnits
          { st with lastActivity := now, remoteSsrc := some packet.ssrc } now)
        jitterBuffer := st.jitterBuffer.insert packet.seq ⟨packet,now⟩
        nextSeq := some (st.nextSeq.getD packet.seq) } clock
    exact ⟨⟨_,hrx⟩,hssrc⟩

theorem after_receivedUnique (st : RtpRecvStream) (arrivals : List Arrival) : (st.after arrivals).rx.receivedUnique =
      st.rx.receivedUnique + UInt32.ofNat (taken st.remoteSsrc arrivals).length := by
  induction arrivals generalizing st with
  | nil => simp [after,taken]
  | cons a arrivals ih =>
    have hrest := ih (st.receiveRtpPacket a.packet a.now a.clock).1
    rw [after,List.foldl_cons]
    refine hrest.trans ?_
    by_cases h : st.remoteSsrc.getD a.packet.ssrc = a.packet.ssrc
    · obtain ⟨⟨arrival,hrx⟩,hssrc⟩ := receiveRtpPacket_taken h a.now a.clock
      rw [hrx,hssrc,taken,if_pos h,List.length_cons,UInt32.ofNat_add,UInt32.add_comm (UInt32.ofNat _),
        ← UInt32.add_assoc]
      rfl
    · obtain ⟨hrx,hssrc⟩ := receiveRtpPacket_ignored h a.now a.clock
      rw [hrx,hssrc,taken,if_neg h]
end RtpRecvStream

def takenPositions (remoteSsrc : Option UInt32) (arrivals : List Arrival) : List ℕ :=
  (taken remoteSsrc arrivals).map Arrival.position

/-- The counter of unique packets is the number of different packets received if no packet comes twice, and as long
as it has not gone round only then. -/
theorem received_unique_eq_iff (codec : RtpCodec) (remoteSsrc : Option UInt32) (epoch : ℕ) (arrivals : List Arrival) :
    let st := (RtpRecvStream.new codec remoteSsrc epoch).after arrivals
    let positions := takenPositions remoteSsrc arrivals
    (positions.Nodup → st.rx.receivedUnique = UInt32.ofNat positions.dedup.length) ∧
      (positions.length < 4294967296 → (st.rx.receivedUnique.toNat = positions.dedup.length ↔ positions.Nodup)) := by
  intro st positions
  have hcount : st.rx.receivedUnique = UInt32.ofNat positions.length := by
    have hafter := RtpRecvStream.after_receivedUnique (RtpRecvStream.new codec remoteSsrc epoch) arrivals
    have hlength : positions.length = (taken remoteSsrc arrivals).length := List.length_map _
    rw [hlength]
    refine hafter.trans ?_
    change 0 + _ = _
    rw [UInt32.zero_add]
    rfl
  refine ⟨fun hnodup => by rw [hcount, List.dedup_eq_self.mpr hnodup],fun hfew => ?_⟩
  rw [hcount, UInt32.toNat_ofNat', Nat.mod_eq_of_lt hfew, eq_comm, ← List.dedup_eq_self]
  exact ⟨fun hlength => (List.dedup_sublist positions).eq_of_length hlength,fun heq => by rw [heq]⟩

/-- Packet 6 is lost and packet 7 comes twice: three packets are counted, and no loss is reported. -/
theorem duplicate_hides_loss :
    let arrivals := [sampleArrival 5 0,sampleArrival 7 10,sampleArrival 7 20]
    let st := (RtpRecvStream.new ⟨90000⟩ none 0).after arrivals
    st.rx.receivedUnique = 3 ∧ (takenPositions none arrivals).dedup = [5,7] ∧
      (st.rx.buildReportBlock 7 (0,0)).2.cumulativeLost = 0 := by
  refine ⟨by decide +kernel,by decide +kernel,by decide +kernel⟩

namespace RxTracker
def expectedTotal (rx : RxTracker) : UInt32 := satSub rx.highestExtSeq (rx.baseExtSeq.getD 0) + 1
def lostDelta (rx : RxTracker) : UInt32 :=
  satSub (satSub rx.expectedTotal rx.expectedPrev) (satSub rx.receivedUnique rx.receivedPrev)

/-- The next report leaves thirty-two bits: in the sum that counts the first packet, or in the product with 256. -/
def ReportOverflows (rx : RxTracker) : Prop :=
  4294967296 ≤ (satSub rx.highestExtSeq (rx.baseExtSeq.getD 0)).toNat + 1 ∨ 4294967296 ≤ rx.lostDelta.toNat * 256
instance (rx : RxTracker) : Decidable rx.ReportOverflows := inferInstanceAs (Decidable (_ ∨ _))
def Event.isReport : Event → Bool
  | .report _ _ => true
  | _ => false
end RxTracker
def upToReport (events : List RxTracker.Event) : List RxTracker.Event := events.rdropWhile (!·.isReport)
def expectedOf (events : List RxTracker.Event) : ℤ := expected (SeqExt.extended {} (seqs events))
def expectedSince (events : List RxTracker.Event) : ℤ := expectedOf events - expectedOf (upToReport events)
def receivedSince (events : List RxTracker.Event) : ℤ :=
  (seqs events).length - (seqs (upToReport events)).length
def EarlyReport (events : List RxTracker.Event) : Prop := upToReport events ≠ [] ∧ seqs (upToReport events) = []
instance (events : List RxTracker.Event) : Decidable (EarlyReport events) := inferInstanceAs (Decidable (_ ∧ _))

/-- The part lost of the packets expected, in steps of one 256th. -/
def fractionOf (expected received : ℤ) : ℤ :=
  if expected ≤ 0 then 0 else min 255 (256 * max 0 (expected - received) / expected)

theorem expected_le_concat (exts : List UInt32) (ext : UInt32) : expected exts ≤ expected (exts ++ [ext]) := by
  cases exts with
  | nil =>
    have := le_highest (List.mem_singleton_self ext)
    simp only [List.nil_append,expected]
    omega
  | cons base rest =>
    have := highest_concat (base :: rest) ext
    simp only [List.cons_append,expected] at this ⊢
    omega

theorem expectedOf_le_append (before since : List RxTracker.Event) :
    expectedOf before ≤ expectedOf (before ++ since) := by
  induction since using List.reverseRecOn with
  | nil => rw [List.append_nil]
  | append_singleton since e ih =>
    refine ih.trans ?_
    rw [← List.append_assoc,expectedOf,expectedOf,seqs_append (before ++ since)]
    cases e with
    | rtp seq ts arrival =>
      change _ ≤ expected (SeqExt.extended {} (seqs (before ++ since) ++ [seq]))
      rw [SeqExt.extended_concat]
      exact expected_le_concat _ _
    | sr secs frac now | report ssrc now =>
      change _ ≤ expected (SeqExt.extended {} (seqs (before ++ since) ++ []))
      rw [List.append_nil]

theorem upToReport_append (events : List RxTracker.Event) :
    ∃ since, upToReport events ++ since = events := List.rdropWhile_prefix _ _

namespace RxTracker
variable {events : List Event}

/-- What the last report left behind: the totals of the run up to it. -/
structure Interval (rx : RxTracker) (events : List Event) : Prop where
  expected : rx.expectedPrev = if upToReport events = [] then 0 else (run (upToReport events)).expectedTotal
  received : rx.receivedPrev = if upToReport events = [] then 0 else (run (upToReport events)).receivedUnique
theorem run_concat (events : List Event) (e : Event) : run (events ++ [e]) = (run events).step e := by
  rw [run,List.foldl_append]
  rfl

theorem Interval.run (events : List Event) : (run events).Interval events := by
  induction events using List.reverseRecOn with
  | nil => exact ⟨rfl,rfl⟩
  | append_singleton events e ih =>
    cases e with
    | report ssrc now =>
      have hall : upToReport (events ++ [.report ssrc now]) = events ++ [.report ssrc now] := by
        simp [upToReport,Event.isReport]
      have hne : events ++ [Event.report ssrc now] ≠ [] := by simp
      constructor
      · rw [hall,if_neg hne,run_concat]
        rfl
      · rw [hall,if_neg hne,run_concat]
        rfl
    | rtp seq ts arrival =>
      have hsame : upToReport (events ++ [.rtp seq ts arrival]) = upToReport events := by
        simp [upToReport,Event.isReport]
      rw [run_concat]
      exact ⟨hsame ▸ ih.expected,hsame ▸ ih.received⟩
    | sr secs frac now =>
      have hsame : upToReport (events ++ [.sr secs frac now]) = upToReport events := by
        simp [upToReport,Event.isReport]
      rw [run_concat]
      exact ⟨hsame ▸ ih.expected,hsame ▸ ih.received⟩

theorem expectedTotal_of_nil (hnil : seqs events = []) :
    (run events).expectedTotal = 1 ∧ (run events).receivedUnique = 0 := by
  have h := Tracks.run events
  rw [hnil] at h
  have htop : (run events).highestExtSeq = 0 := UInt32.toNat_inj.mp h.top
  have hbase : (run events).baseExtSeq = none := h.base
  refine ⟨?_,h.received⟩
  rw [expectedTotal,htop,hbase]
  rfl

theorem toNat_expectedTotal (hne : seqs events ≠ []) :
    ((run events).expectedTotal.toNat : ℤ) = expectedOf events % 4294967296 := by
  have htotal := (Tracks.run events).toNat_top_sub_base hne
  rw [expectedTotal,UInt32.toNat_add,expectedOf,← htotal]
  rfl

/-- The two differences behind a report are those of the interval, but for the packet that a report before the first
one has counted. -/
theorem deltas_since (hne : seqs events ≠ []) (hfits : expectedOf events < 4294967296)
    (hcount : (seqs events).length / 4294967296 = (seqs (upToReport events)).length / 4294967296) :
    ((satSub (run events).expectedTotal (run events).expectedPrev).toNat : ℤ) =
        expectedSince events - (if EarlyReport events then 1 else 0) ∧
      ((satSub (run events).receivedUnique (run events).receivedPrev).toNat : ℤ) = receivedSince events := by
  have htotal := toNat_expectedTotal hne
  have hreceived := (Tracks.run events).received
  have hinterval := Interval.run events
  obtain ⟨since,hsince⟩ := upToReport_append events
  have hmono := expectedOf_le_append (upToReport events) since
  have hlength : (seqs events).length = (seqs (upToReport events)).length + (seqs since).length := by
    rw [← List.length_append,← seqs_append,hsince]
  have hpos := (Tracks.run events).toNat_top_sub_base hne
  rw [hsince] at hmono
  change _ = expectedOf events at hpos
  rw [toNat_satSub,toNat_satSub,hinterval.expected,hinterval.received,expectedSince,receivedSince,hreceived,
    UInt32.toNat_ofNat']
  by_cases hfirst : upToReport events = []
  · have hnone : expectedOf ([] : List Event) = 0 := rfl
    have hzero : (0 : UInt32).toNat = 0 := rfl
    have hlate : ¬EarlyReport events := fun h => h.1 hfirst
    rw [hfirst] at hcount
    change _ = 0 / 4294967296 at hcount
    rw [if_pos hfirst,if_pos hfirst,if_neg hlate,hfirst,hnone,hzero]
    change _ ∧ _ = ((_ : ℕ) : ℤ) - ((0 : ℕ) : ℤ)
    omega
  · rw [if_neg hfirst,if_neg hfirst]
    by_cases hnil : seqs (upToReport events) = []
    · obtain ⟨hone,hnone⟩ := expectedTotal_of_nil hnil
      have hzero : expectedOf (upToReport events) = 0 := by rw [expectedOf,hnil]; rfl
      rw [hnil] at hcount
      change _ = 0 / 4294967296 at hcount
      rw [hone,hnone,if_pos ⟨hfirst,hnil⟩,hzero,hnil]
      change ((_ - 1 : ℕ) : ℤ) = _ ∧ ((_ - 0 : ℕ) : ℤ) = ((_ : ℕ) : ℤ) - ((0 : ℕ) : ℤ)
      omega
    · have hbefore := toNat_expectedTotal hnil
      have hbeforePos := (Tracks.run (upToReport events)).toNat_top_sub_base hnil
      change _ = expectedOf (upToReport events) at hbeforePos
      have hlate : ¬EarlyReport events := fun h => hnil h.2
      rw [if_neg hlate,(Tracks.run (upToReport events)).received,UInt32.toNat_ofNat']
      omega

/-- What a report without an overflow says, before its cut to eight bits. -/
theorem toNat_fractionLost {rx : RxTracker} (h : ¬rx.ReportOverflows) (ssrc : UInt32) (now : UInt32 × UInt32) :
    (rx.buildReportBlock ssrc now).2.fractionLost.toNat =
      rx.lostDelta.toNat * 256 / (satSub rx.expectedTotal rx.expectedPrev).toNat % 256 := by
  have hfits : rx.lostDelta.toNat * 256 < 4294967296 := Nat.lt_of_not_le fun hle => h (.inr hle)
  change (if satSub rx.expectedTotal rx.expectedPrev = 0 then (0 : UInt8) else
    (rx.lostDelta * 256 / satSub rx.expectedTotal rx.expectedPrev).toUInt8).toNat = _
  split
  · next hzero =>
    rw [hzero]
    change 0 = _ / 0 % 256
    rw [Nat.div_zero]
  · rw [UInt32.toNat_toUInt8,UInt32.toNat_div,UInt32.toNat_mul]
    change _ * 256 % 4294967296 / _ % 256 = _
    rw [Nat.mod_eq_of_lt hfits]
end RxTracker

theorem receivedSince_pos (h : 0 < expectedSince events) : 0 < receivedSince events := by
  obtain ⟨since,hsince⟩ := upToReport_append events
  rw [expectedSince,expectedOf,expectedOf] at h
  rw [receivedSince]
  have hseqs : seqs events = seqs (upToReport events) ++ seqs since := by rw [← seqs_append,hsince]
  cases hnew : seqs since with
  | nil =>
    rw [hseqs,hnew,List.append_nil,sub_self] at h
    exact absurd h (lt_irrefl 0)
  | cons seq rest =>
    have hlength : (seqs events).length = (seqs (upToReport events)).length + (rest.length + 1) := by
      rw [hseqs,hnew,List.length_append,List.length_cons]
    omega

theorem fractionOf_eq {expected received : ℤ} {loss whole : ℕ} (hwhole : (whole : ℤ) = expected)
    (hloss : (loss : ℤ) = max 0 (expected - received)) (h : loss < whole) :
    ((loss * 256 / whole % 256 : ℕ) : ℤ) = fractionOf expected received := by
  have hpos : 0 < whole := Nat.zero_lt_of_lt h
  have hsmall : loss * 256 / whole < 256 := by
    rw [Nat.div_lt_iff_lt_mul hpos]
    omega
  have hcast : (256 * max 0 (expected - received) / expected : ℤ) = ((loss * 256 / whole : ℕ) : ℤ) := by
    rw [← hloss,← hwhole,mul_comm]
    norm_cast
  rw [fractionOf,if_neg (by omega),hcast,Nat.mod_eq_of_lt hsmall]
  omega

/-- A report after the first packet overflows exactly if the packets expected so far do not fit in thirty-two bits, or
those lost in the interval not in twenty-four. Without an overflow it says what part of the interval was lost. The
counter of packets must not go round in the interval, and after a report built before the first packet nothing may be
lost. -/
theorem fraction_lost_of_interval {events : List RxTracker.Event} (hpacket : seqs events ≠ [])
    (hearly : EarlyReport events → expectedSince events ≤ receivedSince events)
    (hcount : (seqs events).length / 4294967296 = (seqs (upToReport events)).length / 4294967296)
    (ssrc : UInt32) (now : UInt32 × UInt32) :
    (¬(RxTracker.run events).ReportOverflows ↔
      expectedOf events < 4294967296 ∧ expectedSince events - receivedSince events < 16777216) ∧
    (¬(RxTracker.run events).ReportOverflows →
      (((RxTracker.run events).buildReportBlock ssrc now).2.fractionLost.toNat : ℤ) =
        fractionOf (expectedSince events) (receivedSince events)) := by
  have hlost := toNat_satSub (satSub (RxTracker.run events).expectedTotal (RxTracker.run events).expectedPrev)
    (satSub (RxTracker.run events).receivedUnique (RxTracker.run events).receivedPrev)
  change (RxTracker.run events).lostDelta.toNat = _ at hlost
  have htotal := (RxTracker.Tracks.run events).toNat_top_sub_base hpacket
  change _ = expectedOf events at htotal
  by_cases hfits : expectedOf events < 4294967296
  · obtain ⟨hexpected,hreceived⟩ := RxTracker.deltas_since hpacket hfits hcount
    have hloss : ((RxTracker.run events).lostDelta.toNat : ℤ) = max 0 (expectedSince events - receivedSince events) := by
      split at hexpected
      · next h =>
        have := hearly h
        omega
      · omega
    have hover : ¬(RxTracker.run events).ReportOverflows ↔ expectedSince events - receivedSince events < 16777216 := by
      rw [RxTracker.ReportOverflows]
      omega
    refine ⟨hover.trans (and_iff_right hfits).symm,fun hno => ?_⟩
    rw [RxTracker.toNat_fractionLost hno]
    by_cases hpart : (RxTracker.run events).lostDelta.toNat = 0
    · have hnone : max 0 (expectedSince events - receivedSince events) = 0 := by omega
      simp [fractionOf,hpart,hnone]
    · have hpos : 0 < expectedSince events := by omega
      have hsome := receivedSince_pos hpos
      have hlate : ¬EarlyReport events := fun h => by
        have := hearly h
        omega
      rw [if_neg hlate, sub_zero] at hexpected
      have hpartial : (RxTracker.run events).lostDelta.toNat <
        (satSub (RxTracker.run events).expectedTotal (RxTracker.run events).expectedPrev).toNat := by omega
      exact fractionOf_eq hexpected hloss hpartial
  · have hover : (RxTracker.run events).ReportOverflows := Or.inl (by omega)
    exact ⟨iff_of_false (fun h => h hover) fun h => hfits h.1,fun h => absurd hover h⟩

theorem fraction_lost_third :
    let events : List RxTracker.Event := [.rtp 4 0 0, .report 1 (0,0), .rtp 5 0 0, .rtp 7 0 0]
    ¬(RxTracker.run events).ReportOverflows ∧
      (((RxTracker.run events).buildReportBlock 1 (0,0)).2.fractionLost.toNat : ℤ) =
        fractionOf (expectedSince events) (receivedSince events) ∧
      fractionOf (expectedSince events) (receivedSince events) = 85 := by
  intro events
  obtain ⟨hover,hfraction⟩ := fraction_lost_of_interval (by decide : seqs events ≠ []) (by decide) (by decide) 1 (0,0)
  have hno := hover.mpr (by decide)
  exact ⟨hno,hfraction hno,by decide⟩

def reportedEarly : List RxTracker.Event := [.report 1 (0,0), .rtp 5 0 0, .rtp 7 0 0]
def alternating (pairs : ℕ) : List RxTracker.Event :=
  (List.replicate pairs [RxTracker.Event.rtp 65535 0 0, .rtp 0 0 0]).flatten

/-- A report before the first packet claims one packet as lost, and hides one of three in the next interval. 258 wraps
in an interval take the product out of thirty-two bits: of 16842754 packets 516 are there, and the report says that
nothing is lost. -/
theorem interval_loss_misreported :
    ((RxTracker.run []).buildReportBlock 1 (0,0)).2.cumulativeLost = 1 ∧
    ((RxTracker.run reportedEarly).buildReportBlock 1 (0,0)).2.fractionLost = 0 ∧
    fractionOf (expectedSince reportedEarly) (receivedSince reportedEarly) = 85 ∧
    (RxTracker.run (alternating 258)).ReportOverflows ∧
    ((RxTracker.run (alternating 258)).buildReportBlock 1 (0,0)).2.fractionLost = 0 ∧
    expectedSince (alternating 258) = 16842754 ∧ receivedSince (alternating 258) = 516 ∧
    fractionOf 16842754 516 = 255 := by
  refine ⟨by decide,by decide,by decide,?_⟩
  decide +kernel

/-- The difference of two transit times, as a signed value modulo 2^32. -/
def transitDiff (transit prev : UInt32) : ℤ := ((transit.toNat : ℤ) - prev.toNat).bmod 4294967296

/-- One update of the filter: a sixteenth of the way to the new value, in whole numbers. -/
def smoothed (jitter d : ℤ) : ℤ := jitter + (d - jitter).tdiv 16

theorem abs_transitDiff {transit : UInt32} (h : (absDiff transit prev).toNat ≤ 2147483648) :
    |transitDiff transit prev| = (absDiff transit prev).toNat := by
  have hdiff : ((absDiff transit prev).toNat : ℤ) = |(transit.toNat : ℤ) - prev.toNat| := by
    rw [absDiff]
    split
    · next hlt =>
      have := UInt32.lt_iff_toNat_lt.mp hlt
      rw [UInt32.toNat_sub_of_le _ _ (UInt32.le_of_lt hlt),abs_of_neg (by omega)]
      omega
    · next hge =>
      have := UInt32.le_iff_toNat_le.mp (UInt32.not_lt.mp hge)
      rw [UInt32.toNat_sub_of_le _ _ (UInt32.not_lt.mp hge),abs_of_nonneg (by omega)]
      omega
  have habs : |(transit.toNat : ℤ) - prev.toNat| ≤ 2147483648 := by omega
  obtain ⟨hlow,hhigh⟩ := abs_le.mp habs
  rw [transitDiff,hdiff]
  rcases eq_or_lt_of_le hhigh with htop | hlt
  · -- the one value whose sign the range of signed numbers turns
    have hhalf : ((transit.toNat : ℤ) - prev.toNat) = 2147483648 := htop
    rw [hhalf]
    decide
  · rw [Int.bmod_eq_of_le_mul_two (by omega) (by omega)]

theorem smoothed_eq_iff (jitter d : ℕ) :
    ((jitter + (d - jitter) / 16 : ℕ) : ℤ) = smoothed jitter d ↔ jitter < d + 16 := by
  rw [smoothed]
  rcases le_total jitter d with hle | hge
  · have hnonneg : 0 ≤ (d : ℤ) - jitter := by omega
    rw [Int.tdiv_eq_ediv_of_nonneg hnonneg]
    omega
  · have hneg : ((d : ℤ) - jitter).tdiv 16 = -(((jitter : ℤ) - d) / 16) := by
      rw [← Int.neg_sub,Int.neg_tdiv,Int.tdiv_eq_ediv_of_nonneg (by omega)]
    rw [hneg]
    omega

namespace RxTracker
variable {rx : RxTracker} {e : Event}
def deviation (rx : RxTracker) : Event → Option ℤ
  | .rtp _ rtpTs arrival => rx.lastTransit.map fun prev => |transitDiff (arrival - rtpTs) prev|
  | _ => none
def deviations (rx : RxTracker) : List Event → List ℤ
  | [] => []
  | e :: events => (rx.deviation e).toList ++ (rx.step e).deviations events

/-- The estimate goes on as the filter does, or stays where there is no new value. -/
def Smooths (rx : RxTracker) (e : Event) : Prop :=
  ((rx.step e).jitter.toNat : ℤ) = (rx.deviation e).elim (rx.jitter.toNat : ℤ) (smoothed rx.jitter.toNat)

/-- The transit times of a packet and of the one before it are on the same side of a wrap. -/
def Unwrapped (rx : RxTracker) : Event → Prop
  | .rtp _ rtpTs arrival =>
    rx.lastTransit.elim True fun prev => (absDiff (arrival - rtpTs) prev).toNat ≤ 2147483648
  | _ => True
def Rising (rx : RxTracker) (e : Event) : Prop := (rx.deviation e).elim True fun d => (rx.jitter.toNat : ℤ) < d + 16

theorem toNat_jitter (h : rx.lastTransit = some prev) (seq : UInt16) (ts arrival : UInt32) :
    (rx.onRtp seq ts arrival).jitter.toNat =
      rx.jitter.toNat + ((absDiff (arrival - ts) prev).toNat - rx.jitter.toNat) / 16 := by
  have hjitter : (rx.onRtp seq ts arrival).jitter =
      rx.jitter + UInt32.ofNat (((absDiff (arrival - ts) prev).toNat - rx.jitter.toNat) / 16) := by
    simp only [onRtp,h]
  have := rx.jitter.toNat_lt
  have := (absDiff (arrival - ts) prev).toNat_lt
  rw [hjitter,UInt32.toNat_add,UInt32.toNat_ofNat']
  omega

theorem step_jitter (h : rx.Unwrapped e) : (rx.deviation e = none ∧ (rx.step e).jitter = rx.jitter) ∨
      ∃ d : ℕ, rx.deviation e = some (d : ℤ) ∧
        (rx.step e).jitter.toNat = rx.jitter.toNat + (d - rx.jitter.toNat) / 16 := by
  cases e with
  | sr secs frac now | report ssrc now => exact .inl ⟨rfl,rfl⟩
  | rtp seq ts arrival =>
    cases hlast : rx.lastTransit with
    | none =>
      refine .inl ⟨by simp only [deviation,hlast,Option.map_none],?_⟩
      simp only [step,onRtp,hlast]
    | some prev =>
      simp only [Unwrapped,hlast,Option.elim_some] at h
      refine .inr ⟨(absDiff (arrival - ts) prev).toNat,?_,toNat_jitter hlast seq ts arrival⟩
      simp only [deviation,hlast,Option.map_some,abs_transitDiff h]

theorem smooths_iff (h : rx.Unwrapped e) : rx.Smooths e ↔ rx.Rising e := by
  rw [Smooths,Rising]
  rcases step_jitter h with ⟨hnone,hsame⟩ | ⟨d,hsome,hjitter⟩
  · simp [hnone,hsame]
  · rw [hsome,hjitter,Option.elim_some,Option.elim_some,smoothed_eq_iff]
    omega

theorem jitter_foldl_le {events : List Event} (h : Along step Unwrapped rx events) :
    (events.foldl step rx).jitter.toNat ≤ rx.jitter.toNat ∨
      ∃ d ∈ rx.deviations events, ((events.foldl step rx).jitter.toNat : ℤ) ≤ d := by
  induction events generalizing rx with
  | nil => exact .inl (le_refl _)
  | cons e events ih =>
    rw [List.foldl_cons,deviations]
    rcases ih h.2 with hle | ⟨d,hd,hle⟩
    · rcases step_jitter h.1 with ⟨hnone,hsame⟩ | ⟨d,hsome,hjitter⟩
      · exact .inl (hle.trans_eq (congrArg UInt32.toNat hsame))
      · by_cases hlow : d ≤ rx.jitter.toNat
        · exact .inl (by omega)
        · exact .inr ⟨d,by simp [hsome],by omega⟩
    · exact .inr ⟨d,List.mem_append_right _ hd,hle⟩
end RxTracker

/-- Along a run in which the transit times do not wrap, every update of the jitter is that of the filter exactly if no
new value is sixteen or more below the estimate, and the estimate stays below a value seen. -/
theorem jitter_smooths_iff {events : List RxTracker.Event} (h : Along RxTracker.step RxTracker.Unwrapped {} events) :
    (Along RxTracker.step RxTracker.Smooths {} events ↔ Along RxTracker.step RxTracker.Rising {} events) ∧
      ((RxTracker.run events).jitter = 0 ∨
        ∃ d ∈ RxTracker.deviations {} events, ((RxTracker.run events).jitter.toNat : ℤ) ≤ d) := by
  refine ⟨Along.congr (fun _ _ => RxTracker.smooths_iff) h,?_⟩
  rcases RxTracker.jitter_foldl_le h with hzero | hbelow
  · exact .inl (UInt32.toNat_inj.mp (Nat.le_zero.mp hzero))
  · exact .inr hbelow

def delayed : List RxTracker.Event := [.rtp 1 0 0, .rtp 2 0 1600, .rtp 3 0 4800]

theorem jitter_smooths_delayed :
    Along RxTracker.step RxTracker.Smooths {} delayed ∧ (RxTracker.run delayed).jitter = 293 := by
  have hplain : Along RxTracker.step RxTracker.Unwrapped {} delayed := by
    refine ⟨trivial,?_,?_,trivial⟩ <;> change (_ : ℕ) ≤ _ <;> decide
  have hrising : Along RxTracker.step RxTracker.Rising {} delayed := by
    refine ⟨trivial,?_,?_,trivial⟩ <;> change (_ : ℤ) < _ <;> decide
  exact ⟨(jitter_smooths_iff hplain).1.mpr hrising,by decide⟩

/-- After one late packet the delay is steady, and the estimate of 100 stays where the filter takes it to 94. A transit
time that steps over the wrap by one unit adds a sixteenth of 2^32. -/
theorem jitter_never_falls :
    (RxTracker.run [.rtp 1 0 0, .rtp 2 0 1600, .rtp 3 0 1600]).jitter = 100 ∧
      |transitDiff 1600 1600| = 0 ∧ smoothed 100 0 = 94 ∧
      (RxTracker.run [.rtp 1 1 0, .rtp 2 0 0]).jitter = 268435455 ∧ |transitDiff 0 4294967295| = 1 := by
  decide
end RustyRtc.Rtp
