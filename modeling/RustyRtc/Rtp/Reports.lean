import RustyRtc.Rtcp.RoundTrip
import RustyRtc.Rtp.RecvStream

/-! # Reception reports

`rx_tracker.rs`: the report block built from the tracker, and the loss it carries to the sender. The
clock reading of `now_ntp_compact` is an input. Arithmetic wraps, as it does without overflow checks.
-/
namespace RustyRtc.Rtp
open Rtcp

def ntpCompact (secs frac : UInt32) : UInt32 := ((secs &&& 0xFFFF) <<< 16) ||| (frac >>> 16)
def satSub (a b : UInt32) : UInt32 := if b ≤ a then a - b else 0

theorem toNat_satSub (a b : UInt32) : (satSub a b).toNat = a.toNat - b.toNat := by
  rw [satSub]
  split
  · next h => exact UInt32.toNat_sub_of_le _ _ h
  · next h =>
    have := UInt32.lt_iff_toNat_lt.mp (UInt32.not_le.mp h)
    change 0 = _
    omega

namespace RxTracker
def onSrReceived (rx : RxTracker) (ntpSecs ntpFrac : UInt32) (nowNtp : UInt32 × UInt32) : RxTracker :=
  { rx with
    lastSrCompact := some (ntpCompact ntpSecs ntpFrac)
    lastSrArrivalCompact := some (ntpCompact nowNtp.1 nowNtp.2) }

def buildReportBlock (rx : RxTracker) (ssrc : UInt32) (now : UInt32 × UInt32) : RxTracker × ReportBlock :=
  let base := rx.baseExtSeq.getD 0
  let expectedTotal := satSub rx.highestExtSeq base + 1
  let cumulativeLost : ℤ := expectedTotal.toNat - rx.receivedUnique.toNat
  let expDelta := satSub expectedTotal rx.expectedPrev
  let recDelta := satSub rx.receivedUnique rx.receivedPrev
  let lostDelta := satSub expDelta recDelta
  let fractionLost := if expDelta = 0 then 0 else (lostDelta * 256 / expDelta).toUInt8
  let lsrDlsr :=
    match rx.lastSrCompact, rx.lastSrArrivalCompact with
    | some lsr, some arrival => (lsr,ntpCompact now.1 now.2 - arrival)
    | _, _ => (0,0)
  ({ rx with expectedPrev := expectedTotal, receivedPrev := rx.receivedUnique },
    { ssrc
      fractionLost
      cumulativeLost := Int32.ofInt cumulativeLost &&& 0x00FFFFFF
      highestSeqNoReceived := rx.highestExtSeq
      interarrivalJitter := rx.jitter
      lsr := lsrDlsr.1
      dlsr := lsrDlsr.2 })

inductive Event where
  | rtp (seq : UInt16) (rtpTs arrivalRtpUnits : UInt32)
  | sr (ntpSecs ntpFrac : UInt32) (nowNtp : UInt32 × UInt32)
  | report (ssrc : UInt32) (now : UInt32 × UInt32)
  deriving DecidableEq, Repr
def step (rx : RxTracker) : Event → RxTracker
  | .rtp seq rtpTs arrival => rx.onRtp seq rtpTs arrival
  | .sr secs frac now => rx.onSrReceived secs frac now
  | .report ssrc now => (rx.buildReportBlock ssrc now).1
def run (events : List Event) : RxTracker := events.foldl step {}
end RxTracker

def seqs : List RxTracker.Event → List UInt16 :=
  List.filterMap fun
    | .rtp seq _ _ => some seq
    | _ => none
theorem seqs_append (as bs : List RxTracker.Event) : seqs (as ++ bs) = seqs as ++ seqs bs := List.filterMap_append
def SeqExt.extended (s : SeqExt) : List UInt16 → List UInt32
  | [] => []
  | seq :: rest => (s.update seq).2 :: (s.update seq).1.extended rest
def SeqExt.after (s : SeqExt) (qs : List UInt16) : SeqExt := qs.foldl (fun s q => (s.update q).1) s
def highest (exts : List UInt32) : ℕ := exts.foldl (fun top ext => max top ext.toNat) 0
def expected : List UInt32 → ℤ
  | [] => 0
  | base :: rest => highest (base :: rest) - base.toNat + 1
def lost (events : List RxTracker.Event) : ℤ :=
  expected (SeqExt.extended {} (seqs events)) - (seqs events).length
def clamp24 (n : ℤ) : ℤ := max (-8388608) (min n 8388607)
theorem SeqExt.extended_concat (s : SeqExt) (qs : List UInt16) (q : UInt16) :
    s.extended (qs ++ [q]) = s.extended qs ++ [((s.after qs).update q).2] := by
  induction qs generalizing s with
  | nil => rfl
  | cons p qs ih => simp only [List.cons_append,extended,ih,after,List.foldl_cons]

theorem SeqExt.length_extended (s : SeqExt) (qs : List UInt16) : (s.extended qs).length = qs.length := by
  induction qs generalizing s with
  | nil => rfl
  | cons q qs ih => simp [extended,ih]
theorem highest_concat (exts : List UInt32) (ext : UInt32) :
    highest (exts ++ [ext]) = max (highest exts) ext.toNat := by
  simp [highest]

theorem le_highest {exts : List UInt32} {ext : UInt32} (h : ext ∈ exts) : ext.toNat ≤ highest exts := by
  induction exts using List.reverseRecOn with
  | nil => simp at h
  | append_singleton exts last ih =>
    rw [highest_concat]
    rcases List.mem_append.mp h with h | h
    · exact (ih h).trans (Nat.le_max_left _ _)
    · rw [List.mem_singleton.mp h]
      exact Nat.le_max_right _ _

structure RxTracker.Tracks (rx : RxTracker) (qs : List UInt16) : Prop where
  seqext : rx.seqext = SeqExt.after {} qs
  base : rx.baseExtSeq = (SeqExt.extended {} qs).head?
  top : rx.highestExtSeq.toNat = highest (SeqExt.extended {} qs)
  received : rx.receivedUnique = UInt32.ofNat qs.length

namespace RxTracker.Tracks
variable {rx : RxTracker} {events : List Event}
theorem onRtp {qs : List UInt16} (h : rx.Tracks qs) (seq : UInt16) (ts arrival : UInt32) :
    (rx.onRtp seq ts arrival).Tracks (qs ++ [seq]) := by
  constructor
  · rw [SeqExt.after,List.foldl_append]
    exact congrArg (fun s : SeqExt => (s.update seq).1) h.seqext
  · rw [SeqExt.extended_concat,← h.seqext,List.head?_append,← h.base]
    change some (rx.baseExtSeq.getD _) = _
    cases rx.baseExtSeq <;> rfl
  · rw [SeqExt.extended_concat,← h.seqext,highest_concat,← h.top]
    change (if (rx.seqext.update seq).2 > rx.highestExtSeq then (_ : UInt32) else _).toNat = _
    split
    · next hgt => exact (Nat.max_eq_right (Nat.le_of_lt (UInt32.lt_iff_toNat_lt.mp hgt))).symm
    · next hle => exact (Nat.max_eq_left (UInt32.le_iff_toNat_le.mp (UInt32.not_lt.mp hle))).symm
  · change rx.receivedUnique + 1 = _
    rw [h.received,List.length_append,UInt32.ofNat_add]
    rfl

theorem step (h : rx.Tracks (seqs events)) (e : Event) : (rx.step e).Tracks (seqs (events ++ [e])) := by
  rw [seqs_append]
  cases e with
  | rtp seq ts arrival => exact h.onRtp seq ts arrival
  | sr secs frac now | report ssrc now =>
    change RxTracker.Tracks _ (seqs events ++ [])
    rw [List.append_nil]
    exact ⟨h.seqext,h.base,h.top,h.received⟩

theorem run (events : List Event) : (RxTracker.run events).Tracks (seqs events) := by
  induction events using List.reverseRecOn with
  | nil => exact ⟨rfl,rfl,rfl,rfl⟩
  | append_singleton events e ih =>
    rw [RxTracker.run,List.foldl_append]
    exact ih.step e

theorem toNat_top_sub_base (h : rx.Tracks (seqs events)) (hne : seqs events ≠ []) :
    ((satSub rx.highestExtSeq (rx.baseExtSeq.getD 0)).toNat + 1 : ℤ) = expected (SeqExt.extended {} (seqs events)) := by
  have hlen := SeqExt.length_extended {} (seqs events)
  cases hexts : SeqExt.extended {} (seqs events) with
  | nil =>
    rw [hexts] at hlen
    exact absurd (List.length_eq_zero_iff.mp hlen.symm) hne
  | cons base rest =>
    have hbase : rx.baseExtSeq = some base := by rw [h.base,hexts,List.head?_cons]
    have htop := h.top
    have hle : base.toNat ≤ highest (base :: rest) := le_highest List.mem_cons_self
    rw [hexts] at htop
    rw [toNat_satSub,hbase,Option.getD_some,htop,expected]
    omega

/-- The tracker's difference is the loss, up to the width of its counters. -/
theorem lost_emod (h : rx.Tracks (seqs events)) (hne : seqs events ≠ []) :
    ((satSub rx.highestExtSeq (rx.baseExtSeq.getD 0) + 1).toNat - rx.receivedUnique.toNat : ℤ) % 4294967296 =
      lost events % 4294967296 := by
  have htotal := h.toNat_top_sub_base hne
  rw [lost,h.received,UInt32.toNat_add,UInt32.toNat_ofNat',← htotal]
  change ((((satSub _ _).toNat + 1) % 4294967296 : ℕ) - _ : ℤ) % 4294967296 = _
  omega
end RxTracker.Tracks

theorem toInt_masked (n : ℤ) : (Int32.ofInt n &&& 0x00FFFFFF).toInt = n % 16777216 := by
  have hnat : (Int32.ofInt n &&& 0x00FFFFFF).toBitVec.toNat = (n % 4294967296).toNat % 16777216 := by
    change (BitVec.ofInt 32 n &&& 0x00FFFFFF#32).toNat = _
    rw [BitVec.toNat_and,BitVec.toNat_ofInt]
    exact Nat.and_two_pow_sub_one_eq_mod _ 24
  change (Int32.ofInt n &&& 0x00FFFFFF).toBitVec.toInt = _
  rw [BitVec.toInt_eq_toNat_of_lt (by rw [hnat]; omega),hnat]
  omega

/-- `clamp(-8_388_608, 8_388_607)` on machine integers. -/
def clampLost (x : Int32) : Int32 := if x < -8388608 then -8388608 else if 8388607 < x then 8388607 else x

theorem toInt_clampLost (x : Int32) : (clampLost x).toInt = clamp24 x.toInt := by
  have hlo : (-8388608 : Int32).toInt = -8388608 := rfl
  have hhi : (8388607 : Int32).toInt = 8388607 := rfl
  rw [clampLost,clamp24]
  simp only [Int32.lt_iff_toInt_lt,hlo,hhi]
  split
  · next h => rw [hlo]; omega
  · split
    · next h => rw [hhi]; omega
    · omega

theorem lostBytes_clampLost (x : Int32) : lostBytes (clampLost x) = lostBytes x := by
  have hfix : clampLost (clampLost x) = clampLost x := by
    apply Int32.toInt_inj.mp
    simp only [toInt_clampLost,clamp24]
    omega
  have hlow (y : Int32) : lostBytes y =
      (fun clU : UInt32 => [((clU >>> 16) &&& 0xFF).toUInt8,((clU >>> 8) &&& 0xFF).toUInt8,(clU &&& 0xFF).toUInt8])
        ((clampLost y).toUInt32 &&& 0x00FFFFFF) := rfl
  rw [hlow,hlow,hfix]

/-- What the sender reads off a block: its loss clamped. -/
theorem decode_encodeInto (rb : ReportBlock) :
    ReportBlock.decode.run rb.encodeInto = .ok ({ rb with cumulativeLost := clampLost rb.cumulativeLost },[]) := by
  have hbytes : rb.encodeInto = { rb with cumulativeLost := clampLost rb.cumulativeLost }.encodeInto := by
    simp only [ReportBlock.encodeInto,lostBytes_clampLost]
  have hfits : { rb with cumulativeLost := clampLost rb.cumulativeLost }.LossFits := by
    rw [ReportBlock.LossFits,toInt_clampLost,clamp24]
    omega
  have hreads := ReportBlock.reads hfits []
  rwa [List.append_nil,← hbytes] at hreads

/-- The loss that arrives is never negative: it is the loss modulo 2^24, cut off at the largest 24-bit number. -/
theorem arrived_loss {events : List RxTracker.Event} (hne : seqs events ≠ []) (ssrc : UInt32) (now : UInt32 × UInt32) :
    (clampLost ((RxTracker.run events).buildReportBlock ssrc now).2.cumulativeLost).toInt =
      min (lost events % 16777216) 8388607 := by
  have hmod := (RxTracker.Tracks.run events).lost_emod hne
  simp only [RxTracker.buildReportBlock,toInt_clampLost,toInt_masked,clamp24]
  omega

theorem arrived_loss_of_nil {events : List RxTracker.Event} (hnil : seqs events = []) (ssrc : UInt32)
    (now : UInt32 × UInt32) :
    (clampLost ((RxTracker.run events).buildReportBlock ssrc now).2.cumulativeLost).toInt = 1 := by
  have h := RxTracker.Tracks.run events
  rw [hnil] at h
  have htop : (RxTracker.run events).highestExtSeq = 0 := UInt32.toNat_inj.mp h.top
  have hbase : (RxTracker.run events).baseExtSeq = none := h.base
  have hreceived : (RxTracker.run events).receivedUnique = 0 := h.received
  simp only [RxTracker.buildReportBlock,hbase,htop,hreceived]
  rfl

/-- The sender reads the true loss, clamped to 24 bits, exactly if a packet was received, the loss is not negative,
and masking it to 24 bits does not take it below the clamp. -/
theorem cumulative_lost_arrives_iff (events : List RxTracker.Event) (ssrc : UInt32) (now : UInt32 × UInt32) :
    ∃ rb, ReportBlock.decode.run ((RxTracker.run events).buildReportBlock ssrc now).2.encodeInto = .ok (rb,[]) ∧
      (rb.cumulativeLost.toInt = clamp24 (lost events) ↔
        seqs events ≠ [] ∧ 0 ≤ lost events ∧
          (lost events < 16777216 ∨ 8388607 ≤ lost events % 16777216)) := by
  refine ⟨_,decode_encodeInto _,?_⟩
  change (clampLost _).toInt = _ ↔ _
  by_cases hnil : seqs events = []
  · rw [arrived_loss_of_nil hnil]
    have hlost : lost events = 0 := by simp [lost,hnil,SeqExt.extended,expected]
    exact iff_of_false (by rw [hlost]; decide) fun h => h.1 hnil
  · rw [arrived_loss hnil, clamp24]
    simp only [ne_eq, hnil, not_false_eq_true, true_and]
    omega

/-- One packet received twice is a loss of minus one. The sender reads the largest loss there is. -/
theorem duplicate_reads_as_max_loss :
    let events : List RxTracker.Event := [.rtp 5 0 0, .rtp 5 0 0]
    lost events = -1 ∧
      (ReportBlock.decode.run ((RxTracker.run events).buildReportBlock 1 (0,0)).2.encodeInto).toOption.map
        (·.1.cumulativeLost) = some 8388607 := by
  decide +kernel
end RustyRtc.Rtp
