import Mathlib.Algebra.Order.Group.Abs
import Mathlib.Algebra.Order.Ring.Int
import RustyRtc.Rtp.Reports

/-! # Round-trip times

`tx_tracker.rs` takes a round-trip time from a report about one of our sender reports: the time since that report
left, less the time the peer held it. Both come in units of 1/65536 s, cut off and modulo 2^32. The clock of `time.rs`
is read as nanoseconds since the Unix epoch, and a time before it as zero.
-/
namespace RustyRtc.Rtp
open Rtcp

def ntpUnixEpochDiff : ℕ := 2208988800
def ntpNow (nanos : ℕ) : UInt32 × UInt32 :=
  let secs := nanos / 1000000000 + ntpUnixEpochDiff
  let frac := (nanos % 1000000000) * 4294967296 / 1000000000
  (UInt32.ofNat secs,UInt32.ofNat frac)
def ntpToCompact (msw lsw : UInt32) : UInt32 := (msw <<< 16) ||| (lsw >>> 16)

structure TxTracker where
  lastSrNtpCompact : UInt32 := 0
  lastRrInstant : Option ℕ := none
  remoteFractionLost : UInt8 := 0
  remoteCumLost : Int32 := 0
  remoteHighestExtSeq : UInt32 := 0
  remoteJitter : UInt32 := 0
  rttMs : Option UInt32 := none
  deriving DecidableEq, Repr

namespace TxTracker
def markSrSent (tx : TxTracker) (ntpMostSw ntpLeastSw : UInt32) : TxTracker :=
  { tx with lastSrNtpCompact := ntpToCompact ntpMostSw ntpLeastSw }
def Answers (tx : TxTracker) (rb : ReportBlock) : Prop :=
  rb.lsr ≠ 0 ∧ rb.dlsr ≠ 0 ∧ tx.lastSrNtpCompact ≠ 0 ∧ rb.lsr = tx.lastSrNtpCompact
instance (tx : TxTracker) (rb : ReportBlock) : Decidable (tx.Answers rb) := inferInstanceAs (Decidable (_ ∧ _))

def onReportBlock (tx : TxTracker) (rb : ReportBlock) (arrivalNtpCompact : UInt32) (now : ℕ) : TxTracker :=
  let tx :=
    { tx with
      remoteFractionLost := rb.fractionLost
      remoteCumLost := rb.cumulativeLost
      remoteHighestExtSeq := rb.highestSeqNoReceived
      remoteJitter := rb.interarrivalJitter
      lastRrInstant := some now }
  if tx.Answers rb then
    let rttUnits := arrivalNtpCompact - rb.lsr - rb.dlsr
    { tx with rttMs := some (UInt32.ofNat (rttUnits.toNat * 1000 / 65536)) }
  else tx
end TxTracker

def units (nanos : ℕ) : ℕ := (nanos + ntpUnixEpochDiff * 1000000000) * 65536 / 1000000000

/-- The shift drops what the mask drops: the two ways to cut a time to thirty-two bits agree. -/
theorem ntpToCompact_eq (msw lsw : UInt32) : ntpToCompact msw lsw = ntpCompact msw lsw := by
  have hmask : msw <<< 16 = (msw &&& 0xFFFF) <<< 16 := by
    have hlow : (msw &&& 0xFFFF).toNat = msw.toNat % 65536 := by
      rw [UInt32.toNat_and]
      exact Nat.and_two_pow_sub_one_eq_mod msw.toNat 16
    have hsixteen : (16 : UInt32).toNat % 32 = 16 := rfl
    apply UInt32.toNat_inj.mp
    rw [UInt32.toNat_shiftLeft,UInt32.toNat_shiftLeft,hlow,hsixteen,Nat.shiftLeft_eq,Nat.shiftLeft_eq]
    omega
  rw [ntpToCompact,ntpCompact,← hmask]

theorem units_eq (nanos diff : ℕ) : (nanos + diff * 1000000000) * 65536 / 1000000000 =
      (nanos / 1000000000 + diff) * 65536 + (nanos % 1000000000) * 65536 / 1000000000 := by
  omega

theorem toNat_ntpCompact (nanos : ℕ) :
    (ntpCompact (ntpNow nanos).1 (ntpNow nanos).2).toNat = units nanos % 4294967296 := by
  have hfrac : (nanos % 1000000000) * 4294967296 / 1000000000 < 4294967296 := by omega
  have hlow : (nanos % 1000000000) * 4294967296 / 1000000000 / 2 ^ 16 < 2 ^ 16 := by omega
  have hshift : (nanos % 1000000000) * 4294967296 / 1000000000 / 2 ^ 16 = (nanos % 1000000000) * 65536 / 1000000000 := by
    omega
  have hunits := units_eq nanos ntpUnixEpochDiff
  have hhigh (secs : ℕ) : secs % 2 ^ 32 % 2 ^ 16 * 2 ^ 16 % 4294967296 = 2 ^ 16 * (secs % 65536) := by omega
  rw [ntpCompact,UInt32.toNat_or,UInt32.toNat_shiftLeft,UInt32.toNat_and,UInt32.toNat_shiftRight]
  change ((UInt32.ofNat _).toNat &&& 65535) <<< 16 % 4294967296 ||| (UInt32.ofNat _).toNat >>> 16 = _
  rw [Nat.and_two_pow_sub_one_eq_mod _ 16,Nat.shiftLeft_eq,Nat.shiftRight_eq_div_pow,UInt32.toNat_ofNat',
    UInt32.toNat_ofNat',Nat.mod_eq_of_lt hfrac,hhigh,← Nat.two_pow_add_eq_or_of_lt hlow,hshift,units,hunits]
  omega

theorem RxTracker.foldl_lastSr (rx : RxTracker) {events : List Event}
    (h : ∀ e ∈ events, ∀ secs frac now, e ≠ .sr secs frac now) :
    (events.foldl step rx).lastSrCompact = rx.lastSrCompact ∧
      (events.foldl step rx).lastSrArrivalCompact = rx.lastSrArrivalCompact := by
  induction events generalizing rx with
  | nil => exact ⟨rfl,rfl⟩
  | cons e events ih =>
    obtain ⟨hsr,harrival⟩ := ih (rx.step e) fun e' he' => h e' (List.mem_cons_of_mem _ he')
    rw [List.foldl_cons,hsr,harrival]
    cases e with
    | rtp seq ts arrival => exact ⟨rfl,rfl⟩
    | sr secs frac now => exact absurd rfl (h _ List.mem_cons_self secs frac now)
    | report ssrc now => exact ⟨rfl,rfl⟩

/-- The peer takes in the sender report of time `t1` at its time `t2` and reports at `t3`. -/
def answer (rx : RxTracker) (t1 t2 : ℕ) (held : List RxTracker.Event) (ssrc : UInt32) (t3 : ℕ) : ReportBlock :=
  ((held.foldl RxTracker.step (rx.onSrReceived (ntpNow t1).1 (ntpNow t1).2 (ntpNow t2))).buildReportBlock ssrc
    (ntpNow t3)).2
def roundTrip (t1 t2 t3 t4 : ℕ) : ℤ := ((t4 : ℤ) - t1) - (t3 - t2)
def RttWithin (rttMs : ℕ) (nanos : ℤ) : Prop :=
  |(rttMs : ℤ) * 1000000 - nanos| * 65536 ≤ 2 * 1000000000 + 65536 * 1000000

theorem answer_lsr (rx : RxTracker) (t1 t2 : ℕ) {held : List RxTracker.Event}
    (hheld : ∀ e ∈ held, ∀ secs frac now, e ≠ .sr secs frac now) (ssrc : UInt32) (t3 : ℕ) :
    (answer rx t1 t2 held ssrc t3).lsr = ntpCompact (ntpNow t1).1 (ntpNow t1).2 ∧ (answer rx t1 t2 held ssrc t3).dlsr =
        ntpCompact (ntpNow t3).1 (ntpNow t3).2 - ntpCompact (ntpNow t2).1 (ntpNow t2).2 := by
  obtain ⟨hsr,harrival⟩ :=
    RxTracker.foldl_lastSr (rx.onSrReceived (ntpNow t1).1 (ntpNow t1).2 (ntpNow t2)) hheld
  simp only [answer,RxTracker.buildReportBlock,hsr,harrival]
  exact ⟨rfl,rfl⟩

theorem toNat_sub_emod (a b : UInt32) : ((a - b).toNat : ℤ) = ((a.toNat : ℤ) - b.toNat) % 4294967296 := by
  have := b.toNat_lt
  rw [UInt32.toNat_sub]
  omega
theorem units_sub_lt {late early : ℕ} (hspan : late - early ≤ 32768 * 1000000000) :
    units late - units early < 4294967295 := by
  rw [units,units]
  omega
theorem toNat_sub_compact (late early : ℕ) (hle : early ≤ late) (hspan : late - early ≤ 32768 * 1000000000) :
    (ntpCompact (ntpNow late).1 (ntpNow late).2 - ntpCompact (ntpNow early).1 (ntpNow early).2).toNat =
      units late - units early := by
  rw [UInt32.toNat_sub,toNat_ntpCompact,toNat_ntpCompact,units,units]
  omega
theorem units_error {t1 t2 t3 t4 : ℕ} (h14 : t1 ≤ t4) (h23 : t2 ≤ t3) (hhold : t3 - t2 ≤ t4 - t1) :
    -1 ≤ ((units t4 - units t1 : ℕ) : ℤ) - (units t3 - units t2 : ℕ) ∧
      |(((units t4 - units t1 : ℕ) : ℤ) - (units t3 - units t2 : ℕ)) * 1000000000 -
        roundTrip t1 t2 t3 t4 * 65536| < 2 * 1000000000 := by
  rw [roundTrip,units,units,units,units,abs_lt]
  omega

/-- A difference that is not negative is recorded well. One below zero goes round to eighteen hours. -/
theorem rttWithin_iff {rttUnits : UInt32} {diff nanos : ℤ} (hunits : (rttUnits.toNat : ℤ) = diff % 4294967296)
    (hlow : -1 ≤ diff) (hhigh : diff < 4294967295) (hnanos : 0 ≤ nanos)
    (herror : |diff * 1000000000 - nanos * 65536| < 2 * 1000000000) :
    RttWithin (UInt32.ofNat (rttUnits.toNat * 1000 / 65536)).toNat nanos ↔ 0 ≤ diff := by
  have hms : (UInt32.ofNat (rttUnits.toNat * 1000 / 65536)).toNat = rttUnits.toNat * 1000 / 65536 := by
    have := rttUnits.toNat_lt
    rw [UInt32.toNat_ofNat']
    omega
  obtain ⟨hbelow,habove⟩ := abs_lt.mp herror
  rw [RttWithin,hms]
  rcases eq_or_lt_of_le hlow with hminus | hnonneg
  · subst hminus
    have hround : rttUnits.toNat = 4294967295 := by omega
    rw [hround]
    refine iff_of_false (fun h => ?_) (by decide)
    have := le_abs_self (((4294967295 * 1000 / 65536 : ℕ) : ℤ) * 1000000 - nanos)
    omega
  · have hplain : (rttUnits.toNat : ℤ) = diff := by omega
    refine iff_of_true ?_ (by omega)
    have habs : |((rttUnits.toNat * 1000 / 65536 : ℕ) : ℤ) * 1000000 - nanos| ≤ 1030517 := by
      rw [abs_le]
      omega
    omega

/-- A round-trip time taken from an exchange is off by at most two units and a millisecond exactly if the time held,
cut off to units, is no longer than the time gone by, cut off to units. That is so for a round trip of one unit or
more. -/
theorem rtt_error_iff {t1 t2 t3 t4 : ℕ} (h14 : t1 ≤ t4) (h23 : t2 ≤ t3) (hhold : t3 - t2 ≤ t4 - t1)
    (hspan : t4 - t1 ≤ 32768 * 1000000000) (rx : RxTracker) {held : List RxTracker.Event}
    (hheld : ∀ e ∈ held, ∀ secs frac now, e ≠ .sr secs frac now) {ssrc : UInt32} {rb : ReportBlock}
    (hread : ReportBlock.decode.run (answer rx t1 t2 held ssrc t3).encodeInto = .ok (rb,[])) {tx : TxTracker}
    (hanswers : tx.Answers rb) (now : ℕ) :
    ∃ rtt : UInt32,
      (tx.onReportBlock rb (ntpToCompact (ntpNow t4).1 (ntpNow t4).2) now).rttMs = some rtt ∧
        (RttWithin rtt.toNat (roundTrip t1 t2 t3 t4) ↔ units t3 - units t2 ≤ units t4 - units t1) ∧
        (1000000000 ≤ roundTrip t1 t2 t3 t4 * 65536 → RttWithin rtt.toNat (roundTrip t1 t2 t3 t4)) := by
  rw [decode_encodeInto] at hread
  obtain ⟨hlsr,hdlsr⟩ := answer_lsr rx t1 t2 hheld ssrc t3
  have hblock : rb.lsr = (answer rx t1 t2 held ssrc t3).lsr ∧ rb.dlsr = (answer rx t1 t2 held ssrc t3).dlsr := by
    cases hread
    exact ⟨rfl,rfl⟩
  rw [hlsr, hdlsr] at hblock
  have hrecorded : (tx.onReportBlock rb (ntpToCompact (ntpNow t4).1 (ntpNow t4).2) now).rttMs =
      some (UInt32.ofNat ((ntpToCompact (ntpNow t4).1 (ntpNow t4).2 - rb.lsr - rb.dlsr).toNat * 1000 / 65536)) := by
    simp only [TxTracker.onReportBlock]
    exact congrArg TxTracker.rttMs (if_pos hanswers)
  have hunits : ((ntpToCompact (ntpNow t4).1 (ntpNow t4).2 - rb.lsr - rb.dlsr).toNat : ℤ) =
      (((units t4 - units t1 : ℕ) : ℤ) - (units t3 - units t2 : ℕ)) % 4294967296 := by
    have hgone := toNat_sub_compact t4 t1 h14 hspan
    have hheldFor := toNat_sub_compact t3 t2 h23 (hhold.trans hspan)
    rw [hblock.1, hblock.2, ntpToCompact_eq, toNat_sub_emod, hgone, hheldFor]
  obtain ⟨hlow,herror⟩ := units_error h14 h23 hhold
  have hgone := units_sub_lt hspan
  have hnonneg : 0 ≤ roundTrip t1 t2 t3 t4 := by
    rw [roundTrip]
    omega
  have hiff := rttWithin_iff hunits hlow (by omega) hnonneg herror
  refine ⟨_,hrecorded,hiff.trans (by omega),fun hlong => hiff.mpr ?_⟩
  have := (abs_lt.mp herror).1
  omega

def sentAtEpoch : TxTracker := TxTracker.markSrSent {} (ntpNow 0).1 (ntpNow 0).2
def heldAnswer : ReportBlock := answer {} 0 3600125000000 [.rtp 1 0 0] 7 3602125000000

theorem rtt_error_quarter :
    ∃ rtt : UInt32,
      (sentAtEpoch.onReportBlock heldAnswer (ntpToCompact (ntpNow 2250000000).1 (ntpNow 2250000000).2) 0).rttMs =
          some rtt ∧
        RttWithin rtt.toNat 250000000 := by
  have hread : ReportBlock.decode.run heldAnswer.encodeInto = .ok (heldAnswer,[]) := by decide +kernel
  have hanswers : sentAtEpoch.Answers heldAnswer := by decide +kernel
  have helapsed : 0 ≤ 2250000000 := by decide
  obtain ⟨rtt,hrtt,-,hlong⟩ := rtt_error_iff helapsed (by decide) (by decide) (by decide) {} (by simp) hread hanswers 0
  exact ⟨rtt,hrtt,hlong (by decide)⟩

/-- A round trip of 14 microseconds on our clock sees no unit go by, while the microsecond the peer holds the report
does. The time recorded is more than eighteen hours. -/
theorem short_round_trip_wraps :
    roundTrip 0 15000 16000 15000 = 14000 ∧
      sentAtEpoch.Answers (answer {} 0 15000 [] 7 16000) ∧
      (sentAtEpoch.onReportBlock (answer {} 0 15000 [] 7 16000)
        (ntpToCompact (ntpNow 15000).1 (ntpNow 15000).2) 0).rttMs = some 65535999 ∧
      ¬RttWithin 65535999 14000 := by
  refine ⟨by decide,by decide +kernel,by decide +kernel,?_⟩
  rw [RttWithin]
  decide
end RustyRtc.Rtp
