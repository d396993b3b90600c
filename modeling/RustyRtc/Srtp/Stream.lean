import RustyRtc.Foundation.SerialIndex
import RustyRtc.Rtp.Packet
import RustyRtc.Srtp.Context

/-! # One packet stream through two contexts

A stream is indexed by unbounded positions. The wire shows the low sixteen bits of a
position and the rollover counter is the rest. The sender's counting rule and the
receiver's estimate are both compared with the true position here, one packet at a
time; whole runs are assembled in the modules that follow.
-/
namespace RustyRtc.Srtp
open SlidingWindow
variable {I : ℕ}
def seqAt (position : ℕ) : UInt16 := UInt16.ofNat position
def rocAt (position : ℕ) : UInt32 := UInt32.ofNat (position / 65536)
@[simp] theorem seqAt_toNat (I : ℕ) : (seqAt I).toNat = I % 65536 := UInt16.toNat_ofNat'
@[simp] theorem rocAt_toNat (I : ℕ) : (rocAt I).toNat = I / 65536 % 4294967296 := UInt32.toNat_ofNat'
theorem seqAt_add (start : UInt16) (i : ℕ) : seqAt (start.toNat + i) = start + UInt16.ofNat i := by
  simp [seqAt,UInt16.ofNat_add]
theorem packetIndex_toNat_of_lt (hI : I < 2 ^ 48) : (packetIndex (rocAt I) (seqAt I)).toNat = I := by
  rw [packetIndex_toNat,rocAt_toNat,seqAt_toNat]
  omega
theorem packetIndex_toNat_of_wrapped (hlow : 2 ^ 48 ≤ I) (hhigh : I < 2 ^ 49) :
    (packetIndex (rocAt I) (seqAt I)).toNat = I - 2 ^ 48 := by
  rw [packetIndex_toNat,rocAt_toNat,seqAt_toNat]
  omega

/-- An RTP packet of one source whose header can be measured. -/
structure WellFormed (ssrc : UInt32) (seq : UInt16) (packet : Bytes) : Prop where
  header : ∃ n, getRtpHeaderLen packet = .ok n
  seq_eq : readU16 packet 2 = seq
  ssrc_eq : readU32 packet 8 = ssrc

theorem getRtpHeaderLen_simple (payloadType : UInt8) (marker : Bool) (seq : UInt16) (ts ssrc : UInt32)
    (payload : Bytes) :
    getRtpHeaderLen (Rtp.RtpPacket.simpleHeader payloadType marker seq ts ssrc ++ payload) = .ok 12 := by
  have hflags : (Rtp.RtpPacket.simpleHeader payloadType marker seq ts ssrc ++ payload).getD 0 0 = 0x80 := rfl
  have hlen : (Rtp.RtpPacket.simpleHeader payloadType marker seq ts ssrc).length = 12 := rfl
  have hlong : 12 ≤ (Rtp.RtpPacket.simpleHeader payloadType marker seq ts ssrc ++ payload).length := by
    rw [List.length_append]
    omega
  simp only [getRtpHeaderLen,hflags,if_neg (Nat.not_lt.mpr hlong)]
  exact checkHeaderLen_eq_ok.mpr ⟨rfl,hlong⟩

theorem wellFormed_encode {payloadType : UInt8} {marker : Bool} {seq : UInt16} {ts ssrc : UInt32}
    {payload bytes : Bytes} (h : (Rtp.RtpPacket.simple payloadType marker seq ts ssrc payload).encode = .ok bytes) :
    WellFormed ssrc seq bytes := by
  rw [Rtp.RtpPacket.encode_simple] at h
  cases h
  exact ⟨⟨12,getRtpHeaderLen_simple ..⟩,readU16_beBytes16 seq [],readU32_beBytes32 ssrc []⟩

namespace SrtpContext
variable {ctx : SrtpContext} {ssrc : UInt32} {I J : ℕ} {S : Set ℕ}
def Expects (ctx : SrtpContext) (ssrc : UInt32) (position : ℕ) : Prop :=
  (ctx.lastSeqs ssrc = none ∧ position < 65536) ∨
  ∃ last, last + 1 = position ∧ ctx.lastSeqs ssrc = some (seqAt last) ∧ ctx.rocs ssrc = some (rocAt last)

theorem getOrCreateRoc_eq (h : ctx.Expects ssrc I) :
    ctx.getOrCreateRoc ssrc (seqAt I) = (ctx.remember ssrc (rocAt I) (seqAt I),rocAt I) := by
  rcases h with ⟨hnone,hI⟩ | ⟨J,rfl,hseq,hroc⟩
  · have h0 : rocAt I = 0 := by
      rw [rocAt,Nat.div_eq_of_lt hI]
      rfl
    simp only [getOrCreateRoc,hnone,h0]
  · simp only [getOrCreateRoc,hseq,hroc,Option.getD_some]
    by_cases hwrap : J % 65536 = 65535
    · have hlt : seqAt (J + 1) < seqAt J := by
        rw [UInt16.lt_iff_toNat_lt,seqAt_toNat,seqAt_toNat]
        omega
      have hseq0 : seqAt (J + 1) = 0 := by
        apply UInt16.toNat_inj.mp
        rw [seqAt_toNat,UInt16.toNat_zero]
        omega
      have hlast : seqAt J = 65535 := by
        apply UInt16.toNat_inj.mp
        rw [seqAt_toNat]
        exact hwrap
      have hnext : rocAt J + 1 = rocAt (J + 1) := by
        rw [rocAt,rocAt,show (J + 1) / 65536 = J / 65536 + 1 by omega,UInt32.ofNat_add]
        rfl
      have hdiff : (seqAt J).toUInt32 - (seqAt (J + 1)).toUInt32 > 1000 := by
        rw [hlast,hseq0]
        decide
      simp only [if_pos hlt,if_pos hdiff,hnext]
    · have hlt : ¬ seqAt (J + 1) < seqAt J := by
        rw [UInt16.lt_iff_toNat_lt,seqAt_toNat,seqAt_toNat]
        omega
      have hsame : rocAt J = rocAt (J + 1) := by
        rw [rocAt,rocAt,show (J + 1) / 65536 = J / 65536 by omega]
      simp only [if_neg hlt,hsame]

theorem expects_remember (ctx : SrtpContext) (ssrc : UInt32) (I : ℕ) :
    (ctx.remember ssrc (rocAt I) (seqAt I)).Expects ssrc (I + 1) :=
  Or.inr ⟨I,rfl,by simp [remember],by simp [remember]⟩
structure Untouched (ctx : SrtpContext) (ssrc : UInt32) : Prop where
  lastSeq : ctx.lastSeqs ssrc = none
  window : ctx.replayWindow ssrc = ReplayWindow.new

/-- The receiver stands at position `last` of the stream and its window accounts for
the positions in `S`. -/
structure Received (ctx : SrtpContext) (ssrc : UInt32) (last : ℕ) (S : Set ℕ) : Prop where
  lastSeq : ctx.lastSeqs ssrc = some (seqAt last)
  roc : ctx.rocs ssrc = some (rocAt last)
  window : Tracks (ctx.replayWindow ssrc).view S
theorem rocAt_of_cycle_eq (h : I / 65536 = J / 65536) : rocAt I = rocAt J := by
  rw [rocAt,rocAt,h]
theorem rocAt_of_cycle_succ (h : I / 65536 = J / 65536 + 1) : rocAt I = rocAt J + 1 := by
  rw [rocAt,rocAt,h,UInt32.ofNat_add]
  rfl

/-- The estimate relative to any accepted position less than half a cycle away is right,
whichever of the two came first. -/
theorem Received.estimateRoc_eq (h : ctx.Received ssrc J S) (hIJ : I < J + 2 ^ 15) (hJI : J < I + 2 ^ 15) :
    ctx.estimateRoc ssrc (seqAt I) = rocAt I := by
  have he := SerialIndex.estimate_eq (H := 32768) hIJ hJI
  simp only [SerialIndex.estimate,show 2 * 32768 = 65536 from rfl] at he
  simp only [estimateRoc,h.lastSeq,h.roc,Option.getD_some,seqAt_toNat]
  split at he
  · next hd =>
    rw [if_pos (by simpa using hd)]
    exact (rocAt_of_cycle_succ (by omega)).symm
  · next hd =>
    rw [if_neg (by simpa using hd)]
    split at he
    · next hu =>
      rw [if_pos (by simpa using hu),rocAt_of_cycle_succ (show J / 65536 = I / 65536 + 1 by omega)]
      exact UInt32.add_sub_cancel _ _
    · next hu =>
      rw [if_neg (by simpa using hu)]
      exact rocAt_of_cycle_eq (by omega)

theorem Untouched.estimateRoc_eq (h : ctx.Untouched ssrc) (seq : UInt16) : ctx.estimateRoc ssrc seq = 0 := by
  simp only [estimateRoc,h.lastSeq]
theorem Untouched.tracks (h : ctx.Untouched ssrc) : Tracks (ctx.replayWindow ssrc).view ∅ := by
  rw [h.window,ReplayWindow.view_new]
  exact tracks_empty

theorem received_accept (hwin : Tracks (ctx.replayWindow ssrc).view S) (hI : I < 2 ^ 48) :
    ((ctx.touch ssrc).accept ssrc (rocAt I) (seqAt I)).Received ssrc I (insert I S) where
  lastSeq := by simp [accept,remember]
  roc := by simp [accept,remember]
  window := by
    rw [accept_replayWindow,if_pos rfl,ReplayWindow.view_record,packetIndex_toNat_of_lt hI,
      touch_replayWindow]
    exact hwin.push I

theorem isReplay_iff_of_tracks (hwin : Tracks (ctx.replayWindow ssrc).view S) (hI : I < 2 ^ 48) :
    (ctx.replayWindow ssrc).isReplay (packetIndex (rocAt I) (seqAt I)) = true ↔
      I ∈ S ∨ ∃ m ∈ S, (∀ k ∈ S, k ≤ m) ∧ I + 64 ≤ m := by
  rw [ReplayWindow.isReplay_eq_seen,packetIndex_toNat_of_lt hI]
  exact hwin.seen_iff (by decide) I

theorem isReplay_eq_false (hwin : Tracks (ctx.replayWindow ssrc).view S) (hI : I < 2 ^ 48) (hfresh : I ∉ S)
    (hclose : ∀ m ∈ S, m < I + 64) : (ctx.replayWindow ssrc).isReplay (packetIndex (rocAt I) (seqAt I)) = false := by
  apply Bool.eq_false_iff.mpr
  intro hr
  rcases (isReplay_iff_of_tracks hwin hI).mp hr with hmem | ⟨m,hm,_,hfar⟩
  · exact hfresh hmem
  · have := hclose m hm
    omega

/-- Beyond the 48-bit range the index restarts at zero and is taken for an old one. -/
theorem isReplay_of_wrapped
    (hwin : Tracks (ctx.replayWindow ssrc).view S) (hJS : J ∈ S) (hJ : J < 2 ^ 48) (hI : 2 ^ 48 ≤ I)
    (hIJ : I < J + 2 ^ 15) : (ctx.replayWindow ssrc).isReplay (packetIndex (rocAt I) (seqAt I)) = true := by
  rw [ReplayWindow.isReplay_eq_seen,packetIndex_toNat_of_wrapped hI (by omega),hwin.seen_iff (by decide)]
  have htop := hwin.le_top J hJS
  exact Or.inr ⟨_,hwin.top_mem ⟨J,hJS⟩,hwin.le_top,by omega⟩
end SrtpContext
end RustyRtc.Srtp
