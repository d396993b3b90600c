import RustyRtc.Rtp.Decoding
import RustyRtc.Srtp.Context

/-! # The bytes that are encrypted

SRTP measures the header of a packet with `get_rtp_header_len`, the RTP layer reads it with `RtpPacket::decode`. The two
are written separately and fail in different orders. On packets that are read they stop at the same index, so what is
encrypted is the payload with its padding.
-/
namespace RustyRtc.Srtp
open Rtp Rtp.RtpPacket
variable {n : ℕ}
theorem getRtpHeaderLen_of_payloadAt {buf : Bytes} {p : RtpPacket} (hlen : 12 ≤ buf.length)
    (h : PayloadAt buf p n) : getRtpHeaderLen buf = .ok n := by
  obtain ⟨idx,hcsrcs,hext,hn,-⟩ := h
  have hflag : ∀ b : UInt8, (b &&& 0x10 != 0) = ((b >>> 4) &&& 1 != 0) := forall_byte (by decide +kernel)
  obtain rfl := idx_of_csrcsIndexed hcsrcs
  have hidx := idx_of_extensionIndexed hext
  simp only [getRtpHeaderLen,if_neg (Nat.not_lt.mpr hlen),hflag]
  split at hidx
  · next hx =>
    rw [if_pos hx,if_neg (Nat.not_lt.mpr hidx.1)]
    exact checkHeaderLen_eq_ok.mpr ⟨by omega,by omega⟩
  · next hx =>
    rw [if_neg hx]
    exact checkHeaderLen_eq_ok.mpr ⟨hidx,by omega⟩

theorem protect_eq {packet : Bytes} (h : getRtpHeaderLen packet = .ok n) (P : Primitives) (ctx : SrtpContext)
    (ssrc : UInt32) : ∃ roc,
      let content := cryptPayload P ctx.sessionKeys ssrc (packetIndex roc (readU16 packet 2)) n packet
      (ctx.protect P ssrc packet).2 = .ok (content ++ authTag P ctx.sessionKeys content roc) := by
  obtain ⟨hmin,hmax⟩ := getRtpHeaderLen_bounds h
  have hkeys : (ctx.getOrCreateRoc ssrc (readU16 packet 2)).1.sessionKeys = ctx.sessionKeys := by
    rw [SrtpContext.getOrCreateRoc_fst,SrtpContext.remember_sessionKeys]
  refine ⟨(ctx.getOrCreateRoc ssrc (readU16 packet 2)).2,?_⟩
  simp only [SrtpContext.protect,if_neg (show ¬ packet.length < 12 by omega),h,hkeys]

/-- A packet that is read has the header length at which its payload region begins, and in a protected packet that
region, payload and padding, is XORed with the keystream. A header that cannot be measured is not read either. -/
theorem headerLen_agrees (buf : Bytes) :
    (∀ p, decode buf = .ok p → ∃ n filler, getRtpHeaderLen buf = .ok n ∧ PayloadAt buf p n ∧
      filler.length = p.paddingBytes.toNat - 1 ∧ buf.drop n = p.payload ++ filler ++ paddingCount p.paddingBytes ∧
      ∀ (P : Primitives) (ctx : SrtpContext) (ssrc : UInt32), ∃ roc,
        let content := buf.take n ++ applyKeystream (P.keystream ctx.sessionKeys.encKey
          (computeIv ctx.sessionKeys.salt ssrc (packetIndex roc (readU16 buf 2))))
          (p.payload ++ filler ++ paddingCount p.paddingBytes)
        (ctx.protect P ssrc buf).2 = .ok (content ++ authTag P ctx.sessionKeys content roc)) ∧
    (∀ e, (buf.getD 0 0 >>> 6) &&& 0b11 = rtpVersion → getRtpHeaderLen buf = .error e →
      ∃ e', decode buf = .error e') := by
  constructor
  · intro p h
    obtain ⟨hlen,n,hat⟩ := payloadAt_of_decode h
    obtain ⟨filler,hfiller,hregion⟩ := hat.region
    have hheader := getRtpHeaderLen_of_payloadAt hlen hat
    refine ⟨n,filler,hheader,hat,hfiller,hregion,fun P ctx ssrc => ?_⟩
    rw [← hregion]
    exact protect_eq hheader P ctx ssrc
  · intro e _ he
    cases h : decode buf with
    | error e' => exact ⟨e',rfl⟩
    | ok p =>
      obtain ⟨hlen,n,hat⟩ := payloadAt_of_decode h
      rw [getRtpHeaderLen_of_payloadAt hlen hat] at he
      cases he

/-- One CSRC, one extension word and two bytes of padding. -/
def fullHeader : Bytes :=
  [0xB1,0x60,0,1,0,0,0,2,0,0,0,3] ++ [0,0,0,4] ++ [0xBE,0xDE,0,1,9,9,9,9] ++ [7,8,5,2]

theorem fullHeader_agrees :
    (∃ p, decode fullHeader = .ok p ∧ p.payload = [7,8] ∧ PayloadAt fullHeader p 24) ∧
    getRtpHeaderLen (fullHeader.take 23) = .error "Packet smaller than header calc" ∧
      ∃ e, decode (fullHeader.take 23) = .error e := by
  have hlen : getRtpHeaderLen fullHeader = .ok 24 := by decide +kernel
  have hshort : getRtpHeaderLen (fullHeader.take 23) = .error "Packet smaller than header calc" := by decide +kernel
  refine ⟨?_,hshort,(headerLen_agrees (fullHeader.take 23)).2 _ (by decide) hshort⟩
  obtain ⟨p,hp,hpayload⟩ : ∃ p, decode fullHeader = .ok p ∧ p.payload = [7,8] := ⟨_,rfl,rfl⟩
  obtain ⟨n,-,hn,hat,-⟩ := (headerLen_agrees fullHeader).1 p hp
  obtain rfl := Except.ok.inj (hlen.symm.trans hn)
  exact ⟨p,hp,hpayload,hat⟩
end RustyRtc.Srtp
