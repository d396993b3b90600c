import Mathlib.Algebra.BigOperators.Group.List.Basic
import RustyRtc.Rtp.Packet

/-! # What the RTP decoder takes back

The encoder masks the CSRC count and the payload type and counts the extension in 32-bit words. The
decoder returns only packets that survive this, so a written packet comes back exactly if it is one.
-/
namespace RustyRtc.Rtp
open Reader

def RtpHeaderExtension.aligned (ext : RtpHeaderExtension) : RtpHeaderExtension :=
  { ext with data := ext.data ++ List.replicate ((4 - ext.data.length % 4) % 4) 0 }

namespace RtpPacket
variable {ext : RtpHeaderExtension} {c bytes buf b left : Bytes} {p : RtpPacket}
def aligned (p : RtpPacket) : RtpPacket :=
  { p with header := { p.header with headerExtension := p.header.headerExtension.map (·.aligned) } }

/-- Version 2, and the flags say what the packet has. -/
structure Consistent (p : RtpPacket) : Prop where
  version : p.header.version = rtpVersion
  padding : p.header.padding = decide (p.paddingBytes > 0)
  extension : p.header.extension = p.header.headerExtension.isSome

/-- Each masked or counted field has room for its value. -/
structure Fits (p : RtpPacket) : Prop where
  csrcs : p.header.csrcs.length ≤ 15
  payloadType : p.header.payloadType < 128
  extension : ∀ ext, p.header.headerExtension = some ext → ext.data.length ≤ 262140
theorem flags_vpxcc (pad ext : Bool) (cc : Fin 16) :
    let vpxcc := (rtpVersion &&& 0b11) <<< 6 ||| (pad.toUInt8 <<< 5) ||| (ext.toUInt8 <<< 4) ||| UInt8.ofNat cc
    (vpxcc >>> 6) &&& 0b11 = rtpVersion ∧ (((vpxcc >>> 5) &&& 1) != 0) = pad ∧
      (((vpxcc >>> 4) &&& 1) != 0) = ext ∧ (vpxcc &&& 0x0F).toNat = cc := by
  decide +revert

theorem marker_mPt (marker : Bool) {pt : UInt8} (hpt : pt < 128) :
    (((marker.toUInt8 <<< 7 ||| pt &&& 0x7F) >>> 7) != 0) = marker ∧
      (marker.toUInt8 <<< 7 ||| pt &&& 0x7F) &&& 0x7F = pt := by
  have h : ∀ m : Bool, ∀ b : BitVec 8, (⟨b⟩ : UInt8) < 128 →
      (((m.toUInt8 <<< 7 ||| (⟨b⟩ : UInt8) &&& 0x7F) >>> 7) != 0) = m ∧
        (m.toUInt8 <<< 7 ||| (⟨b⟩ : UInt8) &&& 0x7F) &&& 0x7F = ⟨b⟩ := by decide +kernel
  exact h marker pt.toBitVec hpt

theorem masked_lt (b : UInt8) : b &&& 0x7F < 128 ∧ (b &&& 0x0F).toNat ≤ 15 :=
  forall_byte (p := fun b => b &&& 0x7F < 128 ∧ (b &&& 0x0F).toNat ≤ 15) (by decide +kernel) b
theorem length_csrcs (csrcs : List UInt32) : (csrcs.flatMap beBytes32).length = csrcs.length * 4 := by
  simp [List.length_flatMap]

theorem reads_csrcs (csrcs : List UInt32) : Reads (decodeCsrcs csrcs.length) (csrcs.flatMap beBytes32) csrcs := by
  intro tail
  have hmany : Reads (readMany u32 csrcs.length) (csrcs.flatMap beBytes32) csrcs :=
    Reads.readMany fun x _ => reads_u32 x
  have hlen := length_csrcs csrcs
  change (if _ < csrcs.length * 4 then _ else _) = _
  rw [if_neg (by rw [List.length_append]; omega),hmany tail]

theorem reads_take (short : RtpError) (data : Bytes) : Reads (Codec.take short data.length) data data := by
  intro tail
  exact (Codec.run_take_eq_ok short).mpr ⟨rfl,rfl⟩
theorem length_aligned (ext : RtpHeaderExtension) : ext.aligned.data.length = (ext.data.length + 3) / 4 * 4 := by
  rw [RtpHeaderExtension.aligned,List.length_append,List.length_replicate]
  omega

theorem encodeExtension_eq_ok : encodeExtension (some ext) = .ok c ↔ UInt32.ofNat ((ext.data.length + 3) / 4) ≤ 65535 ∧
      c = beBytes16 ext.profile ++ (beBytes16 (UInt32.ofNat ((ext.data.length + 3) / 4)).toUInt16 ++
        ext.aligned.data) := by
  simp only [encodeExtension,RtpHeaderExtension.aligned]
  split
  · next h => simpa using fun hle => absurd h (UInt32.not_lt.mpr hle)
  · next h => simp [UInt32.not_lt.mp h,eq_comm]

theorem reads_extension {ext : Option RtpHeaderExtension} (h : encodeExtension ext = .ok c)
    (hfits : ∀ e, ext = some e → e.data.length ≤ 262140) :
    Reads (decodeExtension ext.isSome) c (ext.map (·.aligned)) := by
  cases ext with
  | none =>
    cases h
    exact Reads.pure none
  | some ext =>
    obtain ⟨-,rfl⟩ := encodeExtension_eq_ok.mp h
    have hlen := hfits ext rfl
    have hwords : (UInt32.ofNat ((ext.data.length + 3) / 4)).toUInt16.toNat * 4 = ext.aligned.data.length := by
      rw [length_aligned]
      simp
      omega
    apply Reads.atLeast _ _ (by simp; omega)
    refine (reads_u16 _).bind ((reads_u16 _).bind ?_)
    rw [hwords]
    exact (reads_take _ ext.aligned.data).bind_pure fun data =>
      some (RtpHeaderExtension.mk ext.profile data)

theorem decodePayload_encode (payload : Bytes) (paddingBytes : UInt8) :
    decodePayload (decide (paddingBytes > 0)) (payload ++ encodePadding paddingBytes) = .ok (payload,paddingBytes) := by
  by_cases hpad : paddingBytes > 0
  · have hpos : 0 < paddingBytes.toNat := hpad
    have hne : paddingBytes ≠ 0 := by
      rintro rfl
      exact absurd hpos (by decide)
    have hlen : (payload ++ encodePadding paddingBytes).length = payload.length + paddingBytes.toNat := by
      rw [encodePadding,if_pos hpad]
      simp
      omega
    have hlast : (payload ++ encodePadding paddingBytes).getLastD 0 = paddingBytes := by
      rw [encodePadding,if_pos hpad,← List.append_assoc]
      simp
    have hempty : (payload ++ encodePadding paddingBytes).isEmpty = false := by
      rw [List.isEmpty_eq_false_iff,← List.length_pos_iff]
      omega
    rw [decodePayload,if_pos (decide_eq_true hpad),hempty,hlast,hlen]
    simp only [Bool.false_eq_true,if_false,if_neg hne]
    rw [if_neg (by omega),Nat.add_sub_cancel,List.take_left]
  · have hzero : paddingBytes = 0 := by
      apply UInt8.toNat_inj.mp
      have : ¬ 0 < paddingBytes.toNat := hpad
      change _ = 0
      omega
    subst hzero
    rw [encodePadding,if_neg hpad,List.append_nil]
    rfl

theorem read_fixed (vpxcc mPt : UInt8) (seq : UInt16) (ts ssrc : UInt32) (rest : Bytes) :
    let buf := vpxcc :: mPt :: (beBytes16 seq ++ beBytes32 ts ++ beBytes32 ssrc) ++ rest
    readU16 buf 2 = seq ∧ readU32 buf 4 = ts ∧ readU32 buf 8 = ssrc ∧ buf.drop 12 = rest := by
  have hseq := readU16_append_right [vpxcc,mPt] (beBytes16 seq ++ (beBytes32 ts ++ (beBytes32 ssrc ++ rest))) (i := 0)
  have hts := readU32_append_right (vpxcc :: mPt :: beBytes16 seq) (beBytes32 ts ++ (beBytes32 ssrc ++ rest)) (i := 0)
  have hssrc := readU32_append_right (vpxcc :: mPt :: (beBytes16 seq ++ beBytes32 ts)) (beBytes32 ssrc ++ rest)
    (i := 0)
  rw [readU16_beBytes16] at hseq
  rw [readU32_beBytes32] at hts hssrc
  refine ⟨?_,?_,?_,rfl⟩
  · simpa using hseq
  · simpa using hts
  · simpa using hssrc

theorem encode_eq_ok : p.encode = .ok bytes ↔ ∃ ext, encodeExtension p.header.headerExtension = .ok ext ∧
      bytes = p.encodeFixed ++ (p.header.csrcs.flatMap beBytes32 ++ (ext ++ (p.payload ++
        encodePadding p.paddingBytes))) := by
  simp only [encode]
  cases encodeExtension p.header.headerExtension <;> simp [eq_comm]

theorem decode_eq_ok : decode buf = .ok p ↔ 12 ≤ buf.length ∧ (buf.getD 0 0 >>> 6) &&& 0b11 = rtpVersion ∧
      ∃ csrcs b ext b' payload pad, (decodeCsrcs (buf.getD 0 0 &&& 0x0F).toNat).run (buf.drop 12) = .ok (csrcs,b) ∧
        (decodeExtension (((buf.getD 0 0 >>> 4) &&& 1) != 0)).run b = .ok (ext,b') ∧
        decodePayload (((buf.getD 0 0 >>> 5) &&& 1) != 0) b' = .ok (payload,pad) ∧
        p = ⟨⟨(buf.getD 0 0 >>> 6) &&& 0b11,((buf.getD 0 0 >>> 5) &&& 1) != 0,((buf.getD 0 0 >>> 4) &&& 1) != 0,
          (buf.getD 1 0 >>> 7) != 0,buf.getD 1 0 &&& 0x7F,readU16 buf 2,readU32 buf 4,readU32 buf 8,csrcs,ext⟩,
          payload,pad⟩ := by
  simp only [decode]
  split
  · next h => simp [Nat.not_le.mpr h]
  · next h =>
    split
    · next hv => exact iff_of_false nofun fun hp => hv hp.2.1
    · next hv =>
      simp only [bind_eq_ok,Prod.exists,pure,Except.pure,Except.ok.injEq]
      constructor
      · rintro ⟨csrcs,b,hcsrcs,ext,b',hext,payload,pad,hpayload,rfl⟩
        exact ⟨Nat.not_lt.mp h,not_ne_iff.mp hv,csrcs,b,ext,b',payload,pad,hcsrcs,hext,hpayload,rfl⟩
      · rintro ⟨-,-,csrcs,b,ext,b',payload,pad,hcsrcs,hext,hpayload,rfl⟩
        exact ⟨csrcs,b,hcsrcs,ext,b',hext,payload,pad,hpayload,rfl⟩

theorem decode_of_fits (hp : p.Consistent) (hfits : p.Fits)
    (h : p.encode = .ok bytes) : decode bytes = .ok p.aligned := by
  obtain ⟨ext,hext,rfl⟩ := encode_eq_ok.mp h
  have hmask : p.header.csrcs.length &&& 0x0F = p.header.csrcs.length := by
    rw [show (0x0F : ℕ) = 2 ^ 4 - 1 from rfl,Nat.and_two_pow_sub_one_eq_mod]
    exact Nat.mod_eq_of_lt (Nat.lt_succ_of_le hfits.csrcs)
  obtain ⟨hversion,hpad,hx,hcc⟩ := flags_vpxcc (decide (p.paddingBytes > 0)) p.header.headerExtension.isSome
    ⟨p.header.csrcs.length,Nat.lt_succ_of_le hfits.csrcs⟩
  obtain ⟨hmarker,hpt⟩ := marker_mPt p.header.marker hfits.payloadType
  rw [encodeFixed,hp.version,hmask]
  generalize (rtpVersion &&& 0b11) <<< 6 ||| _ ||| _ ||| _ = vpxcc at hversion hpad hx hcc ⊢
  generalize p.header.marker.toUInt8 <<< 7 ||| _ = mPt at hmarker hpt ⊢
  obtain ⟨hseq,hts,hssrc,hdrop⟩ := read_fixed vpxcc mPt p.header.sequenceNumber p.header.timestamp p.header.ssrc
    (p.header.csrcs.flatMap beBytes32 ++ (ext ++ (p.payload ++ encodePadding p.paddingBytes)))
  refine decode_eq_ok.mpr ⟨by simp; omega,hversion,p.header.csrcs,ext ++ (p.payload ++ encodePadding p.paddingBytes),
    p.header.headerExtension.map (·.aligned),p.payload ++ encodePadding p.paddingBytes,p.payload,p.paddingBytes,
    ?_,?_,?_,?_⟩
  · rw [hdrop]
    change (decodeCsrcs (vpxcc &&& 0x0F).toNat).run _ = _
    rw [hcc]
    exact reads_csrcs p.header.csrcs _
  · change (decodeExtension ((vpxcc >>> 4) &&& 1 != 0)).run _ = _
    rw [hx]
    exact reads_extension hext hfits.extension _
  · change decodePayload ((vpxcc >>> 5) &&& 1 != 0) _ = _
    rw [hpad]
    exact decodePayload_encode p.payload p.paddingBytes
  · rw [hseq,hts,hssrc]
    change p.aligned = ⟨⟨(vpxcc >>> 6) &&& 0b11,((vpxcc >>> 5) &&& 1) != 0,((vpxcc >>> 4) &&& 1) != 0,
      (mPt >>> 7) != 0,mPt &&& 0x7F,_,_,_,_,_⟩,_,_⟩
    rw [hversion,hpad,hx,hmarker,hpt,← hp.version,← hp.padding,← hp.extension]
    rfl

theorem length_of_decodeCsrcs {cc : ℕ} {csrcs : List UInt32}
    (h : (decodeCsrcs cc).run b = .ok (csrcs,left)) : csrcs.length = cc := by
  change (if b.length < cc * 4 then _ else (readMany u32 cc).run b) = _ at h
  split at h
  · cases h
  · exact ((Codec.u32 RtpError.invalid).run_getMany_eq_ok.mp h).1

theorem length_of_decodeExtension {extension : Bool}
    (h : (decodeExtension extension).run b = .ok (some ext,left)) : ext.data.length ≤ 262140 := by
  cases extension with
  | false => cases h
  | true =>
    obtain ⟨profile,b₁,-,h⟩ := run_bind_eq_ok.mp (run_of_atLeast h)
    obtain ⟨words,b₂,-,h⟩ := run_bind_eq_ok.mp h
    obtain ⟨data,b₃,hdata,h⟩ := run_bind_eq_ok.mp h
    obtain ⟨hext,-⟩ := run_pure_eq_ok.mp h
    cases hext
    have hlen := ((Codec.run_take_eq_ok _).mp hdata).1
    have hwords := words.toNat_lt
    change data.length ≤ _
    omega

theorem fits_of_decode (h : decode buf = .ok p) : p.Fits := by
  obtain ⟨-,-,csrcs,b,ext,b',payload,pad,hcsrcs,hext,-,rfl⟩ := decode_eq_ok.mp h
  constructor
  · change csrcs.length ≤ 15
    rw [length_of_decodeCsrcs hcsrcs]
    exact (masked_lt _).2
  · exact (masked_lt _).1
  · rintro e rfl
    exact length_of_decodeExtension hext

theorem fits_of_aligned (h : p.aligned.Fits) : p.Fits := by
  refine ⟨h.csrcs,h.payloadType,fun ext hext => ?_⟩
  have hlen := h.extension ext.aligned (by simp [aligned,hext])
  rw [length_aligned] at hlen
  omega

/-- A packet that the encoder writes comes back, with its extension aligned, exactly if its CSRC count,
its payload type and its extension fit their fields. -/
theorem decode_encode_iff_fits {p : RtpPacket} (hp : p.Consistent) {bytes : Bytes} (h : p.encode = .ok bytes) :
    decode bytes = .ok p.aligned ↔ p.Fits :=
  ⟨fun hdecode => fits_of_aligned (fits_of_decode hdecode),fun hfits => decode_of_fits hp hfits h⟩

def full : RtpPacket where
  header := {
    RtpHeader.new 96 65535 7 1 with
    padding := true
    extension := true
    marker := true
    csrcs := [5,0xFFFFFFFF]
    headerExtension := some ⟨0xBEDE,[1,2,3,4,5]⟩ }
  payload := [0xAA,0]
  paddingBytes := 2

theorem decode_encode_full : full.encode.isOk = true ∧ full.encode.bind decode = .ok full.aligned ∧
    full.aligned.header.headerExtension = some ⟨0xBEDE,[1,2,3,4,5,0,0,0]⟩ := by
  have hfits : full.Fits := ⟨by decide,by decide,by rintro ext ⟨⟩; decide⟩
  have hbytes : full.encode = .ok (full.encode.toOption.getD []) := rfl
  refine ⟨rfl,?_,rfl⟩
  rw [hbytes]
  exact (decode_encode_iff_fits ⟨rfl,rfl,rfl⟩ hbytes).mpr hfits

def crowded : RtpPacket where
  header := { RtpHeader.new 96 1 2 3 with csrcs := List.replicate 16 7 }
  payload := [1,2,3]
  paddingBytes := 0

/-- All sixteen CSRCs are written under a count of zero, so the receiver takes them for payload. -/
theorem csrcs_become_payload : crowded.Consistent ∧ crowded.encode.bind decode = .ok
      { crowded with
        header := { crowded.header with csrcs := [] }
        payload := crowded.header.csrcs.flatMap beBytes32 ++ crowded.payload } ∧
    crowded.encode.bind decode ≠ .ok crowded.aligned := by
  have hback : crowded.encode.bind decode = .ok
      { crowded with
        header := { crowded.header with csrcs := [] }
        payload := crowded.header.csrcs.flatMap beBytes32 ++ crowded.payload } := rfl
  refine ⟨⟨rfl,rfl,rfl⟩,hback,?_⟩
  rw [hback]
  decide
end RtpPacket
end RustyRtc.Rtp
