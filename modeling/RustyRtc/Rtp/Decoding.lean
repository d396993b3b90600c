import RustyRtc.Foundation.Slices
import RustyRtc.Rtp.WireFormat

/-! # Decoding without loss

The decoder once more with its index and its slice accesses, as `rtp_packet.rs` has them. It
agrees with the list model, so no access is out of range. What it returns is written back to
the same bytes; only the filler in front of the padding count is not kept.
-/
namespace RustyRtc.Rtp
namespace RtpPacket
open Reader Checked
variable {buf b left : Bytes} {p : RtpPacket} {cc idx idx' : ℕ} {csrcs : List UInt32} {extension : Bool}
variable {ext : Option RtpHeaderExtension}
def csrcsIndexed (buf : Bytes) (cc idx : ℕ) : Checked RtpError (List UInt32 × ℕ) :=
  if buf.length < idx + cc * 4 then throw (.csrcCountMismatch cc (buf.length - idx))
  else forTimes (fun idx => do return (← u32At buf idx .invalid,idx + 4)) cc idx

def extensionIndexed (buf : Bytes) (extension : Bool) (idx : ℕ) : Checked RtpError (Option RtpHeaderExtension × ℕ) :=
  if extension then
    if buf.length < idx + 4 then throw .headerExtensionTooShort
    else do
      let profile ← u16At buf idx .invalid
      let lengthWords ← u16At buf (idx + 2) .invalid
      let idx := idx + 4
      let extLen := lengthWords.toNat * 4
      if buf.length < idx + extLen then throw .headerExtensionTooShort
      else
        let data ← slice buf idx (idx + extLen)
        return (some ⟨profile,data⟩,idx + extLen)
  else return (none,idx)

def paddingIndexed (buf : Bytes) (padding : Bool) (idx : ℕ) : Checked RtpError (ℕ × UInt8) :=
  let payloadEnd := buf.length
  if padding then
    if payloadEnd = idx then throw .paddingTooShort
    else do
      let pad ← index buf (← sub payloadEnd 1)
      if pad = 0 then throw .paddingTooShort
      else if pad.toNat > (← sub payloadEnd idx) then throw .paddingTooShort
      else return (← sub payloadEnd pad.toNat,pad)
  else return (payloadEnd,0)

def payloadIndexed (buf : Bytes) (padding : Bool) (idx : ℕ) : Checked RtpError (Bytes × UInt8) := do
  let (payloadEnd,paddingBytes) ← paddingIndexed buf padding idx
  if payloadEnd ≥ idx then
    let payload ← slice buf idx payloadEnd
    return (payload,paddingBytes)
  else throw .invalid

def decodeIndexed (buf : Bytes) : Checked RtpError RtpPacket :=
  if buf.length < 12 then throw .tooShort
  else do
    let vpxcc ← index buf 0
    let mPt ← index buf 1
    let version := (vpxcc >>> 6) &&& 0b11
    if version ≠ rtpVersion then throw (.badVersion version)
    else
      let padding := ((vpxcc >>> 5) &&& 1) != 0
      let extension := ((vpxcc >>> 4) &&& 1) != 0
      let cc := (vpxcc &&& 0x0F).toNat
      let marker := (mPt >>> 7) != 0
      let payloadType := mPt &&& 0x7F
      let sequenceNumber ← u16At buf 2 .invalid
      let timestamp ← u32At buf 4 .invalid
      let ssrc ← u32At buf 8 .invalid
      let (csrcs,idx) ← csrcsIndexed buf cc 12
      let (headerExtension,idx) ← extensionIndexed buf extension idx
      if buf.length < idx then throw .tooShort
      else
        let (payload,paddingBytes) ← payloadIndexed buf padding idx
        return {
          header := {
            version, padding, extension, marker, payloadType, sequenceNumber, timestamp, ssrc, csrcs,
            headerExtension }
          payload, paddingBytes }

section Indexed
variable {buf : Bytes} {idx : ℕ}
theorem csrcsIndexed_agree (cc : ℕ) (hidx : idx ≤ buf.length) :
    Agree buf (csrcsIndexed buf cc idx) ((decodeCsrcs cc).run (buf.drop idx)) := by
  change Agree buf _ (if (buf.drop idx).length < cc * 4 then _ else _)
  rw [csrcsIndexed,List.length_drop]
  refine .guard (by omega) _ fun h => ?_
  exact forTimes_fixed (fun idx h => by rw [u32At_eq h,pure_bind]) (fun idx h => run_u32 h) cc (by omega)

theorem extensionIndexed_agree (extension : Bool) (hidx : idx ≤ buf.length) :
    Agree buf (extensionIndexed buf extension idx) ((decodeExtension extension).run (buf.drop idx)) := by
  cases extension with
  | false => exact .ok none hidx
  | true =>
    rw [extensionIndexed,if_pos rfl,decodeExtension,if_pos rfl]
    change Agree buf _ (if (buf.drop idx).length < 4 then _ else StateT.run _ (buf.drop idx))
    rw [List.length_drop]
    refine .guard (by omega) _ fun h => ?_
    have hlen : idx + 4 ≤ buf.length := by omega
    rw [u16At_eq (by omega),pure_bind,u16At_eq (by omega),pure_bind,run_bind_of_ok (run_u16 (by omega)),
      run_bind_of_ok (run_u16 (by omega))]
    dsimp only
    generalize (readU16 buf (idx + 2)).toNat * 4 = extLen
    by_cases hext : buf.length < idx + 4 + extLen
    · have hshort : (Codec.take RtpError.headerExtensionTooShort extLen).run (buf.drop (idx + 2 + 2)) =
          .error .headerExtensionTooShort := if_pos (by rw [List.length_drop]; omega)
      rw [if_pos hext,StateT.run_bind,hshort]
      exact .error _
    · rw [if_neg hext,slice_eq (by omega) (by omega),pure_bind,
        run_bind_of_ok (run_take _ (by rw [List.length_drop]; omega)),List.drop_drop,List.drop_take,
        Nat.add_sub_cancel_left]
      exact .ok _ (by omega)

theorem payloadIndexed_eq (padding : Bool) (hidx : idx ≤ buf.length) :
    payloadIndexed buf padding idx = some (decodePayload padding (buf.drop idx)) := by
  cases padding with
  | false =>
    rw [payloadIndexed,paddingIndexed,if_neg (by decide),pure_bind]
    dsimp only
    rw [if_pos hidx,slice_eq hidx (Nat.le_refl _),pure_bind,List.take_length]
    rfl
  | true =>
    rw [payloadIndexed,paddingIndexed,if_pos rfl,decodePayload,if_pos rfl]
    by_cases hend : buf.length = idx
    · rw [if_pos hend,if_pos (by simp; omega)]
      rfl
    · have hlast : (buf.drop idx).getLastD 0 = buf.getD (buf.length - 1) 0 := by
        rw [List.getLastD_eq_getLast?,List.getLast?_drop,if_neg (by omega),List.getLast?_eq_getElem?,
          List.getD_eq_getElem?_getD]
      rw [if_neg hend,if_neg (by simp; omega),sub_eq (by omega),pure_bind,index_eq (by omega),pure_bind,
        hlast,List.length_drop]
      generalize buf.getD (buf.length - 1) 0 = pad
      by_cases hzero : pad = 0
      · rw [if_pos hzero,if_pos hzero]
        rfl
      · rw [if_neg hzero,if_neg hzero,sub_eq hidx,pure_bind]
        by_cases hpad : pad.toNat > buf.length - idx
        · rw [if_pos hpad,if_pos hpad]
          rfl
        · rw [if_neg hpad,if_neg hpad,sub_eq (by omega),pure_bind,pure_bind]
          dsimp only
          rw [if_pos (by omega),slice_eq (by omega) (by omega),pure_bind,List.drop_take,
            Nat.sub_right_comm]
          rfl

/-- The indexed decoder has a result for every byte string, the one of the list model. -/
theorem decodeIndexed_eq (buf : Bytes) : decodeIndexed buf = some (decode buf) := by
  rw [decodeIndexed,decode]
  by_cases hlen : buf.length < 12
  · rw [if_pos hlen,if_pos hlen]
    rfl
  · rw [if_neg hlen,if_neg hlen,index_eq (by omega),pure_bind,index_eq (by omega),pure_bind]
    dsimp only
    by_cases hversion : (buf.getD 0 0 >>> 6) &&& 0b11 ≠ rtpVersion
    · rw [if_pos hversion,if_pos hversion]
      rfl
    · rw [if_neg hversion,if_neg hversion,u16At_eq (by omega),pure_bind,u32At_eq (by omega),pure_bind,
        u32At_eq (by omega),pure_bind]
      refine (csrcsIndexed_agree _ (by omega)).finish fun csrcs idx hidx _ => ?_
      refine (extensionIndexed_agree _ hidx).finish fun ext idx hidx _ => ?_
      dsimp only
      rw [if_neg (by omega),payloadIndexed_eq _ hidx]
      cases decodePayload _ (buf.drop idx) <;> rfl
end Indexed

/-- `decode`, reading `buf` to `p`, comes to the payload region at the index `n`. -/
def PayloadAt (buf : Bytes) (p : RtpPacket) (n : ℕ) : Prop :=
  ∃ idx, csrcsIndexed buf (buf.getD 0 0 &&& 0x0F).toNat 12 = pure (p.header.csrcs,idx) ∧
    extensionIndexed buf (((buf.getD 0 0 >>> 4) &&& 1) != 0) idx = pure (p.header.headerExtension,n) ∧
    n ≤ buf.length ∧ payloadIndexed buf p.header.padding n = pure (p.payload,p.paddingBytes)

theorem payloadAt_of_decode (h : decode buf = .ok p) : 12 ≤ buf.length ∧ ∃ n, PayloadAt buf p n := by
  have hindexed : decodeIndexed buf = pure p := by
    rw [decodeIndexed_eq,h]
    rfl
  rw [decodeIndexed] at hindexed
  split at hindexed
  · cases hindexed
  · next hlen =>
    rw [index_eq (by omega),pure_bind] at hindexed
    obtain ⟨mPt,-,hindexed⟩ := bind_eq_pure.mp hindexed
    dsimp only at hindexed
    split at hindexed
    · cases hindexed
    · obtain ⟨seq,-,hindexed⟩ := bind_eq_pure.mp hindexed
      obtain ⟨ts,-,hindexed⟩ := bind_eq_pure.mp hindexed
      obtain ⟨ssrc,-,hindexed⟩ := bind_eq_pure.mp hindexed
      obtain ⟨⟨csrcs,idx⟩,hcsrcs,hindexed⟩ := bind_eq_pure.mp hindexed
      obtain ⟨⟨ext,n⟩,hext,hindexed⟩ := bind_eq_pure.mp hindexed
      split at hindexed
      · cases hindexed
      · next hn =>
        obtain ⟨⟨payload,pad⟩,hpayload,hret⟩ := bind_eq_pure.mp hindexed
        cases hret
        exact ⟨Nat.not_lt.mp hlen,n,idx,hcsrcs,hext,Nat.not_lt.mp hn,hpayload⟩

theorem idx_of_csrcsIndexed (h : csrcsIndexed buf cc idx = pure (csrcs,idx')) : idx' = idx + cc * 4 := by
  rw [csrcsIndexed] at h
  split at h
  · cases h
  · refine idx_of_forTimes (fun idx x idx' hbody => ?_) h
    obtain ⟨y,-,hret⟩ := bind_eq_pure.mp hbody
    cases hret
    rfl

theorem idx_of_extensionIndexed (h : extensionIndexed buf extension idx = pure (ext,idx')) :
    if extension then idx + 4 ≤ buf.length ∧ idx' = idx + 4 + (readU16 buf (idx + 2)).toNat * 4 else idx' = idx := by
  rw [extensionIndexed] at h
  cases extension with
  | false =>
    cases h
    rfl
  | true =>
    rw [if_pos rfl] at h ⊢
    split at h
    · cases h
    · next hlen =>
      obtain ⟨profile,-,h⟩ := bind_eq_pure.mp h
      rw [u16At_eq (by omega),pure_bind] at h
      dsimp only at h
      split at h
      · cases h
      · obtain ⟨data,-,hret⟩ := bind_eq_pure.mp h
        cases hret
        exact ⟨Nat.not_lt.mp hlen,rfl⟩

theorem vpxcc_eq (b : UInt8) (hversion : (b >>> 6) &&& 0b11 = rtpVersion) :
    (rtpVersion &&& 0b11) <<< 6 ||| ((((b >>> 5) &&& 1) != 0).toUInt8 <<< 5) |||
      ((((b >>> 4) &&& 1) != 0).toUInt8 <<< 4) ||| UInt8.ofNat ((b &&& 0x0F).toNat &&& 0x0F) = b := by
  revert hversion
  revert b
  exact forall_byte (by decide +kernel)
theorem mPt_eq (b : UInt8) : ((b >>> 7) != 0).toUInt8 <<< 7 ||| ((b &&& 0x7F) &&& 0x7F) = b := by
  revert b
  exact forall_byte (by decide +kernel)

theorem fixed_eq (hlen : 12 ≤ buf.length) : buf = buf.getD 0 0 :: buf.getD 1 0 ::
      (beBytes16 (readU16 buf 2) ++ beBytes32 (readU32 buf 4) ++ beBytes32 (readU32 buf 8)) ++ buf.drop 12 := by
  have h₂ := drop_eq_beBytes16 (b := buf) (i := 2) (by omega)
  have h₄ := drop_eq_beBytes32 (b := buf) (i := 4) (by omega)
  have h₈ := drop_eq_beBytes32 (b := buf) (i := 8) (by omega)
  have hhead : buf = buf.getD 0 0 :: buf.getD 1 0 :: buf.drop 2 := by
    match buf, hlen with
    | x :: y :: rest, _ => rfl
  rw [h₄,h₈] at h₂
  rw [h₂] at hhead
  simpa using hhead

theorem csrcs_of_run (h : (decodeCsrcs cc).run b = .ok (csrcs,left)) : b = csrcs.flatMap beBytes32 ++ left := by
  change (if b.length < cc * 4 then _ else (readMany u32 cc).run b) = _ at h
  split at h
  · cases h
  · obtain ⟨-,-,c,hc,rfl⟩ := (Codec.u32 RtpError.invalid).run_getMany_eq_ok.mp h
    have hput : (Codec.u32 RtpError.invalid).putAll csrcs = .ok (csrcs.flatMap beBytes32) := writeAll_ok _ csrcs
    rw [hput] at hc
    rw [Except.ok.inj hc]

theorem extension_of_run (h : (decodeExtension extension).run b = .ok (ext,left)) :
    ext.isSome = extension ∧ ∃ c, encodeExtension ext = .ok c ∧ b = c ++ left := by
  cases extension with
  | false =>
    obtain ⟨rfl,rfl⟩ := run_pure_eq_ok.mp h
    exact ⟨rfl,[],rfl,rfl⟩
  | true =>
    obtain ⟨profile,b₁,hprofile,h⟩ := run_bind_eq_ok.mp (run_of_atLeast h)
    obtain ⟨words,b₂,hwords,h⟩ := run_bind_eq_ok.mp h
    obtain ⟨data,b₃,hdata,h⟩ := run_bind_eq_ok.mp h
    obtain ⟨rfl,rfl⟩ := run_pure_eq_ok.mp h
    obtain ⟨-,c₁,hc₁,rfl⟩ := (Codec.u16 RtpError.invalid).law.mp hprofile
    obtain ⟨-,c₂,hc₂,rfl⟩ := (Codec.u16 RtpError.invalid).law.mp hwords
    obtain ⟨hlen,rfl⟩ := (Codec.run_take_eq_ok _).mp hdata
    cases hc₁
    cases hc₂
    -- the length is a multiple of four, so nothing is added and the count comes back
    have hcount : UInt32.ofNat ((data.length + 3) / 4) = words.toUInt32 := by
      apply UInt32.toNat_inj.mp
      have := words.toNat_lt
      simp
      omega
    refine ⟨rfl,beBytes16 profile ++ (beBytes16 words ++ data),encodeExtension_eq_ok.mpr ⟨?_,?_⟩,by simp⟩
    · change UInt32.ofNat ((data.length + 3) / 4) ≤ 65535
      have := words.toNat_lt
      rw [hcount,UInt32.le_iff_toNat_le,UInt16.toNat_toUInt32]
      change _ ≤ 65535
      omega
    · have haligned : (RtpHeaderExtension.mk profile data).aligned.data = data := by
        simp [RtpHeaderExtension.aligned,hlen]
      change _ = _ ++ (beBytes16 (UInt32.ofNat ((data.length + 3) / 4)).toUInt16 ++ _)
      rw [hcount,haligned,UInt16.toUInt16_toUInt32]

def paddingCount (pad : UInt8) : Bytes := if pad > 0 then [pad] else []

/-- The same bytes up to filler: all octets of padding but the last may be zeros instead. -/
def SameUpToFiller (pad : UInt8) (b out : Bytes) : Prop :=
  ∃ front filler : Bytes, filler.length = pad.toNat - 1 ∧ b = front ++ filler ++ paddingCount pad ∧
    out = front ++ List.replicate filler.length 0 ++ paddingCount pad

theorem payload_of_run {padding : Bool} {payload : Bytes} {pad : UInt8}
    (h : decodePayload padding b = .ok (payload,pad)) : decide (pad > 0) = padding ∧
      ∃ filler : Bytes, filler.length = pad.toNat - 1 ∧ b = payload ++ filler ++ paddingCount pad := by
  cases padding with
  | false =>
    cases h
    exact ⟨rfl,[],rfl,by simp [paddingCount]⟩
  | true =>
    rw [decodePayload,if_pos rfl] at h
    split at h
    · cases h
    · next hne =>
      dsimp only at h
      split at h
      · cases h
      · next hzero =>
        split at h
        · cases h
        · next hpad =>
          cases h
          obtain ⟨front,last,rfl⟩ := (List.eq_nil_or_concat' b).resolve_left (by simpa using hne)
          have hlast : (front ++ [last]).getLastD 0 = last := by simp
          rw [hlast] at hzero hpad ⊢
          have hpos : last > 0 := UInt8.pos_iff_ne_zero.mpr hzero
          have hpos' : 0 < last.toNat := hpos
          rw [List.length_append,List.length_singleton] at hpad ⊢
          refine ⟨decide_eq_true hpos,front.drop (front.length + 1 - last.toNat),?_,?_⟩
          · rw [List.length_drop]
            omega
          · rw [List.take_append_of_le_length (by omega),List.take_append_drop,paddingCount,if_pos hpos]

theorem PayloadAt.region {n : ℕ} (h : PayloadAt buf p n) : ∃ filler : Bytes, filler.length = p.paddingBytes.toNat - 1 ∧
      buf.drop n = p.payload ++ filler ++ paddingCount p.paddingBytes := by
  obtain ⟨idx,-,-,hn,hpayload⟩ := h
  rw [payloadIndexed_eq _ hn] at hpayload
  exact (payload_of_run (Option.some.inj hpayload)).2

theorem encodePadding_eq (pad : UInt8) : encodePadding pad = List.replicate (pad.toNat - 1) 0 ++ paddingCount pad := by
  unfold encodePadding paddingCount
  split
  · rfl
  · next hzero =>
    have hpad : ¬ 0 < pad.toNat := hzero
    rw [show pad.toNat - 1 = 0 by omega]
    rfl

/-- Every access of the decoder is within the slice, and a packet that was read is written back
to the bytes it was read from, up to filler. -/
theorem decode_lossless (b : Bytes) : decodeIndexed b = some (decode b) ∧
    ∀ p, decode b = .ok p → ∃ out, p.encode = .ok out ∧ SameUpToFiller p.paddingBytes b out := by
  refine ⟨decodeIndexed_eq b,fun p h => ?_⟩
  obtain ⟨hlen,hversion,csrcs,b₁,ext,b₂,payload,pad,hcsrcs,hext,hpayload,rfl⟩ := decode_eq_ok.mp h
  have hcount := length_of_decodeCsrcs hcsrcs
  obtain ⟨hx,c,hc,rfl⟩ := extension_of_run hext
  obtain ⟨hp,filler,hfiller,rfl⟩ := payload_of_run hpayload
  have hdrop := csrcs_of_run hcsrcs
  have hbuf := fixed_eq hlen
  rw [hdrop] at hbuf
  refine ⟨_,encode_eq_ok.mpr ⟨c,hc,rfl⟩,?_⟩
  simp only [encodeFixed, hx, hp, hcount, hversion, vpxcc_eq _ hversion, mPt_eq, encodePadding_eq]
  refine ⟨b.getD 0 0 :: b.getD 1 0 ::
      (beBytes16 (readU16 b 2) ++ beBytes32 (readU32 b 4) ++ beBytes32 (readU32 b 8)) ++
        (csrcs.flatMap beBytes32 ++ (c ++ payload)),filler,hfiller,?_,?_⟩
  · refine hbuf.trans ?_
    simp [List.append_assoc]
  · rw [hfiller]
    simp [List.append_assoc]
end RtpPacket
end RustyRtc.Rtp
