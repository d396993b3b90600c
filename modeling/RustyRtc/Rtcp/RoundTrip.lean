import Mathlib.Data.Nat.Bitwise
import RustyRtc.Rtcp.Packet

/-! # Compound packets come back as they were written

Fields first, then blocks, chunks and packets, each read off its own bytes whatever follows. The
compound packet is then the list law of the reader loop.
-/
namespace RustyRtc.Rtcp
open Reader RtcpPacket
variable {rc : UInt8} {c : Bytes} {repair : Bytes → String} {chunk : SdesChunk} {n : ℕ} {raw : UInt32}
variable {item : SdesItem} {e body : Bytes} {pt : UInt8}

theorem lostRaw_toNat (x y z : UInt8) : (x.toUInt32 <<< 16 ||| y.toUInt32 <<< 8 ||| z.toUInt32).toNat =
      x.toNat * 65536 + y.toNat * 256 + z.toNat := by
  have hx := x.toNat_lt
  have hy := y.toNat_lt
  have hz := z.toNat_lt
  have h16 : UInt32.toNat 16 % 32 = 16 := rfl
  have h8 : UInt32.toNat 8 % 32 = 8 := rfl
  have hyz := Nat.shiftLeft_add_eq_or_of_lt (i := 8) hz y.toNat
  have hxyz := Nat.shiftLeft_add_eq_or_of_lt (i := 16) (b := y.toNat * 2 ^ 8 + z.toNat) (by omega) x.toNat
  simp only [Nat.shiftLeft_eq] at hyz hxyz
  simp only [UInt32.toNat_or,UInt32.toNat_shiftLeft,UInt8.toNat_toUInt32,Nat.shiftLeft_eq,h16,h8]
  rw [Nat.mod_eq_of_lt (by omega),Nat.mod_eq_of_lt (by omega),Nat.or_assoc,← hyz,← hxyz]
  exact (Nat.add_assoc _ _ _).symm

theorem signBit_iff (h : raw.toNat < 16777216) : raw &&& 0x800000 ≠ 0 ↔ 8388608 ≤ raw.toNat := by
  have hbit : (raw &&& 0x800000).toNat = raw.toNat &&& 2 ^ 23 := UInt32.toNat_and _ _
  rw [ne_eq,← UInt32.toNat_inj,hbit,Nat.and_two_pow,Nat.testBit_eq_decide_div_mod_eq]
  by_cases hsign : 8388608 ≤ raw.toNat
  · have hone : raw.toNat / 8388608 % 2 = 1 := by omega
    simp [hone,hsign]
  · have hzero : raw.toNat / 8388608 % 2 = 0 := by omega
    simp [hzero,hsign]

theorem signExtend_toNat (h : raw.toNat < 16777216) : (raw ||| 0xFF000000).toNat = raw.toNat + 4278190080 := by
  have hor := Nat.shiftLeft_add_eq_or_of_lt (i := 24) h 255
  rw [UInt32.toNat_or,Nat.or_comm]
  change 255 <<< 24 ||| raw.toNat = _
  rw [← hor]
  omega

theorem lostOf_lostBytes {x : Int32} (hlo : -8388608 ≤ x.toInt) (hhi : x.toInt ≤ 8388607) :
    ∃ a b c, lostBytes x = [a,b,c] ∧ lostOf a b c = x := by
  have hclamp : ¬ x < -8388608 ∧ ¬ 8388607 < x := by
    simp only [Int32.lt_iff_toInt_lt]
    exact ⟨by simpa using hlo,by simpa using hhi⟩
  have hmask : (x.toUInt32 &&& 0x00FFFFFF).toNat = x.toUInt32.toNat % 16777216 := by
    rw [UInt32.toNat_and]
    exact Nat.and_two_pow_sub_one_eq_mod _ 24
  -- as a 32-bit word, `x` lies in the first or in the last 2^23 words
  have hcases : x.toUInt32.toNat < 8388608 ∨ 4286578688 ≤ x.toUInt32.toNat := by
    have hint : x.toInt = x.toBitVec.toInt := rfl
    rw [hint,BitVec.toInt_eq_toNat_cond] at hlo hhi
    change x.toBitVec.toNat < _ ∨ _ ≤ x.toBitVec.toNat
    split at hlo <;> simp_all <;> omega
  have hbound := x.toUInt32.toNat_lt
  refine ⟨_,_,_,by rw [lostBytes,if_neg hclamp.1,if_neg hclamp.2],?_⟩
  generalize x.toUInt32 &&& 0x00FFFFFF = raw at hmask
  have hraw : ((raw >>> 16 &&& 0xFF).toUInt8.toUInt32 <<< 16 ||| (raw >>> 8 &&& 0xFF).toUInt8.toUInt32 <<< 8 |||
      (raw &&& 0xFF).toUInt8.toUInt32) = raw := by
    apply UInt32.toNat_inj.mp
    rw [lostRaw_toNat]
    have hbyte : ∀ n, n &&& 255 = n % 256 := fun n => Nat.and_two_pow_sub_one_eq_mod n 8
    simp [Nat.shiftRight_eq_div_pow,hbyte]
    omega
  rw [lostOf,hraw]
  change _ = x.toUInt32.toInt32
  have hlt : raw.toNat < 16777216 := by omega
  split
  · next hsign =>
    have hneg := (signBit_iff hlt).mp hsign
    congr 1
    apply UInt32.toNat_inj.mp
    rw [signExtend_toNat hlt]
    omega
  · next hsign =>
    have hpos := mt (signBit_iff hlt).mpr hsign
    congr 1
    apply UInt32.toNat_inj.mp
    omega
@[simp] theorem ReportBlock.encodeInto_length (rb : ReportBlock) : rb.encodeInto.length = 24 := rfl
@[simp] theorem SenderInfo.encodeInto_length (i : SenderInfo) : i.encodeInto.length = 20 := rfl
theorem length_encodeBlocks (reports : List ReportBlock) :
    (reports.flatMap ReportBlock.encodeInto).length = 24 * reports.length := by
  simp [List.length_flatMap,Nat.mul_comm]
def ReportBlock.LossFits (rb : ReportBlock) : Prop :=
  -8388608 ≤ rb.cumulativeLost.toInt ∧ rb.cumulativeLost.toInt ≤ 8388607

theorem ReportBlock.reads {rb : ReportBlock} (h : rb.LossFits) : Reads decode rb.encodeInto rb := by
  obtain ⟨a,b,c,hbytes,hlost⟩ := lostOf_lostBytes h.1 h.2
  have hlayout : rb.encodeInto = beBytes32 rb.ssrc ++ ([rb.fractionLost] ++ ([a] ++ ([b] ++ ([c] ++
      (beBytes32 rb.highestSeqNoReceived ++ (beBytes32 rb.interarrivalJitter ++
        (beBytes32 rb.lsr ++ beBytes32 rb.dlsr))))))) := by
    simp [encodeInto,hbytes]
  apply Reads.atLeast _ _ (Nat.le_of_eq rb.encodeInto_length.symm)
  rw [hlayout]
  refine (reads_u32 _).bind ?_
  refine (reads_u8 _).bind ?_
  refine (reads_u8 _).bind ((reads_u8 _).bind ((reads_u8 _).bind ?_))
  refine (reads_u32 _).bind ((reads_u32 _).bind ((reads_u32 _).bind ?_))
  rw [hlost]
  exact (reads_u32 rb.dlsr).bind_pure fun dlsr => ({ rb with dlsr } : ReportBlock)

theorem SenderInfo.reads (i : SenderInfo) : Reads decode i.encodeInto i := by
  apply Reads.atLeast _ _ (Nat.le_of_eq i.encodeInto_length.symm)
  simp only [encodeInto,List.append_assoc]
  refine (reads_u32 _).bind ((reads_u32 _).bind ((reads_u32 _).bind ((reads_u32 _).bind ?_)))
  exact (reads_u32 i.octetCount).bind_pure fun octetCount => ({ i with octetCount } : SenderInfo)
theorem ReportBlock.reads_blocks {reports : List ReportBlock} (h : ∀ rb ∈ reports, rb.LossFits)
    (hrc : rc.toNat = reports.length) : Reads (decodeBlocks rc) (reports.flatMap encodeInto) reports := by
  rw [decodeBlocks,hrc]
  apply Reads.readMany
  intro rb hrb
  exact (ReportBlock.reads (h rb hrb)).atLeast _ (Nat.le_of_eq rb.encodeInto_length.symm)
def SdesItem.TypeFits : SdesItem → Prop
  | .unknown t _ => 9 ≤ t
  | _ => True

theorem SdesItem.ofData_asBytes (repair : Bytes → String) (h : item.TypeFits) :
    ofData repair item.typCode item.asBytes = item ∧ item.typCode ≠ 0 := by
  cases item with
  | priv data => exact ⟨rfl,by simp [typCode]⟩
  | unknown t data =>
    have ht : 9 ≤ t.toNat := h
    constructor
    · simp only [typCode,asBytes,ofData]
      split <;> first | omega | rfl
    · rintro rfl
      exact absurd ht (by decide)
  | _ => exact ⟨by simp [typCode,asBytes,ofData,fromUtf8Lossy_utf8],by simp [typCode]⟩

theorem SdesItem.encodeInto_eq_ok : item.encodeInto = .ok c ↔
      item.asBytes.length ≤ 255 ∧ c = item.typCode :: UInt8.ofNat item.asBytes.length :: item.asBytes := by
  rw [encodeInto]
  split <;> simp [eq_comm] <;> omega
theorem SdesChunk.decodeItems_end (repair : Bytes → String) (idx : ℕ) (buf : Bytes) :
    decodeItems repair idx (0 :: buf) = if buf.length < (4 - (idx + 1) % 4) % 4 then .error .truncated
      else .ok ([],buf.drop ((4 - (idx + 1) % 4) % 4)) := by
  rw [decodeItems.eq_def]
  rfl

theorem SdesChunk.decodeItems_item {idx : ℕ} {t : UInt8} (ht : t ≠ 0) (len : UInt8)
    (buf : Bytes) : decodeItems repair idx (t :: len :: buf) = if buf.length < len.toNat then .error .sdesItemTooShort
      else do
        let (items,left) ← decodeItems repair (idx + 2 + len.toNat) (buf.drop len.toNat)
        return (.ofData repair t (buf.take len.toNat) :: items,left) := by
  rw [decodeItems.eq_def]
  simp only [ht,if_false]

theorem SdesChunk.decodeItems_encode {items : List SdesItem}
    (h : ∀ item ∈ items, item.TypeFits) (he : writeAll SdesItem.encodeInto items = .ok e) (idx : ℕ) (tail : Bytes) :
    decodeItems repair idx (e ++ (0 :: padding (idx + e.length + 1) ++ tail)) = .ok (items,tail) := by
  induction items generalizing e idx with
  | nil =>
    cases he
    have hpad : (padding (idx + 1)).length = (4 - (idx + 1) % 4) % 4 := List.length_replicate
    simp only [List.nil_append,List.cons_append,List.length_nil,Nat.add_zero]
    rw [decodeItems_end,if_neg (by simp [hpad]),← hpad,List.drop_left]
  | cons item items ih =>
    obtain ⟨c,d,hc,hd,rfl⟩ := writeAll_cons_eq_ok.mp he
    obtain ⟨hlen,rfl⟩ := SdesItem.encodeInto_eq_ok.mp hc
    obtain ⟨hdata,htype⟩ := SdesItem.ofData_asBytes repair (h item (by simp))
    have hbyte : (UInt8.ofNat item.asBytes.length).toNat = item.asBytes.length := by
      rw [UInt8.toNat_ofNat']
      omega
    have hrest := ih (fun i hi => h i (by simp [hi])) hd (idx + 2 + item.asBytes.length)
    simp only [List.cons_append,List.append_assoc] at hrest ⊢
    rw [decodeItems_item htype,hbyte,if_neg (by simp),List.drop_left,List.take_left,hdata]
    have hidx : idx + (item.typCode :: UInt8.ofNat item.asBytes.length :: (item.asBytes ++ d)).length + 1 =
        idx + 2 + item.asBytes.length + d.length + 1 := by
      simp only [List.length_cons,List.length_append]
      omega
    rw [hidx,hrest]
    rfl

theorem SdesChunk.encodeInto_eq_ok : chunk.encodeInto = .ok c ↔ ∃ e, writeAll SdesItem.encodeInto chunk.items = .ok e ∧
      c = beBytes32 chunk.ssrc ++ (e ++ (0 :: padding (4 + e.length + 1))) := by
  rw [encodeInto,bind_eq_ok]
  simp [pure,Except.pure,eq_comm,Nat.add_assoc]

theorem SdesChunk.reads (h : ∀ item ∈ chunk.items, item.TypeFits) (hc : chunk.encodeInto = .ok c) :
    4 ≤ c.length ∧ Reads (decode repair) c chunk := by
  obtain ⟨e,he,rfl⟩ := encodeInto_eq_ok.mp hc
  have hlen : 4 ≤ (beBytes32 chunk.ssrc ++ (e ++ (0 :: padding (4 + e.length + 1)))).length := by
    rw [List.length_append,beBytes32_length]
    omega
  refine ⟨hlen,Reads.atLeast ((reads_u32 _).bind ?_) _ hlen⟩
  have hitems : Reads (decodeItems repair 4) (e ++ (0 :: padding (4 + e.length + 1))) chunk.items := by
    intro tail
    rw [List.append_assoc]
    exact decodeItems_encode h he 4 tail
  exact hitems.bind_pure fun items => ({ chunk with items } : SdesChunk)

@[simp] theorem padding_length (n : ℕ) : (padding n).length = (4 - n % 4) % 4 := List.length_replicate
theorem padding_of_dvd (h : n % 4 = 0) : padding n = [] := by simp [padding,h]
theorem patched_eq (n : ℕ) : [((n >>> 8) &&& 0xFF).toUInt8,(n &&& 0xFF).toUInt8] = beBytes16 (.ofNat n) := by
  have hbyte : ∀ k, k &&& 255 = k % 256 := fun k => Nat.and_two_pow_sub_one_eq_mod k 8
  rw [beBytes16,List.cons.injEq,List.cons.injEq]
  refine ⟨UInt8.toNat_inj.mp ?_,UInt8.toNat_inj.mp ?_,rfl⟩
  · simp [hbyte,Nat.shiftRight_eq_div_pow]
    omega
  · simp [hbyte]

theorem finish_eq (rc pt : UInt8) (body : Bytes) : finish rc pt body = (0x80 ||| (rc &&& 0x1F)) :: pt ::
      (beBytes16 (.ofNat ((body.length + 3) / 4)) ++ (body ++ padding body.length)) := by
  have htop : (RTCP_VERSION &&& 3) <<< 6 ||| Bool.toUInt8 false <<< 5 = 0x80 := by decide
  have hheader : (CommonHeader.new rc pt false).encodeInto = [0x80 ||| (rc &&& 0x1F),pt,0,0] := by
    simp only [CommonHeader.encodeInto,CommonHeader.new,htop]
    rfl
  have hpad : padding (4 + body.length) = padding body.length := by
    simp [padding]
  have hwords : (4 + body.length + (padding body.length).length) / 4 - 1 = (body.length + 3) / 4 := by
    rw [padding_length]
    omega
  rw [← patched_eq]
  simp only [finish,hheader,List.length_append,List.length_cons,List.length_nil,Nat.zero_add,
    Nat.reduceAdd,hpad,hwords]
  rfl

theorem finish_length (rc pt : UInt8) (body : Bytes) :
    (finish rc pt body).length = ((body.length + 3) / 4 + 1) * 4 := by
  rw [finish_eq]
  simp only [List.length_cons,List.length_append,beBytes16_length,padding_length]
  omega
theorem vprc_spec (rc : UInt8) : (0x80 ||| (rc &&& 0x1F)) >>> 6 = 2 ∧
    ((0x80 ||| (rc &&& 0x1F)) >>> 5) &&& 1 = 0 ∧ (0x80 ||| (rc &&& 0x1F)) &&& 0x1F = rc &&& 0x1F := by
  revert rc
  apply forall_byte
  decide +kernel

theorem readU16_finish (rc pt : UInt8) (body tail : Bytes) :
    readU16 (finish rc pt body ++ tail) 2 = .ofNat ((body.length + 3) / 4) := by
  rw [finish_eq]
  have h := readU16_append_right [0x80 ||| (rc &&& 0x1F),pt]
    (beBytes16 (.ofNat ((body.length + 3) / 4)) ++ (body ++ padding body.length) ++ tail) (i := 0)
  rw [List.append_assoc,readU16_beBytes16] at h
  simpa using h

theorem words_toNat (h : n ≤ 262140) : (UInt16.ofNat ((n + 3) / 4)).toNat = (n + 3) / 4 := by
  rw [UInt16.toNat_ofNat']
  omega

theorem decode_finish (hlen : body.length ≤ 262140) (tail : Bytes) : CommonHeader.decode (finish rc pt body ++ tail) =
      .ok (⟨2,false,rc &&& 0x1F,pt, .ofNat ((body.length + 3) / 4)⟩,(finish rc pt body).length) := by
  obtain ⟨hversion,hpadding,hcount⟩ := vprc_spec rc
  have hlong := finish_length rc pt body
  have hfirst : (finish rc pt body ++ tail).getD 0 0 = 0x80 ||| (rc &&& 0x1F) := by rw [finish_eq]; rfl
  have hsecond : (finish rc pt body ++ tail).getD 1 0 = pt := by rw [finish_eq]; rfl
  have henough : ¬ (finish rc pt body ++ tail).length < 4 := by rw [List.length_append]; omega
  rw [CommonHeader.decode,if_neg henough]
  simp only [readU16_finish,hfirst,hsecond,hversion,hpadding,hcount,words_toNat hlen,← hlong]
  rw [if_neg (by decide),if_neg (by simp)]
  rfl

/-- A finished packet is read off its own bytes if its kind's decoder takes its contents back. -/
theorem RtcpPacket.reads_finish {pkt : RtcpPacket} (hshort : (finish rc pt body).length < 2 ^ 18)
    (halign : body.length % 4 = 0) (hbody : ∃ left, (decodeBody repair
      ⟨2,false,rc &&& 0x1F,pt, .ofNat ((body.length + 3) / 4)⟩).run body = .ok (pkt,left)) :
    Reads (decodeOne repair) (finish rc pt body) pkt := by
  intro tail
  obtain ⟨left,h⟩ := hbody
  have hlong := finish_length rc pt body
  have hlen : body.length ≤ 262140 := by omega
  have hpayload : (finish rc pt body).drop 4 = body := by
    rw [finish_eq,padding_of_dvd halign]
    exact List.append_nil body
  have hstrip : ∀ words, stripPadding ⟨2,false,rc &&& 0x1F,pt,words⟩ (finish rc pt body) = .ok body :=
    fun _ => congrArg Except.ok hpayload
  have hbounds : ¬ ((finish rc pt body).length < 4 ∨
      (finish rc pt body ++ tail).length < (finish rc pt body).length) := by
    rw [List.length_append]
    omega
  change (decodeOne repair) (finish rc pt body ++ tail) = _
  rw [decodeOne,decode_finish hlen]
  simp only [bind,Except.bind,hbounds,if_false,List.take_left,List.drop_left,hstrip,h]
  rfl

theorem count_toNat (h : n ≤ 31) : (UInt8.ofNat n &&& 0x1F).toNat = n := by
  have hmask : n % 256 &&& 31 = n % 256 % 32 := Nat.and_two_pow_sub_one_eq_mod _ 5
  rw [UInt8.toNat_and,UInt8.toNat_ofNat']
  change n % 256 &&& 31 = n
  omega

section Kinds
variable {repair : Bytes → String} {c : Bytes}
theorem SenderReport.reads {p : SenderReport} (hcount : p.reports.length ≤ 31)
    (hloss : ∀ rb ∈ p.reports, rb.LossFits) (halign : p.profileExt.length % 4 = 0)
    (hc : p.encodeInto = .ok c) (hlen : c.length < 2 ^ 18) : Reads (decodeOne repair) c (.sr p) := by
  rw [encodeInto,if_neg (by rw [MAX_RC]; omega)] at hc
  cases hc
  refine reads_finish hlen (by simp; omega) ⟨[],?_⟩
  change (SenderReport.decode _).run _ = _
  rw [decode,run_atLeast (by simp; omega),
    List.append_assoc,List.append_assoc,
    run_bind_of_ok (reads_u32 _ _),run_bind_of_ok (SenderInfo.reads _ _),
    run_bind_of_ok (ReportBlock.reads_blocks hloss (count_toNat hcount) _)]
  rfl

theorem ReceiverReport.reads {p : ReceiverReport} (hcount : p.reports.length ≤ 31)
    (hloss : ∀ rb ∈ p.reports, rb.LossFits) (halign : p.profileExt.length % 4 = 0)
    (hc : p.encodeInto = .ok c) (hlen : c.length < 2 ^ 18) : Reads (decodeOne repair) c (.rr p) := by
  cases hc
  refine reads_finish hlen (by simp; omega) ⟨[],?_⟩
  change (ReceiverReport.decode _).run _ = _
  rw [decode,run_atLeast (by simp),List.append_assoc,
    run_bind_of_ok (reads_u32 _ _),
    run_bind_of_ok (ReportBlock.reads_blocks hloss (count_toNat hcount) _)]
  rfl

theorem SdesChunk.encodeInto_aligned (h : chunk.encodeInto = .ok c) : c.length % 4 = 0 := by
  obtain ⟨e,-,rfl⟩ := encodeInto_eq_ok.mp h
  simp only [List.length_append,beBytes32_length,List.length_cons,padding_length]
  omega

theorem Sdes.chunks_aligned {chunks : List SdesChunk}
    (h : writeAll SdesChunk.encodeInto chunks = .ok e) : e.length % 4 = 0 := by
  induction chunks generalizing e with
  | nil =>
    cases h
    rfl
  | cons chunk chunks ih =>
    obtain ⟨c,d,hc,hd,rfl⟩ := writeAll_cons_eq_ok.mp h
    have h₁ := SdesChunk.encodeInto_aligned hc
    have h₂ := ih hd
    rw [List.length_append]
    omega

theorem Sdes.reads {p : Sdes} (htype : ∀ chunk ∈ p.chunks, ∀ item ∈ chunk.items, item.TypeFits)
    (hc : p.encodeInto = .ok c) (hlen : c.length < 2 ^ 18) : Reads (decodeOne repair) c (.sdes p) := by
  obtain ⟨e,he,hret⟩ := bind_eq_ok.mp hc
  cases hret
  refine reads_finish hlen (chunks_aligned he) ⟨[],?_⟩
  have hchunks : readAll (SdesChunk.decode repair) (SdesChunk.decode_consumes repair) 4 .truncated e =
      .ok p.chunks :=
    readAll_writeAll (by omega) (fun chunk hchunk c hc => SdesChunk.reads (htype chunk hchunk) hc) he
  have hkind : ∀ rc words, RtcpPacket.decodeBody repair ⟨2,false,rc,PT_SDES,words⟩ =
      decode repair ⟨2,false,rc,PT_SDES,words⟩ := fun _ _ => rfl
  have hall : (rest : Reader RtcpError Bytes).run e = .ok (e,[]) := rfl
  rw [hkind,decode,run_bind_of_ok hall,hchunks]
  rfl

theorem Bye.reads_reason {reason : Option String} (h : ∀ r ∈ reason, r.utf8ByteSize ≤ 255) :
    ∃ left, (decodeReason repair).run (reasonBytes reason) = .ok (reason,left) := by
  cases reason with
  | none => exact ⟨[],rfl⟩
  | some r =>
    have hr := h r rfl
    have hbyte : (UInt8.ofNat (utf8 r).length).toNat = (utf8 r).length := by
      rw [UInt8.toNat_ofNat',utf8_length]
      omega
    refine ⟨padding (1 + (utf8 r).length),?_⟩
    have hbytes : reasonBytes (some r) =
        UInt8.ofNat (utf8 r).length :: (utf8 r ++ padding (1 + (utf8 r).length)) := by
      simp only [reasonBytes,if_pos (show (utf8 r).length ≤ 255 from hr),List.cons_append]
    have hrun : ∀ (len : UInt8) (buf : Bytes), (decodeReason repair).run (len :: buf) =
        if buf.length < len.toNat then .error .truncated
        else .ok (some (fromUtf8Lossy repair (buf.take len.toNat)),buf.drop len.toNat) := fun _ _ => rfl
    rw [hbytes,hrun,hbyte,if_neg (by simp),List.take_left,List.drop_left,fromUtf8Lossy_utf8]

theorem Bye.reasonBytes_aligned (reason : Option String) : (reasonBytes reason).length % 4 = 0 := by
  cases reason with
  | none => rfl
  | some r =>
    simp only [reasonBytes,List.cons_append,List.length_cons,List.length_append,padding_length]
    omega

theorem Bye.reads {p : Bye} (hcount : p.sources.length ≤ 30) (hreason : ∀ r ∈ p.reason, r.utf8ByteSize ≤ 255)
    (hc : p.encodeInto = .ok c) (hlen : c.length < 2 ^ 18) : Reads (decodeOne repair) c (.bye p) := by
  rw [encodeInto,if_neg (by omega)] at hc
  cases hc
  obtain ⟨left,hleft⟩ := @reads_reason repair _ hreason
  have hrc := count_toNat (show p.sources.length ≤ 31 by omega)
  have hsources : Reads (readMany u32 p.sources.length) (p.sources.flatMap beBytes32) p.sources :=
    Reads.readMany fun x _ => reads_u32 x
  have halign := reasonBytes_aligned p.reason
  refine reads_finish hlen (by simp; omega) ⟨left,?_⟩
  change (Bye.decode repair _).run _ = _
  rw [decode,hrc,run_atLeast (by simp),
    run_bind_of_ok (hsources _),run_bind_of_ok hleft]
  rfl

theorem App.reads_name (name : Vector UInt8 4) : Reads name4 name.toList name := by
  obtain ⟨⟨l⟩,hl⟩ := name
  match l,hl with
  | [a,b,c,d],_ =>
    change Reads name4 ([a] ++ ([b] ++ ([c] ++ [d]))) _
    refine (reads_u8 _).bind ((reads_u8 _).bind ((reads_u8 _).bind ?_))
    exact (reads_u8 d).bind_pure fun d => (#v[a,b,c,d] : Vector UInt8 4)

theorem App.reads {p : App} (hsub : p.subtype < 32) (halign : p.data.length % 4 = 0)
    (hc : p.encodeInto = .ok c) (hlen : c.length < 2 ^ 18) : Reads (decodeOne repair) c (.app p) := by
  cases hc
  have hmask : ∀ x : UInt8, x < 32 → ((x &&& 0x1F) &&& 0x1F) &&& 0x1F = x := by
    apply forall_byte
    decide +kernel
  refine reads_finish hlen (by simp; omega) ⟨[],?_⟩
  change (App.decode _).run _ = _
  rw [decode,run_atLeast (by simp; omega),
    List.append_assoc,run_bind_of_ok (reads_u32 _ _),run_bind_of_ok (reads_name _ _)]
  change Except.ok (RtcpPacket.app ⟨((p.subtype &&& 0x1F) &&& 0x1F) &&& 0x1F,p.name,p.ssrc,p.data⟩,([] : Bytes)) = _
  rw [hmask _ hsub]

theorem GenericNack.reads_entry (e : UInt16 × UInt16) : Reads entry (beBytes16 e.1 ++ beBytes16 e.2) e :=
  (reads_u16 e.1).bind ((reads_u16 e.2).bind_pure fun blp => (e.1,blp))

theorem GenericNack.reads {p : GenericNack} (hc : p.encodeInto = .ok c) (hlen : c.length < 2 ^ 18) :
    Reads (decodeOne repair) c (.nack p) := by
  cases hc
  have hentries : readAll entry entry_consumes 4 .truncated (p.entries.flatMap fun e => beBytes16 e.1 ++ beBytes16 e.2) =
      .ok p.entries := by
    apply readAll_writeAll (by omega) _ (writeAll_ok (fun e : UInt16 × UInt16 => beBytes16 e.1 ++ beBytes16 e.2) _)
    rintro e - _ ⟨⟩
    exact ⟨by simp,reads_entry e⟩
  have hall : ∀ b, (rest : Reader RtcpError Bytes).run b = .ok (b,[]) := fun _ => rfl
  refine reads_finish hlen (by simp) ⟨[],?_⟩
  change (GenericNack.decode _).run _ = _
  rw [decode,run_atLeast (by simp; omega),List.append_assoc,
    run_bind_of_ok (reads_u32 _ _),run_bind_of_ok (reads_u32 _ _),
    if_pos (show (1 &&& 0x1F : UInt8) = 1 by decide),run_bind_of_ok (hall _),hentries]
  rfl

theorem PictureLossIndication.reads {p : PictureLossIndication} (hc : p.encodeInto = .ok c) :
    Reads (decodeOne repair) c (.pli p) := by
  cases hc
  refine reads_finish (by rw [finish_length]; simp) (by simp) ⟨[],?_⟩
  change (PictureLossIndication.decode _).run _ = _
  rw [decode,run_atLeast (by simp),← List.append_nil (beBytes32 p.mediaSsrc),run_bind_of_ok (reads_u32 _ _),
    run_bind_of_ok (reads_u32 _ _),if_pos (show (1 &&& 0x1F : UInt8) = 1 by decide)]
  rfl
end Kinds

def SdesChunk.size (chunk : SdesChunk) : ℕ :=
  (5 + (chunk.items.map fun item => 2 + item.asBytes.length).sum + 3) / 4 * 4

theorem SdesChunk.encodeInto_length (h : chunk.encodeInto = .ok c) : c.length = chunk.size := by
  obtain ⟨e,he,rfl⟩ := encodeInto_eq_ok.mp h
  have hitem : ∀ (item : SdesItem) (c : Bytes), item.encodeInto = .ok c → c.length = 2 + item.asBytes.length := by
    intro item c hc
    obtain ⟨-,rfl⟩ := SdesItem.encodeInto_eq_ok.mp hc
    rw [List.length_cons,List.length_cons]
    omega
  have hlen := writeAll_length hitem he
  simp only [List.length_append,beBytes32_length,List.length_cons,padding_length,size]
  omega

namespace RtcpPacket
variable {p : RtcpPacket}
def bodyLength : RtcpPacket → ℕ
  | .sr p => 24 + 24 * p.reports.length + p.profileExt.length
  | .rr p => 4 + 24 * p.reports.length + p.profileExt.length
  | .sdes p => (p.chunks.map SdesChunk.size).sum
  | .bye p => 4 * p.sources.length + p.reason.elim 0 fun r => (1 + r.utf8ByteSize + 3) / 4 * 4
  | .app p => 8 + p.data.length
  | .nack p => 8 + 4 * p.entries.length
  | .pli _ => 8

def count : RtcpPacket → Option ℕ
  | .sr p => some p.reports.length
  | .rr p => some p.reports.length
  | .sdes p => some p.chunks.length
  | .bye p => some p.sources.length
  | _ => none

def packetType : RtcpPacket → UInt8
  | .sr _ => PT_SR
  | .rr _ => PT_RR
  | .sdes _ => PT_SDES
  | .bye _ => PT_BYE
  | .app _ => PT_APP
  | .nack _ => PT_RTPFB
  | .pli _ => PT_PSFB

theorem encodeInto_spec (hc : p.encodeInto = .ok c) :
    ∃ rc body, c = finish rc p.packetType body ∧ body.length = p.bodyLength ∧ ∀ n ∈ p.count, rc = .ofNat n := by
  cases p with
  | sr p =>
    change (if _ then _ else _) = _ at hc
    split at hc <;> cases hc
    refine ⟨_,_,rfl,?_,by simp [count]⟩
    simp only [List.length_append,beBytes32_length,SenderInfo.encodeInto_length,length_encodeBlocks,bodyLength]
  | rr p =>
    cases hc
    refine ⟨_,_,rfl,?_,by simp [count]⟩
    simp only [List.length_append,beBytes32_length,length_encodeBlocks,bodyLength]
  | sdes p =>
    obtain ⟨e,he,hret⟩ := bind_eq_ok.mp hc
    cases hret
    exact ⟨_,_,rfl,writeAll_length (fun _ _ => SdesChunk.encodeInto_length) he,by simp [count]⟩
  | bye p =>
    change (if _ then _ else _) = _ at hc
    split at hc <;> cases hc
    refine ⟨_,_,rfl,?_,by simp [count]⟩
    have hreason : (Bye.reasonBytes p.reason).length =
        p.reason.elim 0 fun r => (1 + r.utf8ByteSize + 3) / 4 * 4 := by
      cases p.reason with
      | none => rfl
      | some r =>
        simp only [Bye.reasonBytes,List.cons_append,List.length_cons,List.length_append,padding_length,
          utf8_length,Option.elim_some]
        omega
    simp only [List.length_append,hreason,bodyLength,List.length_flatMap,beBytes32_length]
    simp [Nat.mul_comm]
  | app p =>
    cases hc
    refine ⟨_,_,rfl,?_,by simp [count]⟩
    simp [bodyLength]
    omega
  | nack p =>
    cases hc
    refine ⟨_,_,rfl,?_,by simp [count]⟩
    simp [bodyLength,List.length_flatMap,Nat.mul_comm]
    omega
  | pli p =>
    cases hc
    exact ⟨_,_,rfl,rfl,by simp [count]⟩

def InDomain (p : RtcpPacket) : Prop :=
  (match p with
    | .sr p => p.reports.length ≤ 31 ∧ (∀ rb ∈ p.reports, rb.LossFits) ∧ p.profileExt.length % 4 = 0
    | .rr p => p.reports.length ≤ 31 ∧ (∀ rb ∈ p.reports, rb.LossFits) ∧ p.profileExt.length % 4 = 0
    | .sdes p => ∀ chunk ∈ p.chunks, ∀ item ∈ chunk.items, item.TypeFits ∧ item.asBytes.length ≤ 255
    | .bye p => p.sources.length ≤ 30 ∧ ∀ r ∈ p.reason, r.utf8ByteSize ≤ 255
    | .app p => p.subtype < 32 ∧ p.data.length % 4 = 0
    | .nack _ => True
    | .pli _ => True) ∧
  ∀ c, p.encodeInto = .ok c → c.length < 2 ^ 18

theorem InDomain.encodes (h : p.InDomain) : ∃ c, p.encodeInto = .ok c := by
  cases p with
  | sr p =>
    have hcount : ¬ p.reports.length > SenderReport.MAX_RC := Nat.not_lt.mpr h.1.1
    exact ⟨_,if_neg hcount⟩
  | sdes p =>
    have hchunks : ∀ chunk ∈ p.chunks, ∃ c, chunk.encodeInto = .ok c := by
      intro chunk hchunk
      have hitems : ∀ item ∈ chunk.items, ∃ c, item.encodeInto = .ok c := fun item hitem =>
        ⟨_,SdesItem.encodeInto_eq_ok.mpr ⟨(h.1 chunk hchunk item hitem).2,rfl⟩⟩
      obtain ⟨e,he⟩ := writeAll_isOk_iff.mpr hitems
      exact ⟨_,SdesChunk.encodeInto_eq_ok.mpr ⟨e,he,rfl⟩⟩
    obtain ⟨e,he⟩ := writeAll_isOk_iff.mpr hchunks
    exact ⟨_,bind_eq_ok.mpr ⟨e,he,rfl⟩⟩
  | bye p =>
    have hcount : ¬ p.sources.length ≥ 31 := by have := h.1.1; omega
    exact ⟨_,if_neg hcount⟩
  | rr p | app p | nack p | pli p => exact ⟨_,rfl⟩

theorem InDomain.reads (h : p.InDomain) (hc : p.encodeInto = .ok c) : Reads (decodeOne repair) c p := by
  have hlen := h.2 c hc
  cases p with
  | sr p => exact SenderReport.reads h.1.1 h.1.2.1 h.1.2.2 hc hlen
  | rr p => exact ReceiverReport.reads h.1.1 h.1.2.1 h.1.2.2 hc hlen
  | sdes p => exact Sdes.reads (fun chunk hchunk item hitem => (h.1 chunk hchunk item hitem).1) hc hlen
  | bye p => exact Bye.reads h.1.1 h.1.2 hc hlen
  | app p => exact App.reads h.1.1 h.1.2 hc hlen
  | nack p => exact GenericNack.reads hc hlen
  | pli p => exact PictureLossIndication.reads hc

theorem length_encodeInto (hc : p.encodeInto = .ok c) : 4 ≤ c.length := by
  obtain ⟨rc,body,rfl,-⟩ := encodeInto_spec hc
  rw [finish_length]
  omega

/-- A compound packet of representable packets is written, and read back as it was. -/
theorem compound_round_trip (repair : Bytes → String) {pkts : List RtcpPacket} (hne : pkts ≠ [])
    (h : ∀ p ∈ pkts, p.InDomain) :
    ∃ buf, encodeCompound pkts = .ok buf ∧ decodeCompound repair buf = .ok pkts := by
  obtain ⟨buf,hbuf⟩ := writeAll_isOk_iff.mpr fun p hp => (h p hp).encodes
  refine ⟨buf,hbuf,?_⟩
  have hlong : ¬ buf.length < 4 := by
    obtain ⟨p,ps,rfl⟩ := List.exists_cons_of_ne_nil hne
    obtain ⟨c,d,hc,-,rfl⟩ := writeAll_cons_eq_ok.mp hbuf
    have hc := length_encodeInto hc
    rw [List.length_append]
    omega
  rw [decodeCompound, if_neg hlong]
  exact readAll_writeAll (by omega) (fun p hp c hc => ⟨length_encodeInto hc,(h p hp).reads hc⟩) hbuf

def farewell : List RtcpPacket :=
  [.sr ⟨1,⟨0,0,0,0,0⟩,[⟨2,0,-5,7,0,0,0⟩],[]⟩, .sdes ⟨[⟨1,[.cname "ana", .unknown 9 [1]]⟩]⟩, .bye ⟨[1],some "bye"⟩]

theorem compound_round_trip_farewell : farewell ≠ [] ∧
    ∃ buf, encodeCompound farewell = .ok buf ∧ decodeCompound (fun _ => "") buf = .ok farewell := by
  refine ⟨by simp [farewell],compound_round_trip _ (by simp [farewell]) ?_⟩
  have hsize : ∀ p ∈ farewell, (p.encodeInto.toOption.elim 0 List.length) < 2 ^ 18 := by decide +kernel
  intro p hp
  refine ⟨?_,fun c hc => ?_⟩
  · simp only [farewell, List.mem_cons, List.not_mem_nil, or_false] at hp
    rcases hp with rfl | rfl | rfl
    · exact ⟨by decide,by simp [ReportBlock.LossFits],rfl⟩
    · simp only [forall_eq, List.mem_cons, List.not_mem_nil, or_false, forall_eq_or_imp, SdesItem.TypeFits,
        SdesItem.asBytes]
      decide +kernel
    · exact ⟨by decide,by simp; decide +kernel⟩
  · have hp := hsize p hp
    rwa [hc] at hp
end RtcpPacket
end RustyRtc.Rtcp
