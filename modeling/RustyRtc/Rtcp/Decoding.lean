import RustyRtc.Foundation.Slices
import RustyRtc.Rtcp.Packet

/-! # Compound decoding over slices

The decoders once more with their indices and slice accesses, as the files of `rtcp` have them.
Each agrees with its list model, so no access is out of range and every loop ends. A compound
buffer that is accepted falls apart into packets that are accepted alone, each as long as its
header says; that a packet is read the same whatever follows it gives the concatenation law.
-/
namespace RustyRtc.Rtcp
open Reader Checked
variable {idx : ℕ} {buf : Bytes}

def CommonHeader.decodeIndexed (buf : Bytes) : Checked RtcpError (CommonHeader × ℕ) :=
  if buf.length < 4 then throw .tooShort
  else do
    let vprc ← index buf 0
    let version := vprc >>> 6
    if version ≠ RTCP_VERSION then throw (.badVersion version)
    else
      let pt ← index buf 1
      let lengthWords ← u16At buf 2 .tooShort
      let totalBytes := (lengthWords.toNat + 1) * 4
      if buf.length < totalBytes then throw .tooShort
      else return (⟨version,(vprc >>> 5) &&& 1 != 0,vprc &&& 0x1F,pt,lengthWords⟩,totalBytes)

def ReportBlock.decodeIndexed (buf : Bytes) : Checked RtcpError (ReportBlock × ℕ) :=
  if buf.length < 24 then throw .tooShort
  else do
    let ssrc ← u32At buf 0 .tooShort
    let fractionLost ← index buf 4
    let cumulativeLost := lostOf (← index buf 5) (← index buf 6) (← index buf 7)
    let highestSeqNoReceived ← u32At buf 8 .tooShort
    let interarrivalJitter ← u32At buf 12 .tooShort
    let lsr ← u32At buf 16 .tooShort
    let dlsr ← u32At buf 20 .tooShort
    return (⟨ssrc,fractionLost,cumulativeLost,highestSeqNoReceived,interarrivalJitter,lsr,dlsr⟩,24)

def ReportBlock.blocksIndexed (payload : Bytes) (rc : UInt8) (idx : ℕ) : Checked RtcpError (List ReportBlock × ℕ) :=
  forTimes (fun idx => if payload.length < idx + 24 then throw .truncated
    else advance ReportBlock.decodeIndexed payload idx) rc.toNat idx

def SenderInfo.decodeIndexed (buf : Bytes) : Checked RtcpError (SenderInfo × ℕ) :=
  if buf.length < 20 then throw .tooShort
  else do
    let ntpMostSw ← u32At buf 0 .tooShort
    let nowLeastSw ← u32At buf 4 .tooShort
    let rtpTs ← u32At buf 8 .tooShort
    let packetCount ← u32At buf 12 .tooShort
    let octetCount ← u32At buf 16 .tooShort
    return (⟨ntpMostSw,nowLeastSw,rtpTs,packetCount,octetCount⟩,20)

def SenderReport.decodeIndexed (hdr : CommonHeader) (payload : Bytes) : Checked RtcpError RtcpPacket :=
  if payload.length < 24 then throw .tooShort
  else do
    let ssrc ← u32At payload 0 .tooShort
    let (info,idx) ← advance SenderInfo.decodeIndexed payload 4
    let (reports,idx) ← ReportBlock.blocksIndexed payload hdr.rcOrFmt idx
    let profileExt ← sliceFrom payload idx
    return .sr ⟨ssrc,info,reports,profileExt⟩

def ReceiverReport.decodeIndexed (hdr : CommonHeader) (payload : Bytes) : Checked RtcpError RtcpPacket :=
  if payload.length < 4 then throw .tooShort
  else do
    let ssrc ← u32At payload 0 .tooShort
    let (reports,idx) ← ReportBlock.blocksIndexed payload hdr.rcOrFmt 4
    let profileExt ← sliceFrom payload idx
    return .rr ⟨ssrc,reports,profileExt⟩

/-- `while idx < buf.len()`, left by the `break` behind END. -/
def SdesChunk.itemsIndexed (repair : Bytes → String) (buf : Bytes) (idx : ℕ) :
    Checked RtcpError (List SdesItem × ℕ) :=
  if idx < buf.length then do
    let t ← index buf idx
    if t = 0 then
      let chunkLen := idx + 1
      let pad := (4 - chunkLen % 4) % 4
      if buf.length < idx + 1 + pad then throw .truncated else return ([],idx + 1 + pad)
    else if buf.length < idx + 1 + 1 then throw .sdesItemTooShort
    else
      let len := (← index buf (idx + 1)).toNat
      if buf.length < idx + 2 + len then throw .sdesItemTooShort
      else
        let data ← slice buf (idx + 2) (idx + 2 + len)
        let (items,idx) ← SdesChunk.itemsIndexed repair buf (idx + 2 + len)
        return (.ofData repair t data :: items,idx)
  else return ([],idx)
termination_by buf.length - idx

def SdesChunk.decodeIndexed (repair : Bytes → String) (buf : Bytes) : Checked RtcpError (SdesChunk × ℕ) :=
  if buf.length < 4 then throw .tooShort
  else do
    let ssrc ← u32At buf 0 .tooShort
    let (items,idx) ← SdesChunk.itemsIndexed repair buf 4
    return (⟨ssrc,items⟩,idx)

theorem CommonHeader.decodeIndexed_eq (buf : Bytes) : decodeIndexed buf = some (decode buf) := by
  rw [decodeIndexed,decode]
  by_cases hlen : buf.length < 4
  · rw [if_pos hlen,if_pos hlen]
    rfl
  · rw [if_neg hlen,if_neg hlen,index_eq (by omega),pure_bind]
    dsimp only
    split
    · rfl
    · rw [index_eq (by omega),pure_bind,u16At_eq (by omega),pure_bind]
      split <;> rfl

theorem run_rest (b : Bytes) : (rest : Reader RtcpError Bytes).run b = .ok (b,[]) := rfl
theorem u32_start (h : 4 ≤ buf.length) : u32.run buf = .ok (readU32 buf 0,buf.drop 4) := @run_u32 _ buf 0 _ (by omega)

theorem ReportBlock.decodes : Decodes decodeIndexed decode := by
  refine fun buf => .atLeast fun hlen => ?_
  simp (disch := omega) only [u32At_eq,index_eq,pure_bind,StateT.run_bind,u32_start,run_u32,run_u8,ok_bind,
    StateT.run_pure,Nat.reduceAdd]
  exact .ok _ (by omega)

theorem SenderInfo.decodes : Decodes decodeIndexed decode := by
  refine fun buf => .atLeast fun hlen => ?_
  simp (disch := omega) only [u32At_eq,pure_bind,StateT.run_bind,u32_start,run_u32,ok_bind,StateT.run_pure,
    Nat.reduceAdd]
  exact .ok _ (by omega)

theorem ReportBlock.blocksIndexed_agree {payload : Bytes} (rc : UInt8) (hidx : idx ≤ payload.length) :
    Agree payload (blocksIndexed payload rc idx) ((decodeBlocks rc).run (payload.drop idx)) := by
  refine forTimes_agree (fun idx hidx => ?_) rc.toNat hidx
  change Agree payload _ (if (payload.drop idx).length < 24 then _ else _)
  rw [List.length_drop]
  exact .guard (by omega) _ fun _ => ReportBlock.decodes.advance hidx

theorem SenderReport.takes (hdr : CommonHeader) : Takes (decodeIndexed hdr) (decode hdr) := by
  refine .atLeast fun payload hlen => ?_
  simp (disch := omega) only [u32At_eq,pure_bind,StateT.run_bind,u32_start,ok_bind,map_bind]
  refine (SenderInfo.decodes.advance (by omega)).finish fun info idx hidx _ => ?_
  refine (ReportBlock.blocksIndexed_agree _ hidx).finish fun reports idx hidx _ => ?_
  dsimp only
  rw [sliceFrom_eq hidx]
  rfl

theorem ReceiverReport.takes (hdr : CommonHeader) : Takes (decodeIndexed hdr) (decode hdr) := by
  refine .atLeast fun payload hlen => ?_
  simp (disch := omega) only [u32At_eq,pure_bind,StateT.run_bind,u32_start,ok_bind,map_bind]
  refine (ReportBlock.blocksIndexed_agree _ (by omega)).finish fun reports idx hidx _ => ?_
  dsimp only
  rw [sliceFrom_eq hidx]
  rfl

theorem SdesChunk.itemsIndexed_agree (repair : Bytes → String) (hidx : idx ≤ buf.length) :
    Agree buf (itemsIndexed repair buf idx) (decodeItems repair idx (buf.drop idx)) := by
  fun_induction itemsIndexed repair buf idx with
  | case1 idx hlt ih =>
    rw [index_eq hlt,pure_bind,drop_cons hlt]
    generalize buf.getD idx 0 = t
    rw [decodeItems.eq_def]
    dsimp only
    by_cases hend : t = 0
    · rw [if_pos hend,if_pos hend,List.length_drop,List.drop_drop]
      exact .guard (by omega) _ fun _ => .ok [] (by omega)
    · rw [if_neg hend,if_neg hend]
      by_cases hone : buf.length < idx + 1 + 1
      · rw [if_pos hone,List.drop_of_length_le (by omega)]
        exact .error _
      · rw [if_neg hone,index_eq (by omega),pure_bind,drop_cons (by omega)]
        generalize (buf.getD (idx + 1) 0) = len
        dsimp only
        rw [List.length_drop]
        refine .guard (by omega) _ fun hlen => ?_
        rw [slice_eq (by omega) (by omega),pure_bind,List.drop_drop,List.drop_take,Nat.add_sub_cancel_left]
        exact (ih hone len hlen (by omega)).bind fun items idx hidx _ => .ok _ hidx
  | case2 idx hge =>
    have hend : decodeItems repair idx (buf.drop idx) = .ok ([],buf.drop idx) := by
      rw [List.drop_of_length_le (by omega),decodeItems]
    rw [hend]
    exact .ok [] hidx

theorem SdesChunk.decodes (repair : Bytes → String) : Decodes (decodeIndexed repair) (decode repair) := by
  refine fun buf => .atLeast fun hlen => ?_
  simp (disch := omega) only [u32At_eq,pure_bind,StateT.run_bind,u32_start,ok_bind]
  exact (SdesChunk.itemsIndexed_agree repair (by omega)).bind fun items idx hidx _ => .ok _ hidx

def Sdes.chunksIndexed (repair : Bytes → String) (payload : Bytes) : Checked RtcpError (List SdesChunk) :=
  whileLeft payload.length 4 (by decide) .truncated (advance (SdesChunk.decodeIndexed repair) payload)
    ((SdesChunk.decodes repair).advances (SdesChunk.decode_consumes repair) payload) 0
def Sdes.decodeIndexed (repair : Bytes → String) (_hdr : CommonHeader) (payload : Bytes) :
    Checked RtcpError RtcpPacket := do
  let chunks ← Sdes.chunksIndexed repair payload
  return .sdes ⟨chunks⟩

def Bye.reasonIndexed (repair : Bytes → String) (payload : Bytes) (idx : ℕ) : Checked RtcpError (Option String) :=
  if payload.length > idx then do
    let len := (← index payload idx).toNat
    if payload.length < idx + 1 + len then throw .truncated
    else
      let s ← slice payload (idx + 1) (idx + 1 + len)
      return some (fromUtf8Lossy repair s)
  else return none

def Bye.decodeIndexed (repair : Bytes → String) (hdr : CommonHeader) (payload : Bytes) :
    Checked RtcpError RtcpPacket :=
  let sc := hdr.rcOrFmt.toNat
  if payload.length < sc * 4 then throw .truncated
  else do
    let (sources,idx) ← forTimes (fun idx => do return (← u32At payload idx .truncated,idx + 4)) sc 0
    let reason ← Bye.reasonIndexed repair payload idx
    return .bye ⟨sources,reason⟩

/-- `copy_from_slice` into four bytes, which wants a slice of that length. -/
def App.nameOf (name : Bytes) : Checked RtcpError (Vector UInt8 4) :=
  if h : name.length = 4 then pure ⟨name.toArray,h⟩ else outOfRange

def App.decodeIndexed (hdr : CommonHeader) (payload : Bytes) : Checked RtcpError RtcpPacket :=
  if payload.length < 8 then throw .tooShort
  else do
    let ssrc ← u32At payload 0 .tooShort
    let name ← App.nameOf (← slice payload 4 8)
    let data ← sliceFrom payload 8
    return .app ⟨hdr.rcOrFmt &&& 0x1F,name,ssrc,data⟩

def GenericNack.entryIndexed (payload : Bytes) (idx : ℕ) : Checked RtcpError ((UInt16 × UInt16) × ℕ) := do
  let pid ← u16At payload idx .tooShort
  let blp ← u16At payload (idx + 2) .tooShort
  return ((pid,blp),idx + 4)
theorem GenericNack.entryIndexed_advances (payload : Bytes) : Advances (entryIndexed payload) := by
  intro idx entry idx' h
  obtain ⟨pid,-,h⟩ := bind_eq_pure.mp h
  obtain ⟨blp,-,h⟩ := bind_eq_pure.mp h
  cases h
  omega
def GenericNack.entriesIndexed (payload : Bytes) : Checked RtcpError (List (UInt16 × UInt16)) :=
  whileLeft payload.length 4 (by decide) .truncated (entryIndexed payload) (entryIndexed_advances payload) 8

def GenericNack.decodeIndexed (hdr : CommonHeader) (payload : Bytes) : Checked RtcpError RtcpPacket :=
  if payload.length < 8 then throw .tooShort
  else do
    let senderSsrc ← u32At payload 0 .tooShort
    let mediaSsrc ← u32At payload 4 .tooShort
    if hdr.rcOrFmt = 1 then
      let entries ← GenericNack.entriesIndexed payload
      return .nack ⟨senderSsrc,mediaSsrc,entries⟩
    else throw .invalid

def PictureLossIndication.decodeIndexed (hdr : CommonHeader) (payload : Bytes) : Checked RtcpError RtcpPacket :=
  if payload.length < 8 then throw .tooShort
  else do
    let senderSsrc ← u32At payload 0 .tooShort
    let mediaSsrc ← u32At payload 4 .tooShort
    if hdr.rcOrFmt = 1 then return .pli ⟨senderSsrc,mediaSsrc⟩ else throw .invalid

section Packets
variable (repair : Bytes → String) (hdr : CommonHeader) (payload : Bytes)
theorem Sdes.chunksIndexed_eq : chunksIndexed repair payload =
    some (readAll (SdesChunk.decode repair) (SdesChunk.decode_consumes repair) 4 .truncated payload) :=
  whileLeft_eq (fun _ hidx => (SdesChunk.decodes repair).advance (by omega)) (Nat.zero_le _)
theorem Sdes.takes : Takes (decodeIndexed repair hdr) (decode repair hdr) := by
  intro payload
  rw [decodeIndexed,chunksIndexed_eq,decode,StateT.run_bind,run_rest,ok_bind,StateT.run_bind,StateT.run_lift]
  cases readAll (SdesChunk.decode repair) (SdesChunk.decode_consumes repair) 4 .truncated payload <;> rfl

theorem Bye.reasonIndexed_eq (hidx : idx ≤ payload.length) :
    reasonIndexed repair payload idx = some (Prod.fst <$> (decodeReason repair).run (payload.drop idx)) := by
  rw [reasonIndexed]
  by_cases hmore : payload.length > idx
  · rw [if_pos hmore,index_eq hmore,pure_bind,drop_cons hmore]
    generalize payload.getD idx 0 = len
    change _ = some (Prod.fst <$> if (payload.drop (idx + 1)).length < len.toNat then _ else _)
    rw [List.length_drop]
    dsimp only
    refine guard_eq (by omega) _ fun hlen => ?_
    rw [slice_eq (by omega) (by omega),pure_bind,List.drop_take,Nat.add_sub_cancel_left]
    rfl
  · rw [if_neg hmore,List.drop_of_length_le (by omega)]
    rfl

theorem Bye.takes : Takes (decodeIndexed repair hdr) (decode repair hdr) := by
  refine .atLeast fun payload hlen => ?_
  rw [StateT.run_bind,map_bind]
  have hsources : Agree payload
      (forTimes (fun idx => do return (← u32At payload idx RtcpError.truncated,idx + 4)) hdr.rcOrFmt.toNat 0)
      ((readMany u32 hdr.rcOrFmt.toNat).run payload) :=
    forTimes_fixed (fun idx h => by rw [u32At_eq h,pure_bind]) (fun idx h => run_u32 h) _ (by omega)
  refine hsources.finish fun sources idx hidx _ => ?_
  dsimp only
  rw [reasonIndexed_eq repair payload hidx,StateT.run_bind]
  cases (decodeReason repair).run (payload.drop idx) <;> rfl

theorem App.nameOf_eq {b : Bytes} (h : 8 ≤ b.length) : ∃ name, App.nameOf ((b.take 8).drop 4) = pure name ∧
    name4.run (b.drop 4) = .ok (name,b.drop 8) := by
  have hname : (b.take 8).drop 4 = [b.getD 4 0,b.getD 5 0,b.getD 6 0,b.getD 7 0] := by
    rw [List.drop_take,drop_cons (by omega : 4 < b.length),drop_cons (by omega : 5 < b.length),
      drop_cons (by omega : 6 < b.length),drop_cons (by omega : 7 < b.length)]
    rfl
  refine ⟨#v[b.getD 4 0,b.getD 5 0,b.getD 6 0,b.getD 7 0],by rw [hname]; rfl,?_⟩
  simp (disch := omega) only [name4,StateT.run_bind,run_u8,ok_bind,StateT.run_pure,Nat.reduceAdd]
  rfl

theorem App.takes : Takes (decodeIndexed hdr) (decode hdr) := by
  refine .atLeast fun payload hlen => ?_
  obtain ⟨name,hname,hrun⟩ := App.nameOf_eq (Nat.not_lt.mp hlen)
  simp (disch := omega) only [u32At_eq,slice_eq,sliceFrom_eq,hname,pure_bind,StateT.run_bind,u32_start,
    hrun,ok_bind]
  rfl

theorem GenericNack.entriesIndexed_eq (h : 8 ≤ payload.length) :
    entriesIndexed payload = some (readAll entry entry_consumes 4 .truncated (payload.drop 8)) := by
  refine whileLeft_eq (fun idx hidx => ?_) h
  rw [entryIndexed,entry]
  simp (disch := omega) only [u16At_eq,pure_bind,StateT.run_bind,run_u16,ok_bind,StateT.run_pure]
  exact .ok _ (by omega)

theorem GenericNack.takes : Takes (decodeIndexed hdr) (decode hdr) := by
  refine .atLeast fun payload hlen => ?_
  simp (disch := omega) only [u32At_eq,pure_bind,StateT.run_bind,u32_start,run_u32,ok_bind,Nat.reduceAdd]
  split
  · rw [entriesIndexed_eq payload (by omega),StateT.run_bind,run_rest,ok_bind,StateT.run_bind,
      StateT.run_lift]
    cases readAll entry entry_consumes 4 .truncated (payload.drop 8) <;> rfl
  · rfl

theorem PictureLossIndication.takes : Takes (decodeIndexed hdr) (decode hdr) := by
  refine .atLeast fun payload hlen => ?_
  simp (disch := omega) only [u32At_eq,pure_bind,StateT.run_bind,u32_start,run_u32,ok_bind,Nat.reduceAdd]
  split <;> rfl
end Packets

namespace RtcpPacket
variable {b : Bytes} {total : ℕ}
def decodeBodyIndexed (repair : Bytes → String) (hdr : CommonHeader) (payload : Bytes) :
    Checked RtcpError RtcpPacket :=
  if hdr.pt = PT_SR then SenderReport.decodeIndexed hdr payload
  else if hdr.pt = PT_RR then ReceiverReport.decodeIndexed hdr payload
  else if hdr.pt = PT_SDES then Sdes.decodeIndexed repair hdr payload
  else if hdr.pt = PT_BYE then Bye.decodeIndexed repair hdr payload
  else if hdr.pt = PT_APP then App.decodeIndexed hdr payload
  else if hdr.pt = PT_RTPFB then GenericNack.decodeIndexed hdr payload
  else if hdr.pt = PT_PSFB then PictureLossIndication.decodeIndexed hdr payload
  else throw (.unknownPacketType hdr.pt)

def stripPaddingIndexed (hdr : CommonHeader) (pktBytes : Bytes) : Checked RtcpError Bytes := do
  let payload ← sliceFrom pktBytes 4
  if hdr.padding then
    if payload.isEmpty then throw .paddingTooShort
    else
      match pktBytes.getLast? with
      | none => throw .invalid
      | some last =>
        let pad := last.toNat
        if pad = 0 ∨ pad > payload.length then throw .paddingTooShort
        else slice payload 0 (← sub payload.length pad)
  else return payload

def decodeOneIndexed (repair : Bytes → String) (buf : Bytes) (idx : ℕ) : Checked RtcpError (RtcpPacket × ℕ) := do
  let (hdr,total) ← CommonHeader.decodeIndexed (← sliceFrom buf idx)
  if total < 4 ∨ idx + total > buf.length then throw .truncated
  else
    let pktBytes ← slice buf idx (idx + total)
    let payload ← stripPaddingIndexed hdr pktBytes
    let pkt ← decodeBodyIndexed repair hdr payload
    return (pkt,idx + total)

theorem decodeOneIndexed_advances (repair : Bytes → String) (buf : Bytes) : Advances (decodeOneIndexed repair buf) := by
  intro idx pkt idx' h
  obtain ⟨b,-,h⟩ := bind_eq_pure.mp h
  obtain ⟨⟨hdr,total⟩,-,h⟩ := bind_eq_pure.mp h
  dsimp only at h
  split at h
  · cases h
  · next hbounds =>
    obtain ⟨pktBytes,-,h⟩ := bind_eq_pure.mp h
    obtain ⟨payload,-,h⟩ := bind_eq_pure.mp h
    obtain ⟨pkt',-,h⟩ := bind_eq_pure.mp h
    cases h
    omega

def decodeCompoundIndexed (repair : Bytes → String) (buf : Bytes) : Checked RtcpError (List RtcpPacket) :=
  if buf.length < 4 then throw .tooShort
  else whileLeft buf.length 4 (by decide) .tooShort (decodeOneIndexed repair buf)
    (decodeOneIndexed_advances repair buf) 0

section Agreement
variable (repair : Bytes → String) (hdr : CommonHeader)
theorem decodeBodyIndexed_takes : Takes (decodeBodyIndexed repair hdr) (decodeBody repair hdr) := by
  intro payload
  rw [decodeBodyIndexed,decodeBody]
  split
  · exact SenderReport.takes hdr payload
  split
  · exact ReceiverReport.takes hdr payload
  split
  · exact Sdes.takes repair hdr payload
  split
  · exact Bye.takes repair hdr payload
  split
  · exact App.takes hdr payload
  split
  · exact GenericNack.takes hdr payload
  split
  · exact PictureLossIndication.takes hdr payload
  · rfl

theorem stripPaddingIndexed_eq {pktBytes : Bytes} (h : 4 ≤ pktBytes.length) :
    stripPaddingIndexed hdr pktBytes = some (stripPadding hdr pktBytes) := by
  rw [stripPaddingIndexed,stripPadding,sliceFrom_eq h,pure_bind]
  dsimp only
  split
  · split
    · rfl
    · cases hlast : pktBytes.getLast? with
      | none => rfl
      | some last =>
        dsimp only
        split
        · rfl
        · rw [sub_eq (by omega),pure_bind,slice_eq (Nat.zero_le _) (by omega)]
          rfl
  · rfl

theorem decodeOneIndexed_agree (hidx : idx ≤ buf.length) :
    Agree buf (decodeOneIndexed repair buf idx) ((decodeOne repair).run (buf.drop idx)) := by
  rw [decodeOneIndexed,sliceFrom_eq hidx,pure_bind,CommonHeader.decodeIndexed_eq]
  change Agree buf _ (CommonHeader.decode (buf.drop idx) >>= _)
  cases CommonHeader.decode (buf.drop idx) with
  | error e => exact .error e
  | ok r =>
    obtain ⟨hdr,total⟩ := r
    change Agree buf (if total < 4 ∨ idx + total > buf.length then throw RtcpError.truncated else _) _
    rw [ok_bind]
    dsimp only
    by_cases hbounds : total < 4 ∨ idx + total > buf.length
    · rw [if_pos hbounds,if_pos (by rw [List.length_drop]; omega)]
      exact .error _
    · rw [if_neg hbounds,if_neg (by rw [List.length_drop]; omega)]
      have hlen : ((buf.take (idx + total)).drop idx).length = total := by
        rw [List.length_drop,List.length_take]
        omega
      rw [slice_eq (by omega) (by omega),pure_bind,stripPaddingIndexed_eq hdr (by omega),List.drop_take,
        Nat.add_sub_cancel_left]
      cases stripPadding hdr ((buf.drop idx).take total) with
      | error e => exact .error e
      | ok payload =>
        change Agree buf (decodeBodyIndexed repair hdr payload >>= _) ((decodeBody repair hdr).run payload >>= _)
        rw [decodeBodyIndexed_takes]
        cases (decodeBody repair hdr).run payload with
        | error e => exact .error e
        | ok r =>
          rw [List.drop_drop]
          exact .ok r.1 (by omega)

/-- The loop over the buffer has a result for every byte string, the one of the list model. -/
theorem decodeCompoundIndexed_eq (buf : Bytes) :
    decodeCompoundIndexed repair buf = some (decodeCompound repair buf) := by
  rw [decodeCompoundIndexed,decodeCompound]
  split
  · rfl
  · exact whileLeft_eq (fun _ hidx => decodeOneIndexed_agree repair (by omega)) (Nat.zero_le _)
end Agreement

theorem commonHeader_eq_ok : CommonHeader.decode b = .ok (hdr,total) ↔ 4 ≤ b.length ∧ b.getD 0 0 >>> 6 = RTCP_VERSION ∧
      total = ((readU16 b 2).toNat + 1) * 4 ∧ total ≤ b.length ∧
      hdr = ⟨b.getD 0 0 >>> 6,(b.getD 0 0 >>> 5) &&& 1 != 0,b.getD 0 0 &&& 0x1F,b.getD 1 0,readU16 b 2⟩ := by
  unfold CommonHeader.decode
  split
  · next hlen => exact iff_of_false nofun fun h => absurd h.1 (by omega)
  · next hlen =>
    dsimp only
    split
    · next hversion => exact iff_of_false nofun fun h => hversion h.2.1
    · next hversion =>
      split
      · next hshort => exact iff_of_false nofun fun h => absurd h.2.2.2.1 (by omega)
      · next hlong =>
        rw [Except.ok.injEq,Prod.mk.injEq]
        constructor
        · rintro ⟨rfl,rfl⟩
          exact ⟨by omega,not_ne_iff.mp hversion,rfl,by omega,rfl⟩
        · rintro ⟨-,-,rfl,-,rfl⟩
          exact ⟨rfl,rfl⟩

theorem commonHeader_append (h : CommonHeader.decode b = .ok (hdr,total))
    (tail : Bytes) : CommonHeader.decode (b.take total ++ tail) = .ok (hdr,total) := by
  obtain ⟨hlen,hversion,htotal,hle,hhdr⟩ := commonHeader_eq_ok.mp h
  have htake : (b.take total).length = total := by
    rw [List.length_take]
    omega
  have hbyte : ∀ i < 4, (b.take total ++ tail).getD i 0 = b.getD i 0 := by
    intro i hi
    simp only [List.getD_eq_getElem?_getD]
    rw [List.getElem?_append_left (by omega),List.getElem?_take_of_lt (by omega)]
  have hword : readU16 (b.take total ++ tail) 2 = readU16 b 2 := by
    rw [readU16,readU16,hbyte 2 (by omega),hbyte 3 (by omega)]
  refine commonHeader_eq_ok.mpr ⟨by rw [List.length_append]; omega,?_,?_,by rw [List.length_append]; omega,?_⟩
  · rw [hbyte 0 (by omega)]
    exact hversion
  · rw [hword]
    exact htotal
  · rw [hword,hbyte 0 (by omega),hbyte 1 (by omega)]
    exact hhdr

section Partition
variable {repair : Bytes → String} {b : Bytes} {pkt : RtcpPacket}
theorem decodeOne_eq_ok {left : Bytes} : (decodeOne repair).run b = .ok (pkt,left) ↔
    ∃ hdr total payload unread, CommonHeader.decode b = .ok (hdr,total) ∧ ¬ (total < 4 ∨ b.length < total) ∧
      stripPadding hdr (b.take total) = .ok payload ∧ (decodeBody repair hdr).run payload = .ok (pkt,unread) ∧
      left = b.drop total := by
  change (CommonHeader.decode b >>= _) = _ ↔ _
  rw [bind_eq_ok]
  constructor
  · rintro ⟨⟨hdr,total⟩,hheader,h⟩
    dsimp only at h
    split at h
    · cases h
    · next hbounds =>
      obtain ⟨-,-,h⟩ := bind_eq_ok.mp h
      obtain ⟨payload,hpayload,h⟩ := bind_eq_ok.mp h
      obtain ⟨⟨pkt',unread⟩,hbody,h⟩ := bind_eq_ok.mp h
      cases h
      exact ⟨hdr,total,payload,unread,hheader,hbounds,hpayload,hbody,rfl⟩
  · rintro ⟨hdr,total,payload,unread,hheader,hbounds,hpayload,hbody,rfl⟩
    refine ⟨_,hheader,?_⟩
    dsimp only
    rw [if_neg hbounds]
    exact bind_eq_ok.mpr ⟨payload,hpayload,bind_eq_ok.mpr ⟨_,hbody,rfl⟩⟩

theorem decodeOne_local : (decodeOne repair).Local 4 := by
  intro b pkt left h
  obtain ⟨hdr,total,payload,unread,hheader,hbounds,hpayload,hbody,rfl⟩ := decodeOne_eq_ok.mp h
  have hlen : (b.take total).length = total := by
    rw [List.length_take]
    omega
  refine ⟨b.take total,(List.take_append_drop total b).symm,by omega,fun tail => ?_⟩
  refine decodeOne_eq_ok.mpr ⟨hdr,total,payload,unread,commonHeader_append hheader tail,?_,?_,hbody,?_⟩
  · rw [List.length_append]
    omega
  · rw [List.take_left' hlen]
    exact hpayload
  · rw [List.drop_left' hlen]

theorem length_of_reads {part : Bytes} (h : Reads (decodeOne repair) part pkt) :
    part.length = ((readU16 part 2).toNat + 1) * 4 := by
  have hrun := h []
  rw [List.append_nil] at hrun
  obtain ⟨hdr,total,payload,unread,hheader,hbounds,-,-,hleft⟩ := decodeOne_eq_ok.mp hrun
  obtain ⟨-,-,rfl,-,-⟩ := commonHeader_eq_ok.mp hheader
  have hend := List.drop_eq_nil_iff.mp hleft.symm
  omega

theorem decodeCompound_eq_ok_iff {pkts : List RtcpPacket} : decodeCompound repair b = .ok pkts ↔
    pkts ≠ [] ∧ ∃ parts, b = parts.flatten ∧
      List.Forall₂ (fun c x => 4 ≤ c.length ∧ Reads (decodeOne repair) c x) parts pkts := by
  unfold decodeCompound
  split
  · next hlen =>
    refine iff_of_false (fun h => by cases h) ?_
    rintro ⟨hne,parts,rfl,hparts⟩
    cases hparts with
    | nil => exact hne rfl
    | cons hpart _ =>
      rw [List.flatten_cons,List.length_append] at hlen
      omega
  · next hlen =>
    rw [readAll_eq_ok_iff decodeOne_local (by decide)]
    refine ⟨?_,And.right⟩
    rintro ⟨parts,rfl,hparts⟩
    refine ⟨?_,parts,rfl,hparts⟩
    rintro rfl
    cases hparts
    exact hlen (by decide)
end Partition

/-- For every byte string the decoder ends without an access out of range; what is accepted
stays accepted side by side; and an accepted string is made up of its packets, each of which is
accepted alone and as long as its own header says. -/
theorem compound_partition (repair : Bytes → String) :
    (∀ buf, decodeCompoundIndexed repair buf = some (decodeCompound repair buf)) ∧
    (∀ a b as bs, decodeCompound repair a = .ok as → decodeCompound repair b = .ok bs →
      decodeCompound repair (a ++ b) = .ok (as ++ bs)) ∧
    ∀ buf pkts, decodeCompound repair buf = .ok pkts → ∃ parts : List Bytes, buf = parts.flatten ∧
      List.Forall₂ (fun part pkt => part.length = ((readU16 part 2).toNat + 1) * 4 ∧
        decodeCompound repair part = .ok [pkt]) parts pkts := by
  refine ⟨decodeCompoundIndexed_eq repair,?_,?_⟩
  · intro a b as bs ha hb
    obtain ⟨hne,parts,rfl,hparts⟩ := decodeCompound_eq_ok_iff.mp ha
    obtain ⟨-,parts',rfl,hparts'⟩ := decodeCompound_eq_ok_iff.mp hb
    refine decodeCompound_eq_ok_iff.mpr ⟨by simp [hne],parts ++ parts',by simp,?_⟩
    exact List.rel_append hparts hparts'
  · intro buf pkts h
    obtain ⟨-,parts,rfl,hparts⟩ := decodeCompound_eq_ok_iff.mp h
    refine ⟨parts,rfl,hparts.imp fun part pkt hpart => ⟨length_of_reads hpart.2,?_⟩⟩
    exact decodeCompound_eq_ok_iff.mpr ⟨by simp,[part],by simp, .cons hpart .nil⟩
end RtcpPacket
end RustyRtc.Rtcp
