import Mathlib.Data.Nat.Digits.Lemmas
import Mathlib.Data.Set.Disjoint
import Mathlib.Order.CompletePartialOrder
import RustyRtc.Foundation.Numbering
import RustyRtc.Rtp.SendStream
import RustyRtc.Srtp.Sealed

/-! # No counter block is used twice

In counter mode a packet uses the blocks that follow its initial one, as 128-bit numbers. The initial
block leaves its last two bytes zero, so packets below 2^20 bytes stay within blocks of their own as
long as source and index differ. The index counts the datagrams that reached the wire.
-/
namespace RustyRtc.Srtp
variable {i : ℕ} {index index' : UInt64} {salt : Vector UInt8 14} {ssrc ssrc' : UInt32}

def blockNumber (iv : Vector UInt8 16) : ℕ := Nat.ofDigits 256 (iv.toList.reverse.map UInt8.toNat)
def counterBlocks (iv : Vector UInt8 16) (n : ℕ) : Set ℕ :=
  {b | ∃ k, 16 * k < n ∧ b = (blockNumber iv + k) % 2 ^ 128}
theorem blockNumber_lt (iv : Vector UInt8 16) : blockNumber iv < 2 ^ 128 := by
  have h := Nat.ofDigits_lt_base_pow_length (b := 256) (l := iv.toList.reverse.map UInt8.toNat) (by decide) (by
    intro d hd
    obtain ⟨x,-,rfl⟩ := List.mem_map.mp hd
    exact x.toNat_lt)
  simpa [blockNumber] using h

theorem blockNumber_injective : Function.Injective blockNumber := by
  intro iv iv' h
  have hbytes (v : Vector UInt8 16) : ∀ d ∈ v.toList.reverse.map UInt8.toNat, d < 256 := by
    intro d hd
    obtain ⟨x,-,rfl⟩ := List.mem_map.mp hd
    exact x.toNat_lt
  have hdigits := Nat.ofDigits_inj_of_len_eq (by decide) (by simp) (hbytes iv) (hbytes iv') h
  have hlist := List.map_injective_iff.mpr (fun x y hxy => UInt8.toNat_inj.mp hxy) hdigits
  exact Vector.toList_inj.mp (List.reverse_injective hlist)

theorem getElem_computeIv (salt : Vector UInt8 14) (ssrc : UInt32) (index : UInt64) (j : ℕ) (hj : j < 16) :
    (computeIv salt ssrc index)[j] = salt.toList.getD j 0
      ^^^ (if 4 ≤ j ∧ j < 8 then (beBytes32 ssrc).getD (j - 4) 0 else 0)
      ^^^ (if 8 ≤ j ∧ j < 14 then (beBytes64 index).getD (2 + (j - 8)) 0 else 0) := by
  simp [computeIv]
theorem computeIv_ssrc (salt : Vector UInt8 14) (ssrc : UInt32) (index : UInt64) (hi : i < 4) :
    (computeIv salt ssrc index)[4 + i] = salt.toList.getD (4 + i) 0 ^^^ (beBytes32 ssrc).getD i 0 := by
  rw [getElem_computeIv,if_pos (by omega),if_neg (by omega),Nat.add_sub_cancel_left,UInt8.xor_zero]
theorem computeIv_index (salt : Vector UInt8 14) (ssrc : UInt32) (index : UInt64) (hi : i < 6) :
    (computeIv salt ssrc index)[8 + i] = salt.toList.getD (8 + i) 0 ^^^ (beBytes64 index).getD (2 + i) 0 := by
  rw [getElem_computeIv,if_neg (by omega),if_pos (by omega),Nat.add_sub_cancel_left,UInt8.xor_zero]

theorem blockNumber_computeIv (salt : Vector UInt8 14) (ssrc : UInt32) (index : UInt64) :
    65536 ∣ blockNumber (computeIv salt ssrc index) := by
  have hlast : ∀ j, 14 ≤ j → (hj : j < 16) → (computeIv salt ssrc index)[j] = 0 := by
    intro j hlow hj
    rw [getElem_computeIv,if_neg (by omega),if_neg (by omega)]
    simp [List.getD_eq_getElem?_getD,hlow]
  have hdigit : ∀ j < 2, ((computeIv salt ssrc index).toList.reverse.map UInt8.toNat)[j]? = some 0 := by
    intro j hj
    have hzero := hlast (15 - j) (by omega) (by omega)
    rw [List.getElem?_map,List.getElem?_reverse (by simp; omega)]
    simp [hzero,show 15 - j < 16 by omega]
  rw [blockNumber]
  generalize (computeIv salt ssrc index).toList.reverse.map UInt8.toNat = digits at hdigit
  match digits, hdigit 0 (by decide), hdigit 1 (by decide) with
  | _ :: _ :: rest, rfl, rfl =>
    refine ⟨Nat.ofDigits 256 rest,?_⟩
    rw [Nat.ofDigits_cons,Nat.ofDigits_cons]
    omega

theorem beBytes64_getD_of_lt (h : index.toNat < 2 ^ 48) :
    (beBytes64 index).getD 0 0 = 0 ∧ (beBytes64 index).getD 1 0 = 0 := by
  constructor
  · apply UInt8.toNat_inj.mp
    simp [beBytes64,beBytes32,beBytes16,Nat.shiftRight_eq_div_pow]
    omega
  · apply UInt8.toNat_inj.mp
    simp [beBytes64,beBytes32,beBytes16,Nat.shiftRight_eq_div_pow]
    omega

/-- Salt apart, the initial block shows the source and the index in bytes of their own. -/
theorem computeIv_inj (hindex : index.toNat < 2 ^ 48) (hindex' : index'.toNat < 2 ^ 48)
    (h : computeIv salt ssrc index = computeIv salt ssrc' index') : ssrc = ssrc' ∧ index = index' := by
  have hbyte (j : ℕ) (hj : j < 16) : (computeIv salt ssrc index)[j] = (computeIv salt ssrc' index')[j] := by
    simp only [h]
  constructor
  · have hs : ∀ i < 4, (beBytes32 ssrc).getD i 0 = (beBytes32 ssrc').getD i 0 := by
      intro i hi
      have hj := hbyte (4 + i) (by omega)
      rw [computeIv_ssrc salt ssrc index hi,computeIv_ssrc salt ssrc' index' hi] at hj
      exact (UInt8.xor_right_inj _).mp hj
    rw [← readU32_beBytes32 ssrc [],← readU32_beBytes32 ssrc' []]
    simp only [List.append_nil,readU32,readU16]
    rw [hs 0 (by decide),hs (0 + 1) (by decide),hs (0 + 2) (by decide),hs (0 + 2 + 1) (by decide)]
  · have hs : ∀ i < 6, (beBytes64 index).getD (2 + i) 0 = (beBytes64 index').getD (2 + i) 0 := by
      intro i hi
      have hj := hbyte (8 + i) (by omega)
      rw [computeIv_index salt ssrc index hi,computeIv_index salt ssrc' index' hi] at hj
      exact (UInt8.xor_right_inj _).mp hj
    obtain ⟨h0,h1⟩ := beBytes64_getD_of_lt hindex
    obtain ⟨h0',h1'⟩ := beBytes64_getD_of_lt hindex'
    rw [← readU64_beBytes64 index [],← readU64_beBytes64 index' []]
    simp only [List.append_nil,readU64,readU32,readU16,Nat.zero_add]
    rw [h0,h1,h0',h1',hs 0 (by decide),hs 1 (by decide),hs 2 (by decide),hs 3 (by decide),hs 4 (by decide),
      hs 5 (by decide)]

/-- Packets of different source or index use no common counter block. -/
theorem disjoint_counterBlocks {n n' : ℕ}
    (hindex : index.toNat < 2 ^ 48) (hindex' : index'.toNat < 2 ^ 48) (hn : n < 2 ^ 20) (hn' : n' < 2 ^ 20)
    (hne : ssrc ≠ ssrc' ∨ index ≠ index') :
    Disjoint (counterBlocks (computeIv salt ssrc index) n) (counterBlocks (computeIv salt ssrc' index') n') := by
  rw [Set.disjoint_left]
  rintro b ⟨k,hk,hb⟩ ⟨k',hk',hb'⟩
  obtain ⟨q,hq⟩ := blockNumber_computeIv salt ssrc index
  obtain ⟨q',hq'⟩ := blockNumber_computeIv salt ssrc' index'
  have hlt := blockNumber_lt (computeIv salt ssrc index)
  have hlt' := blockNumber_lt (computeIv salt ssrc' index')
  have hsame : blockNumber (computeIv salt ssrc index) = blockNumber (computeIv salt ssrc' index') := by
    omega
  obtain ⟨hssrc,hidx⟩ := computeIv_inj hindex hindex' (blockNumber_injective hsame)
  exact hne.elim (· hssrc) (· hidx)

namespace SrtpContext
def protectIv (ctx : SrtpContext) (ssrc : UInt32) (packet : Bytes) : Vector UInt8 16 :=
  computeIv ctx.sessionKeys.salt ssrc
    (packetIndex (ctx.getOrCreateRoc ssrc (readU16 packet 2)).2 (readU16 packet 2))
theorem getOrCreateRoc_remember_self (ctx : SrtpContext) (ssrc roc : UInt32) (seq : UInt16) :
    ((ctx.remember ssrc roc seq).getOrCreateRoc ssrc seq).2 = roc := by
  have hlast : (ctx.remember ssrc roc seq).lastSeqs ssrc = some seq := Function.update_self ..
  have hroc : (ctx.remember ssrc roc seq).rocs ssrc = some roc := Function.update_self ..
  simp only [getOrCreateRoc,hlast,hroc,Option.getD_some,UInt16.lt_irrefl,↓reduceIte]

theorem getOrCreateRoc_remember_of_ne (ctx : SrtpContext) {other : UInt32} (h : other ≠ ssrc) (roc : UInt32)
    (seq seq' : UInt16) :
    ((ctx.remember ssrc roc seq).getOrCreateRoc other seq').2 = (ctx.getOrCreateRoc other seq').2 := by
  have hlast : (ctx.remember ssrc roc seq).lastSeqs other = ctx.lastSeqs other := Function.update_of_ne h ..
  have hroc : (ctx.remember ssrc roc seq).rocs other = ctx.rocs other := Function.update_of_ne h ..
  simp only [getOrCreateRoc,hlast,hroc]
  split <;> rfl
end SrtpContext

theorem packetIndex_at_toNat (I : ℕ) : (packetIndex (rocAt I) (seqAt I)).toNat = I % 2 ^ 48 := by
  rw [packetIndex_toNat,rocAt_toNat,seqAt_toNat]
  omega

/-- Positions less than 2^48 apart have different indices. -/
theorem packetIndex_at_ne {I J : ℕ} (hlt : I < J) (hnear : J < I + 2 ^ 48) :
    packetIndex (rocAt I) (seqAt I) ≠ packetIndex (rocAt J) (seqAt J) := by
  intro h
  have hmod := congrArg UInt64.toNat h
  rw [packetIndex_at_toNat,packetIndex_at_toNat] at hmod
  omega

/-- The keystream that a datagram on the wire was encrypted with. -/
structure KeystreamUse where
  ssrc : UInt32
  iv : Vector UInt8 16
  length : ℕ
  deriving DecidableEq
def KeystreamUse.blocks (u : KeystreamUse) : Set ℕ := counterBlocks u.iv u.length
def KeystreamUse.StandsAt (salt : Vector UInt8 14) (u : KeystreamUse) (I : ℕ) : Prop :=
  u.iv = computeIv salt u.ssrc (packetIndex (rocAt I) (seqAt I)) ∧ u.length < 2 ^ 20
end RustyRtc.Srtp

namespace RustyRtc.Rtp
open Srtp SrtpContext

theorem RtpSendStream.sendRtpPayload_eq (P : Primitives) (st : RtpSendStream) (ctx : SrtpContext) (p : Payload) :
    st.sendRtpPayload P (some ctx) p =
      let encoded := RtpPacket.simpleHeader st.payloadType p.marker st.seq p.timestamp st.localSsrc ++ p.bytes
      let roc := ctx.getOrCreateRoc st.localSsrc st.seq
      if p.sent then ⟨{ st with
            lastPktSent := p.now
            seq := st.seq + 1
            packetCount := st.packetCount + 1
            octetCount := st.octetCount + UInt32.ofNat p.bytes.length
            timestamp := p.timestamp },
          some roc.1,some (sealPacket P roc.1.sessionKeys st.localSsrc roc.2 encoded), .ok ()⟩
      else ⟨st,some roc.1,none, .error .network⟩ := by
  have hencode := RtpPacket.encode_simple st.payloadType p.marker st.seq p.timestamp st.localSsrc p.bytes
  have hprotect := ctx.protect_wellFormed (P := P) (wellFormed_encode hencode)
  simp only [sendRtpPayload,packet,hencode,protect,hprotect,Prod.map,id]

namespace SendSide
variable {P : Primitives} {s : SendSide} {c : Call} {st : RtpSendStream} {ctx : SrtpContext} {next : UInt32 → ℕ}
def useOf (P : Primitives) (s : SendSide) (c : Call) : Option KeystreamUse :=
  match s.sendStreams c.localSsrc, s.srtpOutbound, (s.sendRtpPayload P c).2.1 with
  | some st, some ctx, some _ =>
    (st.packet c.payload).encode.toOption.map fun encoded =>
      ⟨c.localSsrc,ctx.protectIv c.localSsrc encoded,encoded.length - headerLen encoded⟩
  | _, _, _ => none
def uses (P : Primitives) : SendSide → List Call → List KeystreamUse
  | _, [] => []
  | s, c :: calls => (s.useOf P c).toList ++ uses P (s.sendRtpPayload P c).1 calls
theorem sendRtpPayload_of_none (h : s.sendStreams c.localSsrc = none) :
    s.sendRtpPayload P c = (s,none, .error (.sendStreamMissing c.localSsrc)) := by
  unfold sendRtpPayload
  split
  · rfl
  · next heq => simp [h] at heq

theorem sendRtpPayload_of_some (h : s.sendStreams c.localSsrc = some st) : s.sendRtpPayload P c =
      (s.put h (st.sendRtpPayload P s.srtpOutbound c.payload) (st.sendRtpPayload_localSsrc P _ _),
        (st.sendRtpPayload P s.srtpOutbound c.payload).datagram,
        (st.sendRtpPayload P s.srtpOutbound c.payload).result.mapError fun e => .sendStream e c.localSsrc) := by
  unfold sendRtpPayload
  split
  · next heq => simp [h] at heq
  · next heq =>
    obtain rfl := Option.some.inj (heq.symm.trans h)
    rfl

theorem srtpOutbound_sendRtpPayload (h : s.sendStreams c.localSsrc = some st) :
    (s.sendRtpPayload P c).1.srtpOutbound = (st.sendRtpPayload P s.srtpOutbound c.payload).srtpContext := by
  rw [sendRtpPayload_of_some h]
  rfl
theorem sendStreams_sendRtpPayload (h : s.sendStreams c.localSsrc = some st) : (s.sendRtpPayload P c).1.sendStreams =
      Function.update s.sendStreams c.localSsrc (some (st.sendRtpPayload P s.srtpOutbound c.payload).stream) := by
  rw [sendRtpPayload_of_some h]
  rfl
theorem datagram_sendRtpPayload (h : s.sendStreams c.localSsrc = some st) :
    (s.sendRtpPayload P c).2.1 = (st.sendRtpPayload P s.srtpOutbound c.payload).datagram := by
  rw [sendRtpPayload_of_some h]
theorem headerLen_simple (st : RtpSendStream) (p : Payload) :
    headerLen (RtpPacket.simpleHeader st.payloadType p.marker st.seq p.timestamp st.localSsrc ++ p.bytes) = 12 :=
  headerLen_of_ok (getRtpHeaderLen_simple ..)

theorem useOf_eq (hst : s.sendStreams c.localSsrc = some st) (hctx : s.srtpOutbound = some ctx) :
    s.useOf P c = if c.payload.sent then some ⟨c.localSsrc,computeIv ctx.sessionKeys.salt c.localSsrc
        (packetIndex (ctx.getOrCreateRoc c.localSsrc st.seq).2 st.seq),c.payload.bytes.length⟩ else none := by
  have hencode := RtpPacket.encode_simple st.payloadType c.payload.marker st.seq c.payload.timestamp st.localSsrc
    c.payload.bytes
  have hseq := (wellFormed_encode hencode).seq_eq
  have hlen := headerLen_simple st c.payload
  simp only [useOf,hst,hctx,datagram_sendRtpPayload hst,RtpSendStream.sendRtpPayload_eq]
  cases c.payload.sent with
  | false => rfl
  | true =>
    simp only [↓reduceIte,RtpSendStream.packet,hencode,Except.toOption,Option.map_some,hlen,hseq,
      protectIv,List.length_append]
    rw [show (RtpPacket.simpleHeader st.payloadType c.payload.marker st.seq c.payload.timestamp
      st.localSsrc).length = 12 from rfl,Nat.add_sub_cancel_left]

/-- Sealing leaves the header in clear and XORs the payload with the keystream of the initial block. -/
theorem sealPacket_simple (P : Primitives) (keys : SessionKeys) (roc : UInt32) (st : RtpSendStream) (p : Payload) :
    ∃ tag : Bytes, tag.length = authTagLen ∧ sealPacket P keys st.localSsrc roc
        (RtpPacket.simpleHeader st.payloadType p.marker st.seq p.timestamp st.localSsrc ++ p.bytes) =
      RtpPacket.simpleHeader st.payloadType p.marker st.seq p.timestamp st.localSsrc ++
        applyKeystream (P.keystream keys.encKey (computeIv keys.salt st.localSsrc (packetIndex roc st.seq))) p.bytes ++
        tag := by
  have hseq := (wellFormed_encode (RtpPacket.encode_simple st.payloadType p.marker st.seq p.timestamp st.localSsrc
    p.bytes)).seq_eq
  refine ⟨_,authTag_length _ _ _ _,congrArg (· ++ _) ?_⟩
  rw [sealedContent,hseq,headerLen_simple,cryptPayload]
  rfl

/-- Every datagram that a call puts on the wire is the fixed header of its packet, the payload given, XORed with the
keystream that the call is said to use, and a tag. -/
theorem datagram_of_use {d : Bytes} (hctx : s.srtpOutbound = some ctx) (hd : (s.sendRtpPayload P c).2.1 = some d) :
    ∃ (st : RtpSendStream) (u : KeystreamUse) (tag : Bytes), s.sendStreams c.localSsrc = some st ∧
      s.useOf P c = some u ∧ tag.length = 10 ∧
      d = RtpPacket.simpleHeader st.payloadType c.payload.marker st.seq c.payload.timestamp c.localSsrc ++
        applyKeystream (P.keystream ctx.sessionKeys.encKey u.iv) c.payload.bytes ++ tag := by
  cases hst : s.sendStreams c.localSsrc with
  | none =>
    rw [sendRtpPayload_of_none hst] at hd
    cases hd
  | some st =>
    have hkey := s.keyed hst
    rw [datagram_sendRtpPayload hst,hctx,RtpSendStream.sendRtpPayload_eq] at hd
    cases hsent : c.payload.sent with
    | false => simp [hsent] at hd
    | true =>
      obtain ⟨tag,hlength,hseal⟩ :=
        sealPacket_simple P ctx.sessionKeys (ctx.getOrCreateRoc st.localSsrc st.seq).2 st c.payload
      simp only [hsent,↓reduceIte,Option.some.injEq] at hd
      rw [getOrCreateRoc_fst,remember_sessionKeys,hseal,hkey] at hd
      have hu := useOf_eq (P := P) hst hctx
      rw [if_pos hsent] at hu
      exact ⟨st,_,tag,rfl,hu,hlength,hd.symm⟩

def At (s : SendSide) (next : UInt32 → ℕ) : Prop :=
  ∀ ssrc st ctx, s.sendStreams ssrc = some st → s.srtpOutbound = some ctx →
    st.seq = seqAt (next ssrc) ∧ (ctx.getOrCreateRoc ssrc st.seq).2 = rocAt (next ssrc)

theorem exists_at (s : SendSide) : ∃ next, s.At next := by
  refine ⟨fun ssrc => (s.sendStreams ssrc).elim 0 fun st =>
    s.srtpOutbound.elim 0 fun ctx => (ctx.getOrCreateRoc ssrc st.seq).2.toNat * 65536 + st.seq.toNat,?_⟩
  intro ssrc st ctx hst hctx
  simp only [hst,hctx,Option.elim_some]
  have hseq := st.seq.toNat_lt
  have hroc := (ctx.getOrCreateRoc ssrc st.seq).2.toNat_lt
  constructor
  · apply UInt16.toNat_inj.mp
    rw [seqAt_toNat]
    omega
  · apply UInt32.toNat_inj.mp
    rw [rocAt_toNat]
    omega

theorem At.sendRtpPayload (h : s.At next) (hst : s.sendStreams c.localSsrc = some st)
    (hctx : s.srtpOutbound = some ctx) : (s.sendRtpPayload P c).1.At
      (if c.payload.sent then Function.update next c.localSsrc (next c.localSsrc + 1) else next) := by
  obtain ⟨hseq,hroc⟩ := h c.localSsrc st ctx hst hctx
  have hkey := s.keyed hst
  intro ssrc st' ctx' hst' hctx'
  rw [sendStreams_sendRtpPayload hst,hctx,RtpSendStream.sendRtpPayload_eq] at hst'
  rw [srtpOutbound_sendRtpPayload hst,hctx,RtpSendStream.sendRtpPayload_eq,hkey] at hctx'
  have hctx'' : ctx' = ctx.remember c.localSsrc (rocAt (next c.localSsrc)) st.seq := by
    rw [← hroc,← getOrCreateRoc_fst]
    cases hsent : c.payload.sent with
    | true | false => simpa [hsent,eq_comm] using hctx'
  by_cases hssrc : ssrc = c.localSsrc
  · subst hssrc
    cases hsent : c.payload.sent with
    | true =>
      have hst'' : st'.seq = st.seq + 1 := by
        simp only [hsent,↓reduceIte,Function.update_self,Option.some.injEq] at hst'
        rw [← hst']
      have hnext : st.seq + 1 = seqAt (next c.localSsrc + 1) := by
        rw [hseq,seqAt,seqAt,UInt16.ofNat_add]
        rfl
      simp only [↓reduceIte,Function.update_self]
      rw [hst'',hnext,hctx'',hseq,getOrCreateRoc_eq (expects_remember ..)]
      exact ⟨rfl,rfl⟩
    | false =>
      have hst'' : st = st' := by
        simpa [hsent] using hst'
      subst hst''
      simp only [Bool.false_eq_true,↓reduceIte]
      rw [hctx'',getOrCreateRoc_remember_self]
      exact ⟨hseq,rfl⟩
  · have hold : s.sendStreams ssrc = some st' := by
      rwa [Function.update_of_ne hssrc] at hst'
    have hnext : (if c.payload.sent then Function.update next c.localSsrc (next c.localSsrc + 1) else next) ssrc =
        next ssrc := by
      split
      · exact Function.update_of_ne hssrc _ _
      · rfl
    rw [hnext,hctx'',getOrCreateRoc_remember_of_ne ctx hssrc]
    exact h ssrc st' ctx hold hctx

theorem sessionKeys_of_call (hctx : s.srtpOutbound = some ctx) :
    ∃ ctx', (s.sendRtpPayload P c).1.srtpOutbound = some ctx' ∧ ctx'.sessionKeys = ctx.sessionKeys := by
  cases hst : s.sendStreams c.localSsrc with
  | none =>
    rw [sendRtpPayload_of_none hst]
    exact ⟨ctx,hctx,rfl⟩
  | some st =>
    rw [srtpOutbound_sendRtpPayload hst,hctx,RtpSendStream.sendRtpPayload_eq]
    refine ⟨(ctx.getOrCreateRoc st.localSsrc st.seq).1,?_,?_⟩
    · cases hsent : c.payload.sent <;> rfl
    · rw [getOrCreateRoc_fst,remember_sessionKeys]

theorem numbered_uses {calls : List Call} (h : s.At next) (hctx : s.srtpOutbound = some ctx)
    (hlen : ∀ c ∈ calls, c.payload.bytes.length < 2 ^ 20) :
    Numbered KeystreamUse.ssrc (KeystreamUse.StandsAt ctx.sessionKeys.salt) next (s.uses P calls) := by
  induction calls generalizing s next ctx with
  | nil => trivial
  | cons c calls ih =>
    obtain ⟨ctx',hctx',hkeys⟩ := sessionKeys_of_call (P := P) (c := c) hctx
    have hrest : ∀ c ∈ calls, c.payload.bytes.length < 2 ^ 20 := fun c hc => hlen c (List.mem_cons_of_mem _ hc)
    rw [uses,← hkeys]
    cases hst : s.sendStreams c.localSsrc with
    | none =>
      have huse : s.useOf P c = none := by simp [useOf,hst]
      rw [huse]
      refine ih ?_ hctx' hrest
      rwa [sendRtpPayload_of_none hst]
    | some st =>
      have hnext := h.sendRtpPayload (P := P) hst hctx
      obtain ⟨hseq,hroc⟩ := h c.localSsrc st ctx hst hctx
      rw [useOf_eq hst hctx]
      cases hsent : c.payload.sent with
      | false =>
        rw [hsent] at hnext
        exact ih hnext hctx' hrest
      | true =>
        rw [hsent] at hnext
        refine ⟨⟨?_,hlen c List.mem_cons_self⟩,ih hnext hctx' hrest⟩
        rw [hkeys,← hseq,← hroc]

/-- No two datagrams on the wire use a common counter block: for any streams under different SSRCs that share one
outbound context, whatever state they are in, and any socket failures. -/
theorem no_keystream_reuse (P : Primitives) {s : SendSide} {ctx : SrtpContext} (hctx : s.srtpOutbound = some ctx)
    {calls : List Call} (hlen : ∀ c ∈ calls, c.payload.bytes.length < 2 ^ 20)
    (hcount : ∀ ssrc, entries KeystreamUse.ssrc (s.uses P calls) ssrc < 2 ^ 48) :
    (s.uses P calls).Pairwise fun u v => Disjoint u.blocks v.blocks := by
  obtain ⟨next,hat⟩ := s.exists_at
  have hnum := numbered_uses (P := P) hat hctx hlen
  have hindex (I : ℕ) : (packetIndex (rocAt I) (seqAt I)).toNat < 2 ^ 48 := by
    rw [packetIndex_at_toNat]
    exact Nat.mod_lt _ (by decide)
  refine (hnum.pairwise hcount).imp_of_mem ?_
  intro u v hu hv hpair
  by_cases hssrc : u.ssrc = v.ssrc
  · obtain ⟨I,J,hlt,hnear,⟨hiv,hn⟩,hiv',hn'⟩ := hpair hssrc
    rw [KeystreamUse.blocks, KeystreamUse.blocks, hiv, hiv']
    exact disjoint_counterBlocks (hindex I) (hindex J) hn hn' (Or.inr (packetIndex_at_ne hlt hnear))
  · obtain ⟨I,-,-,hiv,hn⟩ := hnum.stamp hu
    obtain ⟨J,-,-,hiv',hn'⟩ := hnum.stamp hv
    rw [KeystreamUse.blocks, KeystreamUse.blocks, hiv, hiv']
    exact disjoint_counterBlocks (hindex I) (hindex J) hn hn' (Or.inl hssrc)

def twoStreams : SendSide where
  srtpOutbound := some ⟨⟨.replicate 16 1, .replicate 20 2, .replicate 14 3⟩,fun _ => none,fun _ => none,fun _ => none⟩
  sendStreams ssrc :=
    if ssrc = 5 then some (.new 96 5 65535 0 0) else if ssrc = 9 then some (.new 0 9 7 0 0) else none
  keyed := by
    intro ssrc st h
    split at h
    · next hssrc => rw [hssrc, ← Option.some.inj h]; rfl
    · split at h
      · next hssrc => rw [hssrc, ← Option.some.inj h]; rfl
      · cases h

/-- The socket refuses the first packet after the wrap, which is then sent again with other contents. -/
def callsOverWrap : List Call :=
  [⟨5,⟨[1],0,true,true,0⟩⟩,⟨9,⟨[2,2],0,true,true,0⟩⟩,⟨5,⟨[3],1,true,false,1⟩⟩,⟨5,⟨[4],2,true,true,2⟩⟩]

theorem no_keystream_reuse_over_wrap : (twoStreams.uses plainPrimitives callsOverWrap).length = 3 ∧
    (twoStreams.uses plainPrimitives callsOverWrap).Pairwise fun u v => Disjoint u.blocks v.blocks := by
  have hlength : (twoStreams.uses plainPrimitives callsOverWrap).length = 3 := by decide +kernel
  refine ⟨hlength,no_keystream_reuse plainPrimitives rfl (by decide) fun ssrc => ?_⟩
  have hle : entries KeystreamUse.ssrc (twoStreams.uses plainPrimitives callsOverWrap) ssrc ≤ _ :=
    List.countP_le_length
  omega

theorem datagram_of_use_first_call : ∃ d st u tag,
    (twoStreams.sendRtpPayload plainPrimitives ⟨5,⟨[1],0,true,true,0⟩⟩).2.1 = some d ∧
    twoStreams.sendStreams 5 = some st ∧ twoStreams.useOf plainPrimitives ⟨5,⟨[1],0,true,true,0⟩⟩ = some u ∧
    d = RtpPacket.simpleHeader st.payloadType true st.seq 0 5 ++
      applyKeystream (plainPrimitives.keystream (.replicate 16 1) u.iv) [1] ++ tag := by
  obtain ⟨d,hd⟩ : ∃ d, (twoStreams.sendRtpPayload plainPrimitives ⟨5,⟨[1],0,true,true,0⟩⟩).2.1 = some d := ⟨_,rfl⟩
  obtain ⟨st,u,tag,hst,hu,-,hdatagram⟩ := datagram_of_use rfl hd
  exact ⟨d,st,u,tag,hd,hst,hu,hdatagram⟩
end SendSide
end RustyRtc.Rtp
