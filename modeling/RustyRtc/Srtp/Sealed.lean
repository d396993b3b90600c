import RustyRtc.Srtp.Stream

/-! # Protected packets and runs of calls

A protected packet is its encrypted content followed by a tag. What `unprotect` does
with one is stated once, for arbitrary contents and tags; the sender's whole run is
the list of packets sealed at consecutive positions.
-/
namespace RustyRtc.Srtp
variable {n : ℕ}
def headerLen (packet : Bytes) : ℕ :=
  match getRtpHeaderLen packet with
  | .ok n => n
  | .error _ => 0
def sealedContent (P : Primitives) (keys : SessionKeys) (ssrc roc : UInt32) (packet : Bytes) : Bytes :=
  cryptPayload P keys ssrc (packetIndex roc (readU16 packet 2)) (headerLen packet) packet
def sealPacket (P : Primitives) (keys : SessionKeys) (ssrc roc : UInt32) (packet : Bytes) : Bytes :=
  sealedContent P keys ssrc roc packet ++ authTag P keys (sealedContent P keys ssrc roc packet) roc

variable {P : Primitives} {keys : SessionKeys} {ssrc roc : UInt32} {seq : UInt16} {packet : Bytes}
theorem headerLen_of_ok (h : getRtpHeaderLen packet = .ok n) : headerLen packet = n := by
  simp only [headerLen,h]
theorem WellFormed.headerLen_eq (h : WellFormed ssrc seq packet) : getRtpHeaderLen packet = .ok (headerLen packet) := by
  obtain ⟨n,hn⟩ := h.header
  rw [headerLen_of_ok hn]
  exact hn
theorem WellFormed.length_ge (h : WellFormed ssrc seq packet) : 12 ≤ packet.length := by
  have hb := getRtpHeaderLen_bounds h.headerLen_eq
  omega

theorem WellFormed.replacePayload (h : WellFormed ssrc seq packet) (body : Bytes) :
    WellFormed ssrc seq (packet.take (headerLen packet) ++ body) ∧
      headerLen (packet.take (headerLen packet) ++ body) = headerLen packet := by
  obtain ⟨hmin,hmax⟩ := getRtpHeaderLen_bounds h.headerLen_eq
  have hlen : (packet.take (headerLen packet)).length = headerLen packet := by
    rw [List.length_take]
    omega
  have hsplit := List.take_append_drop (headerLen packet) packet
  have hold : getRtpHeaderLen (packet.take (headerLen packet) ++ packet.drop (headerLen packet)) =
      .ok (packet.take (headerLen packet)).length := by
    rw [hsplit,hlen]
    exact h.headerLen_eq
  have hnew := getRtpHeaderLen_append hold body
  have hseq : readU16 (packet.take (headerLen packet)) 2 = seq := by
    rw [← h.seq_eq]
    conv_rhs => rw [← hsplit]
    exact (readU16_append (by omega) _).symm
  have hssrc : readU32 (packet.take (headerLen packet)) 8 = ssrc := by
    rw [← h.ssrc_eq]
    conv_rhs => rw [← hsplit]
    exact (readU32_append (by omega) _).symm
  refine ⟨⟨⟨_,hnew⟩,?_,?_⟩,?_⟩
  · rw [readU16_append (by omega),hseq]
  · rw [readU32_append (by omega),hssrc]
  · exact (headerLen_of_ok hnew).trans hlen

theorem cryptPayload_cryptPayload (index : UInt64) (hn : n ≤ packet.length) :
    cryptPayload P keys ssrc index n (cryptPayload P keys ssrc index n packet) = packet := by
  have hlen : (packet.take n).length = n := by
    rw [List.length_take]
    omega
  unfold cryptPayload
  rw [List.take_left' hlen,List.drop_left' hlen,applyKeystream_applyKeystream,List.take_append_drop]

theorem sealedContent_wellFormed (roc : UInt32) (h : WellFormed ssrc seq packet) :
    WellFormed ssrc seq (sealedContent P keys ssrc roc packet) := (h.replacePayload _).1

theorem cryptPayload_sealedContent (h : WellFormed ssrc seq packet) :
    cryptPayload P keys ssrc (packetIndex roc seq) (headerLen (sealedContent P keys ssrc roc packet))
      (sealedContent P keys ssrc roc packet) = packet := by
  have hlen : headerLen (sealedContent P keys ssrc roc packet) = headerLen packet := (h.replacePayload _).2
  rw [hlen]
  unfold sealedContent
  rw [h.seq_eq]
  exact cryptPayload_cryptPayload _ (getRtpHeaderLen_bounds h.headerLen_eq).2

namespace SrtpContext
variable {position : ℕ} {packets : List Bytes}
theorem protect_wellFormed (ctx : SrtpContext) (h : WellFormed ssrc seq packet) :
    ctx.protect P ssrc packet = ((ctx.getOrCreateRoc ssrc seq).1,
      .ok (sealPacket P (ctx.getOrCreateRoc ssrc seq).1.sessionKeys ssrc (ctx.getOrCreateRoc ssrc seq).2 packet)) := by
  have hlen : ¬ packet.length < 12 := by
    have := h.length_ge
    omega
  simp only [protect,if_neg hlen,h.headerLen_eq,h.seq_eq,sealPacket,sealedContent]

theorem unprotect_wellFormed (ctx : SrtpContext) {content tag : Bytes}
    (h : WellFormed ssrc seq content) (htag : tag.length = authTagLen) : ctx.unprotect P (content ++ tag) =
      if (ctx.replayWindow ssrc).isReplay (packetIndex (ctx.estimateRoc ssrc seq) seq) then
        (ctx.touch ssrc, .error (replayDetected ssrc seq))
      else if authTag P ctx.sessionKeys content (ctx.estimateRoc ssrc seq) = tag then
        ((ctx.touch ssrc).accept ssrc (ctx.estimateRoc ssrc seq) seq,
          .ok (cryptPayload P ctx.sessionKeys ssrc (packetIndex (ctx.estimateRoc ssrc seq) seq)
            (headerLen content) content)) else (ctx.touch ssrc, .error "SRTP Auth Tag Mismatch") := by
  have hmin := h.length_ge
  have hlong : ¬ (content ++ tag).length < 12 + authTagLen := by
    rw [List.length_append]
    omega
  have hstart : (content ++ tag).length - authTagLen = content.length := by
    rw [List.length_append]
    omega
  have hcontent : ¬ content.length < 12 := by omega
  simp only [unprotect,if_neg hlong,hstart,List.take_left,List.drop_left,if_neg hcontent,
    h.seq_eq,h.ssrc_eq,touch_replayWindow,touch_sessionKeys,h.headerLen_eq]
  congr 1
  by_cases heq : authTag P ctx.sessionKeys content (ctx.estimateRoc ssrc seq) = tag
  · simp [heq,(constantTimeEq_iff tag tag).mpr rfl]
  · have hne : constantTimeEq (authTag P ctx.sessionKeys content (ctx.estimateRoc ssrc seq)) tag = false := by
      apply Bool.eq_false_iff.mpr
      exact fun hc => heq ((constantTimeEq_iff _ _).mp hc)
    simp [heq,hne]

def protectAll (P : Primitives) (ctx : SrtpContext) (ssrc : UInt32) :
    List Bytes → SrtpContext × List (Except String Bytes)
  | [] => (ctx,[])
  | packet :: rest =>
    let (ctx,result) := ctx.protect P ssrc packet
    let (ctx,results) := protectAll P ctx ssrc rest
    (ctx,result :: results)

def unprotectAll (P : Primitives) (ctx : SrtpContext) : List Bytes → SrtpContext × List (Except String Bytes)
  | [] => (ctx,[])
  | packet :: rest =>
    let (ctx,result) := ctx.unprotect P packet
    let (ctx,results) := unprotectAll P ctx rest
    (ctx,result :: results)
theorem unprotectAll_append (P : Primitives) (ctx : SrtpContext) (xs ys : List Bytes) : ctx.unprotectAll P (xs ++ ys) =
      (((ctx.unprotectAll P xs).1.unprotectAll P ys).1,
        (ctx.unprotectAll P xs).2 ++ ((ctx.unprotectAll P xs).1.unprotectAll P ys).2) := by
  induction xs generalizing ctx with
  | nil => rfl
  | cons x xs ih => simp only [List.cons_append,unprotectAll,ih]
def RunFrom (ssrc : UInt32) (position : ℕ) (packets : List Bytes) : Prop :=
  ∀ (i : ℕ) (h : i < packets.length), WellFormed ssrc (seqAt (position + i)) packets[i]
theorem RunFrom.head (h : RunFrom ssrc position (packet :: packets)) :
    WellFormed ssrc (seqAt position) packet := h 0 (by simp)
theorem RunFrom.tail (h : RunFrom ssrc position (packet :: packets)) : RunFrom ssrc (position + 1) packets := by
  intro i hi
  have := h (i + 1) (by simpa using hi)
  rw [show position + 1 + i = position + (i + 1) by omega]
  simpa using this

theorem protectAll_run {ctx : SrtpContext} (hctx : ctx.Expects ssrc position) (hrun : RunFrom ssrc position packets) :
    (ctx.protectAll P ssrc packets).2 = (packets.mapIdx (fun i packet =>
      sealPacket P ctx.sessionKeys ssrc (rocAt (position + i)) packet)).map .ok := by
  induction packets generalizing ctx position with
  | nil => rfl
  | cons packet packets ih =>
    have hroc := getOrCreateRoc_eq hctx
    have hp := protect_wellFormed (P := P) ctx hrun.head
    rw [hroc] at hp
    have hrest := ih (expects_remember ctx ssrc position) hrun.tail
    have hshift : ∀ i, position + 1 + i = position + (i + 1) := by
      intro i
      omega
    simp only [hshift,remember_sessionKeys] at hrest
    simp only [protectAll,hp,hrest,remember_sessionKeys,List.mapIdx_cons,List.map_cons,Nat.add_zero]
end SrtpContext
end RustyRtc.Srtp
