import RustyRtc.Srtp.Delivery
import RustyRtc.Srtp.ReplayFreedom

/-! # Joining a stream

A receiver that has accepted nothing for a source takes the first packet that reaches it
to be in rollover period zero. It then stands a whole number of periods behind the true
position for the rest of the stream, and every later packet is checked under a counter
that is off by the same amount.
-/
namespace RustyRtc.Srtp
open SlidingWindow SrtpContext
variable {packet : Bytes} {S : Set ℕ} {is : List ℕ}
variable {P : Primitives} {ssrc : UInt32} {ctx : SrtpContext}
theorem SrtpContext.Untouched.unprotect (h : ctx.Untouched ssrc)
    (hother : ∀ pair ∈ ctx.acceptance P packet, pair.1 ≠ ssrc) :
    (ctx.unprotect P packet).1.Untouched ssrc ∧ (ctx.unprotect P packet).1.sessionKeys = ctx.sessionKeys := by
  cases hacc : ctx.acceptance P packet with
  | none =>
    obtain ⟨hkeys,hseqs,hwindow⟩ := unprotect_of_acceptance_none hacc
    refine ⟨⟨?_,?_⟩,hkeys⟩
    · rw [hseqs,h.lastSeq]
    · rw [hwindow,h.window]
  | some pair =>
    have hne : ssrc ≠ pair.1 := (hother pair hacc).symm
    obtain ⟨_,roc,seq,_,hafter⟩ := unprotect_of_acceptance_some hacc
    rw [hafter]
    refine ⟨⟨?_,?_⟩,rfl⟩
    · simp [accept,remember,hne,h.lastSeq]
    · rw [accept_replayWindow,if_neg hne,touch_replayWindow,h.window]

theorem SrtpContext.Untouched.unprotectAll (h : ctx.Untouched ssrc) {history : List Bytes}
    (hother : ∀ pair ∈ ctx.acceptances P history, pair.1 ≠ ssrc) : (ctx.unprotectAll P history).1.Untouched ssrc ∧
      (ctx.unprotectAll P history).1.sessionKeys = ctx.sessionKeys := by
  induction history generalizing ctx with
  | nil => exact ⟨h,rfl⟩
  | cons packet history ih =>
    obtain ⟨hstep,hkeys⟩ := h.unprotect
      (fun pair hpair => hother pair (List.mem_append_left _ (Option.mem_toList.mpr hpair)))
    obtain ⟨hrun,hrest⟩ := ih hstep (fun pair hpair => hother pair (List.mem_append_right _ hpair))
    exact ⟨hrun,hrest.trans hkeys⟩

/-- The tag of a packet sealed under `roc` is also its tag under `guess`. -/
def SameTag (P : Primitives) (keys : SessionKeys) (ssrc roc guess : UInt32) (packet : Bytes) : Prop :=
  authTag P keys (sealedContent P keys ssrc roc packet) guess =
    authTag P keys (sealedContent P keys ssrc roc packet) roc
def Accepts (result : Except String Bytes) : Prop := ∃ out, result = .ok out

theorem accepts_sealPacket_iff {K : ℕ} (roc : UInt32)
    (hwf : WellFormed ssrc (seqAt K) packet) (hest : ctx.estimateRoc ssrc (seqAt K) = rocAt K)
    (hwin : Tracks (ctx.replayWindow ssrc).view S) (hnew : ∀ m ∈ S, m < K)
    (hK : K < 2 ^ 48 ∨ ∃ m ∈ S, m < 2 ^ 48 ∧ K < m + 2 ^ 15) :
    (Accepts (ctx.unprotect P (sealPacket P ctx.sessionKeys ssrc roc packet)).2 ↔
      K < 2 ^ 48 ∧ SameTag P ctx.sessionKeys ssrc roc (rocAt K) packet) ∧
    (Accepts (ctx.unprotect P (sealPacket P ctx.sessionKeys ssrc roc packet)).2 →
      (ctx.unprotect P (sealPacket P ctx.sessionKeys ssrc roc packet)).1 =
        (ctx.touch ssrc).accept ssrc (rocAt K) (seqAt K)) := by
  have hcontent : WellFormed ssrc (seqAt K) (sealedContent P ctx.sessionKeys ssrc roc packet) :=
    sealedContent_wellFormed roc hwf
  have hun := unprotect_wellFormed (P := P) ctx hcontent
    (authTag_length P ctx.sessionKeys (sealedContent P ctx.sessionKeys ssrc roc packet) roc)
  have hno : ∀ e, ¬ Accepts (.error e) := by
    rintro e ⟨out,hout⟩
    cases hout
  rw [hest] at hun
  unfold sealPacket SameTag
  rw [hun]
  by_cases hrange : K < 2 ^ 48
  · rw [isReplay_eq_false hwin hrange (fun h => (hnew K h).false) (fun m hm => (hnew m hm).trans (by omega)),
      if_neg Bool.false_ne_true]
    split
    · next htag => exact ⟨iff_of_true ⟨_,rfl⟩ ⟨hrange,htag⟩,fun _ => rfl⟩
    · next htag => exact ⟨iff_of_false (hno _) (fun h => htag h.2),fun h => absurd h (hno _)⟩
  · obtain ⟨m,hm,hlow,hclose⟩ := hK.resolve_left hrange
    rw [isReplay_of_wrapped hwin hm hlow (Nat.le_of_not_lt hrange) hclose,if_pos rfl]
    exact ⟨iff_of_false (hno _) (fun h => hrange h.1),fun h => absurd h (hno _)⟩

theorem seqAt_sub_periods {i p : ℕ} (h : p * 65536 ≤ i) : seqAt (i - p * 65536) = seqAt i := by
  apply UInt16.toNat_inj.mp
  rw [seqAt_toNat,seqAt_toNat]
  omega

theorem accepts_inOrder_iff (packet : ℕ → Bytes) (p : ℕ) {last : ℕ}
    (hctx : ctx.Received ssrc (last - p * 65536) S) (hlast : last - p * 65536 ∈ S)
    (hnewest : ∀ m ∈ S, m ≤ last - p * 65536) (hrange : last - p * 65536 < 2 ^ 48) (hp : p * 65536 ≤ last)
    (hchain : (last :: is).IsChain (fun i j => i < j ∧ j < i + 2 ^ 15))
    (hwf : ∀ i ∈ is, WellFormed ssrc (seqAt i) (packet i)) : (∀ result ∈ (ctx.unprotectAll P
        (is.map (fun i => sealPacket P ctx.sessionKeys ssrc (rocAt i) (packet i)))).2, Accepts result) ↔
      ∀ i ∈ is, i - p * 65536 < 2 ^ 48 ∧
        SameTag P ctx.sessionKeys ssrc (rocAt i) (rocAt (i - p * 65536)) (packet i) := by
  induction is generalizing ctx last S with
  | nil => simp [SrtpContext.unprotectAll]
  | cons i is ih =>
    obtain ⟨⟨hlt,hclose⟩,htail⟩ := List.isChain_cons_cons.mp hchain
    have hpi : p * 65536 ≤ i := by omega
    have hseq := seqAt_sub_periods hpi
    have hwfi : WellFormed ssrc (seqAt (i - p * 65536)) (packet i) := by
      rw [hseq]
      exact hwf i (by simp)
    have hest := hctx.estimateRoc_eq (I := i - p * 65536) (by omega) (by omega)
    obtain ⟨hiff,hafter⟩ := accepts_sealPacket_iff (P := P) (rocAt i) hwfi hest hctx.window
      (fun m hm => by have := hnewest m hm; omega) (Or.inr ⟨_,hlast,hrange,by omega⟩)
    simp only [List.map_cons,SrtpContext.unprotectAll,List.forall_mem_cons]
    rw [← hiff]
    apply and_congr_right
    intro hacc
    have hK := (hiff.mp hacc).1
    rw [hafter hacc]
    refine ih (received_accept hctx.window hK) (Set.mem_insert _ _) ?_ hK hpi htail
      (fun j hj => hwf j (by simp [hj]))
    rintro m (rfl | hm)
    · exact le_rfl
    · have := hnewest m hm
      omega

theorem Untouched.accepts_iff (hctx : ctx.Untouched ssrc) (packet : ℕ → Bytes) {first : ℕ}
    (hchain : (first :: is).IsChain (fun i j => i < j ∧ j < i + 2 ^ 15))
    (hwf : ∀ i ∈ first :: is, WellFormed ssrc (seqAt i) (packet i)) : (∀ result ∈ (ctx.unprotectAll P ((first :: is).map
        (fun i => sealPacket P ctx.sessionKeys ssrc (rocAt i) (packet i)))).2, Accepts result) ↔
      ∀ i ∈ first :: is, i - first / 65536 * 65536 < 2 ^ 48 ∧
        SameTag P ctx.sessionKeys ssrc (rocAt i) (rocAt (i - first / 65536 * 65536)) (packet i) := by
  have hp : first / 65536 * 65536 ≤ first := Nat.div_mul_le_self first 65536
  have hfirst : first - first / 65536 * 65536 < 65536 := by omega
  have hwfi : WellFormed ssrc (seqAt (first - first / 65536 * 65536)) (packet first) := by
    rw [seqAt_sub_periods hp]
    exact hwf first (by simp)
  have hest : ctx.estimateRoc ssrc (seqAt (first - first / 65536 * 65536)) =
      rocAt (first - first / 65536 * 65536) := by
    rw [hctx.estimateRoc_eq,rocAt,Nat.div_eq_of_lt hfirst]
    rfl
  obtain ⟨hiff,hafter⟩ := accepts_sealPacket_iff (P := P) (rocAt first) hwfi hest hctx.tracks
    (by simp) (Or.inl (by omega))
  rw [List.forall_mem_cons,List.map_cons]
  simp only [SrtpContext.unprotectAll,List.forall_mem_cons]
  rw [← hiff]
  apply and_congr_right
  intro hacc
  rw [hafter hacc]
  exact accepts_inOrder_iff packet (first / 65536) (received_accept hctx.tracks (by omega))
    (Set.mem_insert _ _) (by simp) (by omega) hp hchain (fun j hj => hwf j (by simp [hj]))

theorem sameTag_self (keys : SessionKeys) (roc : UInt32) (packet : Bytes) :
    SameTag P keys ssrc roc roc packet := rfl

/-- A receiver joins after `k < 2 ^ 15` lost packets and follows the stream in order exactly
when the first packet it gets is still in the sender's first rollover period and the index
range lasts, or else when every tag collides with the one under the counter before. -/
theorem join_accepts_iff {master : SrtpEndpointKeys} {sender fresh : SrtpContext}
    (hsender : SrtpContext.new P master = some sender) (hfresh : SrtpContext.new P master = some fresh)
    (ssrc : UInt32) (history : List Bytes) (hhistory : ∀ pair ∈ fresh.acceptances P history, pair.1 ≠ ssrc)
    (start : UInt16) (packets : List Bytes) (hrun : RunFrom ssrc start.toNat packets)
    (k : ℕ) (hk : k < 2 ^ 15) (rest : List ℕ)
    (hchain : (k :: rest).IsChain (fun i j => i < j ∧ j < i + 2 ^ 15))
    (hjs : ∀ j ∈ k :: rest, j < packets.length) :
    ∃ wire : List Bytes, (sender.protectAll P ssrc packets).2 = wire.map .ok ∧
      ((∀ result ∈ ((fresh.unprotectAll P history).1.unprotectAll P
          ((k :: rest).map (fun j => wire.getD j []))).2, Accepts result) ↔
        (start.toNat + k < 65536 ∧ ∀ j ∈ k :: rest, start.toNat + j < 2 ^ 48) ∨
        (65536 ≤ start.toNat + k ∧ ∀ j ∈ k :: rest, start.toNat + j < 2 ^ 48 + 65536 ∧
          SameTag P sender.sessionKeys ssrc (rocAt (start.toNat + j)) (rocAt (start.toNat + j - 65536))
            (packets.getD j []))) := by
  have hsame : sender = fresh := Option.some.inj (hsender.symm.trans hfresh)
  subst hsame
  obtain ⟨huntouched,hkeys⟩ := (new_untouched hsender ssrc).unprotectAll hhistory
  refine ⟨_,protectAll_run (new_expects hsender ssrc start) hrun,?_⟩
  have hshift : ((k :: rest).map (start.toNat + ·)).IsChain (fun i j => i < j ∧ j < i + 2 ^ 15) :=
    (List.isChain_map _).mpr (hchain.imp (fun i j h => by omega))
  have hiff := Untouched.accepts_iff (P := P) huntouched _ hshift (RunFrom.delivered hrun hjs)
  rw [delivered_wire hjs, ← hkeys]
  apply hiff.trans
  rw [← List.map_cons, List.forall_mem_map]
  have hstart := start.toNat_lt
  by_cases hwrap : start.toNat + k < 65536
  · have hp : (start.toNat + k) / 65536 = 0 := Nat.div_eq_of_lt hwrap
    simp only [hp, Nat.zero_mul, Nat.sub_zero, sameTag_self, and_true, hwrap, true_and, Nat.not_le.mpr hwrap,
      false_and, or_false]
  · have hp : (start.toNat + k) / 65536 = 1 := by omega
    simp only [hp, Nat.one_mul, hwrap, false_and, false_or, Nat.le_of_not_lt hwrap, true_and,
      Nat.add_sub_cancel_left]
    refine forall₂_congr (fun j _ => and_congr_left' ?_)
    omega

/-- A sender that starts at 65535 and whose first packet is lost. -/
theorem join_refused_after_wrap :
    ∃ (ctx : SrtpContext) (wire : List Bytes), SrtpContext.new samplePrimitives sampleMaster = some ctx ∧
      (ctx.protectAll samplePrimitives 7 (samplePackets 65535 2)).2 = wire.map .ok ∧
      (ctx.unprotectAll samplePrimitives [wire.getD 1 []]).2 = [.error "SRTP Auth Tag Mismatch"] := by
  refine ⟨_,[[128,96,255,255,0,0,0,0,0,0,0,7,3,29,61,61,234,124,8,120,229,146,120],
    [128,96,0,0,0,0,0,0,0,0,0,7,9,159,232,1,66,224,145,194,182,125,13]],rfl,?_,?_⟩
  · decide +kernel
  · decide +kernel

/-- The same sender with nothing lost: the receiver joins and follows it across the wrap. -/
theorem join_accepts_before_wrap :
    ∃ (ctx : SrtpContext) (wire : List Bytes), SrtpContext.new samplePrimitives sampleMaster = some ctx ∧
      (ctx.protectAll samplePrimitives 7 (samplePackets 65535 3)).2 = wire.map .ok ∧
      ∀ result ∈ ((ctx.unprotectAll samplePrimitives []).1.unprotectAll samplePrimitives
        ([0,1,2].map (fun j => wire.getD j []))).2, Accepts result := by
  obtain ⟨ctx,hnew⟩ := new_sampleMaster samplePrimitives
  obtain ⟨wire,hwire,hiff⟩ := join_accepts_iff hnew hnew 7 [] (by simp [acceptances]) 65535
    (samplePackets 65535 3) (runFrom_samplePackets 65535 3) 0 (by decide) [1,2] (by decide) (by decide)
  exact ⟨ctx,wire,hnew,hwire,hiff.mpr (Or.inl (by decide))⟩
end RustyRtc.Srtp
