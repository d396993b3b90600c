import RustyRtc.Srtp.Sealed

/-! # No packet index is accepted twice

The adversary hands arbitrary byte strings to one context. What a call accepts is
logged as source and packet index; the replay windows only ever grow over the log.
-/
namespace RustyRtc.Srtp.SrtpContext
def acceptance (P : Primitives) (ctx : SrtpContext) (packet : Bytes) : Option (UInt32 × UInt64) :=
  match (ctx.unprotect P packet).2 with
  | .error _ => none
  | .ok _ =>
    some (readU32 packet 8,
      packetIndex (ctx.estimateRoc (readU32 packet 8) (readU16 packet 2)) (readU16 packet 2))
def acceptances (P : Primitives) (ctx : SrtpContext) : List Bytes → List (UInt32 × UInt64)
  | [] => []
  | packet :: rest => (ctx.acceptance P packet).toList ++ acceptances P (ctx.unprotect P packet).1 rest
def Replayed (ctx : SrtpContext) (pair : UInt32 × UInt64) : Prop :=
  (ctx.replayWindow pair.1).isReplay pair.2 = true

variable {P : Primitives} {ctx : SrtpContext} {packet : Bytes} {pair : UInt32 × UInt64}
theorem unprotect_of_acceptance_none (h : ctx.acceptance P packet = none) :
    (ctx.unprotect P packet).1.sessionKeys = ctx.sessionKeys ∧ (ctx.unprotect P packet).1.lastSeqs = ctx.lastSeqs ∧
      (ctx.unprotect P packet).1.replayWindow = ctx.replayWindow := by
  rcases unprotect_cases P ctx packet with ⟨-,e,he⟩ | ⟨-,e,he⟩ | ⟨-,out,he,_⟩
  · rw [he]
    exact ⟨rfl,rfl,rfl⟩
  · rw [he]
    exact ⟨rfl,rfl,funext (touch_replayWindow ctx _)⟩
  · simp [acceptance,he] at h

theorem unprotect_of_acceptance_some (h : ctx.acceptance P packet = some pair) :
    ¬ ctx.Replayed pair ∧ ∃ roc seq, pair.2 = packetIndex roc seq ∧
      (ctx.unprotect P packet).1 = (ctx.touch pair.1).accept pair.1 roc seq := by
  rcases unprotect_cases P ctx packet with ⟨-,e,he⟩ | ⟨-,e,he⟩ | ⟨-,out,he,hfresh⟩
  · simp [acceptance,he] at h
  · simp [acceptance,he] at h
  · simp only [acceptance,he,Option.some.injEq] at h
    subst h
    refine ⟨?_,_,_,rfl,congrArg Prod.fst he⟩
    rw [Replayed,hfresh]
    exact Bool.false_ne_true

theorem accept_replayed (roc : UInt32) (seq : UInt16) (ssrc : UInt32) :
    ((ctx.touch ssrc).accept ssrc roc seq).Replayed (ssrc,packetIndex roc seq) := by
  rw [Replayed,accept_replayWindow,if_pos rfl]
  exact ReplayWindow.isReplay_record_self _ _

/-- What is a replay for a context is one for every context a call leaves behind. -/
theorem Replayed.unprotect (h : ctx.Replayed pair) (P : Primitives) (packet : Bytes) :
    (ctx.unprotect P packet).1.Replayed pair := by
  cases hacc : ctx.acceptance P packet with
  | none =>
    rw [Replayed,(unprotect_of_acceptance_none hacc).2.2]
    exact h
  | some other =>
    obtain ⟨_,roc,seq,_,hafter⟩ := unprotect_of_acceptance_some hacc
    rw [hafter,Replayed,accept_replayWindow]
    split
    · next heq =>
      rw [touch_replayWindow,← heq]
      exact ReplayWindow.isReplay_record_of_isReplay _ h
    · rw [touch_replayWindow]
      exact h

theorem Replayed.not_mem_acceptances (h : ctx.Replayed pair) (P : Primitives) (packets : List Bytes) :
    pair ∉ ctx.acceptances P packets := by
  induction packets generalizing ctx with
  | nil => exact List.not_mem_nil
  | cons packet rest ih =>
    intro hmem
    rcases List.mem_append.mp hmem with hhead | htail
    · exact (unprotect_of_acceptance_some (Option.mem_toList.mp hhead)).1 h
    · exact ih (h.unprotect P packet) htail

theorem acceptances_nodup (P : Primitives) (ctx : SrtpContext) (packets : List Bytes) :
    (ctx.acceptances P packets).Nodup := by
  induction packets generalizing ctx with
  | nil => exact List.nodup_nil
  | cons packet rest ih =>
    rw [acceptances]
    cases hacc : ctx.acceptance P packet with
    | none => exact ih _
    | some pair =>
      obtain ⟨_,roc,seq,hindex,hafter⟩ := unprotect_of_acceptance_some hacc
      refine List.nodup_cons.mpr ⟨Replayed.not_mem_acceptances ?_ P rest,ih _⟩
      rw [hafter,← Prod.mk.eta (p := pair),hindex]
      exact accept_replayed roc seq pair.1

/-- Replay protection of a context under arbitrary input, and what its window decides
after arbitrary records. -/
theorem replay_protection (P : Primitives) (ctx : SrtpContext) (packets : List Bytes)
    (recorded : List UInt64) (i : UInt64) :
    (ctx.acceptances P packets).Nodup ∧
      ((ReplayWindow.new.recordAll recorded).isReplay i = true ↔
        i ∈ recorded ∨ ∃ m ∈ recorded, (∀ k ∈ recorded, k ≤ m) ∧ i.toNat + 64 ≤ m.toNat) :=
  ⟨acceptances_nodup P ctx packets,ReplayWindow.recordAll_isReplay_iff recorded i⟩
end RustyRtc.Srtp.SrtpContext
