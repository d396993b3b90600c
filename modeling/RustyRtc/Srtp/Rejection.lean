import RustyRtc.Foundation.Execution
import RustyRtc.Srtp.Sealed

/-! # What a rejected packet leaves behind

The replay window of a source is created before its packet is authenticated. An empty window and a
missing one are told apart by no later call, so rejected packets can be taken out of any sequence.
-/
namespace RustyRtc.Srtp.SrtpContext

/-- No call tells the two contexts apart: a missing replay window counts as an empty one. -/
structure Alike (ctx other : SrtpContext) : Prop where
  sessionKeys : ctx.sessionKeys = other.sessionKeys
  rocs : ctx.rocs = other.rocs
  lastSeqs : ctx.lastSeqs = other.lastSeqs
  replayWindow : ctx.replayWindow = other.replayWindow

namespace Alike
variable {ctx other third : SrtpContext}
theorem refl (ctx : SrtpContext) : Alike ctx ctx := ⟨rfl,rfl,rfl,rfl⟩
theorem symm (h : Alike ctx other) : Alike other ctx :=
  ⟨h.sessionKeys.symm,h.rocs.symm,h.lastSeqs.symm,h.replayWindow.symm⟩
theorem trans (h : Alike ctx other) (h' : Alike other third) : Alike ctx third :=
  ⟨h.sessionKeys.trans h'.sessionKeys,h.rocs.trans h'.rocs,h.lastSeqs.trans h'.lastSeqs,
    h.replayWindow.trans h'.replayWindow⟩
theorem touch (ctx : SrtpContext) (ssrc : UInt32) : Alike (ctx.touch ssrc) ctx :=
  ⟨rfl,rfl,rfl,funext (touch_replayWindow ctx ssrc)⟩

theorem accept (h : Alike ctx other) (ssrc roc : UInt32) (seq : UInt16) :
    Alike (ctx.accept ssrc roc seq) (other.accept ssrc roc seq) := by
  refine ⟨h.sessionKeys,?_,?_,?_⟩
  · change Function.update ctx.rocs ssrc (some roc) = Function.update other.rocs ssrc (some roc)
    rw [h.rocs]
  · change Function.update ctx.lastSeqs ssrc (some seq) = Function.update other.lastSeqs ssrc (some seq)
    rw [h.lastSeqs]
  · funext source
    rw [accept_replayWindow,accept_replayWindow,h.replayWindow]

theorem estimateRoc (h : Alike ctx other) (ssrc : UInt32) (seq : UInt16) :
    ctx.estimateRoc ssrc seq = other.estimateRoc ssrc seq := by
  simp only [SrtpContext.estimateRoc,h.lastSeqs,h.rocs]

theorem unprotect (h : Alike ctx other) (P : Primitives) (packet : Bytes) :
    (ctx.unprotect P packet).2 = (other.unprotect P packet).2 ∧
      Alike (ctx.unprotect P packet).1 (other.unprotect P packet).1 := by
  have htouch (ssrc : UInt32) : Alike (ctx.touch ssrc) (other.touch ssrc) :=
    (Alike.touch ctx ssrc).trans (h.trans (Alike.touch other ssrc).symm)
  have hroc := h.estimateRoc
  have hkeys := h.sessionKeys
  have hwindow := h.replayWindow
  unfold SrtpContext.unprotect
  simp only [touch_replayWindow,touch_sessionKeys,hroc,hkeys,hwindow,Bool.not_eq_true']
  split_ifs
  · exact ⟨rfl,h⟩
  · exact ⟨rfl,h⟩
  · exact ⟨rfl,htouch _⟩
  · exact ⟨rfl,htouch _⟩
  · split
    · exact ⟨rfl,htouch _⟩
    · exact ⟨rfl,(htouch _).accept _ _ _⟩

/-- A rejected packet leaves the context as it was, as far as any later call can see. -/
theorem of_rejected {P : Primitives} {packet : Bytes} (h : (ctx.unprotect P packet).2.isOk = false) :
    Alike (ctx.unprotect P packet).1 ctx := by
  rcases unprotect_cases P ctx packet with ⟨-,e,he⟩ | ⟨-,e,he⟩ | ⟨-,out,he,-⟩
  · rw [he]
    exact refl ctx
  · rw [he]
    exact touch ctx _
  · rw [he] at h
    cases h
end Alike

theorem unprotectAll_eq_answers (P : Primitives) (ctx : SrtpContext) (packets : List Bytes) :
    (ctx.unprotectAll P packets).2 = answers (unprotect P) ctx packets := by
  induction packets generalizing ctx with
  | nil => rfl
  | cons packet rest ih => simp only [unprotectAll,answers,ih]

/-- Taking rejected packets out of a sequence, all of them or any choice by packet and verdict, changes neither
the verdict nor the output for any packet that stays. -/
theorem rejected_packets_have_no_influence (P : Primitives) (ctx : SrtpContext) (packets : List Bytes)
    (alsoKept : Bytes × Except String Bytes → Bool) :
    let kept := (packets.zip (ctx.unprotectAll P packets).2).filter fun x => x.2.isOk || alsoKept x
    (ctx.unprotectAll P (kept.map Prod.fst)).2 = kept.map Prod.snd := by
  simp only [unprotectAll_eq_answers]
  refine answers_filter (fun _ _ packet h => h.unprotect P packet) ?_ (Alike.refl ctx) packets
  intro ctx other packet h hkeep
  exact (Alike.of_rejected (Bool.or_eq_false_iff.mp hkeep).1).trans h
end RustyRtc.Srtp.SrtpContext
