import RustyRtc.Srtp.Keys
import RustyRtc.Srtp.ReplayWindow

/-! # The SRTP context

State passing for `SrtpContext`: each call returns the context it leaves behind and
its result. The sender counts rollovers from the last protected packet and the
receiver estimates them from the last accepted one; the two rules are kept apart as
in `srtp_context.rs`.
-/
namespace RustyRtc.Srtp
structure SrtpContext where
  sessionKeys : SessionKeys
  rocs : UInt32 → Option UInt32
  lastSeqs : UInt32 → Option UInt16
  replayWindows : UInt32 → Option ReplayWindow

namespace SrtpContext
variable (ctx : SrtpContext)
def new (P : Primitives) (masterKeys : SrtpEndpointKeys) : Option SrtpContext :=
  (deriveSessionKeys P masterKeys).map
    (fun keys => ⟨keys,fun _ => none,fun _ => none,fun _ => none⟩)
def remember (ctx : SrtpContext) (ssrc : UInt32) (roc : UInt32) (seq : UInt16) : SrtpContext :=
  { ctx with
    rocs := Function.update ctx.rocs ssrc (some roc)
    lastSeqs := Function.update ctx.lastSeqs ssrc (some seq) }

def getOrCreateRoc (ctx : SrtpContext) (ssrc : UInt32) (seq : UInt16) : SrtpContext × UInt32 :=
  match ctx.lastSeqs ssrc with
  | none => (ctx.remember ssrc 0 seq,0)
  | some lastSeq =>
    let roc := (ctx.rocs ssrc).getD 0
    let roc :=
      if seq < lastSeq then
        let diff := lastSeq.toUInt32 - seq.toUInt32
        if diff > 1000 then roc + 1 else roc
      else roc
    (ctx.remember ssrc roc seq,roc)

def estimateRoc (ctx : SrtpContext) (ssrc : UInt32) (seq : UInt16) : UInt32 :=
  match ctx.lastSeqs ssrc with
  | none => 0
  | some lastSeq =>
    let lastRoc := (ctx.rocs ssrc).getD 0
    let delta : ℤ := (seq.toNat : ℤ) - lastSeq.toNat
    if delta ≤ -32768 then lastRoc + 1
    else if delta ≥ 32768 then lastRoc - 1
    else lastRoc

def protect (P : Primitives) (ctx : SrtpContext) (ssrc : UInt32) (packet : Bytes) :
    SrtpContext × Except String Bytes :=
  if packet.length < 12 then (ctx, .error "Packet too short for RTP header")
  else
    let seq := readU16 packet 2
    let (ctx,roc) := ctx.getOrCreateRoc ssrc seq
    let index := packetIndex roc seq
    match getRtpHeaderLen packet with
    | .error e => (ctx, .error e)
    | .ok headerLen =>
      let packet := cryptPayload P ctx.sessionKeys ssrc index headerLen packet
      (ctx, .ok (packet ++ authTag P ctx.sessionKeys packet roc))

/-- `replay_windows.entry(ssrc).or_default()`. -/
def touch (ctx : SrtpContext) (ssrc : UInt32) : SrtpContext :=
  { ctx with
    replayWindows := Function.update ctx.replayWindows ssrc
      (some ((ctx.replayWindows ssrc).getD ReplayWindow.new)) }
def replayWindow (ctx : SrtpContext) (ssrc : UInt32) : ReplayWindow :=
  (ctx.replayWindows ssrc).getD ReplayWindow.new

/-- Step 6 of `unprotect`: counters and window after an accepted packet. -/
def accept (ctx : SrtpContext) (ssrc : UInt32) (roc : UInt32) (seq : UInt16) : SrtpContext :=
  { ctx.remember ssrc roc seq with
    replayWindows := Function.update ctx.replayWindows ssrc
      (some ((ctx.replayWindow ssrc).record (packetIndex roc seq))) }
def replayDetected (ssrc : UInt32) (seq : UInt16) : String :=
  "Replay detected: ssrc=0x" ++ String.ofList (Nat.toDigits 16 ssrc.toNat) ++ " seq=" ++ toString seq.toNat

def unprotect (P : Primitives) (ctx : SrtpContext) (packet : Bytes) : SrtpContext × Except String Bytes :=
  if packet.length < 12 + authTagLen then (ctx, .error "Packet too short for SRTP")
  else
    let tagStart := packet.length - authTagLen
    let content := packet.take tagStart
    let receivedTag := packet.drop tagStart
    if content.length < 12 then (ctx, .error "Packet content too short")
    else
      let seq := readU16 content 2
      let ssrc := readU32 content 8
      let roc := ctx.estimateRoc ssrc seq
      let index := packetIndex roc seq
      let ctx := ctx.touch ssrc
      if (ctx.replayWindow ssrc).isReplay index then (ctx, .error (replayDetected ssrc seq))
      else
        let computedTag := authTag P ctx.sessionKeys content roc
        if !constantTimeEq computedTag receivedTag then (ctx, .error "SRTP Auth Tag Mismatch")
        else
          match getRtpHeaderLen content with
          | .error e => (ctx, .error e)
          | .ok headerLen =>
            (ctx.accept ssrc roc seq, .ok (cryptPayload P ctx.sessionKeys ssrc index headerLen content))

theorem getOrCreateRoc_fst (ssrc : UInt32) (seq : UInt16) :
    (ctx.getOrCreateRoc ssrc seq).1 = ctx.remember ssrc (ctx.getOrCreateRoc ssrc seq).2 seq := by
  unfold getOrCreateRoc
  split <;> rfl

@[simp] theorem remember_sessionKeys (ssrc roc : UInt32) (seq : UInt16) :
    (ctx.remember ssrc roc seq).sessionKeys = ctx.sessionKeys := rfl
@[simp] theorem touch_sessionKeys (ssrc : UInt32) : (ctx.touch ssrc).sessionKeys = ctx.sessionKeys := rfl
@[simp] theorem touch_rocs (ssrc : UInt32) : (ctx.touch ssrc).rocs = ctx.rocs := rfl
@[simp] theorem touch_lastSeqs (ssrc : UInt32) : (ctx.touch ssrc).lastSeqs = ctx.lastSeqs := rfl
@[simp] theorem accept_sessionKeys (ssrc roc : UInt32) (seq : UInt16) :
    (ctx.accept ssrc roc seq).sessionKeys = ctx.sessionKeys := rfl
@[simp] theorem touch_replayWindow (ssrc other : UInt32) :
    (ctx.touch ssrc).replayWindow other = ctx.replayWindow other := by
  by_cases h : other = ssrc
  · subst other
    simp [replayWindow,touch]
  · simp [replayWindow,touch,h]

theorem accept_replayWindow (ssrc roc : UInt32) (seq : UInt16) (other : UInt32) :
    (ctx.accept ssrc roc seq).replayWindow other =
      if other = ssrc then (ctx.replayWindow ssrc).record (packetIndex roc seq) else ctx.replayWindow other := by
  by_cases h : other = ssrc
  · subst other
    simp [replayWindow,accept]
  · simp [replayWindow,accept,h]

theorem take_of_protect {P : Primitives} {ctx : SrtpContext} {ssrc : UInt32} {packet out : Bytes}
    (h : (ctx.protect P ssrc packet).2 = .ok out) : 12 ≤ packet.length ∧ out.take 12 = packet.take 12 := by
  unfold protect at h
  split at h
  · cases h
  · next hlen =>
    dsimp only at h
    split at h
    · cases h
    · next headerLen hheader =>
      cases h
      have hle := (getRtpHeaderLen_bounds hheader).1
      have hmin : 12 ≤ (packet.take headerLen).length := by
        rw [List.length_take]
        omega
      rw [cryptPayload,List.append_assoc,List.take_append_of_le_length hmin,List.take_take,Nat.min_eq_left hle]
      exact ⟨Nat.not_lt.mp hlen,rfl⟩

theorem unprotect_cases (P : Primitives) (ctx : SrtpContext) (packet : Bytes) :
    (packet.length < 12 + authTagLen ∧ ∃ e, ctx.unprotect P packet = (ctx, .error e)) ∨
    (12 + authTagLen ≤ packet.length ∧ ∃ e, ctx.unprotect P packet = (ctx.touch (readU32 packet 8), .error e)) ∨
    (12 + authTagLen ≤ packet.length ∧ ∃ out, ctx.unprotect P packet =
        ((ctx.touch (readU32 packet 8)).accept (readU32 packet 8)
          (ctx.estimateRoc (readU32 packet 8) (readU16 packet 2)) (readU16 packet 2), .ok out) ∧
      (ctx.replayWindow (readU32 packet 8)).isReplay
        (packetIndex (ctx.estimateRoc (readU32 packet 8) (readU16 packet 2)) (readU16 packet 2)) = false) := by
  by_cases hshort : packet.length < 12 + authTagLen
  · exact Or.inl ⟨hshort,"Packet too short for SRTP",by simp only [unprotect,if_pos hshort]⟩
  have hlong := Nat.not_lt.mp hshort
  have hlen : (packet.take (packet.length - authTagLen)).length = packet.length - authTagLen := by
    rw [List.length_take]
    omega
  have hcontent : ¬ (packet.take (packet.length - authTagLen)).length < 12 := by omega
  have hsplit := (List.take_append_drop (packet.length - authTagLen) packet).symm
  have hseq : readU16 (packet.take (packet.length - authTagLen)) 2 = readU16 packet 2 := by
    conv_rhs => rw [hsplit]
    exact (readU16_append (by omega) _).symm
  have hssrc : readU32 (packet.take (packet.length - authTagLen)) 8 = readU32 packet 8 := by
    conv_rhs => rw [hsplit]
    exact (readU32_append (by omega) _).symm
  simp only [unprotect,if_neg hshort,if_neg hcontent,hseq,hssrc,touch_replayWindow]
  cases hrep : (ctx.replayWindow (readU32 packet 8)).isReplay
      (packetIndex (ctx.estimateRoc (readU32 packet 8) (readU16 packet 2)) (readU16 packet 2)) with
  | true => exact Or.inr (Or.inl ⟨hlong,_,rfl⟩)
  | false =>
    simp only [Bool.false_eq_true,↓reduceIte]
    split
    · exact Or.inr (Or.inl ⟨hlong,_,rfl⟩)
    · split
      · exact Or.inr (Or.inl ⟨hlong,_,rfl⟩)
      · exact Or.inr (Or.inr ⟨hlong,_,rfl,trivial⟩)
end SrtpContext
end RustyRtc.Srtp
