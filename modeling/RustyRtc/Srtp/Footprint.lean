import RustyRtc.Srtp.Delivery
import RustyRtc.Srtp.ReplayFreedom

/-! # Which sources a context holds state for

The counters of a source are first written when one of its packets is accepted. Its replay window is
created as soon as a packet in its name passes the length checks, before the packet is authenticated.
-/
namespace RustyRtc.Srtp.SrtpContext
variable {P : Primitives} {ctx : SrtpContext}
def HasEntry (ctx : SrtpContext) (ssrc : UInt32) : Prop :=
  (ctx.rocs ssrc).isSome = true ∨ (ctx.lastSeqs ssrc).isSome = true ∨ (ctx.replayWindows ssrc).isSome = true
def AcceptedFrom (P : Primitives) (ctx : SrtpContext) (packets : List Bytes) (ssrc : UInt32) : Prop :=
  ∃ pair ∈ ctx.acceptances P packets, pair.1 = ssrc

/-- The packet passes the length checks in the name of the source. -/
def Names (packet : Bytes) (ssrc : UInt32) : Prop := 12 + authTagLen ≤ packet.length ∧ readU32 packet 8 = ssrc
theorem acceptedFrom_cons (packet : Bytes) (packets : List Bytes) (ssrc : UInt32) :
    AcceptedFrom P ctx (packet :: packets) ssrc ↔
      (∃ pair ∈ ctx.acceptance P packet, pair.1 = ssrc) ∨ AcceptedFrom P (ctx.unprotect P packet).1 packets ssrc := by
  simp only [AcceptedFrom,acceptances,List.mem_append,Option.mem_toList,or_and_right,exists_or,Option.mem_def]
theorem isSome_update {α β : Type*} [DecidableEq α] (f : α → Option β) (a b : α) (v : β) :
    (Function.update f a (some v) b).isSome = true ↔ (f b).isSome = true ∨ a = b := by
  by_cases h : b = a
  · subst h
    simp
  · simp [Function.update_of_ne h,Ne.symm h]

theorem entries_unprotect (packet : Bytes) (ssrc : UInt32) :
    (((ctx.unprotect P packet).1.rocs ssrc).isSome = true ↔
      (ctx.rocs ssrc).isSome = true ∨ ∃ pair ∈ ctx.acceptance P packet, pair.1 = ssrc) ∧
    (((ctx.unprotect P packet).1.lastSeqs ssrc).isSome = true ↔
      (ctx.lastSeqs ssrc).isSome = true ∨ ∃ pair ∈ ctx.acceptance P packet, pair.1 = ssrc) ∧
    (((ctx.unprotect P packet).1.replayWindows ssrc).isSome = true ↔
      (ctx.replayWindows ssrc).isSome = true ∨ Names packet ssrc) := by
  rcases unprotect_cases P ctx packet with ⟨hlen,e,he⟩ | ⟨hlen,e,he⟩ | ⟨hlen,out,he,-⟩
  · have hnames : ¬ Names packet ssrc := fun h => Nat.not_le.mpr hlen h.1
    simp [acceptance,he,hnames]
  · simp [acceptance,he,touch,isSome_update,Names,hlen]
  · simp [acceptance,he,touch,accept,remember,isSome_update,Names,hlen]

theorem entries_unprotectAll (packets : List Bytes) (ssrc : UInt32) :
    (((ctx.unprotectAll P packets).1.rocs ssrc).isSome = true ↔
      (ctx.rocs ssrc).isSome = true ∨ AcceptedFrom P ctx packets ssrc) ∧
    (((ctx.unprotectAll P packets).1.lastSeqs ssrc).isSome = true ↔
      (ctx.lastSeqs ssrc).isSome = true ∨ AcceptedFrom P ctx packets ssrc) ∧
    (((ctx.unprotectAll P packets).1.replayWindows ssrc).isSome = true ↔
      (ctx.replayWindows ssrc).isSome = true ∨ ∃ packet ∈ packets, Names packet ssrc) := by
  induction packets generalizing ctx with
  | nil => simp [unprotectAll,AcceptedFrom,acceptances]
  | cons packet packets ih =>
    obtain ⟨hrocs,hseqs,hwindows⟩ := @entries_unprotect P ctx packet ssrc
    obtain ⟨ihrocs,ihseqs,ihwindows⟩ := @ih (ctx.unprotect P packet).1
    simp only [unprotectAll,acceptedFrom_cons,List.exists_mem_cons_iff,ihrocs,ihseqs,ihwindows,hrocs,hseqs,
      hwindows,or_assoc,and_self]

/-- The counters of a new context come to hold exactly the sources with an accepted packet, its windows those
that any packet of sufficient length named. So the state grows with authenticated sources only as long as
each named source has some packet accepted. -/
theorem state_follows_acceptance_iff {master : SrtpEndpointKeys} (hnew : SrtpContext.new P master = some ctx)
    (packets : List Bytes) :
    (∀ ssrc, ((ctx.unprotectAll P packets).1.rocs ssrc).isSome = true ↔ AcceptedFrom P ctx packets ssrc) ∧
    (∀ ssrc, ((ctx.unprotectAll P packets).1.lastSeqs ssrc).isSome = true ↔ AcceptedFrom P ctx packets ssrc) ∧
    (∀ ssrc, ((ctx.unprotectAll P packets).1.replayWindows ssrc).isSome = true ↔
      ∃ packet ∈ packets, Names packet ssrc) ∧
    ((∀ ssrc, (ctx.unprotectAll P packets).1.HasEntry ssrc ↔ AcceptedFrom P ctx packets ssrc) ↔
      ∀ packet ∈ packets, ∀ ssrc, Names packet ssrc → AcceptedFrom P ctx packets ssrc) := by
  have hentries := fun ssrc => @entries_unprotectAll P ctx packets ssrc
  obtain ⟨keys,-,rfl⟩ := Option.map_eq_some_iff.mp hnew
  simp only [Option.isSome_none, Bool.false_eq_true, false_or] at hentries
  refine ⟨fun ssrc => (hentries ssrc).1,fun ssrc => (hentries ssrc).2.1,fun ssrc => (hentries ssrc).2.2,?_⟩
  simp only [HasEntry, hentries]
  constructor
  · intro h packet hpacket ssrc hnames
    exact (h ssrc).mp (.inr (.inr ⟨packet,hpacket,hnames⟩))
  · intro h ssrc
    refine ⟨?_, .inl⟩
    rintro (hacc | hacc | ⟨packet,hpacket,hnames⟩)
    · exact hacc
    · exact hacc
    · exact h packet hpacket ssrc hnames

def authentic : Bytes := [128,96,255,255,0,0,0,0,0,0,0,7,3] ++ [29,61,61,234,124,8,120,229,146,120]
def forged : Bytes := [128,96,0,0,0,0,0,0,0,0,0,7,9] ++ List.replicate 10 0

theorem state_follows_acceptance_heard : SrtpContext.new samplePrimitives sampleMaster = some sampleContext ∧
    (sampleContext.unprotectAll samplePrimitives [authentic,forged]).2.map Except.isOk = [true,false] ∧
    ∀ ssrc, (sampleContext.unprotectAll samplePrimitives [authentic,forged]).1.HasEntry ssrc ↔
      AcceptedFrom samplePrimitives sampleContext [authentic,forged] ssrc := by
  have hnew : SrtpContext.new samplePrimitives sampleMaster = some sampleContext := rfl
  have hpair : (7,65535) ∈ sampleContext.acceptances samplePrimitives [authentic,forged] := by decide +kernel
  have hsource : ∀ packet ∈ [authentic,forged], readU32 packet 8 = 7 := by decide
  refine ⟨hnew,by decide +kernel,(state_follows_acceptance_iff hnew [authentic,forged]).2.2.2.mpr ?_⟩
  intro packet hpacket ssrc hnames
  exact ⟨(7,65535),hpair,by rw [← hnames.2, hsource packet hpacket]⟩

/-- A forged packet alone creates a replay window for the source it names. -/
theorem forged_packet_creates_entry : SrtpContext.new samplePrimitives sampleMaster = some sampleContext ∧
    (sampleContext.unprotectAll samplePrimitives [forged]).2 = [.error "SRTP Auth Tag Mismatch"] ∧
    (sampleContext.unprotectAll samplePrimitives [forged]).1.HasEntry 7 ∧
    ¬ AcceptedFrom samplePrimitives sampleContext [forged] 7 := by
  refine ⟨rfl,by decide +kernel, .inr (.inr (by decide +kernel)),?_⟩
  have hnone : sampleContext.acceptances samplePrimitives [forged] = [] := by decide +kernel
  rintro ⟨pair,hpair,-⟩
  rw [hnone] at hpair
  cases hpair
end RustyRtc.Srtp.SrtpContext
