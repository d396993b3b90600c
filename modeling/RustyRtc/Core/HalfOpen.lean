import RustyRtc.Core.Closing
import RustyRtc.Core.Progress

/-! # Half-open handshakes

When one side is established and the other is not, what decides is whether a SYN-ACK or ACK
for the waiting side is still on its way: an established side answers nothing any more.
-/
namespace RustyRtc.Core
variable {m : AppMsg}
def Act.Continues : Act → Prop
  | .turn _ .receiver | .deliver _ _ => True
  | .turn _ (.handshake clock) => clock.timedOut = false
  | _ => False

/-- Two sessions before anyone closes. Once an ACK for the lower side is out, the higher side
is established or in the handler that establishes it. -/
structure Opening (tokens : Side → UInt64) (net : Net) : Prop where
  follows : ∀ who, (Handshaking.discipline (tokens who) (tokens who.other)).Follows (net who)
  caller : ∀ who, (net who).caller = none
  acked : ∀ who, tokens who < tokens who.other →
    (net who).shared.established = true ∨ .ack (tokens who) ∈ net.pending who →
    (net who.other).shared.established = true ∨
      ∃ m ∈ (net who.other).handled, Completes (tokens who.other) m

theorem Offered.eq_ack {me other : UInt64} (h : Offered other me m)
    (hc : Completes me m) (hlt : me < other) : m = .ack me := by
  cases m with
  | synAck your mine => exact absurd hlt (UInt64.lt_asymm h.2.2)
  | ack your => exact congrArg _ hc
  | _ => exact hc.elim

namespace Opening
variable {tokens : Side → UInt64} {net : Net} {a : Act}
theorem follows_other (h : Opening tokens net) (who : Side) :
    (Handshaking.discipline (tokens who.other) (tokens who)).Follows (net who.other) := by
  simpa only [Side.other_other] using h.follows who.other
theorem offered (h : Opening tokens net) {who : Side} (hm : m ∈ net.pending who) :
    Offered (tokens who.other) (tokens who) m := by
  rcases List.mem_append.mp hm with hm | hm
  · exact (h.follows who).queued m hm
  · exact (h.follows_other who).inv.sent m hm

section
variable (hne : ∀ who : Side, tokens who ≠ tokens who.other) (h : Opening tokens net) {who : Side}
  (ha : ∀ who, a ≠ .turn who .requestClose)
include hne h ha

theorem admits {t : Turn} (hat : a = .turn who t) :
    (Handshaking.discipline (tokens who) (tokens who.other)).Admits (net who) t := by
  apply Handshaking.admits (hne who) (h.follows who) (h.caller who)
  rintro rfl
  exact ha who hat

theorem turned (who : Side) : Handshaking.Turned (tokens who) (tokens who.other) (net who) (net.step a who).shared := by
  have hc := net.change a who
  generalize net.step a who = s' at hc
  cases hc with
  | same => exact ⟨id, .inl, .inl⟩
  | turn t hat => exact .of_effect ((h.follows who).step (h.admits hne ha hat)).2
  | sent sent hsub => exact ⟨id, .inl,fun hm => .inl (hsub hm)⟩
  | arrive m _ => exact ⟨id, .inl, .inl⟩

theorem turned_other (who : Side) : Handshaking.Turned (tokens who.other) (tokens who) (net who.other)
      (net.step a who.other).shared := by
  simpa only [Side.other_other] using h.turned hne ha who.other

theorem completing (who : Side)
    (hs : (net who).shared.established = true ∨ ∃ m ∈ (net who).handled, Completes (tokens who) m) :
    (net.step a who).shared.established = true ∨ ∃ m ∈ (net.step a who).handled, Completes (tokens who) m := by
  have hc := net.change a who
  generalize net.step a who = s' at hc
  cases hc with
  | same => exact hs
  | turn t hat => exact Handshaking.completing_step (h.follows who) (h.admits hne ha hat) hs
  | sent sent _ => exact hs
  | arrive m _ => exact hs

theorem established_origin (hlt : tokens who < tokens who.other) (hs : (net.step a who).shared.established = true) :
    (net who).shared.established = true ∨ .ack (tokens who) ∈ net.pending who := by
  refine ((h.turned hne ha who).origin hs).imp_right ?_
  rintro ⟨m,hm,hc⟩
  have hq := Session.mem_queued_of_handled hm
  obtain rfl := Offered.eq_ack ((h.follows who).queued m hq) hc hlt
  exact List.mem_append_left _ hq

theorem ack_origin (hlt : tokens who < tokens who.other) (hm : .ack (tokens who) ∈ (net.step a).pending who) :
    .ack (tokens who) ∈ net.pending who ∨ ((net who.other).shared.established = false ∧
      ∃ m ∈ (net who.other).handled, Completes (tokens who.other) m) := by
  rcases List.mem_append.mp hm with hm | hm
  · exact .inl (Net.queued_step_subset a who hm)
  · rcases (h.turned_other hne ha who).acks hm with hm | hm | hgt
    · exact .inl (List.mem_append_right _ hm)
    · exact .inr hm
    · exact absurd hlt (UInt64.lt_asymm hgt)

theorem step : Opening tokens (net.step a) where
  follows := by
    refine Net.Follows.step ?_ h.follows fun who t hat => h.admits hne ha hat
    intro who s hs m hm
    have hoff := hs.sent m hm
    rwa [Side.other_other] at hoff
  caller := by
    intro who
    have hc := net.change a who
    generalize net.step a who = s' at hc
    cases hc with
    | same => exact h.caller who
    | turn t hat =>
      apply Session.step_no_caller (h.caller who)
      rintro rfl
      exact ha who hat
    | sent sent _ => exact h.caller who
    | arrive m _ => exact h.caller who
  acked := by
    intro who hlt hs
    apply h.completing hne ha who.other
    rcases hs with hs | hs
    · exact h.acked who hlt (h.established_origin hne ha hlt hs)
    · rcases h.ack_origin hne ha hlt hs with hs | hs
      · exact h.acked who hlt (.inr hs)
      · exact .inr hs.2
end

theorem start (tokens : Side → UInt64) (rtp : Side → Except String Unit) : Opening tokens (Net.start tokens rtp) where
  follows := by
    refine Net.follows_start (fun who => ?_) fun _ => trivial
    exact ⟨rfl,rfl,rfl, .inl rfl,by simp [Session.start],by simp [Session.start]⟩
  caller _ := rfl
  acked := by simp [Net.start,Session.start,Net.pending,Net.sent,Session.queued,Receiver.messages]
end Opening

/-- The lower side waits, the higher one is established and nothing that would complete the
handshake is on its way. -/
structure Stuck (tokens : Side → UInt64) (who : Side) (net : Net) : Prop where
  lower : tokens who < tokens who.other
  established : (net who.other).shared.established = true
  waiting : (net who).shared.established = false
  pending : ∀ m ∈ net.pending who, ¬Completes (tokens who) m

section
variable {tokens : Side → UInt64} (hne : ∀ who : Side, tokens who ≠ tokens who.other) {who : Side}
include hne

theorem Stuck.step {who : Side} {net : Net} {a : Act} (ho : Opening tokens net)
    (ha : ∀ who, a ≠ .turn who .requestClose) (h : Stuck tokens who net) :
    Stuck tokens who (net.step a) where
  lower := h.lower
  established := (ho.turned hne ha who.other).kept h.established
  waiting := by
    refine Bool.eq_false_iff.mpr fun hs => ?_
    rcases ho.established_origin hne ha h.lower hs with hs | hs
    · exact absurd (h.waiting.symm.trans hs) (by simp)
    · exact h.pending _ hs rfl
  pending := by
    intro m hm hc
    obtain rfl := ((ho.step hne ha).offered hm).eq_ack hc h.lower
    rcases ho.ack_origin hne ha h.lower hm with hm | hm
    · exact h.pending _ hm rfl
    · exact absurd (h.established.symm.trans hm.1) (by simp)

structure Deaf (who : Side) (net : Net) : Prop where
  stopped : (net who).receiver = .stopped
  waiting : (net who).shared.established = false

theorem Deaf.step {who : Side} {net : Net} {a : Act} (ho : Opening tokens net)
    (ha : ∀ who, a ≠ .turn who .requestClose) (h : Deaf who net) : Deaf who (net.step a) where
  stopped := by
    have hc := net.change a who
    generalize net.step a who = s' at hc
    cases hc with
    | same => exact h.stopped
    | turn t _ => exact Session.step_stopped h.stopped
    | sent sent _ => exact h.stopped
    | arrive m _ => exact h.stopped
  waiting := by
    refine Bool.eq_false_iff.mpr fun hs => ?_
    rcases (ho.turned hne ha who).origin hs with hs | ⟨m,hm,-⟩
    · exact absurd (h.waiting.symm.trans hs) (by simp)
    · simp [Session.handled,h.stopped] at hm

theorem Opening.run_of_step {I : Net → Prop} {net : Net} {acts : List Act} (ho : Opening tokens net)
    (hstep : ∀ net a, Opening tokens net → (∀ who, a ≠ .turn who .requestClose) → I net → I (net.step a))
    (hacts : ∀ a ∈ acts, ∀ who, a ≠ .turn who .requestClose) (h : I net) : I (net.run acts) := by
  induction acts generalizing net with
  | nil => exact h
  | cons a acts ih =>
    have ha := hacts a (by simp)
    exact ih (ho.step hne ha) (fun b hb => hacts b (by simp [hb])) (hstep net a ho ha h)

omit hne in
theorem called_step {net : Net} (hf : net.Follows fun who => CallMark.discipline (tokens who))
    (h : (net who).Called) (a : Act) : (net.step a who).Called := by
  have hc := net.change a who
  generalize net.step a who = s' at hc
  cases hc with
  | same => exact h
  | turn t _ => exact h.step (hf who) t
  | sent sent _ => exact h
  | arrive m _ => exact h

theorem called_or_opening (rtp : Side → Except String Unit) (acts : List Act) :
    (∃ who, ((Net.start tokens rtp).run acts who).Called) ∨ Opening tokens ((Net.start tokens rtp).run acts) := by
  let I (net : Net) : Prop := net.Follows (fun who => CallMark.discipline (tokens who)) ∧
    ((∃ who, (net who).Called) ∨ Opening tokens net)
  have hstart : I (Net.start tokens rtp) :=
    ⟨Net.follows_start (fun _ => trivial) fun _ => trivial, .inr (.start tokens rtp)⟩
  refine (List.foldlRecOn (motive := I) acts Net.step hstart ?_).2
  rintro net ⟨hf,hnet⟩ a -
  refine ⟨hf.step (fun _ _ _ _ _ => trivial) fun who t _ => CallMark.admits (net who) t,?_⟩
  rcases hnet with ⟨who,hc⟩ | ho
  · exact .inl ⟨who,called_step hf hc a⟩
  · by_cases ha : ∃ who, a = .turn who .requestClose
    · obtain ⟨who,rfl⟩ := ha
      refine .inl ⟨who,?_⟩
      rw [Net.step,Net.set_self]
      exact .of_call (ho.caller who)
    · exact .inr (ho.step hne fun who hw => ha ⟨who,hw⟩)

theorem Opening.recovers {net : Net} (ho : Opening tokens net)
    (hr : (net who).receiver.running = true) (hm : ∃ m ∈ net.pending who, Completes (tokens who) m) :
    ∃ more, (∀ a ∈ more, a.Continues) ∧ (net.run more who).shared.established = true := by
  have hreceive (net : Net) (ho : Opening tokens net) (hr : (net who).receiver.running = true)
      (hm : ∃ m ∈ (net who).queued, Completes (tokens who) m) :
      ∃ n, (net.run (receives who n) who).shared.established = true := by
    obtain ⟨n,hn⟩ := WillEstablish.of_queued (hne who) (ho.follows who) hr hm
    exact ⟨n,by rwa [Net.run_receives]⟩
  have hcontinues (n : ℕ) : ∀ a ∈ receives who n, a.Continues := by
    intro a ha
    obtain rfl := List.eq_of_mem_replicate ha
    trivial
  obtain ⟨m,hm,hc⟩ := hm
  rcases List.mem_append.mp hm with hm | hm
  · obtain ⟨n,hn⟩ := hreceive net ho hr ⟨m,hm,hc⟩
    exact ⟨_,hcontinues n,hn⟩
  · -- the message is still in flight, so it is delivered first
    obtain ⟨i,hi⟩ := List.mem_iff_getElem?.mp hm
    have hstep : net.step (.deliver who i) who = (net who).arrive m := by
      simp only [Net.step,hi]
      rw [Net.set_of_ne who.other_ne.symm,Net.set_self]
    obtain ⟨n,hn⟩ := hreceive (net.step (.deliver who i)) (ho.step hne (by simp))
      (by rwa [hstep]) ⟨m,by simp [hstep,Session.queued,Session.arrive],hc⟩
    refine ⟨.deliver who i :: receives who n,?_,hn⟩
    rintro a (_ | ⟨_,ha⟩)
    · trivial
    · exact hcontinues n a ha
end

structure HalfOpen (net : Net) (up : Side) : Prop where
  established : (net up).shared.established = true
  waiting : (net up.other).shared.established = false
  opening : ∀ who, ¬(net who).Closing

namespace HalfOpen
variable {tokens : Side → UInt64} {net : Net} {up : Side}
theorem completing_of_lower (h : HalfOpen net up) (ho : Opening tokens net) (hlt : tokens up < tokens up.other) :
    ∃ m ∈ (net up.other).handled, Completes (tokens up.other) m :=
  (ho.acked up hlt (.inl h.established)).resolve_left (by simp [h.waiting])

theorem stuck (h : HalfOpen net up) (hlt : tokens up.other < tokens up)
    (hm : ∀ m ∈ net.pending up.other, ¬Completes (tokens up.other) m) : Stuck tokens up.other net where
  lower := by rwa [Side.other_other]
  established := by rw [Side.other_other,h.established]
  waiting := h.waiting
  pending := hm
end HalfOpen

theorem Act.Continues.ne_requestClose {a : Act} (h : a.Continues) (who : Side) : a ≠ .turn who .requestClose := by
  rintro rfl
  exact h

/-- From every reachable half-open state, the waiting side can still be established exactly if
its receiver runs and a SYN-ACK or ACK for it is in flight, at its socket or in its receiver. -/
theorem half_open_recovers_iff (tokens : Side → UInt64)
    (hne : ∀ who : Side, tokens who ≠ tokens who.other) (rtp : Side → Except String Unit)
    (acts : List Act) (up : Side) (h : HalfOpen ((Net.start tokens rtp).run acts) up) :
    (∃ more, (∀ a ∈ more, a.Continues) ∧
        (((Net.start tokens rtp).run acts).run more up.other).shared.established = true) ↔
      ((Net.start tokens rtp).run acts up.other).receiver.running = true ∧
        ∃ m ∈ ((Net.start tokens rtp).run acts).pending up.other, Completes (tokens up.other) m := by
  have ho : Opening tokens ((Net.start tokens rtp).run acts) :=
    (called_or_opening hne rtp acts).resolve_left fun ⟨who,hc⟩ => h.opening who hc.closing
  generalize (Net.start tokens rtp).run acts = net at h ho
  constructor
  · rintro ⟨more,hmore,hest⟩
    have hacts : ∀ a ∈ more, ∀ who, a ≠ .turn who .requestClose :=
      fun a ha => (hmore a ha).ne_requestClose
    constructor
    · cases hr : (net up.other).receiver with
      | stopped =>
        have hdeaf := ho.run_of_step hne (fun _ _ => Deaf.step hne) hacts
          (⟨hr,h.waiting⟩ : Deaf up.other net)
        exact absurd (hdeaf.waiting.symm.trans hest) (by simp)
      | _ => rfl
    · by_contra hm
      have hm' : ∀ m ∈ net.pending up.other, ¬Completes (tokens up.other) m :=
        fun m hmem hc => hm ⟨m,hmem,hc⟩
      rcases UInt64.lt_or_lt_of_ne (hne up) with hlt | hgt
      · obtain ⟨m,hmem,hc⟩ := h.completing_of_lower ho hlt
        exact hm' m (List.mem_append_left _ (Session.mem_queued_of_handled hmem)) hc
      · have hstuck := ho.run_of_step hne (fun _ _ => Stuck.step hne) hacts (h.stuck hgt hm')
        exact absurd (hstuck.waiting.symm.trans hest) (by simp)
  · rintro ⟨hr,hm⟩
    exact ho.recovers hne hr hm

theorem sampleTokens_ne (who : Side) : sampleTokens who ≠ sampleTokens who.other := by
  cases who <;> decide
def ackInFlight : List Act :=
  drives .left 5 ++ [.deliver .right 0] ++ receives .right 9 ++ [.deliver .left 0] ++ receives .left 12
theorem halfOpen_ackInFlight : HalfOpen (sampleNet.run ackInFlight) .left where
  established := by decide +kernel
  waiting := by decide +kernel
  opening := by rintro (_ | _) <;> decide +kernel
theorem half_open_recovers_ackInFlight :
    ∃ more, (∀ a ∈ more, a.Continues) ∧
      ((sampleNet.run ackInFlight).run more .right).shared.established = true :=
  (half_open_recovers_iff sampleTokens sampleTokens_ne _ ackInFlight .left halfOpen_ackInFlight).mpr
    ⟨by decide +kernel, .ack 1,by decide +kernel,by decide⟩

/-- The ACK is lost: no retransmission and no delivery ever establishes the lower side, though
no timeout has fired. -/
theorem half_open_after_lost_ack :
    HalfOpen (sampleNet.run (ackInFlight ++ [.lose .left 0])) .left ∧
      (sampleNet.run (ackInFlight ++ [.lose .left 0]) .left).shared.events = [.established] ∧
      (sampleNet.run (ackInFlight ++ [.lose .left 0]) .right).shared.events = [] ∧
      ∀ more, (∀ a ∈ more, a.Continues) →
        ((sampleNet.run (ackInFlight ++ [.lose .left 0])).run more .right).shared.established =
          false := by
  have h : HalfOpen (sampleNet.run (ackInFlight ++ [.lose .left 0])) .left := {
    established := by decide +kernel
    waiting := by decide +kernel
    opening := by rintro (_ | _) <;> decide +kernel }
  have ho : Opening sampleTokens (sampleNet.run (ackInFlight ++ [.lose .left 0])) :=
    (called_or_opening sampleTokens_ne _ _).resolve_left fun ⟨who,hc⟩ => h.opening who hc.closing
  have hstuck : Stuck sampleTokens .right (sampleNet.run (ackInFlight ++ [.lose .left 0])) :=
    h.stuck (by decide) (by decide +kernel)
  refine ⟨h,by decide +kernel,by decide +kernel,fun more hmore => ?_⟩
  exact (ho.run_of_step sampleTokens_ne (fun _ _ => Stuck.step sampleTokens_ne)
    (fun a ha => (hmore a ha).ne_requestClose) hstuck).waiting
end RustyRtc.Core
