import RustyRtc.Core.Discipline
import RustyRtc.Foundation.Execution

/-! # A closing session and late handshake messages

Closing is recorded by taking down the flag that the handshake handlers test, so a late
SYN-ACK or ACK can put it up again. A session whose receiver meets no such message while it
closes stays unestablished.
-/
namespace RustyRtc.Core
variable {s : Session}
structure Calm (a b : Shared) : Prop where
  established : b.established = true → a.established = true
  events : b.events.count .established = a.events.count .established

namespace Calm
theorem iff {a b : Shared} : Calm a b ↔ (b.established = true → a.established = true) ∧
    b.events.count .established = a.events.count .established :=
  ⟨fun h => ⟨h.1,h.2⟩,fun h => ⟨h.1,h.2⟩⟩
instance (a b : Shared) : Decidable (Calm a b) := decidable_of_iff _ iff.symm
def Excepts (me : UInt64) : Thread → Prop
  | .receiver m => Completes me m
  | _ => False
def contract (me : UInt64) (th : Thread) : Contract Shared Unit where
  watch _ := ()
  guar a b := Excepts me th ∨ Calm a b
  post _ _ := True
  guar_refl _ := .inr ⟨id,rfl⟩

variable {me : UInt64}
theorem meets_handleAppMsg (m : AppMsg) (s : Shared) :
    Meets (fun _ => True) (contract me (.receiver m)) (handleAppMsg me m) s := by
  cases m with
  | syn their => simp [handleAppMsg,answerSyn,contract,iff]
  | synAck your mine | ack your => simp +contextual [handleAppMsg,establish,clearHandshake,contract,Excepts,Completes]
  | fin their | finAck your mine | finAck2 your => simp [handleAppMsg,contract,iff]
theorem meets_handshakeDriver (s : Shared) : Meets (fun _ => True) (contract me .handshake) (handshakeDriver me) s := by
  simp [handshakeDriver,contract,iff]
theorem meets_closeDriver (i : ℕ) (s : Shared) : Meets (fun _ => True) (contract me (.close i)) (closeDriver me) s := by
  simp [closeDriver,stopAll,contract,iff]
theorem meets_requestClose (s : Shared) : Meets (fun _ => True) (contract me .caller) requestClose s := by
  simp [requestClose,contract,iff]

def discipline (me : UInt64) : Discipline me Unit where
  inv _ := True
  contract := contract me
  incoming _ := True
  apart _ _ _ _ := rfl
  network _ _ _ := ⟨trivial,fun _ => rfl⟩
  recvError _ _ := ⟨trivial,fun _ => rfl⟩
  handshake s _ _ := meets_handshakeDriver s
  close i s _ _ := meets_closeDriver i s

theorem admits (s : Session) (t : Turn) : (discipline me).Admits s t :=
  (discipline me).admits_of_meets meets_handleAppMsg meets_requestClose (fun _ _ => trivial) s t

theorem of_follows (h : (discipline me).Follows s) (t : Turn)
    (hm : ∀ m ∈ s.handled, ¬Completes me m) : Calm s.shared (s.step t).shared := by
  have heff := (h.step (admits s t)).2
  generalize (s.step t).shared = b at heff
  cases heff with
  | same => exact ⟨id,rfl⟩
  | acts th hth hg =>
    refine hg.resolve_left fun hex => ?_
    cases th with
    | receiver m =>
      cases t with
      | receiver => exact hm m hth hex
      | _ => exact hth
    | _ => exact hex
  | recvError text => exact ⟨id,by simp⟩
end Calm

namespace CallMark
def contract : Contract Shared Unit where
  watch _ := ()
  guar a b := a.weInitiatedClose = true → b.weInitiatedClose = true
  post _ _ := True
  guar_refl _ := id

variable {me : UInt64}
theorem meets_handleAppMsg (m : AppMsg) (s : Shared) : Meets (fun _ => True) contract (handleAppMsg me m) s := by
  cases m <;> simp [handleAppMsg,answerSyn,establish,clearHandshake,contract]

def discipline (me : UInt64) : Discipline me Unit where
  inv _ := True
  contract _ := contract
  incoming _ := True
  apart _ _ _ _ := rfl
  network _ _ _ := ⟨trivial,fun _ => rfl⟩
  recvError _ _ := ⟨trivial,fun _ => rfl⟩
  handshake s _ _ := by simp [handshakeDriver,contract]
  close _ s _ _ := by simp [closeDriver,stopAll,contract]

theorem admits (s : Session) (t : Turn) : (discipline me).Admits s t :=
  (discipline me).admits_of_meets meets_handleAppMsg (fun _ => by simp [discipline,requestClose,contract])
    (fun _ _ => trivial) s t

theorem weInitiatedClose_step (h : (discipline me).Follows s) (t : Turn)
    (hs : s.shared.weInitiatedClose = true) : (s.step t).shared.weInitiatedClose = true := by
  have heff := (h.step (admits s t)).2
  generalize (s.step t).shared = b at heff
  cases heff with
  | same => exact hs
  | acts th _ hg => exact hg hs
  | recvError text => exact hs
end CallMark

/-- `request_close` has been called, though its first store may still be to come. -/
def Session.Called (s : Session) : Prop :=
  s.caller = some requestClose ∨ s.shared.weInitiatedClose = true

namespace Session.Called
variable {me : UInt64} {s : Session}
theorem closing (h : s.Called) : s.Closing :=
  h.imp (fun hc => by simp [hc]) .inl
theorem of_call (h : s.caller = none) : (s.step .requestClose).Called :=
  .inl (by simp [Session.step,Session.requestCloseTurn,h])

theorem step (hf : (CallMark.discipline me).Follows s) (h : s.Called) (t : Turn) :
    (s.step t).Called := by
  rcases h with hc | hw
  · by_cases ht : t = .caller
    · subst ht
      exact .inr (by simp [Session.step,Session.callerTurn,hc,requestClose,Prog.store,Prog.step])
    · refine .inl ?_
      by_cases ht' : t = .requestClose
      · subst ht'
        simp [Session.step,Session.requestCloseTurn,hc]
      · rw [Session.step_caller ht' ht,hc]
  · exact .inr (CallMark.weInitiatedClose_step hf t hw)
end Session.Called

def ClosesUndisturbed (who : Side) (net : Net) (_ : Act) : Prop :=
  (net who).Closing → ∀ m ∈ (net who).handled, ¬Completes (net who).tokenLocal m
def StaysClosing (who : Side) (net : Net) (a : Act) : Prop :=
  (net who).Closing → Calm (net who).shared (net.step a who).shared

/-- From `request_close` on, no step of either side establishes the closing session again, unless it handles a message
that completes a handshake. -/
theorem closing_stays_unestablished (tokens : Side → UInt64) (rtp : Side → Except String Unit)
    (acts : List Act) (who : Side)
    (h : Along Net.step (ClosesUndisturbed who) (Net.start tokens rtp) acts) :
    Along Net.step (StaysClosing who) (Net.start tokens rtp) acts := by
  let D : ∀ who, Discipline (tokens who) Unit := fun who => Calm.discipline (tokens who)
  have hstart : (Net.start tokens rtp).Follows D :=
    Net.follows_start (fun _ => trivial) fun _ => trivial
  refine h.imp_of_invariant (I := Net.Follows D) ?_ ?_ hstart
  · intro net a hnet _
    exact hnet.step (fun _ _ _ _ _ => trivial) fun who t _ => Calm.admits (net who) t
  · intro net a hnet hp hclosing
    have hc := net.change a who
    generalize net.step a who = s' at hc
    cases hc with
    | same => exact ⟨id,rfl⟩
    | turn t ht =>
      apply Calm.of_follows (hnet who) t
      simpa only [(hnet who).token] using hp hclosing
    | sent sent hsub => exact ⟨id,rfl⟩
    | arrive m hm => exact ⟨id,rfl⟩

instance (who : Side) (net : Net) (a : Act) : Decidable (ClosesUndisturbed who net a) :=
  inferInstanceAs (Decidable (_ → ∀ m ∈ _, ¬_))
def establishThenClose : List Act :=
  drives .left 5 ++ [.deliver .right 0] ++ receives .right 9 ++ [.duplicate .right 0, .deliver .left 0] ++
    receives .left 12 ++ [.turn .left .requestClose, .turn .left .caller, .turn .left .caller]

theorem closing_stays_unestablished_late_syn :
    ∃ acts, (sampleNet.run acts .left).Closing ∧ Along Net.step (StaysClosing .left) sampleNet acts := by
  -- the SYN of the right side comes in after the call
  let acts := establishThenClose ++ drives .right 5 ++ [.deliver .left 1] ++ receives .left 10
  have halong : Along Net.step (ClosesUndisturbed .left) sampleNet acts := by decide +kernel
  refine ⟨acts,by decide +kernel,?_⟩
  exact closing_stays_unestablished sampleTokens _ acts .left halong

/-- The repeated SYN-ACK arrives after `request_close` and establishes the session again. -/
theorem closing_established_again :
    (sampleNet.run establishThenClose .left).Closing ∧
      (sampleNet.run establishThenClose .left).shared.established = false ∧
      (sampleNet.run establishThenClose .left).shared.events = [.established] ∧
      (sampleNet.run (establishThenClose ++ [.deliver .left 0] ++ receives .left 10)
        .left).shared.established = true ∧
      (sampleNet.run (establishThenClose ++ [.deliver .left 0] ++ receives .left 10)
        .left).shared.events = [.established, .established] := by
  decide +kernel
end RustyRtc.Core
