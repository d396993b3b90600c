import RustyRtc.Core.Discipline
import Mathlib.Data.List.Basic

/-! # How often a session announces its end

The handler of FIN-ACK2 and the close driver both tell the engine that the session is closed,
each without regard to the other. A run in which only one of them is set off, and once,
announces the end at most once.
-/
namespace RustyRtc.Core
open Session
variable {me : UInt64} {t t' : Thread} {k : ℕ} {net : Net} {who : Side}

@[simp] def EngineEvent.isClose : EngineEvent → Bool
  | .closing _ | .closed => true
  | .established | .error _ => false
def closeEvents (events : List EngineEvent) : List EngineEvent := events.filter EngineEvent.isClose
@[simp] theorem closeEvents_concat (events : List EngineEvent) (e : EngineEvent) :
    closeEvents (events ++ [e]) = closeEvents events ++ if e.isClose then [e] else [] := by
  cases e <;> simp [closeEvents]
def farewell : List EngineEvent := [.closing true, .closed]

/-- Which thread announces the end: the receiver on FIN-ACK2 or the close driver. -/
inductive Announcer where
  | peer
  | call
def Announcer.Speaks (me : UInt64) : Announcer → Thread → Prop
  | .peer, .receiver m => m = .finAck2 me
  | .call, .close i => i = 0
  | _, _ => False
instance (me : UInt64) : ∀ (how : Announcer) (th : Thread), Decidable (how.Speaks me th)
  | .peer, .receiver m => inferInstanceAs (Decidable (m = .finAck2 me))
  | .call, .close i => inferInstanceAs (Decidable (i = 0))
  | .peer, .handshake | .peer, .caller | .peer, .close _ => isFalse id
  | .call, .receiver _ | .call, .handshake | .call, .caller => isFalse id

theorem Announcer.Speaks.not_apart {how : Announcer} (h : how.Speaks me t) (h' : how.Speaks me t') : ¬t.Apart t' := by
  cases how with
  | peer =>
    cases t with
    | receiver m =>
      cases t' with
      | receiver m' => exact id
      | _ => exact h'.elim
    | _ => exact h.elim
  | call =>
    cases t with
    | close i =>
      cases t' with
      | close j =>
        obtain rfl : i = 0 := h
        obtain rfl : j = 0 := h'
        exact fun hap => hap rfl
      | _ => exact h'.elim
    | _ => exact h.elim

namespace CloseEvents
variable {code : Code} {f : Shared → Shared} {a b : Shared}
def inv (s : Shared) : Prop := (closeEvents s.events).Sublist farewell

/-- A thread that announces nothing; a close driver on these terms never starts. -/
def silent (th : Thread) : Contract Shared (List EngineEvent) where
  watch _ := []
  guar a b := closeEvents b.events = closeEvents a.events
  post _ _ := ∀ i, th ≠ .close i
  guar_refl _ := rfl
def announcer : Contract Shared (List EngineEvent) where
  watch s := closeEvents s.events
  guar _ _ := True
  post again s := again = true → closeEvents s.events = []
  guar_refl _ := trivial

variable {me : UInt64} {s : Shared}
theorem silent_store {th : Thread} (hf : ∀ t, closeEvents (f t).events = closeEvents t.events)
    (hp : Meets inv (silent th) code s) : Meets inv (silent th) (.store f code) s := by
  refine .store (fun t ht _ => ⟨?_,hf t,rfl⟩) hp
  rw [inv,hf t]
  exact ht

theorem meets_silent {m : AppMsg} (hm : m ≠ .finAck2 me) : Meets inv (silent (.receiver m)) (handleAppMsg me m) s := by
  cases m with
  | syn their => simp [handleAppMsg,answerSyn,silent,inv]
  | synAck your mine | ack your => simp +contextual [handleAppMsg,establish,clearHandshake,silent,inv]
  | fin their | finAck your mine => simp [handleAppMsg,silent,inv]
  | finAck2 your =>
    have : your ≠ me := fun h => hm (h ▸ rfl)
    simp [handleAppMsg,silent,this]

theorem announcer_store (hf : ∀ t, (f t).events = t.events)
    (hp : Meets inv announcer code s) : Meets inv announcer (.store f code) s := by
  refine .store (fun t ht _ => ⟨?_,trivial,congrArg closeEvents (hf t)⟩) hp
  rw [inv,hf t]
  exact ht

theorem announcer_emit {e : EngineEvent} (he : e.isClose = true) (hs : (closeEvents s.events ++ [e]).Sublist farewell)
    (hp : Meets inv announcer code { s with events := s.events ++ [e] }) :
    Meets inv announcer (Code.emit e code) s := by
  refine .storeTo _ (fun t _ hw => ?_) hp
  have hev : closeEvents (t.events ++ [e]) = closeEvents s.events ++ [e] := by
    rw [closeEvents_concat,if_pos he]
    exact congrArg (· ++ [e]) hw
  refine ⟨?_,trivial,hev.trans ?_⟩
  · rw [inv,hev]
    exact hs
  · change _ = closeEvents (s.events ++ [e])
    rw [closeEvents_concat,if_pos he]

theorem meets_finAck2 (hs : closeEvents s.events = []) : Meets inv announcer (handleAppMsg me (.finAck2 me)) s := by
  rw [handleAppMsg,if_pos rfl]
  refine announcer_store (fun _ => rfl) (announcer_store (fun _ => rfl) ?_)
  refine announcer_emit rfl (by rw [hs]; decide) (announcer_emit rfl ?_ ?_)
  · rw [closeEvents_concat,hs]
    decide
  · exact announcer_store (fun _ => rfl) (announcer_store (fun _ => rfl) (.ret fun _ _ _ => nofun))

theorem meets_handshakeDriver : Meets inv (silent .handshake) (handshakeDriver me) s := by
  have hret (again : Bool) : Meets inv (silent .handshake) (.ret again : Code) s :=
    .ret fun _ _ _ _ => nofun
  refine meets_handshakeDriver_of hret ?_ ?_ ?_
  · exact silent_store (by simp) (hret false)
  · exact silent_store fun _ => rfl
  · intro _ _ _ _ _ _
    exact silent_store (fun _ => rfl) (silent_store (fun _ => rfl) (hret true))

theorem meets_requestClose : Meets inv (silent .caller) requestClose s := by
  simp [requestClose,silent,inv]

theorem meets_closeDriver (hs : closeEvents s.events = []) : Meets inv announcer (closeDriver me) s := by
  have hagain : Meets inv announcer (.ret true : Code) s := .ret fun t _ hw _ => Eq.trans hw hs
  refine meets_closeDriver_of hagain ?_ ?_ ?_
  · refine announcer_store (fun _ => rfl) (announcer_emit rfl (by rw [hs]; decide) ?_)
    exact .ret fun _ _ _ => nofun
  · exact announcer_store fun _ => rfl
  · intro _ _ _
    exact announcer_store (fun _ => rfl) hagain

/-- The contracts of a run in which `how` is the one way the end is announced. -/
def contract (me : UInt64) (how : Announcer) (th : Thread) : Contract Shared (List EngineEvent) :=
  if how.Speaks me th then announcer else silent th
theorem watch_eq (how : Announcer) (th : Thread) (h : closeEvents b.events = closeEvents a.events) :
    (contract me how th).watch b = (contract me how th).watch a := by
  unfold contract
  split
  · exact h
  · rfl

theorem apart (how : Announcer) (hap : t.Apart t') (hg : (contract me how t).guar a b) :
    (contract me how t').watch b = (contract me how t').watch a := by
  by_cases h : how.Speaks me t
  · have h' : ¬how.Speaks me t' := fun h' => h.not_apart h' hap
    simp only [contract,if_neg h',silent]
  · rw [contract,if_neg h] at hg
    exact watch_eq how t' hg

def discipline (me : UInt64) (how : Announcer) : Discipline me (List EngineEvent) where
  inv := inv
  contract := contract me how
  incoming _ := True
  apart hap _ _ hg := apart how hap hg
  network h _ _ := ⟨h,fun th => watch_eq how th rfl⟩
  recvError {s} h text := by
    have he : closeEvents (s.events ++ [.error text]) = closeEvents s.events := by simp
    exact ⟨show List.Sublist _ _ from he ▸ h,fun th => watch_eq how th he⟩
  handshake s _ _ := by
    cases how <;> exact meets_handshakeDriver
  close i s _ hp := by
    unfold contract at hp ⊢
    split at hp
    · next h =>
      rw [if_pos h]
      exact meets_closeDriver (hp rfl)
    · exact absurd rfl (hp i)
end CloseEvents

/-- The turn sets off an announcement: `request_close` is called, or the receiver takes a
FIN-ACK2 meant for this session. -/
def Session.Triggers (s : Session) : Turn → Prop
  | .requestClose => s.caller = none
  | .receiver => s.upcoming = some (.finAck2 s.tokenLocal)
  | _ => False
instance (s : Session) : DecidablePred s.Triggers
  | .requestClose => match h : s.caller with
    | none => isTrue h
    | some _ => isFalse (by simp [Session.Triggers,h])
  | .receiver => inferInstanceAs (Decidable (_ = _))
  | .recvError _ | .handshake _ | .caller | .close _ _ => isFalse id

open CloseEvents

/-- How far a session is with closing after at most one trigger. -/
inductive CloseProgress (me : UInt64) : ℕ → Session → Prop where
  | quiet {s : Session} (h : ∀ how, (discipline me how).Follows s) (hcaller : s.caller = none)
      (hclose : s.closeDrivers = []) (hev : closeEvents s.shared.events = []) : CloseProgress me 0 s
  | peer {s : Session} (h : (discipline me .peer).Follows s) (hcaller : s.caller = none)
      (hclose : s.closeDrivers = []) : CloseProgress me 1 s
  | calling {s : Session} (h : (discipline me .call).Follows s) (hclose : s.closeDrivers = [])
      (hev : closeEvents s.shared.events = []) : CloseProgress me 1 s
  | called {s : Session} (h : (discipline me .call).Follows s) (hcaller : s.caller = none) :
      CloseProgress me 1 s

namespace CloseProgress
variable {me : UInt64} {k : ℕ} {s : Session} {t : Turn}
theorem inv (h : CloseProgress me k s) : (closeEvents s.shared.events).Sublist farewell := by
  cases h with
  | quiet h => exact (h .peer).inv
  | peer h | calling h | called h => exact h.inv

theorem withSent (h : CloseProgress me k s) {sent : List AppMsg} (hsub : sent ⊆ s.shared.sent) :
    CloseProgress me k (s.withSent sent) := by
  cases h with
  | quiet h hcaller hclose hev => exact .quiet (fun how => (h how).withSent hsub) hcaller hclose hev
  | peer h hcaller hclose => exact .peer (h.withSent hsub) hcaller hclose
  | calling h hclose hev => exact .calling (h.withSent hsub) hclose hev
  | called h hcaller => exact .called (h.withSent hsub) hcaller

theorem arrive (h : CloseProgress me k s) (m : AppMsg) : CloseProgress me k (s.arrive m) := by
  cases h with
  | quiet h hcaller hclose hev => exact .quiet (fun how => (h how).arrive trivial) hcaller hclose hev
  | peer h hcaller hclose => exact .peer (h.arrive trivial) hcaller hclose
  | calling h hclose hev => exact .calling (h.arrive trivial) hclose hev
  | called h hcaller => exact .called (h.arrive trivial) hcaller

theorem closeEvents_step (h : (discipline me .call).Follows s) (hclose : s.closeDrivers = [])
    (ha : (discipline me .call).Admits s t) (hev : closeEvents s.shared.events = []) :
    closeEvents (s.step t).shared.events = [] := by
  have heff := (h.step ha).2
  cases t with
  | close i clock => rwa [Session.step,closeTurn_of_nil hclose]
  | _ =>
    generalize (s.step _).shared = b at heff
    cases heff with
    | same => exact hev
    | acts th hth hg =>
      cases th with
      | close i => exact hth.elim
      | _ => exact Eq.trans hg hev
    | recvError text => simpa using hev

theorem admits_receiver (h : s.tokenLocal = me) (how : Announcer) (ht : ¬s.Triggers .receiver) :
    (discipline me how).Admits s .receiver := by
  intro m hup
  have hm : m ≠ .finAck2 me := by
    rintro rfl
    exact ht (by rw [Session.Triggers,hup,h])
  have hsilent : ¬how.Speaks me (.receiver m) := by
    cases how with
    | peer => exact hm
    | call => exact id
  simp only [discipline,contract,if_neg hsilent]
  exact meets_silent hm

theorem admits_of_no_caller (h : s.tokenLocal = me) (hcaller : s.caller = none) (how : Announcer)
    (ht : ¬s.Triggers t) : (discipline me how).Admits s t := by
  cases t with
  | receiver => exact admits_receiver h how ht
  | requestClose => exact absurd hcaller ht
  | caller =>
    intro again hc
    simp [hcaller] at hc
  | _ => trivial

theorem admits_calling (h : (discipline me .call).Follows s) (hclose : s.closeDrivers = [])
    (hev : closeEvents s.shared.events = []) (ht : ¬s.Triggers t) : (discipline me .call).Admits s t := by
  cases t with
  | receiver => exact admits_receiver h.token .call ht
  | requestClose => exact meets_requestClose
  | caller =>
    intro again _
    rw [hclose]
    exact fun _ => hev
  | _ => trivial

theorem step_calling (h : (discipline me .call).Follows s) (hclose : s.closeDrivers = [])
    (hev : closeEvents s.shared.events = []) (ht : ¬s.Triggers t) : CloseProgress me 1 (s.step t) := by
  have ha := admits_calling h hclose hev ht
  have hf := (h.step ha).1
  have hev' := closeEvents_step h hclose ha hev
  by_cases hspawn : t = .caller ∧ ∃ again, s.caller = some (.ret again)
  · obtain ⟨rfl,again,hc⟩ := hspawn
    exact .called hf (by simp [Session.step,Session.callerTurn,hc])
  · refine .calling hf ?_ hev'
    cases t with
    | caller =>
      cases hc : s.caller with
      | none => exact step_closeDrivers hclose fun _ => hc
      | some code =>
        cases code with
        | ret again => exact absurd ⟨rfl,again,hc⟩ hspawn
        | atom f next | await next => simp [Session.step,Session.callerTurn,hc,hclose]
    | _ => exact step_closeDrivers hclose (by simp)

theorem step (h : CloseProgress me k s) (ht : ¬s.Triggers t) : CloseProgress me k (s.step t) := by
  have hne (hcaller : s.caller = none) : t ≠ .requestClose := by
    rintro rfl
    exact ht hcaller
  cases h with
  | quiet h hcaller hclose hev =>
    have ha how := admits_of_no_caller (h how).token hcaller how ht
    exact .quiet (fun how => ((h how).step (ha how)).1)
      (step_no_caller hcaller (hne hcaller)) (step_closeDrivers hclose fun _ => hcaller)
      (closeEvents_step (h .call) hclose (ha .call) hev)
  | peer h hcaller hclose =>
    exact .peer (h.step (admits_of_no_caller h.token hcaller .peer ht)).1
      (step_no_caller hcaller (hne hcaller)) (step_closeDrivers hclose fun _ => hcaller)
  | calling h hclose hev => exact step_calling h hclose hev ht
  | called h hcaller =>
    exact .called (h.step (admits_of_no_caller h.token hcaller .call ht)).1
      (step_no_caller hcaller (hne hcaller))

theorem trigger (h : CloseProgress me 0 s) (ht : s.Triggers t) : CloseProgress me 1 (s.step t) := by
  obtain ⟨h,hcaller,hclose,hev⟩ := h
  cases t with
  | requestClose =>
    have ha : (discipline me .call).Admits s .requestClose := meets_requestClose
    exact .calling ((h .call).step ha).1 (step_closeDrivers hclose (by simp))
      (closeEvents_step (h .call) hclose ha hev)
  | receiver =>
    have ha : (discipline me .peer).Admits s .receiver := by
      intro m hup
      obtain rfl : m = .finAck2 me := by
        rw [Session.Triggers,(h .peer).token] at ht
        exact Option.some.inj (hup.symm.trans ht)
      have hspeaks : Announcer.peer.Speaks me (.receiver (.finAck2 me)) := rfl
      simp only [discipline,contract,if_pos hspeaks]
      exact meets_finAck2 hev
    exact .peer ((h .peer).step ha).1 (s.receive_frame.1.trans hcaller)
      (s.receive_frame.2.trans hclose)
  | _ => exact ht.elim
end CloseProgress

def Net.triggers (who : Side) (net : Net) : Act → ℕ
  | .turn side t => if side = who ∧ (net side).Triggers t then 1 else 0
  | _ => 0
def closeTriggers (who : Side) : Net → List Act → ℕ
  | _, [] => 0
  | net, a :: acts => net.triggers who a + closeTriggers who (net.step a) acts

theorem CloseProgress.net_step {a : Act} (h : CloseProgress me k (net who)) (hk : k + net.triggers who a ≤ 1) :
    CloseProgress me (k + net.triggers who a) (net.step a who) := by
  have hc := net.change a who
  cases a with
  | turn side t =>
    by_cases hside : side = who
    · subst hside
      rw [Net.step,Net.set_self]
      by_cases ht : (net side).Triggers t
      · obtain rfl : k = 0 := by
          simp only [Net.triggers,ht,and_self,if_true] at hk
          omega
        simpa [Net.triggers,ht] using h.trigger ht
      · simpa [Net.triggers,ht] using h.step ht
    · rw [Net.step,Net.set_of_ne (Ne.symm hside)]
      simpa [Net.triggers,hside] using h
  | _ =>
    generalize net.step _ who = s' at hc
    cases hc with
    | same => exact h
    | turn t ht => exact Act.noConfusion ht
    | sent sent hsub => exact h.withSent hsub
    | arrive m hm => exact h.arrive m

theorem CloseProgress.run {acts : List Act}
    (h : CloseProgress me k (net who)) (hk : k + closeTriggers who net acts ≤ 1) :
    (closeEvents (net.run acts who).shared.events).Sublist farewell := by
  induction acts generalizing k net with
  | nil => exact h.inv
  | cons a acts ih =>
    rw [closeTriggers,← Nat.add_assoc] at hk
    exact ih (h.net_step (Nat.le_trans (Nat.le_add_right _ _) hk)) hk

theorem closeProgress_start (token : UInt64) (rtp : Except String Unit) :
    CloseProgress token 0 (Session.start token rtp) := by
  have hev : closeEvents (Session.start token rtp).shared.events = [] := by
    cases rtp <;> rfl
  refine .quiet (fun how => ?_) rfl rfl hev
  refine (discipline token how).follows_start ?_ ?_
  · change List.Sublist _ _
    rw [hev]
    exact List.nil_sublist _
  · cases how <;> exact fun i => Thread.noConfusion

/-- A run of a side that sets off at most one announcement, by its own `request_close` or by
a FIN-ACK2, announces the end at most once, and a `Closing` comes before the `Closed`. -/
theorem close_announced_once (tokens : Side → UInt64) (rtp : Side → Except String Unit)
    (acts : List Act) (who : Side) (h : closeTriggers who (Net.start tokens rtp) acts ≤ 1) :
    (closeEvents ((Net.start tokens rtp).run acts who).shared.events).Sublist
      [.closing true, .closed] :=
  (closeProgress_start (tokens who) (rtp who)).run (by rwa [Nat.zero_add])
def closes (n : ℕ) (clock : Clock) : List Act := List.replicate n (.turn .left (.close 0 clock))
def establishAndRequest : List Act :=
  drives .left 5 ++ [.deliver .right 0] ++ receives .right 9 ++ [.deliver .left 0] ++
    receives .left 12 ++ .turn .left .requestClose :: List.replicate 5 (.turn .left .caller) ++
    closes 8 ⟨false,true⟩
def timedOutClose : List Act := establishAndRequest ++ closes 6 ⟨true,true⟩

theorem close_announced_once_timeout :
    closeTriggers .left sampleNet timedOutClose ≤ 1 ∧
      (closeEvents (sampleNet.run timedOutClose .left).shared.events).Sublist
        [.closing true, .closed] := by
  have h : closeTriggers .left sampleNet timedOutClose ≤ 1 := by decide +kernel
  unfold sampleNet at h ⊢
  exact ⟨h,close_announced_once sampleTokens _ timedOutClose .left h⟩

/-- Every datagram arrives once and in order: the peer answers the driver's FIN and FIN-ACK
with FIN-ACK and FIN-ACK2. -/
def gracefulClose : List Act :=
  establishAndRequest ++ List.replicate 3 (.deliver .right 0) ++ receives .right 30 ++
    List.replicate 2 (.deliver .left 0) ++ receives .left 20 ++ closes 6 ⟨false,true⟩
theorem graceful_close_announced_twice :
    (sampleNet.run gracefulClose .left).shared.events =
      [.established, .closing true, .closed, .closed] := by
  decide +kernel
end RustyRtc.Core
