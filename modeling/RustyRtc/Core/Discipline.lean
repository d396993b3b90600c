import RustyRtc.Core.Network

/-! # Contracts for the threads of a session

A discipline gives every thread of a session a contract over one invariant of the shared
state. A session that follows it keeps following it through every turn that the discipline
admits, and so do two sessions on a network.
-/
namespace RustyRtc.Core
open Receiver

section Drivers
variable {α : Type} {inv : Shared → Prop} {c : Contract Shared α} {s : Shared} {me : UInt64}

/-- The driver answers with SYN-ACK and ACK only if it has found the flag up and a token. -/
theorem meets_handshakeDriver_of (hret : ∀ again, Meets inv c (.ret again : Code) s)
    (htimeout : Meets inv c (Code.emit (.error "handshake timeout") (.ret false)) s)
    (hsyn : ∀ {code : Code}, Meets inv c code s → Meets inv c (Code.send (.syn me) code) s)
    (hanswer : ∀ t u, inv t → t.hsSentSynack = true → inv u → u.tokenPeer ≠ 0 →
      Meets inv c (Code.send (.synAck u.tokenPeer me) <| Code.send (.ack u.tokenPeer) <| .ret true) s) :
    Meets inv c (handshakeDriver me) s := by
  refine .load fun _ _ _ => ?_
  split
  · exact hret false
  refine .load fun _ _ _ => ?_
  split
  · exact hret false
  intro started
  dsimp only
  split
  · exact htimeout
  intro last
  dsimp only
  split
  · exact hret true
  refine hsyn (.load fun _ _ _ => ?_)
  split
  · exact hret true
  refine .load fun t ht _ => ?_
  split
  · exact hret true
  next hsent =>
  refine .load fun u hu _ => ?_
  split
  · exact hret true
  next htok =>
  exact hanswer t u ht (by simpa using hsent) hu htok

theorem meets_closeDriver_of (hagain : Meets inv c (.ret true : Code) s) (hstop : Meets inv c stopAll s)
    (hfin : ∀ {code : Code}, Meets inv c code s → Meets inv c (Code.send (.fin me) code) s)
    (hfinAck : ∀ t, inv t → t.tokenPeer ≠ 0 → Meets inv c (Code.send (.finAck t.tokenPeer me) <| .ret true) s) :
    Meets inv c (closeDriver me) s := by
  refine .load fun _ _ _ => ?_
  split
  · exact hstop
  refine .load fun _ _ _ => ?_
  split
  · exact hstop
  intro started
  dsimp only
  split
  · exact hstop
  intro last
  dsimp only
  split
  · exact hagain
  refine hfin (.load fun t ht _ => ?_)
  split
  · exact hagain
  next htok =>
  exact hfinAck t ht htok
end Drivers

inductive Thread where
  | receiver (m : AppMsg)
  | handshake
  | caller
  | close (i : ℕ)
def Thread.Apart : Thread → Thread → Prop
  | .receiver _, .receiver _ => False
  | t, t' => t ≠ t'
def Session.Acts (s : Session) : Turn → Thread → Prop
  | .receiver, .receiver m => s.handled = some m
  | .handshake _, .handshake => True
  | .caller, .caller => True
  | .close i _, .close j => i = j
  | _, _ => False

structure Discipline (token : UInt64) (α : Type) where
  inv : Shared → Prop
  contract : Thread → Contract Shared α
  incoming : AppMsg → Prop
  apart : ∀ {t t' : Thread}, t.Apart t' → ∀ {a b}, (contract t).guar a b →
    (contract t').watch b = (contract t').watch a
  network : ∀ {s}, inv s → ∀ {sent}, sent ⊆ s.sent → inv { s with sent := sent } ∧
    ∀ t, (contract t).watch { s with sent := sent } = (contract t).watch s
  recvError : ∀ {s}, inv s → ∀ text, inv { s with events := s.events ++ [.error text] } ∧
    ∀ t, (contract t).watch { s with events := s.events ++ [.error text] } = (contract t).watch s
  handshake : ∀ s, inv s → (contract .handshake).post true s →
    Meets inv (contract .handshake) (handshakeDriver token) s
  close : ∀ i s, inv s → (contract (.close i)).post true s →
    Meets inv (contract (.close i)) (closeDriver token) s

namespace Discipline
variable {token : UInt64} {α : Type} (D : Discipline token α)
structure Follows (s : Session) : Prop where
  token : s.tokenLocal = token
  inv : D.inv s.shared
  queued : ∀ m ∈ s.queued, D.incoming m
  handling : ∀ m code batch, s.receiver = .handling m code batch →
    Meets D.inv (D.contract (.receiver m)) code s.shared
  handshake : Meets D.inv (D.contract .handshake) s.handshake s.shared
  caller : ∀ code, s.caller = some code → Meets D.inv (D.contract .caller) code s.shared
  close : ∀ i code, s.closeDrivers[i]? = some code →
    Meets D.inv (D.contract (.close i)) code s.shared

def Admits (s : Session) : Turn → Prop
  | .receiver => ∀ m, s.upcoming = some m →
      Meets D.inv (D.contract (.receiver m)) (handleAppMsg token m) s.shared
  | .requestClose => Meets D.inv (D.contract .caller) requestClose s.shared
  | .caller => ∀ again, s.caller = some (.ret again) →
      (D.contract (.close s.closeDrivers.length)).post true s.shared
  | _ => True

/-- Code that meets its contract from any state may always be started. -/
theorem admits_of_meets (hhandle : ∀ m s, Meets D.inv (D.contract (.receiver m)) (handleAppMsg token m) s)
    (hrequest : ∀ s, Meets D.inv (D.contract .caller) requestClose s)
    (hpost : ∀ i s, (D.contract (.close i)).post true s) (s : Session) (t : Turn) : D.Admits s t := by
  cases t with
  | receiver => exact fun m _ => hhandle m s.shared
  | requestClose => exact hrequest s.shared
  | caller => exact fun _ _ => hpost _ s.shared
  | _ => trivial

/-- What a turn does to the shared state is within the contract of the thread that acts. -/
inductive Effect (s : Session) (t : Turn) : Shared → Prop where
  | same : Effect s t s.shared
  | acts (th : Thread) (h : s.Acts t th) {b : Shared} (hg : (D.contract th).guar s.shared b) :
      Effect s t b
  | recvError (text : String) :
      Effect s t { s.shared with events := s.shared.events ++ [.error text] }

namespace Follows
variable {D} {s : Session} (h : D.Follows s) {m : AppMsg}
include h

theorem of_watch {s' : Session} (hs : s' = { s with shared := s'.shared }) (hinv : D.inv s'.shared)
    (hw : ∀ t, (D.contract t).watch s'.shared = (D.contract t).watch s.shared) : D.Follows s' := by
  rw [hs]
  exact {
    token := h.token
    inv := hinv
    queued := h.queued
    handling := fun m code batch hr => (h.handling m code batch hr).rely (hw _)
    handshake := h.handshake.rely (hw _)
    caller := fun code hc => (h.caller code hc).rely (hw _)
    close := fun i code hc => (h.close i code hc).rely (hw _) }

theorem withSent {sent : List AppMsg} (hsub : sent ⊆ s.shared.sent) : D.Follows (s.withSent sent) :=
  have hn := D.network h.inv hsub
  h.of_watch rfl hn.1 hn.2

theorem arrive (hm : D.incoming m) : D.Follows (s.arrive m) where
  token := h.token
  inv := h.inv
  queued := by
    intro m' hm'
    simp only [Session.queued,Session.arrive,← List.append_assoc,List.mem_append,
      List.mem_singleton] at hm'
    rcases hm' with hm' | rfl
    · exact h.queued m' (List.mem_append.mpr hm')
    · exact hm
  handling := h.handling
  handshake := h.handshake
  caller := h.caller
  close := h.close

theorem moved {r : Receiver} {inbox : List AppMsg} (hq : r.messages ++ inbox ⊆ s.queued)
    (hr : ∀ m code batch, r = .handling m code batch → Meets D.inv (D.contract (.receiver m)) code s.shared) :
    D.Follows { s with receiver := r, inbox := inbox } where
  token := h.token
  inv := h.inv
  queued := fun m hm => h.queued m (hq hm)
  handling := hr
  handshake := h.handshake
  caller := h.caller
  close := h.close

theorem handle {code : Code} {batch : List AppMsg} (hr : s.receiver = .handling m code batch) :
    D.Follows (s.handle m batch code) ∧ D.Effect s .receiver (s.handle m batch code).shared := by
  have hq : ∀ x ∈ m :: batch ++ s.inbox, D.incoming x := by
    simpa [Session.queued,hr,messages] using h.queued
  have hact : D.inv (code.step ⟨false,false⟩ s.shared).2 ∧
      (D.contract (.receiver m)).guar s.shared (code.step ⟨false,false⟩ s.shared).2 ∧
      Meets D.inv (D.contract (.receiver m)) (code.step ⟨false,false⟩ s.shared).1
        (code.step ⟨false,false⟩ s.shared).2 :=
    (h.handling m code batch hr).step h.inv ⟨false,false⟩
  have hruns : D.Follows { s with
      receiver := .handling m (code.step ⟨false,false⟩ s.shared).1 batch
      shared := (code.step ⟨false,false⟩ s.shared).2 } := {
    token := h.token
    inv := hact.1
    queued := hq
    handling := by
      rintro _ _ _ ⟨⟩
      exact hact.2.2
    handshake := h.handshake.rely (D.apart (by simp [Thread.Apart]) hact.2.1)
    caller := fun c hc => (h.caller c hc).rely (D.apart (by simp [Thread.Apart]) hact.2.1)
    close := fun i c hc => (h.close i c hc).rely (D.apart (by simp [Thread.Apart]) hact.2.1) }
  have heff : D.Effect s .receiver (code.step ⟨false,false⟩ s.shared).2 :=
    .acts (.receiver m) (by simp [Session.Acts,Session.handled,hr]) hact.2.1
  cases code with
  | ret again =>
    refine ⟨h.moved ?_ (by simp), .same⟩
    simp [Session.queued,hr,messages]
  | atom f next | await next => exact ⟨hruns,heff⟩

theorem receive (ha : D.Admits s .receiver) : D.Follows s.receive ∧ D.Effect s .receiver s.receive.shared := by
  unfold Session.receive
  split
  · next hr =>
    refine ⟨h.moved ?_ ?_, .same⟩
    · split <;> simp [Session.queued,messages]
    · split <;> simp
  · next hr => exact ⟨h.moved (by simp [Session.queued,hr,messages]) (by simp), .same⟩
  · next left batch hr =>
    cases hi : s.inbox with
    | nil => exact ⟨h.moved (by simp [Session.queued,hr,hi,messages]) (by simp), .same⟩
    | cons m inbox =>
      exact ⟨h.moved (by simp [Session.queued,hr,hi,messages]) (by simp), .same⟩
  · exact ⟨h.moved (by simp [Session.queued,messages]) (by simp), .same⟩
  · next m batch hr =>
    refine ⟨h.moved (by simp [Session.queued,hr,messages]) ?_, .same⟩
    rintro _ _ _ ⟨⟩
    rw [h.token]
    exact ha m (by simp [Session.upcoming,hr])
  · next m code batch hr => exact h.handle hr
  · exact ⟨h, .same⟩

theorem recvError (text : String) :
    D.Follows (s.recvError text) ∧ D.Effect s (.recvError text) (s.recvError text).shared := by
  unfold Session.recvError
  split
  · have he := D.recvError h.inv ("recv error: " ++ text)
    refine ⟨?_, .recvError _⟩
    exact (h.moved (r := .stopped) (by simp [Session.queued,messages]) (by simp)).of_watch
      rfl he.1 he.2
  · exact ⟨h, .same⟩

theorem handshakeTurn (clock : Clock) : D.Follows (s.handshakeTurn clock) ∧
      D.Effect s (.handshake clock) (s.handshakeTurn clock).shared := by
  obtain rfl := h.token
  have hact := h.handshake.resume D.handshake h.inv clock
  have hacts : s.Acts (.handshake clock) .handshake := trivial
  refine ⟨?_, .acts .handshake hacts hact.2.1⟩
  exact {
    token := h.token
    inv := hact.1
    queued := h.queued
    handling := fun m c b hr =>
      (h.handling m c b hr).rely (D.apart (by simp [Thread.Apart]) hact.2.1)
    handshake := hact.2.2
    caller := fun c hc => (h.caller c hc).rely (D.apart (by simp [Thread.Apart]) hact.2.1)
    close := fun i c hc => (h.close i c hc).rely (D.apart (by simp [Thread.Apart]) hact.2.1) }

theorem requestCloseTurn (ha : D.Admits s .requestClose) :
    D.Follows s.requestCloseTurn ∧ D.Effect s .requestClose s.requestCloseTurn.shared := by
  unfold Session.requestCloseTurn
  split
  · refine ⟨{ h with caller := ?_ }, .same⟩
    rintro _ ⟨⟩
    exact ha
  · exact ⟨h, .same⟩

theorem callerTurn (ha : D.Admits s .caller) : D.Follows s.callerTurn ∧ D.Effect s .caller s.callerTurn.shared := by
  unfold Session.callerTurn
  split
  · exact ⟨h, .same⟩
  · next again hc =>
    refine ⟨{ h with caller := by simp, close := ?_ }, .same⟩
    intro i code hi
    rcases Nat.lt_trichotomy i s.closeDrivers.length with hlt | rfl | hgt
    · rw [List.getElem?_append_left hlt] at hi
      exact h.close i code hi
    · simp only [List.getElem?_concat_length,Option.some.injEq] at hi
      rw [← hi,h.token]
      exact D.close _ _ h.inv (ha again hc)
    · have hlen : (s.closeDrivers ++ [closeDriver s.tokenLocal]).length ≤ i := by
        rw [List.length_append]
        exact hgt
      simp [List.getElem?_eq_none hlen] at hi
  · next code hret hc =>
    have hact := (h.caller code hc).step h.inv ⟨false,false⟩
    have hacts : s.Acts .caller .caller := trivial
    refine ⟨?_, .acts .caller hacts hact.2.1⟩
    exact {
      token := h.token
      inv := hact.1
      queued := h.queued
      handling := fun m c b hr =>
        (h.handling m c b hr).rely (D.apart (by simp [Thread.Apart]) hact.2.1)
      handshake := h.handshake.rely (D.apart (by simp [Thread.Apart]) hact.2.1)
      caller := by
        rintro _ ⟨⟩
        exact hact.2.2
      close := fun i c hc => (h.close i c hc).rely (D.apart (by simp [Thread.Apart]) hact.2.1) }

theorem closeTurn (i : ℕ) (clock : Clock) :
    D.Follows (s.closeTurn i clock) ∧ D.Effect s (.close i clock) (s.closeTurn i clock).shared := by
  obtain rfl := h.token
  unfold Session.closeTurn
  split
  · exact ⟨h, .same⟩
  · next code hi =>
    have hact := (h.close i code hi).resume (D.close i) h.inv clock
    have hacts : s.Acts (.close i clock) (.close i) := rfl
    refine ⟨?_, .acts (.close i) hacts hact.2.1⟩
    exact {
      token := h.token
      inv := hact.1
      queued := h.queued
      handling := fun m c b hr =>
        (h.handling m c b hr).rely (D.apart (by simp [Thread.Apart]) hact.2.1)
      handshake := h.handshake.rely (D.apart (by simp [Thread.Apart]) hact.2.1)
      caller := fun c hc => (h.caller c hc).rely (D.apart (by simp [Thread.Apart]) hact.2.1)
      close := by
        intro j c hj
        by_cases hij : i = j
        · subst hij
          obtain ⟨hlt,-⟩ := List.getElem?_eq_some_iff.mp hi
          simp only [List.getElem?_set_self hlt,Option.some.injEq] at hj
          exact hj ▸ hact.2.2
        · rw [List.getElem?_set_ne hij] at hj
          exact (h.close j c hj).rely (D.apart (by simpa [Thread.Apart] using hij) hact.2.1) }

theorem step {t : Turn} (ha : D.Admits s t) :
    D.Follows (s.step t) ∧ D.Effect s t (s.step t).shared := by
  cases t with
  | receiver => exact h.receive ha
  | recvError text => exact h.recvError text
  | handshake clock => exact h.handshakeTurn clock
  | requestClose => exact h.requestCloseTurn ha
  | caller => exact h.callerTurn ha
  | close i clock => exact h.closeTurn i clock
end Follows

theorem follows_start {rtp : Except String Unit} (hinv : D.inv (Session.start token rtp).shared)
    (hpost : (D.contract .handshake).post true (Session.start token rtp).shared) :
    D.Follows (Session.start token rtp) where
  token := rfl
  inv := hinv
  queued := by simp [Session.queued,Session.start,messages]
  handling := by simp [Session.start]
  handshake := D.handshake _ hinv hpost
  caller := by simp [Session.start]
  close := by simp [Session.start]
end Discipline

def Net.Follows {tokens : Side → UInt64} {α : Type} (D : ∀ who, Discipline (tokens who) α)
    (net : Net) : Prop := ∀ who, (D who).Follows (net who)
theorem Net.follows_start {tokens : Side → UInt64} {α : Type} {D : ∀ who, Discipline (tokens who) α}
    {rtp : Side → Except String Unit} (hinv : ∀ who, (D who).inv (Session.start (tokens who) (rtp who)).shared)
    (hpost : ∀ who, ((D who).contract .handshake).post true (Session.start (tokens who) (rtp who)).shared) :
    (Net.start tokens rtp).Follows D := fun who => (D who).follows_start (hinv who) (hpost who)

theorem Net.Follows.step {tokens : Side → UInt64} {α : Type} {D : ∀ who, Discipline (tokens who) α}
    (hD : ∀ who s, (D who.other).inv s → ∀ m ∈ s.sent, (D who).incoming m) {net : Net} {a : Act}
    (h : net.Follows D) (ha : ∀ who t, a = .turn who t → (D who).Admits (net who) t) :
    (net.step a).Follows D := by
  intro who
  have hc := net.change a who
  generalize net.step a who = s' at hc
  cases hc with
  | same => exact h who
  | turn t hat => exact ((h who).step (ha who t hat)).1
  | sent sent hsub => exact (h who).withSent hsub
  | arrive m hm => exact (h who).arrive (hD who _ (h who.other).inv m hm)
end RustyRtc.Core
