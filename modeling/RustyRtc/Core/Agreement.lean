import RustyRtc.Core.Discipline
import RustyRtc.Foundation.Execution

/-! # Which peer an established session knows

A session learns its peer's token from SYN, SYN-ACK and FIN, but an ACK alone establishes it
too. Along every run in which an ACK finds a stored token, an established session has stored
the other side's token.
-/
namespace RustyRtc.Core
def Genuine (me other : UInt64) : AppMsg → Prop
  | .syn token => token = me
  | .synAck your mine => your = other ∧ mine = me
  | .ack your => your = other
  | .fin token => token = me
  | .finAck your mine => your = other ∧ mine = me
  | .finAck2 your => your = other

structure Agrees (me other : UInt64) (s : Shared) : Prop where
  tokenPeer : s.tokenPeer = 0 ∨ s.tokenPeer = other
  established : s.established = true → s.tokenPeer = other
  sent : ∀ m ∈ s.sent, Genuine me other m

namespace Agrees
variable {f : Shared → Shared} {code : Code}
def receiver : Contract Shared UInt64 where
  watch := Shared.tokenPeer
  guar _ _ := True
  post _ _ := True
  guar_refl _ := trivial
def driver : Contract Shared UInt64 where
  watch _ := 0
  guar a b := b.tokenPeer = a.tokenPeer
  post _ _ := True
  guar_refl _ := rfl

variable {me other : UInt64} {s : Shared} {m : AppMsg}
theorem send (h : Agrees me other s) (hm : Genuine me other m) :
    Agrees me other { s with sent := s.sent ++ [m] } := by
  refine { h with sent := fun x hx => ?_ }
  rcases List.mem_append.mp hx with hx | hx
  · exact h.sent x hx
  · rwa [List.mem_singleton.mp hx]

theorem receiver_store (hf : ∀ t, Agrees me other t → Agrees me other (f t) ∧ (f t).tokenPeer = t.tokenPeer)
    (hp : Meets (Agrees me other) receiver code s) : Meets (Agrees me other) receiver (.store f code) s :=
  .store (fun t ht _ => ⟨(hf t ht).1,trivial,(hf t ht).2⟩) hp
theorem receiver_storeToken (hp : Meets (Agrees me other) receiver code { s with tokenPeer := other }) :
    Meets (Agrees me other) receiver (.store (fun s => { s with tokenPeer := other }) code) s :=
  .storeTo _ (fun _ ht _ => ⟨⟨.inr rfl,fun _ => rfl,ht.sent⟩,trivial,rfl⟩) hp
theorem driver_store (hf : ∀ t, Agrees me other t → Agrees me other (f t) ∧ (f t).tokenPeer = t.tokenPeer)
    (hp : Meets (Agrees me other) driver code s) : Meets (Agrees me other) driver (.store f code) s :=
  .store (fun t ht _ => ⟨(hf t ht).1,(hf t ht).2,rfl⟩) hp
theorem meets_done : Meets (Agrees me other) receiver Code.done s := .ret fun _ _ _ => trivial
theorem meets_answerSyn : Meets (Agrees me other) receiver (answerSyn me other) s := by
  refine receiver_store (fun t ht => ⟨ht.send ⟨rfl,rfl⟩,rfl⟩) ?_
  refine receiver_store (fun t ht => ⟨{ ht with },rfl⟩) ?_
  exact receiver_store (fun t ht => ⟨{ ht with },rfl⟩) meets_done

theorem meets_establish (hs : s.tokenPeer = other) : Meets (Agrees me other) receiver establish s := by
  have hclear (u : Shared) : Meets (Agrees me other) receiver clearHandshake u := by
    refine receiver_store (fun t ht => ⟨{ ht with },rfl⟩) ?_
    exact receiver_store (fun t ht => ⟨{ ht with },rfl⟩) meets_done
  intro t ht hw
  refine ⟨{ ht with established := fun _ => Eq.trans hw hs },trivial,?_⟩
  dsimp only
  split
  · exact hclear _
  · exact receiver_store (fun t ht => ⟨{ ht with },rfl⟩) (hclear _)

theorem meets_handleAppMsg (hm : Genuine other me m) (hack : m = .ack me → s.tokenPeer = other) :
    Meets (Agrees me other) receiver (handleAppMsg me m) s := by
  cases m with
  | syn their =>
    obtain rfl : their = other := hm
    rw [handleAppMsg]
    refine .load fun t _ _ => ?_
    split
    · exact meets_done
    · apply receiver_storeToken
      split
      · exact meets_answerSyn
      · split
        · exact receiver_store (fun t ht => ⟨{ ht with },rfl⟩) meets_done
        · exact meets_answerSyn
  | synAck your mine =>
    obtain ⟨rfl,rfl⟩ := hm
    rw [handleAppMsg]
    refine .load fun t _ _ => ?_
    split
    · exact meets_done
    · rw [if_pos rfl]
      apply receiver_storeToken
      exact receiver_store (fun t ht => ⟨ht.send rfl,rfl⟩) (meets_establish rfl)
  | ack your =>
    obtain rfl : your = me := hm
    rw [handleAppMsg]
    refine .load fun t _ _ => ?_
    split
    · exact meets_done
    · rw [if_pos rfl]
      exact meets_establish (hack rfl)
  | fin their =>
    obtain rfl : their = other := hm
    rw [handleAppMsg]
    refine receiver_store (fun t ht => ⟨{ ht with },rfl⟩) ?_
    refine receiver_store (fun t ht => ⟨{ ht with established := nofun },rfl⟩) ?_
    apply receiver_storeToken
    refine receiver_store (fun t ht => ⟨ht.send ⟨rfl,rfl⟩,rfl⟩) ?_
    refine receiver_store (fun t ht => ⟨{ ht with },rfl⟩) ?_
    exact receiver_store (fun t ht => ⟨{ ht with },rfl⟩) meets_done
  | finAck your mine =>
    obtain ⟨rfl,rfl⟩ := hm
    rw [handleAppMsg]
    refine .load fun t _ _ => ?_
    split
    · exact receiver_store (fun t ht => ⟨ht.send rfl,rfl⟩) meets_done
    · exact meets_done
  | finAck2 your =>
    rw [handleAppMsg]
    split
    · refine receiver_store (fun t ht => ⟨{ ht with established := nofun },rfl⟩) ?_
      refine receiver_store (fun t ht => ⟨{ ht with },rfl⟩) ?_
      refine receiver_store (fun t ht => ⟨{ ht with },rfl⟩) ?_
      refine receiver_store (fun t ht => ⟨{ ht with },rfl⟩) ?_
      refine receiver_store (fun t ht => ⟨{ ht with },rfl⟩) ?_
      exact receiver_store (fun t ht => ⟨{ ht with },rfl⟩) meets_done
    · exact meets_done

theorem meets_driver_ret (again : Bool) : Meets (Agrees me other) driver (.ret again : Code) s :=
  .ret fun _ _ _ => trivial

theorem meets_handshakeDriver : Meets (Agrees me other) driver (handshakeDriver me) s := by
  refine meets_handshakeDriver_of meets_driver_ret ?_ ?_ ?_
  · exact driver_store (fun t ht => ⟨{ ht with },rfl⟩) (meets_driver_ret false)
  · exact driver_store fun t ht => ⟨ht.send rfl,rfl⟩
  · intro t u _ _ hu htok
    rw [hu.tokenPeer.resolve_left htok]
    refine driver_store (fun t ht => ⟨ht.send ⟨rfl,rfl⟩,rfl⟩) ?_
    exact driver_store (fun t ht => ⟨ht.send rfl,rfl⟩) (meets_driver_ret true)

theorem meets_closeDriver : Meets (Agrees me other) driver (closeDriver me) s := by
  refine meets_closeDriver_of (meets_driver_ret true) ?_ ?_ ?_
  · refine driver_store (fun t ht => ⟨{ ht with },rfl⟩) ?_
    exact driver_store (fun t ht => ⟨{ ht with },rfl⟩) (meets_driver_ret false)
  · exact driver_store fun t ht => ⟨ht.send rfl,rfl⟩
  · intro t ht htok
    rw [ht.tokenPeer.resolve_left htok]
    exact driver_store (fun t ht => ⟨ht.send ⟨rfl,rfl⟩,rfl⟩) (meets_driver_ret true)

theorem meets_requestClose : Meets (Agrees me other) driver requestClose s := by
  refine driver_store (fun t ht => ⟨{ ht with },rfl⟩) ?_
  refine driver_store (fun t ht => ⟨{ ht with established := nofun },rfl⟩) ?_
  refine driver_store (fun t ht => ⟨{ ht with },rfl⟩) ?_
  exact driver_store (fun t ht => ⟨{ ht with },rfl⟩) (meets_driver_ret false)

def discipline (me other : UInt64) : Discipline me UInt64 where
  inv := Agrees me other
  contract
    | .receiver _ => receiver
    | _ => driver
  incoming := Genuine other me
  apart := by
    intro t t' hap a b hg
    cases t <;> cases t' <;> first | exact hap.elim | rfl | exact hg
  network := by
    intro s h sent hsub
    refine ⟨⟨h.tokenPeer,h.established,fun m hm => h.sent m (hsub hm)⟩,?_⟩
    rintro (_ | _) <;> rfl
  recvError := by
    intro s h text
    refine ⟨⟨h.tokenPeer,h.established,h.sent⟩,?_⟩
    rintro (_ | _) <;> rfl
  handshake _ _ _ := meets_handshakeDriver
  close _ _ _ _ := meets_closeDriver
end Agrees

def AckFindsPeer (net : Net) : Act → Prop
  | .turn who .receiver => (net who).upcoming = some (.ack (net who).tokenLocal) →
      (net who).shared.established = false → (net who).shared.tokenPeer ≠ 0
  | _ => True
instance (net : Net) : ∀ a, Decidable (AckFindsPeer net a)
  | .turn _ .receiver => inferInstanceAs (Decidable (_ → _ → _ ≠ _))
  | .turn _ (.recvError _) | .turn _ (.handshake _) | .turn _ .requestClose => isTrue trivial
  | .turn _ .caller | .turn _ (.close _ _) => isTrue trivial
  | .deliver _ _ | .lose _ _ | .duplicate _ _ => isTrue trivial

section
variable {tokens : Side → UInt64} {net : Net}
theorem admits_of_ackFindsPeer (h : net.Follows fun who => Agrees.discipline (tokens who) (tokens who.other))
    {who : Side} {t : Turn} (ha : AckFindsPeer net (.turn who t)) :
    (Agrees.discipline (tokens who) (tokens who.other)).Admits (net who) t := by
  have hs := h who
  cases t with
  | receiver =>
    intro m hup
    apply Agrees.meets_handleAppMsg (hs.queued m (Session.mem_queued_of_upcoming hup))
    rintro rfl
    cases hest : (net who).shared.established with
    | true => exact hs.inv.established hest
    | false => exact hs.inv.tokenPeer.resolve_left (ha (by rw [hup,hs.token]) hest)
  | requestClose => exact Agrees.meets_requestClose
  | caller => exact fun _ _ => trivial
  | _ => trivial

/-- At every point of a run whose ACKs find a peer token, an established side has stored the
token of the other side. -/
theorem established_knows_peer (tokens : Side → UInt64) (rtp : Side → Except String Unit)
    (acts : List Act) (h : Along Net.step AckFindsPeer (Net.start tokens rtp) acts) (who : Side)
    (hest : ((Net.start tokens rtp).run acts who).shared.established = true) :
    ((Net.start tokens rtp).run acts who).shared.tokenPeer = tokens who.other := by
  let D : ∀ who, Discipline (tokens who) UInt64 :=
    fun who => Agrees.discipline (tokens who) (tokens who.other)
  have hsent : ∀ who s, (D who.other).inv s → ∀ m ∈ s.sent, (D who).incoming m := by
    intro who s hs m hm
    simpa [D,Agrees.discipline] using hs.sent m hm
  have hstart : (Net.start tokens rtp).Follows D := by
    refine Net.follows_start (fun who => ?_) fun _ => trivial
    exact ⟨.inl rfl,by simp [Session.start],by simp [Session.start]⟩
  have hrun : ((Net.start tokens rtp).run acts).Follows D := by
    refine h.invariant (fun net a hnet ha => hnet.step hsent ?_) hstart
    rintro who t rfl
    exact admits_of_ackFindsPeer hnet ha
  exact (hrun who).inv.established hest

def plainHandshake : List Act :=
  drives .left 5 ++ [.deliver .right 0] ++ receives .right 9 ++ [.deliver .left 0] ++
    receives .left 8 ++ [.deliver .right 0] ++ receives .right 8

theorem established_knows_peer_plainHandshake :
    Along Net.step AckFindsPeer sampleNet plainHandshake ∧
      (sampleNet.run plainHandshake .right).shared.established = true ∧
      (sampleNet.run plainHandshake .right).shared.tokenPeer = 2 := by
  have halong : Along Net.step AckFindsPeer sampleNet plainHandshake := by decide +kernel
  have hest : (sampleNet.run plainHandshake .right).shared.established = true := by decide +kernel
  exact ⟨halong,hest,established_knows_peer sampleTokens _ plainHandshake halong .right hest⟩

/-- The lower side's driver sends an ACK along with its SYN-ACK. If only the ACK arrives, the
higher side is established and knows no peer. -/
def ackOvertakes : List Act :=
  drives .left 5 ++ [.deliver .right 0] ++ receives .right 9 ++ drives .right 10 ++
    [.deliver .left 3] ++ receives .left 6

theorem established_without_peer :
    sampleTokens .left ≠ sampleTokens .right ∧ sampleTokens .left ≠ 0 ∧ sampleTokens .right ≠ 0 ∧
      (sampleNet.run ackOvertakes .left).shared.established = true ∧
      (sampleNet.run ackOvertakes .left).shared.tokenPeer = 0 := by
  decide +kernel
end
end RustyRtc.Core
