import RustyRtc.Core.Discipline

/-! # The handshake while nobody closes

The side with the higher token never answers a SYN, so it sends no SYN-ACK, and it sends an
ACK only inside the handler that is about to establish it. The threads' contracts say so.
-/
namespace RustyRtc.Core
def Offered (me other : UInt64) : AppMsg → Prop
  | .syn token => token = me
  | .synAck your mine => your = other ∧ mine = me ∧ me < other
  | .ack your => your = other
  | _ => False

structure Handshaking (me other : UInt64) (s : Shared) : Prop where
  runFlag : s.runFlag = true
  weInitiatedClose : s.weInitiatedClose = false
  peerInitiatedClose : s.peerInitiatedClose = false
  tokenPeer : s.tokenPeer = 0 ∨ s.tokenPeer = other
  hsSentSynack : s.hsSentSynack = true → me < other
  sent : ∀ m ∈ s.sent, Offered me other m

namespace Handshaking
variable {x : AppMsg}

/-- Only the receiver establishes the session, and only on a message that completes the
handshake; such a handler may send an ACK first. -/
def receiver (me other : UInt64) (m : AppMsg) : Contract Shared Bool where
  watch := Shared.established
  guar a b := (a.established = true → b.established = true) ∧
    (b.established = true → a.established = true ∨ Completes me m) ∧
    (.ack other ∈ b.sent → .ack other ∈ a.sent ∨ (Completes me m ∧ a.established = false))
  post _ s := Completes me m → s.established = true
  guar_refl _ := ⟨id, .inl, .inl⟩

def driver (me other : UInt64) : Contract Shared Bool where
  watch _ := false
  guar a b := b.established = a.established ∧
    (.ack other ∈ b.sent → .ack other ∈ a.sent ∨ me < other)
  post _ _ := True
  guar_refl _ := ⟨rfl, .inl⟩
def absent : Contract Shared Bool where
  watch _ := false
  guar a b := b = a
  post _ _ := False
  guar_refl _ := rfl

variable {me other : UInt64} {s a b : Shared} {m : AppMsg}
theorem send (h : Handshaking me other s) (hm : Offered me other m) :
    Handshaking me other { s with sent := s.sent ++ [m] } := by
  refine { h with sent := fun x hx => ?_ }
  rcases List.mem_append.mp hx with hx | hx
  · exact h.sent x hx
  · rwa [List.mem_singleton.mp hx]
theorem receiver_guar (he : b.established = a.established) (hs : b.sent = a.sent) : (receiver me other m).guar a b :=
  ⟨fun h => he.trans h,fun h => .inl (he.symm.trans h),fun h => .inl (hs ▸ h)⟩
theorem receiver_guar_send (hx : x = .ack other → Completes me m ∧ a.established = false) :
    (receiver me other m).guar a { a with sent := a.sent ++ [x] } := by
  refine ⟨id, .inl,fun h => ?_⟩
  rcases List.mem_append.mp h with h | h
  · exact .inl h
  · exact .inr (hx (List.mem_singleton.mp h).symm)

theorem receiver_store {f : Shared → Shared} {code : Code}
    (hf : ∀ t, Handshaking me other t → Handshaking me other (f t) ∧
      (f t).established = t.established ∧ (f t).sent = t.sent)
    (hp : Meets (Handshaking me other) (receiver me other m) code s) :
    Meets (Handshaking me other) (receiver me other m) (.store f code) s := by
  refine .store (fun t ht _ => ?_) hp
  obtain ⟨hinv,hest,hsent⟩ := hf t ht
  exact ⟨hinv,receiver_guar hest hsent,hest⟩

theorem meets_answerSyn (hlt : me < other) :
    Meets (Handshaking me other) (receiver me other (.syn other)) (answerSyn me other) s := by
  refine .store (fun t ht _ => ⟨ht.send ⟨rfl,rfl,hlt⟩,receiver_guar_send (by simp),rfl⟩) ?_
  refine receiver_store (fun t ht => ⟨{ ht with },rfl,rfl⟩) ?_
  refine receiver_store (fun t ht => ⟨{ ht with hsSentSynack := fun _ => hlt },rfl,rfl⟩) ?_
  exact .ret fun _ _ _ => False.elim

theorem meets_establish (hm : Completes me m) : Meets (Handshaking me other) (receiver me other m) establish s := by
  have hclear (u : Shared) (hu : u.established = true) :
      Meets (Handshaking me other) (receiver me other m) clearHandshake u := by
    refine receiver_store (fun t ht => ⟨{ ht with hsSentSynack := nofun },rfl,rfl⟩) ?_
    refine receiver_store (fun t ht => ⟨{ ht with },rfl,rfl⟩) ?_
    exact .ret fun t _ hw _ => Eq.trans hw hu
  intro t ht _
  refine ⟨{ ht with },⟨fun _ => rfl,fun _ => .inr hm, .inl⟩,?_⟩
  dsimp only
  split
  · exact hclear _ rfl
  · exact receiver_store (fun t ht => ⟨{ ht with },rfl,rfl⟩) (hclear _ rfl)

theorem meets_handleAppMsg (hne : me ≠ other) (hm : Offered other me m) (s : Shared) :
    Meets (Handshaking me other) (receiver me other m) (handleAppMsg me m) s := by
  cases m with
  | syn their =>
    obtain rfl : their = other := hm
    have hdone : Meets (Handshaking me their) (receiver me their (.syn their)) Code.done s :=
      .ret fun _ _ _ => False.elim
    rw [handleAppMsg]
    refine .load fun t _ _ => ?_
    split
    · exact hdone
    · refine receiver_store (fun t ht => ⟨{ ht with tokenPeer := .inr rfl },rfl,rfl⟩) ?_
      split
      · next hlt => exact meets_answerSyn hlt
      · next hlt =>
        split
        · exact receiver_store (fun t ht => ⟨{ ht with },rfl,rfl⟩) hdone
        · next hgt =>
          -- the tokens differ, so the tie-breaker is not reached
          exact absurd (UInt64.le_antisymm (UInt64.not_lt.mp hgt) (UInt64.not_lt.mp hlt)) hne
  | synAck your mine =>
    obtain ⟨rfl,rfl,-⟩ := hm
    rw [handleAppMsg]
    refine .load fun t _ hw => ?_
    split
    · next hest => exact .ret fun u _ hu _ => Eq.trans (Eq.trans hu hw.symm) hest
    · next hest =>
      have hs : s.established = false := Eq.trans (Eq.symm hw) (Bool.eq_false_iff.mpr hest)
      rw [if_pos rfl]
      refine receiver_store (fun t ht => ⟨{ ht with tokenPeer := .inr rfl },rfl,rfl⟩) ?_
      refine .store (fun t ht hw => ⟨ht.send rfl,receiver_guar_send fun _ => ⟨rfl,?_⟩,rfl⟩)
        (meets_establish rfl)
      exact Eq.trans hw hs
  | ack your =>
    obtain rfl : your = me := hm
    rw [handleAppMsg]
    refine .load fun t _ hw => ?_
    split
    · next hest => exact .ret fun u _ hu _ => Eq.trans (Eq.trans hu hw.symm) hest
    · rw [if_pos rfl]
      exact meets_establish rfl
  | fin their | finAck your mine | finAck2 your => exact hm.elim

theorem driver_guar_send (hx : x = .ack other → me < other) :
    (driver me other).guar a { a with sent := a.sent ++ [x] } := by
  refine ⟨rfl,fun h => ?_⟩
  rcases List.mem_append.mp h with h | h
  · exact .inl h
  · exact .inr (hx (List.mem_singleton.mp h).symm)

theorem meets_handshakeDriver (s : Shared) : Meets (Handshaking me other) (driver me other) (handshakeDriver me) s := by
  have hret (again : Bool) : Meets (Handshaking me other) (driver me other) (.ret again : Code) s :=
    .ret fun _ _ _ => trivial
  refine meets_handshakeDriver_of hret ?_ ?_ ?_
  · exact .store (fun t ht _ => ⟨{ ht with },⟨rfl, .inl⟩,rfl⟩) (hret false)
  · exact .store fun t ht _ => ⟨ht.send rfl,driver_guar_send (by simp),rfl⟩
  · intro t u ht hsent hu htok
    have hlt : me < other := ht.hsSentSynack hsent
    rw [hu.tokenPeer.resolve_left htok]
    refine .store (fun t ht _ => ⟨ht.send ⟨rfl,rfl,hlt⟩,driver_guar_send (by simp),rfl⟩) ?_
    exact .store (fun t ht _ => ⟨ht.send rfl,driver_guar_send fun _ => hlt,rfl⟩) (hret true)

def discipline (me other : UInt64) : Discipline me Bool where
  inv := Handshaking me other
  contract
    | .receiver m => receiver me other m
    | .handshake => driver me other
    | .caller | .close _ => absent
  incoming := Offered other me
  apart := by
    intro t t' hap a b hg
    cases t' with
    | receiver m' =>
      cases t with
      | receiver m => exact hap.elim
      | handshake => exact hg.1
      | caller => exact congrArg Shared.established hg
      | close i => exact congrArg Shared.established hg
    | _ => rfl
  network := by
    intro s h sent hsub
    refine ⟨{ h with sent := fun m hm => h.sent m (hsub hm) },?_⟩
    rintro (_ | _) <;> rfl
  recvError := by
    intro s h text
    refine ⟨{ h with },?_⟩
    rintro (_ | _) <;> rfl
  handshake s _ _ := meets_handshakeDriver s
  close _ _ _ h := h.elim

/-- What a turn does to the shared state: how the session became established, and why an ACK
was sent. -/
structure Turned (me other : UInt64) (s : Session) (b : Shared) : Prop where
  kept : s.shared.established = true → b.established = true
  origin : b.established = true → s.shared.established = true ∨ ∃ m ∈ s.handled, Completes me m
  acks : .ack other ∈ b.sent → .ack other ∈ s.shared.sent ∨
    (s.shared.established = false ∧ ∃ m ∈ s.handled, Completes me m) ∨ me < other

variable {s : Session} {t : Turn}
theorem Turned.of_effect {b : Shared} (h : (discipline me other).Effect s t b) : Turned me other s b := by
  cases h with
  | same | recvError text => exact ⟨id, .inl, .inl⟩
  | acts th hth hg =>
    cases th with
    | receiver m =>
      have hm : s.handled = some m := by
        cases t with
        | receiver => exact hth
        | _ => exact hth.elim
      obtain ⟨hkept,horigin,hacks⟩ := hg
      refine ⟨hkept,fun hb => ?_,fun hb => ?_⟩
      · exact (horigin hb).imp_right fun hc => ⟨m,hm,hc⟩
      · exact (hacks hb).imp_right fun hc => .inl ⟨hc.2,m,hm,hc.1⟩
    | handshake => exact ⟨fun ha => hg.1.trans ha,fun hb => .inl (hg.1.symm.trans hb),
        fun hb => (hg.2 hb).imp_right .inr⟩
    | caller | close i =>
      obtain rfl := hg
      exact ⟨id, .inl, .inl⟩

section
variable (hne : me ≠ other) (h : (discipline me other).Follows s)
include hne h

theorem admits_receiver : (discipline me other).Admits s .receiver :=
  fun m hup => meets_handleAppMsg hne (h.queued m (Session.mem_queued_of_upcoming hup)) _

theorem follows_receive : (discipline me other).Follows s.receive := (h.step (admits_receiver hne h)).1
theorem admits (hcaller : s.caller = none) (ht : t ≠ .requestClose) : (discipline me other).Admits s t := by
  cases t with
  | receiver => exact admits_receiver hne h
  | requestClose => exact absurd rfl ht
  | caller =>
    intro again hc
    simp [hcaller] at hc
  | _ => trivial

omit hne in
theorem completing_step (ha : (discipline me other).Admits s t)
    (hs : s.shared.established = true ∨ ∃ m ∈ s.handled, Completes me m) :
    (s.step t).shared.established = true ∨ ∃ m ∈ (s.step t).handled, Completes me m := by
  have hkept := (Turned.of_effect (h.step ha).2).kept
  rcases hs with hs | ⟨m,hm,hc⟩
  · exact .inl (hkept hs)
  · by_cases ht : t = .receiver
    · subst ht
      obtain ⟨code,batch,hr⟩ := Session.handled_eq_some.mp hm
      have hmeets := h.handling m code batch hr
      cases code with
      | ret again => exact .inl (hkept (hmeets.ret_post h.inv hc))
      | atom f next =>
        refine .inr ⟨m,Session.handled_eq_some.mpr ⟨next s.shared,batch,?_⟩,hc⟩
        simp [Session.step,Session.receive,hr,Session.handle,Prog.step]
      | await next =>
        refine .inr ⟨m,Session.handled_eq_some.mpr ⟨next ⟨false,false⟩,batch,?_⟩,hc⟩
        simp [Session.step,Session.receive,hr,Session.handle,Prog.step]
    · exact .inr ⟨m,Session.step_handled hm ht,hc⟩
end
end Handshaking
end RustyRtc.Core
