import RustyRtc.Signaling.Registry

/-! # The capacity of a session

A client joins a session only while there is room. Whoever creates a session is its first member whatever the
capacity, so a session of capacity zero is over its capacity as long as it lasts, and no other session ever is.
-/
namespace RustyRtc.Signaling.ServerEngine
variable {β ρ : Type} {id : SessionId} {backend : AuthBackend β ρ} {s : ServerEngine β} {session : Session}
def capacityFor (id : SessionId) (x : Exchange ρ) : Option UInt8 :=
  match x.1 with
  | .message _ (.createSession capacity) _ => if createdOf x = some id then some capacity else none
  | _ => none

/-- The capacity with which the session of an id was created, the last time if ids repeat. -/
def requested (h : List (Exchange ρ)) (id : SessionId) : Option UInt8 := (h.filterMap (capacityFor id)).getLast?
theorem capacityFor_eq_none {x : Exchange ρ} (h : createdOf x ≠ some id) : capacityFor id x = none := by
  unfold capacityFor
  split
  · exact if_neg h
  · rfl
theorem requested_snoc (h : List (Exchange ρ)) (x : Exchange ρ) (id : SessionId) :
    requested (h ++ [x]) id = (capacityFor id x).or (requested h id) := by
  rw [requested,List.filterMap_append,List.getLast?_append]
  cases hx : capacityFor id x <;> simp [hx,requested]

/-- Where a session that is stored after a step comes from: it is new and has one member, or was there with the same
capacity and has no more members than before, or has room for all of them. -/
theorem stored_after {s' : ServerEngine β} {e : Event ρ} {out : List OutgoingMsg} (h : Transition backend s e s' out)
    (hsession : s'.sessions.bySessId.lookup id = some session) :
    capacityFor id (e,out) = some session.capacity ∧ session.members.keys.length = 1 ∨
    capacityFor id (e,out) = none ∧ ∃ before, s.sessions.bySessId.lookup id = some before ∧
      session.capacity = before.capacity ∧ (session.members.keys.length ≤ before.members.keys.length ∨
        session.members.keys.length ≤ session.capacity.toNat) := by
  have hquiet : createdOf (e,out) = none → s'.sessions = s.sessions → capacityFor id (e,out) = none ∧
      ∃ before, s.sessions.bySessId.lookup id = some before ∧ session.capacity = before.capacity ∧
        (session.members.keys.length ≤ before.members.keys.length ∨
          session.members.keys.length ≤ session.capacity.toNat) := by
    intro hnone hsame
    rw [hsame] at hsession
    exact ⟨capacityFor_eq_none (by simp [hnone]),session,hsession,rfl, .inl (Nat.le_refl _)⟩
  cases h with
  | login _ _ hs => exact .inr (hquiet rfl (by rw [hs]))
  | @ignored client msg choices | @sessionRefused client msg choices code =>
    exact .inr (hquiet (by cases msg <;> rfl) rfl)
  | loginRefused | pong | register | listPeers => exact .inr (hquiet rfl rfl)
  | @forwarded client msg choices busyUsers s' rest hcall hs =>
    exact .inr (hquiet (by cases msg <;> first | rfl | cases hcall) (by rw [hs]))
  | @created client capacity choices username next code created _ _ hcreated =>
    rcases Table.lookup_insert_eq_some.mp hsession with ⟨rfl,rfl⟩ | ⟨hid,hold⟩
    · subst hcreated
      exact .inl ⟨if_pos rfl,rfl⟩
    · exact .inr ⟨capacityFor_eq_none fun h => hid (Option.some.inj h).symm,session,hold,rfl, .inl (Nat.le_refl _)⟩
  | @joined client code choices username id' before s' _ _ hbefore hroom hs =>
    subst hs
    refine .inr ⟨rfl,?_⟩
    rcases Table.lookup_insert_eq_some.mp hsession with ⟨rfl,rfl⟩ | ⟨hid,hold⟩
    · refine ⟨before,hbefore,rfl, .inr ?_⟩
      have hlength : (before.members.insert client ()).keys.length ≤ before.members.keys.length + 1 := by
        rw [AList.keys_insert,List.length_cons]
        exact Nat.succ_le_succ (List.length_erase_le)
      exact hlength.trans hroom
    · exact ⟨session,hold,rfl, .inl (Nat.le_refl _)⟩
  | @disconnected client choices s' hs =>
    rw [hs] at hsession
    obtain ⟨⟨before,hbefore,rfl⟩,-⟩ := Sessions.lookup_leaveAll.mp hsession
    refine .inr ⟨rfl,before,hbefore,rfl, .inl ?_⟩
    rw [Sessions.without,AList.keys_erase]
    exact List.length_erase_le

theorem within_capacity {auth : β} {h : List (Exchange ρ)} (hs : Reaches (step backend) (new auth) h s)
    (hsession : s.sessions.bySessId.lookup id = some session) :
    requested h id = some session.capacity ∧ session.members.keys.length ≤ max 1 session.capacity.toNat := by
  induction hs generalizing session with
  | init => cases (AList.lookup_empty id).symm.trans hsession
  | snoc _ hstep ih =>
    rw [requested_snoc]
    rcases stored_after (step_cases hstep) hsession with ⟨hnew,hone⟩ | ⟨hnone,before,hbefore,hcapacity,hmembers⟩
    · rw [hnew,hone]
      exact ⟨rfl,by omega⟩
    · obtain ⟨hrequested,hle⟩ := ih hbefore
      rw [hnone,hcapacity,Option.none_or]
      rw [hcapacity] at hmembers
      exact ⟨hrequested,by omega⟩

/-- In every state a session has no more members than the capacity it was created with exactly if that is not zero. -/
theorem session_within_capacity_iff {backend : AuthBackend β ρ} {auth : β} {h : List (Exchange ρ)} {s : ServerEngine β}
    (hs : Reaches (step backend) (new auth) h s) {id : SessionId} {session : Session}
    (hsession : s.sessions.bySessId.lookup id = some session) :
    ∃ capacity, requested h id = some capacity ∧
      (session.members.keys.length ≤ capacity.toNat ↔ capacity ≠ 0) := by
  obtain ⟨hrequested,hle⟩ := within_capacity hs hsession
  refine ⟨session.capacity,hrequested,?_⟩
  have hsome := List.length_pos_of_ne_nil ((staffed hs).occupied id session hsession)
  have hzero : session.capacity ≠ 0 ↔ session.capacity.toNat ≠ 0 := by
    rw [ne_eq, ne_eq, ← UInt8.toNat_inj]
    rfl
  rw [hzero]
  omega

theorem session_for_two_within_capacity : ∃ h s session, Reaches (step allowAll) (new ()) h s ∧
    s.sessions.bySessId.lookup "sess-1" = some session ∧ session.members.keys.length = 2 ∧
    ∃ capacity, requested h "sess-1" = some capacity ∧
      (session.members.keys.length ≤ capacity.toNat ↔ capacity ≠ 0) := by
  obtain ⟨h,s,hs,hmembers⟩ : ∃ h s, Reaches (step allowAll) (new ()) h s ∧
      (s.sessions.bySessId.lookup "sess-1").map (·.members.keys.length) = some 2 :=
    exists_reaches_of_trace [.message 1 (.login "alice" "a") (.plain ()), .message 1 (.createSession 2) (.plain ()),
      .message 2 (.login "bob" "b") (.plain ()), .message 2 (.join (sixDigits 0)) (.plain ())] (by decide +kernel)
  obtain ⟨session,hsession,htwo⟩ := Option.map_eq_some_iff.mp hmembers
  exact ⟨h,s,session,hs,hsession,htwo,session_within_capacity_iff hs hsession⟩

/-- A session is created for nobody, with its creator in it. -/
theorem session_for_nobody_has_member : ∃ h s, Reaches (step allowAll) (new ()) h s ∧
    requested h "sess-1" = some 0 ∧
    (s.sessions.bySessId.lookup "sess-1").map (·.members.keys.length) = some 1 :=
  exists_reaches_of_trace [.message 1 (.login "alice" "a") (.plain ()), .message 1 (.createSession 0) (.plain ())]
    (by decide +kernel)
end RustyRtc.Signaling.ServerEngine
