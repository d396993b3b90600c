import RustyRtc.Signaling.Authenticity

/-! # Agreement of the two presence maps

A login writes both maps but asks only one of them, so a connection that is already logged in
can log in again under a second name. This is the only way in which the maps come to disagree.
-/
namespace RustyRtc.Signaling
variable {username : UserName}
namespace Presence
variable {p : Presence}

/-- The two maps are inverse to each other. -/
def Agrees (p : Presence) : Prop := ∀ u c, p.clientIdFor u = some c ↔ p.usernameFor c = some u
theorem Agrees.new : Presence.new.Agrees := fun u c =>
  iff_of_false (fun h : (none : Option ClientId) = some c => by cases h)
    fun h : (none : Option UserName) = some u => by cases h

theorem Agrees.logout (h : p.Agrees) (client : ClientId) : (p.logout client).1.Agrees := by
  intro u c
  rw [clientIdFor_logout,usernameFor_logout,Option.ite_none_left_eq_some,Option.ite_none_left_eq_some,h]
  refine and_congr_left fun hc => not_congr ?_
  -- both are known by the name and by the connection
  rw [← h u client,(h u c).mpr hc,Option.some.injEq]

/-- A login on a connection that is not logged in keeps the maps inverse, and only such a login does. -/
theorem agrees_login_iff (h : p.Agrees) (honline : p.clientIdFor username = none)
    (client : ClientId) : (p.login client username).1.Agrees ↔ p.usernameFor client = none := by
  constructor
  · intro hlogin
    cases hclient : p.usernameFor client with
    | none => rfl
    | some other =>
      -- the other name still leads to the connection, which no longer leads to it
      have hother : p.clientIdFor other = some client := (h other client).mpr hclient
      have hne : other ≠ username := by
        rintro rfl
        simp [honline] at hother
      have hback := (hlogin other client).mp (by rw [clientIdFor_login,if_neg hne,hother])
      rw [usernameFor_login,if_pos rfl] at hback
      exact absurd (Option.some.inj hback).symm hne
  · intro hclient u c
    rw [clientIdFor_login,usernameFor_login]
    by_cases hu : u = username
    · subst hu
      by_cases hc : c = client
      · simp [hc]
      · rw [if_pos rfl,if_neg hc,← h,honline]
        simpa using fun hcc => hc hcc.symm
    · by_cases hc : c = client
      · subst hc
        rw [if_neg hu,if_pos rfl,h,hclient]
        simpa using fun huu => hu huu.symm
      · rw [if_neg hu,if_neg hc]
        exact h u c
end Presence

namespace ServerEngine
variable {β ρ : Type} {h : List (Exchange ρ)} {client : ClientId}

/-- No login succeeds on a connection that is already logged in. -/
def OneLoginAtATime (h : List (Exchange ρ)) : Prop :=
  ∀ before x after client username, h = before ++ x :: after → loginOf x = some (client,username) →
    lastLogin client before = none
theorem OneLoginAtATime.front {h' : List (Exchange ρ)} (hone : OneLoginAtATime (h ++ h')) : OneLoginAtATime h := by
  rintro before x after client username rfl
  exact hone before x (after ++ h') client username (by simp)

/-- A connection that has gone, and on which no login succeeds later, is logged in under no name. -/
theorem lastLogin_of_disconnect {choices : Choices ρ} {out : List OutgoingMsg}
    {before after : List (Exchange ρ)} (hafter : ∀ x ∈ after, ∀ username, loginOf x ≠ some (client,username)) :
    lastLogin client (before ++ (.disconnect client choices,out) :: after) = none := by
  induction after using List.reverseRecOn with
  | nil =>
    rw [lastLogin_snoc]
    exact if_pos rfl
  | append_singleton after x ih =>
    have hbefore := ih fun y hy => hafter y (by simp [hy])
    rw [← List.cons_append,← List.append_assoc]
    rcases lastLogin_snoc_cases client (before ++ (.disconnect client choices,out) :: after) x with
      ⟨username,hlogin,-⟩ | ⟨-,hnone⟩ | ⟨-,-,hsame⟩
    · exact absurd hlogin (hafter x (by simp) username)
    · exact hnone
    · exact hsame.trans hbefore

/-- A name that stands was given by a login after which the connection has not gone. -/
theorem lastLogin_eq_some (hlast : lastLogin client h = some username) :
    ∃ before x after, h = before ++ x :: after ∧ loginOf x = some (client,username) ∧
      ∀ y ∈ after, ∀ choices, y.1 ≠ .disconnect client choices := by
  induction h using List.reverseRecOn with
  | nil => cases hlast
  | append_singleton h x ih =>
    rcases lastLogin_snoc_cases client h x with ⟨u,hlogin,hsome⟩ | ⟨-,hnone⟩ | ⟨-,hstays,hsame⟩
    · obtain rfl := Option.some.inj (hsome.symm.trans hlast)
      exact ⟨h,x,[],rfl,hlogin,by simp⟩
    · simp [hnone] at hlast
    · obtain ⟨before,y,after,rfl,hlogin,hafter⟩ := ih (hsame.symm.trans hlast)
      refine ⟨before,y,after ++ [x],by simp,hlogin,?_⟩
      intro z hz
      rcases List.mem_append.mp hz with hz | hz
      · exact hafter z hz
      · obtain rfl := List.mem_singleton.mp hz
        exact hstays

section
variable {backend : AuthBackend β ρ} {auth : β} {h : List (Exchange ρ)} {s : ServerEngine β}
theorem agrees_of_oneLogin (hs : Reaches (step backend) (new auth) h s) (hone : OneLoginAtATime h) :
    s.presence.Agrees := by
  induction hs with
  | init => exact Presence.Agrees.new
  | @snoc h s s' e out hprev hstep ih =>
    have hagrees := ih hone.front
    rcases presence_cases (step_cases hstep) with
      ⟨c,username,password,choices,rfl,hlogin,-,honline,hpresence⟩ | ⟨c,choices,rfl,hpresence⟩ |
      ⟨c,msg,choices,busyUsers,rfl,-,hpresence⟩
    · rw [hpresence,Presence.agrees_login_iff hagrees honline,usernameFor_eq_lastLogin hprev]
      exact hone h _ [] c username rfl hlogin
    · rw [hpresence]
      exact hagrees.logout c
    · rw [hpresence]
      exact hagrees
end

/-- For every history: the maps are inverse in all its states exactly if no login succeeds on a
connection that is already logged in. If so, no user is online on a connection that has gone, and a user
whose connections have all gone can log in again. -/
theorem presence_agrees_iff (backend : AuthBackend β ρ) (auth : β) :
    (∀ h s, Reaches (step backend) (new auth) h s →
      ((∀ before after s₁, h = before ++ after → Reaches (step backend) (new auth) before s₁ →
        s₁.presence.Agrees) ↔ OneLoginAtATime h)) ∧
    ∀ h s, Reaches (step backend) (new auth) h s → OneLoginAtATime h →
      (∀ before after client choices out, h = before ++ (.disconnect client choices,out) :: after →
        (∀ x ∈ after, ∀ username, loginOf x ≠ some (client,username)) →
        ∀ username, s.presence.clientIdFor username ≠ some client) ∧
      ∀ username password client choices, backend.verify s.auth username password = .ok () →
        (∀ before x after c, h = before ++ x :: after → loginOf x = some (c,username) →
          ∃ y ∈ after, ∃ choices, y.1 = .disconnect c choices) →
        ∃ s' out, s.step backend (.message client (.login username password) choices) = some (s',out) ∧
          ⟨client, .loginOk username⟩ ∈ out := by
  constructor
  · intro h s hs
    constructor
    · rintro hagree before ⟨e,out⟩ after client username rfl hlogin
      obtain ⟨s₁,s₂,hbefore,hstep⟩ := hs.middle
      have hagrees := hagree before ((e,out) :: after) s₁ rfl hbefore
      have hafter := hagree (before ++ [(e,out)]) after s₂ (by simp) (hbefore.snoc hstep)
      rcases presence_cases (step_cases hstep) with
        ⟨c,u,password,choices,rfl,hlogin',-,honline,hpresence⟩ | ⟨c,choices,rfl,-⟩ | ⟨c,msg,choices,_,rfl,hnone,-⟩
      · obtain ⟨rfl,rfl⟩ := Prod.mk.inj (Option.some.inj (hlogin'.symm.trans hlogin))
        rw [hpresence, Presence.agrees_login_iff hagrees honline, usernameFor_eq_lastLogin hbefore] at hafter
        exact hafter
      · cases hlogin
      · simp [hnone] at hlogin
    · rintro hone before after s₁ rfl hs₁
      exact agrees_of_oneLogin hs₁ hone.front
  · intro h s hs hone
    have hagrees := agrees_of_oneLogin hs hone
    constructor
    · rintro before after client choices out rfl hafter username hclient
      have huser := (hagrees username client).mp hclient
      rw [usernameFor_eq_lastLogin hs, lastLogin_of_disconnect hafter] at huser
      cases huser
    · intro username password client choices hverify hgone
      have honline : s.presence.clientIdFor username = none := by
        cases hclient : s.presence.clientIdFor username with
        | none => rfl
        | some c =>
          have huser := (hagrees username c).mp hclient
          rw [usernameFor_eq_lastLogin hs] at huser
          obtain ⟨before,x,after,hsplit,hlogin,hstays⟩ := lastLogin_eq_some huser
          obtain ⟨y,hy,choices,hdisconnect⟩ := hgone before x after c hsplit hlogin
          exact absurd hdisconnect (hstays y hy choices)
      let s' := { s with presence := (s.presence.login client username).1 }
      refine ⟨s',⟨client, .loginOk username⟩ :: s'.broadcastPeerListUpdate choices,?_,List.mem_cons_self ..⟩
      simp only [step, handle, handleLogin, hverify, honline, s']

/-- Alice and then bob log in on one connection. When it disconnects, alice stays online on it and can
log in no more. -/
theorem second_login_locks_out_first :
    ∃ h s, Reaches (step allowAll) (new ()) h s ∧
      h.map Prod.fst = [.message 1 (.login "alice" "a") (.plain ()), .message 1 (.login "bob" "b") (.plain ()),
        .disconnect 1 (.plain ())] ∧
      s.presence.clientIdFor "alice" = some 1 ∧ s.presence.usernameFor 1 = none ∧ ∃ s',
        s.step allowAll (.message 2 (.login "alice" "a") (.plain ())) = some (s',[⟨2, .loginErr 1⟩]) := by
  refine ⟨_,_, .snoc (.snoc (.snoc .init rfl) rfl) rfl,rfl,?_,?_,_,rfl⟩
  · decide +kernel
  · decide +kernel
end ServerEngine
end RustyRtc.Signaling
