import RustyRtc.Signaling.ServerEngine

/-! # Who a forwarded message comes from

The history of the engine is the list of events with the messages each of them made it send.
The name a connection is logged in with is read off the history, and so is everything the
engine passes on from one user to another.
-/
namespace RustyRtc.Signaling.ServerEngine
variable {β ρ : Type} {backend : AuthBackend β ρ} {s s' : ServerEngine β} {e : Event ρ} {out : List OutgoingMsg}
abbrev Exchange (ρ : Type) := Event ρ × List OutgoingMsg
def loginOf (x : Exchange ρ) : Option (ClientId × UserName) :=
  match x.1 with
  | .message client (.login username _) _ =>
    if ⟨client, .loginOk username⟩ ∈ x.2 then some (client,username) else none
  | _ => none

/-- The name of the last login that succeeded on a connection, as long as it stands. -/
def lastLogin (client : ClientId) (h : List (Exchange ρ)) : Option UserName :=
  h.foldl (fun last x =>
    match x.1,loginOf x with
    | .disconnect c _,_ => if c = client then none else last
    | _,some (c,username) => if c = client then some username else last
    | _,none => last) none

theorem presence_cases (h : Transition backend s e s' out) :
    (∃ client username password choices, e = .message client (.login username password) choices ∧
      loginOf (e,out) = some (client,username) ∧ backend.verify s.auth username password = .ok () ∧
      s.presence.clientIdFor username = none ∧ s'.presence = (s.presence.login client username).1) ∨
    (∃ client choices, e = .disconnect client choices ∧ s'.presence = (s.presence.logout client).1) ∨
    (∃ client msg choices busyUsers, e = .message client msg choices ∧ loginOf (e,out) = none ∧
      s'.presence = { s.presence with busyUsers }) := by
  cases h with
  | @login client username password choices s' hverify honline hs =>
    exact .inl ⟨client,username,password,choices,rfl,by simp [loginOf],hverify,honline,by rw [hs]⟩
  | disconnected hs => exact .inr (.inl ⟨_,_,rfl,by rw [hs]⟩)
  | @ignored client msg choices | @sessionRefused client msg choices code =>
    exact .inr (.inr ⟨_,_,_,_,rfl,by cases msg <;> simp [loginOf],rfl⟩)
  | loginRefused => exact .inr (.inr ⟨_,_,_,_,rfl,by simp [loginOf],rfl⟩)
  | pong | register | listPeers | created => exact .inr (.inr ⟨_,_,_,_,rfl,rfl,rfl⟩)
  | joined _ _ _ _ hs => exact .inr (.inr ⟨_,_,_,_,rfl,rfl,by rw [hs]⟩)
  | @forwarded client msg choices busyUsers s' rest hcall hs =>
    refine .inr (.inr ⟨client,msg,choices,busyUsers,rfl,?_,by rw [hs]⟩)
    cases msg <;> first | rfl | cases hcall

theorem calls_eq_forwarded (h : Transition backend s e s' out) : calls out = s.forwarded e := by
  cases h with
  | ignored hcall => exact (forwarded_of_not_call s _ _ hcall).symm
  | pong => rfl
  | loginRefused => rfl
  | login =>
    rw [forwarded_of_not_call s _ _ rfl,← calls_broadcast]
    rfl
  | @register client username password choices auth res => cases res <;> rfl
  | listPeers => rfl
  | sessionRefused hcall => exact (forwarded_of_not_call s _ _ hcall).symm
  | created => rfl
  | joined =>
    generalize List.filter _ _ = members
    simp [calls,ServerEngine.forwarded,SignalingMsg.isCall]
  | @forwarded client msg choices busyUsers s' rest hcall _ hrest =>
    have hkeep : calls (s.forwarded (.message client msg choices)) = s.forwarded (.message client msg choices) := by
      apply List.filter_eq_self.mpr
      intro o ho
      obtain ⟨hmsg,username,target,-,-,rfl⟩ := mem_forwarded.mp ho
      simpa using hmsg
    rw [calls_append,hkeep]
    rcases hrest with ⟨rfl,-⟩ | ⟨rfl,-⟩
    · exact List.append_nil _
    · rw [calls_broadcast,List.append_nil]
  | @disconnected client choices s' =>
    cases s.presence.usernameFor client with
    | none => rfl
    | some username =>
      rw [Option.elim_some,calls_append,calls_broadcast,List.append_nil]
      apply List.filter_eq_nil_iff.mpr
      intro o ho
      obtain ⟨l,-,hl⟩ := List.mem_flatMap.mp ho
      obtain ⟨member,-,rfl⟩ := List.mem_map.mp hl
      simp [SignalingMsg.isCall]

theorem lastLogin_snoc (client : ClientId) (h : List (Exchange ρ)) (x : Exchange ρ) : lastLogin client (h ++ [x]) =
      match x.1,loginOf x with
      | .disconnect c _,_ => if c = client then none else lastLogin client h
      | _,some (c,username) => if c = client then some username else lastLogin client h
      | _,none => lastLogin client h := by
  simp only [lastLogin,List.foldl_append,List.foldl_cons,List.foldl_nil]

theorem lastLogin_snoc_cases (client : ClientId) (h : List (Exchange ρ)) (x : Exchange ρ) :
    (∃ username, loginOf x = some (client,username) ∧ lastLogin client (h ++ [x]) = some username) ∨
    ((∃ choices, x.1 = .disconnect client choices) ∧ lastLogin client (h ++ [x]) = none) ∨
    ((∀ username, loginOf x ≠ some (client,username)) ∧ (∀ choices, x.1 ≠ .disconnect client choices) ∧
      lastLogin client (h ++ [x]) = lastLogin client h) := by
  rw [lastLogin_snoc]
  obtain ⟨e,out⟩ := x
  cases e with
  | disconnect c choices =>
    by_cases hc : c = client
    · subst hc
      exact .inr (.inl ⟨⟨choices,rfl⟩,if_pos rfl⟩)
    · exact .inr (.inr ⟨by simp [loginOf],by simp [hc],if_neg hc⟩)
  | message c msg choices =>
    cases hlogin : loginOf (.message c msg choices,out) with
    | none => exact .inr (.inr ⟨by simp,by simp,rfl⟩)
    | some p =>
      obtain ⟨c',username⟩ := p
      by_cases hc : c' = client
      · subst hc
        exact .inl ⟨username,rfl,if_pos rfl⟩
      · exact .inr (.inr ⟨by simp [hc],by simp,if_neg hc⟩)

section
variable {backend : AuthBackend β ρ} {auth : β} {h : List (Exchange ρ)} {s : ServerEngine β}

/-- A connection is logged in under the name of the last login that succeeded on it. -/
theorem usernameFor_eq_lastLogin (hs : Reaches (step backend) (new auth) h s) (client : ClientId) :
    s.presence.usernameFor client = lastLogin client h := by
  induction hs with
  | init => rfl
  | @snoc h s s' e out hprev hstep ih =>
    rw [lastLogin_snoc]
    rcases presence_cases (step_cases hstep) with
      ⟨c,username,password,choices,rfl,hlogin,-,-,hpresence⟩ | ⟨c,choices,rfl,hpresence⟩ |
      ⟨c,msg,choices,busyUsers,rfl,hlogin,hpresence⟩
    · rw [hpresence,Presence.usernameFor_login,ih,hlogin]
      simp only [eq_comm]
    · rw [hpresence,Presence.usernameFor_logout,ih]
      simp only [eq_comm]
    · rw [hpresence,hlogin]
      exact ih

theorem login_of_clientIdFor (hs : Reaches (step backend) (new auth) h s) {username : UserName}
    {client : ClientId} (hclient : s.presence.clientIdFor username = some client) :
    ∃ x ∈ h, loginOf x = some (client,username) := by
  induction hs with
  | init => cases hclient
  | @snoc h s s' e out hprev hstep ih =>
    have hold : s.presence.clientIdFor username = some client →
        ∃ x ∈ h ++ [(e,out)], loginOf x = some (client,username) := by
      intro hbefore
      obtain ⟨x,hx,hlogin⟩ := ih hbefore
      exact ⟨x,by simp [hx],hlogin⟩
    rcases presence_cases (step_cases hstep) with
      ⟨c,u,password,choices,rfl,hlogin,-,-,hpresence⟩ | ⟨c,choices,rfl,hpresence⟩ |
      ⟨c,msg,choices,busyUsers,rfl,-,hpresence⟩
    · rw [hpresence,Presence.clientIdFor_login] at hclient
      split at hclient
      · next hu =>
        cases hclient
        exact ⟨_,List.mem_append_right h (List.mem_singleton_self _),by rw [hlogin,hu]⟩
      · exact hold hclient
    · rw [hpresence,Presence.clientIdFor_logout,Option.ite_none_left_eq_some] at hclient
      exact hold hclient.2
    · rw [hpresence] at hclient
      exact hold hclient
end

def Event.withoutSender : Event ρ → Event ρ
  | .message client msg choices => .message client (msg.withSender "") choices
  | .disconnect client choices => .disconnect client choices
theorem step_withoutSender (backend : AuthBackend β ρ) (s : ServerEngine β) (e : Event ρ) :
    s.step backend e.withoutSender = s.step backend e := by
  cases e with
  | disconnect => rfl
  | message client msg choices => cases msg <;> rfl

/-- In every history, each event makes the engine send at most one call. It is the call the event itself
brought, under the name of the last login that succeeded on its connection, and goes to a connection on
which a login as its addressee succeeded. Logins succeed only where the backend accepts them. The sender
a client writes into its calls makes no difference to what the engine sends or to its state. -/
theorem signaling_authenticity (backend : AuthBackend β ρ) (auth : β) :
    (∀ (before after : List (Exchange ρ)) (e : Event ρ) (out : List OutgoingMsg) (s : ServerEngine β),
      Reaches (step backend) (new auth) (before ++ (e,out) :: after) s →
      (calls out).length ≤ 1 ∧
      (∀ o ∈ calls out, ∃ client msg choices username, e = .message client msg choices ∧ msg.isCall = true ∧
        lastLogin client before = some username ∧ o.msg = msg.withSender username ∧
        ∃ x ∈ before, loginOf x = some (o.clientIdTarget,msg.dest)) ∧
      ∀ client username, loginOf (e,out) = some (client,username) → ∃ s₁ password choices,
        Reaches (step backend) (new auth) before s₁ ∧ e = .message client (.login username password) choices ∧
        backend.verify s₁.auth username password = .ok ()) ∧
    ∀ (h : List (Exchange ρ)) (s : ServerEngine β) (events : List (Event ρ)),
      Reaches (step backend) (new auth) h s →
      events.map Event.withoutSender = h.map (fun x => x.1.withoutSender) →
      Reaches (step backend) (new auth) (events.zip (h.map Prod.snd)) s := by
  constructor
  · intro before after e out s hs
    obtain ⟨s₁,s₂,hbefore,hstep⟩ := hs.middle
    have htransition := step_cases hstep
    refine ⟨?_,?_,?_⟩
    · rw [calls_eq_forwarded htransition]
      exact forwarded_length_le s₁ e
    · intro o ho
      rw [calls_eq_forwarded htransition] at ho
      cases e with
      | disconnect => cases ho
      | message client msg choices =>
        obtain ⟨hmsg,username,target,huser,htarget,rfl⟩ := mem_forwarded.mp ho
        rw [usernameFor_eq_lastLogin hbefore] at huser
        exact ⟨client,msg,choices,username,rfl,hmsg,huser,rfl,login_of_clientIdFor hbefore htarget⟩
    · intro client username hlogin
      rcases presence_cases htransition with
        ⟨c,u,password,choices,rfl,hlogin',hverify,-,-⟩ | ⟨c,choices,rfl,-⟩ | ⟨c,msg,choices,_,rfl,hnone,-⟩
      · obtain ⟨rfl,rfl⟩ := Prod.mk.inj (Option.some.inj (hlogin'.symm.trans hlogin))
        exact ⟨s₁,password,choices,hbefore,rfl,hverify⟩
      · cases hlogin
      · simp [hnone] at hlogin
  · intro h s events hs hevents
    apply hs.congr _ hevents
    intro s e e' heq
    rw [← step_withoutSender backend s e, heq, step_withoutSender]
end RustyRtc.Signaling.ServerEngine
