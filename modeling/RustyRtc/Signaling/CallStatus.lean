import RustyRtc.Signaling.Authenticity

/-! # Who is in a call

The server keeps a set of busy users. What it should say is told by the calls themselves: a call starts when an
answer between two users who are online is passed on, and ends when one of the two says goodbye to the other or
disconnects. The calls are followed beside the engine, and the set is compared with them.
-/
namespace RustyRtc.Signaling
open Presence
variable {u v : UserName}
abbrev LiveCall := UserName × UserName
def LiveCall.Involves (call : LiveCall) (u : UserName) : Prop := call.1 = u ∨ call.2 = u
def LiveCall.Between (call : LiveCall) (u v : UserName) : Prop := call = (u,v) ∨ call = (v,u)
instance (call : LiveCall) (u : UserName) : Decidable (call.Involves u) := inferInstanceAs (Decidable (_ ∨ _))
instance (call : LiveCall) (u v : UserName) : Decidable (call.Between u v) := inferInstanceAs (Decidable (_ ∨ _))
def InCall (calls : List LiveCall) (u : UserName) : Prop := ∃ call ∈ calls, LiveCall.Involves call u
instance (calls : List LiveCall) (u : UserName) : Decidable (InCall calls u) :=
  inferInstanceAs (Decidable (∃ call ∈ calls, LiveCall.Involves call u))
theorem LiveCall.Between.involves {call : LiveCall} {w : UserName} (h : call.Between u v) (hw : call.Involves w) :
    w = u ∨ w = v := by
  rcases h with rfl | rfl
  · exact hw.imp Eq.symm Eq.symm
  · exact hw.symm.imp Eq.symm Eq.symm

namespace Presence
variable (p : Presence) (u v : UserName)
theorem isBusy_setBusy (busy : Bool) : (p.setBusy u busy).isBusy v = if v = u then busy else p.isBusy v := by
  cases busy with
  | true | false => by_cases h : v = u <;> simp [setBusy,isBusy,h]

theorem isBusy_logout (c : ClientId) :
    (p.logout c).1.isBusy v = if p.usernameFor c = some v then false else p.isBusy v := by
  unfold logout usernameFor
  cases p.clientToUser.lookup c with
  | none => simp
  | some u => by_cases h : u = v <;> simp [isBusy,h,eq_comm]
end Presence

namespace ServerEngine
variable {β ρ : Type} {msg : SignalingMsg} {backend : AuthBackend β ρ} {s : ServerEngine β}

/-- The calls after an event. -/
def liveCalls (s : ServerEngine β) (calls : List LiveCall) : Event ρ → List LiveCall
  | .message client (.answer _ _ dest _) _ =>
    match s.presence.usernameFor client,s.presence.clientIdFor dest with
    | some u,some _ => if u = dest then calls else (u,dest) :: calls
    | _,_ => calls
  | .message client (.bye _ dest _) _ =>
    match s.presence.usernameFor client with
    | some u => calls.filter fun call => ¬call.Between u dest
    | none => calls
  | .disconnect client _ =>
    calls.filter fun call => s.presence.clientIdFor call.1 ≠ some client ∧ s.presence.clientIdFor call.2 ≠ some client
  | _ => calls

def followed (backend : AuthBackend β ρ) (s : ServerEngine β × List LiveCall) (e : Event ρ) :
    Option ((ServerEngine β × List LiveCall) × List OutgoingMsg) :=
  (s.1.step backend e).map fun r => ((r.1,s.1.liveCalls s.2 e),r.2)

inductive Marked (s : ServerEngine β) : Event ρ → Presence → Prop
  | same {e} : (∀ calls, s.liveCalls calls e = calls) → Marked s e s.presence
  | login {client username password choices} : s.presence.clientIdFor username = none →
      Marked s (.message client (.login username password) choices) (s.presence.login client username).1
  | answer {client u txnId sender dest sdp choices} : s.presence.usernameFor client = some u →
      Marked s (.message client (.answer txnId sender dest sdp) choices) ((s.presence.setBusy u true).setBusy dest true)
  | bye {client u sender dest reason choices} : s.presence.usernameFor client = some u →
      Marked s (.message client (.bye sender dest reason) choices) ((s.presence.setBusy u false).setBusy dest false)
  | disconnect {client choices} : Marked s (.disconnect client choices) (s.presence.logout client).1

theorem forwardSignaling_marked (choices : Choices ρ) (s : ServerEngine β) (client : ClientId)
    (hcall : msg.isCall = true) :
    Marked s (.message client msg choices) (s.forwardSignaling choices client msg).1.presence := by
  cases huser : s.presence.usernameFor client with
  | none =>
    have hsame : (s.forwardSignaling choices client msg).1 = s := by simp [forwardSignaling,requireLoggedIn,huser]
    rw [hsame]
    exact .same fun calls => by cases msg <;> simp [liveCalls,huser]
  | some u =>
    cases msg with
    | answer txnId sender dest sdp =>
      simp only [forwardSignaling,requireLoggedIn,huser]
      exact .answer huser
    | bye sender dest reason =>
      simp only [forwardSignaling,requireLoggedIn,huser]
      exact .bye huser
    | offer | candidate | ack =>
      simp only [forwardSignaling,requireLoggedIn,huser]
      exact .same fun _ => rfl
    | _ => cases hcall

theorem marked {s' : ServerEngine β} {e : Event ρ} {out : List OutgoingMsg}
    (h : s.step backend e = some (s',out)) : Marked s e s'.presence := by
  have hquiet : ∀ {client : ClientId} {msg : SignalingMsg} {choices : Choices ρ}, msg.isCall = false →
      Marked s (.message client msg choices) s.presence := by
    intro client msg choices hcall
    exact .same fun calls => by cases msg <;> first | rfl | cases hcall
  cases step_cases h with
  | login _ honline hs =>
    rw [hs]
    exact .login honline
  | disconnected hs =>
    rw [hs]
    exact .disconnect
  | @forwarded client msg choices _ _ _ hcall =>
    rw [step,handle_call backend choices s client hcall] at h
    have hmarked := forwardSignaling_marked choices s client hcall
    rw [Option.some.inj h] at hmarked
    exact hmarked
  | joined _ _ _ _ hs =>
    rw [hs]
    exact hquiet rfl
  | ignored hcall => exact hquiet hcall
  | sessionRefused hcall => exact hquiet hcall
  | loginRefused | pong | register | listPeers | created => exact hquiet rfl

/-- An answer goes to another user who is online, a goodbye leaves neither user in a call with somebody else, and nobody
disconnects from a call. -/
def Mannered (s : ServerEngine β) (calls : List LiveCall) : Event ρ → Prop
  | .message client (.answer _ _ dest _) _ => ∀ u ∈ s.presence.usernameFor client,
    u ≠ dest ∧ (s.presence.clientIdFor dest).isSome
  | .message client (.bye _ dest _) _ => ∀ u ∈ s.presence.usernameFor client, ∀ call ∈ calls,
    call.Involves u ∨ call.Involves dest → call.Between u dest
  | .disconnect client _ => ∀ call ∈ calls,
    s.presence.clientIdFor call.1 ≠ some client ∧ s.presence.clientIdFor call.2 ≠ some client
  | _ => True

instance (s : ServerEngine β) (calls : List LiveCall) : DecidablePred (Mannered (ρ := ρ) s calls) := fun e => by
  cases e with
  | message client msg choices =>
    cases msg with
    | answer => exact inferInstanceAs (Decidable (∀ u ∈ _, _ ∧ _))
    | bye => exact inferInstanceAs (Decidable (∀ u ∈ _, ∀ call ∈ _, _ → _))
    | _ => exact isTrue trivial
  | disconnect client choices => exact inferInstanceAs (Decidable (∀ call ∈ _, _ ∧ _))

/-- The engine up to the first event that is not mannered. -/
def mannered (backend : AuthBackend β ρ) (s : ServerEngine β × List LiveCall) (e : Event ρ) :
    Option ((ServerEngine β × List LiveCall) × List OutgoingMsg) :=
  if Mannered s.1 s.2 e then followed backend s e else none

/-- The busy users are those in a call, and they are online. -/
structure Mirrored (p : Presence) (calls : List LiveCall) : Prop where
  busy : ∀ u, p.isBusy u = true ↔ InCall calls u
  online : ∀ call ∈ calls, (p.clientIdFor call.1).isSome ∧ (p.clientIdFor call.2).isSome
  named : ∀ c u, p.usernameFor c = some u → p.clientIdFor u = some c

section
variable {s : ServerEngine β} {calls : List LiveCall} {client : ClientId}
theorem Mirrored.login (h : Mirrored p calls) (client : ClientId) {username : UserName}
    (honline : p.clientIdFor username = none) : Mirrored (p.login client username).1 calls := by
  have hstays : ∀ u, (p.clientIdFor u).isSome → ((p.login client username).1.clientIdFor u).isSome := by
    intro u hu
    rw [clientIdFor_login]
    split
    · rfl
    · exact hu
  refine ⟨h.busy,fun call hcall => (h.online call hcall).imp (hstays _) (hstays _),fun c u hu => ?_⟩
  rw [usernameFor_login] at hu
  rw [clientIdFor_login]
  split at hu
  · next hc =>
    cases hu
    rw [if_pos rfl,hc]
  · have hold := h.named c u hu
    have hne : u ≠ username := by
      rintro rfl
      simp [honline] at hold
    rw [if_neg hne,hold]

theorem Mirrored.answer (h : Mirrored p calls) {dest : UserName} (hu : (p.clientIdFor u).isSome)
    (hdest : (p.clientIdFor dest).isSome) :
    Mirrored ((p.setBusy u true).setBusy dest true) ((u,dest) :: calls) := by
  refine ⟨fun w => ?_,?_,?_⟩
  · have hold := h.busy w
    rw [isBusy_setBusy,isBusy_setBusy]
    simp only [InCall,List.mem_cons,exists_eq_or_imp,LiveCall.Involves] at hold ⊢
    by_cases hwd : w = dest
    · simp [hwd]
    · by_cases hwu : w = u
      · simp [hwu]
      · rw [if_neg hwd,if_neg hwu,hold,eq_comm (a := u),eq_comm (a := dest)]
        simp [hwd,hwu]
  · intro call hcall
    simp only [clientIdFor_setBusy]
    rcases List.mem_cons.mp hcall with rfl | hcall
    · exact ⟨hu,hdest⟩
    · exact h.online call hcall
  · intro c w hw
    simp only [clientIdFor_setBusy,usernameFor_setBusy] at hw ⊢
    exact h.named c w hw

theorem Mirrored.bye (h : Mirrored p calls) {dest : UserName}
    (honly : ∀ call ∈ calls, LiveCall.Involves call u ∨ LiveCall.Involves call dest → LiveCall.Between call u dest) :
    Mirrored ((p.setBusy u false).setBusy dest false) (calls.filter fun call => ¬LiveCall.Between call u dest) := by
  refine ⟨fun w => ?_,?_,?_⟩
  · have hold := h.busy w
    rw [isBusy_setBusy,isBusy_setBusy]
    -- the calls that end are the only ones of the two
    have hfilter : InCall (calls.filter fun call => ¬LiveCall.Between call u dest) w ↔
        InCall calls w ∧ w ≠ u ∧ w ≠ dest := by
      constructor
      · rintro ⟨call,hcall,hw⟩
        obtain ⟨hmem,hnot⟩ := List.mem_filter.mp hcall
        have hnot := of_decide_eq_true hnot
        refine ⟨⟨call,hmem,hw⟩,?_,?_⟩
        · rintro rfl
          exact hnot (honly call hmem (.inl hw))
        · rintro rfl
          exact hnot (honly call hmem (.inr hw))
      · rintro ⟨⟨call,hcall,hw⟩,hwu,hwd⟩
        refine ⟨call,List.mem_filter.mpr ⟨hcall,decide_eq_true fun hbetween => ?_⟩,hw⟩
        exact (hbetween.involves hw).elim hwu hwd
    rw [hfilter,← hold]
    by_cases hwd : w = dest
    · simp [hwd]
    · by_cases hwu : w = u <;> simp [hwd,hwu]
  · intro call hcall
    simp only [clientIdFor_setBusy]
    exact h.online call (List.mem_filter.mp hcall).1
  · intro c w hw
    simp only [clientIdFor_setBusy,usernameFor_setBusy] at hw ⊢
    exact h.named c w hw

theorem Mirrored.logout (h : Mirrored p calls)
    (hnone : ∀ call ∈ calls, p.clientIdFor call.1 ≠ some client ∧ p.clientIdFor call.2 ≠ some client) :
    Mirrored (p.logout client).1 calls := by
  -- the user who goes is in no call
  have hgone : ∀ u, p.usernameFor client = some u → ¬InCall calls u := by
    rintro u hu ⟨call,hcall,hinvolved⟩
    have hclient := h.named client u hu
    rcases hinvolved with rfl | rfl
    · exact (hnone call hcall).1 hclient
    · exact (hnone call hcall).2 hclient
  refine ⟨fun u => ?_,fun call hcall => ?_,fun c u hu => ?_⟩
  · rw [isBusy_logout]
    split
    · next hu => simpa using hgone u hu
    · exact h.busy u
  · have hstays : ∀ u, LiveCall.Involves call u → (p.clientIdFor u).isSome →
        ((p.logout client).1.clientIdFor u).isSome := by
      intro u hinvolved hu
      rw [clientIdFor_logout, if_neg fun hclient => hgone u hclient ⟨call,hcall,hinvolved⟩]
      exact hu
    exact (h.online call hcall).imp (hstays _ (.inl rfl)) (hstays _ (.inr rfl))
  · rw [usernameFor_logout,Option.ite_none_left_eq_some] at hu
    have hold := h.named c u hu.2
    rw [clientIdFor_logout,if_neg,hold]
    intro hclient
    exact hu.1 (Option.some.inj (hold.symm.trans (h.named client u hclient)))

theorem Mirrored.step {e : Event ρ} (h : Mirrored s.presence calls) (he : Mannered s calls e)
    (hmarked : Marked s e p) : Mirrored p (s.liveCalls calls e) := by
  cases hmarked with
  | same hsame =>
    rw [hsame]
    exact h
  | @login client _ _ _ honline => exact h.login client honline
  | @answer client u _ _ dest _ _ huser =>
    obtain ⟨hother,hdest⟩ := he u huser
    obtain ⟨target,htarget⟩ := Option.isSome_iff_exists.mp hdest
    simp only [liveCalls,huser,htarget,if_neg hother]
    exact h.answer (by rw [h.named client u huser]; rfl) hdest
  | @bye client u _ dest _ _ huser =>
    simp only [liveCalls,huser]
    exact h.bye (he u huser)
  | disconnect =>
    have hall := List.filter_eq_self.mpr fun call hcall => decide_eq_true (he call hcall)
    rw [liveCalls,hall]
    exact h.logout he

theorem mirrored {auth : β} {h : List (Exchange ρ)} {t : ServerEngine β × List LiveCall}
    (hs : Reaches (mannered backend) (new auth,[]) h t) : Mirrored t.1.presence t.2 := by
  induction hs with
  | init =>
    refine ⟨fun u => ?_,by simp,fun c u hu => ?_⟩
    · simp [InCall,new,Presence.new,isBusy]
    · simp [new,Presence.new,usernameFor] at hu
  | snoc _ hstep ih =>
    obtain ⟨hmannered,hstep⟩ := Option.ite_none_right_eq_some.mp hstep
    obtain ⟨⟨s',out⟩,hengine,heq⟩ := Option.map_eq_some_iff.mp hstep
    cases heq
    exact ih.step hmannered (marked hengine)

/-- A message of somebody who has no call with a user, before or after it, does not change whether that user is in a
call. -/
theorem inCall_liveCalls {choices : Choices ρ} (hv : s.presence.usernameFor client = some v) (hne : u ≠ v)
    (hno : ∀ call ∈ calls ++ s.liveCalls calls (.message client msg choices), ¬LiveCall.Between call u v) :
    InCall (s.liveCalls calls (.message client msg choices)) u ↔ InCall calls u := by
  cases msg with
  | answer txnId sender dest sdp =>
    simp only [liveCalls,hv] at hno ⊢
    cases hdest : s.presence.clientIdFor dest with
    | none => rfl
    | some target =>
      simp only [hdest] at hno ⊢
      split at hno
      · next hself => rw [if_pos hself]
      · next hself =>
        have hdest' : u ≠ dest := by
          rintro rfl
          exact hno (v,u) (by simp) (.inr rfl)
        simp [InCall,LiveCall.Involves,hself,hne.symm,hdest'.symm]
  | bye sender dest reason =>
    simp only [liveCalls,hv] at hno ⊢
    constructor
    · rintro ⟨call,hcall,hu⟩
      exact ⟨call,(List.mem_filter.mp hcall).1,hu⟩
    · rintro ⟨call,hcall,hu⟩
      refine ⟨call,List.mem_filter.mpr ⟨hcall,decide_eq_true fun hbetween => ?_⟩,hu⟩
      rcases hbetween.involves hu with rfl | rfl
      · exact hne rfl
      · exact hno call (by simp [hcall]) hbetween.symm
  | _ => rfl
end

theorem busy_mem_peersFor {users : Iteration UserName} {me : UserName} : (u, .busy) ∈ s.peersFor users me ↔
      u ≠ me ∧ (s.presence.clientIdFor u).isSome ∧ s.presence.isBusy u = true := by
  have honline : ∀ w, w ∈ s.presence.onlineUsernames users ↔ (s.presence.clientIdFor w).isSome :=
    fun w => (users.perm _).mem_iff.trans AList.lookup_isSome.symm
  simp only [peersFor,List.mem_map,List.mem_filter,decide_eq_true_eq,Prod.mk.injEq,status,honline]
  constructor
  · rintro ⟨w,⟨hw,hne⟩,rfl,hstatus⟩
    split at hstatus
    · next hbusy => exact ⟨hne,hw,hbusy⟩
    · cases hstatus
  · rintro ⟨hne,hu,hbusy⟩
    exact ⟨u,⟨hu,hne⟩,rfl,if_pos hbusy⟩

/-- As long as users are mannered, a user is reported busy exactly if online and in a call, and no message changes
that but those of the user and of somebody in a call with them. -/
theorem busy_mirrors_calls {backend : AuthBackend β ρ} {auth : β} {h : List (Exchange ρ)} {s : ServerEngine β}
    {calls : List LiveCall} (hs : Reaches (mannered backend) (new auth,[]) h (s,calls)) :
    (∀ users me u, (u, .busy) ∈ s.peersFor users me ↔
      u ≠ me ∧ (s.presence.clientIdFor u).isSome ∧ InCall calls u) ∧
    ∀ client msg choices s' calls' out u v,
      mannered backend (s,calls) (.message client msg choices) = some ((s',calls'),out) →
      s.presence.usernameFor client = some v → u ≠ v →
      (∀ call ∈ calls ++ calls', ¬LiveCall.Between call u v) → s'.presence.isBusy u = s.presence.isBusy u := by
  have hmirrored := mirrored hs
  constructor
  · intro users me u
    rw [busy_mem_peersFor, hmirrored.busy]
  · intro client msg choices s' calls' out u v hstep hv hne hno
    have hmirrored' := (mirrored (hs.snoc hstep)).busy u
    obtain ⟨-,hfollowed⟩ := Option.ite_none_right_eq_some.mp hstep
    obtain ⟨⟨s₁,out₁⟩,-,heq⟩ := Option.map_eq_some_iff.mp hfollowed
    obtain ⟨⟨rfl,rfl⟩,rfl⟩ := And.imp_left Prod.mk.inj (Prod.mk.inj heq)
    exact Bool.eq_iff_iff.mpr (hmirrored'.trans ((inCall_liveCalls hv hne hno).trans (hmirrored.busy u).symm))

def bobAnswersAlice : List (Event Unit) :=
  [.message 1 (.login "alice" "a") (.plain ()), .message 2 (.login "bob" "b") (.plain ()),
    .message 3 (.login "carol" "c") (.plain ()), .message 2 (.answer 1 "bob" "alice" []) (.plain ())]
theorem busy_mirrors_one_call : ∃ h s calls, Reaches (mannered allowAll) (new (),[]) h (s,calls) ∧
    calls = [("bob","alice")] ∧ ∀ users me u, (u, .busy) ∈ s.peersFor users me ↔
      u ≠ me ∧ (s.presence.clientIdFor u).isSome ∧ InCall calls u := by
  obtain ⟨h,⟨s,calls⟩,hs,hcalls⟩ : ∃ h t, Reaches (mannered allowAll) (new (),[]) h t ∧
      t.2 = [("bob","alice")] := exists_reaches_of_trace bobAnswersAlice (by decide +kernel)
  exact ⟨h,s,calls,hs,hcalls,(busy_mirrors_calls hs).1⟩
def saidOf (u : UserName) (events : List (Event Unit)) : Option (PeerStatus × Bool) :=
  (trace (followed allowAll) (new (),[]) events).map fun r => (r.2.1.status u,decide (InCall r.2.2 u))

/-- Carol, who has nothing to do with the call, says goodbye to alice, and alice is reported available in the middle of
it. When bob disconnects instead, alice stays busy without a call. When bob answers dave, who is not there, dave is
busy from the first login on. -/
theorem busy_status_astray :
    saidOf "alice" (bobAnswersAlice ++ [.message 3 (.bye "carol" "alice" none) (.plain ())]) = some (.available,true) ∧
    saidOf "alice" (bobAnswersAlice ++ [.disconnect 2 (.plain ())]) = some (.busy,false) ∧
    saidOf "dave" [.message 2 (.login "bob" "b") (.plain ()), .message 2 (.answer 1 "bob" "dave" []) (.plain ()),
      .message 4 (.login "dave" "d") (.plain ())] = some (.busy,false) := by
  decide +kernel
end ServerEngine
end RustyRtc.Signaling
