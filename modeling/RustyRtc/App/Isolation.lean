import RustyRtc.App.RtcApp

/-! # Messages from outside a call

Only an offer is checked against the call that is going on. An answer, a candidate or a farewell takes effect
whoever it comes from, so a call is left alone exactly when none of these arrives in a form that can be used.
-/
namespace RustyRtc.App
open Connection Signaling Ice

def sender : SignalingMsg → Option UserName
  | .offer _ sender _ _ => some sender
  | .answer _ sender _ _ => some sender
  | .candidate sender _ _ _ _ => some sender
  | .ack sender _ _ => some sender
  | .bye sender _ _ => some sender
  | _ => none

variable (v6 : Ipv6Text)

/-- A message that a client with a call does nothing about: no farewell, no answer in UTF-8 and no candidate
that can be read. -/
def Harmless : SignalingMsg → Prop
  | .answer _ _ _ sdp => fromUtf8 sdp = none
  | .candidate _ _ _ _ cand => ∀ line, fromUtf8 cand = some line → (IceAndSdp.fromStr v6 line.toList).isOk = false
  | .bye _ _ _ => False
  | _ => True

namespace RtcApp
variable {app : RtcApp} {peer : UserName} {msg : SignalingMsg} {msgs : List SignalingMsg} {e : Engine} {line : Text}
variable {user : UserName} {candidates : ℕ} (env : Environment)
def call (app : RtcApp) : CallFlow × Option Text × Option Sdp × List Candidate :=
  (app.callFlow,app.pendingRemoteSdp,app.engine.cm.remoteDescription,app.engine.cm.iceAgent.remoteCandidates)
def handleMessages (env : Environment) (app : RtcApp) (msgs : List SignalingMsg) : RtcApp × List SignalingMsg :=
  each (handleSignalingServerMsg v6 env) app msgs
def busyReply (app : RtcApp) (caller : UserName) : SignalingMsg := .bye app.username caller (some "User is busy")
theorem callFlow_ne_idle (h : app.currentPeer = some peer) : app.callFlow ≠ .idle := by
  intro hidle
  rw [currentPeer,hidle] at h
  cases h
theorem applyRemoteCandidate_error (h : (IceAndSdp.fromStr v6 line).isOk = false) :
    (e.applyRemoteCandidate v6 line).1 = e := by
  unfold Engine.applyRemoteCandidate ConnectionManager.applyRemoteTrickleCandidate
  cases hparse : IceAndSdp.fromStr v6 line with
  | error _ => rfl
  | ok c => rw [hparse] at h; cases h
theorem applyRemoteCandidate_ok (h : (IceAndSdp.fromStr v6 line).isOk = true) :
    ∃ c, (e.applyRemoteCandidate v6 line).1.cm.iceAgent.remoteCandidates = e.cm.iceAgent.remoteCandidates ++ [c] := by
  unfold Engine.applyRemoteCandidate ConnectionManager.applyRemoteTrickleCandidate
  cases hparse : IceAndSdp.fromStr v6 line with
  | error _ => rw [hparse] at h; cases h
  | ok c => exact ⟨c,rfl⟩

/-- A harmless message changes nothing, and only an offer is replied to. -/
theorem handle_harmless (hcall : app.callFlow ≠ .idle)
    (hsender : (sender msg).isSome) (h : Harmless v6 msg) : (app.handleSignalingServerMsg v6 env msg).1 = app ∧
      ∀ reply ∈ (app.handleSignalingServerMsg v6 env msg).2, ∃ txnId caller dest sdp,
        msg = .offer txnId caller dest sdp ∧ reply = app.busyReply caller := by
  cases msg with
  | offer txnId caller dest sdp =>
    have hbusy : app.handleSignalingServerMsg v6 env (.offer txnId caller dest sdp) =
        (app,app.sendSignaling env (app.busyReply caller)) := if_pos hcall
    rw [hbusy]
    refine ⟨rfl,fun reply hreply => ⟨txnId,caller,dest,sdp,rfl,?_⟩⟩
    dsimp only [sendSignaling] at hreply
    split at hreply
    · exact List.mem_singleton.mp hreply
    · cases hreply
  | answer txnId user dest sdp =>
    have hnone : fromUtf8 sdp = none := h
    simp only [handleSignalingServerMsg,hnone]
    exact ⟨trivial,nofun⟩
  | candidate user dest mid mlineIndex cand =>
    cases hline : fromUtf8 cand with
    | none =>
      simp only [handleSignalingServerMsg,hline]
      exact ⟨trivial,nofun⟩
    | some line =>
      simp only [handleSignalingServerMsg,hline,applyRemoteCandidate_error v6 (h line hline)]
      exact ⟨trivial,nofun⟩
  | ack => exact ⟨rfl,nofun⟩
  | bye => exact h.elim
  | _ => cases hsender

/-- The call with this peer is gone, or candidates have been added to it. -/
def Disturbed (peer : UserName) (candidates : ℕ) (app : RtcApp) : Prop :=
  app.currentPeer ≠ some peer ∨ candidates < app.engine.cm.iceAgent.remoteCandidates.length

theorem handle_disturbs (app : RtcApp) (hne : user ≠ peer)
    (hsender : sender msg = some user) (h : ¬ Harmless v6 msg) :
    Disturbed peer app.engine.cm.iceAgent.remoteCandidates.length (app.handleSignalingServerMsg v6 env msg).1 := by
  cases msg with
  | answer txnId caller dest sdp =>
    cases hsender
    obtain ⟨body,hbody⟩ := Option.ne_none_iff_exists'.mp h
    refine .inl ?_
    simp only [handleSignalingServerMsg,hbody,currentPeer]
    exact fun heq => hne (Option.some.inj heq)
  | candidate caller dest mid mlineIndex cand =>
    have hok : ∃ line, fromUtf8 cand = some line ∧ (IceAndSdp.fromStr v6 line.toList).isOk = true := by
      simpa only [Harmless,not_forall,Bool.not_eq_false,exists_prop] using h
    obtain ⟨line,hline,hok⟩ := hok
    obtain ⟨c,hc⟩ := applyRemoteCandidate_ok v6 (e := app.engine) hok
    refine .inr ?_
    simp only [handleSignalingServerMsg,hline,hc,List.length_append,List.length_singleton]
    exact Nat.lt_succ_self _
  | bye => exact .inl nofun
  | offer | ack => exact absurd trivial h
  | _ => cases hsender

theorem Disturbed.handle (hd : Disturbed peer candidates app) (env : Environment) (hne : user ≠ peer)
    (hsender : sender msg = some user) : Disturbed peer candidates (app.handleSignalingServerMsg v6 env msg).1 := by
  cases msg with
  | offer txnId caller dest sdp =>
    cases hsender
    simp only [handleSignalingServerMsg]
    split
    · exact hd
    · split
      · exact .inl fun heq => hne (Option.some.inj heq)
      · exact hd
  | answer txnId caller dest sdp =>
    cases hsender
    simp only [handleSignalingServerMsg]
    split
    · exact .inl fun heq => hne (Option.some.inj heq)
    · exact hd
  | candidate caller dest mid mlineIndex cand =>
    simp only [handleSignalingServerMsg]
    split
    · next line hline =>
      cases hok : (IceAndSdp.fromStr v6 line.toList).isOk with
      | false =>
        rw [applyRemoteCandidate_error v6 hok]
        exact hd
      | true =>
        obtain ⟨c,hc⟩ := applyRemoteCandidate_ok v6 (e := app.engine) hok
        refine hd.imp id fun hlt => ?_
        dsimp only
        rw [hc,List.length_append]
        exact Nat.lt_add_right _ hlt
    · exact hd
  | bye => exact .inl nofun
  | ack => exact hd
  | _ => cases hsender

theorem handleMessages_cons (app : RtcApp) (msg : SignalingMsg) (msgs : List SignalingMsg) :
    app.handleMessages v6 env (msg :: msgs) =
      (((app.handleSignalingServerMsg v6 env msg).1.handleMessages v6 env msgs).1,
        (app.handleSignalingServerMsg v6 env msg).2 ++
          ((app.handleSignalingServerMsg v6 env msg).1.handleMessages v6 env msgs).2) := rfl

theorem handleMessages_harmless (hcall : app.callFlow ≠ .idle)
    (hsender : ∀ msg ∈ msgs, (sender msg).isSome) (h : ∀ msg ∈ msgs, Harmless v6 msg) :
    (app.handleMessages v6 env msgs).1 = app ∧ ∀ reply ∈ (app.handleMessages v6 env msgs).2, ∃ txnId caller dest sdp,
        .offer txnId caller dest sdp ∈ msgs ∧ reply = app.busyReply caller := by
  induction msgs with
  | nil => exact ⟨rfl,nofun⟩
  | cons msg msgs ih =>
    obtain ⟨hmsg,hmsgs⟩ := List.forall_mem_cons.mp h
    obtain ⟨hone,hall⟩ := List.forall_mem_cons.mp hsender
    obtain ⟨hsame,hreply⟩ := handle_harmless v6 env hcall hone hmsg
    obtain ⟨ihsame,ihreply⟩ := ih hall hmsgs
    rw [handleMessages_cons,hsame]
    refine ⟨ihsame,fun reply hmem => ?_⟩
    rcases List.mem_append.mp hmem with hmem | hmem
    · obtain ⟨txnId,caller,dest,sdp,rfl,rfl⟩ := hreply reply hmem
      exact ⟨txnId,caller,dest,sdp,List.mem_cons_self,rfl⟩
    · obtain ⟨txnId,caller,dest,sdp,hoffer,rfl⟩ := ihreply reply hmem
      exact ⟨txnId,caller,dest,sdp,List.mem_cons_of_mem _ hoffer,rfl⟩

theorem Disturbed.handleMessages (hd : Disturbed peer candidates app) (env : Environment)
    (hsender : ∀ msg ∈ msgs, ∃ user, sender msg = some user ∧ user ≠ peer) :
    Disturbed peer candidates (app.handleMessages v6 env msgs).1 := by
  induction msgs generalizing app with
  | nil => exact hd
  | cons msg msgs ih =>
    obtain ⟨⟨user,huser,hne⟩,hmsgs⟩ := List.forall_mem_cons.mp hsender
    exact ih (hd.handle v6 env hne huser) hmsgs

theorem Disturbed.call_ne {app' : RtcApp} (hpeer : app.currentPeer = some peer)
    (hd : Disturbed peer app.engine.cm.iceAgent.remoteCandidates.length app') : app'.call ≠ app.call := by
  intro hcall
  simp only [call,Prod.mk.injEq] at hcall
  obtain ⟨hflow,-,-,hcandidates⟩ := hcall
  rcases hd with hd | hd
  · exact hd (by rw [currentPeer,hflow]; exact hpeer)
  · rw [hcandidates] at hd
    exact absurd hd (lt_irrefl _)

/-- The first message that is not harmless disturbs the call, and it stays disturbed. -/
theorem disturbed_of_not_harmless (hpeer : app.currentPeer = some peer)
    (hsender : ∀ msg ∈ msgs, ∃ user, sender msg = some user ∧ user ≠ peer) (h : ¬ ∀ msg ∈ msgs, Harmless v6 msg) :
    Disturbed peer app.engine.cm.iceAgent.remoteCandidates.length (app.handleMessages v6 env msgs).1 := by
  induction msgs with
  | nil => exact absurd (by simp) h
  | cons msg msgs ih =>
    obtain ⟨⟨user,huser,hne⟩,hmsgs⟩ := List.forall_mem_cons.mp hsender
    rw [handleMessages_cons]
    by_cases hmsg : Harmless v6 msg
    · have hsame := (handle_harmless v6 env (callFlow_ne_idle hpeer) (by rw [huser]; rfl) hmsg).1
      rw [hsame]
      exact ih hmsgs fun hall => h (List.forall_mem_cons.mpr ⟨hmsg,hall⟩)
    · exact (handle_disturbs v6 env app hne huser hmsg).handleMessages v6 env hmsgs

/-- While there is a call, messages from others leave it as it is exactly when all of them are harmless. Then
the whole client stays as it is, and nothing but busy replies is sent. -/
theorem call_unchanged_iff_harmless (env : Environment) {app : RtcApp} {peer : UserName}
    (hpeer : app.currentPeer = some peer) {msgs : List SignalingMsg}
    (hsender : ∀ msg ∈ msgs, ∃ user, sender msg = some user ∧ user ≠ peer) :
    ((app.handleMessages v6 env msgs).1.call = app.call ↔ ∀ msg ∈ msgs, Harmless v6 msg) ∧
      ((∀ msg ∈ msgs, Harmless v6 msg) → (app.handleMessages v6 env msgs).1 = app ∧
        ∀ reply ∈ (app.handleMessages v6 env msgs).2, ∃ txnId caller dest sdp,
          .offer txnId caller dest sdp ∈ msgs ∧ reply = .bye app.username caller (some "User is busy")) := by
  have hsome : ∀ msg ∈ msgs, (sender msg).isSome := by
    intro msg hmsg
    obtain ⟨user,huser,-⟩ := hsender msg hmsg
    rw [huser]
    rfl
  have hsame := handleMessages_harmless v6 env (callFlow_ne_idle hpeer) hsome
  refine ⟨⟨fun hcall => ?_,fun hall => ?_⟩,hsame⟩
  · by_contra hnot
    exact (disturbed_of_not_harmless v6 env hpeer hsender hnot).call_ne hpeer hcall
  · rw [(hsame hall).1]

def quiet : Environment where
  hostCandidates := []
  candidates := []
  ntpSeconds := 1
  sendOk _ _ := true
  accepts _ := true
  codecs := []
  maxCandidatePairs := 100
  credentials := ("uf","pw")
  fingerprint := none

def frame (signalingEvents : List SignalingEvent) (actions : List UserAction) : Frame :=
  ⟨quiet,[],false,false,[],signalingEvents,actions⟩
def dialing : RtcApp :=
  (RtcApp.new quiet).run noIpv6
    [frame [] [.connect true],
      frame [.serverMsg (.loginOk "alice"), .serverMsg (.peersOnline [("bob", .available)])] [],
      frame [] [.call "bob"]]

theorem callFlow_dialing : dialing.callFlow = .dialing "bob" 1 := by decide +kernel
theorem others_reach_the_call :
    dialing.callFlow = .dialing "bob" 1 ∧
      (dialing.handleMessages noIpv6 quiet [.bye "mallory" "alice" none]).1.callFlow = .idle ∧
      (dialing.handleMessages noIpv6 quiet [.answer 7 "mallory" "alice" (utf8 "v=0")]).1.callFlow = .active "mallory" ∧
      (dialing.handleMessages noIpv6 quiet [.candidate "mallory" "alice" "0" 0
        (utf8 "1 1 udp 1 10.0.0.9 5000 typ host")]).1.engine.cm.iceAgent.remoteCandidates ≠
        dialing.engine.cm.iceAgent.remoteCandidates := by
  refine ⟨callFlow_dialing,rfl,?_,?_⟩
  · simp only [handleMessages, each, handleSignalingServerMsg, fromUtf8_eq_some.mpr rfl]
  · have hok : (IceAndSdp.fromStr noIpv6 "1 1 udp 1 10.0.0.9 5000 typ host".toList).isOk = true := by decide +kernel
    obtain ⟨c,hc⟩ := applyRemoteCandidate_ok noIpv6 (e := dialing.engine) hok
    simp only [handleMessages, each, handleSignalingServerMsg, fromUtf8_eq_some.mpr rfl, hc]
    exact fun h => List.cons_ne_nil c [] (List.append_right_eq_self.mp h)

theorem call_unchanged_dialing :
    dialing.currentPeer = some "bob" ∧
      (dialing.handleMessages noIpv6 quiet [.offer 3 "carol" "alice" [], .ack "carol" "alice" 3]).1.call = dialing.call := by
  have hpeer : dialing.currentPeer = some "bob" := by rw [currentPeer, callFlow_dialing]
  have hsender : ∀ msg ∈ [SignalingMsg.offer 3 "carol" "alice" [], .ack "carol" "alice" 3],
      ∃ user, sender msg = some user ∧ user ≠ "bob" := by
    intro msg hmsg
    refine ⟨"carol",?_,by decide⟩
    simp only [List.mem_cons, List.not_mem_nil, or_false] at hmsg
    rcases hmsg with rfl | rfl <;> rfl
  refine ⟨hpeer,(call_unchanged_iff_harmless noIpv6 quiet hpeer hsender).1.mpr ?_⟩
  intro msg hmsg
  simp only [List.mem_cons, List.not_mem_nil, or_false] at hmsg
  rcases hmsg with rfl | rfl <;> exact trivial
end RtcApp
end RustyRtc.App
