import RustyRtc.Connection.Refusal

/-! # The role that a description announces

`connection_manager/connection_manager.rs` and `core/engine.rs`: the `setup` attribute is chosen by the signaling state
in which a description is built, `actpass` for an offer and `active` for an answer. The role in the DTLS handshake
follows from the ICE role, which also depends on whether the peer is ICE-lite. Both are followed through every use of
a manager.
-/
namespace RustyRtc.Connection
open Ice Sdp

namespace ConnectionManager

def actpass : Text := "actpass".toList
def active : Text := "active".toList
def passive : Text := "passive".toList
def setups (sdp : Sdp) : List Text := (mediaAttributes sdp).filterMap (valueOf "setup".toList)

/-- The DTLS role is one that the manager's own description allows: a client where it is active, a server where it is
passive or where it leaves the choice and the peer's is active. -/
def Allowed (cm : ConnectionManager) : Prop :=
  ∀ d ∈ cm.localDescription, ∀ v ∈ setups d,
    (v = active → dtlsRole cm.iceAgent.role = .client) ∧ (v = passive → dtlsRole cm.iceAgent.role = .server) ∧
      (v = actpass → ∀ r ∈ cm.remoteDescription, active ∈ setups r → dtlsRole cm.iceAgent.role = .server)
def Answered (cm : ConnectionManager) : Prop := ∃ d ∈ cm.localDescription, active ∈ setups d
def AnsweredLite (cm : ConnectionManager) : Prop := cm.Answered ∧ ∃ r ∈ cm.remoteDescription, iceLite r = true

section
variable (v6 : Ipv6Text)
def announcement (signaling : SignalingState) : Text := if signaling = .stable then actpass else active

theorem setups_buildLocalSdp (env : Surroundings) (cm : ConnectionManager) :
    announcement cm.signaling ∈ setups (cm.buildLocalSdp v6 env).2 ∧
      ∀ v ∈ setups (cm.buildLocalSdp v6 env).2, v = announcement cm.signaling := by
  have hsaid : ⟨"setup".toList,some (announcement cm.signaling)⟩ ∈ cm.said := .tail _ (.tail _ (.tail _ (.head _)))
  constructor
  · obtain ⟨m,hm⟩ := List.exists_mem_of_ne_nil _ (media_buildLocalSdp_ne_nil v6 env cm)
    have hsetup : ⟨"setup".toList,some (announcement cm.signaling)⟩ ∈ m.attrs :=
      opening_subset v6 hm (List.mem_append_right _ hsaid)
    exact List.mem_filterMap.mpr ⟨_,List.mem_flatMap.mpr ⟨m,hm,hsetup⟩,valueOf_self _ _⟩
  · intro v hv
    obtain ⟨a,ha,hv⟩ := List.mem_filterMap.mp hv
    obtain ⟨m,hm,ha⟩ := List.mem_flatMap.mp ha
    have hkey : a.key = "setup".toList := by
      by_contra hne
      rw [valueOf,if_neg hne] at hv
      cases hv
    rw [valueOf,if_pos hkey,(says_of_mem_media v6 hm ha).own _ hsaid hkey] at hv
    exact (Option.some.inj hv).symm
end

/-- How a manager stands between calls: nothing said yet, an offer said, or an answer said. -/
inductive Standing (cm : ConnectionManager) : Prop
  | unsaid : cm.localDescription = none → cm.signaling = .stable → Standing cm
  | offered {d} : cm.localDescription = some d → (∀ v ∈ setups d, v = actpass) → cm.Steady →
      cm.iceAgent.role = .controlling → Standing cm
  | answered {d r} : cm.localDescription = some d → cm.remoteDescription = some r → active ∈ setups d →
      (∀ v ∈ setups d, v = active) → cm.signaling = .stable →
      cm.iceAgent.role = (if iceLite r then .controlling else .controlled) → Standing cm

namespace Standing
variable {cm cm' : ConnectionManager} {sdp : Sdp} {out : OutboundSdp}
theorem steady (h : cm.Standing) : cm.Steady := by
  cases h with
  | unsaid _ hstable => exact .inl hstable
  | offered _ _ hsteady _ => exact hsteady
  | answered _ _ _ _ hstable _ => exact .inl hstable

theorem congr (h : cm.Standing) (hlocal : cm'.localDescription = cm.localDescription)
    (hremote : cm'.remoteDescription = cm.remoteDescription) (hsignaling : cm'.signaling = cm.signaling)
    (hrole : cm'.iceAgent.role = cm.iceAgent.role) : cm'.Standing := by
  cases h with
  | unsaid h₁ h₂ => exact .unsaid (hlocal.trans h₁) (hsignaling.trans h₂)
  | offered h₁ h₂ h₃ h₄ =>
    refine .offered (hlocal.trans h₁) h₂ ?_ (hrole.trans h₄)
    rw [Steady,hsignaling]
    exact h₃
  | answered h₁ h₂ h₃ h₄ h₅ h₆ =>
    exact .answered (hlocal.trans h₁) (hremote.trans h₂) h₃ h₄ (hsignaling.trans h₅) (hrole.trans h₆)

theorem allowed_iff (h : cm.Standing) : cm.Allowed ↔ ¬ cm.AnsweredLite := by
  have hne : actpass ≠ active ∧ active ≠ passive ∧ actpass ≠ passive := by decide
  cases h with
  | unsaid hnone _ =>
    refine ⟨fun _ hlite => ?_,fun _ d hd => ?_⟩
    · obtain ⟨⟨d,hd,-⟩,-⟩ := hlite
      rw [hnone] at hd
      cases hd
    · rw [hnone] at hd
      cases hd
  | offered hlocal hsaid _ hrole =>
    refine ⟨fun _ hlite => ?_,fun _ d hd v hv => ?_⟩
    · obtain ⟨⟨d,hd,hactive⟩,-⟩ := hlite
      obtain rfl := Option.some.inj (hlocal.symm.trans hd)
      exact hne.1 (hsaid _ hactive).symm
    · obtain rfl := Option.some.inj (hlocal.symm.trans hd)
      rw [hsaid v hv,hrole]
      exact ⟨fun h => absurd h hne.1,fun h => absurd h hne.2.2,fun _ _ _ _ => rfl⟩
  | @answered d r hlocal hremote hactive hsaid _ hrole =>
    constructor
    · rintro hallowed ⟨-,r',hr',hlite⟩
      obtain rfl := Option.some.inj (hremote.symm.trans hr')
      have hclient := (hallowed d hlocal active hactive).1 rfl
      rw [hrole,hlite] at hclient
      cases hclient
    · intro hnot d' hd' v hv
      obtain rfl := Option.some.inj (hlocal.symm.trans hd')
      have hlite : iceLite r = false := by
        cases hlite : iceLite r with
        | false => rfl
        | true => exact absurd ⟨⟨d,hlocal,hactive⟩,r,hremote,hlite⟩ hnot
      rw [hsaid v hv,hrole,hlite]
      exact ⟨fun _ => rfl,fun h => absurd h hne.2.1,fun h => absurd h.symm hne.1⟩

variable (v6 : Ipv6Text)
theorem negotiate (h : cm.Standing) (env : Surroundings) : (cm.negotiate v6 env).1.Standing := by
  rcases h.steady with hstable | hoffer
  · obtain ⟨-,hsaid⟩ := setups_buildLocalSdp v6 env cm
    rw [hstable] at hsaid
    unfold ConnectionManager.negotiate
    rw [hstable]
    exact .offered rfl hsaid (.inr rfl) rfl
  · unfold ConnectionManager.negotiate
    rw [hoffer]
    exact h

theorem maybeStartIce (h : cm.Standing) (env : Surroundings) : (cm.maybeStartIce env).1.Standing := by
  obtain ⟨agent,phase,worker,hcm,hagent⟩ := maybeStartIce_spec env cm
  rw [hcm]
  exact h.congr rfl rfl rfl (role_congr hagent)

theorem took {env : Surroundings} {r : ConnectionManager × Except ConnectionError OutboundSdp} (h : cm.Standing)
    (htook : Took v6 env cm sdp r) : r.1.Standing := by
  cases htook with
  | unexpected => exact h
  | unread => exact h.congr rfl rfl rfl (marked_role v6 cm.iceAgent sdp)
  | answered codecs _ =>
    obtain ⟨hactive,hsaid⟩ := setups_buildLocalSdp v6 env (cm.receiving v6 sdp codecs)
    exact .answered rfl rfl hactive hsaid rfl rfl
  | accepted codecs hoffer =>
    cases h with
    | unsaid _ hstable | answered _ _ _ _ hstable _ => rw [hoffer] at hstable; cases hstable
    | offered hlocal hsaid _ hrole =>
      exact .offered hlocal hsaid (.inl rfl) ((marked_role v6 cm.iceAgent sdp).trans hrole)

theorem applyRemoteSdp (h : cm.Standing) (env : Surroundings) (remote : Text) :
    (cm.applyRemoteSdp v6 env remote).1.Standing := by
  unfold ConnectionManager.applyRemoteSdp
  split
  · exact h
  · next sdp _ =>
    have hparsed := h.took v6 (took_applyParsed v6 env cm sdp)
    generalize cm.applyParsed v6 env sdp = r at hparsed ⊢
    obtain ⟨cm',_ | out⟩ := r
    · exact hparsed
    · exact maybeStartIce hparsed env

theorem step {h : History} (hstanding : h.manager.Standing) (use : Use) : (h.step v6 use).manager.Standing := by
  cases use with
  | negotiate env => exact hstanding.negotiate v6 env
  | applyRemoteSdp env remote => exact hstanding.applyRemoteSdp v6 env remote
  | applyRemoteTrickleCandidate candAttrLine =>
    change (h.manager.applyRemoteTrickleCandidate v6 candAttrLine).1.Standing
    unfold ConnectionManager.applyRemoteTrickleCandidate
    cases IceAndSdp.fromStr v6 candAttrLine with
    | error e => exact hstanding
    | ok c => exact hstanding.congr rfl rfl rfl rfl
  | setLocalRtpCodecs codecs => exact hstanding.congr rfl rfl rfl rfl
  | drainIceEvents sendOk packets =>
    obtain ⟨agent,phase,worker,hcm,hagent⟩ := drainIceEvents_spec sendOk packets h.manager
    change (h.manager.drainIceEvents sendOk packets).1.Standing
    rw [hcm]
    exact hstanding.congr rfl rfl rfl (role_congr hagent)
  | stopIceWorker => exact hstanding.congr rfl rfl rfl rfl
  | reset maxCandidatePairs credentials => exact .unsaid rfl rfl
end Standing

variable (v6 : Ipv6Text)
theorem standing_history (maxCandidatePairs : ℕ) (credentials : String × String) (fingerprint : Option Text)
    (uses : List Use) : (history v6 maxCandidatePairs credentials fingerprint uses).manager.Standing := by
  have hrun : ∀ h : History, h.manager.Standing → (uses.foldl (History.step v6) h).manager.Standing := by
    induction uses with
    | nil => exact fun h hstanding => hstanding
    | cons use uses ih => exact fun h hstanding => ih _ (hstanding.step v6 use)
  exact hrun _ (.unsaid rfl rfl)

/-- Whatever was done with a manager, its DTLS role is one that its description allows exactly if it has not answered
an ICE-lite offer. -/
theorem role_allowed_iff (maxCandidatePairs : ℕ) (credentials : String × String) (fingerprint : Option Text)
    (uses : List Use) :
    (history v6 maxCandidatePairs credentials fingerprint uses).manager.Allowed ↔
      ¬ (history v6 maxCandidatePairs credentials fingerprint uses).manager.AnsweredLite :=
  (standing_history v6 maxCandidatePairs credentials fingerprint uses).allowed_iff
def offering (line : String) : Text :=
  ("v=0\no=- 1 1 IN IP4 h\ns=x\n" ++ line ++ "m=audio 9 RTP/AVP 0\na=setup:actpass\n").toList

/-- Both answers say `active`, but behind an ICE-lite offer the engine becomes the server. -/
theorem lite_answer_takes_other_role :
    ((afterTexts [offering ""]).manager.signaling = .stable ∧
      (afterTexts [offering ""]).manager.localDescription.map setups = some [active] ∧
      dtlsRole (afterTexts [offering ""]).manager.iceAgent.role = .client) ∧
    (afterTexts [offering "a=ice-lite\n"]).manager.signaling = .stable ∧
      (afterTexts [offering "a=ice-lite\n"]).manager.localDescription.map setups = some [active] ∧
      dtlsRole (afterTexts [offering "a=ice-lite\n"]).manager.iceAgent.role = .server := by
  decide +kernel
end ConnectionManager
end RustyRtc.Connection
