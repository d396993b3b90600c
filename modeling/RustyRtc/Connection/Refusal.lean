import RustyRtc.Connection.Fingerprint

/-! # Descriptions that are taken over or refused

A description that is refused leaves the candidates and the credentials that were read from it. What it does to the
description in place, the signaling state and the role is told by whether it is taken.
-/
namespace RustyRtc.Connection
open Ice Sdp

namespace ConnectionManager
variable (v6 : Ipv6Text) {cm : ConnectionManager} {sdp : Sdp} {e : ConnectionError} {env : Surroundings}
variable {out : OutboundSdp} {remote : Text}
def stance (cm : ConnectionManager) : Option Sdp × SignalingState × IceRole :=
  (cm.remoteDescription,cm.signaling,cm.iceAgent.role)
def told (cm : ConnectionManager) (sdp : Sdp) : Option Sdp × SignalingState × IceRole :=
  (some sdp, .stable,
    if cm.signaling = .stable then if iceLite sdp then .controlling else .controlled else cm.iceAgent.role)

instance (cm : ConnectionManager) : Decidable cm.Steady := inferInstanceAs (Decidable (_ ∨ _))

/-- The description that a text is taken over as: it is expected, and can be read to the end. -/
def taken (cm : ConnectionManager) (remote : Text) : Option Sdp :=
  match Sdp.parse remote with
  | .ok sdp => if cm.Steady ∧ extracts v6 sdp = true then some sdp else none
  | .error _ => none

def Known (agent : IceAgent) (m : IceMeta) : Prop :=
  (∀ ufrag ∈ m.ufrag, String.ofList ufrag = agent.remoteUfrag) ∧ ∀ pwd ∈ m.pwd, String.ofList pwd = agent.remotePwd

/-- Nothing was read before the error that the agent did not know: no candidate, and if all candidates could be read
no other credentials. -/
def Untold (cm : ConnectionManager) (remote : Text) : Prop :=
  ∀ sdp, Sdp.parse remote = .ok sdp → cm.Steady → readCandidates v6 sdp = [] ∧
    ((mediaAttributes sdp).all (readable v6) = true → Known cm.iceAgent (iceMeta sdp))
theorem getD_map_eq_self_iff (t : Option Text) (s : String) :
    (t.map String.ofList).getD s = s ↔ ∀ u ∈ t, String.ofList u = s := by
  cases t with
  | none => simp
  | some u => simp

theorem marked_eq_self_iff (agent : IceAgent) (sdp : Sdp) : marked v6 agent sdp = agent ↔ readCandidates v6 sdp = [] ∧
      ((mediaAttributes sdp).all (readable v6) = true → Known agent (iceMeta sdp)) := by
  unfold marked Known
  rw [← getD_map_eq_self_iff,← getD_map_eq_self_iff]
  cases agent with
  | mk =>
    dsimp only
    split_ifs with hread
    · simp [withCredentials,hread]
    · simp [hread]

/-- A refused description changes nothing but the peer's candidates and credentials, sends nothing, and leaves the
manager as it was exactly if nothing new was read before the error. -/
theorem refused_leaves_manager_iff {env : Surroundings} {cm : ConnectionManager} {remote : Text} {e : ConnectionError}
    (h : (cm.applyRemoteSdp v6 env remote).2.1 = .error e) :
    (∃ candidates ufrag pwd, (cm.applyRemoteSdp v6 env remote).1 = { cm with iceAgent := { cm.iceAgent with
        remoteCandidates := candidates, remoteUfrag := ufrag, remotePwd := pwd } }) ∧
      (cm.applyRemoteSdp v6 env remote).2.2 = [] ∧
      ((cm.applyRemoteSdp v6 env remote).1 = cm ↔ Untold v6 cm remote) := by
  obtain ⟨hsent,⟨hunread,hleft⟩ | ⟨sdp,hparse,hsteady,hleft⟩⟩ := applyRemoteSdp_of_error v6 h
  · exact ⟨⟨_,_,_,hleft⟩,hsent,fun _ sdp hparse hsteady => absurd hsteady (hunread sdp hparse),fun _ => hleft⟩
  · have hsame : (cm.applyRemoteSdp v6 env remote).1 = cm ↔ marked v6 cm.iceAgent sdp = cm.iceAgent := by
      rw [hleft]
      exact ⟨congrArg iceAgent,fun hagent => by rw [hagent]⟩
    refine ⟨?_,hsent,?_⟩
    · obtain ⟨ufrag,pwd,hagent⟩ := marked_spec v6 cm.iceAgent sdp
      exact ⟨_,ufrag,pwd,by rw [hleft, hagent]⟩
    · rw [hsame, marked_eq_self_iff]
      constructor
      · intro huntold sdp' hparse' _
        obtain rfl := Except.ok.inj (hparse.symm.trans hparse')
        exact huntold
      · exact fun huntold => huntold sdp hparse hsteady

def describing (lines : String) : Text :=
  ("v=0\no=- 1 1 IN IP4 h\ns=x\nm=audio 9 RTP/AVP 0\n" ++ lines).toList
def fresh : ConnectionManager := .new 100 ("ufrag","pwd") none

theorem refused_leaves_manager_iff_codec :
    (fresh.applyRemoteSdp noIpv6 silent (describing "a=rtpmap:x\n")).2.1 =
        .error (.rtpMap "Failed parsing rtpmap") ∧
      (fresh.applyRemoteSdp noIpv6 silent (describing "a=rtpmap:x\n")).1 = fresh := by
  have hfailed : (fresh.applyRemoteSdp noIpv6 silent (describing "a=rtpmap:x\n")).2.1 =
      .error (.rtpMap "Failed parsing rtpmap") := by decide +kernel
  refine ⟨hfailed,(refused_leaves_manager_iff noIpv6 hfailed).2.2.mpr fun sdp hparse _ => ?_⟩
  have hnothing : ∀ sdp ∈ (Sdp.parse (describing "a=rtpmap:x\n")).toOption,
      readCandidates noIpv6 sdp = [] ∧ iceMeta sdp = ⟨false,none,none⟩ := by decide +kernel
  obtain ⟨hcandidates,hmeta⟩ := hnothing sdp (by rw [hparse]; rfl)
  exact ⟨hcandidates,fun _ => by rw [hmeta]; exact ⟨nofun,nofun⟩⟩

/-- A candidate, and behind it another that cannot be read; then credentials, and behind them a codec that cannot. -/
theorem refused_description_leaves_marks :
    (fresh.applyRemoteSdp noIpv6 silent
        (describing "a=candidate:1 1 udp 100 10.0.0.2 5000 typ host\na=candidate:2\n")).2.1 = .error .iceAgent ∧
      (fresh.applyRemoteSdp noIpv6 silent (describing
        "a=candidate:1 1 udp 100 10.0.0.2 5000 typ host\na=candidate:2\n")).1.iceAgent.remoteCandidates.length = 1 ∧
      (fresh.applyRemoteSdp noIpv6 silent (describing "a=ice-ufrag:them\na=rtpmap:x\n")).2.1 =
        .error (.rtpMap "Failed parsing rtpmap") ∧
      (fresh.applyRemoteSdp noIpv6 silent
        (describing "a=ice-ufrag:them\na=rtpmap:x\n")).1.iceAgent.remoteUfrag = "them" := by
  decide +kernel
end ConnectionManager
end RustyRtc.Connection
