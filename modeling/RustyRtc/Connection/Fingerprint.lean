import RustyRtc.Connection.Negotiation

/-! # The peer's fingerprint

`connection_manager/connection_manager.rs`, `core/engine.rs` and `dtls/runtime.rs`: the fingerprint that a manager
has stored when a pair is nominated is what the handshake holds the peer's certificate against. It is followed
through every use of a manager.
-/
namespace RustyRtc.Connection
open Ice Sdp

def upperHex (b : UInt8) : Text := [(Nat.digitChar (b.toNat / 16)).toUpper,(Nat.digitChar (b.toNat % 16)).toUpper]
def fingerprintText (digest : Bytes) : Text := [':'].intercalate (digest.map upperHex)
def eqIgnoreAsciiCase (s t : Text) : Bool := s.map Char.toLower = t.map Char.toLower

/-- The certificate that the peer presents, if any, and its digest, if it can be computed. -/
abbrev PeerCert := Option (Option Bytes)

/-- The verify callback of `create_base_context`. -/
def verifyCallback (fp : Text) : PeerCert → Bool
  | none => false
  | some none => false
  | some (some digest) => eqIgnoreAsciiCase (fingerprintText digest) fp

/-- Whether a context made by `create_base_context` lets the handshake go on; without a fingerprint the mode is
`SslVerifyMode::NONE`. -/
def createBaseContext : Option Text → PeerCert → Bool
  | some fp => verifyCallback fp
  | none => fun _ => true
def sessionFingerprint (remote : Sdp) : Option Text := remote.attrs.findSome? ConnectionManager.fingerprintOf
def announced (remote : Sdp) : Option Text := (mediaFingerprint remote).or (sessionFingerprint remote)

namespace ConnectionManager
variable (v6 : Ipv6Text) (cm : ConnectionManager)
def heeded (fp : Option Text) (remote : Sdp) {α : Type} : Except ConnectionError α → Option Text
  | .ok _ => (mediaFingerprint remote).or fp
  | .error _ => fp

theorem applyParsed_remoteFingerprint (env : Surroundings) (cm : ConnectionManager) (remote : Sdp) :
    (cm.applyParsed v6 env remote).1.remoteFingerprint =
      heeded cm.remoteFingerprint remote (cm.applyParsed v6 env remote).2 := by
  have htook := took_applyParsed v6 env cm remote
  generalize cm.applyParsed v6 env remote = r at htook ⊢
  cases htook <;> rfl

theorem applyRemoteSdp_remoteFingerprint (env : Surroundings) (cm : ConnectionManager) {remote : Text} {sdp : Sdp}
    (hparse : Sdp.parse remote = .ok sdp) : (cm.applyRemoteSdp v6 env remote).1.remoteFingerprint =
      heeded cm.remoteFingerprint sdp (cm.applyRemoteSdp v6 env remote).2.1 := by
  have hparsed := applyParsed_remoteFingerprint v6 env cm sdp
  rw [applyRemoteSdp,hparse]
  dsimp only
  generalize cm.applyParsed v6 env sdp = r at hparsed
  obtain ⟨cm',_ | out⟩ := r
  · exact hparsed
  · obtain ⟨agent,phase,worker,hcm,-⟩ := maybeStartIce_spec env cm'
    dsimp only
    rw [hcm]
    exact hparsed

/-- A manager, and the descriptions it has applied since it was made or reset. -/
structure History where
  manager : ConnectionManager
  applied : List Sdp

inductive Use where
  | negotiate (env : Surroundings)
  | applyRemoteSdp (env : Surroundings) (remote : Text)
  | applyRemoteTrickleCandidate (candAttrLine : Text)
  | setLocalRtpCodecs (codecs : List CodecDescriptor)
  | drainIceEvents (sendOk : SocketAddr → SocketAddr → Bool) (packets : List (Bytes × SocketAddr))
  | stopIceWorker
  | reset (maxCandidatePairs : ℕ) (credentials : String × String)

def History.step (h : History) : Use → History
  | .negotiate env => { h with manager := (h.manager.negotiate v6 env).1 }
  | .applyRemoteSdp env remote =>
    let r := h.manager.applyRemoteSdp v6 env remote
    ⟨r.1,if r.2.1.isOk then h.applied ++ (Sdp.parse remote).toOption.toList else h.applied⟩
  | .applyRemoteTrickleCandidate candAttrLine =>
    { h with manager := (h.manager.applyRemoteTrickleCandidate v6 candAttrLine).1 }
  | .setLocalRtpCodecs codecs => { h with manager := h.manager.setLocalRtpCodecs codecs }
  | .drainIceEvents sendOk packets => { h with manager := (h.manager.drainIceEvents sendOk packets).1 }
  | .stopIceWorker => { h with manager := h.manager.stopIceWorker }
  | .reset maxCandidatePairs credentials => ⟨h.manager.reset maxCandidatePairs credentials,[]⟩

def history (maxCandidatePairs : ℕ) (credentials : String × String) (fingerprint : Option Text) (uses : List Use) :
    History :=
  uses.foldl (History.step v6) ⟨.new maxCandidatePairs credentials fingerprint,[]⟩
def lastMediaFingerprint (applied : List Sdp) : Option Text :=
  applied.foldl (fun fp remote => (mediaFingerprint remote).or fp) none
theorem lastMediaFingerprint_concat (applied : List Sdp) (remote : Sdp) :
    lastMediaFingerprint (applied ++ [remote]) = (mediaFingerprint remote).or (lastMediaFingerprint applied) :=
  List.foldl_concat ..
def History.Kept (h : History) : Prop := h.manager.remoteFingerprint = lastMediaFingerprint h.applied

theorem History.Kept.applyRemoteSdp {h : History} (hkept : h.Kept) (env : Surroundings) (remote : Text) :
    (h.step v6 (.applyRemoteSdp env remote)).Kept := by
  cases hparse : Sdp.parse remote with
  | error e =>
    have hfailed : h.manager.applyRemoteSdp v6 env remote = (h.manager, .error (.sdp e),[]) := by
      rw [ConnectionManager.applyRemoteSdp,hparse]
    simp only [Kept,History.step,hfailed]
    exact hkept
  | ok sdp =>
    have hfingerprint := applyRemoteSdp_remoteFingerprint v6 env h.manager hparse
    simp only [Kept,History.step,hparse]
    rw [hfingerprint,hkept]
    cases (h.manager.applyRemoteSdp v6 env remote).2.1 with
    | error e => rfl
    | ok out =>
      exact (lastMediaFingerprint_concat h.applied sdp).symm

theorem History.Kept.step {h : History} (hkept : h.Kept) (use : Use) : (h.step v6 use).Kept := by
  cases use with
  | negotiate env =>
    unfold Kept History.step ConnectionManager.negotiate
    cases h.manager.signaling <;> exact hkept
  | applyRemoteSdp env remote => exact hkept.applyRemoteSdp v6 env remote
  | applyRemoteTrickleCandidate candAttrLine =>
    change (h.manager.applyRemoteTrickleCandidate v6 candAttrLine).1.remoteFingerprint = _
    unfold ConnectionManager.applyRemoteTrickleCandidate
    cases IceAndSdp.fromStr v6 candAttrLine <;> exact hkept
  | setLocalRtpCodecs codecs => exact hkept
  | drainIceEvents sendOk packets =>
    obtain ⟨agent,phase,worker,hcm,-⟩ := drainIceEvents_spec sendOk packets h.manager
    simp only [Kept,History.step,hcm]
    exact hkept
  | stopIceWorker => exact hkept
  | reset maxCandidatePairs credentials => rfl

theorem history_kept (maxCandidatePairs : ℕ) (credentials : String × String) (fingerprint : Option Text)
    (uses : List Use) : (history v6 maxCandidatePairs credentials fingerprint uses).Kept := by
  have hrun : ∀ h : History, h.Kept → (uses.foldl (History.step v6) h).Kept := by
    induction uses with
    | nil => exact fun h hkept => hkept
    | cons use uses ih => exact fun h hkept => ih _ (hkept.step v6 use)
  exact hrun _ rfl

/-- The last description has its fingerprint in a media section, or the session announces the one that an earlier
media section had (none, if there was none). -/
def Heard (applied : List Sdp) : Prop :=
  match applied.getLast? with
  | none => True
  | some remote => (mediaFingerprint remote).isSome ∨ sessionFingerprint remote = lastMediaFingerprint applied.dropLast

/-- The handshake is given the fingerprint of the last description applied exactly if that description is heard. -/
theorem handed_fingerprint_announced_iff (maxCandidatePairs : ℕ) (credentials : String × String)
    (fingerprint : Option Text) (uses : List Use) :
    (history v6 maxCandidatePairs credentials fingerprint uses).manager.remoteFingerprint =
        (history v6 maxCandidatePairs credentials fingerprint uses).applied.getLast?.bind announced ↔
      Heard (history v6 maxCandidatePairs credentials fingerprint uses).applied := by
  have hkept := history_kept v6 maxCandidatePairs credentials fingerprint uses
  generalize history v6 maxCandidatePairs credentials fingerprint uses = h at hkept
  rw [hkept]
  rcases List.eq_nil_or_concat h.applied with hnil | ⟨earlier,remote,happlied⟩
  · simp [hnil,Heard,lastMediaFingerprint]
  · rw [List.concat_eq_append] at happlied
    rw [happlied, Heard, List.getLast?_concat, List.dropLast_concat, lastMediaFingerprint_concat,
      Option.bind_some, announced]
    dsimp only
    cases mediaFingerprint remote with
    | some hash => simp
    | none => simp [eq_comm]

def sessionLevel : Text :=
  "v=0\no=- 1 1 IN IP4 h\ns=x\na=fingerprint:sha-256 AB:CD\nm=audio 9 RTP 0\n".toList
def mediaLevel : Text :=
  "v=0\no=- 1 1 IN IP4 h\ns=x\nm=audio 9 RTP 0\na=fingerprint:sha-256 AB:CD\n".toList
def bare : Text := "v=0\no=- 1 1 IN IP4 h\ns=x\nm=audio 9 RTP 0\n".toList
def silent : Surroundings := ⟨[],[],3908988800,fun _ _ => true⟩
def afterTexts (texts : List Text) : History :=
  history noIpv6 100 ("ufrag","pwd") none (texts.map (.applyRemoteSdp silent))

/-- After the peer has announced a fingerprint for the session, any certificate passes; one that it has withdrawn is
still asked for. -/
theorem session_fingerprint_ignored :
    (afterTexts [sessionLevel]).applied.getLast?.bind announced = some "AB:CD".toList ∧
      (afterTexts [sessionLevel]).manager.remoteFingerprint = none ∧
      (∀ cert, createBaseContext (afterTexts [sessionLevel]).manager.remoteFingerprint cert = true) ∧
      (afterTexts [mediaLevel,bare]).applied.length = 2 ∧
      (afterTexts [mediaLevel,bare]).applied.getLast?.bind announced = none ∧
      (afterTexts [mediaLevel,bare]).manager.remoteFingerprint = some "AB:CD".toList := by
  obtain ⟨hsession,hnone⟩ : (afterTexts [sessionLevel]).applied.getLast?.bind announced = some "AB:CD".toList ∧
      (afterTexts [sessionLevel]).manager.remoteFingerprint = none := by decide +kernel
  exact ⟨hsession,hnone,fun cert => by rw [hnone]; rfl,by decide +kernel⟩
end ConnectionManager
end RustyRtc.Connection
