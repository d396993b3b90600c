import RustyRtc.Connection.Description

/-! # Taking over a description

`connection_manager/connection_manager.rs`: the codecs of a description are collected first and stored when all of
them could be read. The candidates are added to the agent one by one as they are read, and the credentials are
stored before the codecs are looked at; both stay when the call ends in an error. Whether a description is taken for
an offer or for an answer is decided by the signaling state alone.
-/
namespace RustyRtc.Connection
open Ice Sdp IceAndSdp

def mediaFingerprint (remote : Sdp) : Option Text :=
  remote.media.findSome? fun m => m.attrs.findSome? ConnectionManager.fingerprintOf

namespace ConnectionManager
variable {cm : ConnectionManager} {sdp : Sdp} {a : Attribute} {e : ConnectionError} {env : Surroundings}
variable {out : OutboundSdp} {remote : Text}
def Steady (cm : ConnectionManager) : Prop := cm.signaling = .stable ∨ cm.signaling = .haveLocalOffer
theorem session_remoteIsIceLite (m : IceMeta) (a : Attribute) :
    (m.session a).remoteIsIceLite = (m.remoteIsIceLite || saysIceLite a) := by
  unfold IceMeta.session
  by_cases h : a.key = "ice-lite".toList
  · have hflag : saysIceLite a = true := decide_eq_true h
    rw [if_pos h,hflag,Bool.or_true]
  · have hflag : saysIceLite a = false := decide_eq_false h
    rw [if_neg h,hflag,Bool.or_false]
    split
    · rfl
    · split <;> rfl

theorem foldl_session_remoteIsIceLite (attrs : List Attribute) (m : IceMeta) :
    (attrs.foldl IceMeta.session m).remoteIsIceLite = (m.remoteIsIceLite || attrs.any saysIceLite) := by
  induction attrs generalizing m with
  | nil => rw [List.foldl_nil,List.any_nil,Bool.or_false]
  | cons a attrs ih => rw [List.foldl_cons,ih,List.any_cons,session_remoteIsIceLite,Bool.or_assoc]

theorem findSome?_attributes (media : List Media) :
    (media.flatMap (·.attrs)).findSome? fingerprintOf = media.findSome? fun m => m.attrs.findSome? fingerprintOf := by
  induction media with
  | nil => rfl
  | cons m media ih =>
    rw [List.flatMap_cons,List.findSome?_append,ih,List.findSome?_cons]
    cases m.attrs.findSome? fingerprintOf <;> rfl

theorem extractAndStoreFingerprint_eq (cm : ConnectionManager) (remote : Sdp) : cm.extractAndStoreFingerprint remote =
      { cm with remoteFingerprint := (mediaFingerprint remote).or cm.remoteFingerprint } := by
  have hfound : (remote.media.flatMap (·.attrs)).findSome? fingerprintOf = mediaFingerprint remote :=
    findSome?_attributes remote.media
  unfold extractAndStoreFingerprint
  rw [hfound]
  cases mediaFingerprint remote with
  | none => rfl
  | some hash => rfl

variable (v6 : Ipv6Text)
def candidateOf (a : Attribute) : Option Candidate :=
  if a.key = "candidate".toList then a.value.bind fun v => (IceAndSdp.fromStr v6 v).toOption else none
def valueOf (key : Text) (a : Attribute) : Option Text := if a.key = key then a.value else none
theorem candidateOf_mk (v : Text) : candidateOf v6 ⟨"candidate".toList,some v⟩ = (fromStr v6 v).toOption :=
  if_pos rfl
theorem valueOf_self (key : Text) (value : Option Text) : valueOf key ⟨key,value⟩ = value := if_pos rfl
theorem media_candidate (m : IceMeta) (h : a.key = "candidate".toList) : m.media a = m := by
  rw [IceMeta.media,h,if_neg (by decide),if_neg (by decide),if_neg (by decide)]
def readable (a : Attribute) : Bool := a.key ≠ "candidate".toList || (candidateOf v6 a).isSome

theorem mediaIceMeta_takeWhile (as : List Attribute) (agent : IceAgent) (m : IceMeta) : mediaIceMeta v6 as agent m =
      ({ agent with remoteCandidates := agent.remoteCandidates ++
          (as.takeWhile (readable v6)).filterMap (candidateOf v6) },
        if as.all (readable v6) then .ok (as.foldl IceMeta.media m) else .error .iceAgent) := by
  induction as generalizing agent m with
  | nil =>
    rw [mediaIceMeta,List.takeWhile_nil,List.filterMap_nil,List.append_nil]
    rfl
  | cons a as ih =>
    by_cases hkey : a.key = "candidate".toList
    · have hcand : candidateOf v6 a = (a.value.map (fromStr v6)).bind Except.toOption := by
        rw [candidateOf,if_pos hkey,Option.bind_map]
        rfl
      have hread : readable v6 a = (candidateOf v6 a).isSome := by
        rw [readable, hkey, decide_eq_false (fun h => h rfl), Bool.false_or]
      rw [mediaIceMeta,if_pos hkey,List.all_cons,List.takeWhile_cons,hread,List.foldl_cons,
        media_candidate m hkey]
      cases hvalue : a.value.map (fromStr v6) with
      | none =>
        rw [hvalue] at hcand
        simp [hcand]
      | some parsed =>
        rw [hvalue] at hcand
        cases parsed with
        | error e => simp [hcand,Except.toOption]
        | ok c =>
          dsimp only
          rw [ih,IceAgent.addRemoteCandidate]
          simp [hcand,Except.toOption]
    · have hcand : candidateOf v6 a = none := if_neg hkey
      have hread : readable v6 a = true := by rw [readable,decide_eq_true hkey,Bool.true_or]
      rw [mediaIceMeta,if_neg hkey,ih,List.all_cons,List.takeWhile_cons,hread,List.foldl_cons,if_pos rfl,
        List.filterMap_cons_none hcand,Bool.true_and]

theorem media_eq (m : IceMeta) (a : Attribute) :
    m.media a = ⟨m.remoteIsIceLite || saysIceLite a,m.ufrag.or (valueOf "ice-ufrag".toList a),
      m.pwd.or (valueOf "ice-pwd".toList a)⟩ := by
  have hne : "ice-ufrag".toList ≠ "ice-pwd".toList ∧ "ice-ufrag".toList ≠ "ice-lite".toList ∧
      "ice-pwd".toList ≠ "ice-lite".toList := by decide
  unfold IceMeta.media valueOf saysIceLite
  generalize "ice-ufrag".toList = ufrag, "ice-pwd".toList = pwd, "ice-lite".toList = lite at hne
  obtain ⟨hpwd,hlite,hlite'⟩ := hne
  split
  · next h => simp [h,hpwd,hlite]
  · split
    · next h => simp [h,hlite']
    · split
      · next h => simp [h]
      · next h => simp [h]

/-- The first value of a key counts, after what is known already. -/
theorem foldl_media (as : List Attribute) (m : IceMeta) :
    as.foldl IceMeta.media m = ⟨m.remoteIsIceLite || as.any saysIceLite,
      m.ufrag.or (as.findSome? (valueOf "ice-ufrag".toList)),m.pwd.or (as.findSome? (valueOf "ice-pwd".toList))⟩ := by
  induction as generalizing m with
  | nil => rw [List.any_nil,Bool.or_false,List.findSome?_nil,List.findSome?_nil,Option.or_none,Option.or_none]; rfl
  | cons a as ih =>
    rw [List.foldl_cons,ih,media_eq,List.any_cons,findSome?_cons_or,findSome?_cons_or,Bool.or_assoc,
      Option.or_assoc,Option.or_assoc]

def mediaAttributes (sdp : Sdp) : List Attribute := sdp.media.flatMap (·.attrs)
def readCandidates (sdp : Sdp) : List Candidate :=
  ((mediaAttributes sdp).takeWhile (readable v6)).filterMap (candidateOf v6)
def iceMeta (sdp : Sdp) : IceMeta :=
  (mediaAttributes sdp).foldl IceMeta.media (sdp.attrs.foldl IceMeta.session ⟨false,none,none⟩)
def withCredentials (agent : IceAgent) (m : IceMeta) : IceAgent :=
  { agent with
    remoteUfrag := (m.ufrag.map String.ofList).getD agent.remoteUfrag
    remotePwd := (m.pwd.map String.ofList).getD agent.remotePwd }
def marked (agent : IceAgent) (sdp : Sdp) : IceAgent :=
  let agent := { agent with remoteCandidates := agent.remoteCandidates ++ readCandidates v6 sdp }
  if (mediaAttributes sdp).all (readable v6) then withCredentials agent (iceMeta sdp) else agent
theorem marked_spec (agent : IceAgent) (sdp : Sdp) : ∃ ufrag pwd, marked v6 agent sdp = { agent with
    remoteCandidates := agent.remoteCandidates ++ readCandidates v6 sdp, remoteUfrag := ufrag, remotePwd := pwd } := by
  unfold marked
  dsimp only
  split_ifs
  · exact ⟨_,_,rfl⟩
  · exact ⟨_,_,rfl⟩
theorem marked_role (agent : IceAgent) (sdp : Sdp) : (marked v6 agent sdp).role = agent.role := by
  obtain ⟨ufrag,pwd,h⟩ := marked_spec v6 agent sdp
  rw [h]

theorem extractAndStoreRemoteIceMeta_eq (cm : ConnectionManager) (sdp : Sdp) :
    cm.extractAndStoreRemoteIceMeta v6 sdp = ({ cm with iceAgent := marked v6 cm.iceAgent sdp },
      if (mediaAttributes sdp).all (readable v6) then .ok (iceMeta sdp) else .error .iceAgent) := by
  unfold extractAndStoreRemoteIceMeta marked
  rw [mediaIceMeta_takeWhile]
  by_cases h : (mediaAttributes sdp).all (readable v6) = true
  · rw [if_pos h,if_pos h]
    unfold mediaAttributes at h
    simp only [h,if_true]
    rfl
  · rw [if_neg h,if_neg h]
    unfold mediaAttributes at h
    simp only [h]
    rfl

/-- All candidates and all codecs of the description can be read. -/
def extracts (sdp : Sdp) : Bool := (mediaAttributes sdp).all (readable v6) && (sdp.media.mapM mediaCodecs).isOk

/-- The manager once a description has been read to the end. -/
def taking (sdp : Sdp) (codecs : List RtpCodec) (cm : ConnectionManager) : ConnectionManager :=
  { cm with
    iceAgent := marked v6 cm.iceAgent sdp
    remoteCodecs := codecs
    remoteFingerprint := (mediaFingerprint sdp).or cm.remoteFingerprint
    remoteDescription := some sdp }
def receiving (sdp : Sdp) (codecs : List RtpCodec) (cm : ConnectionManager) : ConnectionManager :=
  { cm.taking v6 sdp codecs with signaling := .haveRemoteOffer }
def answering (env : Surroundings) (sdp : Sdp) (codecs : List RtpCodec) (cm : ConnectionManager) : ConnectionManager :=
  { cm.taking v6 sdp codecs with
    iceAgent := { marked v6 cm.iceAgent sdp with
      localCandidates := (marked v6 cm.iceAgent sdp).localCandidates ++ env.hostCandidates
      role := if iceLite sdp then .controlling else .controlled }
    signaling := .stable
    localDescription := some ((cm.receiving v6 sdp codecs).buildLocalSdp v6 env).2 }

/-- The candidates are kept before the codecs are looked at, so an error leaves them behind. -/
theorem extract_cases (cm : ConnectionManager) (sdp : Sdp) : (extracts v6 sdp = false ∧
      ∃ e, cm.extract v6 sdp = ({ cm with iceAgent := marked v6 cm.iceAgent sdp }, .error e)) ∨
    extracts v6 sdp = true ∧ ∃ codecs, cm.extract v6 sdp = (cm.taking v6 sdp codecs, .ok (iceLite sdp)) := by
  unfold extract extracts
  rw [extractAndStoreRemoteIceMeta_eq]
  split_ifs with hread
  · unfold extractAndStoreRtpMeta
    rw [hread]
    cases hcodecs : sdp.media.mapM mediaCodecs with
    | error e => exact .inl ⟨rfl,_,rfl⟩
    | ok discovered =>
      dsimp only
      rw [extractAndStoreFingerprint_eq,iceMeta,foldl_media,foldl_session_remoteIsIceLite,Bool.false_or,iceLite,
        Sdp.attributes,List.any_append]
      exact .inr ⟨rfl,_,rfl⟩
  · exact .inl ⟨by simp [hread],_,rfl⟩

theorem applyOffer_eq (env : Surroundings) {codecs : List RtpCodec}
    (h : cm.extract v6 sdp = (cm.taking v6 sdp codecs, .ok (iceLite sdp))) : cm.applyOffer v6 env sdp =
      (cm.answering v6 env sdp codecs, .ok (.answer ((cm.receiving v6 sdp codecs).buildLocalSdp v6 env).2)) := by
  have hgathered := gathered_eq v6 env (cm.receiving v6 sdp codecs)
  change (buildLocalSdp v6 env { cm.taking v6 sdp codecs with signaling := .haveRemoteOffer }).1 = _ at hgathered
  unfold applyOffer answering
  rw [h]
  dsimp only [setIceRoleFromSignaling]
  rw [hgathered]
  cases iceLite sdp <;> rfl

/-- What becomes of a manager that is given a description, and what it returns. -/
inductive Took (env : Surroundings) (cm : ConnectionManager) (sdp : Sdp) :
    ConnectionManager × Except ConnectionError OutboundSdp → Prop
  | unexpected (e : ConnectionError) : ¬ cm.Steady → Took env cm sdp (cm, .error e)
  | unread (e : ConnectionError) : cm.Steady → extracts v6 sdp = false →
      Took env cm sdp ({ cm with iceAgent := marked v6 cm.iceAgent sdp }, .error e)
  | answered (codecs : List RtpCodec) : cm.signaling = .stable → extracts v6 sdp = true →
      Took env cm sdp (cm.answering v6 env sdp codecs, .ok (.answer ((cm.receiving v6 sdp codecs).buildLocalSdp v6 env).2))
  | accepted (codecs : List RtpCodec) : cm.signaling = .haveLocalOffer → extracts v6 sdp = true →
      Took env cm sdp ({ cm.taking v6 sdp codecs with signaling := .stable }, .ok .none)

theorem took_applyParsed (env : Surroundings) (cm : ConnectionManager) (sdp : Sdp) :
    Took v6 env cm sdp (cm.applyParsed v6 env sdp) := by
  have hextract := extract_cases v6 cm sdp
  unfold applyParsed
  split
  · next hs =>
    rcases hextract with ⟨hno,e,hextract⟩ | ⟨hread,codecs,hextract⟩
    · rw [applyOffer,hextract]
      exact .unread e (.inl hs) hno
    · rw [applyOffer_eq v6 env hextract]
      exact .answered codecs hs hread
  · next hs =>
    change Took v6 env cm sdp (cm.applyAnswer v6 sdp)
    rcases hextract with ⟨hno,e,hextract⟩ | ⟨hread,codecs,hextract⟩
    · rw [applyAnswer,hextract]
      exact .unread e (.inr hs) hno
    · rw [applyAnswer,hextract]
      exact .accepted codecs hs hread
  · next hs => exact .unexpected _ (by rw [Steady,hs]; decide)
  · next hs => exact .unexpected _ (by rw [Steady,hs]; decide)

/-- Where the text cannot be read, or no description is expected, it is not looked into. -/
theorem applyRemoteSdp_of_error (h : (cm.applyRemoteSdp v6 env remote).2.1 = .error e) :
    (cm.applyRemoteSdp v6 env remote).2.2 = [] ∧
      ((∀ sdp, Sdp.parse remote = .ok sdp → ¬ cm.Steady) ∧ (cm.applyRemoteSdp v6 env remote).1 = cm ∨
        ∃ sdp, Sdp.parse remote = .ok sdp ∧ cm.Steady ∧
          (cm.applyRemoteSdp v6 env remote).1 = { cm with iceAgent := marked v6 cm.iceAgent sdp }) := by
  unfold applyRemoteSdp at h ⊢
  cases hparse : Sdp.parse remote with
  | error e' => exact ⟨rfl, .inl ⟨fun _ hsdp => (by cases hsdp),rfl⟩⟩
  | ok sdp =>
    rw [hparse] at h
    have htook := took_applyParsed v6 env cm sdp
    dsimp only at h ⊢
    generalize cm.applyParsed v6 env sdp = r at h htook ⊢
    cases htook with
    | unexpected e hsteady => exact ⟨rfl, .inl ⟨fun _ _ => hsteady,rfl⟩⟩
    | unread e hsteady _ => exact ⟨rfl, .inr ⟨sdp,rfl,hsteady,rfl⟩⟩
    | answered | accepted => cases h

theorem applyRemoteSdp_of_ok (h : (cm.applyRemoteSdp v6 env remote).2.1 = .ok out) :
    ∃ sdp, Sdp.parse remote = .ok sdp ∧ (cm.applyParsed v6 env sdp).2 = .ok out ∧
      (cm.applyRemoteSdp v6 env remote).1 = ((cm.applyParsed v6 env sdp).1.maybeStartIce env).1 := by
  cases hparse : Sdp.parse remote with
  | error e =>
    rw [applyRemoteSdp,hparse] at h
    cases h
  | ok sdp =>
    rw [applyRemoteSdp,hparse] at h ⊢
    dsimp only at h ⊢
    rcases happly : cm.applyParsed v6 env sdp with ⟨cm',e | out'⟩
    · rw [happly] at h
      cases h
    · rw [happly] at h
      cases h
      refine ⟨sdp,rfl,?_,?_⟩ <;> rw [happly]
end ConnectionManager
end RustyRtc.Connection
