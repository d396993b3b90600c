import RustyRtc.Foundation.ComingAndGoing
import RustyRtc.Signaling.PresenceRuns
import RustyRtc.Signaling.Registry

/-! # Who has joined and who has left

The members of a session are told who joins and who leaves. A member that keeps a set by these notices should find
in it the others who have joined since and are still there.
-/
namespace RustyRtc.Signaling
open Sessions Presence
namespace ServerEngine
variable {β ρ : Type} {s : ServerEngine β} {id id' : SessionId} {client c d : ClientId} {u : UserName}
variable {h : List (Exchange ρ)} {targets : List ClientId} {username : UserName} {session : Session}
variable {orders : Sessions.Orders} {code : SessionCode} {sessions : Sessions}

def isMember (s : ServerEngine β) (id : SessionId) (client : ClientId) : Bool :=
  (s.sessions.get id).any fun session => decide (client ∈ session.members)
theorem isMember_iff : s.isMember id client = true ↔
    ∃ session, s.sessions.bySessId.lookup id = some session ∧ client ∈ session.members := by
  rw [isMember,Sessions.get,Option.any_eq_true]
  simp only [decide_eq_true_eq]
def other (s : ServerEngine β) (id : SessionId) (c : ClientId) (u : UserName) : Option ClientId :=
  (s.presence.clientIdFor u).filter fun d => decide (d ≠ c) && s.isMember id d
theorem other_eq_some :
    s.other id c u = some d ↔ s.presence.clientIdFor u = some d ∧ d ≠ c ∧ s.isMember id d = true := by
  simp [other,Option.filter_eq_some_iff]
theorem other_congr {s' : ServerEngine β} (c : ClientId) (u : UserName)
    (husers : s'.presence.userToClient = s.presence.userToClient)
    (hmembers : ∀ d, s'.isMember id d = s.isMember id d) : s'.other id c u = s.other id c u := by
  rw [other,other,clientIdFor,clientIdFor,husers]
  simp only [hmembers]

/-- What a message tells a client about a user in a session: that they have joined, or that they have left. -/
def noticeFor (c : ClientId) (id : SessionId) (u : UserName) (o : OutgoingMsg) : Option Bool :=
  match o.msg with
  | .peerJoined id' u' => if o.clientIdTarget = c ∧ id' = id ∧ u' = u then some true else none
  | .peerLeft id' u' => if o.clientIdTarget = c ∧ id' = id ∧ u' = u then some false else none
  | _ => none
def notices (c : ClientId) (id : SessionId) (u : UserName) (h : List (Exchange ρ)) : List Bool :=
  h.flatMap fun x => x.2.filterMap (noticeFor c id u)

/-- The set a client keeps by the notices of a session. -/
def applyNotice (c : ClientId) (id : SessionId) (others : TableSet UserName) (o : OutgoingMsg) : TableSet UserName :=
  match o.msg with
  | .peerJoined id' u => if o.clientIdTarget = c ∧ id' = id then others.insert u () else others
  | .peerLeft id' u => if o.clientIdTarget = c ∧ id' = id then others.erase u else others
  | _ => others
def applyNotices (c : ClientId) (id : SessionId) (h : List (Exchange ρ)) : TableSet UserName :=
  (h.flatMap Prod.snd).foldl (applyNotice c id) ∅

theorem mem_applyNotice {others : TableSet UserName} {o : OutgoingMsg} :
    u ∈ applyNotice c id others o ↔ (noticeFor c id u o).elim (u ∈ others) (· = true) := by
  unfold applyNotice noticeFor
  cases o.msg with
  | peerJoined id' u' | peerLeft id' u' =>
    by_cases hto : o.clientIdTarget = c ∧ id' = id
    · by_cases hu : u = u' <;> simp [hto,hu,eq_comm]
    · simp [hto,← and_assoc]
  | _ => rfl

theorem mem_applyNotices : u ∈ applyNotices c id h ↔ (notices c id u h).getLast? = some true := by
  have hnotices : notices c id u h = (h.flatMap Prod.snd).filterMap (noticeFor c id u) := by
    rw [List.filterMap_flatMap]
    rfl
  rw [hnotices,applyNotices]
  generalize h.flatMap Prod.snd = out
  induction out using List.reverseRecOn with
  | nil => simp
  | append_singleton out o ih =>
    rw [List.foldl_append,List.foldl_cons,List.foldl_nil,mem_applyNotice,List.filterMap_append]
    cases ho : noticeFor c id u o with
    | none => simpa [ho] using ih
    | some b => simp [ho]

/-- A message to each of several clients is a notice for at most one of them. -/
theorem notices_toEach (hl : targets.Nodup)
    (msg : SignalingMsg) : (targets.map (⟨·,msg⟩ : ClientId → OutgoingMsg)).filterMap (noticeFor c id u) =
      if c ∈ targets then (noticeFor c id u ⟨c,msg⟩).toList else [] := by
  have hflat : (targets.map (⟨·,msg⟩ : ClientId → OutgoingMsg)).filterMap (noticeFor c id u) =
      targets.flatMap fun target => (noticeFor c id u ⟨target,msg⟩).toList := by
    rw [List.filterMap_map,List.filterMap_eq_flatMap_toList]
    rfl
  rw [hflat]
  refine flatMap_eq_of_only hl fun target _ hne => ?_
  cases msg <;> simp [noticeFor,hne]

theorem notices_broadcast (c : ClientId) (id : SessionId) (u : UserName) (choices : Choices ρ) (s : ServerEngine β) :
    (s.broadcastPeerListUpdate choices).filterMap (noticeFor c id u) = [] := by
  refine List.filterMap_eq_nil_iff.mpr fun o ho => ?_
  obtain ⟨me,-,hmsg⟩ := mem_broadcast ho
  rw [noticeFor,hmsg]
theorem notices_forwarded (c : ClientId) (id : SessionId) (u : UserName) (s : ServerEngine β) (client : ClientId)
    (msg : SignalingMsg) (choices : Choices ρ) :
    (s.forwarded (.message client msg choices)).filterMap (noticeFor c id u) = [] := by
  refine List.filterMap_eq_nil_iff.mpr fun o ho => ?_
  obtain ⟨hcall,username,target,-,-,rfl⟩ := mem_forwarded.mp ho
  cases msg <;> first | rfl | cases hcall

/-- No client joins a session it is in or logs in a second time, and no session gets an id that is in use. -/
def isOrderly (backend : AuthBackend β ρ) (s : ServerEngine β) : Event ρ → Bool
  | .message client (.login username password) _ => decide (backend.verify s.auth username password = .ok () →
      s.presence.clientIdFor username = none → s.presence.usernameFor client = none)
  | .message client (.join code) _ =>
    decide (∀ id ∈ s.sessions.bySessCode.lookup code, s.isMember id client = false)
  | .message _ (.createSession _) _ => decide (sessionIdOf s.nextSessionId ∉ s.sessions.bySessId)
  | _ => true

/-- The engine up to the first event that is not orderly. -/
def orderly (backend : AuthBackend β ρ) (s : ServerEngine β) (e : Event ρ) :
    Option (ServerEngine β × List OutgoingMsg) :=
  if s.isOrderly backend e then s.step backend e else none
structure Sound (s : ServerEngine β) : Prop where
  agrees : s.presence.Agrees
  staffed : s.Staffed

variable {backend : AuthBackend β ρ} {auth : β} {s s' : ServerEngine β} {e : Event ρ} {out : List OutgoingMsg}
theorem Sound.step (hs : s.Sound) (he : s.isOrderly backend e = true) (hstep : s.step backend e = some (s',out)) :
    s'.Sound := by
  refine ⟨?_,hs.staffed.step (registered (step_cases hstep))⟩
  rcases presence_cases (step_cases hstep) with
    ⟨client,username,password,choices,rfl,-,hverify,honline,hpresence⟩ | ⟨client,choices,rfl,hpresence⟩ |
    ⟨client,msg,choices,busyUsers,rfl,-,hpresence⟩
  · rw [hpresence,agrees_login_iff hs.agrees honline]
    exact of_decide_eq_true he hverify honline
  · rw [hpresence]
    exact hs.agrees.logout client
  · rw [hpresence]
    exact hs.agrees

theorem sound (hs : Reaches (orderly backend) (new auth) h s) : s.Sound := by
  induction hs with
  | init => exact ⟨Presence.Agrees.new,@staffed _ _ _ backend _ _ .init⟩
  | snoc _ hstep ih =>
    obtain ⟨he,hstep⟩ := Option.ite_none_right_eq_some.mp hstep
    exact ih.step he hstep

variable {id : SessionId} {c : ClientId}
theorem isMember_congr (hsessions : s'.sessions = s.sessions) (d : ClientId) : s'.isMember id d = s.isMember id d := by
  rw [isMember,isMember,hsessions]
theorem Sound.not_member (hs : s.Sound) (hd : s.presence.usernameFor d = none) : s.isMember id d = false := by
  refine Bool.eq_false_iff.mpr fun hmem => ?_
  obtain ⟨session,hsession,hmem⟩ := isMember_iff.mp hmem
  have hlogged := hs.staffed.loggedIn id session hsession d hmem
  simp [hd] at hlogged

theorem Sound.other_login (hs : s.Sound)
    (honline : s.presence.clientIdFor username = none) (hclient : s.presence.usernameFor client = none) (u : UserName) :
    ({ s with presence := (s.presence.login client username).1 } : ServerEngine β).other id c u = s.other id c u := by
  have hmembers : ∀ d, ({ s with presence := (s.presence.login client username).1 } : ServerEngine β).isMember id d =
      s.isMember id d := isMember_congr rfl
  refine Option.ext fun d => ?_
  rw [other_eq_some,other_eq_some,hmembers,clientIdFor_login]
  by_cases hu : u = username
  · -- the client is in no session yet
    subst hu
    rw [if_pos rfl,honline]
    refine iff_of_false ?_ (by simp)
    rintro ⟨hd,-,hmem⟩
    cases hd
    simp [hs.not_member hclient] at hmem
  · rw [if_neg hu]

theorem isMember_insert_ne (hsessions : s'.sessions = s.sessions.insert session)
    (hid : id ≠ session.sessionId) (d : ClientId) : s'.isMember id d = s.isMember id d := by
  rw [isMember,isMember,hsessions,Sessions.get,Sessions.get,Sessions.insert,AList.lookup_insert_ne hid]

theorem isMember_joined (hsession : s.sessions.bySessId.lookup id' = some session)
    (hsessions : s'.sessions.bySessId = s.sessions.bySessId.insert id' (session.joinedBy client)) :
    s'.isMember id d = true ↔ (id = id' ∧ d = client) ∨ s.isMember id d = true := by
  simp only [isMember_iff,hsessions,Table.lookup_insert_eq_some]
  by_cases hid : id = id'
  · subst hid
    simp [hsession,Session.joinedBy]
  · simp [hid]

theorem isMember_leaveAll (hsessions : s'.sessions = (s.sessions.leaveAll orders client).1) :
    s'.isMember id d = true ↔ d ≠ client ∧ s.isMember id d = true := by
  simp only [isMember_iff,hsessions,lookup_leaveAll]
  constructor
  · rintro ⟨session,⟨⟨before,hbefore,rfl⟩,-⟩,hmem⟩
    obtain ⟨hne,hmem⟩ := AList.mem_erase.mp hmem
    exact ⟨hne,before,hbefore,hmem⟩
  · rintro ⟨hne,before,hbefore,hmem⟩
    have hstays : d ∈ (without client before).members := AList.mem_erase.mpr ⟨hne,hmem⟩
    exact ⟨_,⟨⟨before,hbefore,rfl⟩,List.ne_nil_of_mem hstays⟩,hstays⟩

theorem Sound.notified_joined (hs : s.Sound) (hc : s.isMember id c = true)
    (hlogin : s.presence.usernameFor client = some username)
    (hsession : s.sessions.bySessId.lookup id' = some session) (hnew : s.isMember id' client = false)
    (hpresence : s'.presence = s.presence)
    (hsessions : s'.sessions.bySessId = s.sessions.bySessId.insert id' (session.joinedBy client))
    (hnodup : targets.Nodup) (htargets : ∀ d, d ∈ targets ↔ d ≠ client ∧ s'.isMember id' d = true)
    (u : UserName) : Notified (s.other id c u) (s'.other id c u)
      ((targets.map (⟨·, .peerJoined id' username⟩ : ClientId → OutgoingMsg)).filterMap (noticeFor c id u)) := by
  have hmembers : ∀ d, s'.isMember id d = true ↔ (id = id' ∧ d = client) ∨ s.isMember id d = true :=
    fun d => isMember_joined hsession hsessions
  have honline : s.presence.clientIdFor username = some client := (hs.agrees username client).mpr hlogin
  rw [notices_toEach hnodup]
  by_cases hhere : id = id' ∧ username = u
  · obtain ⟨rfl,rfl⟩ := hhere
    have hne : c ≠ client := by
      rintro rfl
      simp [hnew] at hc
    have htold : c ∈ targets := (htargets c).mpr ⟨hne,(hmembers c).mpr (.inr hc)⟩
    have hnone : s.other id c username = none := by
      refine Option.eq_none_iff_forall_ne_some.mpr fun d hd => ?_
      obtain ⟨hd,-,hmem⟩ := other_eq_some.mp hd
      obtain rfl := Option.some.inj (honline.symm.trans hd)
      simp [hnew] at hmem
    have hsome : s'.other id c username = some client :=
      other_eq_some.mpr ⟨hpresence ▸ honline,hne.symm,(hmembers client).mpr (.inl ⟨rfl,rfl⟩)⟩
    rw [if_pos htold]
    simpa [noticeFor] using Notified.appears hnone hsome
  · have hsilent : noticeFor c id u ⟨c, .peerJoined id' username⟩ = none := by
      simp only [noticeFor,true_and]
      exact if_neg fun h => hhere ⟨h.1.symm,h.2⟩
    have hsame : s'.other id c u = s.other id c u := by
      refine Option.ext fun d => ?_
      rw [other_eq_some,other_eq_some,hmembers,hpresence]
      refine and_congr_right fun hd => and_congr_right fun _ => or_iff_right ?_
      rintro ⟨hid,rfl⟩
      exact hhere ⟨hid,Option.some.inj (hlogin.symm.trans ((hs.agrees u d).mp hd))⟩
    rw [hsilent,Option.toList_none,ite_self]
    exact .same hsame

theorem notices_left (orders : Sessions.Orders) (username u : UserName) :
    (((s.sessions.leaveAll orders client).2.flatMap fun l =>
        l.2.map (⟨·, .peerLeft l.1 username⟩ : ClientId → OutgoingMsg))).filterMap (noticeFor c id u) =
      if s.isMember id client ∧ s.isMember id c ∧ c ≠ client ∧ username = u then [false] else [] := by
  rw [leaveAll_left,List.filterMap_flatMap,List.flatMap_assoc]
  rw [flatMap_eq_of_only (a := id) (nodup_sessionsOf orders client s.sessions)]
  · cases hlookup : s.sessions.bySessId.lookup id with
    | none => simp [isMember,Sessions.get,hlookup]
    | some session =>
      have hmembers : ∀ d, s.isMember id d = decide (d ∈ session.members) := fun d => by
        simp [isMember,Sessions.get,hlookup]
      have hnodup : (orders.members.order (session.members.erase client).keys).Nodup :=
        (orders.members.perm _).nodup_iff.mpr (AList.keys_nodup _)
      have hremains : c ∈ orders.members.order (session.members.erase client).keys ↔
          c ≠ client ∧ c ∈ session.members := by
        rw [(orders.members.perm _).mem_iff,← AList.mem_keys,AList.mem_erase]
      have hleaves : id ∈ sessionsOf orders client s.sessions ↔ client ∈ session.members := by
        simp [mem_sessionsOf,hlookup]
      simp only [Option.toList_some,List.map_cons,List.map_nil,List.flatMap_cons,List.flatMap_nil,
        List.append_nil,notices_toEach hnodup,hremains,hleaves,hmembers,noticeFor]
      by_cases hclient : client ∈ session.members
      · by_cases hu : username = u
        · simp [hclient,hu,and_comm]
        · simp [hu]
      · simp [hclient]
  · intro id' _ hne
    cases s.sessions.bySessId.lookup id' with
    | none => rfl
    | some session => simp [noticeFor,hne]

theorem Sound.notified_left (hs : s.Sound) (hne : c ≠ client) (hpresence : s'.presence = (s.presence.logout client).1)
    (hsessions : s'.sessions = (s.sessions.leaveAll orders client).1) (u : UserName) :
    Notified (s.other id c u) (s'.other id c u)
      (if s.isMember id client ∧ s.presence.usernameFor client = some u then [false] else []) := by
  have hother : ∀ d, s'.other id c u = some d ↔ s.presence.usernameFor client ≠ some u ∧ s.other id c u = some d := by
    intro d
    rw [other_eq_some,other_eq_some,isMember_leaveAll hsessions,hpresence,clientIdFor_logout]
    split
    · next hu => simp [hu]
    · next hu =>
      have hd : s.presence.clientIdFor u = some d → d ≠ client := by
        rintro hd rfl
        exact hu ((hs.agrees u d).mp hd)
      constructor
      · rintro ⟨honline,hne,-,hmem⟩
        exact ⟨hu,honline,hne,hmem⟩
      · rintro ⟨-,honline,hne,hmem⟩
        exact ⟨honline,hne,hd honline,hmem⟩
  by_cases hu : s.presence.usernameFor client = some u
  · have hgone : s'.other id c u = none :=
      Option.eq_none_iff_forall_ne_some.mpr fun d hd => ((hother d).mp hd).1 hu
    have honline : s.presence.clientIdFor u = some client := (hs.agrees u client).mpr hu
    by_cases hmem : s.isMember id client = true
    · rw [if_pos ⟨hmem,hu⟩]
      exact .goes (other_eq_some.mpr ⟨honline,hne.symm,hmem⟩) hgone
    · rw [if_neg fun h => hmem h.1]
      refine .same (hgone.trans (Option.eq_none_iff_forall_ne_some.mpr fun d hd => ?_).symm)
      obtain ⟨hd,-,hd'⟩ := other_eq_some.mp hd
      obtain rfl := Option.some.inj (honline.symm.trans hd)
      exact hmem hd'
  · rw [if_neg fun h => hu h.2]
    exact .same (Option.ext fun d => (hother d).trans (and_iff_right hu))

/-- One event: a member that does not leave stays, and is told how the others change. -/
theorem Sound.notified (hs : s.Sound) (hc : s.isMember id c = true) (he : s.isOrderly backend e = true)
    (hstay : ∀ choices, e ≠ .disconnect c choices) (hstep : s.step backend e = some (s',out)) (u : UserName) :
    s'.isMember id c = true ∧ Notified (s.other id c u) (s'.other id c u) (out.filterMap (noticeFor c id u)) := by
  cases step_cases hstep with
  | ignored | pong | loginRefused => exact ⟨hc, .same rfl⟩
  | @register client username password choices auth res =>
    refine ⟨hc,?_⟩
    cases res <;> exact .same rfl
  | listPeers | sessionRefused => exact ⟨hc, .same rfl⟩
  | @login client username password choices s' hverify honline hnext =>
    subst hnext
    refine ⟨hc,?_⟩
    rw [List.filterMap_cons_none rfl,notices_broadcast]
    exact .same (hs.other_login honline (of_decide_eq_true he hverify honline) u)
  | @created client capacity choices username next code session hlogin halloc hsession =>
    obtain ⟨before,hbefore,-⟩ := isMember_iff.mp hc
    have hid : id ≠ session.sessionId := by
      rintro rfl
      rw [hsession] at hbefore
      exact of_decide_eq_true he (Table.mem_iff.mpr ⟨before,hbefore⟩)
    have hmembers : ∀ d, ({ s with nextSessionId := next, sessions := s.sessions.insert session } :
        ServerEngine β).isMember id d = s.isMember id d := isMember_insert_ne rfl hid
    exact ⟨(hmembers c).trans hc, .same (other_congr c u rfl hmembers)⟩
  | @joined client code choices username id' session s' hlogin hcode hsession _ hnext =>
    refine ⟨(isMember_joined hsession (by rw [hnext])).mpr (.inr hc),?_⟩
    rw [List.filterMap_cons_none rfl]
    have hperm := choices.sessions.members.perm (session.joinedBy client).members.keys
    refine hs.notified_joined hc hlogin hsession (of_decide_eq_true he id' hcode) (by rw [hnext]) (by rw [hnext])
      ((hperm.nodup_iff.mpr (AList.keys_nodup _)).filter _) (fun d => ?_) u
    rw [List.mem_filter,hperm.mem_iff,← AList.mem_keys]
    simp [isMember,Sessions.get,hnext,and_comm]
  | @forwarded client msg choices busyUsers s' rest hcall hnext hrest =>
    have hsilent : rest.filterMap (noticeFor c id u) = [] := by
      rcases hrest with ⟨rfl,-⟩ | ⟨rfl,-⟩
      · rfl
      · exact notices_broadcast ..
    subst hnext
    rw [List.filterMap_append,notices_forwarded,hsilent]
    exact ⟨hc, .same rfl⟩
  | @disconnected client choices s' hnext =>
    have hne : c ≠ client := fun h => hstay choices (by rw [h])
    have hsessions : s'.sessions = (s.sessions.leaveAll choices.sessions client).1 := by rw [hnext]
    refine ⟨(isMember_leaveAll hsessions).mpr ⟨hne,hc⟩,?_⟩
    convert hs.notified_left hne (by rw [hnext]) hsessions u
    cases husername : s.presence.usernameFor client with
    | none => simp
    | some username =>
      rw [Option.elim_some,List.filterMap_append,notices_broadcast,List.append_nil,notices_left]
      simp [hc,hne]

/-- On every orderly run of a member's stay in a session: the notices about a user alternate, and the first says that
the user has joined if they were not there at the beginning. The set that the member keeps by the notices holds the
others who have joined since and are still there. -/
theorem notices_alternate {before after : List (Exchange ρ)} {s₁ : ServerEngine β}
    (hs₁ : Reaches (orderly backend) (new auth) before s₁) (hc : s₁.isMember id c = true)
    (hs : Reaches (orderly backend) s₁ after s) (hstay : ∀ x ∈ after, ∀ choices, x.1 ≠ .disconnect c choices)
    (u : UserName) : (notices c id u after).IsChain (· ≠ ·) ∧
      (∀ first ∈ (notices c id u after).head?, first = (s₁.other id c u).isNone) ∧
      (u ∈ applyNotices c id after ↔ ∃ d, s.other id c u = some d ∧ ∃ mid rest s₂, after = mid ++ rest ∧
        Reaches (orderly backend) s₁ mid s₂ ∧ s₂.other id c u ≠ some d) := by
  have hstep : ∀ (s : ServerEngine β) e s' out, s.Sound ∧ s.isMember id c = true →
      (∀ choices, e ≠ .disconnect c choices) → orderly backend s e = some (s',out) →
      (s'.Sound ∧ s'.isMember id c = true) ∧
        Notified (s.other id c u) (s'.other id c u) (out.filterMap (noticeFor c id u)) := by
    rintro s e s' out ⟨hsound,hmem⟩ he hnext
    obtain ⟨horderly,hnext⟩ := Option.ite_none_right_eq_some.mp hnext
    obtain ⟨hmem,hnotified⟩ := hsound.notified hmem horderly he hnext u
    exact ⟨⟨hsound.step horderly hnext,hmem⟩,hnotified⟩
  have hbegin : s₁.Sound ∧ s₁.isMember id c = true := ⟨sound hs₁,hc⟩
  have htold : _ ∧ Told (s₁.other id c u) (s.other id c u) (notices c id u after) :=
    Reaches.told (I := fun s => s.Sound ∧ s.isMember id c = true) (f := fun s => s.other id c u) hstep hbegin hs hstay
  have hlast : (notices c id u after).getLast? = some true ↔ _ := Reaches.last_appears_iff
    (I := fun s => s.Sound ∧ s.isMember id c = true) (f := fun s => s.other id c u) hstep hbegin hs hstay
  exact ⟨htold.2.alternate,htold.2.first,mem_applyNotices.trans hlast⟩

def aliceWaits : List (Event Unit) :=
  [.message 1 (.login "alice" "a") (.plain ()), .message 2 (.login "bob" "b") (.plain ()),
    .message 1 (.createSession 3) (.plain ())]
def bobReturns : List (Event Unit) :=
  [.message 2 (.join "000000") (.plain ()), .disconnect 2 (.plain ()), .message 2 (.login "bob" "b") (.plain ()),
    .message 2 (.join "000000") (.plain ())]

theorem notices_alternate_bob : ∃ before s₁ after s,
    Reaches (orderly allowAll) (new ()) before s₁ ∧ before.map Prod.fst = aliceWaits ∧
    s₁.isMember "sess-1" 1 = true ∧ Reaches (orderly allowAll) s₁ after s ∧ after.map Prod.fst = bobReturns ∧
    (∀ x ∈ after, ∀ choices, x.1 ≠ .disconnect 1 choices) ∧
    notices 1 "sess-1" "bob" after = [true,false,true] ∧
    (notices 1 "sess-1" "bob" after).IsChain (· ≠ ·) ∧
    (∀ first ∈ (notices 1 "sess-1" "bob" after).head?, first = (s₁.other "sess-1" 1 "bob").isNone) ∧
    ("bob" ∈ applyNotices 1 "sess-1" after ↔ ∃ d, s.other "sess-1" 1 "bob" = some d ∧ ∃ mid rest s₂,
      after = mid ++ rest ∧ Reaches (orderly allowAll) s₁ mid s₂ ∧ s₂.other "sess-1" 1 "bob" ≠ some d) := by
  obtain ⟨before,s₁,hs₁,hbefore,hc,htrace⟩ : ∃ before s₁, Reaches (orderly allowAll) (new ()) before s₁ ∧
      before.map Prod.fst = aliceWaits ∧ s₁.isMember "sess-1" 1 = true ∧
      ((trace (orderly allowAll) s₁ bobReturns).any
        fun r => notices 1 "sess-1" "bob" r.1 = [true,false,true]) = true := exists_reaches_on _ (by decide +kernel)
  obtain ⟨after,s,hs,hafter,hnotices⟩ :=
    exists_reaches_on (P := fun h _ => notices 1 "sess-1" "bob" h = [true,false,true]) bobReturns htrace
  have hstay : ∀ x ∈ after, ∀ choices, x.1 ≠ .disconnect 1 choices := by
    intro x hx choices heq
    have hmem : x.1 ∈ bobReturns := hafter ▸ List.mem_map_of_mem hx
    simp [heq,bobReturns] at hmem
  exact ⟨before,s₁,after,s,hs₁,hbefore,hc,hs,hafter,hstay,hnotices,notices_alternate hs₁ hc hs hstay "bob"⟩

/-- Bob joins twice, and alice is told so twice. -/
theorem joined_told_twice : ∃ h s, Reaches (step allowAll) (new ()) h s ∧
    h.map Prod.fst = aliceWaits ++
      [.message 2 (.join "000000") (.plain ()), .message 2 (.join "000000") (.plain ())] ∧
    s.isMember "sess-1" 1 = true ∧ notices 1 "sess-1" "bob" h = [true,true] := exists_reaches_on _ (by decide +kernel)
end ServerEngine
end RustyRtc.Signaling
