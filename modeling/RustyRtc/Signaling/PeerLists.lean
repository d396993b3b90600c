import RustyRtc.Signaling.Authenticity

/-! # The peer lists that clients hold

A client knows who is online from the last list the engine put out for it. Every handler that changes the
presence ends with a list for each client that is logged in then, so no client holds an old one.
-/
namespace RustyRtc.Signaling.ServerEngine
variable {β ρ : Type} {client : ClientId} {peers : List (UserName × PeerStatus)} {s s' : ServerEngine β}
variable {me : UserName} {out : List OutgoingMsg}
def listFor (client : ClientId) (o : OutgoingMsg) : Option (List (UserName × PeerStatus)) :=
  match o.msg with
  | .peersOnline peers => if o.clientIdTarget = client then some peers else none
  | _ => none
def lastPeersOnline (client : ClientId) (h : List (Exchange ρ)) : Option (List (UserName × PeerStatus)) :=
  ((h.flatMap Prod.snd).filterMap (listFor client)).getLast?

/-- The list names everyone online but `me` once, with their status. -/
structure UpToDate (s : ServerEngine β) (me : UserName) (peers : List (UserName × PeerStatus)) : Prop where
  once : (peers.map Prod.fst).Nodup
  exactly : ∀ u status, (u,status) ∈ peers ↔
    (s.presence.clientIdFor u).isSome = true ∧ u ≠ me ∧ status = s.status u

theorem listFor_eq_some {o : OutgoingMsg} : listFor client o = some peers ↔ o = ⟨client, .peersOnline peers⟩ := by
  obtain ⟨target,msg⟩ := o
  constructor
  · intro h
    unfold listFor at h
    split at h
    · next peers' hmsg =>
      obtain ⟨rfl,rfl⟩ : target = client ∧ peers' = peers := by simpa using h
      exact congrArg _ hmsg
    · cases h
  · rintro ⟨⟩
    exact if_pos rfl

theorem upToDate_peersFor (users : Iteration UserName) (s : ServerEngine β) (me : UserName) :
    UpToDate s me (s.peersFor users me) := by
  have hperm := users.perm s.presence.userToClient.keys
  constructor
  · have hnames : (s.peersFor users me).map Prod.fst = (s.presence.onlineUsernames users).filter (· ≠ me) := by
      rw [peersFor,List.map_map]
      exact List.map_id _
    rw [hnames]
    exact (hperm.nodup_iff.mpr s.presence.userToClient.keys_nodup).filter _
  · intro u status
    have honline : ∀ u, u ∈ s.presence.onlineUsernames users ↔ (s.presence.clientIdFor u).isSome = true := by
      intro u
      rw [Presence.onlineUsernames,hperm.mem_iff,← AList.mem_keys,Presence.clientIdFor,AList.lookup_isSome]
    simp only [peersFor,List.mem_map,List.mem_filter,honline,decide_eq_true_eq,Prod.mk.injEq]
    constructor
    · rintro ⟨v,⟨hv,hne⟩,rfl,rfl⟩
      exact ⟨hv,hne,rfl⟩
    · rintro ⟨hu,hne,rfl⟩
      exact ⟨u,⟨hu,hne⟩,rfl,rfl⟩

theorem UpToDate.congr (h : UpToDate s me peers) (hpresence : s'.presence = s.presence) : UpToDate s' me peers := by
  have hstatus : ∀ u, s'.status u = s.status u := fun u => by rw [status,status,hpresence]
  refine ⟨h.once,fun u st => ?_⟩
  rw [h.exactly,hstatus,hpresence]

/-- What a step puts out for the clients that are logged in after it. -/
structure Announces (s s' : ServerEngine β) (out : List OutgoingMsg) : Prop where
  fresh : ∀ client me peers, s'.presence.usernameFor client = some me → ⟨client, .peersOnline peers⟩ ∈ out →
    UpToDate s' me peers
  everyone : s'.presence = s.presence ∨ ∀ client me, s'.presence.usernameFor client = some me →
    ∃ peers, ⟨client, .peersOnline peers⟩ ∈ out
theorem broadcast_fresh {choices : Choices ρ} (hme : s.presence.usernameFor client = some me)
    (h : ⟨client, .peersOnline peers⟩ ∈ s.broadcastPeerListUpdate choices) : UpToDate s me peers := by
  obtain ⟨me',hme',hmsg⟩ := mem_broadcast h
  obtain rfl : me = me' := Option.some.inj (hme.symm.trans hme')
  obtain rfl := SignalingMsg.peersOnline.inj hmsg
  exact upToDate_peersFor choices.users s me

theorem broadcast_everyone (choices : Choices ρ) (hme : s.presence.usernameFor client = some me) :
    ∃ peers, ⟨client, .peersOnline peers⟩ ∈ s.broadcastPeerListUpdate choices := by
  have hclient : client ∈ s.presence.allClientIds choices.clients := by
    rw [Presence.allClientIds,(choices.clients.perm _).mem_iff,← AList.mem_keys,← AList.lookup_isSome]
    exact Option.isSome_of_mem hme
  refine ⟨s.peersFor choices.users me,List.mem_filterMap.mpr ⟨client,hclient,?_⟩⟩
  rw [hme]
  rfl

theorem Announces.broadcast {front : List OutgoingMsg} (choices : Choices ρ)
    (hfront : ∀ client peers, ⟨client, .peersOnline peers⟩ ∉ front) :
    Announces s s' (front ++ s'.broadcastPeerListUpdate choices) where
  fresh client me peers hme hmem := by
    rcases List.mem_append.mp hmem with hmem | hmem
    · exact absurd hmem (hfront client peers)
    · exact broadcast_fresh hme hmem
  everyone := .inr fun client me hme => by
    obtain ⟨peers,hpeers⟩ := broadcast_everyone choices hme
    exact ⟨peers,List.mem_append_right _ hpeers⟩

theorem Announces.silent (hpresence : s'.presence = s.presence)
    (hout : ∀ client peers, ⟨client, .peersOnline peers⟩ ∉ out) : Announces s s' out where
  fresh client _ peers _ hmem := absurd hmem (hout client peers)
  everyone := .inl hpresence

theorem not_mem_forwarded (s : ServerEngine β) (e : Event ρ) (client : ClientId) (peers : List (UserName × PeerStatus)) :
    ⟨client, .peersOnline peers⟩ ∉ s.forwarded e := by
  cases e with
  | disconnect => exact List.not_mem_nil
  | message c msg choices =>
    intro hmem
    obtain ⟨hcall,username,target,-,-,heq⟩ := mem_forwarded.mp hmem
    have hmsg := congrArg (fun o => o.msg.isCall) heq
    rw [SignalingMsg.isCall_withSender,hcall] at hmsg
    cases hmsg

theorem announces_of_transition {backend : AuthBackend β ρ} {e : Event ρ}
    (h : Transition backend s e s' out) : Announces s s' out := by
  cases h with
  | ignored | pong | loginRefused => exact .silent rfl (by simp)
  | @login client username password choices s' =>
    exact @Announces.broadcast β ρ s s' [⟨client, .loginOk username⟩] choices (by simp)
  | @register client username password choices auth res => exact .silent rfl (by cases res <;> simp)
  | @listPeers client choices =>
    refine ⟨fun c me peers hme hmem => ?_, .inl rfl⟩
    obtain ⟨rfl,hpeers⟩ : c = client ∧ _ = _ := by simpa using hmem
    rw [hpeers,hme]
    exact upToDate_peersFor choices.users s me
  | sessionRefused | created => exact .silent rfl (by simp)
  | joined _ _ _ _ hs => exact .silent (by rw [hs]) (by simp)
  | @forwarded client msg choices busyUsers s' rest _ _ hrest =>
    have hfront := not_mem_forwarded s (.message client msg choices)
    rcases hrest with ⟨rfl,rfl⟩ | ⟨rfl,-⟩
    · rw [List.append_nil]
      exact .silent rfl hfront
    · exact .broadcast choices hfront
  | @disconnected client choices s' heq =>
    cases husername : s.presence.usernameFor client with
    | none =>
      -- nobody was logged in on the connection, so nobody is logged out
      have hsame : (s.presence.logout client).1 = s.presence := by
        rw [Presence.logout,show s.presence.clientToUser.lookup client = none from husername]
      exact .silent (by rw [heq,hsame]) (by simp)
    | some username =>
      refine .broadcast choices fun c peers hmem => ?_
      obtain ⟨l,-,hl⟩ := List.mem_flatMap.mp hmem
      obtain ⟨member,-,hmember⟩ := List.mem_map.mp hl
      cases hmember

theorem lastPeersOnline_snoc (client : ClientId) (h : List (Exchange ρ)) (e : Event ρ) (out : List OutgoingMsg) :
    lastPeersOnline client (h ++ [(e,out)]) = ((out.filterMap (listFor client)).getLast?).or (lastPeersOnline client h) := by
  simp only [lastPeersOnline,List.flatMap_append,List.flatMap_singleton,List.filterMap_append,List.getLast?_append]

/-- In every state the engine reaches, the last peer list it put out for a client that is logged in names exactly
the other users online, each once and with their status. -/
theorem peer_lists_up_to_date (backend : AuthBackend β ρ) (auth : β) (h : List (Exchange ρ)) (s : ServerEngine β)
    (hs : Reaches (step backend) (new auth) h s) (client : ClientId) (me : UserName)
    (hme : s.presence.usernameFor client = some me) :
    ∃ peers, lastPeersOnline client h = some peers ∧ UpToDate s me peers := by
  induction hs with
  | init => cases hme
  | @snoc h s s' e out hprev hstep ih =>
    have hannounces := announces_of_transition (step_cases hstep)
    rw [lastPeersOnline_snoc]
    cases hlast : (out.filterMap (listFor client)).getLast? with
    | some peers =>
      obtain ⟨o,ho,hpeers⟩ := List.mem_filterMap.mp (List.mem_of_getLast? hlast)
      rw [listFor_eq_some.mp hpeers] at ho
      exact ⟨peers,rfl,hannounces.fresh client me peers hme ho⟩
    | none =>
      have hnone : ∀ peers, ⟨client, .peersOnline peers⟩ ∉ out := by
        intro peers hmem
        have hmem' := List.mem_filterMap.mpr ⟨_,hmem,listFor_eq_some.mpr rfl⟩
        rw [List.getLast?_eq_none_iff.mp hlast] at hmem'
        cases hmem'
      rcases hannounces.everyone with hpresence | hall
      · rw [hpresence] at hme
        obtain ⟨peers,hpeers,hfresh⟩ := ih hme
        exact ⟨peers,hpeers,hfresh.congr hpresence⟩
      · obtain ⟨peers,hpeers⟩ := hall client me hme
        exact absurd hpeers (hnone peers)

theorem peer_lists_up_to_date_in_call :
    ∃ h s, Reaches (step allowAll) (new ()) h s ∧
      h.map Prod.fst = [.message 1 (.login "alice" "a") (.plain ()), .message 2 (.login "bob" "b") (.plain ()),
        .message 2 (.answer 7 "bob" "alice" []) (.plain ())] ∧
      s.presence.usernameFor 1 = some "alice" ∧
      ∃ peers, lastPeersOnline 1 h = some peers ∧ UpToDate s "alice" peers := by
  refine ⟨_,_, .snoc (.snoc (.snoc .init rfl) rfl) rfl,rfl,by decide +kernel,?_⟩
  exact peer_lists_up_to_date allowAll () _ _ (.snoc (.snoc (.snoc .init rfl) rfl) rfl) 1 "alice" (by decide +kernel)
end RustyRtc.Signaling.ServerEngine
