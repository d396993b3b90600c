import RustyRtc.Signaling.Authenticity

/-! # The session registry

Sessions are kept by id and their ids by code, in two maps that are updated one after the other; who is logged in
stands in a third place. What each handler does to the three is said once (`registered`), and the soundness of
the registry follows from it.
-/
namespace RustyRtc.Signaling
open Sessions
variable {code : SessionCode}

namespace Sessions
variable {clientId : ClientId} {session : Session} {orders : Orders} {s : Sessions} {id : SessionId}

def without (clientId : ClientId) (session : Session) : Session :=
  { session with members := session.members.erase clientId }
theorem without_of_not_mem (h : clientId ∉ session.members) : without clientId session = session := by
  have herase : session.members.erase clientId = session.members := AList.ext (List.kerase_of_notMem_keys h)
  rw [without,herase]
theorem without_without (clientId : ClientId) (session : Session) :
    without clientId (without clientId session) = without clientId session :=
  without_of_not_mem fun h => (AList.mem_erase.mp h).1 rfl

theorem lookup_leave (orders : Orders) (clientId : ClientId) (s : Sessions) (sessId id : SessionId) :
    (leave orders clientId s sessId).1.bySessId.lookup id =
      if id = sessId then (s.bySessId.lookup id).map (without clientId) else s.bySessId.lookup id := by
  unfold leave
  by_cases hid : id = sessId
  · subst hid
    cases hsess : s.bySessId.lookup id with
    | none => simp [hsess]
    | some sess => simp [without]
  · cases hsess : s.bySessId.lookup sessId with
    | none => simp [hid]
    | some sess => simp [hid,AList.lookup_insert_ne hid]

theorem leave_bySessCode (orders : Orders) (clientId : ClientId) (s : Sessions) (sessId : SessionId) :
    (leave orders clientId s sessId).1.bySessCode = s.bySessCode := by
  unfold leave
  split <;> rfl
def leaveEach (orders : Orders) (clientId : ClientId) (l : List SessionId)
    (acc : Sessions × List (SessionId × List ClientId)) : Sessions × List (SessionId × List ClientId) :=
  l.foldl (fun acc sessId => ((leave orders clientId acc.1 sessId).1,acc.2 ++ (leave orders clientId acc.1 sessId).2)) acc

theorem leaveEach_spec (orders : Orders) (clientId : ClientId) (l : List SessionId)
    (acc : Sessions × List (SessionId × List ClientId)) :
    (leaveEach orders clientId l acc).1.bySessCode = acc.1.bySessCode ∧
      ∀ id, (leaveEach orders clientId l acc).1.bySessId.lookup id =
        if id ∈ l then (acc.1.bySessId.lookup id).map (without clientId) else acc.1.bySessId.lookup id := by
  induction l generalizing acc with
  | nil => exact ⟨rfl,fun id => by simp [leaveEach]⟩
  | cons sessId l ih =>
    obtain ⟨hcodes,hids⟩ := ih ((leave orders clientId acc.1 sessId).1,acc.2 ++ (leave orders clientId acc.1 sessId).2)
    refine ⟨hcodes.trans (leave_bySessCode ..),fun id => (hids id).trans ?_⟩
    dsimp only
    rw [lookup_leave]
    by_cases hid : id = sessId
    · -- a session that is met again loses nobody more
      cases acc.1.bySessId.lookup id <;> simp [hid,without_without]
    · simp [hid]

theorem mem_sessionsOf :
    id ∈ sessionsOf orders clientId s ↔ ∃ session, s.bySessId.lookup id = some session ∧ clientId ∈ session.members := by
  unfold sessionsOf
  rw [List.mem_filterMap]
  constructor
  · rintro ⟨e,he,hif⟩
    split at hif
    · next hmem =>
      cases hif
      exact ⟨e.2,AList.mem_lookup_iff.mpr ((orders.sessions.perm _).mem_iff.mp he),hmem⟩
    · cases hif
  · rintro ⟨session,hlookup,hmem⟩
    exact ⟨⟨id,session⟩,(orders.sessions.perm _).mem_iff.mpr (AList.mem_lookup_iff.mp hlookup),if_pos hmem⟩

theorem lookup_leaveAll : (s.leaveAll orders clientId).1.bySessId.lookup id = some session ↔
      (∃ before, s.bySessId.lookup id = some before ∧ session = without clientId before) ∧
        session.members.keys ≠ [] := by
  change (removeEmpty (leaveEach orders clientId (sessionsOf orders clientId s) (s,[])).1).bySessId.lookup id = _ ↔ _
  have hids := (leaveEach_spec orders clientId (sessionsOf orders clientId s) (s,[])).2 id
  have hmap : (leaveEach orders clientId (sessionsOf orders clientId s) (s,[])).1.bySessId.lookup id =
      (s.bySessId.lookup id).map (without clientId) := by
    rw [hids]
    split
    · rfl
    · next hout =>
      cases hlookup : s.bySessId.lookup id with
      | none => rfl
      | some before =>
        have hmem : clientId ∉ before.members := fun hmem => hout (mem_sessionsOf.mpr ⟨before,hlookup,hmem⟩)
        rw [Option.map_some,without_of_not_mem hmem]
  rw [removeEmpty,Table.lookup_retain_eq_some,hmap,Option.map_eq_some_iff]
  refine and_congr (exists_congr fun before => and_congr_right fun _ => eq_comm) ?_
  simp

theorem lookup_code_leaveAll : (s.leaveAll orders clientId).1.bySessCode.lookup code = some id ↔
      s.bySessCode.lookup code = some id ∧ id ∈ (s.leaveAll orders clientId).1.bySessId := by
  change (removeEmpty (leaveEach orders clientId (sessionsOf orders clientId s) (s,[])).1).bySessCode.lookup code = _ ↔
    _ ∧ id ∈ (removeEmpty (leaveEach orders clientId (sessionsOf orders clientId s) (s,[])).1).bySessId
  have hcodes := (leaveEach_spec orders clientId (sessionsOf orders clientId s) (s,[])).1
  rw [removeEmpty,Table.lookup_retain_eq_some,hcodes,decide_eq_true_iff]

theorem leaveEach_left (orders : Orders) (clientId : ClientId) {l : List SessionId} (hl : l.Nodup)
    (acc : Sessions × List (SessionId × List ClientId)) : (leaveEach orders clientId l acc).2 =
      acc.2 ++ l.flatMap fun id => (acc.1.bySessId.lookup id).toList.map fun session =>
        (id,orders.members.order (session.members.erase clientId).keys) := by
  induction l generalizing acc with
  | nil => simp [leaveEach]
  | cons sessId l ih =>
    obtain ⟨hnot,hl⟩ := List.nodup_cons.mp hl
    have hrest := ih hl ((leave orders clientId acc.1 sessId).1,acc.2 ++ (leave orders clientId acc.1 sessId).2)
    refine hrest.trans ?_
    have hsame : (l.flatMap fun id => ((leave orders clientId acc.1 sessId).1.bySessId.lookup id).toList.map
          fun session => (id,orders.members.order (session.members.erase clientId).keys)) =
        l.flatMap fun id => (acc.1.bySessId.lookup id).toList.map fun session =>
          (id,orders.members.order (session.members.erase clientId).keys) := by
      refine List.flatMap_congr fun id hid => ?_
      have hne : id ≠ sessId := fun h => hnot (h ▸ hid)
      rw [lookup_leave,if_neg hne]
    rw [hsame,List.flatMap_cons,List.append_assoc]
    congr 2
    unfold leave
    cases acc.1.bySessId.lookup sessId <;> rfl

theorem nodup_sessionsOf (orders : Orders) (clientId : ClientId) (s : Sessions) : (sessionsOf orders clientId s).Nodup := by
  have hkeys : (orders.sessions.order s.bySessId.entries).Pairwise fun e e' => e.1 ≠ e'.1 :=
    List.nodupKeys_iff_pairwise.mp ((List.perm_nodupKeys (orders.sessions.perm _)).mpr s.bySessId.nodupKeys)
  refine List.pairwise_filterMap.mpr (hkeys.imp fun {e e'} hne id hid id' hid' => ?_)
  have hfst : ∀ {e : (_ : SessionId) × Session} {id},
      (if clientId ∈ e.2.members then some e.1 else none) = some id → e.1 = id := by
    intro e id h
    split at h
    · exact Option.some.inj h
    · cases h
  rw [← hfst hid,← hfst hid']
  exact hne

theorem leaveAll_left (orders : Orders) (s : Sessions) (clientId : ClientId) : (s.leaveAll orders clientId).2 =
    (sessionsOf orders clientId s).flatMap fun id => (s.bySessId.lookup id).toList.map fun session =>
      (id,orders.members.order (session.members.erase clientId).keys) :=
  leaveEach_left orders clientId (nodup_sessionsOf orders clientId s) (s,[])

theorem mem_of_mem_leaveAll (h : id ∈ (s.leaveAll orders clientId).1.bySessId) : id ∈ s.bySessId := by
  obtain ⟨session,hsession⟩ := Table.mem_iff.mp h
  obtain ⟨⟨before,hbefore,-⟩,-⟩ := lookup_leaveAll.mp hsession
  exact Table.mem_iff.mpr ⟨_,hbefore⟩
theorem mem_of_left {left : SessionId × List ClientId} (h : left ∈ (s.leaveAll orders clientId).2) :
    left.1 ∈ s.bySessId := by
  rw [leaveAll_left] at h
  obtain ⟨id,-,hid⟩ := List.mem_flatMap.mp h
  obtain ⟨session,hsession,rfl⟩ := List.mem_map.mp hid
  exact Table.mem_iff.mpr ⟨_,Option.mem_toList.mp hsession⟩

/-- Codes and ids correspond one to one to the stored sessions. -/
structure Matched (s : Sessions) : Prop where
  id : ∀ id session, s.bySessId.lookup id = some session → session.sessionId = id
  code : ∀ code id, s.bySessCode.lookup code = some id ↔
    ∃ session, s.bySessId.lookup id = some session ∧ session.sessionCode = code
theorem Matched.new : Sessions.new.Matched :=
  ⟨fun id session h => by simp [Sessions.new] at h,fun code id => by simp [Sessions.new]⟩

theorem Matched.insert (h : s.Matched) (hid : session.sessionId ∉ s.bySessId)
    (hcode : session.sessionCode ∉ s.bySessCode) : (s.insert session).Matched := by
  have hfresh : s.bySessId.lookup session.sessionId = none := AList.lookup_eq_none.mpr hid
  have hfree : s.bySessCode.lookup session.sessionCode = none := AList.lookup_eq_none.mpr hcode
  constructor
  · intro id session' hlookup
    rcases Table.lookup_insert_eq_some.mp hlookup with ⟨rfl,rfl⟩ | ⟨-,hold⟩
    · rfl
    · exact h.id id session' hold
  · intro code id
    simp only [Sessions.insert]
    by_cases heq : id = session.sessionId
    · subst heq
      rw [AList.lookup_insert]
      by_cases hc : code = session.sessionCode
      · subst hc
        simp
      · rw [AList.lookup_insert_ne hc,h.code,hfresh]
        simpa using fun hcc => hc hcc.symm
    · rw [AList.lookup_insert_ne heq]
      by_cases hc : code = session.sessionCode
      · subst hc
        rw [AList.lookup_insert,← h.code,hfree]
        simpa using fun hii => heq hii.symm
      · rw [AList.lookup_insert_ne hc,h.code]

theorem Matched.join (h : s.Matched) (hlookup : s.bySessId.lookup id = some session) (clientId : ClientId) :
    Matched ⟨s.bySessId.insert id (session.joinedBy clientId),s.bySessCode⟩ := by
  constructor
  · intro id' session₁ hlookup₁
    rcases Table.lookup_insert_eq_some.mp hlookup₁ with ⟨rfl,rfl⟩ | ⟨-,hold⟩
    · exact h.id id' session hlookup
    · exact h.id id' session₁ hold
  · intro code id'
    rw [h.code]
    by_cases heq : id' = id
    · subst heq
      rw [AList.lookup_insert,hlookup]
      simp [Session.joinedBy]
    · rw [AList.lookup_insert_ne heq]

theorem Matched.leaveAll (h : s.Matched) (orders : Orders) (clientId : ClientId) :
    (s.leaveAll orders clientId).1.Matched := by
  constructor
  · intro id session hlookup
    obtain ⟨⟨before,hbefore,rfl⟩,-⟩ := lookup_leaveAll.mp hlookup
    exact h.id id before hbefore
  · intro code id
    rw [lookup_code_leaveAll,h.code]
    constructor
    · rintro ⟨⟨before,hbefore,hcode⟩,hmem⟩
      obtain ⟨session,hsession⟩ := Table.mem_iff.mp hmem
      obtain ⟨⟨before',hbefore',rfl⟩,-⟩ := lookup_leaveAll.mp hsession
      obtain rfl := Option.some.inj (hbefore'.symm.trans hbefore)
      exact ⟨_,hsession,hcode⟩
    · rintro ⟨session,hsession,rfl⟩
      obtain ⟨⟨before,hbefore,rfl⟩,-⟩ := lookup_leaveAll.mp hsession
      exact ⟨⟨before,hbefore,rfl⟩,Table.mem_iff.mpr ⟨_,hsession⟩⟩

def Led (s : Sessions) : Prop := ∀ code id, s.bySessCode.lookup code = some id → id ∈ s.bySessId

theorem joinByCode_isSome (h : s.Led) (code : SessionCode) (clientId : ClientId) :
    (s.joinByCode code clientId).isSome := by
  unfold joinByCode
  cases hcode : s.bySessCode.lookup code with
  | none => rfl
  | some id =>
    obtain ⟨session,hsession⟩ := Table.mem_iff.mp (h code id hcode)
    simp only [hsession]
    split <;> rfl
end Sessions

namespace ServerEngine
variable {β ρ : Type} {s : ServerEngine β} {backend : AuthBackend β ρ} {h : List (Exchange ρ)} {fuel : ℕ}
variable {s' : ServerEngine β}

def sessionIdOf (n : UInt64) : SessionId := "sess-" ++ toString n.toNat

theorem sessionIdOf_injective {m n : UInt64} (h : sessionIdOf m = sessionIdOf n) : m = n := by
  have hdigits : Nat.toDigits 10 m.toNat = Nat.toDigits 10 n.toNat := by
    have hlist := congrArg String.toList h
    rw [sessionIdOf,sessionIdOf,String.toList_append,String.toList_append] at hlist
    simpa [Nat.toString_eq_repr,Nat.repr] using List.append_cancel_left hlist
  have hnumber := congrArg (Nat.ofDigitChars 10 · 0) hdigits
  simp only [Nat.ofDigitChars_toDigits (b := 10) (by decide) (by decide)] at hnumber
  exact UInt64.toNat_inj.mp hnumber

theorem value_sixDigits (n : ℕ) : Nat.ofDigitChars 10 (sixDigits n).toList 0 = n := by
  have hdigits : (toString n).toList = Nat.toDigits 10 n := by simp [Nat.toString_eq_repr,Nat.repr]
  rw [sixDigits,String.toList_append,String.toList_ofList,Nat.ofDigitChars_append,Nat.ofDigitChars_replicate_zero,
    Nat.mul_zero,hdigits,Nat.ofDigitChars_ten_toDigits]
theorem sixDigits_injective : Function.Injective sixDigits := by
  intro m n h
  rw [← value_sixDigits m,h,value_sixDigits]

theorem used_of_walkCodes (h : walkCodes fuel s = none) :
    ∀ i < fuel, sixDigits (s.nextSessionId + UInt64.ofNat i).toNat ∈ s.sessions.bySessCode := by
  induction fuel generalizing s with
  | zero => simp
  | succ fuel ih =>
    rw [walkCodes] at h
    split at h
    · next hused =>
      intro i hi
      cases i with
      | zero => simpa [containsCode] using hused
      | succ i =>
        have hrest := ih h i (by omega)
        have hnext : s.nextSessionId + 1 + UInt64.ofNat i = s.nextSessionId + UInt64.ofNat (i + 1) := by
          rw [UInt64.ofNat_add,UInt64.add_assoc,UInt64.add_comm 1]
          rfl
        rwa [← hnext]
    · cases h

/-- Fewer codes than the counter has values cannot fill the walk: as long as it goes on, each round shows
another code in use. -/
theorem allocSessionCode_total (draws : Fin 100 → Fin 1000000) (s : ServerEngine β)
    (hcodes : s.sessions.bySessCode.keys.length < 2 ^ 64) :
    ∃ s' code, s.allocSessionCode draws = some (s',code) ∧ code ∉ s.sessions.bySessCode := by
  cases halloc : s.allocSessionCode draws with
  | some r => exact ⟨r.1,r.2,rfl,(allocSessionCode_allocates halloc).fresh⟩
  | none =>
    unfold allocSessionCode at halloc
    split at halloc
    · cases halloc
    · have hused := used_of_walkCodes halloc
      let round := fun i : ℕ => sixDigits (s.nextSessionId + UInt64.ofNat i).toNat
      have hdistinct : ((List.range (s.sessions.bySessCode.keys.length + 1)).map round).Nodup := by
        refine List.nodup_range.map_on fun i hi j hj hround => ?_
        rw [List.mem_range] at hi hj
        have hcounter := UInt64.toNat_inj.mp (sixDigits_injective hround)
        have hnumber := congrArg UInt64.toNat ((UInt64.add_right_inj _).mp hcounter)
        have hbound : ∀ k < s.sessions.bySessCode.keys.length + 1, k < UInt64.size :=
          fun k hk => (Nat.lt_of_lt_of_le hk hcodes)
        rwa [UInt64.toNat_ofNat_of_lt' (hbound i hi), UInt64.toNat_ofNat_of_lt' (hbound j hj)] at hnumber
      have hkeys : (List.range (s.sessions.bySessCode.keys.length + 1)).map round ⊆ s.sessions.bySessCode.keys := by
        intro code hcode
        obtain ⟨i,hi,rfl⟩ := List.mem_map.mp hcode
        exact AList.mem_keys.mp (hused i (List.mem_range.mp hi))
      have hcount := (List.subperm_of_subset hdistinct hkeys).length_le
      rw [List.length_map, List.length_range] at hcount
      omega

/-- The codes of all numbers below `n` in use. -/
def codesBelow (n : ℕ) : Table SessionCode SessionId :=
  ⟨(List.range n).map fun i => ⟨sixDigits i,"sess-1"⟩,by
    rw [List.NodupKeys, List.keys, List.map_map]
    exact List.nodup_range.map sixDigits_injective⟩

theorem keys_codesBelow (n : ℕ) : (codesBelow n).keys = (List.range n).map sixDigits := List.map_map
theorem allocSessionCode_beyond_six_digits :
    let s : ServerEngine Unit := ⟨Presence.new,⟨Sessions.new.bySessId,codesBelow 1000000⟩,18446744073709551615,()⟩
    (∀ n < 1000000, sixDigits n ∈ s.sessions.bySessCode) ∧ s.sessions.bySessCode.keys.length < 2 ^ 64 ∧
      ∃ s' code, s.allocSessionCode (fun _ => 0) = some (s',code) ∧ code ∉ s.sessions.bySessCode := by
  intro s
  have hcount : (codesBelow 1000000).keys.length < 2 ^ 64 := by
    rw [keys_codesBelow, List.length_map, List.length_range]
    decide
  refine ⟨fun n hn => ?_,hcount,allocSessionCode_total _ s hcount⟩
  change sixDigits n ∈ codesBelow 1000000
  rw [AList.mem_keys, keys_codesBelow]
  exact List.mem_map_of_mem (List.mem_range.mpr hn)

def createdOf (x : Exchange ρ) : Option SessionId :=
  match x.1 with
  | .message _ (.createSession _) _ => x.2.findSome? fun o => match o.msg with
    | .created sessionId _ => some sessionId
    | _ => none
  | _ => none

inductive Registered (s : ServerEngine β) : Exchange ρ → ServerEngine β → Prop
  | quiet {x s'} : createdOf x = none →
      (∀ c, (s.presence.usernameFor c).isSome → (s'.presence.usernameFor c).isSome) → s'.sessions = s.sessions →
      s'.nextSessionId = s.nextSessionId → Registered s x s'
  | created {x s' client session} : createdOf x = some session.sessionId → (s.presence.usernameFor client).isSome →
      session.sessionId = sessionIdOf s.nextSessionId → session.sessionCode ∉ s.sessions.bySessCode →
      session.members = (∅ : TableSet ClientId).insert client () → s'.presence = s.presence →
      s'.sessions = s.sessions.insert session → Registered s x s'
  | joined {x s' client id session} : createdOf x = none → (s.presence.usernameFor client).isSome →
      s.sessions.bySessId.lookup id = some session → s'.presence = s.presence →
      s'.sessions = ⟨s.sessions.bySessId.insert id (session.joinedBy client),s.sessions.bySessCode⟩ →
      s'.nextSessionId = s.nextSessionId → Registered s x s'
  | left {x s' client orders} : createdOf x = none → s'.presence = (s.presence.logout client).1 →
      s'.sessions = (s.sessions.leaveAll orders client).1 → s'.nextSessionId = s.nextSessionId → Registered s x s'

theorem registered {e : Event ρ} {out : List OutgoingMsg}
    (h : Transition backend s e s' out) : Registered s (e,out) s' := by
  cases h with
  | @login client username password choices s' hverify honline hs =>
    refine .quiet rfl (fun c hc => ?_) (by rw [hs]) (by rw [hs])
    rw [hs,Presence.usernameFor_login]
    split
    · rfl
    · exact hc
  | disconnected hs => exact .left rfl (by rw [hs]) (by rw [hs]) (by rw [hs])
  | @ignored client msg choices | @sessionRefused client msg choices code =>
    exact .quiet (by cases msg <;> rfl) (fun _ hc => hc) rfl rfl
  | loginRefused | pong | register | listPeers => exact .quiet rfl (fun _ hc => hc) rfl rfl
  | created hlogin halloc hsession =>
    subst hsession
    exact .created rfl (by rw [hlogin]; rfl) rfl (allocSessionCode_allocates halloc).fresh rfl rfl rfl
  | joined hlogin _ hsession _ hs =>
    exact .joined rfl (by rw [hlogin]; rfl) hsession (by rw [hs]) (by rw [hs]) (by rw [hs])
  | @forwarded client msg choices busyUsers s' rest hcall hs =>
    subst hs
    exact .quiet (by cases msg <;> first | rfl | cases hcall) (fun _ hc => hc) rfl rfl

/-- No session is empty, its members are logged in, and codes lead to sessions. -/
structure Staffed (s : ServerEngine β) : Prop where
  occupied : ∀ id session, s.sessions.bySessId.lookup id = some session → session.members.keys ≠ []
  loggedIn : ∀ id session, s.sessions.bySessId.lookup id = some session → ∀ client ∈ session.members,
    (s.presence.usernameFor client).isSome
  led : s.sessions.Led

theorem Staffed.insert (h : s.Staffed) (id : SessionId) (session : Session) (hpresence : s'.presence = s.presence)
    (hsessions : s'.sessions.bySessId = s.sessions.bySessId.insert id session)
    (hcodes : ∀ code id', s'.sessions.bySessCode.lookup code = some id' →
      id' = id ∨ s.sessions.bySessCode.lookup code = some id') (hoccupied : session.members.keys ≠ [])
    (hmembers : ∀ client ∈ session.members, (s.presence.usernameFor client).isSome) : s'.Staffed := by
  have hlookup : ∀ id' session', s'.sessions.bySessId.lookup id' = some session' →
      session = session' ∨ s.sessions.bySessId.lookup id' = some session' := by
    intro id' session' hlookup
    rw [hsessions,Table.lookup_insert_eq_some] at hlookup
    exact hlookup.imp And.right And.right
  constructor
  · intro id' session' hsession
    rcases hlookup id' session' hsession with rfl | hold
    · exact hoccupied
    · exact h.occupied id' session' hold
  · intro id' session' hsession client hclient
    rw [hpresence]
    rcases hlookup id' session' hsession with rfl | hold
    · exact hmembers client hclient
    · exact h.loggedIn id' session' hold client hclient
  · intro code id' hcode
    rw [hsessions]
    rcases hcodes code id' hcode with rfl | hold
    · exact (AList.mem_insert _).mpr (.inl rfl)
    · exact (AList.mem_insert _).mpr (.inr (h.led code id' hold))

theorem keys_insert_ne_nil (t : TableSet ClientId) (client : ClientId) : (t.insert client ()).keys ≠ [] := by
  simp [AList.keys_insert]

theorem Staffed.step {s' : ServerEngine β} {x : Exchange ρ} (h : s.Staffed) (hstep : Registered s x s') :
    s'.Staffed := by
  cases hstep with
  | quiet _ hnames hsessions _ =>
    constructor
    · rw [hsessions]
      exact h.occupied
    · intro id session hsession client hclient
      rw [hsessions] at hsession
      exact hnames client (h.loggedIn id session hsession client hclient)
    · rw [hsessions]
      exact h.led
  | @created client session _ hlogin _ _ hmembers hpresence hsessions =>
    refine h.insert session.sessionId session hpresence (by rw [hsessions]; rfl) ?_ ?_ ?_
    · intro code id' hcode
      rw [hsessions,Sessions.insert,Table.lookup_insert_eq_some] at hcode
      exact hcode.imp (fun h => h.2.symm) And.right
    · rw [hmembers]
      exact keys_insert_ne_nil _ _
    · intro client' hclient'
      rw [hmembers,AList.mem_insert] at hclient'
      rcases hclient' with rfl | hempty
      · exact hlogin
      · exact absurd hempty (AList.notMem_empty _)
  | @joined client id session _ hlogin hsession hpresence hsessions _ =>
    refine h.insert id (session.joinedBy client) hpresence (by rw [hsessions]) (fun code id' hcode => .inr ?_)
      (keys_insert_ne_nil _ _) ?_
    · rw [hsessions] at hcode
      exact hcode
    · intro client' hclient'
      rcases (AList.mem_insert _).mp hclient' with rfl | hmember
      · exact hlogin
      · exact h.loggedIn id session hsession client' hmember
  | @left client orders _ hpresence hsessions _ =>
    constructor
    · intro id session hsession
      rw [hsessions] at hsession
      exact (lookup_leaveAll.mp hsession).2
    · intro id session hsession client' hclient'
      rw [hsessions] at hsession
      obtain ⟨⟨before,hbefore,rfl⟩,-⟩ := lookup_leaveAll.mp hsession
      obtain ⟨hne,hmember⟩ := AList.mem_erase.mp hclient'
      rw [hpresence,Presence.usernameFor_logout,if_neg hne]
      exact h.loggedIn id before hbefore client' hmember
    · intro code id hcode
      rw [hsessions] at hcode ⊢
      exact (lookup_code_leaveAll.mp hcode).2

theorem staffed {auth : β} (hs : Reaches (step backend) (new auth) h s) : s.Staffed := by
  induction hs with
  | init =>
    refine ⟨fun id session hsession => ?_,fun id session hsession => ?_,fun code id hcode => ?_⟩
    · cases (AList.lookup_empty id).symm.trans hsession
    · cases (AList.lookup_empty id).symm.trans hsession
    · cases (AList.lookup_empty code).symm.trans hcode
  | snoc _ hstep ih => exact ih.step (registered (step_cases hstep))

/-- The engine up to the first creation that does not leave the counter higher than it found it. -/
def climbing (backend : AuthBackend β ρ) (s : ServerEngine β) (e : Event ρ) :
    Option (ServerEngine β × List OutgoingMsg) :=
  (s.step backend e).filter fun r => (createdOf (e,r.2)).isNone || decide (s.nextSessionId < r.1.nextSessionId)

/-- The ids of all sessions ever created are different, their numbers lie below the counter, and no other session is
stored. -/
structure Numbered (h : List (Exchange ρ)) (s : ServerEngine β) : Prop where
  matched : s.sessions.Matched
  nodup : (h.filterMap createdOf).Nodup
  below : ∀ id ∈ h.filterMap createdOf, ∃ n < s.nextSessionId, id = sessionIdOf n
  stored : ∀ id ∈ s.sessions.bySessId, id ∈ h.filterMap createdOf

theorem Numbered.quiet {x : Exchange ρ} (hn : Numbered h s)
    (hnone : createdOf x = none) (hmatched : s'.sessions.Matched) (hnext : s'.nextSessionId = s.nextSessionId)
    (hids : ∀ id ∈ s'.sessions.bySessId, id ∈ s.sessions.bySessId) : Numbered (h ++ [x]) s' := by
  have hsame : (h ++ [x]).filterMap createdOf = h.filterMap createdOf := by simp [hnone]
  refine ⟨hmatched,?_,?_,?_⟩
  · rw [hsame]
    exact hn.nodup
  · rw [hsame,hnext]
    exact hn.below
  · intro id hid
    rw [hsame]
    exact hn.stored id (hids id hid)

theorem Numbered.created {s' : ServerEngine β} {x : Exchange ρ} {session : Session}
    (hn : Numbered h s) (hcreated : createdOf x = some session.sessionId)
    (hid : session.sessionId = sessionIdOf s.nextSessionId) (hcode : session.sessionCode ∉ s.sessions.bySessCode)
    (hsessions : s'.sessions = s.sessions.insert session) (hnext : s.nextSessionId < s'.nextSessionId) :
    Numbered (h ++ [x]) s' := by
  have hsnoc : (h ++ [x]).filterMap createdOf = h.filterMap createdOf ++ [session.sessionId] := by simp [hcreated]
  -- the number of the new id is not below the counter
  have hfresh : session.sessionId ∉ h.filterMap createdOf := by
    intro hmem
    obtain ⟨n,hn,heq⟩ := hn.below _ hmem
    obtain rfl := sessionIdOf_injective (hid.symm.trans heq)
    exact UInt64.lt_irrefl _ hn
  refine ⟨?_,?_,?_,?_⟩
  · rw [hsessions]
    exact hn.matched.insert (fun hmem => hfresh (hn.stored _ hmem)) hcode
  · rw [hsnoc]
    exact List.nodup_append.mpr ⟨hn.nodup,List.nodup_singleton _,fun a ha b hb => by
      rw [List.mem_singleton.mp hb]
      rintro rfl
      exact hfresh ha⟩
  · intro id hmem
    rw [hsnoc] at hmem
    rcases List.mem_append.mp hmem with hmem | hmem
    · obtain ⟨n,hn,heq⟩ := hn.below id hmem
      exact ⟨n,UInt64.lt_trans hn hnext,heq⟩
    · exact ⟨s.nextSessionId,hnext,(List.mem_singleton.mp hmem).trans hid⟩
  · intro id hmem
    rw [hsnoc]
    rw [hsessions] at hmem
    rcases (AList.mem_insert _).mp hmem with rfl | hold
    · simp
    · exact List.mem_append_left _ (hn.stored id hold)

theorem Numbered.step {s' : ServerEngine β} {x : Exchange ρ} (hn : Numbered h s)
    (hstep : Registered s x s') (hclimb : (createdOf x).isSome → s.nextSessionId < s'.nextSessionId) :
    Numbered (h ++ [x]) s' := by
  cases hstep with
  | quiet hnone _ hsessions hnext =>
    exact hn.quiet hnone (hsessions ▸ hn.matched) hnext (by rw [hsessions]; exact fun _ hid => hid)
  | created hcreated _ hid hcode _ _ hsessions =>
    exact hn.created hcreated hid hcode hsessions (hclimb (by rw [hcreated]; rfl))
  | @joined client id session hnone _ hsession _ hsessions hnext =>
    refine hn.quiet hnone (hsessions ▸ hn.matched.join hsession client) hnext fun id' hid' => ?_
    rw [hsessions] at hid'
    rcases (AList.mem_insert _).mp hid' with rfl | hold
    · exact Table.mem_iff.mpr ⟨_,hsession⟩
    · exact hold
  | @left client orders hnone _ hsessions hnext =>
    refine hn.quiet hnone (hsessions ▸ hn.matched.leaveAll orders client) hnext fun id hid => ?_
    rw [hsessions] at hid
    exact mem_of_mem_leaveAll hid

theorem numbered {auth : β} (hs : Reaches (climbing backend) (new auth) h s) : Numbered h s := by
  induction hs with
  | init => exact ⟨.new,List.nodup_nil,by simp,fun id hid => absurd hid (AList.notMem_empty id)⟩
  | @snoc h s s' e out _ hstep ih =>
    obtain ⟨hstep,hkeep⟩ := Option.filter_eq_some_iff.mp hstep
    refine ih.step (registered (step_cases hstep)) fun hsome => ?_
    rcases Bool.or_eq_true_iff.mp hkeep with hnone | hlt
    · rw [Option.isNone_iff_eq_none.mp hnone] at hsome
      cases hsome
    · exact of_decide_eq_true hlt

/-- In every state no stored session is empty, its members are logged in, and joining by code does not panic. As long
as the counter climbs, codes and ids correspond one to one to the stored sessions, and no two sessions ever created
share an id. -/
theorem session_registry_sound (backend : AuthBackend β ρ) (auth : β) :
    (∀ h s, Reaches (step backend) (new auth) h s →
      (∀ id session, s.sessions.bySessId.lookup id = some session → session.members.keys ≠ [] ∧
        ∀ client ∈ session.members, (s.presence.usernameFor client).isSome) ∧
      ∀ code client, (s.sessions.joinByCode code client).isSome) ∧
    ∀ h s, Reaches (climbing backend) (new auth) h s → s.sessions.Matched ∧ (h.filterMap createdOf).Nodup := by
  constructor
  · intro h s hs
    have hstaffed := staffed hs
    exact ⟨fun id session hsession => ⟨hstaffed.occupied id session hsession,hstaffed.loggedIn id session hsession⟩,
      Sessions.joinByCode_isSome hstaffed.led⟩
  · intro h s hs
    have hnumbered := numbered hs
    exact ⟨hnumbered.matched,hnumbered.nodup⟩

def twoSessions : List (Event Unit) :=
  [.message 1 (.login "alice" "a") (.plain ()), .message 1 (.createSession 2) (.plain ()),
    .message 1 (.createSession 2) { Choices.plain () with draws := fun _ => ⟨1,by decide⟩ }]
theorem two_sessions_registered : ∃ h s, Reaches (climbing allowAll) (new ()) h s ∧
    h.filterMap createdOf = ["sess-1","sess-2"] ∧ s.sessions.Matched ∧ (h.filterMap createdOf).Nodup := by
  obtain ⟨h,s,hs,hids⟩ : ∃ h s, Reaches (climbing allowAll) (new ()) h s ∧
      h.filterMap createdOf = ["sess-1","sess-2"] := exists_reaches_of_trace twoSessions (by decide +kernel)
  exact ⟨h,s,hs,hids,(session_registry_sound allowAll ()).2 h s hs⟩
def idle (n : UInt64) : ServerEngine Unit := ⟨Presence.new,Sessions.new,n,()⟩
def visit : List (Event Unit) :=
  [.message 1 (.login "alice" "a") (.plain ()), .message 1 (.createSession 2) (.plain ()), .disconnect 1 (.plain ())]

theorem leaveAll_single (orders : Sessions.Orders) (id : SessionId) (code : SessionCode) (capacity : UInt8)
    (client : ClientId) : ((Sessions.new.insert ⟨id,code,capacity,(∅ : TableSet ClientId).insert client ()⟩).leaveAll
      orders client).1 = Sessions.new := by
  generalize hs : Sessions.new.insert ⟨id,code,capacity,(∅ : TableSet ClientId).insert client ()⟩ = s
  have hgone : ∀ id', (s.leaveAll orders client).1.bySessId.lookup id' = none := by
    intro id'
    refine Option.eq_none_iff_forall_ne_some.mpr fun session hsession => ?_
    obtain ⟨⟨before,hbefore,rfl⟩,hoccupied⟩ := lookup_leaveAll.mp hsession
    rw [← hs,Sessions.insert] at hbefore
    rcases Table.lookup_insert_eq_some.mp hbefore with ⟨rfl,rfl⟩ | ⟨-,hnone⟩
    · have hempty : AList.erase client ((∅ : TableSet ClientId).insert client ()) = ∅ := by
        refine Table.eq_empty fun client' => ?_
        by_cases hsame : client' = client
        · rw [hsame,AList.lookup_erase]
        · rw [AList.lookup_erase_ne hsame,AList.lookup_insert_ne hsame]
          rfl
      exact hoccupied (congrArg AList.keys hempty)
    · cases hnone
  have hcodes : ∀ code', (s.leaveAll orders client).1.bySessCode.lookup code' = none := by
    intro code'
    refine Option.eq_none_iff_forall_ne_some.mpr fun id' hcode => ?_
    obtain ⟨session,hsession⟩ := Table.mem_iff.mp (lookup_code_leaveAll.mp hcode).2
    cases (hgone id').symm.trans hsession
  have hids := Table.eq_empty hgone
  have hcodes := Table.eq_empty hcodes
  generalize (s.leaveAll orders client).1 = s' at hids hcodes
  obtain ⟨bySessId,bySessCode⟩ := s'
  rw [show bySessId = ∅ from hids,show bySessCode = ∅ from hcodes]
  rfl

theorem trace_visit (n : UInt64) :
    ∃ h, trace (step allowAll) (idle n) visit = some (h,idle (n + 1)) ∧ h.filterMap createdOf = [sessionIdOf n] := by
  let online : ServerEngine Unit := { idle n with presence := (Presence.new.login 1 "alice").1 }
  let session : Session := ⟨sessionIdOf n,sixDigits 0,2,(∅ : TableSet ClientId).insert 1 ()⟩
  let hosting : ServerEngine Unit := ⟨online.presence,Sessions.new.insert session,n + 1,()⟩
  obtain ⟨out₁,hlogin⟩ : ∃ out, (idle n).step allowAll (.message 1 (.login "alice" "a") (.plain ())) =
      some (online,out) := ⟨_,rfl⟩
  have hcreate : online.step allowAll (.message 1 (.createSession 2) (.plain ())) =
      some (hosting,[⟨1, .created (sessionIdOf n) (sixDigits 0)⟩]) := rfl
  obtain ⟨out₃,hgo⟩ : ∃ out, hosting.step allowAll (.disconnect 1 (.plain ())) = some (idle (n + 1),out) := by
    have hsessions : (hosting.sessions.leaveAll (Choices.plain ()).sessions 1).1 = Sessions.new := leaveAll_single ..
    have hpresence : (hosting.presence.logout 1).1 = Presence.new := rfl
    have hstate : (hosting.handleDisconnect (.plain ()) 1).1 = idle (n + 1) := by
      rw [idle,← hsessions,← hpresence]
      rfl
    exact ⟨_,congrArg some (Prod.ext hstate rfl)⟩
  refine ⟨visit.zip [out₁,[⟨1, .created (sessionIdOf n) (sixDigits 0)⟩],out₃],?_,rfl⟩
  simp only [visit,trace,hlogin,hcreate,hgo,Option.map_some]
  rfl

theorem reaches_visits (k : ℕ) : ∃ h, Reaches (step allowAll) (new ()) h (idle (1 + UInt64.ofNat k)) ∧
      h.filterMap createdOf = (List.range k).map fun i => sessionIdOf (1 + UInt64.ofNat i) := by
  induction k with
  | zero => exact ⟨[], .init,rfl⟩
  | succ k ih =>
    obtain ⟨h,hs,hids⟩ := ih
    obtain ⟨h',htrace,hid⟩ := trace_visit (1 + UInt64.ofNat k)
    refine ⟨h ++ h',?_,?_⟩
    · rw [UInt64.ofNat_add,← UInt64.add_assoc]
      exact hs.trace htrace
    · rw [List.filterMap_append,hids,hid,List.range_succ,List.map_append]
      rfl

/-- After 2^64 sessions the counter is back where it was, and the next session gets the id of the first. -/
theorem session_ids_repeat :
    ∃ h s, Reaches (step allowAll) (new ()) h s ∧ ¬(h.filterMap createdOf).Nodup := by
  obtain ⟨h,hs,hids⟩ := reaches_visits (2 ^ 64 + 1)
  refine ⟨h,_,hs,fun hnodup => ?_⟩
  rw [hids] at hnodup
  have hsame := List.inj_on_of_nodup_map hnodup (x := 0) (y := 2 ^ 64) (by simp) (by simp) (by rfl)
  exact absurd hsame (by decide)
end ServerEngine
end RustyRtc.Signaling
