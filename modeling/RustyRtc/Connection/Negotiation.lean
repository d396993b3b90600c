import RustyRtc.Connection.Exchange
import RustyRtc.Foundation.Execution
import RustyRtc.Foundation.OfferAnswer

/-! # Who is in control after a negotiation?

Two connection managers and the descriptions on their way between them, delivered in order. A manager takes
a description for an offer or an answer by its own state alone. This is the exchange of `OfferAnswer`, so
the roles end up complementary as long as nobody offers while an offer is on its way to them; two offers that
cross are both taken for answers.
-/
namespace RustyRtc.Connection
open Ice Sdp OfferAnswer ConnectionManager

namespace ConnectionManager
variable {cm : ConnectionManager} {a : IceAgent} {remote : Text} {sdp : Sdp}
def party (cm : ConnectionManager) : Party :=
  ⟨cm.signaling = .haveLocalOffer,cm.iceAgent.role = .controlling,cm.remoteDescription.isSome⟩
theorem party_congr {cm' : ConnectionManager} (hrole : cm'.iceAgent.role = cm.iceAgent.role)
    (hsignaling : cm'.signaling = cm.signaling) (hremote : cm'.remoteDescription = cm.remoteDescription) :
    cm'.party = cm.party := by
  rw [party,hrole,hsignaling,hremote,party]
def identity (a : IceAgent) : IceRole × String × String := (a.role,a.ufrag,a.pwd)

theorem Plain.congr {cm' : ConnectionManager} (h : cm.Plain)
    (hagent : (identity cm'.iceAgent).2 = (identity cm.iceAgent).2)
    (hfingerprint : cm'.localFingerprint = cm.localFingerprint) (hcodecs : cm'.localCodecs = cm.localCodecs) :
    cm'.Plain := by
  obtain ⟨hufrag,hpwd⟩ := Prod.mk.inj hagent
  refine ⟨?_,?_,?_,?_⟩
  · rw [hufrag]
    exact h.ufrag
  · rw [hpwd]
    exact h.pwd
  · rw [hfingerprint]
    exact h.fingerprint
  · rw [hcodecs]
    exact h.codecs
theorem role_congr {b : IceAgent} (h : identity a = identity b) : a.role = b.role := (Prod.mk.inj h).1
variable (v6 : Ipv6Text)
theorem identity_foldl_addLocalCandidate (cs : List Candidate) (a : IceAgent) :
    identity (cs.foldl IceAgent.addLocalCandidate a) = identity a := by
  rw [foldl_addLocalCandidate]
  rfl
theorem buildLocalSdp_spec (env : Surroundings) (cm : ConnectionManager) :
    ∃ agent, (cm.buildLocalSdp v6 env).1 = { cm with iceAgent := agent } ∧ identity agent = identity cm.iceAgent :=
  ⟨_,rfl,identity_foldl_addLocalCandidate env.hostCandidates cm.iceAgent⟩
theorem spawnIceWorker_spec (cm : ConnectionManager) :
    ∃ worker, cm.spawnIceWorker = { cm with iceWorker := worker } := by
  unfold spawnIceWorker
  split
  · exact ⟨cm.iceWorker,rfl⟩
  · exact ⟨_,rfl⟩

theorem maybeStartIce_spec (env : Surroundings) (cm : ConnectionManager) :
    ∃ agent phase worker, (cm.maybeStartIce env).1 = { cm with iceAgent := agent,icePhase := phase,iceWorker := worker } ∧
      identity agent = identity cm.iceAgent := by
  unfold maybeStartIce
  split
  · unfold startConnectivityChecks
    split
    · exact ⟨_,_,_,rfl,rfl⟩
    · obtain ⟨worker,hworker⟩ := spawnIceWorker_spec { cm with
        iceAgent := ((if cm.iceAgent.localCandidates.isEmpty then
          env.candidates.foldl IceAgent.addLocalCandidate cm.iceAgent
          else cm.iceAgent).formCandidatePairs.1.startChecks env.sendOk).1
        icePhase := .checking }
      refine ⟨_,_,worker,hworker,?_⟩
      split
      · exact identity_foldl_addLocalCandidate env.candidates cm.iceAgent
      · rfl
  · exact ⟨_,_,_,rfl,rfl⟩

theorem Plain.maybeStartIce (h : cm.Plain) (env : Surroundings) : (cm.maybeStartIce env).1.Plain := by
  obtain ⟨agent,phase,worker,hcm,hagent⟩ := maybeStartIce_spec env cm
  rw [hcm]
  exact h.congr (congrArg Prod.snd hagent) rfl rfl

inductive Negotiated (cm : ConnectionManager) : ConnectionManager → Except ConnectionError OutboundSdp → Prop
  | offered {cm' sdp} : cm.signaling = .stable → cm'.signaling = .haveLocalOffer →
      cm'.party = ⟨true,true,cm.party.informed⟩ → Negotiated cm cm' (.ok (.offer sdp))
  | waiting : cm.signaling = .haveLocalOffer → Negotiated cm cm (.ok .none)

theorem negotiated (env : Surroundings) (h : cm.Steady) :
    Negotiated cm (cm.negotiate v6 env).1 (cm.negotiate v6 env).2 := by
  unfold negotiate
  rcases h with h | h
  · rw [h]
    obtain ⟨agent,hcm,hrole⟩ := buildLocalSdp_spec v6 env cm
    dsimp only
    rw [hcm]
    exact .offered h rfl rfl
  · rw [h]
    exact .waiting h

inductive Applied (cm : ConnectionManager) (remote : Text) :
    ConnectionManager → Except ConnectionError OutboundSdp → Prop
  | refused {cm' e} : cm'.signaling = cm.signaling → cm'.party = cm.party → Applied cm remote cm' (.error e)
  | answered {cm' sdp} : cm.signaling = .stable → cm'.signaling = .stable →
      cm'.party = ⟨false,readsIceLite remote,true⟩ → Applied cm remote cm' (.ok (.answer sdp))
  | accepted {cm'} : cm.signaling = .haveLocalOffer → cm'.signaling = .stable →
      cm'.party = ⟨false,cm.party.controlling,true⟩ → Applied cm remote cm' (.ok .none)

theorem Applied.maybeStartIce {cm' : ConnectionManager} {out : OutboundSdp} (env : Surroundings)
    (h : Applied cm remote cm' (.ok out)) : Applied cm remote (cm'.maybeStartIce env).1 (.ok out) := by
  obtain ⟨agent,phase,worker,hcm,hagent⟩ := maybeStartIce_spec env cm'
  rw [hcm]
  have hparty : ({ cm' with iceAgent := agent,icePhase := phase,iceWorker := worker } : ConnectionManager).party =
      cm'.party := party_congr (role_congr hagent) rfl rfl
  cases h with
  | answered h₁ h₂ h₃ => exact .answered h₁ h₂ (hparty.trans h₃)
  | accepted h₁ h₂ h₃ => exact .accepted h₁ h₂ (hparty.trans h₃)

theorem applied (env : Surroundings) (cm : ConnectionManager) (remote : Text) :
    Applied cm remote (cm.applyRemoteSdp v6 env remote).1 (cm.applyRemoteSdp v6 env remote).2.1 := by
  unfold applyRemoteSdp
  split
  · exact .refused rfl rfl
  · next sdp hsdp =>
    have hlite : readsIceLite remote = iceLite sdp := by rw [readsIceLite,hsdp]
    have hparsed : Applied cm remote (cm.applyParsed v6 env sdp).1 (cm.applyParsed v6 env sdp).2 := by
      have htook := took_applyParsed v6 env cm sdp
      generalize cm.applyParsed v6 env sdp = r at htook ⊢
      cases htook with
      | unexpected => exact .refused rfl rfl
      | unread => exact .refused rfl (party_congr (marked_role v6 cm.iceAgent sdp) rfl rfl)
      | answered codecs hstable =>
        refine .answered hstable rfl ?_
        rw [hlite]
        unfold party answering
        cases iceLite sdp <;> rfl
      | accepted codecs hoffer =>
        refine .accepted hoffer rfl ?_
        unfold party taking
        dsimp only
        rw [marked_role]
        rfl
    split
    · next cm₁ e h₁ =>
      rw [h₁] at hparsed
      exact hparsed
    · next cm₁ out h₁ =>
      rw [h₁] at hparsed
      exact hparsed.maybeStartIce env

theorem handleIncomingPacket_identity (sendOk : SocketAddr → SocketAddr → Bool) (a : IceAgent) (packet : Bytes)
    (fromAddr : SocketAddr) : identity (a.handleIncomingPacket sendOk packet fromAddr).1 = identity a := by
  unfold IceAgent.handleIncomingPacket
  split
  · rfl
  · split
    · split
      · rfl
      · dsimp only
        split <;> rfl
    · split
      · dsimp only
        split <;> rfl
      · rfl

theorem handlePackets_identity (sendOk : SocketAddr → SocketAddr → Bool) (packets : List (Bytes × SocketAddr))
    (agent : IceAgent) : identity (handlePackets sendOk agent packets).1 = identity agent := by
  have hfold : ∀ r : IceAgent × List Datagram, identity (packets.foldl (fun r p =>
      let handled := r.1.handleIncomingPacket sendOk p.1 p.2
      (handled.1,r.2 ++ handled.2)) r).1 = identity r.1 := by
    induction packets with
    | nil => exact fun _ => rfl
    | cons p packets ih => exact fun r => (ih _).trans (handleIncomingPacket_identity sendOk r.1 p.1 p.2)
  exact hfold (agent,[])

theorem drainIceEvents_spec (sendOk : SocketAddr → SocketAddr → Bool) (packets : List (Bytes × SocketAddr))
    (cm : ConnectionManager) : ∃ agent phase worker, (cm.drainIceEvents sendOk packets).1 =
      { cm with iceAgent := agent,icePhase := phase,iceWorker := worker } ∧ identity agent = identity cm.iceAgent := by
  have hagent : identity (if cm.iceWorker.isSome then handlePackets sendOk cm.iceAgent packets
      else (cm.iceAgent,[])).1 = identity cm.iceAgent := by
    split
    · exact handlePackets_identity sendOk packets cm.iceAgent
    · rfl
  unfold drainIceEvents
  generalize (if cm.iceWorker.isSome then handlePackets sendOk cm.iceAgent packets else (cm.iceAgent,[])) = handled
    at hagent
  dsimp only
  split
  · exact ⟨_,_,_,rfl,hagent⟩
  · exact ⟨_,_,_,rfl,hagent⟩
end ConnectionManager

structure Message where
  kind : Kind
  text : Text
  deriving DecidableEq, Repr
def outbound : Except ConnectionError OutboundSdp → List Message
  | .ok (.offer sdp) => [⟨.offer,sdp.encode⟩]
  | .ok (.answer sdp) => [⟨.answer,sdp.encode⟩]
  | _ => []

namespace ConnectionManager
variable {cm : ConnectionManager} {env : Surroundings} (v6 : Ipv6Text)
theorem plain_negotiate (henv : env.Plain v6) (h : cm.Plain) : (cm.negotiate v6 env).1.Plain ∧
    ∀ m ∈ outbound (cm.negotiate v6 env).2, readsIceLite m.text = false := by
  unfold negotiate
  cases cm.signaling with
  | stable =>
    obtain ⟨agent,hcm,hagent⟩ := buildLocalSdp_spec v6 env cm
    have hown := congrArg Prod.snd hagent
    dsimp only
    rw [hcm]
    exact ⟨h.congr hown rfl rfl,List.forall_mem_singleton.mpr (readsIceLite_buildLocalSdp v6 henv h)⟩
  | haveLocalOffer => exact ⟨h,by simp [outbound]⟩
  | haveRemoteOffer => exact ⟨h,by simp [outbound]⟩
  | closed => exact ⟨h,by simp [outbound]⟩

theorem plain_applyRemoteSdp (henv : env.Plain v6) (h : cm.Plain) (remote : Text) :
    (cm.applyRemoteSdp v6 env remote).1.Plain ∧
      ∀ m ∈ outbound (cm.applyRemoteSdp v6 env remote).2.1, readsIceLite m.text = false := by
  unfold applyRemoteSdp
  split
  · exact ⟨h,by simp [outbound]⟩
  · next sdp _ =>
    have hagent : (identity (marked v6 cm.iceAgent sdp)).2 = (identity cm.iceAgent).2 := by
      obtain ⟨ufrag,pwd,hmarked⟩ := marked_spec v6 cm.iceAgent sdp
      rw [hmarked]
      rfl
    have htook := took_applyParsed v6 env cm sdp
    generalize cm.applyParsed v6 env sdp = r at htook ⊢
    cases htook with
    | unexpected => exact ⟨h,by simp [outbound]⟩
    | unread => exact ⟨h.congr hagent rfl rfl,by simp [outbound]⟩
    | answered codecs =>
      have hanswering : (cm.answering v6 env sdp codecs).Plain := h.congr hagent rfl rfl
      have hreceiving : (cm.receiving v6 sdp codecs).Plain := h.congr hagent rfl rfl
      exact ⟨hanswering.maybeStartIce env,List.forall_mem_singleton.mpr (readsIceLite_buildLocalSdp v6 henv hreceiving)⟩
    | accepted codecs =>
      have htaking : ConnectionManager.Plain { cm.taking v6 sdp codecs with signaling := .stable } :=
        h.congr hagent rfl rfl
      exact ⟨htaking.maybeStartIce env,by simp [outbound]⟩
end ConnectionManager

/-- Two managers, and the descriptions on their way to each in the order they were sent. -/
structure Call where
  manager : Peer → ConnectionManager
  inbox : Peer → List Message
inductive Act where
  | negotiate (p : Peer) (env : Surroundings)
  | deliver (p : Peer) (env : Surroundings)
  | setLocalRtpCodecs (p : Peer) (codecs : List CodecDescriptor)
  | drainIceEvents (p : Peer) (sendOk : SocketAddr → SocketAddr → Bool) (packets : List (Bytes × SocketAddr))

namespace Call
variable {cm : ConnectionManager} {s : Call} {a : Act}
def start (maxCandidatePairs : Peer → ℕ) (credentials : Peer → String × String) (fingerprint : Peer → Option Text) :
    Call :=
  ⟨fun p => .new (maxCandidatePairs p) (credentials p) (fingerprint p),fun _ => []⟩
def put (s : Call) (p : Peer) (cm : ConnectionManager) (inbox sent : List Message) : Call where
  manager q := if q = p then cm else s.manager q
  inbox q := if q = p then inbox else s.inbox q ++ sent

variable (v6 : Ipv6Text)
def step (s : Call) : Act → Call
  | .negotiate p env =>
    let r := (s.manager p).negotiate v6 env
    s.put p r.1 (s.inbox p) (outbound r.2)
  | .deliver p env =>
    match s.inbox p with
    | [] => s
    | m :: rest =>
      let r := (s.manager p).applyRemoteSdp v6 env m.text
      s.put p r.1 rest (outbound r.2.1)
  | .setLocalRtpCodecs p codecs => s.put p ((s.manager p).setLocalRtpCodecs codecs) (s.inbox p) []
  | .drainIceEvents p sendOk packets => s.put p ((s.manager p).drainIceEvents sendOk packets).1 (s.inbox p) []

/-- Nobody offers while an offer is on its way to them, and no offer is read as that of an ICE-lite peer. -/
def Careful (s : Call) : Act → Prop
  | .negotiate p _ => (s.manager p).signaling = .stable → ∀ m ∈ s.inbox p, m.kind ≠ .offer
  | .deliver p _ => (s.manager p).signaling = .stable → ∀ m ∈ (s.inbox p).take 1, readsIceLite m.text = false
  | _ => True
instance (s : Call) : DecidablePred s.Careful
  | .negotiate _ _ => inferInstanceAs (Decidable (_ → _))
  | .deliver _ _ => inferInstanceAs (Decidable (_ → _))
  | .setLocalRtpCodecs _ _ => isTrue trivial
  | .drainIceEvents _ _ _ => isTrue trivial
/-- Nobody offers while an offer is on its way to them, and what a manager is given to describe is one line each. -/
def Uncrossed (s : Call) : Act → Prop
  | .negotiate p env =>
    env.Plain v6 ∧ ((s.manager p).signaling = .stable → ∀ m ∈ s.inbox p, m.kind ≠ .offer)
  | .deliver _ env => env.Plain v6
  | .setLocalRtpCodecs _ codecs => ∀ d ∈ codecs, d.Plain
  | .drainIceEvents _ _ _ => True
def Plain (s : Call) : Prop := ∀ p, (s.manager p).Plain ∧ ∀ m ∈ s.inbox p, readsIceLite m.text = false

theorem Plain.put {inbox sent : List Message} {p : Peer} (h : s.Plain) (hcm : cm.Plain) (hinbox : inbox ⊆ s.inbox p)
    (hsent : ∀ m ∈ sent, readsIceLite m.text = false) : (s.put p cm inbox sent).Plain := by
  intro q
  obtain ⟨hq,htexts⟩ := h q
  by_cases hqp : q = p
  · subst hqp
    simpa [Call.put] using ⟨hcm,fun m hm => htexts m (hinbox hm)⟩
  · simp only [Call.put,if_neg hqp]
    exact ⟨hq,fun m hm => (List.mem_append.mp hm).elim (htexts m) (hsent m)⟩

theorem Plain.step (h : s.Plain) (ha : s.Uncrossed v6 a) : (s.step v6 a).Plain := by
  cases a with
  | negotiate p env =>
    obtain ⟨hcm,hsent⟩ := plain_negotiate v6 ha.1 (h p).1
    exact h.put hcm (List.Subset.refl _) hsent
  | deliver p env =>
    simp only [Call.step]
    cases hinbox : s.inbox p with
    | nil => exact h
    | cons m rest =>
      obtain ⟨hcm,hsent⟩ := plain_applyRemoteSdp v6 ha (h p).1 m.text
      exact h.put hcm (by rw [hinbox]; exact List.subset_cons_self _ _) hsent
  | setLocalRtpCodecs p codecs =>
    exact h.put ⟨(h p).1.ufrag,(h p).1.pwd,(h p).1.fingerprint,ha⟩ (List.Subset.refl _) (by simp)
  | drainIceEvents p sendOk packets =>
    obtain ⟨agent,phase,worker,hcm,hagent⟩ := drainIceEvents_spec sendOk packets (s.manager p)
    refine h.put ?_ (List.Subset.refl _) (by simp)
    rw [hcm]
    exact (h p).1.congr (congrArg Prod.snd hagent) rfl rfl

/-- Managers that describe themselves in texts of one line each need no more for a careful run than that nobody offers
while an offer is on its way to them. -/
theorem careful_of_uncrossed {acts : List Act} (h : Along (step v6) (Uncrossed v6) s acts) (hs : s.Plain) :
    Along (step v6) Careful s acts := by
  refine h.imp_of_invariant (fun _ _ hs ha => hs.step v6 ha) (fun s a hs ha => ?_) hs
  cases a with
  | negotiate p env => exact ha.2
  | deliver p env => exact fun _ m hm => (hs p).2 m (List.mem_of_mem_take hm)
  | setLocalRtpCodecs p codecs => trivial
  | drainIceEvents p sendOk packets => trivial
def Settled (s : Call) : Prop := ∀ p, (s.manager p).signaling = .stable ∧ (s.manager p).localDescription.isSome ∧
  (s.manager p).remoteDescription.isSome ∧ s.inbox p = []
instance (s : Call) : Decidable s.Settled := inferInstanceAs (Decidable (∀ _ : Peer, _))
def exchange (s : Call) : Exchange := ⟨fun p => (s.manager p).party,fun p => (s.inbox p).map (·.kind)⟩

theorem exchange_put (s : Call) (p : Peer) (cm : ConnectionManager) (inbox sent : List Message) :
    (s.put p cm inbox sent).exchange = s.exchange.put p cm.party (inbox.map (·.kind)) (sent.map (·.kind)) := by
  simp only [exchange,put,Exchange.put,Exchange.mk.injEq]
  constructor
  · funext q
    split <;> rfl
  · funext q
    split
    · rfl
    · exact List.map_append

theorem exchange_put_quiet (s : Call) {p : Peer} (h : cm.party = (s.manager p).party) :
    (s.put p cm (s.inbox p) []).exchange = s.exchange := by
  rw [exchange_put,h]
  simp only [Exchange.put,exchange,Exchange.mk.injEq,List.map_nil,List.append_nil]
  constructor
  · funext q
    split
    · next hq => rw [hq]
    · rfl
  · funext q
    split
    · next hq => rw [hq]
    · rfl

def Steady (s : Call) : Prop := ∀ p, (s.manager p).Steady
theorem Steady.put (h : s.Steady) (p : Peer) (hcm : cm.Steady)
    (inbox sent : List Message) : (s.put p cm inbox sent).Steady := by
  intro q
  by_cases hq : q = p
  · simpa [Call.put,hq] using hcm
  · simpa [Call.put,hq] using h q
theorem not_offering (h : cm.signaling = .stable) : cm.party.offering = false := by
  simp [ConnectionManager.party,h]

/-- A careful call moves as the exchange does, or the exchange does not see it. -/
theorem step_simulates (hs : s.Steady) (ha : s.Careful a) :
    (s.step v6 a).Steady ∧ ((s.step v6 a).exchange = s.exchange ∨ s.exchange.Step (s.step v6 a).exchange) := by
  cases a with
  | negotiate p env =>
    have hnegotiated := negotiated v6 env (hs p)
    simp only [step]
    generalize (s.manager p).negotiate v6 env = r at hnegotiated
    obtain ⟨cm,out⟩ := r
    dsimp only at hnegotiated ⊢
    cases hnegotiated with
    | offered hstable hoffer hparty =>
      refine ⟨hs.put p (.inr hoffer) _ _, .inr ⟨p,_,_,_, .offer (not_offering hstable) ?_,?_⟩⟩
      · intro hmem
        obtain ⟨m,hm,hkind⟩ := List.mem_map.mp hmem
        exact ha hstable m hm hkind
      · rw [exchange_put,hparty]
        rfl
    | waiting hoffer => exact ⟨hs.put p (.inr hoffer) _ _, .inl (exchange_put_quiet s rfl)⟩
  | deliver p env =>
    simp only [step]
    cases hinbox : s.inbox p with
    | nil => exact ⟨hs, .inl rfl⟩
    | cons m rest =>
      have happlied := ConnectionManager.applied v6 env (s.manager p) m.text
      have hin : s.exchange.inbox p = m.kind :: rest.map (·.kind) := by
        simp only [exchange,hinbox,List.map_cons]
      dsimp only
      generalize (s.manager p).applyRemoteSdp v6 env m.text = r at happlied
      obtain ⟨cm,out,sent⟩ := r
      dsimp only at happlied ⊢
      have hput := exchange_put s p cm rest (outbound out)
      cases happlied with
      | refused hsignaling hparty =>
        refine ⟨hs.put p (by rw [ConnectionManager.Steady,hsignaling]; exact hs p) _ _, .inr ⟨p,_,_,_,?_,hput⟩⟩
        rw [hin,hparty]
        exact .refuse
      | answered hstable hstable' hparty =>
        have hlite : readsIceLite m.text = false := ha hstable m (by simp [hinbox])
        refine ⟨hs.put p (.inl hstable') _ _, .inr ⟨p,_,_,_,?_,hput⟩⟩
        rw [hin,hparty,hlite]
        exact .answer (not_offering hstable)
      | accepted hoffer hstable hparty =>
        refine ⟨hs.put p (.inl hstable) _ _, .inr ⟨p,_,_,_,?_,hput⟩⟩
        rw [hin,hparty]
        exact .accept (decide_eq_true hoffer)
  | setLocalRtpCodecs p codecs =>
    have hsteady : ((s.manager p).setLocalRtpCodecs codecs).Steady := hs p
    exact ⟨hs.put p hsteady _ _, .inl (exchange_put_quiet s rfl)⟩
  | drainIceEvents p sendOk packets =>
    obtain ⟨agent,phase,worker,hcm,hagent⟩ :=
      drainIceEvents_spec sendOk packets (s.manager p)
    have hsteady : ((s.manager p).drainIceEvents sendOk packets).1.Steady := by rw [hcm]; exact hs p
    have hparty : ((s.manager p).drainIceEvents sendOk packets).1.party = (s.manager p).party := by
      rw [hcm]
      exact party_congr (role_congr hagent) rfl rfl
    exact ⟨hs.put p hsteady _ _, .inl (exchange_put_quiet s hparty)⟩

theorem step_orderly (hs : s.Steady ∧ s.exchange.Orderly) (ha : s.Careful a) :
    (s.step v6 a).Steady ∧ (s.step v6 a).exchange.Orderly := by
  obtain ⟨hsteady,hsame | hstep⟩ := step_simulates v6 hs.1 ha
  · exact ⟨hsteady,hsame ▸ hs.2⟩
  · exact ⟨hsteady,hs.2.step hstep⟩
end Call

inductive DtlsRole where
  | client
  | server
  deriving DecidableEq, Repr
def dtlsRole : IceRole → DtlsRole
  | .controlling => .server
  | .controlled => .client

namespace Call
def role (s : Call) (p : Peer) : IceRole := (s.manager p).iceAgent.role

/-- After a careful run that has settled, exactly one manager is in control, and the roles in the DTLS
handshake differ. -/
theorem roles_complementary (v6 : Ipv6Text) {maxCandidatePairs : Peer → ℕ} {credentials : Peer → String × String}
    {fingerprint : Peer → Option Text} {acts : List Act}
    (hcareful : Along (step v6) Careful (start maxCandidatePairs credentials fingerprint) acts)
    (hsettled : (acts.foldl (step v6) (start maxCandidatePairs credentials fingerprint)).Settled) :
    ∃ p, (acts.foldl (step v6) (start maxCandidatePairs credentials fingerprint)).role p = .controlling ∧
      (acts.foldl (step v6) (start maxCandidatePairs credentials fingerprint)).role p.other = .controlled ∧
      dtlsRole ((acts.foldl (step v6) (start maxCandidatePairs credentials fingerprint)).role p) ≠
        dtlsRole ((acts.foldl (step v6) (start maxCandidatePairs credentials fingerprint)).role p.other) := by
  have hstart : (start maxCandidatePairs credentials fingerprint).Steady ∧
      (start maxCandidatePairs credentials fingerprint).exchange.Orderly :=
    ⟨fun _ => .inl rfl,Exchange.orderly_start⟩
  obtain ⟨-,horderly⟩ := hcareful.invariant (I := fun s => s.Steady ∧ s.exchange.Orderly)
    (fun _ _ hs ha => step_orderly v6 hs ha) hstart
  generalize acts.foldl (step v6) (start maxCandidatePairs credentials fingerprint) = s at hsettled horderly
  have hexchange : s.exchange.Settled := by
    intro p
    obtain ⟨hstable,-,hremote,hinbox⟩ := hsettled p
    exact ⟨not_offering hstable,by simp [exchange,hinbox],hremote⟩
  have hne : decide (s.role .caller = .controlling) ≠ decide (s.role .callee = .controlling) :=
    horderly.controlling_ne hexchange
  cases hcaller : s.role .caller with
  | controlling =>
    cases hcallee : s.role .callee with
    | controlling => simp [hcaller,hcallee] at hne
    | controlled => exact ⟨.caller,hcaller,hcallee,by simp [Peer.other,hcaller,hcallee,dtlsRole]⟩
  | controlled =>
    cases hcallee : s.role .callee with
    | controlling => exact ⟨.callee,hcallee,hcaller,by simp [Peer.other,hcaller,hcallee,dtlsRole]⟩
    | controlled => simp [hcaller,hcallee] at hne

def hostAt (ip : IpAddr) : Surroundings :=
  let host : Candidate := ⟨"1",1,"udp",2130706431,⟨ip,5000⟩, .host,none,some ⟨ip,5000⟩⟩
  ⟨[host],[host],3908988800,fun _ _ => true⟩
def freshCall : Call := start (fun _ => 100) (fun _ => ("ufrag","pwd")) fun _ => some "5C:0A".toList
def oneOffer : List Act :=
  [.negotiate .caller (hostAt (.v4 10 0 0 1)), .deliver .callee (hostAt (.v4 10 0 0 2)),
    .deliver .caller (hostAt (.v4 10 0 0 1))]

theorem roles_complementary_one_offer : (oneOffer.foldl (step noIpv6) freshCall).Settled ∧
    ∃ p, (oneOffer.foldl (step noIpv6) freshCall).role p = .controlling ∧
      (oneOffer.foldl (step noIpv6) freshCall).role p.other = .controlled ∧
      dtlsRole ((oneOffer.foldl (step noIpv6) freshCall).role p) ≠
        dtlsRole ((oneOffer.foldl (step noIpv6) freshCall).role p.other) := by
  have hsettled : (oneOffer.foldl (step noIpv6) freshCall).Settled := by decide +kernel
  have hplain : freshCall.Plain := by
    have htexts : OneLine "ufrag".toList ∧ OneLine "pwd".toList ∧ OneLine "5C:0A".toList := by decide
    exact fun p => ⟨⟨htexts.1,htexts.2.1,htexts.2.2,fun _ hd => absurd hd List.not_mem_nil⟩,
      fun _ hm => absurd hm List.not_mem_nil⟩
  have henv : (hostAt (.v4 10 0 0 1)).Plain noIpv6 ∧ (hostAt (.v4 10 0 0 2)).Plain noIpv6 := by
    unfold Surroundings.Plain
    decide +kernel
  have huncrossed : Along (step noIpv6) (Uncrossed noIpv6) freshCall oneOffer :=
    ⟨⟨henv.1,fun _ _ hm => absurd hm List.not_mem_nil⟩,henv.2,henv.1,trivial⟩
  exact ⟨hsettled,roles_complementary noIpv6 (careful_of_uncrossed noIpv6 huncrossed hplain) hsettled⟩

/-- Both offer at the same time, and each takes the other's offer for an answer. -/
def crossingOffers : List Act :=
  [.negotiate .caller (hostAt (.v4 10 0 0 1)), .negotiate .callee (hostAt (.v4 10 0 0 2)),
    .deliver .callee (hostAt (.v4 10 0 0 2)), .deliver .caller (hostAt (.v4 10 0 0 1))]
theorem crossing_offers_conflict : (crossingOffers.foldl (step noIpv6) freshCall).Settled ∧
    ∀ p, (crossingOffers.foldl (step noIpv6) freshCall).role p = .controlling ∧
      dtlsRole ((crossingOffers.foldl (step noIpv6) freshCall).role p) = .server := by
  decide +kernel
end Call
end RustyRtc.Connection
