import RustyRtc.Connection.DtlsSetup
import RustyRtc.Ice.CheckList

/-! # Candidates before, in and after a description

`connection_manager/connection_manager.rs`, `ice/type_ice/ice_agent.rs` and `connection_manager/ice_worker.rs`: a
candidate that arrives on its own is only added to the list of remote candidates. The pairs are formed, and copied
for the worker thread, when a description has been applied, so one that arrives later is not checked.
-/
namespace RustyRtc.Connection
open Ice Sdp IceAgent

namespace ConnectionManager
def checked (cm : ConnectionManager) : List (Candidate × Candidate) := cm.iceAgent.candidatePairs.map (·.ends)
def targets (cm : ConnectionManager) : List (SocketAddr × SocketAddr) := cm.iceWorker.elim [] (·.targets)
def target (x : Candidate × Candidate) : Option (SocketAddr × SocketAddr) :=
  x.1.socket.map fun s => (s,x.2.address)

section
variable (v6 : Ipv6Text) {env : Surroundings} {cm : ConnectionManager} {sdp : Sdp} {out : OutboundSdp} {d : Delivery}

/-- A description, and the candidates that arrive on their own before and after it. -/
structure Delivery where
  before : List Text
  remote : Text
  after : List Text
def trickle (cm : ConnectionManager) (lines : List Text) : ConnectionManager :=
  lines.foldl (fun cm line => (cm.applyRemoteTrickleCandidate v6 line).1) cm
def trickled (lines : List Text) : List Candidate := lines.filterMap fun line => (IceAndSdp.fromStr v6 line).toOption
def described (remote : Text) : List Candidate := (Sdp.parse remote).toOption.elim [] (readCandidates v6)

namespace Delivery
def deliver (env : Surroundings) (cm : ConnectionManager) (d : Delivery) : ConnectionManager :=
  trickle v6 ((trickle v6 cm d.before).applyRemoteSdp v6 env d.remote).1 d.after
def Accepted (env : Surroundings) (cm : ConnectionManager) (d : Delivery) : Prop :=
  ((trickle v6 cm d.before).applyRemoteSdp v6 env d.remote).2.1.isOk = true
def inTime (cm : ConnectionManager) (d : Delivery) : List Candidate :=
  cm.iceAgent.remoteCandidates ++ trickled v6 d.before ++ described v6 d.remote
def candidates (d : Delivery) : List Candidate :=
  trickled v6 d.before ++ described v6 d.remote ++ trickled v6 d.after
end Delivery
def localsAtStart (env : Surroundings) (cm : ConnectionManager) : List Candidate :=
  let known := cm.iceAgent.localCandidates ++ if cm.signaling = .stable then env.hostCandidates else []
  if known.isEmpty then env.candidates else known

/-- A candidate behind the description is one that was there already, or goes with no local candidate. -/
def Delivery.Prompt (env : Surroundings) (cm : ConnectionManager) (d : Delivery) : Prop :=
  ∀ c ∈ trickled v6 d.after, c ∈ d.inTime v6 cm ∨ ∀ l ∈ cm.localsAtStart env, ¬ l.Pairs c

/-- The limit on the number of pairs is not reached. -/
def Delivery.Fits (env : Surroundings) (cm : ConnectionManager) (d : Delivery) : Prop :=
  (pairings (cm.localsAtStart env) (d.inTime v6 cm)).length ≤ cm.iceAgent.maxCandidatePairs
instance (env : Surroundings) (cm : ConnectionManager) (d : Delivery) : Decidable (d.Accepted v6 env cm) :=
  inferInstanceAs (Decidable (_ = true))
instance (env : Surroundings) (cm : ConnectionManager) (d : Delivery) : Decidable (d.Fits v6 env cm) :=
  inferInstanceAs (Decidable (_ ≤ _))

theorem trickle_eq (cm : ConnectionManager) (lines : List Text) :
    trickle v6 cm lines = { cm with iceAgent := { cm.iceAgent with
      remoteCandidates := cm.iceAgent.remoteCandidates ++ trickled v6 lines } } := by
  induction lines generalizing cm with
  | nil => rw [trickle,List.foldl_nil,trickled,List.filterMap_nil,List.append_nil]
  | cons line lines ih =>
    change trickle v6 (cm.applyRemoteTrickleCandidate v6 line).1 lines = _
    unfold applyRemoteTrickleCandidate trickled
    cases hparse : IceAndSdp.fromStr v6 line with
    | error e =>
      rw [ih,List.filterMap_cons_none (by rw [hparse]; rfl)]
      rfl
    | ok c =>
      rw [ih,List.filterMap_cons_some (by rw [hparse]; rfl)]
      simp only [addRemoteCandidate,List.append_assoc,List.singleton_append]
      rfl

structure Ready (env : Surroundings) (cm : ConnectionManager) (sdp : Sdp) (cm' : ConnectionManager) : Prop where
  localDescription : cm'.localDescription.isSome
  remoteDescription : cm'.remoteDescription = some sdp
  signaling : cm'.signaling = .stable
  localCandidates : cm'.iceAgent.localCandidates =
    cm.iceAgent.localCandidates ++ if cm.signaling = .stable then env.hostCandidates else []
  remoteCandidates : cm'.iceAgent.remoteCandidates = cm.iceAgent.remoteCandidates ++ readCandidates v6 sdp
  maxCandidatePairs : cm'.iceAgent.maxCandidatePairs = cm.iceAgent.maxCandidatePairs
  iceWorker : cm'.iceWorker = cm.iceWorker

theorem marked_candidates (agent : IceAgent) (sdp : Sdp) :
    (marked v6 agent sdp).localCandidates = agent.localCandidates ∧
      (marked v6 agent sdp).remoteCandidates = agent.remoteCandidates ++ readCandidates v6 sdp ∧
      (marked v6 agent sdp).maxCandidatePairs = agent.maxCandidatePairs := by
  obtain ⟨ufrag,pwd,h⟩ := marked_spec v6 agent sdp
  rw [h]
  exact ⟨rfl,rfl,rfl⟩

theorem ready_applyParsed (hcm : cm.Standing) (h : (cm.applyParsed v6 env sdp).2 = .ok out) :
    Ready v6 env cm sdp (cm.applyParsed v6 env sdp).1 := by
  obtain ⟨hlocals,hremotes,hmax⟩ := marked_candidates v6 cm.iceAgent sdp
  have htook := took_applyParsed v6 env cm sdp
  generalize cm.applyParsed v6 env sdp = r at h htook ⊢
  cases htook with
  | unexpected | unread => cases h
  | answered codecs hstable =>
    refine ⟨rfl,rfl,rfl,?_,hremotes,hmax,rfl⟩
    rw [if_pos hstable,← hlocals]
    rfl
  | accepted codecs hoffer =>
    have hsaid : cm.localDescription.isSome := by
      cases hcm with
      | unsaid _ hstable => rw [hoffer] at hstable; cases hstable
      | offered hlocal _ _ _ => rw [hlocal]; rfl
      | answered hlocal _ _ _ _ _ => rw [hlocal]; rfl
    refine ⟨hsaid,rfl,rfl,?_,hremotes,hmax,rfl⟩
    rw [if_neg (by rw [hoffer]; decide),List.append_nil]
    exact hlocals

theorem Ready.checked_maybeStartIce {cm' : ConnectionManager}
    (h : Ready v6 env cm sdp cm') (hfits : (pairings (cm.localsAtStart env)
      (cm.iceAgent.remoteCandidates ++ readCandidates v6 sdp)).length ≤ cm.iceAgent.maxCandidatePairs) :
    ((cm'.maybeStartIce env).1.checked.Perm
        (pairings (cm.localsAtStart env) (cm.iceAgent.remoteCandidates ++ readCandidates v6 sdp))) ∧
      (cm.iceWorker = none →
        (cm'.maybeStartIce env).1.targets = (cm'.maybeStartIce env).1.checked.filterMap target) := by
  have hready : cm'.localDescription.isSome ∧ cm'.remoteDescription.isSome ∧ cm'.signaling = .stable :=
    ⟨h.localDescription,by rw [h.remoteDescription]; rfl,h.signaling⟩
  have hdescribed : ¬ (cm'.localDescription.isNone ∨ cm'.remoteDescription.isNone) := by
    rw [h.remoteDescription]
    simp [Option.isSome_iff_ne_none.mp h.localDescription]
  -- the agent that forms the pairs
  obtain ⟨agent,hagent⟩ : ∃ agent : IceAgent, agent = if cm'.iceAgent.localCandidates.isEmpty then
      env.candidates.foldl addLocalCandidate cm'.iceAgent else cm'.iceAgent := ⟨_,rfl⟩
  have hlocals : agent.localCandidates = cm.localsAtStart env := by
    unfold localsAtStart
    dsimp only
    rw [hagent,← h.localCandidates]
    split_ifs with hempty
    · rw [foldl_addLocalCandidate,List.isEmpty_iff.mp hempty,List.nil_append]
    · rfl
  have hrest : agent.remoteCandidates = cm.iceAgent.remoteCandidates ++ readCandidates v6 sdp ∧
      agent.maxCandidatePairs = cm.iceAgent.maxCandidatePairs := by
    rw [hagent,← h.remoteCandidates,← h.maxCandidatePairs]
    split_ifs
    · rw [foldl_addLocalCandidate]
      exact ⟨rfl,rfl⟩
    · exact ⟨rfl,rfl⟩
  have hformed := @formCandidatePairs_ends agent (by rw [hlocals,hrest.1,hrest.2]; exact hfits)
  rw [hlocals,hrest.1,← startChecks_ends env.sendOk] at hformed
  have hstart : (cm'.maybeStartIce env).1 = spawnIceWorker { cm' with
      iceAgent := (agent.formCandidatePairs.1.startChecks env.sendOk).1, icePhase := .checking } := by
    rw [maybeStartIce,if_pos hready,startConnectivityChecks,if_neg hdescribed,hagent]
  rw [hstart]
  constructor
  · obtain ⟨worker,hworker⟩ := spawnIceWorker_spec { cm' with
      iceAgent := (agent.formCandidatePairs.1.startChecks env.sendOk).1, icePhase := .checking }
    rw [hworker]
    exact hformed
  · intro hnone
    rw [← h.iceWorker] at hnone
    unfold spawnIceWorker
    dsimp only
    rw [hnone]
    simp only [targets,checked,Option.elim_some,List.filterMap_map]
    rfl

theorem Delivery.checked_deliver (hcm : cm.Standing) (hok : d.Accepted v6 env cm) (hfits : d.Fits v6 env cm) :
    (d.deliver v6 env cm).checked.Perm (pairings (cm.localsAtStart env) (d.inTime v6 cm)) ∧ (cm.iceWorker = none →
        (d.deliver v6 env cm).targets = (d.deliver v6 env cm).checked.filterMap target) := by
  have hbefore := trickle_eq v6 cm d.before
  have hstanding : (trickle v6 cm d.before).Standing := by
    rw [hbefore]
    exact hcm.congr rfl rfl rfl rfl
  cases hresult : ((trickle v6 cm d.before).applyRemoteSdp v6 env d.remote).2.1 with
  | error e =>
    rw [Accepted,hresult] at hok
    cases hok
  | ok out =>
    obtain ⟨sdp,hparse,happly,happlied⟩ := applyRemoteSdp_of_ok v6 hresult
    have hdescribed : described v6 d.remote = readCandidates v6 sdp := by
      rw [described,hparse]
      rfl
    have hlocals : (trickle v6 cm d.before).localsAtStart env = cm.localsAtStart env := by rw [hbefore]; rfl
    have hremotes : (trickle v6 cm d.before).iceAgent.remoteCandidates ++ readCandidates v6 sdp =
        d.inTime v6 cm := by
      rw [hbefore,inTime,hdescribed]
    have hmax : (trickle v6 cm d.before).iceAgent.maxCandidatePairs = cm.iceAgent.maxCandidatePairs := by
      rw [hbefore]
    have hworker : (trickle v6 cm d.before).iceWorker = cm.iceWorker := by rw [hbefore]
    have hstart := (ready_applyParsed v6 hstanding happly).checked_maybeStartIce v6
      (by rw [hlocals,hremotes,hmax]; exact hfits)
    rw [hlocals,hremotes,hworker,← happlied] at hstart
    unfold deliver
    rw [trickle_eq v6 _ d.after]
    exact hstart

def Reached (cm : ConnectionManager) : Prop :=
  ∃ maxCandidatePairs credentials fingerprint uses,
    cm = (history v6 maxCandidatePairs credentials fingerprint uses).manager
theorem Reached.standing (h : cm.Reached v6) : cm.Standing := by
  obtain ⟨maxCandidatePairs,credentials,fingerprint,uses,rfl⟩ := h
  exact standing_history v6 maxCandidatePairs credentials fingerprint uses

theorem Delivery.Prompt.mem_pairings_iff (h : d.Prompt v6 env cm) {x : Candidate × Candidate} :
    x ∈ pairings (cm.localsAtStart env) (d.inTime v6 cm) ↔
      x ∈ pairings (cm.localsAtStart env) (cm.iceAgent.remoteCandidates ++ d.candidates v6) := by
  simp only [mem_pairings]
  refine and_congr_right fun hl => ⟨fun hx => ⟨?_,hx.2⟩,fun hx => ⟨?_,hx.2⟩⟩
  · rw [candidates,← List.append_assoc,← List.append_assoc]
    exact List.mem_append_left _ hx.1
  · rw [candidates,← List.append_assoc,← List.append_assoc] at hx
    rcases List.mem_append.mp hx.1 with hin | hlate
    · exact hin
    · exact (h x.2 hlate).resolve_right fun hnone => hnone x.1 hl hx.2

/-- Against a prompt delivery of the same candidates, another leads to the same checks exactly if it is prompt too;
the worker thread then sends to the same addresses. -/
theorem same_checks_iff_prompt {env : Surroundings} {cm : ConnectionManager} (hcm : cm.Reached v6) {d d' : Delivery}
    (hok : d.Accepted v6 env cm) (hok' : d'.Accepted v6 env cm) (hfits : d.Fits v6 env cm)
    (hfits' : d'.Fits v6 env cm) (hsame : ∀ c, c ∈ d.candidates v6 ↔ c ∈ d'.candidates v6)
    (hprompt' : d'.Prompt v6 env cm) :
    ((∀ x, x ∈ (d.deliver v6 env cm).checked ↔ x ∈ (d'.deliver v6 env cm).checked) ↔ d.Prompt v6 env cm) ∧
      (cm.iceWorker = none → d.Prompt v6 env cm →
        ∀ t, t ∈ (d.deliver v6 env cm).targets ↔ t ∈ (d'.deliver v6 env cm).targets) := by
  obtain ⟨hchecked,htargets⟩ := Delivery.checked_deliver v6 (hcm.standing v6) hok hfits
  obtain ⟨hchecked',htargets'⟩ := Delivery.checked_deliver v6 (hcm.standing v6) hok' hfits'
  have hall : ∀ x, x ∈ pairings (cm.localsAtStart env) (cm.iceAgent.remoteCandidates ++ d.candidates v6) ↔
      x ∈ pairings (cm.localsAtStart env) (cm.iceAgent.remoteCandidates ++ d'.candidates v6) := by
    intro x
    simp only [mem_pairings, List.mem_append, hsame]
  have hprompt : d.Prompt v6 env cm →
      ∀ x, x ∈ (d.deliver v6 env cm).checked ↔ x ∈ (d'.deliver v6 env cm).checked := by
    intro h x
    rw [hchecked.mem_iff, hchecked'.mem_iff, h.mem_pairings_iff v6, hprompt'.mem_pairings_iff v6, hall]
  refine ⟨⟨fun h c hc => ?_,hprompt⟩,fun hnone h t => ?_⟩
  · by_cases hpairs : ∀ l ∈ cm.localsAtStart env, ¬ l.Pairs c
    · exact .inr hpairs
    · -- the late candidate has a pair, which the other delivery has under check
      push Not at hpairs
      obtain ⟨l,hl,hlc⟩ := hpairs
      have hmem : (l,c) ∈ pairings (cm.localsAtStart env) (cm.iceAgent.remoteCandidates ++ d.candidates v6) :=
        mem_pairings.mpr ⟨hl,List.mem_append_right _ (List.mem_append_right _ hc),hlc⟩
      rw [hall, ← hprompt'.mem_pairings_iff v6, ← hchecked'.mem_iff, ← h, hchecked.mem_iff] at hmem
      exact .inl (mem_pairings.mp hmem).2.1
  · rw [htargets hnone, htargets' hnone]
    simp only [List.mem_filterMap, hprompt h]
end

def alone : Text := "candidate:1 1 udp 100 10.0.0.2 5000 typ host".toList
def ahead : Delivery := ⟨[alone],describing "",[]⟩
def within : Delivery := ⟨[],describing "a=candidate:1 1 udp 100 10.0.0.2 5000 typ host\n",[]⟩
def behind : Delivery := ⟨[],describing "",[alone]⟩
def oneAddress : Surroundings := Call.hostAt (.v4 10 0 0 1)

theorem same_checks_ahead : (ahead.deliver noIpv6 oneAddress fresh).checked.length = 1 ∧
    ∀ x, x ∈ (ahead.deliver noIpv6 oneAddress fresh).checked ↔
      x ∈ (within.deliver noIpv6 oneAddress fresh).checked := by
  have hcm : fresh.Reached noIpv6 := ⟨100,("ufrag","pwd"),none,[],rfl⟩
  have hnone : ∀ c, c ∉ trickled noIpv6 [] := fun _ => List.not_mem_nil
  obtain ⟨hsame,hok,hok',hfits,hfits',hone⟩ :
      ahead.candidates noIpv6 = within.candidates noIpv6 ∧
      ahead.Accepted noIpv6 oneAddress fresh ∧ within.Accepted noIpv6 oneAddress fresh ∧
      ahead.Fits noIpv6 oneAddress fresh ∧ within.Fits noIpv6 oneAddress fresh ∧
      (ahead.deliver noIpv6 oneAddress fresh).checked.length = 1 := by decide +kernel
  have hchecks := same_checks_iff_prompt noIpv6 hcm hok hok' hfits hfits' (fun c => by rw [hsame])
    fun c hc => absurd hc (hnone c)
  exact ⟨hone,hchecks.1.mpr fun c hc => absurd hc (hnone c)⟩

/-- Behind the description the candidate is not under check. -/
theorem late_candidate_not_checked :
    behind.candidates noIpv6 = within.candidates noIpv6 ∧
      behind.Accepted noIpv6 oneAddress fresh ∧ within.Accepted noIpv6 oneAddress fresh ∧
      (behind.deliver noIpv6 oneAddress fresh).checked = [] ∧
      (within.deliver noIpv6 oneAddress fresh).checked.length = 1 := by
  decide +kernel
end ConnectionManager
end RustyRtc.Connection
