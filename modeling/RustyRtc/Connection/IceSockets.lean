import Mathlib.Data.List.Forall2
import RustyRtc.Connection.Manager
import RustyRtc.Ice.Nomination

/-! # The socket a check comes in on

`connection_manager/ice_worker.rs`: the worker thread reads all sockets and hands over each datagram with the
address it came from, but not with the socket it arrived on. The agent then takes the first pair with that
address. The pair that succeeds is the one that was checked as long as answers arrive on the socket of the first
pair with their address.
-/
namespace RustyRtc.Connection
open Ice
variable {a₀ a : IceAgent} {seen : List IcePacket} {seen' : List IcePacket} {p : CandidatePair} {x : IcePacket}
variable {cm : ConnectionManager}
structure IcePacket where
  socket : SocketAddr
  fromAddr : SocketAddr
  payload : Bytes
  deriving DecidableEq, Repr
def workerSockets (agent : IceAgent) : List SocketAddr := agent.localCandidates.filterMap (·.socket)

/-- What the worker hands over: its buffer holds 1500 bytes. -/
def handedOver (sockets : List SocketAddr) (arrivals : List IcePacket) : List (Bytes × SocketAddr) :=
  (arrivals.filter (·.socket ∈ sockets)).map fun x => (x.payload.take 1500,x.fromAddr)
structure Poll where
  sendOk : SocketAddr → SocketAddr → Bool
  arrivals : List IcePacket
def ConnectionManager.poll (sockets : List SocketAddr) (cm : ConnectionManager) (x : Poll) : ConnectionManager :=
  (cm.drainIceEvents x.sendOk (handedOver sockets x.arrivals)).1

/-- A payload that completes a check: a response or, at the controlled agent, a nomination. -/
def Completes (role : IceRole) (payload : Bytes) : Prop :=
  payload = BINDING_RESPONSE ∨ role = .controlled ∧ payload = NOMINATION_REQUEST
instance (role : IceRole) (payload : Bytes) : Decidable (Completes role payload) :=
  inferInstanceAs (Decidable (_ ∨ _))

theorem completes_take {role : IceRole} {payload : Bytes} :
    Completes role (payload.take 1500) ↔ Completes role payload := by
  have hcut : ∀ c : Bytes, c.length < 1500 → (payload.take 1500 = c ↔ payload = c) := by
    intro c hc
    by_cases hlong : 1500 ≤ payload.length
    · have hlength : (payload.take 1500).length = 1500 := List.length_take_of_le hlong
      constructor
      · rintro rfl
        omega
      · rintro rfl
        omega
    · rw [List.take_of_length_le (by omega)]
  rw [Completes,hcut _ (by decide +kernel),hcut _ (by decide +kernel),Completes]

/-- The entry of a pair after some arrivals: it has not succeeded, or had before, or is the one an arrival from its
address is for. -/
structure Followed (a₀ : IceAgent) (seen : List IcePacket) (p q : CandidatePair) : Prop where
  localCand : q.localCand = p.localCand
  remote : q.remote = p.remote
  why : q.state = .succeeded → p.state = .succeeded ∨ ∃ x ∈ seen, Completes a₀.role x.payload ∧
    p.remote.address = x.fromAddr ∧ a₀.route x.fromAddr = some (p.addresses,p.localCand.socket)
theorem Followed.mono (hseen : seen ⊆ seen') {q : CandidatePair}
    (h : Followed a₀ seen p q) : Followed a₀ seen' p q := by
  refine ⟨h.localCand,h.remote,fun hq => (h.why hq).imp_right ?_⟩
  rintro ⟨x,hx,hwhy⟩
  exact ⟨x,hseen hx,hwhy⟩

structure After (a₀ : IceAgent) (seen : List IcePacket) (a : IceAgent) : Prop where
  routes : IceAgent.SameRoutes a a₀
  entries : List.Forall₂ (Followed a₀ seen) a₀.candidatePairs a.candidatePairs
theorem After.mono (hseen : seen ⊆ seen') (h : After a₀ seen a) :
    After a₀ seen' a := ⟨h.routes,h.entries.imp fun _ _ hf => hf.mono hseen⟩
theorem sameRoutes_handleIncomingPacket (sendOk : SocketAddr → SocketAddr → Bool) (a : IceAgent) (packet : Bytes)
    (fromAddr : SocketAddr) : IceAgent.SameRoutes (a.handleIncomingPacket sendOk packet fromAddr).1 a := by
  cases IceAgent.handled sendOk a packet fromAddr with
  | kept hsame | nominates _ _ _ hsame | accepts _ _ _ hsame => exact hsame

theorem After.moved (h : After a₀ seen a) (hx : x ∈ seen)
    (hcompletes : Completes a₀.role x.payload) {front back : List CandidatePair} {p' : CandidatePair}
    (hentry : IceAgent.Entry a.candidatePairs front p back) (haddr : p.remote.address = x.fromAddr)
    (hlocal : p'.localCand = p.localCand) (hremote : p'.remote = p.remote) :
    List.Forall₂ (Followed a₀ seen) a₀.candidatePairs (front ++ p' :: back) := by
  have hentries := h.entries
  rw [hentry.pairs] at hentries
  have hfront := List.forall₂_take_append _ front (p :: back) hentries
  obtain ⟨p₀,back₀,hp,hback,hdrop⟩ :=
    List.forall₂_cons_right_iff.mp (List.forall₂_drop_append _ front (p :: back) hentries)
  rw [← List.take_append_drop front.length a₀.candidatePairs,hdrop]
  refine List.rel_append hfront (.cons ⟨hlocal.trans hp.localCand,hremote.trans hp.remote,fun _ => .inr ?_⟩ hback)
  have hroute : a.route x.fromAddr = some (p.addresses,p.localCand.socket) := by
    rw [IceAgent.route,← haddr,hentry.pairFor]
    rfl
  refine ⟨x,hx,hcompletes,?_,?_⟩
  · rw [← hp.remote,haddr]
  · rw [← h.routes.route,hroute,CandidatePair.addresses,CandidatePair.addresses,hp.localCand,hp.remote]

theorem After.packet (h : After a₀ seen a) (hx : x ∈ seen) (sendOk : SocketAddr → SocketAddr → Bool) :
    After a₀ seen (a.handleIncomingPacket sendOk (x.payload.take 1500) x.fromAddr).1 := by
  refine ⟨(sameRoutes_handleIncomingPacket ..).trans h.routes,?_⟩
  have hprogress := IceAgent.progress sendOk a (x.payload.take 1500) x.fromAddr
  generalize a.nomineeFor (x.payload.take 1500) x.fromAddr = nominee at hprogress
  generalize (a.handleIncomingPacket sendOk (x.payload.take 1500) x.fromAddr).1 = b at hprogress
  cases hprogress with
  | kept => exact h.entries
  | checked hentry haddr hpacket _ _ hb =>
    subst hb
    exact h.moved hx (completes_take.mp (.inl hpacket)) hentry haddr rfl rfl
  | nominated hentry haddr hwhy hb =>
    subst hb
    refine h.moved hx (completes_take.mp ?_) hentry haddr rfl rfl
    rcases hwhy with hwhy | hwhy
    · exact .inl hwhy.2.1
    · exact .inr ⟨h.routes.role.symm.trans hwhy.1,hwhy.2.1⟩

theorem After.packets (h : After a₀ seen a) {arrivals : List IcePacket}
    (hseen : arrivals ⊆ seen) (sockets : List SocketAddr) (sendOk : SocketAddr → SocketAddr → Bool) :
    After a₀ seen (ConnectionManager.handlePackets sendOk a (handedOver sockets arrivals)).1 := by
  rw [ConnectionManager.handlePackets]
  generalize ([] : List Datagram) = out
  induction arrivals generalizing a out with
  | nil => exact h
  | cons x arrivals ih =>
    have hrest := List.subset_of_cons_subset hseen
    rw [handedOver,List.filter_cons]
    split
    · exact ih (h.packet (hseen List.mem_cons_self) sendOk) hrest _
    · exact ih h hrest out

theorem After.poll (h : After a₀ seen cm.iceAgent)
    (sockets : List SocketAddr) (x : Poll) : After a₀ (seen ++ x.arrivals) (cm.poll sockets x).iceAgent := by
  have hagent : (cm.poll sockets x).iceAgent = if cm.iceWorker.isSome then
      (ConnectionManager.handlePackets x.sendOk cm.iceAgent (handedOver sockets x.arrivals)).1 else cm.iceAgent := by
    rw [ConnectionManager.poll,ConnectionManager.drainIceEvents]
    split <;> split <;> rfl
  have hlonger := h.mono (List.subset_append_left seen x.arrivals)
  rw [hagent]
  split
  · exact hlonger.packets (List.subset_append_right _ _) sockets x.sendOk
  · exact hlonger

theorem After.run (h : After a₀ seen cm.iceAgent) (sockets : List SocketAddr) (polls : List Poll) :
    After a₀ (seen ++ polls.flatMap (·.arrivals)) (polls.foldl (.poll sockets) cm).iceAgent := by
  induction polls generalizing cm seen with
  | nil => simpa using h
  | cons x polls ih =>
    rw [List.flatMap_cons,← List.append_assoc]
    exact ih (h.poll sockets x)

theorem After.start (a : IceAgent) : After a [] a := by
  refine ⟨.refl a,List.forall₂_same.mpr fun p _ => ⟨rfl,rfl,fun hp => .inl hp⟩⟩

/-- Something that completes a check came in from the pair's remote address on the socket of its local candidate. -/
def CheckedBy (role : IceRole) (arrivals : List IcePacket) (p : CandidatePair) : Prop :=
  ∃ x ∈ arrivals, Completes role x.payload ∧ p.localCand.socket = some x.socket ∧ p.remote.address = x.fromAddr
instance (role : IceRole) (arrivals : List IcePacket) (p : CandidatePair) : Decidable (CheckedBy role arrivals p) :=
  inferInstanceAs (Decidable (∃ x ∈ arrivals, _))

/-- A pair succeeds through its own check as long as everything that completes a check arrives on the socket of the
first pair with its source address. -/
theorem succeeded_through_own_check (cm : ConnectionManager) (sockets : List SocketAddr) (polls : List Poll)
    (howner : ∀ x ∈ polls.flatMap (·.arrivals), Completes cm.iceAgent.role x.payload →
      ∀ p, cm.iceAgent.pairFor x.fromAddr = some p → p.localCand.socket = some x.socket) :
    ∀ p q, (p,q) ∈ cm.iceAgent.candidatePairs.zip (polls.foldl (.poll sockets) cm).iceAgent.candidatePairs →
      p.state ≠ .succeeded → q.state = .succeeded →
      CheckedBy cm.iceAgent.role (polls.flatMap (·.arrivals)) p := by
  intro p q hmem hbefore hafter
  have hrun := (After.start cm.iceAgent).run sockets polls
  rw [List.nil_append] at hrun
  rcases (List.forall₂_zip hrun.entries hmem).why hafter with hp | ⟨x,hx,hcompletes,haddr,hroute⟩
  · exact absurd hp hbefore
  · refine ⟨x,hx,hcompletes,?_,haddr⟩
    obtain ⟨p',hp',hsame⟩ := Option.map_eq_some_iff.mp hroute
    rw [← (Prod.mk.inj hsame).2]
    exact howner x hx hcompletes p' hp'

def twoSockets : ConnectionManager :=
  let host ip priority : Candidate := ⟨"1",1,"udp",priority,⟨ip,5000⟩, .host,none,some ⟨ip,5000⟩⟩
  let agent := { IceAgent.withLogger .controlling 100 ("ufrag","pwd") with
    localCandidates := [host (.v4 10 0 0 1) 9,host (.v4 10 0 0 3) 5]
    remoteCandidates := [(host (.v4 10 0 0 2) 9).cloneLight] }
  ConnectionManager.spawnIceWorker { ConnectionManager.new 100 ("ufrag","pwd") none with
    iceAgent := (agent.formCandidatePairs.1.startChecks always).1 }

def answerOn (ip : IpAddr) : Poll := ⟨always,[⟨⟨ip,5000⟩,⟨.v4 10 0 0 2,5000⟩,BINDING_RESPONSE⟩]⟩

theorem succeeded_through_own_check_first :
    ∃ p q, (p,q) ∈ twoSockets.iceAgent.candidatePairs.zip
        ([answerOn (.v4 10 0 0 1)].foldl (.poll (workerSockets twoSockets.iceAgent)) twoSockets).iceAgent.candidatePairs ∧
      p.localCand.address = ⟨.v4 10 0 0 1,5000⟩ ∧ p.state ≠ .succeeded ∧ q.state = .succeeded ∧
      CheckedBy .controlling ([answerOn (.v4 10 0 0 1)].flatMap (·.arrivals)) p := by
  obtain ⟨x,hx,haddr,hbefore,hafter⟩ : ∃ x ∈ twoSockets.iceAgent.candidatePairs.zip
      ([answerOn (.v4 10 0 0 1)].foldl (.poll (workerSockets twoSockets.iceAgent)) twoSockets).iceAgent.candidatePairs,
      x.1.localCand.address = ⟨.v4 10 0 0 1,5000⟩ ∧ x.1.state ≠ .succeeded ∧ x.2.state = .succeeded := by
    decide +kernel
  have hsocket : ((twoSockets.iceAgent.pairFor ⟨.v4 10 0 0 2,5000⟩).all fun p =>
      p.localCand.socket = some ⟨.v4 10 0 0 1,5000⟩) = true := by decide +kernel
  refine ⟨x.1,x.2,hx,haddr,hbefore,hafter,succeeded_through_own_check twoSockets _ _ ?_ _ _ hx hbefore hafter⟩
  intro y hy _ p hp
  obtain rfl := List.mem_singleton.mp (by simpa [answerOn] using hy)
  rw [hp] at hsocket
  simpa using hsocket

/-- The answer arrives on the other socket, and the pair of the first one succeeds. -/
theorem first_pair_succeeds_for_second :
    ∃ p q, (p,q) ∈ twoSockets.iceAgent.candidatePairs.zip
        ([answerOn (.v4 10 0 0 3)].foldl (.poll (workerSockets twoSockets.iceAgent)) twoSockets).iceAgent.candidatePairs ∧
      p.localCand.address = ⟨.v4 10 0 0 1,5000⟩ ∧ p.state ≠ .succeeded ∧ q.state = .succeeded ∧
      ¬ CheckedBy .controlling ([answerOn (.v4 10 0 0 3)].flatMap (·.arrivals)) p := by
  refine ⟨_,_,List.mem_cons_self,?_⟩
  decide +kernel
end RustyRtc.Connection
