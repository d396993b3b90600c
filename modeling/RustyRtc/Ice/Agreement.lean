import RustyRtc.Foundation.Execution
import RustyRtc.Ice.Pairing

/-! # Do the two agents nominate the same pair?

Two agents and the datagrams between them. Datagrams are delivered in any order; every one that is
sent arrives. The controlling agent stands by the last pair it nominated, the controlled agent by
the pair of the last nomination it handled: they agree exactly if those are the same.
-/
namespace RustyRtc.Ice
variable {b : IceAgent} {d : Datagram} {x : SocketAddr}

namespace IceAgent
variable {a : IceAgent} {fromAddr : SocketAddr} {p : CandidatePair} {out : List Datagram} {payload : Bytes}
def route (a : IceAgent) (fromAddr : SocketAddr) : Option ((SocketAddr × SocketAddr) × Option SocketAddr) :=
  (a.pairFor fromAddr).map fun p => (p.addresses,p.localCand.socket)
structure SameRoutes (a b : IceAgent) : Prop where
  role : a.role = b.role
  route : ∀ fromAddr, a.route fromAddr = b.route fromAddr
theorem SameRoutes.refl (a : IceAgent) : SameRoutes a a := ⟨rfl,fun _ => rfl⟩
theorem SameRoutes.trans {c : IceAgent} (h : SameRoutes a b) (h' : SameRoutes b c) : SameRoutes a c :=
  ⟨h.role.trans h'.role,fun x => (h.route x).trans (h'.route x)⟩
theorem remote_of_pairFor (h : a.pairFor fromAddr = some p) : p.remote.address = fromAddr := by
  simpa using List.find?_some h
theorem remote_of_route {r : SocketAddr × SocketAddr}
    {sock : Option SocketAddr} (h : a.route fromAddr = some (r,sock)) : r.2 = fromAddr := by
  obtain ⟨p,hp,hr⟩ := Option.map_eq_some_iff.mp h
  obtain ⟨rfl,-⟩ := Prod.mk.inj hr
  exact remote_of_pairFor hp

theorem find_setPair {q : CandidatePair} (hq : q.remote.address = fromAddr) (pairs : List CandidatePair) :
    (setPair fromAddr q pairs).find? (·.remote.address = x) =
      (pairs.find? (·.remote.address = x)).map fun p => if x = fromAddr then q else p := by
  induction pairs with
  | nil => rfl
  | cons p ps ih =>
    by_cases hp : p.remote.address = fromAddr
    · by_cases hx : x = fromAddr
      · simp [setPair,hp,hq,hx]
      · have hne : ¬ fromAddr = x := fun h => hx h.symm
        simp [setPair,hp,hq,hx,hne]
    · by_cases hx : p.remote.address = x
      · subst hx
        simp [setPair,hp]
      · simp only [setPair,hp,if_false,List.find?_cons,hx,decide_false]
        exact ih

theorem sameRoutes_setPair (hp : a.pairFor fromAddr = some p) (state : CandidatePairState) (isNominated : Bool)
    (nominatedPair : Option CandidatePair) : SameRoutes { a with
      candidatePairs := setPair fromAddr { p with state,isNominated } a.candidatePairs
      nominatedPair } a := by
  refine ⟨rfl,fun x => ?_⟩
  have hfrom := remote_of_pairFor hp
  have hremote : ({ p with state,isNominated } : CandidatePair).remote.address = fromAddr := hfrom
  simp only [route,pairFor,find_setPair hremote,Option.map_map]
  by_cases hx : x = fromAddr
  · subst hx
    rw [show a.candidatePairs.find? (·.remote.address = x) = some p from hp]
    simp [CandidatePair.addresses]
  · simp [hx,Function.comp_def]

def Plain (out : List Datagram) : Prop := ∀ d ∈ out, d.payload ≠ NOMINATION_REQUEST
def AnswersFrom (a : IceAgent) (out : List Datagram) : Prop :=
  ∀ d ∈ out, d.payload = BINDING_RESPONSE → ∃ x r, a.route x = some (r,some d.src)
theorem AnswersFrom.congr (hsame : SameRoutes a b) (h : AnswersFrom a out) : AnswersFrom b out := by
  intro d hd hpay
  obtain ⟨x,r,hroute⟩ := h d hd hpay
  exact ⟨x,r,(hsame.route x).symm.trans hroute⟩

theorem request_ne_response : BINDING_REQUEST ≠ BINDING_RESPONSE := by decide +kernel
theorem request_ne : BINDING_REQUEST ≠ NOMINATION_REQUEST := by decide +kernel
theorem response_ne : BINDING_RESPONSE ≠ NOMINATION_REQUEST := by decide +kernel
theorem mem_sendTo {sendOk : SocketAddr → SocketAddr → Bool} {socket : Option SocketAddr} {dst : SocketAddr}
    (h : d ∈ sendTo sendOk socket dst payload) : socket = some d.src ∧ d.payload = payload := by
  unfold sendTo at h
  cases socket with
  | none => cases h
  | some src =>
    dsimp only at h
    split at h
    · obtain rfl := List.mem_singleton.mp h
      exact ⟨rfl,rfl⟩
    · cases h

theorem plain_sendTo (h : payload ≠ NOMINATION_REQUEST) (sendOk : SocketAddr → SocketAddr → Bool)
    (socket : Option SocketAddr) (dst : SocketAddr) : Plain (sendTo sendOk socket dst payload) := by
  intro d hd
  rw [(mem_sendTo hd).2]
  exact h
theorem answersFrom_nil (a : IceAgent) : AnswersFrom a [] := by simp [AnswersFrom]
theorem answersFrom_pairFor
    (hp : a.pairFor fromAddr = some p) (sendOk : SocketAddr → SocketAddr → Bool) (dst : SocketAddr)
    (payload : Bytes) : AnswersFrom a (sendTo sendOk p.localCand.socket dst payload) := by
  intro d hd _
  exact ⟨fromAddr,p.addresses,by rw [route,hp,← (mem_sendTo hd).1]; rfl⟩

variable (sendOk : SocketAddr → SocketAddr → Bool)
inductive Handled (a : IceAgent) (packet : Bytes) (fromAddr : SocketAddr) : IceAgent → List Datagram → Prop
  | kept {a' out} : SameRoutes a' a → a'.nominatedPair = a.nominatedPair → Plain out → AnswersFrom a out →
      (a.role = .controlled → packet = NOMINATION_REQUEST → a.pairFor fromAddr = none) →
      Handled a packet fromAddr a' out
  | nominates {a' p out} : a.role = .controlling → packet = BINDING_RESPONSE → a.pairFor fromAddr = some p → SameRoutes a' a →
      a'.nominatedPair.map (·.addresses) = some p.addresses →
      out = sendTo sendOk p.localCand.socket p.remote.address NOMINATION_REQUEST →
      Handled a packet fromAddr a' out
  | accepts {a' p out} : a.role = .controlled → packet = NOMINATION_REQUEST → a.pairFor fromAddr = some p →
      SameRoutes a' a → a'.nominatedPair.map (·.addresses) = some p.addresses → Plain out → AnswersFrom a out →
      Handled a packet fromAddr a' out

theorem handled (a : IceAgent) (packet : Bytes) (fromAddr : SocketAddr) :
    Handled sendOk a packet fromAddr (a.handleIncomingPacket sendOk packet fromAddr).1
      (a.handleIncomingPacket sendOk packet fromAddr).2 := by
  unfold handleIncomingPacket
  cases hp : a.pairFor fromAddr with
  | none => exact .kept (.refl a) rfl (by simp [Plain]) (answersFrom_nil a) fun _ _ => hp
  | some p =>
    dsimp only
    by_cases hresp : packet = BINDING_RESPONSE
    · have hnom : packet ≠ NOMINATION_REQUEST := hresp ▸ response_ne
      rw [if_pos hresp]
      split
      · exact .kept (.refl a) rfl (by simp [Plain]) (answersFrom_nil a) fun _ h => absurd h hnom
      · split
        · next hrole => exact .nominates hrole.1 hresp hp (sameRoutes_setPair hp _ _ _) rfl rfl
        · exact .kept (sameRoutes_setPair hp _ _ _) rfl (by simp [Plain]) (answersFrom_nil a) fun _ h =>
            absurd h hnom
    · have hplain := plain_sendTo response_ne sendOk p.localCand.socket fromAddr
      have hanswers := answersFrom_pairFor hp sendOk fromAddr BINDING_RESPONSE
      rw [if_neg hresp]
      split
      · split
        · next hrole =>
          exact .accepts hrole.1 hrole.2.1 hp (sameRoutes_setPair hp _ _ _) rfl hplain hanswers
        · next hrole =>
          by_cases hnom : a.role = .controlled ∧ packet = NOMINATION_REQUEST
          · -- the pair is nominated already
            refine .accepts hnom.1 hnom.2 hp (.refl a) ?_ hplain hanswers
            have hsame : ¬ a.nominatesOther p := fun h => hrole ⟨hnom.1,hnom.2,h⟩
            unfold nominatesOther at hsame
            cases hnp : a.nominatedPair with
            | none => simp [hnp] at hsame
            | some np =>
              simp only [hnp,decide_eq_true_eq,not_or,not_not] at hsame
              simp [CandidatePair.addresses,hsame]
          · exact .kept (.refl a) rfl hplain hanswers fun h h' => absurd ⟨h,h'⟩ hnom
      · next hother =>
        exact .kept (.refl a) rfl (by simp [Plain]) (answersFrom_nil a) fun _ h => absurd (.inr h) hother

theorem startCheck_spec (p : CandidatePair) : (startCheck sendOk p).1.addresses = p.addresses ∧
    (startCheck sendOk p).1.localCand.socket = p.localCand.socket ∧
    ∀ d ∈ (startCheck sendOk p).2, d.payload = BINDING_REQUEST := by
  unfold startCheck
  split
  · exact ⟨rfl,rfl,by simp⟩
  · split
    · exact ⟨rfl,rfl,by simp⟩
    · exact ⟨rfl,rfl,fun d hd => (mem_sendTo hd).2⟩

theorem of_requests (h : ∀ d ∈ out, d.payload = BINDING_REQUEST) (a : IceAgent) : Plain out ∧ AnswersFrom a out :=
  ⟨fun d hd hpay => request_ne ((h d hd).symm.trans hpay),
    fun d hd hpay => absurd ((h d hd).symm.trans hpay) request_ne_response⟩

theorem startChecks_spec (a : IceAgent) : SameRoutes (a.startChecks sendOk).1 a ∧
    (a.startChecks sendOk).1.nominatedPair = a.nominatedPair ∧
    ∀ d ∈ (a.startChecks sendOk).2, d.payload = BINDING_REQUEST := by
  refine ⟨⟨rfl,fun x => ?_⟩,rfl,?_⟩
  · have haddr : ∀ p, (startCheck sendOk p).1.remote.address = p.remote.address := fun p =>
      (Prod.mk.inj (startCheck_spec sendOk p).1).2
    simp only [route,pairFor,startChecks,List.map_map,List.find?_map,Option.map_map,Function.comp_def,haddr,
      (startCheck_spec sendOk _).1,(startCheck_spec sendOk _).2.1]
  · intro d hd
    simp only [startChecks,List.flatMap_map,List.mem_flatMap] at hd
    obtain ⟨p,-,hd⟩ := hd
    exact (startCheck_spec sendOk p).2.2 d hd

theorem resend_spec (a : IceAgent) : ∀ d ∈ a.resend sendOk, d.payload = BINDING_REQUEST := by
  intro d hd
  obtain ⟨p,-,hd⟩ := List.mem_flatMap.mp hd
  exact (mem_sendTo hd).2
end IceAgent

open IceAgent

def IceRole.other : IceRole → IceRole
  | .controlling => .controlled
  | .controlled => .controlling

/-- The agents by role, and the datagrams that have not been handled, by who is to handle them. -/
structure Link where
  agent : IceRole → IceAgent
  inbox : IceRole → List Datagram
inductive Act where
  | startChecks (r : IceRole)
  | resend (r : IceRole)
  /-- Any of the datagrams on their way, not only the oldest. -/
  | deliver (r : IceRole) (i : ℕ)
  deriving DecidableEq, Repr
structure Turn where
  handled : Option Datagram
  sent : List Datagram
def always (_ _ : SocketAddr) : Bool := true

namespace Link
variable {A B : IceAgent} {ds : List Datagram}
def start (controlling controlled : IceAgent) : Link where
  agent | .controlling => controlling | .controlled => controlled
  inbox _ := []
def put (s : Link) (r : IceRole) (a : IceAgent) (out : List Datagram) : Link where
  agent x := if x = r then a else s.agent x
  inbox x := if x = r then s.inbox x else s.inbox x ++ out

def step (s : Link) : Act → Option (Link × Turn)
  | .startChecks r =>
    let (a,out) := (s.agent r).startChecks always
    some (s.put r a out,⟨none,out⟩)
  | .resend r =>
    let out := (s.agent r).resend always
    some (s.put r (s.agent r) out,⟨none,out⟩)
  | .deliver r i =>
    match (s.inbox r)[i]? with
    | none => none
    | some d =>
      let (a,out) := (s.agent r).handleIncomingPacket always d.payload d.src
      let s := { s with inbox := fun x => if x = r then (s.inbox x).eraseIdx i else s.inbox x }
      some (s.put r a out,⟨some d,out⟩)

def lastNomination (ds : List Datagram) : Option SocketAddr :=
  (ds.filter (·.payload = NOMINATION_REQUEST)).getLast?.map (·.src)
def lastSent (h : List (Act × Turn)) : Option SocketAddr := lastNomination (h.flatMap (·.2.sent))
def lastHandled (h : List (Act × Turn)) : Option SocketAddr := lastNomination (h.filterMap (·.2.handled))

/-- Each side's local address is the other side's remote address. -/
def Mirrors : Option CandidatePair → Option CandidatePair → Prop
  | none,none => True
  | some p,some q => p.localCand.address = q.remote.address ∧ p.remote.address = q.localCand.address
  | _,_ => False

/-- Where the controlled agent answers from, the controlling agent finds a pair with a socket of its
own, and the controlled agent finds its mirror image for datagrams from there. -/
def Aligned (controlling controlled : IceAgent) : Prop :=
  ∀ x r y, controlled.route x = some (r,some y) → ∀ r' sock, controlling.route y = some (r',sock) →
    sock = some r'.1 ∧ ∃ sock', controlled.route r'.1 = some ((r'.2,r'.1),sock')
theorem lastNomination_append {es : List Datagram} :
    lastNomination (ds ++ es) = (lastNomination es).or (lastNomination ds) := by
  simp only [lastNomination,List.filter_append,List.getLast?_append,Option.map_or]
theorem lastNomination_plain (h : Plain ds) : lastNomination ds = none := by
  have hnone : ds.filter (·.payload = NOMINATION_REQUEST) = [] := by
    simpa [Plain,List.filter_eq_nil_iff] using h
  rw [lastNomination,hnone]
  rfl

theorem lastSent_snoc (h : List (Act × Turn)) (x : Act × Turn) :
    lastSent (h ++ [x]) = (lastNomination x.2.sent).or (lastSent h) := by
  rw [lastSent,List.flatMap_append,lastNomination_append]
  simp [lastSent]
theorem lastHandled_snoc (h : List (Act × Turn)) (x : Act × Turn) :
    lastHandled (h ++ [x]) = (lastNomination x.2.handled.toList).or (lastHandled h) := by
  rw [lastHandled,List.filterMap_append,lastNomination_append]
  cases hx : x.2.handled <;> simp [lastHandled,hx]

structure Traffic (A B : IceAgent) (s : Link) : Prop where
  controlling : SameRoutes (s.agent .controlling) A
  controlled : SameRoutes (s.agent .controlled) B
  /-- Only the controlling agent nominates. -/
  plain : Plain (s.inbox .controlling)
  answers : AnswersFrom B (s.inbox .controlling)
  /-- Nominations on their way come from where the controlled agent finds a pair. -/
  known : ∀ d ∈ s.inbox .controlled, d.payload = NOMINATION_REQUEST → (B.route d.src).isSome

structure Inv (A B : IceAgent) (h : List (Act × Turn)) (s : Link) : Prop extends Traffic A B s where
  sent : (s.agent .controlling).nominatedPair.map (·.localCand.address) = lastSent h
  found : ∀ p, (s.agent .controlling).nominatedPair = some p →
    ∃ sock, B.route p.localCand.address = some ((p.remote.address,p.localCand.address),sock)
  handled : (s.agent .controlled).nominatedPair.map (·.addresses) =
    (lastHandled h).bind fun a => (B.route a).map Prod.fst
  reached : ∀ a, lastHandled h = some a → (B.route a).isSome

section Preservation
variable {A B : IceAgent} {h : List (Act × Turn)} {s : Link} {a : IceAgent} {out : List Datagram} {act : Act}
variable {p : CandidatePair} {handled : Option Datagram} {inbox : IceRole → List Datagram}
theorem lastSent_plain (hplain : Plain out) : lastSent (h ++ [(act,⟨handled,out⟩)]) = lastSent h := by
  rw [lastSent_snoc,lastNomination_plain hplain,Option.none_or]
theorem lastHandled_plain (hhandled : ∀ d ∈ handled, d.payload ≠ NOMINATION_REQUEST) :
    lastHandled (h ++ [(act,⟨handled,out⟩)]) = lastHandled h := by
  rw [lastHandled_snoc,lastNomination_plain (by simpa [Plain] using hhandled),Option.none_or]

theorem Inv.start (hA : A.nominatedPair = none) (hB : B.nominatedPair = none) : Inv A B [] (Link.start A B) where
  controlling := .refl A
  controlled := .refl B
  plain := by simp [Plain,Link.start]
  answers := answersFrom_nil B
  known := by simp [Link.start]
  sent := by simp [Link.start,hA,lastSent,lastNomination]
  found := by simp [Link.start,hA]
  handled := by simp [Link.start,hB,lastHandled,lastNomination]
  reached := by simp [lastHandled,lastNomination]

theorem Traffic.put (hi : Traffic A B s) {r : IceRole} (hin : ∀ x, inbox x ⊆ s.inbox x)
    (hsame : SameRoutes a (s.agent r)) (hanswers : r = .controlled → Plain out ∧ AnswersFrom (s.agent r) out)
    (hknown : r = .controlling → ∀ d ∈ out, d.payload = NOMINATION_REQUEST → (B.route d.src).isSome) :
    Traffic A B (put { s with inbox } r a out) := by
  have hleft : ∀ {x d}, d ∈ inbox x → d ∈ s.inbox x := fun h => hin _ h
  cases r with
  | controlling =>
    refine ⟨hsame.trans hi.controlling,hi.controlled,fun d hd => hi.plain d (hleft hd),
      fun d hd => hi.answers d (hleft hd),fun d hd => ?_⟩
    exact (List.mem_append.mp hd).elim (fun h => hi.known d (hleft h)) (hknown rfl d)
  | controlled =>
    obtain ⟨hplain,hanswers⟩ := hanswers rfl
    refine ⟨hi.controlling,hsame.trans hi.controlled,fun d hd => ?_,fun d hd => ?_,
      fun d hd => hi.known d (hleft hd)⟩
    · exact (List.mem_append.mp hd).elim (fun h => hi.plain d (hleft h)) (hplain d)
    · exact (List.mem_append.mp hd).elim (fun h => hi.answers d (hleft h)) (hanswers.congr hi.controlled d)

theorem Inv.quiet (hi : Inv A B h s) {r : IceRole} (hin : ∀ x, inbox x ⊆ s.inbox x)
    (hsame : SameRoutes a (s.agent r)) (hnom : a.nominatedPair = (s.agent r).nominatedPair) (hplain : Plain out)
    (hanswers : AnswersFrom (s.agent r) out) (hhandled : ∀ d ∈ handled, d.payload ≠ NOMINATION_REQUEST) :
    Inv A B (h ++ [(act,⟨handled,out⟩)]) (put { s with inbox } r a out) := by
  have hpair : ∀ x, ((put { s with inbox } r a out).agent x).nominatedPair = (s.agent x).nominatedPair := by
    intro x
    by_cases hx : x = r
    · simpa [put,hx] using hnom
    · simp [put,hx]
  refine ⟨hi.toTraffic.put hin hsame (fun _ => ⟨hplain,hanswers⟩) fun _ d hd hpay => absurd hpay (hplain d hd),
    ?_,?_,?_,?_⟩
  · rw [lastSent_plain hplain,hpair,hi.sent]
  · rw [hpair]
    exact hi.found
  · rw [lastHandled_plain hhandled,hpair,hi.handled]
  · rw [lastHandled_plain hhandled]
    exact hi.reached

theorem route_of_pairFor (hsame : SameRoutes a b) {fromAddr : SocketAddr}
    (hp : a.pairFor fromAddr = some p) : b.route fromAddr = some (p.addresses,p.localCand.socket) := by
  rw [← hsame.route fromAddr,IceAgent.route,hp]
  rfl

theorem Inv.nominate (hi : Inv A B h s) (haligned : Aligned A B) (hin : ∀ x, inbox x ⊆ s.inbox x)
    (hd : d ∈ s.inbox .controlling) (hpay : d.payload = BINDING_RESPONSE)
    (hp : (s.agent .controlling).pairFor d.src = some p) (hsame : SameRoutes a (s.agent .controlling))
    (hnom : a.nominatedPair.map (·.addresses) = some p.addresses)
    (hout : out = sendTo always p.localCand.socket p.remote.address NOMINATION_REQUEST) :
    Inv A B (h ++ [(act,⟨some d,out⟩)]) (put { s with inbox } .controlling a out) := by
  -- the response came from a socket of the controlled agent, so the pair found is aligned
  obtain ⟨x,r,hanswer⟩ := hi.answers d hd hpay
  obtain ⟨hsock,sock,hback⟩ := haligned x r d.src hanswer _ _ (route_of_pairFor hi.controlling hp)
  obtain rfl : out = [⟨p.localCand.address,p.remote.address,NOMINATION_REQUEST⟩] := by
    rw [hout,hsock]
    rfl
  have hplain : ∀ e ∈ some d, e.payload ≠ NOMINATION_REQUEST := by simpa using hi.plain d hd
  obtain ⟨q,hq,haddr⟩ := Option.map_eq_some_iff.mp hnom
  obtain ⟨hlocal,hremote⟩ := Prod.mk.inj haddr
  refine ⟨hi.toTraffic.put hin hsame (by simp) ?_,?_,?_,?_,?_⟩
  · intro _ e he _
    obtain rfl := List.mem_singleton.mp he
    exact Option.isSome_iff_exists.mpr ⟨_,hback⟩
  · rw [lastSent_snoc]
    simp [put,hq,hlocal,lastNomination]
  · intro q' hq'
    obtain rfl : q = q' := Option.some.inj (hq.symm.trans (by simpa [put] using hq'))
    rw [hlocal,hremote]
    exact ⟨sock,hback⟩
  · rw [lastHandled_plain hplain]
    exact hi.handled
  · rw [lastHandled_plain hplain]
    exact hi.reached

theorem Inv.accept (hi : Inv A B h s) (hin : ∀ x, inbox x ⊆ s.inbox x) (hpay : d.payload = NOMINATION_REQUEST)
    (hp : (s.agent .controlled).pairFor d.src = some p)
    (hsame : SameRoutes a (s.agent .controlled)) (hnom : a.nominatedPair.map (·.addresses) = some p.addresses)
    (hplain : Plain out) (hanswers : AnswersFrom (s.agent .controlled) out) :
    Inv A B (h ++ [(act,⟨some d,out⟩)]) (put { s with inbox } .controlled a out) := by
  have hroute := route_of_pairFor hi.controlled hp
  have hlast : lastHandled (h ++ [(act,⟨some d,out⟩)]) = some d.src := by
    rw [lastHandled_snoc]
    simp [lastNomination,hpay]
  refine ⟨hi.toTraffic.put hin hsame (fun _ => ⟨hplain,hanswers⟩) (by simp),?_,hi.found,?_,?_⟩
  · rw [lastSent_plain hplain]
    exact hi.sent
  · rw [hlast,Option.bind_some,hroute]
    exact hnom
  · intro x hx
    obtain rfl := Option.some.inj (hlast.symm.trans hx)
    rw [hroute]
    rfl

theorem Inv.step (hi : Inv A B h s) (hA : A.role = .controlling) (hB : B.role = .controlled)
    (haligned : Aligned A B) {s' : Link} {turn : Turn} (hstep : s.step act = some (s',turn)) :
    Inv A B (h ++ [(act,turn)]) s' := by
  cases act with
  | startChecks r =>
    cases hstep
    obtain ⟨hsame,hnom,hrequests⟩ := startChecks_spec always (s.agent r)
    obtain ⟨hplain,hanswers⟩ := of_requests hrequests (s.agent r)
    exact hi.quiet (fun _ => List.Subset.refl _) hsame hnom hplain hanswers (by simp)
  | resend r =>
    cases hstep
    obtain ⟨hplain,hanswers⟩ := of_requests (resend_spec always (s.agent r)) (s.agent r)
    exact hi.quiet (fun _ => List.Subset.refl _) (.refl _) rfl hplain hanswers (by simp)
  | deliver r i =>
    cases hd : (s.inbox r)[i]? with
    | none => simp [Link.step,hd] at hstep
    | some d =>
      simp only [Link.step,hd,Option.some.injEq,Prod.mk.injEq] at hstep
      obtain ⟨rfl,rfl⟩ := hstep
      have hmem : d ∈ s.inbox r := List.mem_of_getElem? hd
      have hfewer : ∀ x, (if x = r then (s.inbox x).eraseIdx i else s.inbox x) ⊆ s.inbox x := by
        intro x
        split
        · exact List.eraseIdx_subset
        · exact List.Subset.refl _
      have hhandled := IceAgent.handled always (s.agent r) d.payload d.src
      cases r with
      | controlling =>
        have hrole : (s.agent .controlling).role = .controlling := hi.controlling.role.trans hA
        cases hhandled with
        | kept hsame hnom hplain hanswers =>
          exact hi.quiet hfewer hsame hnom hplain hanswers (by simpa using hi.plain d hmem)
        | nominates _ hpay hp hsame hnom hout => exact hi.nominate haligned hfewer hmem hpay hp hsame hnom hout
        | accepts hother => simp [hrole] at hother
      | controlled =>
        have hrole : (s.agent .controlled).role = .controlled := hi.controlled.role.trans hB
        cases hhandled with
        | kept hsame hnom hplain hanswers hnone =>
          refine hi.quiet hfewer hsame hnom hplain hanswers ?_
          rintro _ ⟨⟩ hpay
          have hknown := hi.known d hmem hpay
          rw [← hi.controlled.route d.src,IceAgent.route,hnone hrole hpay] at hknown
          cases hknown
        | nominates hother => simp [hrole] at hother
        | accepts _ hpay hp hsame hnom hplain hanswers => exact hi.accept hfewer hpay hp hsame hnom hplain hanswers

theorem Inv.run (hA : A.role = .controlling) (hB : B.role = .controlled) (hA₀ : A.nominatedPair = none)
    (hB₀ : B.nominatedPair = none) (haligned : Aligned A B) (hrun : Reaches Link.step (Link.start A B) h s) :
    Inv A B h s := by
  induction hrun with
  | init => exact .start hA₀ hB₀
  | snoc _ hstep ih => exact ih.step hA hB haligned hstep
end Preservation

/-- The nominated pairs are mirror images exactly if the nomination handled last is the one sent last.
This holds at every moment, and so once every datagram has been handled. -/
theorem ice_agreement_iff {A B : IceAgent} (hA : A.role = .controlling) (hB : B.role = .controlled)
    (hA₀ : A.nominatedPair = none) (hB₀ : B.nominatedPair = none) (haligned : Aligned A B)
    {h : List (Act × Turn)} {s : Link} (hrun : Reaches step (Link.start A B) h s) :
    Mirrors (s.agent .controlling).nominatedPair (s.agent .controlled).nominatedPair ↔
      lastHandled h = lastSent h := by
  have hi := Inv.run hA hB hA₀ hB₀ haligned hrun
  have hhandled := hi.handled
  cases hp : (s.agent .controlling).nominatedPair with
  | none =>
    have hsent : lastSent h = none := by rw [← hi.sent, hp]; rfl
    rw [hsent]
    cases hlast : lastHandled h with
    | none =>
      rw [hlast, Option.bind_none, Option.map_eq_none_iff] at hhandled
      simp [hhandled,Mirrors]
    | some x =>
      obtain ⟨r,hr⟩ := Option.isSome_iff_exists.mp (hi.reached x hlast)
      rw [hlast, Option.bind_some, hr, Option.map_some] at hhandled
      obtain ⟨q,hq,-⟩ := Option.map_eq_some_iff.mp hhandled
      simp [hq,Mirrors]
  | some p =>
    have hsent : lastSent h = some p.localCand.address := by rw [← hi.sent, hp]; rfl
    obtain ⟨sock,hback⟩ := hi.found p hp
    rw [hsent]
    cases hlast : lastHandled h with
    | none =>
      rw [hlast, Option.bind_none, Option.map_eq_none_iff] at hhandled
      simp [hhandled,Mirrors]
    | some x =>
      obtain ⟨⟨r,sock''⟩,hr⟩ := Option.isSome_iff_exists.mp (hi.reached x hlast)
      rw [hlast, Option.bind_some, hr, Option.map_some] at hhandled
      obtain ⟨q,hq,rfl⟩ := Option.map_eq_some_iff.mp hhandled
      rw [hq, Option.some.injEq]
      constructor
      · rintro ⟨hlocal,-⟩
        exact (remote_of_route hr).symm.trans hlocal.symm
      · rintro rfl
        obtain ⟨haddr,-⟩ := Prod.mk.inj (Option.some.inj (hr.symm.trans hback))
        obtain ⟨hlocal,hremote⟩ := Prod.mk.inj haddr
        exact ⟨hremote.symm,hlocal.symm⟩

instance : DecidableRel Mirrors
  | none,none => isTrue trivial
  | some _,some _ => inferInstanceAs (Decidable (_ ∧ _))
  | none,some _ => isFalse id
  | some _,none => isFalse id

/-- The candidates of each agent are known to the other, and no pair is left out. -/
structure Exchanged (A B : IceAgent) : Prop where
  remoteA : A.remoteCandidates = B.localCandidates.map Candidate.cloneLight
  remoteB : B.remoteCandidates = A.localCandidates.map Candidate.cloneLight
  limitA : A.localCandidates.length * B.localCandidates.length ≤ A.maxCandidatePairs
  limitB : B.localCandidates.length * A.localCandidates.length ≤ B.maxCandidatePairs
  reachableA : Reachable A.localCandidates
  reachableB : Reachable B.localCandidates

theorem Exchanged.symm (h : Exchanged A B) : Exchanged B A :=
  ⟨h.remoteB,h.remoteA,h.limitB,h.limitA,h.reachableB,h.reachableA⟩
theorem Exchanged.limit (h : Exchanged A B) :
    A.localCandidates.length * A.remoteCandidates.length ≤ A.maxCandidatePairs := by
  rw [h.remoteA,List.length_map]
  exact h.limitA

theorem Exchanged.route (h : Exchanged A B) {d : Candidate} (hd : d ∈ B.localCandidates) :
    A.formCandidatePairs.1.route d.address =
      (best A.localCandidates d).map fun c => ((c.address,d.address),some c.address) := by
  have hmem : d.cloneLight ∈ A.remoteCandidates := by
    rw [h.remoteA]
    exact List.mem_map_of_mem hd
  have hnodup : (A.remoteCandidates.map (·.address)).Nodup := by
    rw [h.remoteA,List.map_map]
    exact h.reachableB.nodup
  have hpair := pairFor_formCandidatePairs A h.limit h.reachableA hmem hnodup
  rw [IceAgent.route,show d.address = d.cloneLight.address from rfl,hpair,Option.map_map]
  change (best A.localCandidates d).map _ = _
  refine Option.map_congr fun c hc => ?_
  have hsocket := h.reachableA.socket c (best_goesWith hc).1
  simp [CandidatePair.new,CandidatePair.addresses,hsocket]

theorem Exchanged.address (h : Exchanged A B)
    (hroute : (A.formCandidatePairs.1.route x).isSome) : ∃ d ∈ B.localCandidates, d.address = x := by
  rw [IceAgent.route,Option.isSome_map] at hroute
  obtain ⟨p,hp⟩ := Option.isSome_iff_exists.mp hroute
  obtain ⟨hmem,haddr⟩ := remote_mem_of_pairFor h.limit hp
  rw [h.remoteA] at hmem
  obtain ⟨d,hd,hclone⟩ := List.mem_map.mp hmem
  rw [← hclone] at haddr
  exact ⟨d,hd,haddr⟩

/-- The controlled agent answers from the best candidate of a kind; the controlling agent's best of that
kind is the one it nominates with. -/
theorem aligned_of_exchanged (h : Exchanged A B) : Aligned A.formCandidatePairs.1 B.formCandidatePairs.1 := by
  intro x r y hanswer r' sock hroute
  obtain ⟨c,hc,rfl⟩ := h.symm.address (by rw [hanswer]; rfl)
  rw [h.symm.route hc] at hanswer
  obtain ⟨d,hd,hd'⟩ := Option.map_eq_some_iff.mp hanswer
  obtain ⟨-,hy⟩ := Prod.mk.inj hd'
  cases hy
  obtain ⟨hdmem,hdc⟩ := best_goesWith hd
  rw [h.route hdmem] at hroute
  obtain ⟨e,he,he'⟩ := Option.map_eq_some_iff.mp hroute
  cases he'
  obtain ⟨hemem,hed⟩ := best_goesWith he
  refine ⟨rfl,some d.address,?_⟩
  rw [h.symm.route hemem,best_congr (hed.trans hdc),hd]
  rfl

def hostAt (ip : IpAddr) (priority : UInt32) : Candidate :=
  ⟨"host",1,"udp",priority,⟨ip,5000⟩, .host,none,some ⟨ip,5000⟩⟩
def dualHosts : IceRole → List Candidate
  | .controlling => [hostAt (.v4 10 0 0 1) 9,hostAt (.v6 1) 5]
  | .controlled => [hostAt (.v4 10 0 0 2) 9,hostAt (.v6 2) 5]
def dualStack (role : IceRole) : IceAgent :=
  { withLogger role 100 ("ufrag","pwd") with
    localCandidates := dualHosts role
    remoteCandidates := (dualHosts role.other).map Candidate.cloneLight }
theorem exchanged_dualStack : Exchanged (dualStack .controlling) (dualStack .controlled) :=
  ⟨rfl,rfl,by decide,by decide,⟨by decide,by decide,by decide⟩,⟨by decide,by decide,by decide⟩⟩
def dualLink : Link :=
  Link.start (dualStack .controlling).formCandidatePairs.1 (dualStack .controlled).formCandidatePairs.1

/-- Both addresses answer, the less preferred one first: it is nominated and then the other. The
nominations arrive in that order. -/
theorem ice_agreement_in_order : ∃ h s, Reaches step dualLink h s ∧
    (s.inbox .controlling = [] ∧ s.inbox .controlled = []) ∧ (s.agent .controlling).nominatedPair.isSome ∧
    Mirrors (s.agent .controlling).nominatedPair (s.agent .controlled).nominatedPair := by
  have hrun : ∃ h s, Reaches step dualLink h s ∧ (s.inbox .controlling = [] ∧ s.inbox .controlled = []) ∧
      (s.agent .controlling).nominatedPair.isSome ∧ lastHandled h = lastSent h :=
    exists_reaches_of_trace [.startChecks .controlling, .deliver .controlled 0, .deliver .controlled 0,
      .deliver .controlling 1, .deliver .controlling 0, .deliver .controlled 0, .deliver .controlled 0,
      .deliver .controlling 0, .deliver .controlling 0] (by decide +kernel)
  obtain ⟨h,s,hrun,hempty,hsome,hlast⟩ := hrun
  exact ⟨h,s,hrun,hempty,hsome,
    (ice_agreement_iff rfl rfl rfl rfl (aligned_of_exchanged exchanged_dualStack) hrun).mpr hlast⟩

/-- The same run but for the order of the two nominations: the controlling agent ends with the preferred
pair and the controlled agent with the other. -/
theorem ice_disagreement_reordered : ∃ h s, Reaches step dualLink h s ∧
    (s.inbox .controlling = [] ∧ s.inbox .controlled = []) ∧
    (s.agent .controlling).nominatedPair.map (·.addresses) = some (⟨.v4 10 0 0 1,5000⟩,⟨.v4 10 0 0 2,5000⟩) ∧
    (s.agent .controlled).nominatedPair.map (·.addresses) = some (⟨.v6 2,5000⟩,⟨.v6 1,5000⟩) ∧
    ¬ Mirrors (s.agent .controlling).nominatedPair (s.agent .controlled).nominatedPair :=
  exists_reaches_of_trace [.startChecks .controlling, .deliver .controlled 0, .deliver .controlled 0,
    .deliver .controlling 1, .deliver .controlling 0, .deliver .controlled 1, .deliver .controlled 0,
    .deliver .controlling 0, .deliver .controlling 0] (by decide +kernel)
end Link
end RustyRtc.Ice
