import RustyRtc.Foundation.Queues
import RustyRtc.Signaling.Authenticity

/-! # The server loop

`signaling/router.rs` and `signaling/runtime.rs`: the loop takes one event after another, the router runs the
engine on it and keeps what the engine puts out in one outbox for each client, and the loop empties the
outboxes into the channels of the clients. It does so after a message from a client, but not after a
disconnect. The order in which the outboxes are met comes with the event.
-/
namespace RustyRtc.Signaling
open Queues
structure Router (β : Type) where
  server : ServerEngine β
  outboxes : Queues ClientId SignalingMsg

namespace Router
variable {β ρ : Type}
def new (auth : β) : Router β := ⟨ServerEngine.new auth,∅⟩
def enqueue (r : Router β) (out : OutgoingMsg) : Router β :=
  { r with outboxes := r.outboxes.push (out.clientIdTarget,out.msg) }
def registerClient (r : Router β) (clientId : ClientId) : Router β :=
  { r with outboxes := r.outboxes.touch clientId }

/-- The second component is what the engine put out. -/
def unregisterClient (choices : Choices ρ) (r : Router β) (clientId : ClientId) : Router β × List OutgoingMsg :=
  let r := { r with outboxes := r.outboxes.erase clientId }
  let handled := r.server.handleDisconnect choices clientId
  (handled.2.foldl enqueue { r with server := handled.1 },handled.2)
def handleFromClient (backend : AuthBackend β ρ) (choices : Choices ρ) (r : Router β) (fromCid : ClientId)
    (msg : SignalingMsg) : Option (Router β × List OutgoingMsg) := do
  let (server,out) ← r.server.handle backend choices fromCid msg
  return (out.foldl enqueue { r with server },out)
def drainAllOutgoing (clientIds : Iteration ClientId) (r : Router β) : Router β × List (ClientId × SignalingMsg) :=
  let drained := r.outboxes.drain clientIds
  ({ r with outboxes := drained.1 },drained.2)
end Router
abbrev Channel := ℕ
structure Send where
  client : ClientId
  channel : Channel
  msg : SignalingMsg
structure Round where
  produced : List OutgoingMsg
  sends : List Send
structure ServerLoop (β : Type) where
  router : Router β
  clients : Table ClientId Channel

namespace ServerLoop
variable {β ρ : Type} {tx : Channel}

/-- A `ServerEvent` with what handling it gets from its surroundings. -/
inductive Event (ρ : Type) where
  | registerClient (clientId : ClientId) (toClient : Channel)
  | msgFromClient (clientId : ClientId) (msg : SignalingMsg) (choices : Choices ρ) (outboxes : Iteration ClientId)
  | disconnected (clientId : ClientId) (choices : Choices ρ)
def new (auth : β) : ServerLoop β := ⟨Router.new auth,∅⟩

/-- A message for a client that is not registered is dropped. -/
def deliver (clients : Table ClientId Channel) (outgoing : List (ClientId × SignalingMsg)) : List Send :=
  outgoing.filterMap fun x => (clients.lookup x.1).map fun tx => ⟨x.1,tx,x.2⟩

/-- One round of `run_server_loop`, up to the point where it waits for the next event. -/
def step (backend : AuthBackend β ρ) (st : ServerLoop β) : Event ρ → Option (ServerLoop β × Round)
  | .registerClient clientId toClient =>
    some (⟨st.router.registerClient clientId,st.clients.insert clientId toClient⟩,⟨[],[]⟩)
  | .msgFromClient clientId msg choices outboxes => do
    let (router,out) ← st.router.handleFromClient backend choices clientId msg
    let (router,outgoing) := router.drainAllOutgoing outboxes
    return (⟨router,st.clients⟩,⟨out,deliver st.clients outgoing⟩)
  | .disconnected clientId choices =>
    let unregistered := st.router.unregisterClient choices clientId
    some (⟨unregistered.1,st.clients.erase clientId⟩,⟨unregistered.2,[]⟩)

abbrev History (ρ : Type) := List (Event ρ × Round)
def msgsFor (c : ClientId) (out : List OutgoingMsg) : List SignalingMsg :=
  Queues.select c (out.map fun o => (o.clientIdTarget,o.msg))
def produced (c : ClientId) (h : History ρ) : List SignalingMsg := h.flatMap fun x => msgsFor c x.2.produced
def handed (c : ClientId) (h : History ρ) : List SignalingMsg :=
  h.flatMap fun x => (x.2.sends.filter (·.client = c)).map Send.msg

/-- What disconnects have put out for a client since the last message from any client. -/
def waiting (c : ClientId) (h : History ρ) : List SignalingMsg :=
  h.foldl (fun left x =>
    match x.1 with
    | .registerClient .. => left
    | .msgFromClient .. => []
    | .disconnected d _ => (if d = c then [] else left) ++ msgsFor c x.2.produced) []

/-- The event gives the client a channel or takes it away. -/
def Reregisters (c : ClientId) : Event ρ → Prop
  | .registerClient d _ => d = c
  | .msgFromClient .. => False
  | .disconnected d _ => d = c
theorem outboxes_foldl_enqueue (r : Router β) (out : List OutgoingMsg) :
    (out.foldl Router.enqueue r).outboxes = (out.map fun o => (o.clientIdTarget,o.msg)).foldl Queues.push r.outboxes := by
  induction out generalizing r with
  | nil => rfl
  | cons o out ih => exact ih (r.enqueue o)
theorem pending_foldl_enqueue (r : Router β) (out : List OutgoingMsg) (c : ClientId) :
    (out.foldl Router.enqueue r).outboxes.pending c = r.outboxes.pending c ++ msgsFor c out := by
  rw [outboxes_foldl_enqueue,pending_foldl_push]
  rfl
theorem server_foldl_enqueue (r : Router β) (out : List OutgoingMsg) :
    (out.foldl Router.enqueue r).server = r.server := by
  induction out generalizing r with
  | nil => rfl
  | cons o out ih => exact ih (r.enqueue o)

theorem deliver_for {clients : Table ClientId Channel} {c : ClientId} (h : clients.lookup c = some tx)
    (outgoing : List (ClientId × SignalingMsg)) :
    ((deliver clients outgoing).filter (·.client = c)).map Send.msg = select c outgoing ∧
      ∀ send ∈ deliver clients outgoing, send.client = c → send.channel = tx := by
  constructor
  · induction outgoing with
    | nil => rfl
    | cons x outgoing ih =>
      obtain ⟨d,m⟩ := x
      rw [deliver,List.filterMap_cons,← List.singleton_append,select_append,← ih,deliver]
      by_cases hd : d = c
      · subst hd
        simp [h,select]
      · cases clients.lookup d with
        | none | some tx' => simp [hd,select]
  · intro send hsend hclient
    obtain ⟨x,-,hx⟩ := List.mem_filterMap.mp hsend
    obtain ⟨tx',htx,rfl⟩ := Option.map_eq_some_iff.mp hx
    obtain rfl : x.1 = c := hclient
    exact Option.some.inj (htx.symm.trans h)

section
variable {backend : AuthBackend β ρ} {auth : β} {st st' : ServerLoop β} {e : Event ρ} {round : Round} {c : ClientId}
  {h : History ρ}

theorem step_msgFromClient {d : ClientId} {msg : SignalingMsg} {choices : Choices ρ} {outboxes : Iteration ClientId}
    (hstep : st.step backend (.msgFromClient d msg choices outboxes) = some (st',round)) :
    ∃ server, st.router.server.handle backend choices d msg = some (server,round.produced) ∧
      let drained := (round.produced.foldl Router.enqueue ⟨server,st.router.outboxes⟩).drainAllOutgoing outboxes
      st' = ⟨drained.1,st.clients⟩ ∧ round.sends = deliver st.clients drained.2 := by
  simp only [step,Router.handleFromClient,bind,Option.bind_eq_some_iff] at hstep
  obtain ⟨_,⟨⟨server,out⟩,hhandle,hpure'⟩,hpure⟩ := hstep
  cases hpure'
  cases hpure
  exact ⟨server,hhandle,rfl,rfl⟩

theorem pending_step (hstep : st.step backend e = some (st',round)) (c : ClientId) :
    st'.router.outboxes.pending c = match e with
      | .registerClient .. => st.router.outboxes.pending c
      | .msgFromClient .. => []
      | .disconnected d _ => (if d = c then [] else st.router.outboxes.pending c) ++ msgsFor c round.produced := by
  cases e with
  | registerClient d tx =>
    cases hstep
    exact pending_touch _ c d
  | msgFromClient d msg choices outboxes =>
    obtain ⟨server,-,rfl,-⟩ := step_msgFromClient hstep
    exact pending_drain outboxes _ c
  | disconnected d choices =>
    cases hstep
    exact (pending_foldl_enqueue _ _ c).trans (congrArg (· ++ _) (pending_erase _ c d))

theorem waiting_snoc (c : ClientId) (h : History ρ) (x : Event ρ × Round) : waiting c (h ++ [x]) = match x.1 with
    | .registerClient .. => waiting c h
    | .msgFromClient .. => []
    | .disconnected d _ => (if d = c then [] else waiting c h) ++ msgsFor c x.2.produced := by
  simp only [waiting,List.foldl_append,List.foldl_cons,List.foldl_nil]

theorem pending_eq_waiting (hst : Reaches (step backend) (new auth) h st) (c : ClientId) :
    st.router.outboxes.pending c = waiting c h := by
  induction hst with
  | init => rfl
  | @snoc h st st' e round _ hstep ih =>
    rw [pending_step hstep,waiting_snoc]
    cases e with
    | registerClient => exact ih
    | msgFromClient => rfl
    | disconnected d choices => rw [ih]

theorem clients_step (hstep : st.step backend e = some (st',round)) (hkeeps : ¬ Reregisters c e) :
    st'.clients.lookup c = st.clients.lookup c := by
  cases e with
  | registerClient d tx =>
    cases hstep
    exact AList.lookup_insert_ne (Ne.symm hkeeps)
  | msgFromClient d msg choices outboxes =>
    obtain ⟨server,-,rfl,-⟩ := step_msgFromClient hstep
    rfl
  | disconnected d choices =>
    cases hstep
    exact AList.lookup_erase_ne (Ne.symm hkeeps)

/-- One round of a client that keeps its channel: what waited for it and what is put out for it is handed over, or
waits. -/
theorem balance_step (hstep : st.step backend e = some (st',round))
    (htx : st.clients.lookup c = some tx) (hkeeps : ¬ Reregisters c e) :
    (∀ send ∈ round.sends, send.client = c → send.channel = tx) ∧
      st.router.outboxes.pending c ++ msgsFor c round.produced =
        (round.sends.filter (·.client = c)).map Send.msg ++ st'.router.outboxes.pending c := by
  have hpending := pending_step hstep c
  cases e with
  | registerClient d tx' =>
    cases hstep
    rw [hpending]
    exact ⟨by simp,List.append_nil _⟩
  | msgFromClient d msg choices outboxes =>
    obtain ⟨server,-,-,hsends⟩ := step_msgFromClient hstep
    obtain ⟨hhanded,hchannel⟩ := deliver_for htx
      ((round.produced.foldl Router.enqueue ⟨server,st.router.outboxes⟩).drainAllOutgoing outboxes).2
    rw [hsends,hpending,List.append_nil,hhanded,Router.drainAllOutgoing,select_drain,pending_foldl_enqueue]
    exact ⟨hchannel,rfl⟩
  | disconnected d choices =>
    cases hstep
    rw [hpending]
    exact ⟨by simp,congrArg (· ++ _) (if_neg (show ¬ d = c from hkeeps)).symm⟩

def engineExchange : Event ρ × Round → Option (ServerEngine.Exchange ρ)
  | (.registerClient ..,_) => none
  | (.msgFromClient c msg choices _,round) => some (.message c msg choices,round.produced)
  | (.disconnected c choices,round) => some (.disconnect c choices,round.produced)

theorem engine_step (hstep : st.step backend e = some (st',round)) : match engineExchange (e,round) with
    | none => st'.router.server = st.router.server
    | some (event,out) => st.router.server.step backend event = some (st'.router.server,out) := by
  cases e with
  | registerClient d tx =>
    cases hstep
    rfl
  | msgFromClient d msg choices outboxes =>
    obtain ⟨server,hhandle,rfl,-⟩ := step_msgFromClient hstep
    exact hhandle.trans (congrArg (fun s => some (s,round.produced))
      (server_foldl_enqueue ⟨server,st.router.outboxes⟩ round.produced).symm)
  | disconnected d choices =>
    cases hstep
    let handled := st.router.server.handleDisconnect choices d
    exact congrArg (fun s => some (s,handled.2))
      (server_foldl_enqueue ⟨handled.1,st.router.outboxes.erase d⟩ handled.2).symm

/-- The engine inside the loop runs as it does alone. -/
theorem engine_reaches (hst : Reaches (step backend) (new auth) h st) :
    Reaches (ServerEngine.step backend) (ServerEngine.new auth) (h.filterMap engineExchange) st.router.server := by
  induction hst with
  | init => exact .init
  | @snoc h st st' e round _ hstep ih =>
    have hengine := engine_step hstep
    rw [List.filterMap_append]
    cases hexchange : engineExchange (e,round) with
    | none =>
      rw [hexchange] at hengine
      simpa [hexchange,hengine] using ih
    | some exchange =>
      rw [hexchange] at hengine
      simpa [hexchange] using ih.snoc hengine

/-- A client is registered since some event, and since then the balance has held. -/
theorem balance_of_registered (hst : Reaches (step backend) (new auth) h st) (htx : st.clients.lookup c = some tx) :
    ∃ before round after, h = before ++ (.registerClient c tx,round) :: after ∧ (∀ x ∈ after, ¬ Reregisters c x.1) ∧
      (∀ x ∈ after, ∀ send ∈ x.2.sends, send.client = c → send.channel = tx) ∧
      waiting c before ++ produced c after = handed c after ++ waiting c h := by
  induction hst with
  | init => cases htx
  | @snoc h st st' e round hprev hstep ih =>
    by_cases hre : Reregisters c e
    · cases e with
      | registerClient d tx' =>
        obtain rfl : d = c := hre
        obtain ⟨rfl,-⟩ := Prod.mk.inj (Option.some.inj hstep)
        obtain rfl : tx' = tx := Option.some.inj ((AList.lookup_insert _).symm.trans htx)
        refine ⟨h,round,[],rfl,by simp,by simp,?_⟩
        rw [waiting_snoc]
        exact List.append_nil _
      | msgFromClient => exact hre.elim
      | disconnected d choices =>
        obtain rfl : d = c := hre
        cases hstep
        have hnone : (st.clients.erase d).lookup d = none := AList.lookup_erase _ _
        exact absurd (hnone.symm.trans htx) (by simp)
    · rw [clients_step hstep hre] at htx
      obtain ⟨before,first,after,rfl,hkeeps,hchannel,hbalance⟩ := ih htx
      obtain ⟨hsends,hround⟩ := balance_step hstep htx hre
      rw [pending_eq_waiting hprev,pending_eq_waiting (hprev.snoc hstep)] at hround
      refine ⟨before,first,after ++ [(e,round)],by simp,?_,?_,?_⟩
      · exact List.forall_mem_append.mpr ⟨hkeeps,List.forall_mem_singleton.mpr hre⟩
      · exact List.forall_mem_append.mpr ⟨hchannel,List.forall_mem_singleton.mpr hsends⟩
      · have hproduced : produced c (after ++ [(e,round)]) = produced c after ++ msgsFor c round.produced := by
          simp [produced]
        have hhanded : handed c (after ++ [(e,round)]) =
            handed c after ++ (round.sends.filter (·.client = c)).map Send.msg := by
          simp [handed]
        rw [hproduced,hhanded,← List.append_assoc,hbalance,List.append_assoc,hround]
        exact (List.append_assoc ..).symm

/-- Whenever the loop waits, a client that is still registered has been handed all that was put out for it since it
registered, once each, in order and over its channel, except for what disconnects have put out for it since the
last message from any client. That waits in its outbox. -/
theorem prompt_delivery_iff (hst : Reaches (step backend) (new auth) h st) {c : ClientId} {tx : Channel}
    (htx : st.clients.lookup c = some tx) :
    ∃ before round after, h = before ++ (.registerClient c tx,round) :: after ∧
      (∀ x ∈ after, ¬ Reregisters c x.1) ∧
      (∀ x ∈ after, ∀ send ∈ x.2.sends, send.client = c → send.channel = tx) ∧
      waiting c before ++ produced c after = handed c after ++ waiting c h ∧
      (waiting c before = [] → (handed c after = produced c after ↔ waiting c h = [])) := by
  obtain ⟨before,round,after,hsplit,hkeeps,hchannel,hbalance⟩ := balance_of_registered hst htx
  refine ⟨before,round,after,hsplit,hkeeps,hchannel,hbalance,fun hnone => ?_⟩
  rw [hnone, List.nil_append] at hbalance
  rw [hbalance]
  exact List.self_eq_append_right
end

def bobLeaves : List (Event Unit) :=
  [.registerClient 1 10, .registerClient 2 20, .msgFromClient 1 (.login "alice" "a") (.plain ()) .plain,
    .msgFromClient 2 (.login "bob" "b") (.plain ()) .plain, .disconnected 2 (.plain ())]

theorem prompt_delivery_after_ping : ∃ h st,
    Reaches (step allowAll) (new ()) h st ∧
    h.map Prod.fst = bobLeaves ++ [.msgFromClient 1 (.ping 3) (.plain ()) .plain] ∧
    st.clients.lookup 1 = some 10 ∧ waiting 1 h = [] ∧
    ∃ before round after, h = before ++ (.registerClient 1 10,round) :: after ∧ (∀ x ∈ after, ¬ Reregisters 1 x.1) ∧
      (∀ x ∈ after, ∀ send ∈ x.2.sends, send.client = 1 → send.channel = 10) ∧
      waiting 1 before ++ produced 1 after = handed 1 after ++ waiting 1 h ∧
      (waiting 1 before = [] → (handed 1 after = produced 1 after ↔ waiting 1 h = [])) := by
  obtain ⟨h,st,hst,hevents,htx,hwaiting⟩ : ∃ h st, Reaches (step allowAll) (new ()) h st ∧
      h.map Prod.fst = bobLeaves ++ [.msgFromClient 1 (.ping 3) (.plain ()) .plain] ∧
      st.clients.lookup 1 = some 10 ∧ waiting 1 h = [] := exists_reaches_on _ (by decide +kernel)
  exact ⟨h,st,hst,hevents,htx,hwaiting,prompt_delivery_iff hst htx⟩

theorem engine_reaches_bob_leaves : ∃ h st, Reaches (step allowAll) (new ()) h st ∧ h.map Prod.fst = bobLeaves ∧
    Reaches (ServerEngine.step allowAll) (ServerEngine.new ()) (h.filterMap engineExchange) st.router.server := by
  obtain ⟨h,st,hst,hevents,-⟩ : ∃ h st, Reaches (step allowAll) (new ()) h st ∧ h.map Prod.fst = bobLeaves ∧
      st.clients.lookup 1 = some 10 := exists_reaches_on _ (by decide +kernel)
  exact ⟨h,st,hst,hevents,engine_reaches hst⟩

/-- The loop waits, and the list without bob is still in alice's outbox. -/
theorem disconnect_not_delivered : ∃ h st,
    Reaches (step allowAll) (new ()) h st ∧ h.map Prod.fst = bobLeaves ∧ st.clients.lookup 1 = some 10 ∧
      produced 1 h = handed 1 h ++ [.peersOnline []] ∧ st.router.outboxes.lookup 1 = some [.peersOnline []] :=
  exists_reaches_on _ (by decide +kernel)
end ServerLoop
end RustyRtc.Signaling
