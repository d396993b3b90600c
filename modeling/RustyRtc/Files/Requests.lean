import RustyRtc.Files.Peer

/-! # What the engine passes on

Whatever `poll`, the thread that asks for chunks and the window do comes down to at most one event for the listener
and one for the session, besides what they do to the queues in front of them, to the flags and to the window.
-/
namespace RustyRtc.Files
open Sctp FileTransferState

/-- What the button does that the user presses; `lowers` says that the flag of the uploads is taken down with it. -/
inductive Press where
  | send (path : Text) (id : UInt32)
  | accept (props : SctpFileProperties)
  | reject (id : UInt32)
  | cancel (id : UInt32) (lowers : Bool)
  deriving DecidableEq, Repr

inductive Request where
  | none
  /-- `poll` takes the event from the queue. -/
  | pass (event : EngineEvent)
  | drainChunks
  | press (button : Press)
def Request.of (button : Option Press) : Request := button.elim .none .press
def FileHandlerEvents.reading : FileHandlerEvents → Option UInt32
  | .readFile _ id => some id
  | _ => none

namespace Request
variable {r : Request}
def listener : Request → Option FileHandlerEvents
  | .pass (.receivedFileChunk id _ payload) => some (.writeChunk id payload)
  | .pass (.receivedFileAccept id) => some (.remoteAccepted id)
  | .drainChunks => some .drainChunks
  | .press (.send path id) => some (.readFile path id)
  | .press (.accept props) => some (.writeFile props.fileName props.transactionId)
  | .press (.cancel id _) => some (.cancel id)
  | _ => Option.none
def session : Request → Option SctpEvents
  | .pass (.sendFileOffer props) => some (.sendOffer props)
  | .pass (.sendFileChunk id payload) => some (.sendChunk id payload)
  | .pass (.sendFileEnd id) => some (.sendEndFile id)
  | .press (.accept props) => some (.sendAccept props.transactionId)
  | .press (.reject id) => some (.sendReject id)
  | .press (.cancel id _) => some (.sendCancel id)
  | _ => Option.none

/-- The offer that the user accepts. -/
def offer : Request → Option EngineEvent
  | .press (.accept props) => some (.receivedFileOffer props)
  | _ => Option.none
def reading (r : Request) : Option UInt32 := r.listener.bind (·.reading)
def passed : Request → List EngineEvent
  | .pass event => [event]
  | _ => []

/-- Nothing that is passed on goes back to the engine. -/
theorem forParent_session {event : SctpEvents} (h : r.session = some event) : event.forParent = false := by
  cases r with
  | pass event' => cases event' <;> cases h <;> rfl
  | press button => cases button <;> cases h <;> rfl
  | _ => cases h
end Request

/-- The turns that are no more than such a request. -/
def Turn.asks : Turn → Bool
  | .poll | .drain _ | .frame _ => true
  | _ => false

/-- The event that has brought the window into its state. -/
def FileTransferState.shows : FileTransferState → Option EngineEvent
  | .remoteOffered props => some (.receivedFileOffer props)
  | .finished msg => some (.status msg)
  | _ => none

/-- No burst has begun, nor is one about to. -/
def DrainThread.resting : DrainThread → Bool
  | .asleep | .ended => true
  | .flagged | .bursting _ => false

namespace Peer
variable {t : Turn}

/-- The events of one kind that have not come to the window yet, or that it shows. -/
def unseen (P : EngineEvent → Bool) (p : Peer) : ℕ :=
  p.events.countP P + p.out.countP P + (p.fileTransferState.shows.any P).toNat
def ask (p : Peer) (r : Request) : Peer :=
  { p with
    handler := if p.fileHandler then r.listener.elim p.handler p.handler.send else p.handler
    sctp := if p.session then r.session.elim p.sctp p.sctp.route else p.sctp }
def press (p : Peer) : Press → Peer
  | .send path id => p.sendFile path id
  | .accept props => p.acceptFile props.transactionId props.fileName
  | .reject id => p.rejectFile id
  | .cancel id lowers => { p.cancelFile id with sendingFiles := p.sendingFiles && !lowers }

/-- The button behind the user's action, by the state of the window. -/
def wish (p : Peer) (action : UserAction) : Option Press :=
  match p.fileTransferState, action with
  | .idle, .sendFile input id =>
    if p.sendingFiles || p.receivingFiles || (trim input).isEmpty then none else some (.send (trim input) id)
  | .idle, .cancel => if p.sendingFiles || p.receivingFiles then some (.cancel 0 true) else none
  | .remoteOffered props, .accept => some (.accept props)
  | .remoteOffered props, .reject => some (.reject props.transactionId)
  | .sending id _, .cancel => some (.cancel id true)
  | .receiving id _, .cancel => some (.cancel id false)
  | _, _ => none

/-- The button that the user presses once the window has handled what `poll` has collected. -/
def pressed (p : Peer) (action : Option UserAction) : Option Press := action.bind (p.frame none).wish
def request (p : Peer) : Turn → Request
  | .poll => p.events.head?.elim .none .pass
  | .drain _ =>
    match p.drainThread with
    | .bursting (_ + 1) => .drainChunks
    | _ => .none
  | .frame action => .of (p.pressed action)
  | _ => .none
def eventsAfter (p : Peer) : Turn → List EngineEvent
  | .poll => p.events.tail
  | _ => p.events

variable {p : Peer}
/-- How a turn comes to ask for something. -/
inductive Asks (p : Peer) : Turn → Request → Prop
  | none {t : Turn} (h : p.eventsAfter t = p.events) : Asks p t .none
  | pass {event : EngineEvent} {rest : List EngineEvent} (h : p.events = event :: rest) : Asks p .poll (.pass event)
  | drainChunks {high : Bool} (h : p.drainThread.resting = false) : Asks p (.drain high) .drainChunks
  | press {action : Option UserAction} {button : Press} (h : p.pressed action = some button) :
    Asks p (.frame action) (.press button)

theorem asks_request (p : Peer) (t : Turn) : p.Asks t (p.request t) := by
  unfold request
  split
  · cases hevents : p.events with
    | nil => exact .none (by simp [eventsAfter,hevents])
    | cons event rest => exact .pass hevents
  · split
    · next hburst => exact .drainChunks (by rw [hburst]; rfl)
    · exact .none rfl
  · next action =>
    cases hpressed : p.pressed action with
    | none => exact .none rfl
    | some button => exact .press hpressed
  · next hpoll _ _ =>
    cases t with
    | poll => exact absurd rfl hpoll
    | _ => exact .none rfl

theorem Asks.send {path : Text} {id : UInt32} (h : p.Asks t (.press (.send path id))) :
    ∃ input, t = .frame (some (.sendFile input id)) ∧ path = trim input := by
  cases h with
  | press hpressed =>
    obtain ⟨action,rfl,hwish⟩ := Option.bind_eq_some_iff.mp hpressed
    unfold wish at hwish
    split at hwish
    · split at hwish
      · cases hwish
      · obtain ⟨rfl,rfl⟩ := Press.send.inj (Option.some.inj hwish)
        exact ⟨_,rfl,rfl⟩
    · split at hwish <;> cases hwish
    all_goals cases hwish
theorem Asks.accept {props : SctpFileProperties} (h : p.Asks t (.press (.accept props))) :
    t = .frame (some .accept) ∧ (p.frame Option.none).fileTransferState = .remoteOffered props := by
  cases h with
  | press hpressed =>
    obtain ⟨action,rfl,hwish⟩ := Option.bind_eq_some_iff.mp hpressed
    unfold wish at hwish
    split at hwish
    · split at hwish <;> cases hwish
    · split at hwish <;> cases hwish
    · next hstate =>
      cases hwish
      exact ⟨rfl,hstate⟩
    all_goals cases hwish
theorem Asks.reading {r : Request} {id : UInt32} (h : p.Asks t r) (hread : r.reading = some id) :
    ∃ input, t = .frame (some (.sendFile input id)) := by
  cases r with
  | press button =>
    cases button with
    | send path id' =>
      obtain ⟨input,rfl,-⟩ := h.send
      cases hread
      exact ⟨input,rfl⟩
    | _ => cases hread
  | pass event => cases event <;> cases hread
  | _ => cases hread
theorem events_eq (p : Peer) (t : Turn) : p.events = (p.request t).passed ++ p.eventsAfter t := by
  have hasks := p.asks_request t
  generalize p.request t = r at hasks ⊢
  cases hasks with
  | none hsame => exact hsame.symm
  | pass hevents => simp [eventsAfter,hevents,Request.passed]
  | _ => rfl

theorem toParent_ask (p : Peer) (r : Request) : (p.ask r).sctp.toParent = p.sctp.toParent := by
  rw [ask]
  dsimp only
  split
  · cases hsession : r.session with
    | none => rfl
    | some event => simp [SctpSession.route,Request.forParent_session hsession]
  · rfl

theorem handler_ask (p : Peer) (r : Request) : (p.ask r).handler =
    { p.handler with rx := p.handler.rx ++ if p.fileHandler then r.listener.toList else [] } := by
  rw [ask]
  cases p.fileHandler <;> cases r.listener <;> simp [FileHandler.send]

theorem ask_none (p : Peer) : p.ask .none = p := by
  obtain ⟨handler,sctp,events,out,session,fileHandler,s,r,state,d⟩ := p
  cases session <;> cases fileHandler <;> rfl

/-- `q` is `p` after a request, with other flags and another state of the window. The flag goes up if and only if a file
is to be read, and no burst is prepared while it is down. Nothing is shown that was not on its way, and an accepted
offer no longer. -/
structure Leads (p : Peer) (events : List EngineEvent) (request : Request) (q : Peer) : Prop where
  eq : ∃ out s r state d, q = ask
    { p with
      events := events
      out := out
      sendingFiles := s
      receivingFiles := r
      fileTransferState := state
      drainThread := d } request
  unseen : ∀ P, q.unseen P + (request.offer.any P).toNat ≤ p.unseen P
  raised : q.sendingFiles = true → p.sendingFiles = true ∨ request.reading.isSome = true
  raises : request.reading.isSome = true → p.fileHandler = true → q.sendingFiles = true
  resting : p.drainThread.resting = true → p.sendingFiles = false → q.drainThread.resting = true

theorem Leads.refl (p : Peer) : p.Leads p.events .none p :=
  ⟨⟨_,_,_,_,_,(ask_none p).symm⟩,fun _ => le_rfl, .inl,nofun,fun h _ => h⟩

theorem unseen_pos {event : EngineEvent} : 0 < p.unseen (· == event) ↔
    event ∈ p.events ∨ event ∈ p.out ∨ p.fileTransferState.shows = some event := by
  have hshown : 0 < (p.fileTransferState.shows.any (· == event)).toNat ↔ p.fileTransferState.shows = some event := by
    cases p.fileTransferState.shows <;> simp [Nat.pos_iff_ne_zero]
  rw [unseen,Nat.add_pos_iff_pos_or_pos,Nat.add_pos_iff_pos_or_pos,hshown,or_assoc]
  exact or_congr List.count_pos_iff (or_congr_left List.count_pos_iff)

theorem press_eq_ask (p : Peer) (button : Option Press) : ∃ s r,
    button.elim p p.press = ask { p with sendingFiles := s, receivingFiles := r } (.of button) ∧
    (s = true → p.sendingFiles = true ∨ (Request.of button).reading.isSome = true) ∧
    ((Request.of button).reading.isSome = true → p.fileHandler = true → s = true) := by
  obtain ⟨handler,sctp,events,out,session,fileHandler,s,r,state,d⟩ := p
  cases button with
  | none => exact ⟨s,r,(ask_none _).symm, .inl,nofun⟩
  | some button =>
    cases button with
    | send path id =>
      exact ⟨fileHandler || s,r,by cases session <;> cases fileHandler <;> rfl,fun _ => .inr rfl,
        fun _ h => Bool.or_eq_true_iff.mpr (.inl h)⟩
    | accept props => exact ⟨s,session || r,by cases session <;> cases fileHandler <;> rfl, .inl,nofun⟩
    | reject id => exact ⟨s,r,by cases session <;> cases fileHandler <;> rfl, .inl,nofun⟩
    | cancel id lowers =>
      exact ⟨s && !lowers,r,by cases session <;> cases fileHandler <;> rfl,fun h => .inl (Bool.and_eq_true_iff.mp h).1,
        nofun⟩

/-- The window shows nothing new when the user acts, and an accepted offer no longer. -/
theorem frame_eq_press (p : Peer) (action : Option UserAction) : ∃ r state, p.frame action =
      { (p.pressed action).elim (p.frame none) (p.frame none).press with
        receivingFiles := r
        fileTransferState := state } ∧
    ∀ P, (state.shows.any P).toNat + ((Request.of (p.pressed action)).offer.any P).toNat ≤
      ((p.frame none).fileTransferState.shows.any P).toNat := by
  cases action with
  | none => exact ⟨_,_,rfl,fun _ => le_rfl⟩
  | some action =>
    unfold pressed
    change ∃ r state, (p.frame none).act action = _ ∧ _
    obtain ⟨handler,sctp,events,out,session,fileHandler,s,r,state,d⟩ := p.frame none
    cases state with
    | idle =>
      cases action with
      | sendFile input id =>
        simp only [act,Option.bind_some,wish]
        cases s || r <;> cases (trim input).isEmpty <;> cases fileHandler <;> exact ⟨r, .idle,rfl,fun _ => le_rfl⟩
      | cancel => cases s <;> cases r <;> cases session <;> cases fileHandler <;> exact ⟨_, .idle,rfl,fun _ => le_rfl⟩
      | _ => exact ⟨r, .idle,rfl,fun _ => le_rfl⟩
    | remoteOffered props | sending id filename | receiving id filename | finished msg =>
      cases action <;> cases s <;> cases session <;> cases fileHandler <;>
        exact ⟨_,_,rfl,fun P => by simp [wish,shows,Request.of,Request.offer]⟩

theorem leads_pollEvent (p : Peer) (event : EngineEvent) :
    Leads { p with events := event :: p.events } p.events (.pass event) (p.pollEvent event) := by
  have hout : ∃ out s r, (out = p.out ∨ out = p.out ++ [event]) ∧ (s = true → p.sendingFiles = true) ∧
      p.pollEvent event = ask { p with out := out, sendingFiles := s, receivingFiles := r } (.pass event) := by
    obtain ⟨handler,sctp,events,out,session,fileHandler,s,r,state,d⟩ := p
    cases event with
    | sendFileEnd _ => exact ⟨out,false,r, .inl rfl,nofun,by cases session <;> cases fileHandler <;> rfl⟩
    | sendFileOffer _ | sendFileChunk _ _ | receivedFileChunk _ _ _ =>
      exact ⟨out,s,r, .inl rfl,id,by cases session <;> cases fileHandler <;> rfl⟩
    | receivedFileAccept id => exact ⟨_,s,r, .inr rfl,fun h => h,by cases session <;> cases fileHandler <;> rfl⟩
    | receivedFileEnd _ => exact ⟨_,s,false, .inr rfl,id,(ask_none _).symm⟩
    | _ => exact ⟨_,s,r, .inr rfl,id,(ask_none _).symm⟩
  have hreading : (Request.pass event).reading = none := by cases event <;> rfl
  obtain ⟨out,s,r,hout,hs,hpoll⟩ := hout
  rw [hpoll]
  refine ⟨⟨_,_,_,_,_,rfl⟩,fun P => ?_,fun h => .inl (hs h),by simp [hreading],fun h _ => h⟩
  rcases hout with rfl | rfl <;>
    simp only [unseen,ask,Request.offer,List.countP_cons,List.countP_append,List.countP_nil,Option.any_none,
      Bool.toNat_false] <;>
    omega

theorem foldl_handleEngineEvent_eq (out : List EngineEvent) (p : Peer) : ∃ s r state,
    (∀ P, (state.shows.any P).toNat ≤ out.countP P + (p.fileTransferState.shows.any P).toNat) ∧
    (s = true → p.sendingFiles = true) ∧
    out.foldl handleEngineEvent p = { p with sendingFiles := s, receivingFiles := r, fileTransferState := state } := by
  induction out generalizing p with
  | nil => exact ⟨_,_,_,by simp,id,rfl⟩
  | cons event out ih =>
    obtain ⟨s,r,state,hstate,hs,hrest⟩ := ih (p.handleEngineEvent event)
    have hone : ∃ s r state, (∀ P, (state.shows.any P).toNat ≤ (if P event then 1 else 0) +
          (p.fileTransferState.shows.any P).toNat) ∧ (s = true → p.sendingFiles = true) ∧
        p.handleEngineEvent event = { p with sendingFiles := s, receivingFiles := r, fileTransferState := state } := by
      cases event with
      | status text =>
        simp only [handleEngineEvent]
        split
        · refine ⟨p.sendingFiles,_,_,fun P => ?_,id,rfl⟩
          cases hP : P (.status text) <;> simp [shows,hP]
        · exact ⟨p.sendingFiles,_,_,by simp,id,rfl⟩
      | receivedFileOffer props =>
        refine ⟨p.sendingFiles,_,_,fun P => ?_,id,rfl⟩
        cases hP : P (.receivedFileOffer props) <;> simp [shows,hP]
      | receivedFileReject _ | receivedFileCancel _ | sendFileEnd _ => exact ⟨false,_,_,by simp [shows],by simp,rfl⟩
      | sendFileOffer _ | receivedFileEnd _ => exact ⟨p.sendingFiles,_,_,by simp [shows],id,rfl⟩
      | _ => exact ⟨p.sendingFiles,_,_,by simp,id,rfl⟩
    obtain ⟨s',r',state',hstate',hs',hevent⟩ := hone
    refine ⟨s,r,state,fun P => ?_,fun h => hs' ?_,?_⟩
    · have hle := hstate P
      have hle' := hstate' P
      rw [hevent] at hle
      rw [List.countP_cons]
      dsimp only at hle
      omega
    · simpa [hevent] using hs h
    · rw [List.foldl_cons,hrest,hevent]

theorem leads_drain (high : Bool) (p : Peer) : p.Leads p.events (p.request (.drain high)) (p.drain high) := by
  obtain ⟨handler,sctp,events,out,session,fileHandler,s,r,state,d⟩ := p
  have hmoves {request : Request} {q : Peer} (d' : DrainThread) (hoffer : request.offer = none)
      (hreading : request.reading = none) (hd : d.resting = true → s = false → d'.resting = true)
      (hq : q = ask ⟨handler,sctp,events,out,session,fileHandler,s,r,state,d'⟩ request) :
      Leads ⟨handler,sctp,events,out,session,fileHandler,s,r,state,d⟩ events request q := by
    rw [hq]
    exact ⟨⟨_,_,_,_,_,rfl⟩,fun P => by simp [unseen,ask,hoffer], .inl,by simp [hreading],hd⟩
  match d with
  | .asleep =>
    cases s with
    | true => exact hmoves .flagged rfl rfl (fun _ h => by cases h) (ask_none _).symm
    | false =>
      cases fileHandler with
      | true => exact .refl _
      | false => exact hmoves .ended rfl rfl (fun _ _ => rfl) (ask_none _).symm
  | .flagged => exact hmoves _ rfl rfl (fun h => by cases h) (ask_none _).symm
  | .bursting 0 => exact hmoves .asleep rfl rfl (fun _ _ => rfl) (ask_none _).symm
  | .bursting (left + 1) =>
    cases fileHandler with
    | true => exact hmoves (.bursting left) rfl rfl (fun h => by cases h) (by cases session <;> rfl)
    | false => exact hmoves .ended rfl rfl (fun _ _ => rfl) (by cases session <;> rfl)
  | .ended => exact .refl _

/-- A turn of the engine, of the thread that asks for chunks, or of the window. -/
theorem step_eq_ask (c : Computer) {t : Turn} (ht : t.asks = true) :
    p.Leads (p.eventsAfter t) (p.request t) (p.step c t) := by
  cases t with
  | poll =>
    obtain ⟨handler,sctp,events,out,session,fileHandler,s,r,state,d⟩ := p
    cases events with
    | nil => exact .refl _
    | cons event rest => exact leads_pollEvent ⟨handler,sctp,rest,out,session,fileHandler,s,r,state,d⟩ event
  | drain high => exact leads_drain high p
  | frame action =>
    obtain ⟨s,r,state,hstate,hs,hframe⟩ := foldl_handleEngineEvent_eq p.out { p with out := [] }
    change p.frame none = _ at hframe
    obtain ⟨r',state',hact,hshown⟩ := frame_eq_press p action
    obtain ⟨s',_,hpress,hs',hreading⟩ := press_eq_ask (p.frame none) (p.pressed action)
    rw [hpress] at hact
    rw [hframe] at hact hshown hs' hreading
    change p.Leads p.events _ (p.frame action)
    rw [hact]
    refine ⟨⟨[],s',r',state',p.drainThread,rfl⟩,fun P => ?_,fun h => (hs' h).imp_left hs,hreading,fun h _ => h⟩
    have hle := hstate P
    have hle' := hshown P
    simp only [unseen,request,ask,List.countP_nil] at hle hle' ⊢
    omega
  | _ => cases ht

theorem handler_step (c : Computer) (ht : t.asks = true) : (p.step c t).handler =
    { p.handler with rx := p.handler.rx ++ if p.fileHandler then (p.request t).listener.toList else [] } := by
  obtain ⟨out,s,r,state,d,hstep⟩ := (step_eq_ask c ht).eq
  rw [hstep]
  exact handler_ask _ _

theorem mem_rx_step {c : Computer} {event : FileHandlerEvents} (ht : t.asks = true)
    (h : event ∈ (p.step c t).handler.rx) : event ∈ p.handler.rx ∨ (p.request t).listener = some event := by
  rw [handler_step c ht] at h
  refine (List.mem_append.mp h).imp_right fun hmem => ?_
  split at hmem
  · exact Option.mem_toList.mp hmem
  · cases hmem
end Peer
end RustyRtc.Files
