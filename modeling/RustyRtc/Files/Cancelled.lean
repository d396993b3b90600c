import RustyRtc.Files.Consent
import RustyRtc.Files.Driving
import RustyRtc.Sctp.Order

/-! # After the peer has cancelled an upload

The window takes the flag down, and the reader stays in the listener's map and among the active ones. It rests as long
as the flag is down. The next upload raises the flag again, and the thread that asks for chunks asks for those of both.
-/
namespace RustyRtc.Files
open Sctp FileHandler Thread SctpSession
variable {event : SctpEvents}

section Kinds
variable (id : UInt32)
def FileHandlerEvents.serves : FileHandlerEvents → Bool
  | .getChunk id' | .readChunk id' _ | .readerWorkerFinished id' => id' = id
  | _ => false
def EngineEvent.serves : EngineEvent → Bool
  | .sendFileChunk id' _ | .sendFileEnd id' => id' = id
  | _ => false
def sendsUpload : SctpEvents → Bool
  | .sendChunk id' _ | .sendEndFile id' => id' = id
  | _ => false
def isUpload : SctpProtocolMessage → Bool
  | .chunk id' _ _ | .endFile id' => id' = id
  | _ => false
theorem isUpload_eq (msg : SctpProtocolMessage) : isUpload id msg =
    ((decide (msg.msgType = SctpProtocolMessage.typeChunk) || decide (msg.msgType = SctpProtocolMessage.typeEndFile)) &&
      decide (msg.id = id)) := by
  cases msg <;> rfl

theorem outgoing_upload : Outgoing (sendsUpload id) (isUpload id) where
  head msg msg' htype hid := by rw [isUpload_eq,isUpload_eq,htype,hid]

def Thread.asked (t : Thread) : Bool :=
  match t.worker with
  | .reader w => t.id = id && w.running && decide (.getChunk ∈ w.rxCmd)
  | .writer _ => false
end Kinds

namespace FileHandler
variable {c : Computer} {h : FileHandler} {id : UInt32} {event : FileHandlerEvents} {t : Thread} {w : Surroundings}
theorem asked_told (hasked : (h.told t.id event t).asked id = true) :
    t.asked id = true ∨ event = .getChunk id ∨ event = .drainChunks ∧ t.reading = some id := by
  have hid := @id_told h t.id event t
  cases hworker : t.worker with
  | writer w =>
    obtain ⟨commands,hwriter,-⟩ := Peer.told_writer t.id h event hworker
    simp [asked,hwriter] at hasked
  | reader w =>
    obtain ⟨commands,hreader,hget⟩ := @told_reader h t.id event t w hworker
    simp only [asked,hreader,hid,Bool.and_eq_true,decide_eq_true_eq,List.mem_append] at hasked
    obtain ⟨⟨rfl,hrunning⟩,hold | hnew⟩ := hasked
    · exact .inl (by simp [asked,hworker,hrunning,hold])
    · obtain ⟨hlisted,hevent⟩ := hget hnew
      exact .inr (hevent.imp_right fun hdrain => ⟨hdrain,by simp [reading,hworker,hlisted,hrunning]⟩)

/-- A reader is asked by its own event, or because it is among the uploads when all active ones are asked. -/
theorem asked_handle (ht : t ∈ (h.handle c w event).1.threads) (hasked : t.asked id = true) :
    (∃ t ∈ h.threads, t.asked id = true) ∨ event = .getChunk id ∨ event = .drainChunks ∧ id ∈ h.uploads := by
  rw [threads_handle] at ht
  rcases List.mem_append.mp ht with ht | hnew
  · obtain ⟨t,hmem,rfl⟩ := List.mem_map.mp ht
    unfold handled at hasked
    split at hasked
    · exact .inl ⟨t,hmem,hasked⟩
    · rcases asked_told hasked with hold | hget | ⟨hdrain,hreading⟩
      · exact .inl ⟨t,hmem,hold⟩
      · exact .inr (.inl hget)
      · exact .inr (.inr ⟨hdrain,mem_uploads.mpr (.inr ⟨t,hmem,hreading⟩)⟩)
  · obtain ⟨path,id',file,-,-,rfl⟩ | ⟨filename,id',-,rfl⟩ := spawned_cases (Option.mem_toList.mp hnew)
    · simp [asked,ReaderWorker.new] at hasked
    · cases hasked

theorem serves_handle {event' : EngineEvent}
    (hmem : event' ∈ (h.handle c w event).2) (hserves : event'.serves id = true) : event.serves id = true := by
  cases event with
  | readFile path id' =>
    simp only [handle,readFile] at hmem
    cases hdisk : c.disk path <;> rw [hdisk] at hmem <;> simp at hmem
    subst hmem
    cases hserves
  | _ =>
    simp [handle] at hmem
    try
      subst hmem
      first
      | cases hserves
      | exact hserves

theorem step_unasked {r : CallResult} (hasked : t.asked id = false) :
    (∀ event ∈ (step r t).2, event.serves id = false) ∧
      asked id { t with worker := (step r t).1 } = false := by
  by_cases hid : t.id = id
  · obtain ⟨id',w | w,listed⟩ := t
    · cases hrunning : w.running with
      | false => simp [step,ReaderWorker.step,asked,hrunning]
      | true =>
        cases hcmd : w.rxCmd with
        | nil => simp [step,ReaderWorker.step,asked,hrunning,hcmd]
        | cons command rest =>
          cases command with
          | cancel => simp [step,ReaderWorker.step,asked,hrunning,hcmd]
          | getChunk => simp_all [asked]
    · refine ⟨?_,rfl⟩
      simp only [step,WriterWorker.step]
      split
      · split
        all_goals try simp
        · rfl
        · split <;> simp [FileHandlerEvents.serves]
      · simp
  · refine ⟨fun event hevent => ?_,?_⟩
    · have hfrom := fromWorker_of_mem_step hevent
      cases event <;> simp_all [fromWorker,FileHandlerEvents.serves]
    · unfold asked
      split <;> simp [hid]
end FileHandler

namespace Peer
variable {c : Computer} {p : Peer} {id : UInt32} {n : ℕ} {t : Turn}

/-- Nothing of the upload is on its way, the listener has not been told to ask for chunks, and the thread that tells it is
in no burst. -/
def Idle (id : UInt32) (p : Peer) : Prop :=
  p.drainThread.resting = true ∧ (∀ event ∈ p.handler.rx, event.serves id = false ∧ event ≠ .drainChunks) ∧
    (∀ t ∈ p.handler.threads, t.asked id = false) ∧ (∀ event ∈ p.events, event.serves id = false) ∧
    (∀ event ∈ p.sctp.toSender, sendsUpload id event = false) ∧ ∀ msg ∈ p.sctp.pending, isUpload id msg = false
instance (id : UInt32) : DecidablePred (Idle id) := fun _ => inferInstanceAs (Decidable (_ ∧ _ ∧ _ ∧ _ ∧ _ ∧ _))

/-- The user starts no upload with this id, and no other one while this one is there. -/
def Spares (id : UInt32) (p : Peer) : Move → Prop
  | .turn (.frame (some (.sendFile _ id'))) => id' ≠ id ∧ id ∉ p.handler.uploads
  | _ => True
instance (id : UInt32) (p : Peer) : DecidablePred (Spares id p) := fun m => by
  unfold Spares
  split <;> infer_instance

/-- The reader of the upload rests, and no more than `n` of its messages have been sent. -/
structure Rests (id : UInt32) (n : ℕ) (p : Peer) : Prop where
  rx : ∀ event ∈ p.handler.rx, event.serves id = false
  flag : id ∈ p.handler.uploads →
    p.sendingFiles = false ∧ p.drainThread.resting = true ∧ .drainChunks ∉ p.handler.rx
  threads : ∀ t ∈ p.handler.threads, t.asked id = false
  events : ∀ event ∈ p.events, event.serves id = false
  sent : p.sctp.outgoing (sendsUpload id) (isUpload id) ≤ n

theorem serves_request {event : FileHandlerEvents} (h : (p.request t).listener = some event) :
    event.serves id = false ∧ (event = .drainChunks → p.drainThread.resting = false) := by
  have hasks := p.asks_request t
  generalize p.request t = r at h hasks
  cases hasks with
  | none => cases h
  | @pass event' => cases event' <;> cases h <;> exact ⟨rfl,nofun⟩
  | drainChunks hburst => cases h; exact ⟨rfl,fun _ => hburst⟩
  | @press _ button => cases button <;> cases h <;> exact ⟨rfl,nofun⟩

theorem sendsUpload_request (h : (p.request t).session = some event)
    (hsends : sendsUpload id event = true) : ∃ event' ∈ p.events, event'.serves id = true := by
  have hevents := p.events_eq t
  generalize p.request t = r at h hevents
  cases r with
  | pass event' =>
    refine ⟨event',by simp [hevents,Request.passed],?_⟩
    cases event' <;> cases h <;> first | cases hsends | exact hsends
  | press button => cases button <;> cases h <;> cases hsends
  | _ => cases h

theorem Rests.listen (h : p.Rests id n) (w : Surroundings) : (p.step c (.listen w)).Rests id n := by
  have huploads := @FileHandler.uploads_listen c p.handler w
  rw [Peer.step]
  unfold FileHandler.listen at huploads ⊢
  cases hrx : p.handler.rx with
  | nil => simpa using h
  | cons event rest =>
    have hrest := h.rx
    rw [hrx] at huploads hrest
    have hkept : ∀ {event'}, event' ∈ (FileHandler.handle c w { p.handler with rx := rest } event).1.rx →
        (∀ e, event' ≠ .err e) → event' ∈ rest := fun hmem hne => mem_rx_of_handle c hmem hne
    refine ⟨fun event' hmem => ?_,fun hid => ⟨(h.flag (huploads hid)).1,(h.flag (huploads hid)).2.1,fun hmem => ?_⟩,fun t ht => ?_,?_,h.sent⟩
    · by_cases herr : ∃ e, event' = .err e
      · obtain ⟨e,rfl⟩ := herr
        rfl
      · exact hrest event' (List.mem_cons_of_mem _ (hkept hmem fun e heq => herr ⟨e,heq⟩))
    · refine (h.flag (huploads hid)).2.2 ?_
      rw [hrx]
      exact List.mem_cons_of_mem _ (hkept hmem (by simp))
    · by_contra hasked
      rcases asked_handle ht (by simpa using hasked) with ⟨t,hmem,hasked⟩ | rfl | ⟨rfl,hid⟩
      · simp [h.threads t hmem] at hasked
      · simpa [FileHandlerEvents.serves] using hrest _ (List.mem_cons_self ..)
      · have hid' : id ∈ p.handler.uploads := by
          rw [FileHandler.mem_uploads] at hid ⊢
          refine hid.imp_left ?_
          rintro ⟨e,he,hread⟩
          exact ⟨e,by rw [hrx]; exact List.mem_cons_of_mem _ he,hread⟩
        exact (h.flag hid').2.2 (by simp [hrx])
    · intro event' hmem
      rcases List.mem_append.mp hmem with hmem | hmem
      · exact h.events event' hmem
      · by_contra hserves
        have hnow := serves_handle hmem (by simpa using hserves)
        simp [hrest event (List.mem_cons_self ..)] at hnow

theorem Rests.work (h : p.Rests id n) (i : ℕ) (r : FileHandler.CallResult) : (p.step c (.work i r)).Rests id n := by
  have huploads := @FileHandler.uploads_work p.handler i r
  rw [Peer.step]
  rcases work_cases i r p.handler with hsame | ⟨t,ht,hwork⟩
  · rw [hsame]
    exact h
  · obtain ⟨hsaid,hafter⟩ := step_unasked (t := t) (r := r.of t) (h.threads t (List.mem_of_getElem? ht))
    rw [hwork] at huploads ⊢
    refine ⟨fun event hmem => ?_,fun hid => ⟨(h.flag (huploads hid)).1,(h.flag (huploads hid)).2.1,fun hmem => ?_⟩,fun t' ht' => ?_,h.events,h.sent⟩
    · exact (List.mem_append.mp hmem).elim (h.rx event) (hsaid event)
    · rcases List.mem_append.mp hmem with hmem | hmem
      · exact (h.flag (huploads hid)).2.2 hmem
      · cases fromWorker_of_mem_step hmem
    · rcases List.mem_or_eq_of_mem_set ht' with hold | rfl
      · exact h.threads t' hold
      · exact hafter

theorem Rests.session (h : p.Rests id n) {s : SctpSession} {events : List EngineEvent}
    (hsent : s.outgoing (sendsUpload id) (isUpload id) ≤ p.sctp.outgoing (sendsUpload id) (isUpload id))
    (hevents : ∀ event ∈ events, event.serves id = false) : Rests id n { p with sctp := s, events := events } :=
  ⟨h.rx,h.flag,h.threads,hevents,hsent.trans h.sent⟩
theorem outgoing_route (s : SctpSession) (hevent : sendsUpload id event = false) :
    (s.route event).outgoing (sendsUpload id) (isUpload id) = s.outgoing (sendsUpload id) (isUpload id) := by
  cases hsender : event.forSender <;> simp [route,outgoing,posted,hsender,hevent]
theorem Rests.hear (h : p.Rests id n) (now : ℕ) (data : Bytes) : (p.hear now data).Rests id n := by
  refine h.session ?_ h.events
  obtain ⟨-,heq⟩ | ⟨msg,streams,-,-,heq⟩ := handleChunkData_cases now p.sctp data <;> rw [heq]
  exact (outgoing_route _ (by cases msg <;> rfl)).le

theorem Rests.ask (h : p.Rests id n) (ht : t.asks = true) (hspares : p.Spares id (.turn t)) :
    (p.step c t).Rests id n := by
  have hleads := @step_eq_ask p c t ht
  obtain ⟨out,s,r,state,d,hstep⟩ := hleads.eq
  have hreading : ∀ id', (p.request t).reading = some id' → id' ≠ id ∧ id ∉ p.handler.uploads := by
    intro id' hread
    obtain ⟨input,rfl⟩ := (p.asks_request t).reading hread
    exact hspares
  refine ⟨fun event hmem => ?_,fun hid => ?_,?_,fun event hmem => ?_,?_⟩
  · exact (mem_rx_step ht hmem).elim (h.rx event) fun hnew => (serves_request hnew).1
  · have hold : id ∈ p.handler.uploads := by
      rw [FileHandler.mem_uploads] at hid ⊢
      rcases hid with ⟨event,hmem,hread⟩ | hthread
      · refine .inl ⟨event,(mem_rx_step ht hmem).resolve_right fun hnew => ?_,hread⟩
        exact (hreading id (by simp [Request.reading,hnew,hread])).1 rfl
      · rw [handler_step c ht] at hthread
        exact .inr hthread
    obtain ⟨hdown,hresting,hdrain⟩ := h.flag hold
    refine ⟨Bool.eq_false_iff.mpr fun hup => ?_,hleads.resting hresting hdown,fun hmem => ?_⟩
    · rcases hleads.raised hup with hup | hsome
      · simp [hdown] at hup
      · obtain ⟨id',hread⟩ := Option.isSome_iff_exists.mp hsome
        exact (hreading id' hread).2 hold
    · have hburst := (@serves_request p id t _ ((mem_rx_step ht hmem).resolve_left hdrain)).2 rfl
      simp [hresting] at hburst
  · rw [handler_step c ht]
    exact h.threads
  · refine h.events event ?_
    rw [hstep] at hmem
    rw [p.events_eq t]
    exact List.mem_append_right _ hmem
  · have hquiet : (p.request t).session.any (sendsUpload id) = false := by
      refine Bool.eq_false_iff.mpr fun hany => ?_
      obtain ⟨event,hsession,hsends⟩ := (Option.any_eq_true _ _).mp hany
      obtain ⟨event',hmem,hserves⟩ := sendsUpload_request hsession hsends
      simp [h.events event' hmem] at hserves
    rw [hstep]
    refine (outgoing_ask _ _ _ _).trans ?_
    rw [hquiet]
    exact h.sent

theorem Rests.step (h : p.Rests id n) {m : Move} (hm : p.Spares id m) : (p.move c m).Rests id n := by
  cases m with
  | hear now data => exact h.hear now data
  | turn t =>
    rw [Peer.move]
    cases t with
    | listen w => exact h.listen w
    | work i r => exact h.work i r
    | transmit now results => exact h.session (outgoing_transmit (outgoing_upload id) now results) h.events
    | checkTimeouts now ids =>
      refine h.session ?_ h.events
      obtain ⟨silent,hsilent⟩ := checkStreamTimeouts_eq now ids p.sctp
      have hcancels : (silent.map SctpEvents.sendCancel).countP (sendsUpload id) = 0 := by
        simp [List.countP_eq_zero,sendsUpload]
      simp [hsilent,outgoing,posted,hcancels]
    | connected => exact h.session (outgoing_route p.sctp rfl).le h.events
    | report =>
      rw [Peer.step,Peer.report]
      cases hparent : p.sctp.toParent with
      | nil => exact h
      | cons event rest =>
        have hfrom := p.sctp.forParent_of_mem event (by simp [hparent])
        refine h.session le_rfl fun event' hmem => ?_
        rcases List.mem_append.mp hmem with hmem | hmem
        · exact h.events event' hmem
        · cases event <;> simp_all [engineEvent,SctpEvents.forParent,EngineEvent.serves]
    | poll | drain _ | frame _ => exact h.ask rfl hm
    | stop =>
      rw [Peer.step,Peer.stop]
      split
      · refine ⟨h.rx,fun hid => ⟨rfl,(h.flag ?_).2⟩,fun t' ht' => ?_,h.events,h.sent⟩
        · exact uploads_tell (fun t id hread => by simp [reading_of_unlisted] at hread) hid
        · rw [threads_shutdown] at ht'
          obtain ⟨t,ht,rfl⟩ := List.mem_map.mp ht'
          refine Bool.eq_false_iff.mpr fun hasked => ?_
          simpa [h.threads t ht] using asked_told hasked
      · exact h
    | close => exact ⟨h.rx,h.flag,h.threads,h.events,h.sent⟩

theorem stream0_hear (now : ℕ) (data : Bytes) (s : SctpSession) : (s.handleChunkData now data).stream0 = s.stream0 := by
  unfold handleChunkData
  split <;> rfl

theorem stream0_transmit (now : ℕ) (results : ℕ → WriteResult) (s : SctpSession) :
    s.stream0 <+: (s.transmit now results).stream0 := by
  have hone : ∀ (result : WriteResult) (s : SctpSession) (msg : SctpProtocolMessage),
      s.stream0 <+: (sendMessage result s msg).stream0 := by
    intro result s msg
    obtain ⟨data,-,⟨-,h⟩ | ⟨-,h⟩ | ⟨-,h⟩⟩ := sendMessage_cases result s msg <;> rw [h]
    exact List.prefix_append _ _
  have hflush : ∀ s : SctpSession, s.stream0 <+: (s.flush results).stream0 := fun s =>
    @SctpSession.foldl_sendMessage (fun s' => s.stream0 <+: s'.stream0) results _ { s with pending := [] }
      List.prefix_rfl fun s' m _ hs' => hs'.trans (hone _ _ _)
  rw [transmit]
  cases s.toSender with
  | nil => exact List.prefix_rfl
  | cons event rest =>
    exact handle_cases (P := fun s' => s.stream0 <+: s'.stream0) now results _ (fun _ => hflush { s with toSender := rest })
      (fun _ => List.prefix_rfl) fun streams msg _ => hone _ { s with toSender := rest, streams := streams } msg

theorem stream0_move (c : Computer) (p : Peer) (m : Move) : p.sctp.stream0 <+: (p.move c m).sctp.stream0 := by
  have hask {t : Turn} (ht : t.asks = true) : p.sctp.stream0 <+: (p.step c t).sctp.stream0 := by
    obtain ⟨out,s,r,state,d,hstep⟩ := (@step_eq_ask p c t ht).eq
    rw [hstep,Peer.ask]
    cases p.session <;> cases (p.request t).session <;> exact List.prefix_rfl
  cases m with
  | hear now data => exact (stream0_hear now data p.sctp).symm ▸ List.prefix_rfl
  | turn t =>
    cases t with
    | transmit now results => exact stream0_transmit now results p.sctp
    | checkTimeouts now ids =>
      obtain ⟨silent,hsilent⟩ := checkStreamTimeouts_eq now ids p.sctp
      rw [Peer.move,Peer.step,hsilent]
    | poll | drain _ | frame _ => exact hask rfl
    | report =>
      rw [Peer.move,Peer.step,Peer.report]
      split <;> exact List.prefix_rfl
    | stop =>
      rw [Peer.move,Peer.step,Peer.stop]
      split <;> exact List.prefix_rfl
    | _ => exact List.prefix_rfl

theorem frame_of_cancel (hcancel : .receivedFileCancel id ∈ p.out) : ∃ r state, p.frame none =
    { p with out := [], sendingFiles := false, receivingFiles := r, fileTransferState := state } := by
  obtain ⟨before,after,hout⟩ := List.append_of_mem hcancel
  obtain ⟨s,r,state,-,-,hbefore⟩ := foldl_handleEngineEvent_eq before { p with out := [] }
  obtain ⟨s',r',state',-,hs',hafter⟩ := foldl_handleEngineEvent_eq after
    (handleEngineEvent (before.foldl handleEngineEvent { p with out := [] }) (.receivedFileCancel id))
  obtain rfl : s' = false := Bool.eq_false_iff.mpr fun h => by simpa [handleEngineEvent] using hs' h
  refine ⟨r',state',?_⟩
  rw [Peer.frame,hout,List.foldl_append,List.foldl_cons,hafter,hbefore]
  rfl

theorem Rests.run (h : p.Rests id (p.sctp.stream0.countP (carries (isUpload id)))) {later : List Move}
    (hlater : Along (Peer.move c) (Spares id) p later) :
    ∃ new, (later.foldl (Peer.move c) p).sctp.stream0 = p.sctp.stream0 ++ new ∧
      ∀ data ∈ new, carries (isUpload id) data = false := by
  have hsent := (hlater.invariant (fun _ _ h hm => Rests.step h hm) h).sent
  obtain ⟨new,hnew⟩ : p.sctp.stream0 <+: (later.foldl (Peer.move c) p).sctp.stream0 :=
    List.foldlRecOn (motive := fun q => p.sctp.stream0 <+: q.sctp.stream0) later _ List.prefix_rfl
      fun q hq m _ => hq.trans (stream0_move c q m)
  refine ⟨new,hnew.symm,fun data hdata => Bool.eq_false_iff.mpr fun hcarries => ?_⟩
  have hsome : 0 < new.countP (carries (isUpload id)) := List.countP_pos_iff.mpr ⟨data,hdata,hcarries⟩
  rw [outgoing,posted,← hnew,List.countP_append] at hsent
  omega

/-- Once the window knows of the Cancel, nothing of the upload is on its way and no burst has begun, no chunk of it is sent
any more and no end of file, as long as no other upload raises the flag while its reader is there. -/
theorem cancelled_stays_cancelled (c : Computer) (hcancel : .receivedFileCancel id ∈ p.out) (hidle : p.Idle id)
    (later : List Move) (hlater : Along (Peer.move c) (Spares id) (p.frame none) later) :
    ∃ new, (later.foldl (Peer.move c) (p.frame none)).sctp.stream0 = p.sctp.stream0 ++ new ∧
      ∀ data ∈ new, carries (isUpload id) data = false := by
  obtain ⟨r,state,hframe⟩ := frame_of_cancel hcancel
  rw [hframe] at hlater ⊢
  obtain ⟨hresting,hrx,hthreads,hevents,hsender,hpending⟩ := hidle
  have hwaiting : p.sctp.outgoing (sendsUpload id) (isUpload id) = p.sctp.stream0.countP (carries (isUpload id)) := by
    have hsender' : p.sctp.toSender.countP (sendsUpload id) = 0 := by simpa [List.countP_eq_zero] using hsender
    have hpending' : p.sctp.pending.countP (isUpload id) = 0 := by simpa [List.countP_eq_zero] using hpending
    simp [SctpSession.outgoing,SctpSession.posted,hsender',hpending']
  refine Rests.run ?_ hlater
  exact ⟨fun event hmem => (hrx event hmem).1,fun _ => ⟨rfl,hresting,fun hmem => (hrx _ hmem).2 rfl⟩,hthreads,hevents,hwaiting.le⟩

def cancelledUpload : Peer := (History.run oneFile (Uploads.acceptedUpload ++ Uploads.told (.cancel 7))).peer
def transmits (n : ℕ) : List Move := List.replicate n (.turn (.transmit 0 fun _ => .written))

/-- The thread that asks for chunks finds the flag, if it is up, and the buffer low, and begins its burst. -/
def asksForChunks : List Move := List.replicate 3 (.turn (.drain false))

/-- The chunks of the upload are asked for, and whatever comes of it goes on. -/
def goesOn : List Move :=
  asksForChunks ++ [.turn (.listen ready), .turn (.work 0 { read := .ok 9, write := .ok }),
    .turn (.listen ready), .turn (.listen ready), .turn .poll, .turn .poll, .turn .poll] ++
    transmits 2
theorem cancelled_upload_rests : .receivedFileCancel 7 ∈ cancelledUpload.out ∧ cancelledUpload.Idle 7 ∧
    ∃ new, ((transmits 2 ++ goesOn).foldl (Peer.move oneFile) (cancelledUpload.frame none)).sctp.stream0 =
      cancelledUpload.sctp.stream0 ++ new ∧ ∀ data ∈ new, carries (isUpload 7) data = false :=
  ⟨by decide +kernel,by decide +kernel,cancelled_stays_cancelled oneFile (by decide +kernel) (by decide +kernel)
    (transmits 2 ++ goesOn) (by decide +kernel)⟩
def nextUpload : List Move :=
  transmits 2 ++ [.turn (.frame (some (.sendFile ['g'] 8))), .turn (.listen ready)] ++ goesOn

/-- A chunk of the cancelled upload goes out with the next one. -/
theorem next_upload_revives_cancelled : .receivedFileCancel 7 ∈ cancelledUpload.out ∧ cancelledUpload.Idle 7 ∧
    cancelledUpload.sctp.stream0.countP (carries (isUpload 7)) = 0 ∧
    (nextUpload.foldl (Peer.move oneFile) (cancelledUpload.frame none)).sctp.stream0.countP
      (carries (isUpload 7)) = 1 := by
  decide +kernel
end Peer
end RustyRtc.Files
