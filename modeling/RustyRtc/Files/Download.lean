import RustyRtc.Files.Handshake

/-! # A download

The chunks of a file go from the association to the engine's queue, to the listener and to the writer's channel. The
news that a writer has been given the end of its file goes back the same way, to the window.
-/
namespace RustyRtc.Files
open Sctp FileHandler FileHandler

section Chunks
variable (id : UInt32)
def writeChunkOf : FileHandlerEvents → Option Bytes
  | .writeChunk id' payload => if id' = id then some payload else none
  | _ => none
def receivedFileChunkOf : EngineEvent → Option Bytes
  | .receivedFileChunk id' _ payload => if id' = id then some payload else none
  | _ => none
def receivedChunkOf : SctpEvents → Option Bytes
  | .receivedChunk id' _ payload => if id' = id then some payload else none
  | _ => none
end Chunks
def WriterCommands.chunk? : WriterCommands → Option Bytes
  | .writeChunk payload => some payload
  | .cancel => none
theorem downloadComplete_injective {id id' : UInt32} (h : downloadComplete id = downloadComplete id') : id = id' := by
  have htext : toString id = toString id' := (String.append_right_inj _).mp h
  have hdecimal : ∀ i : UInt32, (toString i).toList = decimal i.toNat := fun i => Nat.toList_repr
  have hparsed := congrArg parseU32 (congrArg String.toList htext)
  rw [hdecimal,hdecimal,parseU32_decimal,parseU32_decimal] at hparsed
  exact Except.ok.inj hparsed

namespace Peer
variable {t : Thread} {h : FileHandler} {event : FileHandlerEvents}
def arrived (id : UInt32) (p : Peer) : List Bytes :=
  p.events.filterMap (receivedFileChunkOf id) ++ p.sctp.toParent.filterMap (receivedChunkOf id)

/-- The news that the download is complete is on its way to the window or has come there. -/
def Reported (id : UInt32) (p : Peer) : Prop :=
  .writerWorkerFinished id ∈ p.handler.rx ∨ .status (downloadComplete id) ∈ p.events ∨
    .status (downloadComplete id) ∈ p.out ∨ p.fileTransferState = .finished (downloadComplete id)

/-- A writer of the transfer has been given the end of the file. -/
def Finished (id : UInt32) (p : Peer) : Prop :=
  ∃ t ∈ p.handler.threadsOf id, ∃ w, t.worker = .writer w ∧ w.state = .finished

variable {c : Computer} {id : UInt32} {p : Peer}
theorem arrived_hear (now : ℕ) (data : Bytes) (p : Peer) :
    (p.hear now data).arrived id = p.arrived id ++ (chunkIn id data).toList := by
  rw [Peer.hear]
  obtain ⟨⟨e,hdata⟩,hsame⟩ | ⟨msg,streams,hdata,-,hroute⟩ := SctpSession.handleChunkData_cases now p.sctp data
  · simp [hsame,chunkIn,hdata,Except.toOption]
  · have hchunk : chunkIn id data = receivedChunkOf id msg.report := by
      cases msg <;> simp [chunkIn,hdata,Except.toOption,chunkOf,receivedChunkOf,SctpProtocolMessage.report]
    simp only [hroute,arrived,SctpSession.route,msg.forParent_report,if_true,List.filterMap_append,List.append_assoc,
      List.filterMap_cons,List.filterMap_nil,hchunk]
    cases receivedChunkOf id msg.report <;> rfl

theorem arrived_report (p : Peer) : p.report.arrived id = p.arrived id := by
  rw [Peer.report]
  cases hparent : p.sctp.toParent with
  | nil => rfl
  | cons event rest =>
    have hsame : (engineEvent event).toList.filterMap (receivedFileChunkOf id) = (receivedChunkOf id event).toList := by
      cases event with
      | receivedChunk id' seq payload =>
        by_cases hid : id' = id <;> simp [engineEvent,receivedFileChunkOf,receivedChunkOf,hid]
      | _ => rfl
    simp only [arrived,SctpSession.nextForParent,hparent,List.filterMap_append,hsame,List.tail_cons,
      List.append_assoc,List.filterMap_cons]
    cases receivedChunkOf id event <;> rfl

/-- The listener gives chunks to a writer it has in its map and changes nothing else about it. -/
theorem told_writer (id : UInt32) (h : FileHandler) (event : FileHandlerEvents) {w : WriterWorker}
    (ht : t.worker = .writer w) : ∃ commands, (h.told id event t).worker = .writer { w with rxCmd := w.rxCmd ++ commands } ∧
      commands.filterMap WriterCommands.chunk? = if t.listed then (writeChunkOf id event).toList else [] := by
  have hquiet : .writer w = Worker.writer { w with rxCmd := w.rxCmd ++ [] } := by rw [List.append_nil]
  cases hlisted : t.listed with
  | false =>
    rw [told_unlisted hlisted]
    exact ⟨[],ht.trans hquiet,rfl⟩
  | true =>
    unfold told
    rw [hlisted,if_pos rfl]
    cases event with
    | writeChunk id' payload =>
      by_cases hid : id = id'
      · refine ⟨[.writeChunk payload],?_,by simp [WriterCommands.chunk?,writeChunkOf,hid]⟩
        simp [hid,ht,Worker.sendWriteChunk,WriterWorker.send]
      · exact ⟨[],by simp [hid,ht],by simp [writeChunkOf,Ne.symm hid]⟩
    | cancel id' =>
      by_cases hid : id = id'
      · refine ⟨[.cancel],?_,rfl⟩
        simp [hid,ht,Worker.sendCancel,WriterWorker.send]
      · exact ⟨[],by simp [hid,ht],rfl⟩
    | _ =>
      refine ⟨[],?_,rfl⟩
      dsimp only
      first
      | exact ht.trans hquiet
      | split <;> simp [ht,Worker.sendGetChunk]

theorem listed_of_told (hlisted : (h.told id event t).listed = true) : t.listed = true := by
  by_contra hnot
  rw [told_unlisted (Bool.eq_false_iff.mpr hnot)] at hlisted
  exact hnot hlisted

/-- The listener says that a download is complete when the writer has said so, and says nothing of chunks. -/
theorem says_handle {w : Surroundings} {event' : EngineEvent}
    (hmem : event' ∈ (h.handle c w event).2) : receivedFileChunkOf id event' = none ∧
      (event' = .status (downloadComplete id) → event = .writerWorkerFinished id) := by
  cases event with
  | readFile path id' =>
    simp only [handle,FileHandler.readFile] at hmem
    cases hdisk : c.disk path <;> rw [hdisk] at hmem <;> simp at hmem
    subst hmem
    simp [receivedFileChunkOf]
  | writerWorkerFinished id' =>
    simp only [handle,List.mem_singleton] at hmem
    subst hmem
    refine ⟨rfl,fun heq => ?_⟩
    rw [downloadComplete_injective (EngineEvent.status.inj heq)]
  | _ =>
    simp [handle] at hmem
    try
      subst hmem
      simp [receivedFileChunkOf]

theorem shows_eq_status {state : FileTransferState} {msg : String} : state.shows = some (.status msg) ↔
    state = .finished msg := by
  cases state <;> simp [FileTransferState.shows]

theorem finished_of_said {r : FileHandler.CallResult} (h : .writerWorkerFinished id ∈ (FileHandler.step r t).2) :
    t.id = id ∧ ∃ w, (FileHandler.step r t).1 = .writer w ∧ w.state = .finished := by
  obtain rfl : id = t.id := of_decide_eq_true (fromWorker_of_mem_step h)
  refine ⟨rfl,?_⟩
  obtain ⟨id,w | w,listed⟩ := t
  · simp only [FileHandler.step,ReaderWorker.step] at h
    split_ifs at h
    · split at h
      · simp at h
      · simp at h
      · split at h
        · simp at h
        · split_ifs at h <;> simp at h
    · simp at h
  · refine ⟨(w.step id r.write).1,rfl,?_⟩
    change _ ∈ (w.step id r.write).2 at h
    by_cases hrunning : w.state = .running
    · rcases WriterWorker.step_cases id r.write hrunning with
        ⟨-,-,-,hstep⟩ | ⟨-,hsilent,-,-⟩ | ⟨_,-,hstep⟩ | ⟨_,_,-,-,hstep⟩
      · simp [hstep] at h
      · exact absurd h hsilent
      · rw [hstep]
      · simp [hstep] at h
    · simp [WriterWorker.step_of_ended hrunning] at h

theorem Finished.step (h : p.Finished id) (t : Turn) : (p.step c t).Finished id := by
  obtain ⟨thread,hthread,w,hw,hfinished⟩ := h
  obtain ⟨hmem,hid⟩ := List.mem_filter.mp hthread
  have hkeep : ∀ {q : Peer}, (∃ t' ∈ q.handler.threads, t'.id = thread.id ∧ ∃ w', t'.worker = .writer w' ∧
      w'.state = .finished) → q.Finished id := by
    rintro q ⟨t',ht',hid',hw'⟩
    exact ⟨t',List.mem_filter.mpr ⟨ht',by rwa [hid']⟩,hw'⟩
  have hsame : ∀ {q : Peer}, q.handler.threads = p.handler.threads → q.Finished id := fun hq =>
    hkeep ⟨thread,hq ▸ hmem,rfl,w,hw,hfinished⟩
  have htold : ∀ (handler : FileHandler) (event : FileHandlerEvents), ∃ w',
      (handler.told thread.id event thread).worker = .writer w' ∧ w'.state = .finished := by
    intro handler event
    obtain ⟨commands,hw',-⟩ := told_writer thread.id handler event hw
    exact ⟨_,hw',hfinished⟩
  cases t with
  | listen w' =>
    rw [Peer.step,FileHandler.listen]
    cases hrx : p.handler.rx with
    | nil => exact hsame rfl
    | cons event rest =>
      refine hkeep ⟨handled c w' { p.handler with rx := rest } event thread,?_,id_handled _ _ _,?_⟩
      · change _ ∈ (handle c w' { p.handler with rx := rest } event).1.threads
        rw [threads_handle]
        exact List.mem_append_left _ (List.mem_map_of_mem hmem)
      · unfold handled
        split
        · exact ⟨w,hw,hfinished⟩
        · exact htold _ event
  | work i r =>
    rcases work_cases i r p.handler with hnone | ⟨t',ht',hwork⟩
    · exact hsame (congrArg _ hnone)
    · obtain ⟨j,hj⟩ := List.mem_iff_getElem?.mp hmem
      by_cases hij : i = j
      · subst hij
        obtain rfl := Option.some.inj (ht'.symm.trans hj)
        refine hkeep ⟨{ t' with worker := (FileHandler.step (r.of t') t').1 },?_,rfl,w,?_,hfinished⟩
        · change _ ∈ (p.handler.work i r).threads
          rw [hwork]
          exact List.mem_of_getElem? (List.getElem?_set_self (List.getElem?_eq_some_iff.mp ht').1)
        · simp [FileHandler.step,hw,WriterWorker.step_of_ended (by simp [hfinished] : w.state ≠ .running)]
      · refine hkeep ⟨thread,?_,rfl,w,hw,hfinished⟩
        change _ ∈ (p.handler.work i r).threads
        rw [hwork]
        exact List.mem_of_getElem? ((List.getElem?_set_ne hij).trans hj)
  | poll | drain _ | frame _ => exact hsame (by rw [handler_step c rfl])
  | report =>
    rw [Peer.step,Peer.report]
    split <;> exact hsame rfl
  | stop =>
    rw [Peer.step,Peer.stop]
    split
    · refine hkeep ⟨p.handler.told thread.id (.cancel thread.id) thread,?_,id_told _ _,htold _ _⟩
      change _ ∈ p.handler.shutdown.threads
      rw [threads_shutdown]
      exact List.mem_map_of_mem hmem
    · exact hsame rfl
  | _ => exact hsame rfl

theorem Reported.step {t : Turn} (h : (p.step c t).Reported id) : p.Reported id ∨ (p.step c t).Finished id := by
  have hask (ht : t.asks = true) : p.Reported id := by
    rcases h with hmem | hevent
    · refine (mem_rx_step ht hmem).elim .inl fun hlistener => ?_
      generalize p.request t = r at hlistener
      cases r with
      | pass event => cases event <;> cases hlistener
      | press button => cases button <;> cases hlistener
      | _ => cases hlistener
    · have hshown := unseen_pos.mpr (hevent.imp_right (.imp_right shows_eq_status.mpr))
      have hunseen := hshown.trans_le (Nat.le_of_add_right_le ((step_eq_ask c ht).unseen _))
      exact .inr ((unseen_pos.mp hunseen).imp_right (.imp_right shows_eq_status.mp))
  cases t with
  | listen w =>
    rw [Peer.step,FileHandler.listen] at h
    cases hrx : p.handler.rx with
    | nil => exact .inl (by simpa [hrx] using h)
    | cons event rest =>
      rw [hrx] at h
      refine .inl ?_
      rcases h with hmem | hmem | h
      · exact .inl (hrx ▸ List.mem_cons_of_mem _ (mem_rx_of_handle c hmem (by simp)))
      · rcases List.mem_append.mp hmem with hmem | hmem
        · exact .inr (.inl hmem)
        · exact .inl (by simp [hrx,(says_handle hmem).2 rfl])
      · exact .inr (.inr h)
  | work i r =>
    rcases work_cases i r p.handler with hsame | ⟨t,ht,hwork⟩
    · refine .inl (h.imp_left fun hmem => ?_)
      change _ ∈ (p.handler.work i r).rx at hmem
      rwa [hsame] at hmem
    · rcases h with hmem | h
      · change _ ∈ (p.handler.work i r).rx at hmem
        rw [hwork] at hmem
        refine (List.mem_append.mp hmem).imp .inl fun hsaid => ?_
        obtain ⟨hid,hw⟩ := finished_of_said hsaid
        refine ⟨{ t with worker := (FileHandler.step (r.of t) t).1 },List.mem_filter.mpr ⟨?_,decide_eq_true hid⟩,hw⟩
        change _ ∈ (p.handler.work i r).threads
        rw [hwork]
        exact List.mem_of_getElem? (List.getElem?_set_self (List.getElem?_eq_some_iff.mp ht).1)
      · exact .inl (.inr h)
  | report =>
    rw [Peer.step,Peer.report] at h
    cases hparent : p.sctp.toParent with
    | nil => exact .inl (by rwa [hparent] at h)
    | cons event rest =>
      rw [hparent] at h
      refine .inl (h.imp_right (.imp_left fun hmem => (List.mem_append.mp hmem).resolve_right ?_))
      cases event <;> simp [engineEvent]
  | poll | drain _ | frame _ => exact .inl (hask rfl)
  | stop =>
    rw [Peer.step,Peer.stop] at h
    split at h <;> exact .inl h
  | _ => exact .inl h
end Peer
end RustyRtc.Files
