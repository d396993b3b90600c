import RustyRtc.Files.Storage

/-! # What keeps uploads going

The thread that asks for chunks looks at one flag, which the user sets by sending a file. The engine and the window
take it down whenever some transfer ends, whichever it is.
-/
namespace RustyRtc.Files
open Sctp

/-- The upload that the thread works for, as long as the listener can reach it. -/
def Thread.reading (t : Thread) : Option UInt32 :=
  match t.worker with
  | .reader w => if t.listed && w.running then some t.id else none
  | .writer _ => none

namespace FileHandler
variable {c : Computer} {h : FileHandler} {id : UInt32} {t : Thread}
def uploads (h : FileHandler) : List UInt32 := h.rx.filterMap (·.reading) ++ h.threads.filterMap (·.reading)
theorem mem_uploads : id ∈ h.uploads ↔ (∃ e ∈ h.rx, e.reading = some id) ∨ ∃ t ∈ h.threads, t.reading = some id := by
  simp [uploads]
theorem reading_of_unlisted (ht : t.listed = false) : t.reading = none := by
  unfold Thread.reading
  split <;> simp [ht]
@[simp] theorem reading_sendGetChunk (t : Thread) :
    Thread.reading { t with worker := t.worker.sendGetChunk } = t.reading := by
  obtain ⟨id,w | w,listed⟩ := t <;> rfl
@[simp] theorem reading_sendWriteChunk (payload : Bytes) (t : Thread) :
    Thread.reading { t with worker := t.worker.sendWriteChunk payload } = t.reading := by
  obtain ⟨id,w | w,listed⟩ := t <;> rfl

theorem uploads_tell {p : UInt32 → Bool} {f : Thread → Thread}
    (hf : ∀ t id, (f t).reading = some id → t.reading = some id) : (h.tell p f).uploads ⊆ h.uploads := by
  intro id hid
  rw [mem_uploads] at hid ⊢
  refine hid.imp_right ?_
  rintro ⟨_,ht,hread⟩
  obtain ⟨t,hmem,rfl⟩ := List.mem_map.mp ht
  refine ⟨t,hmem,?_⟩
  split at hread
  · exact hf t id hread
  · exact hread

theorem uploads_remove (id : UInt32) (f : Worker → Worker) : (h.remove id f).uploads ⊆ h.uploads := by
  apply uploads_tell
  intro t id' hread
  rw [reading_of_unlisted rfl] at hread
  cases hread

theorem mem_uploads_insert {id' : UInt32} {w : Worker} (hid : id' ∈ (h.insert id w).uploads) :
    id' ∈ h.uploads ∨ Thread.reading { id := id, worker := w } = some id' := by
  rw [mem_uploads] at hid
  rcases hid with hrx | ⟨t,ht,hread⟩
  · exact .inl (mem_uploads.mpr (.inl hrx))
  · rcases List.mem_append.mp ht with hold | hnew
    · exact .inl (uploads_remove id (fun w => w) (mem_uploads.mpr (.inr ⟨t,hold,hread⟩)))
    · obtain rfl := List.mem_singleton.mp hnew
      exact .inr hread

theorem uploads_send (event : FileHandlerEvents) (hevent : event.reading = none) :
    (h.send event).uploads ⊆ h.uploads := by
  simp [uploads,send,hevent]

theorem uploads_writeFile (w : Surroundings) (filename : String) (id : UInt32) :
    (h.writeFile c w filename id).uploads ⊆ h.uploads := by
  unfold writeFile
  dsimp only
  split
  · next n e _ => exact uploads_send (.err e) rfl
  · split
    · next e _ => exact uploads_send (.err e) rfl
    · -- a writer is no upload
      exact fun id' hid => (mem_uploads_insert hid).resolve_right nofun

theorem uploads_readFile (path : Text) (id : UInt32) : (h.readFile c path id).1.uploads ⊆ id :: h.uploads := by
  unfold readFile
  split
  · next e _ => exact List.Subset.trans (uploads_send (.err e) rfl) (List.subset_cons_self id h.uploads)
  · intro id' hid
    rcases mem_uploads_insert hid with hold | hnew
    · exact List.mem_cons_of_mem _ hold
    · have hid' : id = id' := Option.some.inj hnew
      simp [hid']

theorem uploads_handle (w : Surroundings) (event : FileHandlerEvents) :
    (h.handle c w event).1.uploads ⊆ event.reading.toList ++ h.uploads := by
  cases event with
  | readFile path id => exact uploads_readFile path id
  | writeFile filename id => exact uploads_writeFile w filename id
  | getChunk id | writeChunk id payload | drainChunks => exact uploads_tell fun t id => by simp
  | readerWorkerFinished id | writerWorkerFinished id => exact uploads_remove (h := h) id fun w => w
  | cancel id => exact uploads_remove (h := h) id Worker.sendCancel
  | _ => exact List.Subset.refl _

theorem uploads_listen (w : Surroundings) : (h.listen c w).1.uploads ⊆ h.uploads := by
  unfold listen
  cases hrx : h.rx with
  | nil => exact List.Subset.refl _
  | cons event rest =>
    refine List.Subset.trans (uploads_handle w event) ?_
    have huploads : h.uploads = event.reading.toList ++ uploads { h with rx := rest } := by
      rw [uploads,hrx,uploads]
      cases hread : event.reading <;> simp [hread]
    rw [huploads]
    exact List.Subset.refl _

theorem reading_step {r : CallResult}
    (hread : Thread.reading { t with worker := (step r t).1 } = some id) : t.reading = some id := by
  obtain ⟨id',w | w,listed⟩ := t
  · cases hrunning : w.running with
    | true =>
      simp only [Thread.reading,hrunning] at hread ⊢
      split at hread
      · simp only [Option.ite_none_right_eq_some,Bool.and_eq_true,Option.some.injEq,and_true] at hread ⊢
        exact ⟨hread.1.1,hread.2⟩
      · cases hread
    | false =>
      have hsame : (step r ⟨id', .reader w,listed⟩).1 = .reader w := by simp [step,ReaderWorker.step,hrunning]
      rwa [hsame] at hread
  · simp [step,Thread.reading] at hread

theorem uploads_work (i : ℕ) (r : CallResult) : (h.work i r).uploads ⊆ h.uploads := by
  rcases work_cases i r h with hsame | ⟨t,ht,hwork⟩
  · rw [hsame]
    exact List.Subset.refl _
  · rw [hwork]
    intro id hid
    rw [mem_uploads] at hid ⊢
    rcases hid with ⟨e,he,hread⟩ | ⟨t',ht',hread⟩
    · refine .inl ⟨e,?_,hread⟩
      refine (List.mem_append.mp he).resolve_right fun hsaid => ?_
      have hfrom := fromWorker_of_mem_step hsaid
      cases e <;> simp_all [FileHandlerEvents.reading,fromWorker]
    · rcases List.mem_or_eq_of_mem_set ht' with hold | rfl
      · exact .inr ⟨t',hold,hread⟩
      · exact .inr ⟨t,List.mem_of_getElem? ht,reading_step hread⟩
end FileHandler

/-- What the window takes the flag down for. -/
def EngineEvent.clears : EngineEvent → Bool
  | .receivedFileReject _ | .receivedFileCancel _ | .sendFileEnd _ => true
  | _ => false

/-- What `poll` itself takes the flag down for. -/
def EngineEvent.endsUpload : EngineEvent → Bool
  | .sendFileEnd _ => true
  | _ => false
def FileTransferState.sendingId : FileTransferState → Option UInt32
  | .sending id _ => some id
  | _ => none

namespace Peer
variable {t : Turn}
def Quiet (p p' : Peer) : Prop :=
  ∃ new, p'.handler = { p.handler with rx := p.handler.rx ++ new } ∧ p'.fileHandler = p.fileHandler ∧
    ∀ e ∈ new, e.reading = none

namespace Quiet
variable {p p₁ p₂ : Peer}
theorem of_eq (hhandler : p₂.handler = p₁.handler) (hfile : p₂.fileHandler = p₁.fileHandler) : Quiet p₁ p₂ :=
  ⟨[],by simp [hhandler],hfile,by simp⟩

theorem of_request (c : Computer) (ht : t.asks = true) (hrequest : (p.request t).reading = none) :
    Quiet p (p.step c t) := by
  obtain ⟨out,s,r,state,d,hstep⟩ := (step_eq_ask (p := p) c ht).eq
  refine ⟨_,handler_step c ht,by rw [hstep]; rfl,fun e he => ?_⟩
  split at he
  · simpa [Request.reading,Option.mem_toList.mp he] using hrequest
  · cases he

theorem frame (c : Computer) (p : Peer) (action : Option UserAction) :
    (p.frame action).sendingFiles = true ∨ Quiet p (p.frame action) := by
  have hleads := step_eq_ask (p := p) c (t := .frame action) rfl
  obtain ⟨out,s,r,state,d,hframe⟩ := hleads.eq
  change p.frame action = _ at hframe
  cases hrequest : (p.request (.frame action)).reading with
  | none => exact .inr (of_request c (t := .frame action) rfl hrequest)
  | some id =>
    by_cases hfile : p.fileHandler = true
    · exact .inl (hleads.raises (by simp [hrequest]) hfile)
    · rw [hframe]
      exact .inr (.of_eq (if_neg hfile) rfl)

theorem uploads_subset {p' : Peer} (h : Quiet p p') (hfile' : p'.fileHandler = true) :
    p.fileHandler = true ∧ p'.handler.uploads ⊆ p.handler.uploads := by
  obtain ⟨new,hhandler,hfile,hnew⟩ := h
  have hnone : new.filterMap (·.reading) = [] := List.filterMap_eq_nil_iff.mpr hnew
  exact ⟨hfile ▸ hfile',by simp [hhandler,FileHandler.uploads,hnone]⟩
end Quiet

theorem uploads_step {c : Computer} {p : Peer} (ht : ∀ action, t ≠ .frame action)
    (hfile : (p.step c t).fileHandler = true) :
    p.fileHandler = true ∧ (p.step c t).handler.uploads ⊆ p.handler.uploads := by
  have hreading : (p.request t).reading = none := by
    cases hrequest : (p.request t).reading with
    | none => rfl
    | some id =>
      obtain ⟨input,rfl⟩ := (p.asks_request t).reading hrequest
      exact absurd rfl (ht _)
  cases t with
  | listen w => exact ⟨hfile,FileHandler.uploads_listen w⟩
  | work i r => exact ⟨hfile,FileHandler.uploads_work i r⟩
  | transmit now results | checkTimeouts now ids | connected => exact ⟨hfile,List.Subset.refl _⟩
  | report =>
    refine Quiet.uploads_subset ?_ hfile
    simp only [step,report]
    split <;> exact .of_eq rfl rfl
  | poll | drain _ => exact (Quiet.of_request c rfl hreading).uploads_subset hfile
  | frame action => exact absurd rfl (ht action)
  | stop =>
    simp only [step,stop] at hfile ⊢
    split at hfile
    · cases hfile
    · next hgone => exact absurd hfile hgone
  | close => cases hfile

theorem sendingFiles_foldl (out : List EngineEvent) (p : Peer) :
    (out.foldl handleEngineEvent p).sendingFiles = (p.sendingFiles && !out.any (·.clears)) := by
  induction out generalizing p with
  | nil => simp
  | cons event out ih =>
    have hone : (p.handleEngineEvent event).sendingFiles = (p.sendingFiles && !event.clears) := by
      cases event with
      | status s =>
        rw [handleEngineEvent]
        split <;> simp [EngineEvent.clears]
      | _ => simp [handleEngineEvent,EngineEvent.clears]
    rw [List.foldl_cons,ih,hone,List.any_cons,Bool.not_or,Bool.and_assoc]

theorem sendingFiles_frame (p : Peer) : (p.frame none).sendingFiles = (p.sendingFiles && !p.out.any (·.clears)) :=
  sendingFiles_foldl p.out { p with out := [] }

theorem sendingFiles_act {p : Peer} (hup : p.sendingFiles = true) {action : UserAction} (haction : action ≠ .cancel) :
    (p.act action).sendingFiles = true := by
  obtain ⟨handler,sctp,events,out,session,fileHandler,s,r,state,d⟩ := p
  obtain rfl : s = true := hup
  cases state <;> cases action <;>
    first
    | exact absurd rfl haction
    | cases session <;> cases fileHandler <;> rfl

theorem sendingFiles_poll {p : Peer} (hevent : p.events.head?.any (·.endsUpload) = false) :
    p.poll.sendingFiles = p.sendingFiles := by
  obtain ⟨handler,sctp,events,out,session,fileHandler,s,r,state,d⟩ := p
  cases events with
  | nil => rfl
  | cons event rest =>
    cases event with
    | sendFileEnd _ => cases hevent
    | _ => cases session <;> cases fileHandler <;> rfl

theorem sendingFiles_drain (high : Bool) (p : Peer) : (p.drain high).sendingFiles = p.sendingFiles := by
  obtain ⟨handler,sctp,events,out,session,fileHandler,s,r,state,d⟩ := p
  match d with
  | .asleep => cases s <;> cases fileHandler <;> rfl
  | .bursting (left + 1) => cases fileHandler <;> rfl
  | .flagged | .bursting 0 | .ended => rfl
end Peer

/-- A client, with the uploads that the user has cancelled or that the peer has rejected or cancelled. -/
structure Uploads where
  peer : Peer := {}
  ended : List UInt32 := []

namespace Uploads
def note (ended : List UInt32) : FileHandlerEvents → List UInt32
  | .readFile _ id => ended.filter (· ≠ id)
  | .cancel id => id :: ended
  | _ => ended
def refused : SctpProtocolMessage → Option UInt32
  | .reject id | .cancel id => some id
  | _ => none
def step (c : Computer) (u : Uploads) (m : Move) : Uploads where
  peer := u.peer.move c m
  ended := match m with
    | .turn (.frame action) => ((u.peer.frame action).handler.rx.drop u.peer.handler.rx.length).foldl note u.ended
    | .turn _ => u.ended
    | .hear _ data => ((SctpProtocolMessage.deserialize data).toOption.bind refused).toList ++ u.ended
def uploads (u : Uploads) : List UInt32 :=
  if u.peer.fileHandler then u.peer.handler.uploads.filter (· ∉ u.ended) else []
def Active (u : Uploads) (id : UInt32) : Prop := id ∈ u.uploads ∧ id ∈ u.peer.handler.activeReaders
instance (u : Uploads) (id : UInt32) : Decidable (u.Active id) := inferInstanceAs (Decidable (_ ∧ _))

/-- When `poll` comes to the end of an upload, and when a Reject, a Cancel or such an end comes to the window, no upload is
under way; when the user presses Cancel, none but the one that the window shows as being sent. -/
def EndsLast (u : Uploads) : Move → Prop
  | .turn .poll => u.peer.events.head?.any (·.endsUpload) = true → u.uploads = []
  | .turn (.frame action) => (u.peer.out.any (·.clears) = true → u.uploads = []) ∧
      (action = some .cancel → ∀ id ∈ u.uploads, (u.peer.frame none).fileTransferState.sendingId = some id)
  | _ => True
instance (u : Uploads) : DecidablePred u.EndsLast
  | .turn .poll => inferInstanceAs (Decidable (_ → _))
  | .turn (.frame _) => inferInstanceAs (Decidable (_ ∧ _))
  | .hear _ _ | .turn (.listen _) | .turn (.work _ _) | .turn (.transmit _ _) | .turn (.checkTimeouts _ _)
  | .turn .connected | .turn .report | .turn (.drain _) | .turn .stop | .turn .close => isTrue trivial

variable {c : Computer} {u : Uploads}
theorem mem_uploads {id : UInt32} :
    id ∈ u.uploads ↔ u.peer.fileHandler = true ∧ id ∈ u.peer.handler.uploads ∧ id ∉ u.ended := by
  unfold uploads
  split <;> simp [*]

theorem subset_foldl_note {new : List FileHandlerEvents} (hnew : ∀ e ∈ new, e.reading = none) (ended : List UInt32) :
    ended ⊆ new.foldl note ended := by
  induction new generalizing ended with
  | nil => exact List.Subset.refl _
  | cons e new ih =>
    have hone : ended ⊆ note ended e := by
      have hread := hnew e (by simp)
      cases e with
      | readFile path id => cases hread
      | cancel id => exact List.subset_cons_self id ended
      | _ => exact List.Subset.refl _
    exact List.Subset.trans hone (ih (fun e he => hnew e (by simp [he])) _)

theorem uploads_step (m : Move) : (u.step c m).peer.sendingFiles = true ∨ (u.step c m).uploads ⊆ u.uploads := by
  have hsubset (hfile : (u.step c m).peer.fileHandler = true → u.peer.fileHandler = true ∧
        (u.step c m).peer.handler.uploads ⊆ u.peer.handler.uploads) (hended : u.ended ⊆ (u.step c m).ended) :
      (u.step c m).uploads ⊆ u.uploads := by
    intro id hid
    obtain ⟨hp,hup,hnot⟩ := mem_uploads.mp hid
    obtain ⟨hp',hle⟩ := hfile hp
    exact mem_uploads.mpr ⟨hp',hle hup,fun habs => hnot (hended habs)⟩
  cases m with
  | hear now data => exact .inr (hsubset (fun hp => ⟨hp,List.Subset.refl _⟩) (List.subset_append_right _ _))
  | turn t =>
    by_cases ht : ∃ action, t = .frame action
    · obtain ⟨action,rfl⟩ := ht
      refine (Peer.Quiet.frame c u.peer action).imp_right fun hquiet => hsubset hquiet.uploads_subset ?_
      obtain ⟨new,hhandler,-,hnew⟩ := hquiet
      have hended : (u.step c (.turn (.frame action))).ended = new.foldl note u.ended := by
        rw [step,hhandler,List.drop_left]
      rw [hended]
      exact subset_foldl_note hnew u.ended
    · have hother : ∀ action, t ≠ .frame action := fun action heq => ht ⟨action,heq⟩
      refine .inr (hsubset (Peer.uploads_step hother) ?_)
      cases t with
      | frame action => exact absurd rfl (hother action)
      | _ => exact List.Subset.refl _

/-- Every upload is driven: the flag is up as long as one is neither finished nor cancelled. -/
def Driven (u : Uploads) : Prop := ∀ id ∈ u.uploads, u.peer.sendingFiles = true

/-- The upload that the user cancels is one of those ended. -/
theorem ended_cancel {id : UInt32} (hfile : u.peer.fileHandler = true)
    (hshown : (u.peer.frame none).fileTransferState.sendingId = some id) :
    id ∈ (u.step c (.turn (.frame (some .cancel)))).ended := by
  obtain ⟨s,r,state,-,-,hframe⟩ := Peer.foldl_handleEngineEvent_eq u.peer.out { u.peer with out := [] }
  have hnone : u.peer.frame none = _ := hframe
  rw [hnone] at hshown
  cases state with
  | sending id' filename =>
    obtain rfl : id' = id := Option.some.inj hshown
    have hrx : (u.peer.frame (some .cancel)).handler.rx = u.peer.handler.rx ++ [.cancel id'] := by
      rw [Peer.frame,hframe]
      cases u.peer.session <;> simp [Peer.act,Peer.cancelFile,Peer.toSession,Peer.toHandler,hfile,FileHandler.send]
    rw [step,hrx,List.drop_left]
    exact List.mem_cons_self
  | _ => cases hshown

theorem driven_step (h : u.Driven) {m : Move} (hm : u.EndsLast m) : (u.step c m).Driven := by
  intro id hid
  rcases uploads_step m with hflag | hle
  · exact hflag
  · -- an upload that was there before had the flag up, and what takes it down finds none
    have hold := hle hid
    have hbefore := h id hold
    have hsome : u.uploads ≠ [] := List.ne_nil_of_mem hold
    cases m with
    | hear now data => exact hbefore
    | turn t =>
      cases t with
      | poll =>
        have hevent := Bool.eq_false_iff.mpr fun hends => hsome (hm hends)
        exact (Peer.sendingFiles_poll hevent).trans hbefore
      | drain high => exact (Peer.sendingFiles_drain high u.peer).trans hbefore
      | frame action =>
        have hout := Bool.eq_false_iff.mpr fun hclears => hsome (hm.1 hclears)
        have hshown : (u.peer.frame none).sendingFiles = true := by rw [Peer.sendingFiles_frame,hbefore,hout]; rfl
        cases action with
        | none => exact hshown
        | some action =>
          by_cases haction : action = .cancel
          · subst haction
            have hended := ended_cancel (c := c) (mem_uploads.mp hold).1 (hm.2 rfl id hold)
            exact absurd hended (mem_uploads.mp hid).2.2
          · exact Peer.sendingFiles_act hshown haction
      | report =>
        change u.peer.report.sendingFiles = true
        rw [Peer.report]
        split <;> exact hbefore
      | stop =>
        have hfile := (mem_uploads.mp hid).1
        simp only [step,Peer.move,Peer.step,Peer.stop] at hfile
        split at hfile
        · cases hfile
        · next hgone => exact absurd hfile hgone
      | _ => exact hbefore

/-- In every reachable state in which an upload has been accepted by the peer and is neither finished nor cancelled, the
flag is up, if no other transfer ever ended while an upload was under way. -/
theorem active_driven (c : Computer) (moves : List Move) (h : Along (step c) EndsLast {} moves)
    (id : UInt32) (hid : (moves.foldl (step c) {}).Active id) :
    (moves.foldl (step c) {}).peer.sendingFiles = true := by
  have hdriven : (moves.foldl (step c) {}).Driven :=
    h.invariant (I := Driven) (fun _ _ hu hm => driven_step hu hm) (by simp [Driven,uploads,FileHandler.uploads])
  exact hdriven id hid.1

def told (msg : SctpProtocolMessage) : List Move :=
  [.hear 0 (msg.serialize.toOption.getD []), .turn .report, .turn .poll]
def acceptedUpload : List Move :=
  [.turn (.frame (some (.sendFile ['f'] 7))), .turn (.listen Peer.ready), .turn .poll] ++ told (.accept 7) ++
    [.turn (.listen Peer.ready), .turn (.frame none)]

/-- While the upload goes on, the peer offers a file of its own, which the user accepts, and then `msg` comes. -/
def besideDownload (msg : SctpProtocolMessage) : List Move :=
  acceptedUpload ++ told (.offer 9 "b" 1) ++ [.turn (.frame (some .accept))] ++ told msg ++ [.turn (.frame none)]
theorem active_driven_upload : ((besideDownload (.endFile 9)).foldl (step Peer.oneFile) {}).Active 7 ∧
    ((besideDownload (.endFile 9)).foldl (step Peer.oneFile) {}).peer.sendingFiles = true := by
  have hactive : ((besideDownload (.endFile 9)).foldl (step Peer.oneFile) {}).Active 7 := by decide +kernel
  exact ⟨hactive,active_driven Peer.oneFile (besideDownload (.endFile 9)) (by decide +kernel) 7 hactive⟩

/-- The peer cancels its own file. -/
theorem cancelled_download_stops_upload : ∃ moves : List Move, (moves.foldl (step Peer.oneFile) {}).Active 7 ∧
    (moves.foldl (step Peer.oneFile) {}).ended = [9] ∧ (moves.foldl (step Peer.oneFile) {}).peer.sendingFiles = false := by
  refine ⟨besideDownload (.cancel 9),?_⟩
  decide +kernel
end Uploads
end RustyRtc.Files
