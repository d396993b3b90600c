import RustyRtc.Files.Cancelled

/-! # One transfer beside another

Readers and writers are in one map of the listener, and the streams of both directions in one table of the sender, all
by transfer id; one flag keeps all uploads going. A client is compared with one that is given only what is about some
of its transfers. Others have no part in these as long as they have other ids and do not take the flag down. Two
transfers with one id take each other's place.
-/
namespace RustyRtc.Sctp

def SctpEvents.about : SctpEvents → Option UInt32
  | .sendOffer props | .receivedOffer props => some props.transactionId
  | .sendAccept id | .sendReject id | .sendCancel id | .sendChunk id _ | .sendEndFile id | .receivedAccept id
  | .receivedReject id | .receivedCancel id | .receivedChunk id _ _ | .receivedEndFile id => some id
  | .sctpConnected | .kickSender => none

namespace SctpSession

/-- `s'` has of `s` what is about the transfers looked at, and has written the same messages of theirs. -/
structure Selects (keep : UInt32 → Bool) (s s' : SctpSession) : Prop where
  streams : s'.streams = Table.retain (fun id _ => keep id) s.streams
  pending : s'.pending = s.pending.filter fun msg => keep msg.id
  toSender : s'.toSender = s.toSender.filter fun event => event.about.all keep
  toParent : s'.toParent = s.toParent.filter fun event => event.about.all keep
  stream0 : s'.stream0.filter (carries fun msg => keep msg.id) = s.stream0.filter (carries fun msg => keep msg.id)

variable {keep : UInt32 → Bool} {k : Bool} {s s' : SctpSession} {event : SctpEvents} {msg : SctpProtocolMessage}
variable {id : UInt32} {f g : SctpSession → SctpSession}
theorem Selects.lookup (h : Selects keep s s') (hid : keep id = true) : s'.streams.lookup id = s.streams.lookup id := by
  rw [h.streams,Table.lookup_retain hid]

/-- What is done to a session for a transfer: it is done to the selection too if the transfer is looked at. -/
def Follows (keep : UInt32 → Bool) (k : Bool) (f : SctpSession → SctpSession) : Prop :=
  ∀ ⦃s s'⦄, Selects keep s s' → Selects keep (f s) (cond k (f s') s')

theorem follows_id : Follows keep k fun s => s := by
  intro s s' h
  cases k <;> exact h
theorem Follows.andThen (hf : Follows keep k f) (hg : Follows keep k g) : Follows keep k fun s => g (f s) := by
  intro s s' h
  cases k with
  | true => exact hg (hf h)
  | false => exact hg (hf h)

theorem follows_insert (hid : keep id = k) (stream : SctpStream) :
    Follows keep k fun s => { s with streams := s.streams.insert id stream } := by
  intro s s' h
  cases k <;> exact ⟨by simp [Table.retain_insert,hid,h.streams],h.pending,h.toSender,h.toParent,h.stream0⟩
theorem follows_erase (hid : keep id = k) : Follows keep k fun s => { s with streams := s.streams.erase id } := by
  intro s s' h
  cases k <;> exact ⟨by simp [Table.retain_erase,hid,h.streams],h.pending,h.toSender,h.toParent,h.stream0⟩

theorem Selects.route (h : Selects keep s s') (hevent : event.about.all keep = k) :
    Selects keep (s.route event) (cond k (s'.route event) s') := by
  cases k with
  | true | false =>
    refine ⟨h.streams,h.pending,?_,?_,h.stream0⟩
    · cases hsender : event.forSender <;> simp [SctpSession.route,hsender,h.toSender,hevent]
    · cases hparent : event.forParent <;> simp [SctpSession.route,hparent,h.toParent,hevent]

theorem follows_sendMessage (hmsg : keep msg.id = k) (result : WriteResult) :
    Follows keep k fun s => sendMessage result s msg := by
  intro s s' h
  obtain ⟨rest,hdata⟩ := msg.serialize_eq
  dsimp only
  rw [sendMessage,sendMessage,hdata]
  cases result with
  | written =>
    cases k with
    | true => exact ⟨h.streams,h.pending,h.toSender,h.toParent,by simp only [cond_true,List.filter_append,h.stream0]⟩
    | false =>
      have hother : ¬ carries (fun msg => keep msg.id) (msg.msgType :: (beBytes32 msg.id ++ rest)) = true :=
        fun hcarries => Bool.eq_false_iff.mp hmsg (carries_serialize (fun _ _ _ hid => by rw [hid]) hdata hcarries)
      refine ⟨h.streams,h.pending,h.toSender,h.toParent,?_⟩
      rw [List.filter_append,List.filter_cons_of_neg hother,List.filter_nil,List.append_nil]
      exact h.stream0
  | notReady | noAssociation => cases k <;> exact ⟨h.streams,by simp [h.pending,hmsg],h.toSender,h.toParent,h.stream0⟩
  | noStream | failed => exact follows_id h

theorem foldl_follows (ms : List (SctpProtocolMessage × WriteResult)) (h : Selects keep s s') :
    Selects keep (ms.foldl (fun s m => sendMessage m.2 s m.1) s)
      ((ms.filter fun m => keep m.1.id).foldl (fun s m => sendMessage m.2 s m.1) s') := by
  induction ms generalizing s s' with
  | nil => exact h
  | cons m ms ih =>
    rw [List.filter_cons]
    cases hm : keep m.1.id <;> exact ih (follows_sendMessage hm m.2 h)

/-- What is put off is written again, with the results that the messages looked at had among all. -/
theorem Selects.flush (h : Selects keep s s') (results : ℕ → WriteResult) :
    ∃ results', Selects keep (s.flush results) (s'.flush results') := by
  have hfold : ∀ (results : ℕ → WriteResult) (s : SctpSession), s.flush results =
      (s.pending.zipIdx.map fun m => (m.1,results m.2)).foldl (fun s m => SctpSession.sendMessage m.2 s m.1)
        { s with pending := [] } := fun results s => by rw [List.foldl_map,SctpSession.flush]
  obtain ⟨results',hresults⟩ := exists_zipIdx_eq WriteResult.failed
    ((s.pending.zipIdx.map fun m => (m.1,results m.2)).filter fun m => keep m.1.id)
  have hpending : ((s.pending.zipIdx.map fun m => (m.1,results m.2)).filter fun m => keep m.1.id).map Prod.fst =
      s'.pending := by
    rw [h.pending,← List.zipIdx_map_fst 0 s.pending,List.filter_map,List.filter_map,List.map_map,List.zipIdx_map_fst]
    rfl
  rw [hpending] at hresults
  refine ⟨results',?_⟩
  have hempty : Selects keep { s with pending := [] } { s' with pending := [] } :=
    ⟨h.streams,rfl,h.toSender,h.toParent,h.stream0⟩
  rw [hfold,hfold,hresults]
  exact foldl_follows _ hempty

theorem Selects.handle (h : Selects keep s s') (hevent : event.about.all keep = k) (now : ℕ) (results : ℕ → WriteResult) :
    ∃ results', Selects keep (s.handle now results event) (cond k (s'.handle now results' event) s') := by
  unfold SctpSession.handle
  cases event with
  | sctpConnected =>
    subst hevent
    exact h.flush results
  | sendOffer _ | sendAccept _ => exact ⟨results,(follows_insert hevent _).andThen (follows_sendMessage hevent _) h⟩
  | receivedAccept id => exact ⟨results,follows_insert hevent _ h⟩
  | sendReject id => exact ⟨results,follows_sendMessage hevent _ h⟩
  | sendCancel _ | sendEndFile _ => exact ⟨results,(follows_erase hevent).andThen (follows_sendMessage hevent _) h⟩
  | sendChunk id payload =>
    refine ⟨results,?_⟩
    dsimp only
    cases k with
    | true =>
      rw [h.lookup hevent]
      cases s.streams.lookup id with
      | none => exact h
      | some stream => exact (follows_insert hevent _).andThen (follows_sendMessage hevent _) h
    | false =>
      cases s.streams.lookup id with
      | none => exact h
      | some stream => exact (follows_insert hevent _).andThen (follows_sendMessage hevent _) h
  | _ => exact ⟨results,follows_id h⟩

theorem Selects.transmit (h : Selects keep s s') (now : ℕ) (results : ℕ → WriteResult) :
    Selects keep (s.transmit now results) s' ∨
      ∃ results', Selects keep (s.transmit now results) (s'.transmit now results') := by
  rw [SctpSession.transmit]
  cases hsender : s.toSender with
  | nil => exact .inl h
  | cons event rest =>
    have hselect := h.toSender
    rw [hsender,List.filter_cons] at hselect
    cases hevent : event.about.all keep with
    | true =>
      rw [if_pos hevent] at hselect
      have hrest : Selects keep { s with toSender := rest }
          { s' with toSender := rest.filter fun event => event.about.all keep } :=
        ⟨h.streams,h.pending,rfl,h.toParent,h.stream0⟩
      simp only [SctpSession.transmit,hselect]
      exact .inr (hrest.handle hevent now results)
    | false =>
      rw [if_neg (by simp [hevent])] at hselect
      have hrest : Selects keep { s with toSender := rest } s' := ⟨h.streams,h.pending,hselect,h.toParent,h.stream0⟩
      exact .inl (hrest.handle hevent now results).choose_spec

theorem follows_handleChunkData {data : Bytes} (hdata : carries (fun msg => keep msg.id) data = k) (now : ℕ) :
    Follows keep k fun s => s.handleChunkData now data := by
  intro s s' h
  unfold handleChunkData
  cases hread : SctpProtocolMessage.deserialize data with
  | error e => exact follows_id h
  | ok msg =>
    have hid : keep msg.id = k := by simpa [carries,hread,Except.toOption] using hdata
    cases msg with
    | chunk id seq payload =>
      cases k with
      | true =>
        refine Selects.route (k := true) ?_ hid
        rw [show s'.streams.lookup id = s.streams.lookup id from h.lookup hid]
        cases s.streams.lookup id with
        | none => exact h
        | some stream => exact follows_insert hid _ h
      | false =>
        refine Selects.route (k := false) ?_ hid
        cases s.streams.lookup id with
        | none => exact h
        | some stream => exact follows_insert hid _ h
    | _ => exact h.route hid

/-- The streams looked at are found silent in the order they have among all. -/
theorem Selects.checkStreamTimeouts (h : Selects keep s s') (now : ℕ) (ids : Iteration UInt32) : ∃ ids',
    Selects keep (s.checkStreamTimeouts now ids) (s'.checkStreamTimeouts now ids') := by
  have hsilent : timedOutIds now s'.streams = (timedOutIds now s.streams).filter keep := by
    rw [timedOutIds,timedOutIds,h.streams,Table.retain,List.filter_map,List.filter_filter,List.filter_filter]
    refine congrArg _ (List.filter_congr fun e _ => ?_)
    exact Bool.and_comm _ _
  obtain ⟨ids',hids⟩ : ∃ ids' : Iteration UInt32,
      ids'.order (timedOutIds now s'.streams) = (ids.order (timedOutIds now s.streams)).filter keep := by
    refine ⟨⟨fun l => if l = timedOutIds now s'.streams then (ids.order (timedOutIds now s.streams)).filter keep else l,
      fun l => ?_⟩,if_pos rfl⟩
    split
    · next hl =>
      rw [hl,hsilent]
      exact (ids.perm _).filter _
    · exact .rfl
  refine ⟨ids',?_⟩
  rw [checkStreamTimeouts_cancels,checkStreamTimeouts_cancels,hids]
  refine ⟨h.streams,h.pending,?_,h.toParent,h.stream0⟩
  rw [List.filter_append,List.filter_map,h.toSender]
  rfl
end SctpSession
end RustyRtc.Sctp

namespace RustyRtc.Files
open Sctp

/-- The direction of the transfers looked at. -/
inductive Direction where
  | upload
  | download
  deriving DecidableEq, Repr

namespace FileHandlerEvents
def about : FileHandlerEvents → Option UInt32
  | .readFile _ id | .remoteAccepted id | .writeFile _ id | .getChunk id | .readChunk id _ | .writeChunk id _
  | .readerWorkerFinished id | .writerWorkerFinished id | .cancel id | .uploadProgress id _ _
  | .downloadProgress id _ => some id
  | .err _ | .drainChunks => none

/-- Whether an event has a part in the transfers looked at. An error may have, and what asks for chunks has none in a
download. -/
def must (keep : UInt32 → Bool) (d : Direction) : FileHandlerEvents → Option Bool
  | .drainChunks => some (d = .upload)
  | event => event.about.map keep
end FileHandlerEvents

/-- The transfer that an event of a file is about. -/
def EngineEvent.about : EngineEvent → Option UInt32
  | .sendFileOffer props | .receivedFileOffer props => some props.transactionId
  | .sendFileAccept id | .sendFileReject id | .sendFileCancel id | .sendFileChunk id _ | .sendFileEnd id
  | .receivedFileAccept id | .receivedFileReject id | .receivedFileCancel id | .receivedFileChunk id _ _
  | .receivedFileEnd id => some id
  | .status _ | .error _ | .uploadProgress _ _ _ | .downloadProgress _ _ => none

namespace FileHandler
variable {c : Computer} {keep : UInt32 → Bool} {d : Direction} {h h' : FileHandler} {event : FileHandlerEvents}
variable {rest : List FileHandlerEvents} (w : Surroundings)

/-- No file is read. -/
structure Writes (h : FileHandler) : Prop where
  rx : ∀ event ∈ h.rx, event.reading = none
  threads : ∀ t ∈ h.threads, ∃ w, t.worker = .writer w

/-- `h'` has of `h` what is about the transfers looked at. -/
structure Selects (keep : UInt32 → Bool) (d : Direction) (h h' : FileHandler) : Prop where
  rx : Picks (·.must keep d) h.rx h'.rx
  threads : h'.threads = h.threads.filter fun t => keep t.id
  active : ∀ id, keep id = true → (id ∈ h'.activeReaders ↔ id ∈ h.activeReaders)
  writes : d = .download → h'.Writes

theorem writer_told {t : Thread} (ht : ∃ w, t.worker = .writer w) : ∃ w, (told t.id h event t).worker = .writer w := by
  obtain ⟨w,hw⟩ := ht
  obtain ⟨commands,htold,-⟩ := Peer.told_writer t.id h event hw
  exact ⟨_,htold⟩

theorem Writes.handle (hwrites : h.Writes) (hevent : event.reading = none) : (h.handle c w event).1.Writes := by
  constructor
  · obtain ⟨said,hsaid,hrx⟩ := handle_rx c w event
    rw [hrx]
    refine List.forall_mem_append.mpr ⟨hwrites.rx,fun event hmem => ?_⟩
    obtain ⟨e,rfl⟩ := hsaid event hmem
    rfl
  · rw [threads_handle]
    refine List.forall_mem_append.mpr ⟨List.forall_mem_map.mpr fun t ht => ?_,fun t ht => ?_⟩
    · unfold handled
      split
      · exact hwrites.threads t ht
      · exact writer_told (hwrites.threads t ht)
    · obtain ⟨path,id,file,rfl,-,rfl⟩ | ⟨filename,id,rfl,rfl⟩ := spawned_cases (Option.mem_toList.mp ht)
      · cases hevent
      · exact ⟨_,rfl⟩

theorem Writes.work (hwrites : h.Writes) (i : ℕ) (r : CallResult) : (h.work i r).Writes := by
  rcases work_cases i r h with hsame | ⟨t,ht,hwork⟩
  · rwa [hsame]
  · rw [hwork]
    refine ⟨List.forall_mem_append.mpr ⟨hwrites.rx,fun event hmem => ?_⟩,fun t' ht' => ?_⟩
    · have hfrom := fromWorker_of_mem_step hmem
      cases event <;> first | rfl | simp [fromWorker] at hfrom
    · rcases List.mem_or_eq_of_mem_set ht' with hold | rfl
      · exact hwrites.threads t' hold
      · obtain ⟨writer,hwriter⟩ := hwrites.threads t (List.mem_of_getElem? ht)
        exact ⟨(writer.step t.id (r.of t).write).1,by simp only [step,hwriter]⟩

theorem told_other {t : Thread} (hevent : event.must keep d ≠ some true) (ht : keep t.id = true)
    (hwriter : d = .download → ∃ w, t.worker = .writer w) : told t.id h event t = t := by
  unfold told
  split
  · cases event with
    | getChunk id | writeChunk id _ | readerWorkerFinished id | writerWorkerFinished id | cancel id =>
      refine if_neg fun heq => hevent ?_
      rw [← ht,heq]
      rfl
    | drainChunks =>
      cases d with
      | upload => exact absurd rfl hevent
      | download =>
        obtain ⟨writer,hw⟩ := hwriter rfl
        obtain ⟨id,worker,listed⟩ := t
        obtain rfl : worker = .writer writer := hw
        exact ite_self _
    | _ => rfl
  · rfl

theorem about_of_mem_handle {e : EngineEvent} (hmem : e ∈ (h.handle c w event).2) :
    e.about = none ∨ e.about = event.about := by
  cases event with
  | readFile path id =>
    simp only [handle,readFile] at hmem
    cases hdisk : c.disk path <;> rw [hdisk] at hmem <;> simp at hmem
    subst hmem
    exact .inr rfl
  | readChunk _ _ | readerWorkerFinished _ =>
    obtain rfl := List.mem_singleton.mp hmem
    exact .inr rfl
  | writerWorkerFinished _ | uploadProgress _ _ _ | downloadProgress _ _ | err _ =>
    obtain rfl := List.mem_singleton.mp hmem
    exact .inl rfl
  | _ => cases hmem

theorem filter_threads_handle (event : FileHandlerEvents) : (h.handle c w event).1.threads.filter (fun t => keep t.id) =
    (h.threads.filter fun t => keep t.id).map (handled c w h event) ++
      (spawned c w event).toList.filter fun t => keep t.id := by
  rw [threads_handle,List.filter_append,List.filter_map]
  simp only [Function.comp_def,id_handled]

theorem about_of_spawned {t : Thread} (ht : spawned c w event = some t) : event.about = some t.id := by
  obtain ⟨path,id,file,rfl,-,rfl⟩ | ⟨filename,id,rfl,rfl⟩ := spawned_cases ht <;> rfl

namespace Selects
variable (hsel : Selects keep d h h')
include hsel

/-- What the listener makes of an event: in the selection the same if the event has a part in it, and nothing if not. -/
theorem handle {k : Bool} (hevent : event.must keep d ≠ some (!k))
    (hread : k = true → d = .download → event.reading = none) :
    Selects keep d (h.handle c w event).1 (cond k (h'.handle c w event).1 h') ∧
      (h'.handle c w event).2 = (h.handle c w event).2 ∧
      ∀ e ∈ (h.handle c w event).2, e.about.map keep ≠ some (!k) := by
  have hkept : ∀ id, event.about = some id → keep id = k := by
    intro id hid
    cases event <;> simp_all [FileHandlerEvents.must,FileHandlerEvents.about]
  have hspawned : ∀ t, spawned c w event = some t → keep t.id = k := fun t ht => hkept t.id (about_of_spawned w ht)
  obtain ⟨said,hsaid,hrx⟩ := handle_rx c w event
  have hpicks : Picks (·.must keep d) (h.rx ++ said) (cond k (h'.rx ++ said) h'.rx) := by
    refine hsel.rx.append fun event hmem => ?_
    obtain ⟨e,rfl⟩ := hsaid event hmem
    simp [FileHandlerEvents.must,FileHandlerEvents.about]
  refine ⟨?_,?_,fun e he => ?_⟩
  · cases k with
    | true =>
      refine ⟨by rw [hrx,cond_true,hrx]; exact hpicks,?_,fun id hid => ?_,fun hd => (hsel.writes hd).handle w (hread rfl hd)⟩
      · have hall : ((spawned c w event).toList.filter fun t => keep t.id) = (spawned c w event).toList :=
          List.filter_eq_self.mpr fun t ht => hspawned t (Option.mem_toList.mp ht)
        rw [cond_true,filter_threads_handle,hall,threads_handle,hsel.threads]
        refine congrArg (· ++ _) (List.map_congr_left fun t ht => ?_)
        have hid : keep t.id = true := (List.mem_filter.mp ht).2
        unfold handled
        split
        · rfl
        · cases event with
          | drainChunks =>
            unfold told
            simp only [hsel.active t.id hid]
          | _ => rfl
      · rw [cond_true,mem_active_handle,mem_active_handle,hsel.active id hid]
    | false =>
      refine ⟨by rw [hrx]; exact hpicks,?_,fun id hid => ?_,hsel.writes⟩
      · have hnone : ((spawned c w event).toList.filter fun t => keep t.id) = [] :=
          List.filter_eq_nil_iff.mpr fun t ht => by simp [hspawned t (Option.mem_toList.mp ht)]
        rw [cond_false,filter_threads_handle,hnone,List.append_nil,← hsel.threads]
        refine ((List.map_congr_left fun t ht => ?_).trans (List.map_id _)).symm
        have hid : keep t.id = true := by
          rw [hsel.threads] at ht
          exact (List.mem_filter.mp ht).2
        have hnew : ¬ (spawned c w event).any (·.id = t.id) = true := by
          intro hany
          obtain ⟨t',ht',hsame⟩ := (Option.any_eq_true _ _).mp hany
          have hkeep := hspawned t' ht'
          rw [of_decide_eq_true hsame,hid] at hkeep
          cases hkeep
        rw [handled,if_neg hnew]
        exact told_other hevent hid fun hd => (hsel.writes hd).threads t ht
      · rw [cond_false,hsel.active id hid,mem_active_handle]
        have hne : event.about ≠ some id := fun habout => by simp [hkept id habout] at hid
        cases event <;> simp_all [FileHandlerEvents.about]
  · cases event with
    | readFile path id =>
      simp only [FileHandler.handle,readFile]
      cases c.disk path <;> rfl
    | _ => rfl
  · rcases about_of_mem_handle w he with hnone | habout
    · simp [hnone]
    · cases hid : event.about with
      | none => simp [habout,hid]
      | some id => simp [habout,hid,hkept id hid]

/-- The turn of a worker of another transfer is not seen, and one of a transfer looked at can be taken in the selection. -/
theorem work (i : ℕ) (r : CallResult) :
    Selects keep d (h.work i r) h' ∨ ∃ j, Selects keep d (h.work i r) (h'.work j r) := by
  rcases work_cases i r h with hsame | ⟨t,ht,hwork⟩
  · rw [hsame]
    exact .inl hsel
  · have hsaid : ∀ event ∈ (step (r.of t) t).2, event.must keep d ≠ some (!keep t.id) := by
      intro event hmem
      have hfrom := fromWorker_of_mem_step hmem
      cases event <;> simp_all [fromWorker,FileHandlerEvents.must,FileHandlerEvents.about]
    rw [hwork]
    rcases @filter_set _ (fun t => keep t.id) h.threads i t { t with worker := (step (r.of t) t).1 } ht rfl with
      ⟨hid,hset⟩ | ⟨j,hj,hset⟩
    · refine .inl ⟨?_,hsel.threads.trans hset.symm,hsel.active,hsel.writes⟩
      exact hsel.rx.append (k := false) fun event hmem => by simpa [hid] using hsaid event hmem
    · have hid : keep t.id = true := (List.mem_filter.mp (List.mem_of_getElem? hj)).2
      rw [← hsel.threads] at hj
      have hwork' : h'.work j r =
          { h' with
            threads := h'.threads.set j { t with worker := (step (r.of t) t).1 }
            rx := h'.rx ++ (step (r.of t) t).2 } := by
        simp only [FileHandler.work,hj]
      refine .inr ⟨j,?_,?_,?_,fun hd => (hsel.writes hd).work j r⟩
      · rw [hwork']
        exact hsel.rx.append (k := true) fun event hmem => by simpa [hid] using hsaid event hmem
      · rw [hwork',hset,hsel.threads]
      · rw [hwork']
        exact hsel.active
theorem shutdown : Selects keep d h.shutdown h'.shutdown := by
  refine ⟨hsel.rx,?_,hsel.active,fun hd => ⟨(hsel.writes hd).rx,?_⟩⟩
  · rw [threads_shutdown,threads_shutdown,hsel.threads,List.filter_map]
    simp only [Function.comp_def,id_told]
    rfl
  · rw [threads_shutdown]
    exact List.forall_mem_map.mpr fun t ht => writer_told ((hsel.writes hd).threads t ht)

theorem send {k : Bool} (hevent : event.must keep d = some k) (hread : k = true → d = .download → event.reading = none) :
    Selects keep d (h.send event) (cond k (h'.send event) h') := by
  have hrx : Picks (·.must keep d) (h.rx ++ [event]) (cond k (h'.rx ++ [event]) h'.rx) :=
    hsel.rx.append (by cases k <;> simp [hevent])
  cases k with
  | true =>
    refine ⟨hrx,hsel.threads,hsel.active,fun hd => ⟨?_,(hsel.writes hd).threads⟩⟩
    exact List.forall_mem_append.mpr ⟨(hsel.writes hd).rx,by simpa using hread rfl hd⟩
  | false => exact ⟨hrx,hsel.threads,hsel.active,hsel.writes⟩
end Selects
end FileHandler

namespace Press
def id : Press → UInt32
  | .send _ id | .reject id | .cancel id _ => id
  | .accept props => props.transactionId

/-- Whether a button can be pressed beside the transfers looked at, by the flag in front of it. -/
def Apart (keep : UInt32 → Bool) (d : Direction) (flag : Bool) : Press → Prop
  | .send _ id => keep id = decide (d = .upload)
  | .cancel id lowers => d = .upload → flag = true → lowers = true → keep id = true
  | _ => True
instance (keep : UInt32 → Bool) (d : Direction) (flag : Bool) : DecidablePred (Apart keep d flag) := fun b => by
  unfold Apart
  split <;> infer_instance
end Press

/-- What comes from outside: a message of the peer, or a button. -/
inductive Input where
  | hear (now : ℕ) (data : Bytes)
  | press (button : Press)
def Input.kept (keep : UInt32 → Bool) : Input → Bool
  | .hear _ data => carries (fun msg => keep msg.id) data
  | .press button => keep button.id

namespace Peer
variable {c : Computer} {keep : UInt32 → Bool} {d : Direction} {k : Bool} {p p' : Peer} {f g : Peer → Peer}
def given (p : Peer) : Input → Peer
  | .hear now data => p.hear now data
  | .press button => p.press button

/-- A client whose threads have taken turns and which was given these inputs. Every button can be pressed at any time. -/
inductive Runs (c : Computer) : List Input → Peer → Prop
  | init : Runs c [] {}
  | turn {inputs : List Input} {p : Peer} (t : Turn) (ht : ∀ action, t ≠ .frame (some action)) (h : Runs c inputs p) :
    Runs c inputs (p.step c t)
  | given {inputs : List Input} {p : Peer} (i : Input) (h : Runs c inputs p) : Runs c (inputs ++ [i]) (p.given i)

def inputOf (p : Peer) : Move → Option Input
  | .hear now data => some (.hear now data)
  | .turn (.frame action) => (p.pressed action).map .press
  | .turn _ => none
def record (c : Computer) (s : Peer × List Input) (m : Move) : Peer × List Input :=
  (s.1.move c m,s.2 ++ (s.1.inputOf m).toList)

/-- For uploads: nothing of another transfer takes the flag down, and no other file is sent. For downloads: no file is sent
under the id of one of them. -/
def Apart (keep : UInt32 → Bool) (d : Direction) (p : Peer) : Move → Prop
  | .turn .poll => d = .upload → p.sendingFiles = true →
      p.events.head?.all (fun event => !event.endsUpload || event.about.any keep) = true
  | .turn (.frame action) =>
    (d = .upload → p.sendingFiles = true → ∀ event ∈ p.out, event.clears = true → event.about.any keep = true) ∧
      ∀ button ∈ p.pressed action, button.Apart keep d (p.frame none).sendingFiles
  | _ => True
instance (keep : UInt32 → Bool) (d : Direction) (p : Peer) : DecidablePred (Apart keep d p)
  | .turn (.frame _) => inferInstanceAs (Decidable (_ ∧ _))
  | .turn .poll => inferInstanceAs (Decidable (_ → _ → _ = _))
  | .hear _ _ | .turn (.listen _) | .turn (.work _ _) | .turn (.transmit _ _) | .turn (.checkTimeouts _ _)
  | .turn .connected | .turn .report | .turn (.drain _) | .turn .stop | .turn .close => isTrue trivial

/-- `p'` has of `p` what is about the transfers looked at. -/
structure Selects (keep : UInt32 → Bool) (d : Direction) (p p' : Peer) : Prop where
  handler : p.handler.Selects keep d p'.handler
  sctp : p.sctp.Selects keep p'.sctp
  events : Picks (·.about.map keep) p.events p'.events
  out : Picks (·.about.map keep) p.out p'.out
  session : p'.session = p.session
  fileHandler : p'.fileHandler = p.fileHandler
  flag : d = .upload → p'.sendingFiles = p.sendingFiles
  drainThread : d = .upload → p'.drainThread = p.drainThread

/-- What is done for a transfer: it is done in the selection too if the transfer is looked at. -/
def Follows (keep : UInt32 → Bool) (d : Direction) (k : Bool) (f : Peer → Peer) : Prop :=
  ∀ ⦃p p'⦄, Selects keep d p p' → Selects keep d (f p) (cond k (f p') p')

theorem follows_id : Follows keep d k fun p => p := by
  intro p p' h
  cases k <;> exact h
theorem Follows.andThen (hf : Follows keep d k f) (hg : Follows keep d k g) : Follows keep d k fun p => g (f p) := by
  intro p p' h
  cases k with
  | true => exact hg (hf h)
  | false => exact hg (hf h)
theorem Follows.ite {b : Peer → Bool} (hb : ∀ ⦃p p'⦄, Selects keep d p p' → b p' = b p) (hf : Follows keep d k f)
    (hg : Follows keep d k g) : Follows keep d k fun p => if b p then f p else g p := by
  intro p p' h
  dsimp only
  rw [hb h]
  split
  · exact hf h
  · exact hg h

theorem follows_toHandler (e : FileHandlerEvents) (he : e.must keep d = some k)
    (hread : k = true → d = .download → e.reading = none) : Follows keep d k fun p => p.toHandler e := by
  refine .ite (fun _ _ h => h.fileHandler) (fun p p' h => ?_) follows_id
  have hsent := h.handler.send he hread
  cases k <;> exact { h with handler := hsent }
theorem follows_toSession (e : SctpEvents) (he : e.about.all keep = k) : Follows keep d k fun p => p.toSession e := by
  refine .ite (fun _ _ h => h.session) (fun p p' h => ?_) follows_id
  have hsent := h.sctp.route he
  cases k <;> exact { h with sctp := hsent }
theorem follows_expose (e : EngineEvent) (he : ∀ id ∈ e.about, keep id = k) : Follows keep d k fun p => p.expose e := by
  intro p p' h
  have hout : Picks (·.about.map keep) (p.out ++ [e]) (cond k (p'.out ++ [e]) p'.out) :=
    h.out.append (by cases hid : e.about <;> simp_all)
  cases k <;> exact { h with out := hout }
theorem follows_receivingFiles (b : Bool) : Follows keep d k fun p => { p with receivingFiles := b } := by
  intro p p' h
  cases k <;> exact { h with }

namespace Selects
variable {event : EngineEvent} (h : Selects keep d p p')
include h
theorem pollEvent (hevent : ∀ id ∈ event.about, keep id = k)
    (hends : k = false → d = .upload → p.sendingFiles = true → event.endsUpload = false) :
    Selects keep d (p.pollEvent event) (cond k (p'.pollEvent event) p') := by
  cases event with
  | sendFileOffer props => exact follows_toSession (.sendOffer props) (hevent _ rfl) h
  | sendFileChunk id payload => exact follows_toSession (.sendChunk id payload) (hevent id rfl) h
  | sendFileEnd id =>
    have hsent := follows_toSession (.sendEndFile id) (hevent id rfl) h
    cases k with
    | true => exact { hsent with flag := fun _ => rfl }
    | false =>
      refine { hsent with flag := fun hd => (h.flag hd).trans ?_ }
      exact Bool.eq_false_iff.mpr fun hflag => by cases hends rfl hd hflag
  | receivedFileChunk id _ payload =>
    exact follows_toHandler (.writeChunk id payload) (congrArg some (hevent id rfl)) (fun _ _ => rfl) h
  | receivedFileEnd id => exact (follows_receivingFiles false).andThen (follows_expose _ hevent) h
  | receivedFileAccept id =>
    have htold : Follows keep d k fun p => p.toHandler (.remoteAccepted id) :=
      follows_toHandler _ (congrArg some (hevent id rfl)) fun _ _ => rfl
    exact htold.andThen (follows_expose _ hevent) h
  | _ => exact follows_expose _ hevent h

theorem drain (high : Bool) (hd : d = .upload) : Selects keep d (p.drain high) (p'.drain high) := by
  have hset : ∀ thread, Follows keep d true fun p => { p with drainThread := thread } :=
    fun thread p p' h => { h with drainThread := fun _ => rfl }
  have hasks : Follows keep d true fun p => p.toHandler .drainChunks :=
    follows_toHandler .drainChunks (by simp [FileHandlerEvents.must,hd]) fun _ _ => rfl
  unfold Peer.drain
  rw [h.drainThread hd]
  split
  · exact Follows.ite (fun _ _ h => h.flag hd) (hset .flagged) (.ite (fun _ _ h => h.fileHandler) follows_id (hset .ended)) h
  · exact hset _ h
  · exact hset .asleep h
  · exact Follows.ite (fun _ _ h => h.fileHandler) ((hset _).andThen hasks) (hset .ended) h
  · exact h

theorem drain_other (high : Bool) (hd : d = .download) : Selects keep d (p.drain high) p' := by
  have hset : ∀ thread : DrainThread, Selects keep d { p with drainThread := thread } p' :=
    fun thread => { h with drainThread := fun hup => by cases hd.symm.trans hup }
  have hasks : Follows keep d false fun p => p.toHandler .drainChunks :=
    follows_toHandler .drainChunks (by simp [FileHandlerEvents.must,hd]) nofun
  unfold Peer.drain
  split
  · split_ifs
    · exact hset _
    · exact h
    · exact hset _
  · exact hset _
  · exact hset _
  · split
    · exact hasks (hset _)
    · exact hset _
  · exact h

/-- What the window handles takes the flag down on both sides, or on neither. -/
theorem frame (hout : d = .upload → p.sendingFiles = true → ∀ event ∈ p.out, event.clears = true →
    event.about.any keep = true) : Selects keep d (p.frame none) (p'.frame none) := by
  have hflag : d = .upload → (p'.frame none).sendingFiles = (p.frame none).sendingFiles := by
    intro hd
    rw [sendingFiles_frame,sendingFiles_frame,h.flag hd]
    cases hup : p.sendingFiles with
    | false => rfl
    | true =>
      have hany : p'.out.any (·.clears) = p.out.any (·.clears) := by
        rw [Bool.eq_iff_iff,List.any_eq_true,List.any_eq_true]
        constructor
        · rintro ⟨event,hmem,hclears⟩
          exact ⟨event,h.out.subset hmem,hclears⟩
        · rintro ⟨event,hmem,hclears⟩
          obtain ⟨id,hid,hkeep⟩ := (Option.any_eq_true _ _).mp (hout hd hup event hmem hclears)
          exact ⟨event,h.out.mem (by simp [hid,hkeep]) hmem,hclears⟩
      rw [hany]
  obtain ⟨s,r,state,-,-,hframe⟩ := foldl_handleEngineEvent_eq p.out { p with out := [] }
  obtain ⟨s',r',state',-,-,hframe'⟩ := foldl_handleEngineEvent_eq p'.out { p' with out := [] }
  have hp : p.frame none = _ := hframe
  have hp' : p'.frame none = _ := hframe'
  rw [hp,hp'] at hflag ⊢
  exact { h with out := .nil, flag := hflag }

theorem press {button : Press} (hid : keep button.id = k) (hbutton : button.Apart keep d p.sendingFiles) :
    Selects keep d (p.press button) (cond k (p'.press button) p') := by
  cases button with
  | send path id =>
    have hk : k = decide (d = .upload) := hid.symm.trans hbutton
    have hraised : Follows keep d k fun p => { p with sendingFiles := true } := by
      subst hk
      intro p p' h
      cases d with
      | upload => exact { h with flag := fun _ => rfl }
      | download => exact { h with flag := fun hd => by cases hd }
    refine Follows.ite (fun _ _ h => h.fileHandler) (hraised.andThen (follows_toHandler (.readFile path id) (congrArg some hid) ?_)) follows_id h
    intro hup hd
    simp [hk,hd] at hup
  | accept props =>
    have hsession : Follows keep d k fun p =>
        if p.session then Peer.toSession { p with receivingFiles := true } (.sendAccept props.transactionId) else p :=
      .ite (fun _ _ h => h.session) ((follows_receivingFiles true).andThen (follows_toSession (.sendAccept _) hid)) follows_id
    exact hsession.andThen (follows_toHandler (.writeFile _ _) (congrArg some hid) fun _ _ => rfl) h
  | reject id => exact follows_toSession (.sendReject id) hid h
  | cancel id lowers =>
    have hcancel : Follows keep d k fun p => p.cancelFile id :=
      (follows_toSession (.sendCancel id) hid).andThen (follows_toHandler (.cancel id) (congrArg some hid) fun _ _ => rfl)
    have hcancelled := hcancel h
    cases k with
    | true => exact { hcancelled with flag := fun hd => congrArg (· && !lowers) (h.flag hd) }
    | false =>
      refine { hcancelled with flag := fun hd => (h.flag hd).trans ?_ }
      change p.sendingFiles = (p.sendingFiles && !lowers)
      cases hup : p.sendingFiles with
      | false => rfl
      | true =>
        cases hlowers : lowers with
        | false => rfl
        | true => exact absurd (hbutton hd hup hlowers) (Bool.eq_false_iff.mp hid)
end Selects

namespace Selects
variable {inputs : List Input} (h : Selects keep d p p') (hruns : Runs c inputs p')
include h hruns

theorem listen (w : Surroundings) : ∃ q, Runs c inputs q ∧ Selects keep d (p.step c (.listen w)) q := by
  have hstep : ∀ {q : Peer} {event rest}, q.handler.rx = event :: rest → q.step c (.listen w) =
      { q with
        handler := (FileHandler.handle c w { q.handler with rx := rest } event).1
        events := q.events ++ (FileHandler.handle c w { q.handler with rx := rest } event).2 } := by
    intro q event rest hrx
    rw [step,FileHandler.listen,hrx]
  have hpicks := h.handler.rx
  cases hrx : p.handler.rx with
  | nil =>
    refine ⟨p',hruns,?_⟩
    rw [step,FileHandler.listen,hrx]
    simpa using h
  | cons event rest =>
    rw [hrx] at hpicks
    rw [hstep hrx]
    obtain ⟨k,rest',hevent,hrx',hrest⟩ := hpicks.cases_cons
    have hwrites : d = .download → ∀ event' ∈ cond k (event :: rest') rest', event'.reading = none := fun hd => by
      rw [← hrx']
      exact (h.handler.writes hd).rx
    have hsel : FileHandler.Selects keep d { p.handler with rx := rest } { p'.handler with rx := rest' } :=
      { h.handler with
        rx := hrest
        writes := fun hd => ⟨fun event' hmem => hwrites hd event' (by cases k <;> simp [hmem]),(h.handler.writes hd).threads⟩ }
    obtain ⟨hhandler,hsame,hsaid⟩ := hsel.handle (c := c) w hevent fun hk hd => hwrites hd event (by simp [hk])
    have hevents := h.events.append hsaid
    cases k with
    | true =>
      refine ⟨_, .turn (.listen w) (by simp) hruns,?_⟩
      rw [hstep hrx',hsame]
      exact { h with handler := hhandler, events := hevents }
    | false =>
      obtain rfl : p'.handler.rx = rest' := hrx'
      exact ⟨p',hruns,{ h with handler := hhandler, events := hevents }⟩

theorem poll (hends : d = .upload → p.sendingFiles = true →
      p.events.head?.all (fun event => !event.endsUpload || event.about.any keep) = true) :
    ∃ q, Runs c inputs q ∧ Selects keep d (p.step c .poll) q := by
  have hstep : ∀ {q : Peer} {event rest}, q.events = event :: rest → q.step c .poll =
      Peer.pollEvent { q with events := rest } event := by
    intro q event rest hevents
    rw [step,Peer.poll,hevents]
  have hpicks := h.events
  cases hevents : p.events with
  | nil =>
    refine ⟨p',hruns,?_⟩
    rw [step,Peer.poll,hevents]
    exact h
  | cons event rest =>
    rw [hevents] at hpicks
    rw [hstep hevents]
    obtain ⟨k,rest',hevent,hevents',hrest⟩ := hpicks.cases_cons
    have hsel : Selects keep d { p with events := rest } { p' with events := rest' } := { h with events := hrest }
    have habout : ∀ id ∈ event.about, keep id = k := fun id hid => by simpa [Option.mem_def.mp hid] using hevent
    have hpolled := hsel.pollEvent habout fun hk hd hup => by
      have hnot : event.about.any keep = false := by
        cases hid : event.about with
        | none => rfl
        | some id => exact (habout id hid).trans hk
      simpa [hevents,hnot] using hends hd hup
    cases k with
    | true =>
      refine ⟨_, .turn .poll (by simp) hruns,?_⟩
      rw [hstep hevents']
      exact hpolled
    | false =>
      obtain rfl : p'.events = rest' := hevents'
      exact ⟨p',hruns,hpolled⟩

theorem report : ∃ q, Runs c inputs q ∧ Selects keep d (p.step c .report) q := by
  have hstep : ∀ {q : Peer} {event rest}, q.sctp.toParent = event :: rest → q.step c .report =
      { q with sctp := q.sctp.nextForParent, events := q.events ++ (engineEvent event).toList } := by
    intro q event rest hparent
    rw [step,Peer.report,hparent]
  cases hparent : p.sctp.toParent with
  | nil =>
    refine ⟨p',hruns,?_⟩
    rw [step,Peer.report,hparent]
    exact h
  | cons event rest =>
    have habout : ∀ e ∈ (engineEvent event).toList, e.about = event.about := by
      intro e he
      cases event <;> simp [engineEvent] at he <;> rw [he] <;> rfl
    have hsel := h.sctp.toParent
    rw [hparent,List.filter_cons] at hsel
    rw [hstep hparent]
    have hnext : p.sctp.nextForParent.toParent = rest := by simp [SctpSession.nextForParent,hparent]
    have hevents := h.events.append (k := event.about.all keep) fun e he => by
      rw [habout e he]
      cases event.about <;> simp
    cases hkept : event.about.all keep with
    | true =>
      rw [if_pos hkept] at hsel
      refine ⟨_, .turn .report (by simp) hruns,?_⟩
      rw [hstep hsel]
      refine { h with sctp := { h.sctp with toParent := ?_ }, events := by rwa [hkept] at hevents }
      rw [hnext]
      simp [SctpSession.nextForParent,hsel]
    | false =>
      rw [if_neg (by simp [hkept])] at hsel
      refine ⟨p',hruns,{ h with sctp := { h.sctp with toParent := by rw [hnext,hsel] }, events := ?_ }⟩
      rwa [hkept] at hevents

theorem turn {t : Turn} (ht : ∀ action, t ≠ .frame action)
    (hm : p.Apart keep d (.turn t)) : ∃ q, Runs c inputs q ∧ Selects keep d (p.step c t) q := by
  cases t with
  | listen w => exact h.listen hruns w
  | work i r =>
    rcases h.handler.work i r with hsel | ⟨j,hsel⟩
    · exact ⟨p',hruns,{ h with handler := hsel }⟩
    · exact ⟨_, .turn (.work j r) (by simp) hruns,{ h with handler := hsel }⟩
  | transmit now results =>
    rcases h.sctp.transmit now results with hsel | ⟨results',hsel⟩
    · exact ⟨p',hruns,{ h with sctp := hsel }⟩
    · exact ⟨_, .turn (.transmit now results') (by simp) hruns,{ h with sctp := hsel }⟩
  | checkTimeouts now ids =>
    obtain ⟨ids',hsel⟩ := h.sctp.checkStreamTimeouts now ids
    exact ⟨_, .turn (.checkTimeouts now ids') (by simp) hruns,{ h with sctp := hsel }⟩
  | connected => exact ⟨_, .turn .connected (by simp) hruns,{ h with sctp := h.sctp.route rfl }⟩
  | report => exact h.report hruns
  | poll => exact h.poll hruns hm
  | drain high =>
    cases d with
    | upload => exact ⟨_, .turn (.drain high) (by simp) hruns,h.drain high rfl⟩
    | download => exact ⟨p',hruns,h.drain_other high rfl⟩
  | frame action => exact absurd rfl (ht action)
  | stop =>
    have hstops : Follows keep d true fun p => { p with
        sendingFiles := false
        receivingFiles := false
        handler := p.handler.shutdown
        fileHandler := false } := fun p p' h =>
      { h with handler := h.handler.shutdown, fileHandler := rfl, flag := fun _ => rfl }
    exact ⟨_, .turn .stop (by simp) hruns,Follows.ite (fun _ _ h => h.fileHandler) hstops follows_id h⟩
  | close => exact ⟨_, .turn .close (by simp) hruns,{ h with session := rfl, fileHandler := rfl }⟩

/-- A step of the client, and what the selection does instead. -/
theorem move {m : Move} (hm : p.Apart keep d m) :
    ∃ q, Runs c (inputs ++ (p.inputOf m).toList.filter (·.kept keep)) q ∧ Selects keep d (p.move c m) q := by
  cases m with
  | hear now data =>
    cases hdata : carries (fun msg => keep msg.id) data with
    | true =>
      refine ⟨p'.hear now data,?_,{ h with sctp := SctpSession.follows_handleChunkData hdata now h.sctp }⟩
      simpa [inputOf,Input.kept,hdata,Peer.given] using hruns.given (.hear now data)
    | false =>
      refine ⟨p',?_,{ h with sctp := SctpSession.follows_handleChunkData hdata now h.sctp }⟩
      simpa [inputOf,Input.kept,hdata] using hruns
  | turn t =>
    by_cases hframe : ∃ action, t = .frame action
    · obtain ⟨action,rfl⟩ := hframe
      have hsel := h.frame hm.1
      have hruns' : Runs c inputs (p'.frame none) := .turn (.frame none) (by simp) hruns
      obtain ⟨r,state,hact,-⟩ := frame_eq_press p action
      change ∃ q, Runs c (inputs ++ ((p.pressed action).map Input.press).toList.filter (·.kept keep)) q ∧
        Selects keep d (p.frame action) q
      rw [hact]
      cases hpressed : p.pressed action with
      | none => exact ⟨_,by simpa using hruns',{ hsel with }⟩
      | some button =>
        cases hid : keep button.id with
        | true =>
          refine ⟨_,?_,{ hsel.press hid (hm.2 button hpressed) with }⟩
          simpa [Input.kept,hid,Peer.given] using hruns'.given (.press button)
        | false =>
          refine ⟨_,?_,{ hsel.press hid (hm.2 button hpressed) with }⟩
          simpa [Input.kept,hid] using hruns'
    · have hother : ∀ action, t ≠ .frame action := fun action heq => hframe ⟨action,heq⟩
      obtain ⟨q,hq,hsel⟩ := h.turn hruns hother hm
      refine ⟨q,?_,hsel⟩
      cases t with
      | frame action => exact absurd rfl (hother action)
      | _ => simpa [inputOf] using hq
end Selects

end Peer

namespace Peer
def accepting (id : UInt32) : List Move :=
  Uploads.told (.offer id "b" 1) ++ [.turn (.frame (some .accept)), .turn (.listen ready)]

def messages (moves : List Move) : List SctpProtocolMessage :=
  (moves.foldl (Peer.move oneFile) {}).sctp.stream0.filterMap fun data => (SctpProtocolMessage.deserialize data).toOption

/-- While an upload goes on, a file of the peer with another id is accepted, and its chunk is written. -/
def download : List Move :=
  accepting 9 ++ Uploads.told (.chunk 9 0 [5]) ++
    [.turn (.listen ready), .turn (.work 1 { read := .ok 0, write := .ok }), .turn (.listen ready)] ++
    Uploads.told (.endFile 9)
end Peer
end RustyRtc.Files
