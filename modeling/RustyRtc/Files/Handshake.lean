import RustyRtc.Files.Requests
import RustyRtc.Foundation.Lists

/-! # The way of an offer and of its acceptance

For one transfer id: the offers and acceptances on their way through a client, and the threads it has. Every turn
passes them on or drops them, none makes a second one. Only the user starts something: by sending a file, and by
accepting an offer.
-/
namespace RustyRtc.Sctp
open SctpProtocolMessage SctpSession
variable {msg : SctpProtocolMessage} {data : Bytes}

def carries (m : SctpProtocolMessage → Bool) (data : Bytes) : Bool :=
  (SctpProtocolMessage.deserialize data).toOption.any m

/-- A kind of message that depends on type and id only, and the events the sender makes such messages of. -/
structure Outgoing (q : SctpEvents → Bool) (m : SctpProtocolMessage → Bool) : Prop where
  head : ∀ msg msg', msg'.msgType = msg.msgType → msg'.id = msg.id → m msg' = m msg
  made : ∀ s event, ∀ msg ∈ SctpSession.messageOf s event, m msg = q event := by
    intro s event msg hmsg
    cases event with
    | sendChunk id payload =>
      obtain ⟨_,-,rfl⟩ := Option.map_eq_some_iff.mp hmsg
      rfl
    | _ => cases hmsg <;> rfl

namespace SctpSession
variable {q : SctpEvents → Bool} {m : SctpProtocolMessage → Bool} {s : SctpSession}
def posted (m : SctpProtocolMessage → Bool) (s : SctpSession) : ℕ := s.pending.countP m + s.stream0.countP (carries m)
def outgoing (q : SctpEvents → Bool) (m : SctpProtocolMessage → Bool) (s : SctpSession) : ℕ :=
  s.toSender.countP q + s.posted m

theorem carries_serialize (hm : ∀ msg msg', msg'.msgType = msg.msgType → msg'.id = msg.id → m msg' = m msg)
    (hdata : msg.serialize = .ok data) (h : carries m data) : m msg := by
  rw [carries] at h
  cases hread : deserialize data with
  | error e => simp [hread,Except.toOption] at h
  | ok msg' =>
    obtain ⟨htype,hid⟩ := head_of_deserialize hdata hread
    rw [← hm msg msg' htype hid]
    simpa [hread,Except.toOption] using h

theorem posted_sendMessage (hm : Outgoing q m) (result : WriteResult) (msg : SctpProtocolMessage) :
    (sendMessage result s msg).posted m ≤ s.posted m + if m msg then 1 else 0 := by
  obtain ⟨data,hdata,⟨-,h⟩ | ⟨-,h⟩ | ⟨-,h⟩⟩ := sendMessage_cases result s msg
  · have hcarries : (if carries m data then 1 else 0) ≤ if m msg then 1 else 0 := by
      split
      · next hc => simp [carries_serialize hm.head hdata hc]
      · simp
    rw [h]
    simp only [posted,List.countP_append,List.countP_singleton]
    omega
  · rw [h]
    simp only [posted,List.countP_append,List.countP_singleton]
    omega
  · rw [h]
    omega

theorem posted_flush (hm : Outgoing q m) (results : ℕ → WriteResult) : (s.flush results).posted m ≤ s.posted m := by
  have hfold : ∀ (ms : List (SctpProtocolMessage × ℕ)) (s : SctpSession),
      (ms.foldl (fun s m => sendMessage (results m.2) s m.1) s).posted m ≤ s.posted m + ms.countP fun x => m x.1 := by
    intro ms
    induction ms with
    | nil => simp
    | cons x ms ih =>
      intro s
      have hx := posted_sendMessage hm (s := s) (results x.2) x.1
      have hms := ih (sendMessage (results x.2) s x.1)
      rw [List.foldl_cons,List.countP_cons]
      omega
  have hcount : (s.pending.zipIdx.countP fun x => m x.1) = s.pending.countP m := by
    have hmap := List.countP_map (p := m) (f := Prod.fst) (l := s.pending.zipIdx)
    rw [List.zipIdx_map_fst] at hmap
    exact hmap.symm
  have h := hfold s.pending.zipIdx { s with pending := [] }
  rw [hcount] at h
  simp only [posted,List.countP_nil] at h ⊢
  exact h.trans (by omega)

/-- The sender makes no message without its event. -/
theorem outgoing_transmit (hm : Outgoing q m) (now : ℕ) (results : ℕ → WriteResult) :
    (s.transmit now results).outgoing q m ≤ s.outgoing q m := by
  rw [transmit]
  cases hto : s.toSender with
  | nil => simp
  | cons event rest =>
    have hhandle : (handle now results { s with toSender := rest } event).posted m ≤
        s.posted m + if q event then 1 else 0 := by
      refine handle_cases (P := fun s' => s'.posted m ≤ _) now results { s with toSender := rest } ?_ ?_ ?_
      · exact fun _ => (posted_flush hm results).trans (Nat.le_add_right _ _)
      · exact fun _ => Nat.le_add_right _ _
      · exact fun streams msg hmsg => hm.made _ _ msg hmsg ▸ posted_sendMessage hm (results 0) msg
    simp only [outgoing,handle_toSender,hto,List.countP_cons]
    omega
end SctpSession

section Chunks
variable (id : UInt32)
def chunkOf : SctpProtocolMessage → Option Bytes
  | .chunk id' _ payload => if id' = id then some payload else none
  | _ => none
def chunkIn (data : Bytes) : Option Bytes := (SctpProtocolMessage.deserialize data).toOption.bind (chunkOf id)
end Chunks

variable {id : UInt32}
theorem chunkOf_eq_none : chunkOf id msg = none ↔ ¬ (msg.msgType = typeChunk ∧ msg.id = id) := by
  cases msg with
  | chunk id' seq payload => simp [chunkOf,msgType,SctpProtocolMessage.id]
  | _ => simp [chunkOf,msgType,typeChunk,typeOffer,typeAccept,typeReject,typeCancel,typeEndFile]

theorem chunkIn_eq_none (hdata : msg.serialize = .ok data) (hmsg : chunkOf id msg = none) : chunkIn id data = none := by
  rw [chunkIn]
  cases hread : deserialize data with
  | error e => rfl
  | ok msg' =>
    obtain ⟨htype,hid⟩ := head_of_deserialize hdata hread
    rw [chunkOf_eq_none,← htype,← hid,← chunkOf_eq_none] at hmsg
    exact hmsg

theorem chunkIn_chunk {seq : UInt64} {payload : Bytes} (hlength : payload.length < UInt32.size)
    (hdata : (SctpProtocolMessage.chunk id seq payload).serialize = .ok data) : chunkIn id data = some payload := by
  have hfits : (SctpProtocolMessage.chunk id seq payload).Fits := ⟨trivial,UInt32.toNat_ofNat_of_lt' hlength⟩
  rw [chunkIn,deserialize_serialize hfits hdata]
  simp [Except.toOption,chunkOf]
end RustyRtc.Sctp

namespace RustyRtc.Files
open Sctp SctpSession FileHandler

section Kinds
variable (id : UInt32) (msg : SctpProtocolMessage)
def isReadFile : FileHandlerEvents → Bool
  | .readFile _ id' => id' = id
  | _ => false
def isWriteFile : FileHandlerEvents → Bool
  | .writeFile _ id' => id' = id
  | _ => false
def isRemoteAccepted : FileHandlerEvents → Bool
  | .remoteAccepted id' => id' = id
  | _ => false
def isSendFileOffer : EngineEvent → Bool
  | .sendFileOffer props => props.transactionId = id
  | _ => false
def isReceivedFileOffer : EngineEvent → Bool
  | .receivedFileOffer props => props.transactionId = id
  | _ => false
def isReceivedFileAccept : EngineEvent → Bool
  | .receivedFileAccept id' => id' = id
  | _ => false
def isSendOffer : SctpEvents → Bool
  | .sendOffer props => props.transactionId = id
  | _ => false
def isSendAccept : SctpEvents → Bool
  | .sendAccept id' => id' = id
  | _ => false
def isReceivedOffer : SctpEvents → Bool
  | .receivedOffer props => props.transactionId = id
  | _ => false
def isReceivedAccept : SctpEvents → Bool
  | .receivedAccept id' => id' = id
  | _ => false
def isOffer : SctpProtocolMessage → Bool
  | .offer id' _ _ => id' = id
  | _ => false
def isAccept : SctpProtocolMessage → Bool
  | .accept id' => id' = id
  | _ => false
def isRemoteOffered : FileTransferState → Bool
  | .remoteOffered props => props.transactionId = id
  | _ => false
theorem isOffer_eq :
    isOffer id msg = (decide (msg.msgType = SctpProtocolMessage.typeOffer) && decide (msg.id = id)) := by
  cases msg <;> rfl
theorem isAccept_eq :
    isAccept id msg = (decide (msg.msgType = SctpProtocolMessage.typeAccept) && decide (msg.id = id)) := by
  cases msg <;> rfl

theorem outgoing_offer : Outgoing (isSendOffer id) (isOffer id) where
  head msg msg' htype hid := by rw [isOffer_eq,isOffer_eq,htype,hid]

theorem outgoing_accept : Outgoing (isSendAccept id) (isAccept id) where
  head msg msg' htype hid := by rw [isAccept_eq,isAccept_eq,htype,hid]
end Kinds

namespace FileHandler
variable {c : Computer} {h : FileHandler} {id : UInt32} {event : FileHandlerEvents} {t : Thread} (w : Surroundings)
def threadsOf (id : UInt32) (h : FileHandler) : List Thread := h.threads.filter fun t => t.id = id

/-- What an event does to a thread of the transfer. -/
def told (id : UInt32) (h : FileHandler) (event : FileHandlerEvents) (t : Thread) : Thread :=
  if t.listed then
    match event with
    | .getChunk id' => if id = id' then { t with worker := t.worker.sendGetChunk } else t
    | .drainChunks => if id ∈ h.activeReaders then { t with worker := t.worker.sendGetChunk } else t
    | .writeChunk id' payload => if id = id' then { t with worker := t.worker.sendWriteChunk payload } else t
    | .readerWorkerFinished id' | .writerWorkerFinished id' => if id = id' then { t with listed := false } else t
    | .cancel id' => if id = id' then { t with worker := t.worker.sendCancel, listed := false } else t
    | _ => t
  else t

theorem told_unlisted (ht : t.listed = false) : told id h event t = t := by
  unfold told
  rw [ht]
  rfl

theorem told_cases (id : UInt32) (h : FileHandler) (event : FileHandlerEvents) (t : Thread) : told id h event t = t ∨
      t.listed = true ∧
        ((told id h event t = { t with worker := t.worker.sendGetChunk } ∧
            (event = .getChunk id ∨ event = .drainChunks ∧ id ∈ h.activeReaders)) ∨
          (∃ payload, told id h event t = { t with worker := t.worker.sendWriteChunk payload }) ∨
          told id h event t = { t with listed := false } ∨
          told id h event t = { t with worker := t.worker.sendCancel, listed := false }) := by
  cases ht : t.listed with
  | false => exact .inl (told_unlisted ht)
  | true =>
    unfold told
    rw [ht,if_pos rfl]
    cases event with
    | getChunk id' =>
      dsimp only
      split
      · next hid => exact .inr ⟨rfl, .inl ⟨rfl, .inl (by rw [hid])⟩⟩
      · exact .inl rfl
    | drainChunks =>
      dsimp only
      split
      · next hactive => exact .inr ⟨rfl, .inl ⟨rfl, .inr ⟨rfl,hactive⟩⟩⟩
      · exact .inl rfl
    | writeChunk id' payload =>
      dsimp only
      split
      · exact .inr ⟨rfl, .inr (.inl ⟨payload,rfl⟩)⟩
      · exact .inl rfl
    | readerWorkerFinished id' | writerWorkerFinished id' =>
      dsimp only
      split
      · exact .inr ⟨rfl, .inr (.inr (.inl rfl))⟩
      · exact .inl rfl
    | cancel id' =>
      dsimp only
      split
      · exact .inr ⟨rfl, .inr (.inr (.inr rfl))⟩
      · exact .inl rfl
    | _ => exact .inl rfl

/-- What the listener tells a reader changes neither the file nor how far it has come. -/
theorem told_reader {w : ReaderWorker} (ht : t.worker = .reader w) :
    ∃ commands, (told id h event t).worker = .reader { w with rxCmd := w.rxCmd ++ commands } ∧
      (.getChunk ∈ commands → t.listed = true ∧ (event = .getChunk id ∨ event = .drainChunks)) := by
  rcases told_cases id h event t with heq | ⟨hlisted,⟨heq,hasked⟩ | ⟨payload,heq⟩ | heq | heq⟩ <;> rw [heq]
  · exact ⟨[],by simp [ht],by simp⟩
  · exact ⟨[.getChunk],by simp [ht,Worker.sendGetChunk,ReaderWorker.send],fun _ => ⟨hlisted,hasked.imp_right And.left⟩⟩
  · exact ⟨[],by simp [ht,Worker.sendWriteChunk],by simp⟩
  · exact ⟨[],by simp [ht],by simp⟩
  · exact ⟨[.cancel],by simp [ht,Worker.sendCancel,ReaderWorker.send],by simp⟩

theorem id_told (event : FileHandlerEvents) (t : Thread) : (told id h event t).id = t.id := by
  rcases told_cases id h event t with heq | ⟨-,⟨heq,-⟩ | ⟨payload,heq⟩ | heq | heq⟩ <;> rw [heq]
theorem filter_map_threads {g : Thread → Thread} (hg : ∀ t, (g t).id = t.id) (threads : List Thread) :
    (threads.map g).filter (fun t => t.id = id) = (threads.filter fun t => t.id = id).map g := by
  simp [List.filter_map,Function.comp_def,hg]
theorem threads_shutdown : h.shutdown.threads = h.threads.map fun t => h.told t.id (.cancel t.id) t := by
  refine List.map_congr_left fun t _ => ?_
  unfold told
  cases t.listed <;> simp
theorem threadsOf_shutdown : h.shutdown.threadsOf id = (h.threadsOf id).map (h.told id (.cancel id)) := by
  rw [threadsOf, threads_shutdown, filter_map_threads fun t => id_told _ t]
  exact List.map_congr_left fun t ht => by rw [of_decide_eq_true (List.mem_filter.mp ht).2]

/-- The thread that an event starts, of whatever transfer. -/
def spawned (c : Computer) (w : Surroundings) : FileHandlerEvents → Option Thread
  | .readFile path id =>
    match c.disk path with
    | .ok file => some { id := id, worker := .reader (.new file) }
    | .error _ => none
  | .writeFile filename id =>
    match w.createDirAll, w.create with
    | none, .ok _ => some { id := id, worker := .writer { path := Path.join c.storagePath filename.toList } }
    | _, _ => none
  | _ => none

theorem spawned_cases {w : Surroundings} (ht : spawned c w event = some t) :
    (∃ path id file, event = .readFile path id ∧ c.disk path = .ok file ∧
      t = { id := id, worker := .reader (.new file) }) ∨
    ∃ filename id, event = .writeFile filename id ∧
      t = { id := id, worker := .writer { path := Path.join c.storagePath filename.toList } } := by
  cases event with
  | readFile path id =>
    simp only [spawned] at ht
    split at ht
    · next file hdisk => exact .inl ⟨path,id,file,rfl,hdisk,(Option.some.inj ht).symm⟩
    · cases ht
  | writeFile filename id =>
    simp only [spawned] at ht
    split at ht
    · exact .inr ⟨filename,id,rfl,(Option.some.inj ht).symm⟩
    · cases ht
  | _ => cases ht

def created (c : Computer) (w : Surroundings) (id : UInt32) (event : FileHandlerEvents) : List Thread :=
  (spawned c w event).toList.filter fun t => t.id = id

/-- What an event does to a thread: a new one takes the place of the one with its id. -/
def handled (c : Computer) (w : Surroundings) (h : FileHandler) (event : FileHandlerEvents) (t : Thread) : Thread :=
  if (spawned c w event).any (·.id = t.id) then { t with listed := false } else told t.id h event t
theorem id_handled (event : FileHandlerEvents) (t : Thread) : (handled c w h event t).id = t.id := by
  unfold handled
  split
  · rfl
  · exact id_told event t

theorem threads_insert (t : Thread) : (h.insert t.id t.worker).threads =
    (h.threads.map fun t' => if t.id = t'.id then { t' with listed := false } else t') ++
      [{ id := t.id, worker := t.worker }] := by
  refine congrArg (· ++ _) (List.map_congr_left fun t' _ => ?_)
  obtain ⟨id',worker,listed⟩ := t'
  by_cases hid : id' = t.id
  · cases listed <;> simp [hid]
  · cases listed <;> simp [hid,Ne.symm hid]

theorem threads_handle (event : FileHandlerEvents) :
    (h.handle c w event).1.threads = h.threads.map (handled c w h event) ++ (spawned c w event).toList := by
  have hspawn : ∀ {t : Thread}, t.listed = true → spawned c w event = some t →
      (h.insert t.id t.worker).threads = h.threads.map (handled c w h event) ++ [t] := by
    intro t ht hevent
    rw [threads_insert]
    refine congrArg₂ _ (List.map_congr_left fun t' _ => ?_) (by rw [← ht])
    simp only [handled,hevent,Option.any_some,decide_eq_true_eq]
    split
    · rfl
    · cases event <;> first | exact (ite_self _).symm | cases hevent
  have hquiet : spawned c w event = none → (∀ t, told t.id h event t = t) →
      h.threads = h.threads.map (handled c w h event) ++ (spawned c w event).toList := by
    intro hnone htold
    have hsame : handled c w h event = id := funext fun t => by simp [handled,hnone,htold]
    simp [hsame,hnone]
  have hmap : ∀ {p : UInt32 → Bool} {g : Thread → Thread}, spawned c w event = none →
      (∀ t, told t.id h event t = if t.listed && p t.id then g t else t) →
      (h.tell p g).threads = h.threads.map (handled c w h event) ++ (spawned c w event).toList := by
    intro p g hnone htold
    simp [tell,handled,hnone,htold]
  cases event with
  | readFile path id =>
    simp only [handle,readFile]
    cases hdisk : c.disk path with
    | error e => exact hquiet (by simp [spawned,hdisk]) fun t => ite_self t
    | ok file =>
      have hevent : spawned c w (.readFile path id) = some { id := id, worker := .reader (.new file) } := by
        simp [spawned,hdisk]
      have hthreads := hspawn rfl hevent
      rw [hevent]
      exact hthreads
  | writeFile filename id =>
    simp only [handle,writeFile]
    cases hdirs : w.createDirAll with
    | some failure => exact hquiet (by simp [spawned,hdirs]) fun t => ite_self t
    | none =>
      cases hcreate : w.create with
      | error e => exact hquiet (by simp [spawned,hdirs,hcreate]) fun t => ite_self t
      | ok _ =>
        have hevent : spawned c w (.writeFile filename id) =
            some { id := id, worker := .writer { path := Path.join c.storagePath filename.toList } } := by
          simp [spawned,hdirs,hcreate]
        have hthreads := hspawn rfl hevent
        rw [hevent]
        exact hthreads
  | readerWorkerFinished id =>
    change (h.remove id fun w => w).threads = _
    refine hmap rfl fun t => ?_
    unfold told
    cases t.listed <;> simp
  | cancel id =>
    change (h.remove id Worker.sendCancel).threads = _
    refine hmap rfl fun t => ?_
    unfold told
    cases t.listed <;> simp
  | writerWorkerFinished _ | getChunk _ | drainChunks | writeChunk _ _ =>
    refine hmap rfl fun t => ?_
    unfold told
    cases t.listed <;> simp
  | _ => exact hquiet rfl fun t => ite_self t

theorem threadsOf_handle (hfresh : (isReadFile id event || isWriteFile id event) = true → h.threadsOf id = []) :
    (h.handle c w event).1.threadsOf id = (h.threadsOf id).map (told id h event) ++ created c w id event := by
  rw [threadsOf,threads_handle,List.filter_append,filter_map_threads (id_handled w event)]
  refine congrArg (· ++ _) (List.map_congr_left fun t ht => ?_)
  have ht' := of_decide_eq_true (List.mem_filter.mp ht).2
  -- an event that starts a thread of the transfer finds none
  have hnone : ¬ (spawned c w event).any (·.id = t.id) = true := by
    intro hany
    obtain ⟨new,hnew,hsame⟩ := (Option.any_eq_true _ _).mp hany
    refine List.ne_nil_of_mem ht (hfresh ?_)
    have hid : new.id = id := (of_decide_eq_true hsame).trans ht'
    obtain ⟨path,id',file,rfl,-,rfl⟩ | ⟨filename,id',rfl,rfl⟩ := spawned_cases hnew
    · simp [isReadFile,← hid]
    · simp [isWriteFile,← hid]
  rw [handled,if_neg hnone,ht']
end FileHandler

def Thread.waiting (t : Thread) : Bool :=
  match t.worker with
  | .reader w => w.rxCmd.contains .getChunk
  | .writer _ => false

namespace FileHandler
variable {c : Computer} {h : FileHandler} {id : UInt32} {event : FileHandlerEvents} {t : Thread} {w : Surroundings}
variable {r : CallResult}
def started (id : UInt32) (h : FileHandler) : ℕ :=
  h.rx.countP (isReadFile id) + h.rx.countP (isWriteFile id) + (h.threadsOf id).length
def Asked (id : UInt32) (h : FileHandler) : Prop :=
  id ∈ h.activeReaders ∨ .getChunk id ∈ h.rx ∨ ∃ t ∈ h.threadsOf id, t.waiting = true
instance : Decidable (Asked id h) := inferInstanceAs (Decidable (_ ∨ _ ∨ _))
def asking (id : UInt32) (h : FileHandler) : ℕ := if Asked id h then 1 else 0
theorem asking_le {h h' : FileHandler} (hasked : Asked id h' → Asked id h) : asking id h' ≤ asking id h := by
  unfold asking
  split
  · next hnew => simp [hasked hnew]
  · simp
theorem waiting_sendCancel (t : Thread) :
    Thread.waiting { t with worker := t.worker.sendCancel, listed := false } = t.waiting := by
  obtain ⟨_,w | w,_⟩ := t <;> simp [Thread.waiting,Worker.sendCancel,ReaderWorker.send]

/-- A request comes to a reader from an event of its own, or from a drain after the peer has accepted. -/
theorem waiting_told (hwaiting : (told id h event t).waiting = true) :
    t.waiting = true ∨ event = .getChunk id ∨ id ∈ h.activeReaders := by
  have hcancel := waiting_sendCancel t
  have hwrite : ∀ payload, Thread.waiting { t with worker := t.worker.sendWriteChunk payload } = t.waiting := by
    obtain ⟨_,w | w,_⟩ := t <;> exact fun _ => rfl
  rcases told_cases id h event t with hsame | ⟨-,⟨-,hasked⟩ | ⟨payload,heq⟩ | heq | heq⟩
  · exact .inl (hsame ▸ hwaiting)
  · exact .inr (hasked.imp_right And.right)
  · exact .inl (hwrite payload ▸ heq ▸ hwaiting)
  · rw [heq] at hwaiting
    exact .inl hwaiting
  · exact .inl (hcancel ▸ heq ▸ hwaiting)

theorem mem_created : t ∈ created c w id event ↔ spawned c w event = some t ∧ t.id = id := by simp [created]
theorem waiting_created (ht : t ∈ created c w id event) : t.waiting = false := by
  obtain ⟨path,id,file,-,-,rfl⟩ | ⟨filename,id,-,rfl⟩ := spawned_cases (mem_created.mp ht).1 <;> rfl

theorem mem_active_handle (w : Surroundings) (event : FileHandlerEvents) (id : UInt32) :
    id ∈ (h.handle c w event).1.activeReaders ↔ (event = .remoteAccepted id ∨ id ∈ h.activeReaders) ∧
      event ≠ .readerWorkerFinished id ∧ event ≠ .cancel id := by
  cases event with
  | remoteAccepted id' => simp [handle,eq_comm]
  | readerWorkerFinished id' | cancel id' => simp [handle,and_comm,eq_comm]
  | readFile path id' =>
    simp only [handle,readFile]
    cases c.disk path <;> simp [send]
  | writeFile filename id' =>
    simp only [handle,writeFile]
    cases w.createDirAll <;> cases w.create <;> simp [send]
  | _ => simp [handle]

/-- The peer's acceptance is what makes the listener ask for chunks. -/
theorem Asked.of_handle (hasked : Asked id (h.handle c w event).1)
    (hfresh : (isReadFile id event || isWriteFile id event) = true → h.threadsOf id = []) :
    Asked id { h with rx := event :: h.rx } ∨ isRemoteAccepted id event = true := by
  rcases hasked with hactive | hrx | ⟨t,ht,hwaiting⟩
  · rcases ((mem_active_handle w event id).mp hactive).1 with rfl | hold
    · exact .inr (by simp [isRemoteAccepted])
    · exact .inl (.inl hold)
  · exact .inl (.inr (.inl (List.mem_cons_of_mem _ (mem_rx_of_handle c hrx (by simp)))))
  · left
    rw [threadsOf_handle w hfresh] at ht
    rcases List.mem_append.mp ht with ht | ht
    · obtain ⟨t,hmem,rfl⟩ := List.mem_map.mp ht
      rcases waiting_told hwaiting with hwaiting | rfl | hactive
      · exact .inr (.inr ⟨t,hmem,hwaiting⟩)
      · exact .inr (.inl (by simp))
      · exact .inl hactive
    · simp [waiting_created ht] at hwaiting

theorem length_created (c : Computer) (w : Surroundings) (id : UInt32) (event : FileHandlerEvents) :
    (created c w id event).length ≤ (if isReadFile id event then 1 else 0) + if isWriteFile id event then 1 else 0 := by
  cases hspawned : spawned c w event with
  | none => simp [created,hspawned]
  | some t =>
    have hlength : (created c w id event).length = if t.id = id then 1 else 0 := by
      by_cases hid : t.id = id <;> simp [created,hspawned,hid]
    rw [hlength]
    obtain ⟨path,id',file,rfl,-,rfl⟩ | ⟨filename,id',rfl,rfl⟩ := spawned_cases hspawned <;> simp [isReadFile,isWriteFile]

theorem waiting_step (h : Thread.waiting { t with worker := (step r t).1 } = true) : t.waiting = true := by
  obtain ⟨id,w | w,listed⟩ := t
  · simp only [step,ReaderWorker.step,Thread.waiting] at h ⊢
    split_ifs at h
    · split at h
      · exact h
      · simp_all
      · simp_all
    · exact h
  · simp [step,Thread.waiting] at h

theorem countP_rx_work {q : FileHandlerEvents → Bool} (hq : ∀ id event, fromWorker id event = true → q event = false)
    (i : ℕ) (r : CallResult) : (h.work i r).rx.countP q = h.rx.countP q := by
  rcases work_cases i r h with hsame | ⟨t,-,hwork⟩
  · rw [hsame]
  · rw [hwork,List.countP_append]
    have hsaid : (step (r.of t) t).2.countP q = 0 :=
      List.countP_eq_zero.mpr fun event hevent => by simp [hq _ event (fromWorker_of_mem_step hevent)]
    omega

theorem Asked.of_work {i : ℕ} (hasked : Asked id (h.work i r)) : Asked id h := by
  rcases hasked with hactive | hrx | hwaiting
  · rcases work_cases i r h with hsame | ⟨t,-,hwork⟩
    · exact .inl (hsame ▸ hactive)
    · rw [hwork] at hactive
      exact .inl hactive
  · exact .inr (.inl (mem_rx_of_work hrx fun _ => rfl))
  · rcases work_cases i r h with hsame | ⟨t,ht,hwork⟩
    · exact .inr (.inr (hsame ▸ hwaiting))
    · rw [hwork] at hwaiting
      obtain ⟨t',ht',hwaiting⟩ := hwaiting
      obtain ⟨hmem,hid⟩ := List.mem_filter.mp ht'
      rcases List.mem_or_eq_of_mem_set hmem with hmem | rfl
      · exact .inr (.inr ⟨t',List.mem_filter.mpr ⟨hmem,hid⟩,hwaiting⟩)
      · exact .inr (.inr ⟨t,List.mem_filter.mpr ⟨List.mem_of_getElem? ht,hid⟩,waiting_step hwaiting⟩)

theorem length_threadsOf_work (id : UInt32) (i : ℕ) (r : CallResult) :
    ((h.work i r).threadsOf id).length = (h.threadsOf id).length := by
  rcases work_cases i r h with hsame | ⟨t,ht,hwork⟩
  · rw [hsame]
  · rw [hwork]
    rcases filter_set (p := fun t => decide (t.id = id)) (y := { t with worker := (step (r.of t) t).1 }) ht rfl with
      ⟨-,hset⟩ | ⟨j,-,hset⟩
    · exact congrArg List.length hset
    · exact (congrArg List.length hset).trans List.length_set
theorem threadsOf_eq_nil (hone : h.started id ≤ 1) {event : FileHandlerEvents} {rest : List FileHandlerEvents}
    (hrx : h.rx = event :: rest) (hstart : (isReadFile id event || isWriteFile id event) = true) :
    h.threadsOf id = [] := by
  refine List.eq_nil_of_length_eq_zero ?_
  simp only [started,hrx,List.countP_cons] at hone
  rcases Bool.or_eq_true_iff.mp hstart with hevent | hevent <;> rw [hevent] at hone <;> simp at hone <;> omega

theorem threadsOf_eq_singleton (hone : h.started id ≤ 1) (ht : t ∈ h.threadsOf id) : h.threadsOf id = [t] := by
  have hlength : (h.threadsOf id).length ≤ 1 := by
    rw [started] at hone
    omega
  obtain ⟨t',hsingle⟩ := List.length_eq_one_iff.mp (le_antisymm hlength (List.length_pos_of_mem ht))
  rw [hsingle] at ht ⊢
  rw [List.mem_singleton.mp ht]

theorem work_single (hone : h.started id ≤ 1) (i : ℕ) (r : CallResult) :
    ((h.work i r).threadsOf id = h.threadsOf id ∧ ∃ said, (h.work i r).rx = h.rx ++ said ∧
      ∀ event ∈ said, ∃ id', id' ≠ id ∧ fromWorker id' event = true) ∨
    ∃ t, h.threadsOf id = [t] ∧ (h.work i r).threadsOf id = [{ t with worker := (step (r.of t) t).1 }] ∧
      (h.work i r).rx = h.rx ++ (step (r.of t) t).2 := by
  rcases work_cases i r h with hsame | ⟨t,ht,hwork⟩
  · exact .inl ⟨by rw [hsame],[],by simp [hsame],by simp⟩
  rcases filter_set (p := fun t => decide (t.id = id)) (y := { t with worker := (step (r.of t) t).1 }) ht rfl with
    ⟨hid,hsame⟩ | ⟨j,hj,hset⟩
  · refine .inl ⟨by rw [hwork]; exact hsame,_,by rw [hwork],fun event hevent => ?_⟩
    exact ⟨t.id,of_decide_eq_false hid,fromWorker_of_mem_step hevent⟩
  · right
    change (h.threadsOf id)[j]? = some t at hj
    change _ = (h.threadsOf id).set j _ at hset
    have hsingle := threadsOf_eq_singleton hone (List.mem_of_getElem? hj)
    obtain rfl : j = 0 := by
      have hlt := (List.getElem?_eq_some_iff.mp hj).1
      rw [hsingle,List.length_singleton] at hlt
      omega
    rw [hsingle] at hset
    exact ⟨t,hsingle,by rw [hwork]; exact hset,by rw [hwork]⟩

theorem countP_offers_handle (id : UInt32) (w : Surroundings) (event : FileHandlerEvents) :
    (h.handle c w event).2.countP (isSendFileOffer id) ≤ if isReadFile id event then 1 else 0 := by
  cases event with
  | readFile path id' =>
    simp only [handle,readFile]
    cases c.disk path <;> simp [isSendFileOffer,isReadFile,List.countP_singleton]
  | _ => simp [handle,isSendFileOffer]

theorem countP_received_handle (id : UInt32) (w : Surroundings) (event : FileHandlerEvents) :
    (h.handle c w event).2.countP (isReceivedFileOffer id) = 0 ∧
      (h.handle c w event).2.countP (isReceivedFileAccept id) = 0 := by
  cases event with
  | readFile path id' =>
    simp only [handle,readFile]
    cases c.disk path <;> simp [isReceivedFileOffer,isReceivedFileAccept]
  | _ => simp [handle,isReceivedFileOffer,isReceivedFileAccept]
end FileHandler

namespace Peer
variable {c : Computer} {p : Peer} {id : UInt32} {t : Turn}

/-- The offers of a file of this client, from the user's wish to the association. -/
def offersOut (id : UInt32) (p : Peer) : ℕ :=
  p.handler.rx.countP (isReadFile id) + p.events.countP (isSendFileOffer id) +
    p.sctp.outgoing (isSendOffer id) (isOffer id)

/-- The offers of the other side, from the association to the window. -/
def offersIn (id : UInt32) (p : Peer) : ℕ :=
  p.sctp.toParent.countP (isReceivedOffer id) + p.events.countP (isReceivedFileOffer id) +
    p.out.countP (isReceivedFileOffer id) + (isRemoteOffered id p.fileTransferState).toNat
def acceptsOut (id : UInt32) (p : Peer) : ℕ := p.sctp.outgoing (isSendAccept id) (isAccept id)
def acceptsIn (id : UInt32) (p : Peer) : ℕ :=
  p.sctp.toParent.countP (isReceivedAccept id) + p.events.countP (isReceivedFileAccept id) +
    p.handler.rx.countP (isRemoteAccepted id)

/-- What a client makes of offers and acceptances without new ones from the user or from outside. An offer may
become an acceptance and a writer, an acceptance a request for chunks. -/
structure Shrinks (id : UInt32) (p p' : Peer) : Prop where
  offersOut : p'.offersOut id ≤ p.offersOut id
  offersIn : p'.offersIn id ≤ p.offersIn id
  acceptsOut : p'.offersIn id + p'.acceptsOut id ≤ p.offersIn id + p.acceptsOut id
  started : p'.offersIn id + p'.handler.started id ≤ p.offersIn id + p.handler.started id
  acceptsIn : p'.acceptsIn id ≤ p.acceptsIn id
  asked : p'.acceptsIn id + p'.handler.asking id ≤ p.acceptsIn id + p.handler.asking id

theorem Shrinks.refl (p : Peer) : Shrinks id p p :=
  ⟨le_rfl,le_rfl,le_rfl,le_rfl,le_rfl,le_rfl⟩

theorem Shrinks.listen (w : Surroundings) (hone : p.handler.started id ≤ 1) : Shrinks id p (p.step c (.listen w)) := by
  rw [Peer.step,FileHandler.listen]
  cases hrx : p.handler.rx with
  | nil => simpa using Shrinks.refl p
  | cons event rest =>
    let h : FileHandler := { p.handler with rx := rest }
    have hkept {q : FileHandlerEvents → Bool} (hq : ∀ e, q (.err e) = false) :
        (h.handle c w event).1.rx.countP q = rest.countP q := countP_rx_handle c hq w h event
    have hread := @hkept (isReadFile id) fun _ => rfl
    have hwrite := @hkept (isWriteFile id) fun _ => rfl
    have haccept := @hkept (isRemoteAccepted id) fun _ => rfl
    have hoffers := countP_offers_handle (c := c) (h := h) id w event
    obtain ⟨hquiet₁,hquiet₂⟩ := countP_received_handle (c := c) (h := h) id w event
    have hcreated := length_created c w id event
    have hfresh : (isReadFile id event || isWriteFile id event) = true → h.threadsOf id = [] :=
      threadsOf_eq_nil hone hrx
    have hthreads : ((h.handle c w event).1.threadsOf id).length = (p.handler.threadsOf id).length +
        (created c w id event).length := by
      rw [threadsOf_handle w hfresh,List.length_append,List.length_map]
      rfl
    have hasked : (h.handle c w event).1.asking id ≤
        p.handler.asking id + if isRemoteAccepted id event then 1 else 0 := by
      have hsame : ({ h with rx := event :: h.rx } : FileHandler) = p.handler := by
        change ({ p.handler with rx := event :: rest } : FileHandler) = p.handler
        rw [← hrx]
      unfold asking
      split
      · next hasked =>
        rcases hasked.of_handle hfresh with hold | hnew
        · rw [hsame] at hold
          simp [hold]
        · simp [hnew]
      · simp
    constructor <;>
      simp only [Peer.offersOut,Peer.offersIn,Peer.acceptsOut,Peer.acceptsIn,FileHandler.started,hrx,
        List.countP_append,List.countP_cons,hread,hwrite,haccept,hquiet₁,hquiet₂,hthreads,h] at * <;> omega

theorem Shrinks.work (i : ℕ) (r : FileHandler.CallResult) : Shrinks id p (p.step c (.work i r)) := by
  have hsaid : ∀ id' event, fromWorker id' event = true →
      isReadFile id event = false ∧ isWriteFile id event = false ∧ isRemoteAccepted id event = false := by
    rintro _ (_ | _) h <;> first | exact ⟨rfl,rfl,rfl⟩ | simp [fromWorker] at h
  have hread := countP_rx_work (h := p.handler) (fun id event hevent => (hsaid id event hevent).1) i r
  have hwrite := countP_rx_work (h := p.handler) (fun id event hevent => (hsaid id event hevent).2.1) i r
  have haccept := countP_rx_work (h := p.handler) (fun id event hevent => (hsaid id event hevent).2.2) i r
  have hthreads := length_threadsOf_work (h := p.handler) id i r
  have hasked : (p.handler.work i r).asking id ≤ p.handler.asking id := asking_le fun h => h.of_work
  constructor <;>
    simp only [Peer.step,Peer.offersOut,Peer.offersIn,Peer.acceptsOut,Peer.acceptsIn,FileHandler.started,hread,
      hwrite,haccept,hthreads] at * <;> omega

theorem Shrinks.transmit (now : ℕ) (results : ℕ → WriteResult) : Shrinks id p (p.step c (.transmit now results)) := by
  have hoffers := outgoing_transmit (s := p.sctp) (outgoing_offer id) now results
  have haccepts := outgoing_transmit (s := p.sctp) (outgoing_accept id) now results
  constructor <;>
    simp only [Peer.step,Peer.offersOut,Peer.offersIn,Peer.acceptsOut,Peer.acceptsIn,
      transmit_toParent] at * <;> omega

theorem Shrinks.checkTimeouts (now : ℕ) (ids : Iteration UInt32) :
    Shrinks id p (p.step c (.checkTimeouts now ids)) := by
  obtain ⟨silent,hsilent⟩ := checkStreamTimeouts_eq now ids p.sctp
  have hoffers : (silent.map SctpEvents.sendCancel).countP (isSendOffer id) = 0 := by
    simp [List.countP_eq_zero,isSendOffer]
  have haccepts : (silent.map SctpEvents.sendCancel).countP (isSendAccept id) = 0 := by
    simp [List.countP_eq_zero,isSendAccept]
  constructor <;>
    simp only [Peer.step,hsilent,Peer.offersOut,Peer.offersIn,Peer.acceptsOut,Peer.acceptsIn,
      SctpSession.outgoing,posted,List.countP_append,hoffers,haccepts] <;> omega

theorem Shrinks.connected : Shrinks id p (p.step c .connected) := by
  constructor <;>
    simp [Peer.step,Peer.offersOut,Peer.offersIn,Peer.acceptsOut,Peer.acceptsIn,SctpSession.route,
      SctpEvents.forSender,SctpEvents.forParent,SctpSession.outgoing,posted,isSendOffer,isSendAccept]

theorem Shrinks.report : Shrinks id p (p.step c .report) := by
  rw [Peer.step,Peer.report]
  cases hparent : p.sctp.toParent with
  | nil => exact Shrinks.refl p
  | cons event rest =>
    have hfrom := p.sctp.forParent_of_mem event (by simp [hparent])
    have hnext : p.sctp.nextForParent.toParent = rest := by simp [nextForParent,hparent]
    have hout : ∀ q m, p.sctp.nextForParent.outgoing q m = p.sctp.outgoing q m := fun _ _ => rfl
    have hoffer : (engineEvent event).toList.countP (isSendFileOffer id) = 0 := by
      cases event <;> simp_all [engineEvent,isSendFileOffer,SctpEvents.forParent]
    have hreceived : (engineEvent event).toList.countP (isReceivedFileOffer id) =
        if isReceivedOffer id event then 1 else 0 := by
      cases event <;> simp [engineEvent,isReceivedFileOffer,isReceivedOffer,List.countP_singleton]
    have haccept : (engineEvent event).toList.countP (isReceivedFileAccept id) =
        if isReceivedAccept id event then 1 else 0 := by
      cases event <;> simp [engineEvent,isReceivedFileAccept,isReceivedAccept,List.countP_singleton]
    constructor <;>
      simp only [Peer.offersOut,Peer.offersIn,Peer.acceptsOut,Peer.acceptsIn,hparent,hnext,hout,
        List.countP_append,List.countP_cons,hoffer,hreceived,haccept] <;> omega

structure Adds (id : UInt32) (p p' : Peer) (offersOut offersIn acceptsOut acceptsIn started : ℕ) : Prop where
  asked : p'.acceptsIn id + p'.handler.asking id ≤ p.acceptsIn id + acceptsIn + p.handler.asking id
  offersOut : p'.offersOut id ≤ p.offersOut id + offersOut
  offersIn : p'.offersIn id ≤ p.offersIn id + offersIn
  acceptsOut : p'.acceptsOut id ≤ p.acceptsOut id + acceptsOut
  acceptsIn : p'.acceptsIn id ≤ p.acceptsIn id + acceptsIn
  started : p'.handler.started id ≤ p.handler.started id + started

theorem Adds.refl (id : UInt32) (p : Peer) : Adds id p p 0 0 0 0 0 := ⟨le_rfl,le_rfl,le_rfl,le_rfl,le_rfl,le_rfl⟩
theorem Shrinks.adds {p' : Peer} (h : Shrinks id p p') (hin : p.offersIn id = 0) (hout : p.acceptsOut id = 0) :
    Adds id p p' 0 0 0 0 0 := by
  obtain ⟨h₁,h₂,h₃,h₄,h₅,h₆⟩ := h
  constructor <;> omega
theorem offersIn_eq (id : UInt32) (p : Peer) :
    p.offersIn id = p.sctp.toParent.countP (isReceivedOffer id) + p.unseen (isReceivedFileOffer id) := by
  have hstate : isRemoteOffered id p.fileTransferState = p.fileTransferState.shows.any (isReceivedFileOffer id) := by
    cases p.fileTransferState <;> rfl
  rw [offersIn,unseen,hstate]
  omega

theorem outgoing_ask (q : SctpEvents → Bool) (m : SctpProtocolMessage → Bool) (p : Peer) (r : Request) :
    (p.ask r).sctp.outgoing q m ≤ p.sctp.outgoing q m + (r.session.any q).toNat := by
  rw [ask]
  dsimp only
  split
  · cases r.session with
    | none => exact Nat.le_add_right _ _
    | some event =>
      cases hsender : event.forSender <;> cases hq : q event <;>
        simp [SctpSession.route,SctpSession.outgoing,posted,hsender,hq]
      omega
  · exact Nat.le_add_right _ _

theorem countP_ask (q : FileHandlerEvents → Bool) (p : Peer) (r : Request) :
    (p.ask r).handler.rx.countP q ≤ p.handler.rx.countP q + (r.listener.any q).toNat := by
  rw [handler_ask]
  cases p.fileHandler <;> cases r.listener with
  | none => simp
  | some event => cases hq : q event <;> simp [hq]

/-- What is passed on to the other side or to the listener is taken from the engine's queue, and what the user accepts was
offered. -/
theorem request_counts (id : UInt32) (r : Request) :
    (r.session.any (isSendOffer id)).toNat = r.passed.countP (isSendFileOffer id) ∧
      (r.listener.any (isRemoteAccepted id)).toNat = r.passed.countP (isReceivedFileAccept id) ∧
      r.session.any (isSendAccept id) = r.offer.any (isReceivedFileOffer id) ∧
      r.listener.any (isWriteFile id) = r.offer.any (isReceivedFileOffer id) ∧ r.listener ≠ some (.getChunk id) := by
  have htoNat : ∀ b : Bool, b.toNat = if b = true then 1 else 0 := by decide
  cases r with
  | pass event =>
    refine ⟨?_,?_,?_,?_,?_⟩ <;> cases event <;>
      simp [Request.session,Request.listener,Request.passed,Request.offer,isSendOffer,isSendFileOffer,isRemoteAccepted,
        isReceivedFileAccept,List.countP_singleton,htoNat,isSendAccept,isWriteFile]
  | press button => cases button <;> exact ⟨rfl,rfl,rfl,rfl,by rintro ⟨⟩⟩
  | _ => exact ⟨rfl,rfl,rfl,rfl,by rintro ⟨⟩⟩

theorem counts_ask (id : UInt32) (p : Peer) (ht : t.asks = true) :
    (p.step c t).offersOut id ≤ p.offersOut id + ((p.request t).listener.any (isReadFile id)).toNat ∧
      (p.step c t).offersIn id + ((p.request t).offer.any (isReceivedFileOffer id)).toNat ≤ p.offersIn id ∧
      (p.step c t).acceptsOut id ≤ p.acceptsOut id + ((p.request t).offer.any (isReceivedFileOffer id)).toNat ∧
      (p.step c t).acceptsIn id ≤ p.acceptsIn id ∧
      (p.step c t).handler.started id ≤ p.handler.started id + ((p.request t).listener.any (isReadFile id)).toNat +
        ((p.request t).offer.any (isReceivedFileOffer id)).toNat ∧
      (p.step c t).handler.asking id ≤ p.handler.asking id := by
  have hin := (step_eq_ask (p := p) c ht).unseen (isReceivedFileOffer id)
  obtain ⟨out,s,r,state,d,hstep⟩ := (step_eq_ask (p := p) c ht).eq
  have hevents (P : EngineEvent → Bool) :
      p.events.countP P = (p.request t).passed.countP P + (p.eventsAfter t).countP P := by
    rw [← List.countP_append,← p.events_eq t]
  rw [hstep] at hin ⊢
  generalize p.request t = request at hin hevents ⊢
  generalize p.eventsAfter t = events at hin hevents ⊢
  generalize hq : ({ p with
    events := events
    out := out
    sendingFiles := s
    receivingFiles := r
    fileTransferState := state
    drainThread := d } : Peer) = q at hin ⊢
  obtain ⟨hoffers,haccepts,haccepted,hwritten,hget⟩ := request_counts id request
  have hoffersOut := outgoing_ask (isSendOffer id) (isOffer id) q request
  have hacceptsOut := outgoing_ask (isSendAccept id) (isAccept id) q request
  have hread := countP_ask (isReadFile id) q request
  have hwrite := countP_ask (isWriteFile id) q request
  have haccept := countP_ask (isRemoteAccepted id) q request
  have hparent := toParent_ask q request
  have hhandler := handler_ask q request
  have hsctp : q.sctp = p.sctp := by rw [← hq]
  have hsame : q.handler = p.handler := by rw [← hq]
  rw [hsctp] at hoffersOut hacceptsOut hparent
  rw [hsame] at hread hwrite haccept hhandler
  rw [haccepted] at hacceptsOut
  rw [hwritten] at hwrite
  have hthreads : (q.ask request).handler.threadsOf id = p.handler.threadsOf id := by
    rw [hhandler]
    rfl
  have hafter : (q.ask request).events = events := by
    rw [← hq]
    rfl
  have hasked : (q.ask request).handler.asking id ≤ p.handler.asking id := by
    refine asking_le ?_
    rw [hhandler]
    refine .imp (fun h => h) (.imp (fun hmem => ?_) fun h => h)
    refine (List.mem_append.mp hmem).resolve_right fun hnew => hget ?_
    split at hnew
    · exact Option.mem_toList.mp hnew
    · cases hnew
  rw [offersIn_eq,offersIn_eq]
  simp only [offersOut,acceptsOut,acceptsIn,FileHandler.started,hthreads,hafter,hparent,hevents]
  refine ⟨?_,?_,?_,?_,?_,hasked⟩
  all_goals omega

theorem Shrinks.ask (ht : t.asks = true) (hsend : ∀ input, t ≠ .frame (some (.sendFile input id))) :
    Shrinks id p (p.step c t) := by
  obtain ⟨h₁,h₂,h₃,h₄,h₅,h₆⟩ := counts_ask (c := c) id p ht
  have hnone : (p.request t).listener.any (isReadFile id) = false := by
    refine Bool.eq_false_iff.mpr fun hread => ?_
    obtain ⟨event,hevent,hid⟩ := (Option.any_eq_true _ _).mp hread
    obtain ⟨input,rfl⟩ : ∃ input, t = .frame (some (.sendFile input id)) := by
      refine (p.asks_request t).reading ?_
      cases event <;> simp_all [isReadFile,Request.reading,FileHandlerEvents.reading]
    exact hsend input rfl
  rw [hnone,Bool.toNat_false] at h₁ h₅
  constructor <;> omega

theorem Shrinks.stop : Shrinks id p (p.step c .stop) := by
  rw [Peer.step,Peer.stop]
  split
  · have hstarted : p.handler.shutdown.started id = p.handler.started id := by
      rw [FileHandler.started,threadsOf_shutdown,List.length_map]
      rfl
    have hasking : p.handler.shutdown.asking id ≤ p.handler.asking id := by
      refine asking_le ?_
      rintro (hactive | hrx | ⟨t',ht',hwaiting⟩)
      · exact .inl hactive
      · exact .inr (.inl hrx)
      · rw [threadsOf_shutdown] at ht'
        obtain ⟨t,ht,rfl⟩ := List.mem_map.mp ht'
        rcases waiting_told hwaiting with hwaiting | hevent | hactive
        · exact .inr (.inr ⟨t,ht,hwaiting⟩)
        · cases hevent
        · exact .inl hactive
    exact ⟨le_rfl,le_rfl,le_rfl,Nat.add_le_add_left (Nat.le_of_eq hstarted) _,le_rfl,Nat.add_le_add_left hasking _⟩
  · exact Shrinks.refl p

/-- A turn makes no second offer or acceptance, unless the user sends another file under the id. -/
theorem Shrinks.step (ht : ∀ input, t ≠ .frame (some (.sendFile input id)))
    (hone : p.handler.started id ≤ 1) : Shrinks id p (p.step c t) := by
  cases t with
  | listen w => exact .listen w hone
  | work i r => exact .work i r
  | transmit now results => exact .transmit now results
  | checkTimeouts now ids => exact .checkTimeouts now ids
  | connected => exact .connected
  | report => exact .report
  | poll | drain _ | frame _ => exact .ask rfl ht
  | stop => exact .stop
  | close => exact ⟨le_rfl,le_rfl,le_rfl,le_rfl,le_rfl,le_rfl⟩

theorem Adds.sendFile (c : Computer) (p : Peer) (input : Text) (id : UInt32) :
    Adds id p (p.step c (.frame (some (.sendFile input id)))) 1 0 0 0 1 := by
  obtain ⟨h₁,h₂,h₃,h₄,h₅,h₆⟩ := counts_ask (c := c) (t := .frame (some (.sendFile input id))) id p rfl
  have hnone : (p.request (.frame (some (.sendFile input id)))).offer = none := by
    have hasks := p.asks_request (.frame (some (.sendFile input id)))
    generalize p.request _ = r at hasks ⊢
    cases r with
    | press button =>
      cases button with
      | accept props => cases hasks.accept.1
      | _ => rfl
    | _ => rfl
  have hone := Bool.toNat_le ((p.request (.frame (some (.sendFile input id)))).listener.any (isReadFile id))
  rw [hnone,Option.any_none,Bool.toNat_false] at h₂ h₃ h₅
  constructor <;> omega

theorem Adds.hear (id : UInt32) (p : Peer) (now : ℕ) (data : Bytes) :
    Adds id p (p.hear now data) 0 (if carries (isOffer id) data then 1 else 0) 0
      (if carries (isAccept id) data then 1 else 0) 0 := by
  rw [Peer.hear]
  obtain ⟨⟨e,hdata⟩,hsame⟩ | ⟨msg,streams,hdata,-,hroute⟩ := handleChunkData_cases now p.sctp data
  · simpa [hsame,carries,hdata,Except.toOption] using Adds.refl id p
  · have hcarries : ∀ m, carries m data = m msg := fun m => by simp [carries,hdata,Except.toOption]
    obtain ⟨hsends,hanswers,hoffer,haccept⟩ : isSendOffer id msg.report = false ∧ isSendAccept id msg.report = false ∧
        isReceivedOffer id msg.report = isOffer id msg ∧ isReceivedAccept id msg.report = isAccept id msg := by
      cases msg <;> exact ⟨rfl,rfl,rfl,rfl⟩
    rw [hroute,hcarries,hcarries]
    cases hsender : msg.report.forSender <;> refine ⟨?_,?_,?_,?_,?_,le_rfl⟩ <;>
      simp only [Peer.offersOut,Peer.offersIn,Peer.acceptsOut,Peer.acceptsIn,SctpSession.outgoing,
        posted,SctpSession.route,msg.forParent_report,hsender,hsends,hanswers,hoffer,haccept,if_true,Bool.false_eq_true,
        if_false,List.countP_append,List.countP_singleton] <;> omega
end Peer
end RustyRtc.Files
