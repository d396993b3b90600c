import RustyRtc.Files.Workers
import RustyRtc.Foundation.Paths
import RustyRtc.Sctp.Session

/-! # The file handler

`file_handler/file_handler`: the listener and its workers. The source keeps the sending end of each worker's channel
in the map `workers`. Here all threads stand in one list, and those whose channel is in the map are marked.
-/
namespace RustyRtc.Files
open Sctp

inductive EngineEvent where
  | status (text : String)
  | error (text : String)
  | sendFileOffer (props : SctpFileProperties)
  | sendFileAccept (id : UInt32)
  | sendFileReject (id : UInt32)
  | sendFileCancel (id : UInt32)
  | sendFileChunk (id : UInt32) (payload : Bytes)
  | sendFileEnd (id : UInt32)
  | receivedFileOffer (props : SctpFileProperties)
  | receivedFileAccept (id : UInt32)
  | receivedFileReject (id : UInt32)
  | receivedFileCancel (id : UInt32)
  | receivedFileChunk (id seq : UInt32) (payload : Bytes)
  | receivedFileEnd (id : UInt32)
  | uploadProgress (id : UInt32) (current total : ℕ)
  | downloadProgress (id : UInt32) (current : ℕ)
  deriving DecidableEq, Repr

structure Computer where
  cwd : Path.Place
  /-- `storage_path` of the section `file_handler` and of the global part. -/
  sectionStoragePath : Option Text
  globalStoragePath : Option Text
  disk : Text → Except String Bytes

namespace Computer

/-- `get_non_empty_or_default`. -/
def storagePath (c : Computer) : Text :=
  (c.sectionStoragePath.filter (!·.isEmpty)).getD
    ((c.globalStoragePath.filter (!·.isEmpty)).getD "./downloads".toList)
def storage (c : Computer) : Path.Place := Path.resolve c.cwd c.storagePath
end Computer
structure Surroundings where
  isDir : Path.Place → Bool
  /-- `create_dir_all` fails after having made so many of the missing directories. -/
  createDirAll : Option (ℕ × String)
  create : Except String Unit
inductive Worker where
  | reader (w : ReaderWorker)
  | writer (w : WriterWorker)
  deriving DecidableEq, Repr
structure Thread where
  id : UInt32
  worker : Worker
  /-- Its channel is in the map `workers`, under its id. -/
  listed : Bool := true
  deriving DecidableEq, Repr
structure FileHandler where
  rx : List FileHandlerEvents := []
  threads : List Thread := []
  activeReaders : TableSet UInt32 := ∅
  made : List Path.Place := []
def downloadComplete (id : UInt32) : String := "File download complete: " ++ toString id

namespace Worker
def sendGetChunk : Worker → Worker
  | .reader w => .reader (w.send .getChunk)
  | .writer w => .writer w
def sendWriteChunk (payload : Bytes) : Worker → Worker
  | .reader w => .reader w
  | .writer w => .writer (w.send (.writeChunk payload))
def sendCancel : Worker → Worker
  | .reader w => .reader (w.send .cancel)
  | .writer w => .writer (w.send .cancel)
end Worker

namespace FileHandler
variable (c : Computer) {h : FileHandler} {event : FileHandlerEvents} {r : CallResult}
def send (h : FileHandler) (event : FileHandlerEvents) : FileHandler := { h with rx := h.rx ++ [event] }

/-- What is done with the listed thread of an id, or of each id. -/
def tell (h : FileHandler) (p : UInt32 → Bool) (f : Thread → Thread) : FileHandler :=
  { h with threads := h.threads.map fun t => if t.listed && p t.id then f t else t }

/-- `workers.remove`: the thread runs on without its entry. -/
def remove (h : FileHandler) (id : UInt32) (f : Worker → Worker) : FileHandler :=
  h.tell (· = id) fun t => { t with worker := f t.worker, listed := false }

/-- `workers.insert`: the channel of an earlier worker of the id is dropped. -/
def insert (h : FileHandler) (id : UInt32) (w : Worker) : FileHandler :=
  let h := h.remove id fun w => w
  { h with threads := h.threads ++ [{ id := id, worker := w }] }

/-- `FileHandler::shutdown`, as far as the workers go. -/
def shutdown (h : FileHandler) : FileHandler :=
  h.tell (fun _ => true) fun t => { t with worker := t.worker.sendCancel, listed := false }

section Frame
variable (h : FileHandler) (p : UInt32 → Bool) (g : Thread → Thread) (id : UInt32) (f : Worker → Worker) (w : Worker)

@[simp] theorem tell_rx : (h.tell p g).rx = h.rx := rfl
@[simp] theorem tell_activeReaders : (h.tell p g).activeReaders = h.activeReaders := rfl
@[simp] theorem tell_made : (h.tell p g).made = h.made := rfl
@[simp] theorem remove_rx : (h.remove id f).rx = h.rx := rfl
@[simp] theorem remove_activeReaders : (h.remove id f).activeReaders = h.activeReaders := rfl
@[simp] theorem remove_made : (h.remove id f).made = h.made := rfl
@[simp] theorem insert_rx : (h.insert id w).rx = h.rx := rfl
@[simp] theorem insert_activeReaders : (h.insert id w).activeReaders = h.activeReaders := rfl
@[simp] theorem insert_made : (h.insert id w).made = h.made := rfl
end Frame

def writeFile (w : Surroundings) (h : FileHandler) (filename : String) (id : UInt32) : FileHandler :=
  let fullPath := Path.join c.storagePath filename.toList
  let missing := (Path.ancestors c.cwd fullPath).filter fun place => !w.isDir place
  match w.createDirAll with
  | some (n,e) => send { h with made := h.made ++ missing.take n } (.err e)
  | none =>
    match w.create with
    | .error e => send { h with made := h.made ++ missing } (.err e)
    | .ok _ =>
      insert { h with made := h.made ++ missing ++ [Path.resolve c.cwd fullPath] } id (.writer { path := fullPath })

def readFile (h : FileHandler) (path : Text) (id : UInt32) : FileHandler × List EngineEvent :=
  match c.disk path with
  | .error e => (h.send (.err e),[])
  | .ok file =>
    let props : SctpFileProperties :=
      { fileName := String.ofList ((Path.fileName path).getD "unknown".toList)
        fileSize := UInt64.ofNat file.length
        transactionId := id }
    (h.insert id (.reader (.new file)),[.sendFileOffer props])

/-- One event of `listener_loop`, and what goes to the engine. -/
def handle (w : Surroundings) (h : FileHandler) : FileHandlerEvents → FileHandler × List EngineEvent
  | .readFile path id => h.readFile c path id
  | .remoteAccepted id => ({ h with activeReaders := h.activeReaders.insert id () },[])
  | .writeFile filename id => (h.writeFile c w filename id,[])
  | .getChunk id => (h.tell (· = id) fun t => { t with worker := t.worker.sendGetChunk },[])
  | .readChunk id payload => (h,[.sendFileChunk id payload])
  | .writeChunk id payload => (h.tell (· = id) fun t => { t with worker := t.worker.sendWriteChunk payload },[])
  | .readerWorkerFinished id =>
    let h := h.remove id fun w => w
    ({ h with activeReaders := h.activeReaders.erase id },[.sendFileEnd id])
  | .writerWorkerFinished id => (h.remove id fun w => w,[.status (downloadComplete id)])
  | .cancel id =>
    let h := h.remove id Worker.sendCancel
    ({ h with activeReaders := h.activeReaders.erase id },[])
  | .err e => (h,[.error ("FileHandler: " ++ e)])
  | .drainChunks => (h.tell (· ∈ h.activeReaders) fun t => { t with worker := t.worker.sendGetChunk },[])
  | .uploadProgress id current total => (h,[.uploadProgress id current total])
  | .downloadProgress id current => (h,[.downloadProgress id current])

/-- The listener puts nothing but errors back into its channel. -/
theorem handle_rx (w : Surroundings) (event : FileHandlerEvents) : ∃ said : List FileHandlerEvents,
    (∀ event ∈ said, ∃ e, event = .err e) ∧ ∀ h, (handle c w h event).1.rx = h.rx ++ said := by
  cases event with
  | readFile path id =>
    simp only [handle,readFile]
    cases c.disk path with
    | error e => exact ⟨[.err e],by simp,fun _ => rfl⟩
    | ok file => exact ⟨[],by simp,by simp⟩
  | writeFile filename id =>
    simp only [handle,writeFile]
    cases w.createDirAll with
    | some failure => exact ⟨[.err failure.2],by simp,fun _ => rfl⟩
    | none =>
      cases w.create with
      | error e => exact ⟨[.err e],by simp,fun _ => rfl⟩
      | ok _ => exact ⟨[],by simp,by simp⟩
  | _ => exact ⟨[],by simp,fun _ => (List.append_nil _).symm⟩

theorem mem_rx_of_handle {w : Surroundings} {event' : FileHandlerEvents}
    (hmem : event' ∈ (handle c w h event).1.rx) (hne : ∀ e, event' ≠ .err e) : event' ∈ h.rx := by
  obtain ⟨said,hsaid,hrx⟩ := handle_rx c w event
  rw [hrx] at hmem
  refine (List.mem_append.mp hmem).resolve_right fun hlast => ?_
  obtain ⟨e,rfl⟩ := hsaid _ hlast
  exact hne e rfl
theorem filterMap_rx_handle {β : Type} {f : FileHandlerEvents → Option β} (hf : ∀ e, f (.err e) = none) (w : Surroundings)
    (h : FileHandler) (event : FileHandlerEvents) : (handle c w h event).1.rx.filterMap f = h.rx.filterMap f := by
  obtain ⟨said,hsaid,hrx⟩ := handle_rx c w event
  have hnone : said.filterMap f = [] := by
    refine List.filterMap_eq_nil_iff.mpr fun event hmem => ?_
    obtain ⟨e,rfl⟩ := hsaid event hmem
    exact hf e
  rw [hrx,List.filterMap_append,hnone,List.append_nil]
theorem filter_rx_handle {q : FileHandlerEvents → Bool} (hq : ∀ e, q (.err e) = false) (w : Surroundings)
    (h : FileHandler) (event : FileHandlerEvents) : (handle c w h event).1.rx.filter q = h.rx.filter q := by
  rw [← List.filterMap_eq_filter]
  exact filterMap_rx_handle c (by simp [hq]) w h event
theorem countP_rx_handle {q : FileHandlerEvents → Bool} (hq : ∀ e, q (.err e) = false) (w : Surroundings)
    (h : FileHandler) (event : FileHandlerEvents) : (handle c w h event).1.rx.countP q = h.rx.countP q := by
  rw [List.countP_eq_length_filter,List.countP_eq_length_filter,filter_rx_handle c hq]
def listen (w : Surroundings) (h : FileHandler) : FileHandler × List EngineEvent :=
  match h.rx with
  | [] => (h,[])
  | event :: rest => handle c w { h with rx := rest } event
structure CallResult where
  read : ReadResult
  write : WriterResult
  deriving DecidableEq, Repr

/-- Only a writer whose entry is gone finds its channel closed. -/
def CallResult.of (r : CallResult) (t : Thread) : CallResult :=
  if t.listed && r.write = .disconnected then { r with write := .ok } else r
def step (r : CallResult) (t : Thread) : Worker × List FileHandlerEvents :=
  match t.worker with
  | .reader w => let (w,events) := w.step t.id r.read; (.reader w,events)
  | .writer w => let (w,events) := w.step t.id r.write; (.writer w,events)
def fromWorker (id : UInt32) : FileHandlerEvents → Bool
  | .readChunk id' _ | .readerWorkerFinished id' | .writerWorkerFinished id' | .uploadProgress id' _ _
  | .downloadProgress id' _ => id' = id
  | .err _ => true
  | _ => false

theorem fromWorker_of_mem_step {t : Thread} (h : event ∈ (step r t).2) : fromWorker t.id event = true := by
  obtain ⟨id,w | w,listed⟩ := t
  · simp only [step,ReaderWorker.step] at h
    split_ifs at h
    · split at h
      · simp at h
      · simp at h
      · split at h
        · simp_all [fromWorker]
        · split_ifs at h <;> simp at h <;> rcases h with rfl | rfl <;> simp [fromWorker]
    · simp at h
  · simp only [step,WriterWorker.step] at h
    split_ifs at h
    · split at h
      all_goals try simp at h
      · subst h
        rfl
      · split_ifs at h <;> simp at h <;> subst h <;> simp [fromWorker]
    · simp at h

def work (i : ℕ) (r : CallResult) (h : FileHandler) : FileHandler :=
  match h.threads[i]? with
  | none => h
  | some t =>
    let (w,events) := step (r.of t) t
    { h with threads := h.threads.set i { t with worker := w }, rx := h.rx ++ events }

theorem work_cases (i : ℕ) (r : CallResult) (h : FileHandler) :
    h.work i r = h ∨ ∃ t, h.threads[i]? = some t ∧ h.work i r = { h with
        threads := h.threads.set i { t with worker := (step (r.of t) t).1 }
        rx := h.rx ++ (step (r.of t) t).2 } := by
  rw [work]
  cases h.threads[i]? with
  | none => exact .inl rfl
  | some t => exact .inr ⟨t,rfl,rfl⟩

theorem mem_rx_of_work {i : ℕ}
    (hmem : event ∈ (h.work i r).rx) (hevent : ∀ id, fromWorker id event = false) : event ∈ h.rx := by
  rcases work_cases i r h with hsame | ⟨t,-,hwork⟩
  · rwa [hsame] at hmem
  · rw [hwork] at hmem
    refine (List.mem_append.mp hmem).resolve_right fun hsaid => ?_
    have hfrom := fromWorker_of_mem_step hsaid
    simp [hevent] at hfrom
end FileHandler
end RustyRtc.Files
