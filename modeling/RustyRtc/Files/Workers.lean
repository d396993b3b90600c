import RustyRtc.Foundation.Text

/-! # Readers and writers

`file_handler/reader_worker` and `file_handler/writer_worker`: the threads that read an offered file and write an
accepted one, each driven by the commands in its channel. The id of the transfer is kept by whoever keeps the
worker. What the calls on the file give back is an input of the turn.
-/
namespace RustyRtc.Files
inductive ReaderCommands where
  | getChunk
  | cancel
  deriving DecidableEq, Repr
inductive WriterCommands where
  | writeChunk (payload : Bytes)
  | cancel
  deriving DecidableEq, Repr

inductive FileHandlerEvents where
  | readFile (path : Text) (id : UInt32)
  | writeFile (filename : String) (id : UInt32)
  | getChunk (id : UInt32)
  | readChunk (id : UInt32) (payload : Bytes)
  | writeChunk (id : UInt32) (payload : Bytes)
  | remoteAccepted (id : UInt32)
  | readerWorkerFinished (id : UInt32)
  | writerWorkerFinished (id : UInt32)
  | uploadProgress (id : UInt32) (current total : ℕ)
  | downloadProgress (id : UInt32) (current : ℕ)
  | cancel (id : UInt32)
  | err (e : String)
  | drainChunks
  deriving DecidableEq, Repr

def chunkSize : ℕ := 1024 * 16

structure ReaderWorker where
  rest : Bytes
  fileSize : ℕ
  totalRead : ℕ := 0
  rxCmd : List ReaderCommands := []
  running : Bool := true
  deriving DecidableEq, Repr

/-- A read fills the buffer up to some length of its own choosing. It is never empty-handed before the end. -/
inductive ReadResult where
  | ok (n : ℕ)
  | err (e : String)
  deriving DecidableEq, Repr

namespace ReaderWorker
def new (file : Bytes) : ReaderWorker := { rest := file, fileSize := file.length }
def send (w : ReaderWorker) (command : ReaderCommands) : ReaderWorker := { w with rxCmd := w.rxCmd ++ [command] }
def buffer (w : ReaderWorker) (n : ℕ) : Bytes := w.rest.take (min (n + 1) chunkSize)
theorem buffer_append_drop (w : ReaderWorker) (n : ℕ) : w.buffer n ++ w.rest.drop (w.buffer n).length = w.rest :=
  List.prefix_iff_eq_append.mp (List.take_prefix _ _)

/-- The buffer has room, so nothing is read at the end of the file only. -/
theorem buffer_eq_nil_iff {w : ReaderWorker} {n : ℕ} : w.buffer n = [] ↔ w.rest = [] := by
  have hroom : min (n + 1) chunkSize ≠ 0 := by
    have hchunk : 0 < chunkSize := by decide
    omega
  rw [buffer,List.take_eq_nil_iff]
  exact or_iff_right hroom

/-- One command of `ReaderWorker::run`, and what goes to the listener. -/
def step (id : UInt32) (result : ReadResult) (w : ReaderWorker) : ReaderWorker × List FileHandlerEvents :=
  if w.running then
    match w.rxCmd with
    | [] => (w,[])
    | .cancel :: rest => ({ w with rxCmd := rest, running := false },[])
    | .getChunk :: rest =>
      match result with
      | .err e => ({ w with rxCmd := rest },[.err e])
      | .ok n =>
        let payload := w.buffer n
        if payload.isEmpty then
          ({ w with rxCmd := rest, running := false },[.readChunk id [], .readerWorkerFinished id])
        else
          let totalRead := w.totalRead + payload.length
          ({ w with rxCmd := rest, rest := w.rest.drop payload.length, totalRead := totalRead },
            [.uploadProgress id totalRead w.fileSize, .readChunk id payload])
  else (w,[])
end ReaderWorker

inductive WriterState where
  | running
  /-- Completion was announced, the file stays. -/
  | finished
  /-- The file was removed. -/
  | removed
  deriving DecidableEq, Repr

structure WriterWorker where
  path : Text
  written : Bytes := []
  rxCmd : List WriterCommands := []
  state : WriterState := .running
  deriving DecidableEq, Repr

/-- What the channel gives when it is empty, and the file when it is written or flushed. -/
inductive WriterResult where
  | ok
  | err (e : String)
  /-- Nothing came for ten seconds. -/
  | timeout
  /-- The listener has dropped its end of the channel. -/
  | disconnected
  deriving DecidableEq, Repr

namespace WriterWorker
variable {w : WriterWorker}
def send (w : WriterWorker) (command : WriterCommands) : WriterWorker := { w with rxCmd := w.rxCmd ++ [command] }
def cleanup (w : WriterWorker) : WriterWorker := { w with state := .removed }

/-- One turn of `WriterWorker::run`, and what goes to the listener. -/
def step (id : UInt32) (result : WriterResult) (w : WriterWorker) : WriterWorker × List FileHandlerEvents :=
  if w.state = .running then
    match w.rxCmd, result with
    | [], .timeout | [], .disconnected => (w.cleanup,[])
    | [], _ => (w,[])
    | .cancel :: rest, _ => (cleanup { w with rxCmd := rest },[])
    | .writeChunk _ :: rest, .err e =>
      -- the flush of an empty chunk and the write of any other fail alike
      (cleanup { w with rxCmd := rest },[.err e])
    | .writeChunk payload :: rest, _ =>
      if payload.isEmpty then ({ w with rxCmd := rest, state := .finished },[.writerWorkerFinished id])
      else
        let written := w.written ++ payload
        ({ w with rxCmd := rest, written := written },[.downloadProgress id written.length])
  else (w,[])

theorem step_cases (id : UInt32) (result : WriterResult) (hw : w.state = .running) :
    (w.rxCmd = [] ∧ result ≠ .timeout ∧ result ≠ .disconnected ∧ w.step id result = (w,[])) ∨
      ((w.step id result).1.state = .removed ∧ .writerWorkerFinished id ∉ (w.step id result).2 ∧
        (w.step id result).1.written = w.written ∧ ((w.step id result).1.rxCmd = w.rxCmd ∨
          ∃ command, w.rxCmd = command :: (w.step id result).1.rxCmd)) ∨ (∃ rest, w.rxCmd = .writeChunk [] :: rest ∧
        w.step id result = ({ w with rxCmd := rest, state := .finished },[.writerWorkerFinished id])) ∨
      ∃ payload rest, payload ≠ [] ∧ w.rxCmd = .writeChunk payload :: rest ∧ w.step id result =
        ({ w with rxCmd := rest, written := w.written ++ payload },
          [.downloadProgress id (w.written ++ payload).length]) := by
  unfold step
  rw [if_pos hw]
  cases hcmd : w.rxCmd with
  | nil => cases result <;> simp [cleanup,hcmd]
  | cons command rest =>
    cases command with
    | cancel => exact .inr (.inl ⟨rfl,by simp,rfl, .inr ⟨.cancel,rfl⟩⟩)
    | writeChunk payload =>
      cases payload with
      | nil | cons b payload => cases result <;> simp [cleanup]

theorem step_of_ended (h : w.state ≠ .running) (id : UInt32) (result : WriterResult) :
    w.step id result = (w,[]) := if_neg h
end WriterWorker
end RustyRtc.Files
