import RustyRtc.Files.Workers
import RustyRtc.Foundation.Execution

/-! # How readers and writers end

A worker on its own: commands are sent to it at any time, and it takes turns. What it says to the listener is
collected in a log.
-/
namespace RustyRtc.Files
inductive WorkerMove (κ ρ : Type) where
  | send (command : κ)
  | turn (result : ρ)
  deriving DecidableEq, Repr

namespace WorkerMove
variable {κ ρ : Type}
def commands (moves : List (WorkerMove κ ρ)) : List κ :=
  moves.filterMap fun
    | .send command => some command
    | .turn _ => none
theorem commands_append (moves moves' : List (WorkerMove κ ρ)) :
    commands (moves ++ moves') = commands moves ++ commands moves' := List.filterMap_append
end WorkerMove

namespace WriterWorker
open WorkerMove
variable {result : WriterResult} {w : WriterWorker}
def move (id : UInt32) (s : WriterWorker × List FileHandlerEvents) :
    WorkerMove WriterCommands WriterResult → WriterWorker × List FileHandlerEvents
  | .send command => (s.1.send command,s.2)
  | .turn result => let (w,events) := s.1.step id result; (w,s.2 ++ events)
def run (id : UInt32) (path : Text) (moves : List (WorkerMove WriterCommands WriterResult)) :
    WriterWorker × List FileHandlerEvents := moves.foldl (move id) ({ path := path },[])
def Writing (id : UInt32) (sent : List WriterCommands) (s : WriterWorker × List FileHandlerEvents) : Prop :=
  s.1.state = .running ∧ s.2.count (.writerWorkerFinished id) = 0 ∧ ∃ chunks : List Bytes,
    (∀ chunk ∈ chunks, chunk ≠ []) ∧ sent = chunks.map .writeChunk ++ s.1.rxCmd ∧ s.1.written = chunks.flatten

/-- The end was announced once, and the file holds the chunks in front of the empty one. -/
def Completed (id : UInt32) (sent : List WriterCommands) (s : WriterWorker × List FileHandlerEvents) : Prop :=
  s.1.state = .finished ∧ s.2.count (.writerWorkerFinished id) = 1 ∧ ∃ (chunks : List Bytes) (rest : List WriterCommands),
    (∀ chunk ∈ chunks, chunk ≠ []) ∧ sent = chunks.map .writeChunk ++ .writeChunk [] :: rest ∧
      s.1.written = chunks.flatten
def Removed (id : UInt32) (sent : List WriterCommands) (s : WriterWorker × List FileHandlerEvents) : Prop :=
  s.1.state = .removed ∧ s.2.count (.writerWorkerFinished id) = 0 ∧ ∃ chunks : List Bytes,
    (∀ chunk ∈ chunks, chunk ≠ []) ∧ chunks.map .writeChunk <+: sent ∧ s.1.written = chunks.flatten

section
variable {id : UInt32} {sent : List WriterCommands} {s : WriterWorker × List FileHandlerEvents}
theorem move_send (command : WriterCommands) (h : Writing id sent s ∨ Completed id sent s ∨ Removed id sent s) :
    Writing id (sent ++ [command]) (move id s (.send command)) ∨
      Completed id (sent ++ [command]) (move id s (.send command)) ∨
        Removed id (sent ++ [command]) (move id s (.send command)) := by
  rcases h with ⟨hstate,hlog,chunks,hchunks,rfl,hwritten⟩ | ⟨hstate,hlog,chunks,rest,hchunks,rfl,hwritten⟩ |
    ⟨hstate,hlog,chunks,hchunks,hsent,hwritten⟩
  · exact .inl ⟨hstate,hlog,chunks,hchunks,by simp [move,send],hwritten⟩
  · exact .inr (.inl ⟨hstate,hlog,chunks,rest ++ [command],hchunks,by simp,hwritten⟩)
  · exact .inr (.inr ⟨hstate,hlog,chunks,hchunks,hsent.trans (List.prefix_append _ _),hwritten⟩)

theorem move_turn_of_ended (h : s.1.state ≠ .running) (result : WriterResult) : move id s (.turn result) = s := by
  simp [move,step_of_ended h]

theorem Writing.turn (h : Writing id sent s) (result : WriterResult) :
    Writing id sent (move id s (.turn result)) ∨ Completed id sent (move id s (.turn result)) ∨
      Removed id sent (move id s (.turn result)) := by
  obtain ⟨hstate,hlog,chunks,hchunks,rfl,hwritten⟩ := h
  have hlog' : ∀ events : List FileHandlerEvents, (s.2 ++ events).count (.writerWorkerFinished id) =
      events.count (.writerWorkerFinished id) := by simp [hlog]
  rcases step_cases id result hstate with
    ⟨-,-,-,hstep⟩ | ⟨hremoved,hsilent,hsame,-⟩ | ⟨rest,hcmd,hstep⟩ | ⟨payload,rest,hpayload,hcmd,hstep⟩
  · refine .inl ?_
    simpa [move,hstep] using ⟨hstate,hlog,chunks,hchunks,rfl,hwritten⟩
  · exact .inr (.inr ⟨hremoved,(hlog' _).trans (List.count_eq_zero.mpr hsilent),chunks,hchunks,
      List.prefix_append _ _,hsame.trans hwritten⟩)
  · refine .inr (.inl ?_)
    rw [move,hstep]
    exact ⟨rfl,by simp [hlog],chunks,rest,hchunks,by rw [hcmd],hwritten⟩
  · refine .inl ?_
    rw [move,hstep]
    refine ⟨hstate,by simp [hlog],chunks ++ [payload],?_,?_,?_⟩
    · simpa [or_imp,forall_and] using ⟨hchunks,hpayload⟩
    · simp [hcmd]
    · simp [hwritten]
end

/-- At every moment the worker writes, or has completed the file, or has removed it. -/
theorem run_cases (id : UInt32) (path : Text) (moves : List (WorkerMove WriterCommands WriterResult)) :
    Writing id (commands moves) (run id path moves) ∨ Completed id (commands moves) (run id path moves) ∨
      Removed id (commands moves) (run id path moves) := by
  induction moves using List.reverseRecOn with
  | nil => exact .inl ⟨rfl,rfl,[],by simp,rfl,rfl⟩
  | append_singleton moves m ih =>
    rw [run,List.foldl_append,List.foldl_cons,List.foldl_nil,← run]
    cases m with
    | send command => simpa [commands] using move_send command ih
    | turn result =>
      have hcommands : commands (moves ++ [.turn result]) = commands moves := by simp [commands]
      rw [hcommands]
      rcases ih with h | h | h
      · exact h.turn result
      · rw [move_turn_of_ended (by simp [h.1])]
        exact .inr (.inl h)
      · rw [move_turn_of_ended (by simp [h.1])]
        exact .inr (.inr h)

theorem rxCmd_step {id : UInt32}
    (h : (w.step id result).1.state = .running) : (w.step id result).1.rxCmd = w.rxCmd.tail := by
  have hw : w.state = .running := by
    by_contra hended
    rw [step_of_ended hended] at h
    exact hended h
  rcases step_cases id result hw with
    ⟨hcmd,-,-,hstep⟩ | ⟨hremoved,-⟩ | ⟨rest,hcmd,hstep⟩ | ⟨payload,rest,-,hcmd,hstep⟩
  · rw [hstep,hcmd]
    rfl
  · rw [hremoved] at h
    cases h
  · rw [hstep,hcmd]
    rfl
  · rw [hstep,hcmd]
    rfl

theorem step_without_command {id : UInt32} (hcmd : w.rxCmd = [])
    (hresult : result = .timeout ∨ result = .disconnected) : (w.step id result).1.state ≠ .running := by
  intro h
  unfold step at h
  split at h
  · rcases hresult with rfl | rfl <;> simp [hcmd,cleanup] at h
  · contradiction

theorem running_of_turns {id : UInt32} {results : List WriterResult} {s : WriterWorker × List FileHandlerEvents}
    (h : ((results.map WorkerMove.turn).foldl (move id) s).1.state = .running) : s.1.state = .running := by
  induction results generalizing s with
  | nil => exact h
  | cons result results ih =>
    have hnext := ih h
    by_contra hended
    rw [move_turn_of_ended hended] at hnext
    exact hended hnext

theorem length_rxCmd_turns {id : UInt32} {results : List WriterResult} {s : WriterWorker × List FileHandlerEvents}
    (h : ((results.map WorkerMove.turn).foldl (move id) s).1.state = .running) :
    ((results.map WorkerMove.turn).foldl (move id) s).1.rxCmd.length = s.1.rxCmd.length - results.length := by
  induction results generalizing s with
  | nil => rfl
  | cons result results ih =>
    have hnext : (move id s (.turn result)).1.state = .running := @running_of_turns id results _ h
    have hone : (move id s (.turn result)).1.rxCmd = s.1.rxCmd.tail := rxCmd_step hnext
    have hrest := ih h
    rw [hone,List.length_tail] at hrest
    rw [List.length_cons,Nat.add_comm,← Nat.sub_sub]
    exact hrest

/-- After enough turns and then silence or a closed channel, the worker has ended in one of two ways: it has announced
the end once and the file holds the chunks in front of the empty one, or it has not announced it and the file is
removed. -/
theorem writer_outcome (id : UInt32) (path : Text) (moves : List (WorkerMove WriterCommands WriterResult))
    (results : List WriterResult) (last : WriterResult) (hresults : (commands moves).length ≤ results.length)
    (hlast : last = .timeout ∨ last = .disconnected) :
    Completed id (commands moves) (run id path (moves ++ results.map .turn ++ [.turn last])) ∨
      Removed id (commands moves) (run id path (moves ++ results.map .turn ++ [.turn last])) := by
  have hcommands : commands (moves ++ results.map .turn ++ [.turn last]) = commands moves := by
    simp [commands,List.filterMap_map]
  have hcases := run_cases id path (moves ++ results.map .turn ++ [.turn last])
  rw [hcommands] at hcases
  refine hcases.resolve_left fun hwriting => ?_
  -- a worker that still runs has taken all its commands, so the last turn has ended it
  let before := (results.map WorkerMove.turn).foldl (move id) (run id path moves)
  have hrun : run id path (moves ++ results.map .turn ++ [.turn last]) = move id before (.turn last) := by
    simp [run,before]
  rw [hrun] at hwriting
  have hrunning : before.1.state = .running := by
    by_contra hended
    rw [move_turn_of_ended hended] at hwriting
    exact hended hwriting.1
  have hpending : (run id path moves).1.rxCmd.length ≤ (commands moves).length := by
    rcases run_cases id path moves with ⟨-,-,chunks,-,hsent,-⟩ | ⟨hended,-⟩ | ⟨hended,-⟩
    · rw [hsent, List.length_append]
      exact Nat.le_add_left _ _
    · rw [running_of_turns hrunning] at hended
      cases hended
    · rw [running_of_turns hrunning] at hended
      cases hended
  have hempty : before.1.rxCmd = [] := by
    refine List.length_eq_zero_iff.mp ?_
    rw [length_rxCmd_turns hrunning]
    omega
  exact step_without_command hempty hlast hwriting.1

/-- A chunk is written, the empty one ends the file, and the channel is closed afterwards. -/
theorem writer_completes : ∃ s : WriterWorker × List FileHandlerEvents,
    s = run 7 ['f'] [.send (.writeChunk [1,2]), .send (.writeChunk []), .turn .ok, .turn .ok, .turn .disconnected] ∧
      Completed 7 [.writeChunk [1,2], .writeChunk []] s := by
  have houtcome := writer_outcome 7 ['f'] [.send (.writeChunk [1,2]), .send (.writeChunk [])] [.ok, .ok] .disconnected
    (Nat.le_refl 2) (.inr rfl)
  exact ⟨_,rfl,houtcome.resolve_right fun hremoved => by cases hremoved.1⟩
end WriterWorker

namespace ReaderWorker
open WorkerMove

def move (id : UInt32) (s : ReaderWorker × List FileHandlerEvents) :
    WorkerMove ReaderCommands ℕ → ReaderWorker × List FileHandlerEvents
  | .send command => (s.1.send command,s.2)
  | .turn n => let (w,events) := s.1.step id (.ok n); (w,s.2 ++ events)
def run (id : UInt32) (file : Bytes) (moves : List (WorkerMove ReaderCommands ℕ)) :
    ReaderWorker × List FileHandlerEvents := moves.foldl (move id) (.new file,[])
def payloads (log : List FileHandlerEvents) : List Bytes :=
  log.filterMap fun
    | .readChunk _ payload => some payload
    | _ => none
theorem payloads_append (log log' : List FileHandlerEvents) : payloads (log ++ log') = payloads log ++ payloads log' :=
  List.filterMap_append
theorem mem_payloads {log : List FileHandlerEvents} {id : UInt32} {payload : Bytes}
    (h : .readChunk id payload ∈ log) : payload ∈ payloads log := List.mem_filterMap.mpr ⟨_,h,rfl⟩
structure Sending (file : Bytes) (w : ReaderWorker) (log : List FileHandlerEvents) : Prop where
  file_eq : (payloads log).flatten ++ w.rest = file
  nonempty : ∀ part ∈ payloads log, part ≠ []

/-- The whole file was sent, then the empty payload, then the end was announced. -/
def Ended (id : UInt32) (file : Bytes) (w : ReaderWorker) (log : List FileHandlerEvents) : Prop :=
  ∃ front, log = front ++ [.readChunk id [], .readerWorkerFinished id] ∧ Sending file w front ∧ w.rest = [] ∧
    w.running = false

theorem step_cases (id : UInt32) (n : ℕ) (w : ReaderWorker) (hw : w.running = true) :
    ((w.step id (.ok n)).1.rest = w.rest ∧ (w.step id (.ok n)).2 = []) ∨
      (w.rest = [] ∧ (w.step id (.ok n)).1.rest = [] ∧ (w.step id (.ok n)).1.running = false ∧
        (w.step id (.ok n)).2 = [.readChunk id [], .readerWorkerFinished id]) ∨
      ∃ part progress, part ≠ [] ∧ part ++ (w.step id (.ok n)).1.rest = w.rest ∧
        (w.step id (.ok n)).2 = [.uploadProgress id progress w.fileSize, .readChunk id part] := by
  unfold step
  rw [if_pos hw]
  cases w.rxCmd with
  | nil => exact .inl ⟨rfl,rfl⟩
  | cons command rest =>
    cases command with
    | cancel => exact .inl ⟨rfl,rfl⟩
    | getChunk =>
      dsimp only
      split
      · next hempty =>
        have hrest : w.rest = [] := buffer_eq_nil_iff.mp (by simpa using hempty)
        exact .inr (.inl ⟨hrest,hrest,rfl,rfl⟩)
      · next hread =>
        exact .inr (.inr ⟨w.buffer n,_,by simpa using hread,w.buffer_append_drop n,rfl⟩)

theorem move_turn {id : UInt32} {file : Bytes} {s : ReaderWorker × List FileHandlerEvents}
    (h : Sending file s.1 s.2) (n : ℕ) : Sending file (move id s (.turn n)).1 (move id s (.turn n)).2 ∨
      Ended id file (move id s (.turn n)).1 (move id s (.turn n)).2 := by
  cases hw : s.1.running with
  | false =>
    have hsame : move id s (.turn n) = s := by simp [move,step,hw]
    rw [hsame]
    exact .inl h
  | true =>
    rcases step_cases id n s.1 hw with ⟨hrest,hlog⟩ | ⟨hbefore,hrest,hstopped,hlog⟩ | ⟨part,progress,hpart,hrest,hlog⟩
    · refine .inl ⟨?_,?_⟩
      · simpa [move,hrest,hlog] using h.file_eq
      · simpa [move,hlog] using h.nonempty
    · refine .inr ⟨s.2,congrArg (s.2 ++ ·) hlog,⟨?_,h.nonempty⟩,hrest,hstopped⟩
      have hall := h.file_eq
      rw [hbefore] at hall
      rw [move,hrest]
      exact hall
    · have hpayloads : payloads (move id s (.turn n)).2 = payloads s.2 ++ [part] := by
        change payloads (s.2 ++ (s.1.step id (.ok n)).2) = _
        rw [hlog,payloads_append]
        rfl
      refine .inl ⟨?_,?_⟩
      · rw [hpayloads,List.flatten_concat,List.append_assoc]
        exact (congrArg _ hrest).trans h.file_eq
      · rw [hpayloads]
        simpa [or_imp,forall_and] using ⟨h.nonempty,hpart⟩

theorem run_cases (id : UInt32) (file : Bytes) (moves : List (WorkerMove ReaderCommands ℕ)) :
    Sending file (run id file moves).1 (run id file moves).2 ∨
      Ended id file (run id file moves).1 (run id file moves).2 := by
  induction moves using List.reverseRecOn with
  | nil => exact .inl ⟨rfl,by simp [payloads,run]⟩
  | append_singleton moves m ih =>
    rw [run,List.foldl_append,List.foldl_cons,List.foldl_nil,← run]
    cases m with
    | send command =>
      rcases ih with h | ⟨front,hlog,h,hrest,hstopped⟩
      · exact .inl ⟨h.file_eq,h.nonempty⟩
      · exact .inr ⟨front,hlog,⟨h.file_eq,h.nonempty⟩,hrest,hstopped⟩
    | turn n =>
      rcases ih with h | h
      · exact move_turn h n
      · -- a worker that has stopped says nothing more
        have hsame : move id (run id file moves) (.turn n) = run id file moves := by
          obtain ⟨front,-,-,-,hstopped⟩ := h
          simp [move,step,hstopped]
        rw [hsame]
        exact .inr h

/-- Whatever commands come and however short the reads are, what a reader has sent is an initial part of the file. The
empty payload is sent at most once, after the whole file, and the announcement of the end is the only thing behind
it. -/
theorem reader_outcome (id : UInt32) (file : Bytes) (moves : List (WorkerMove ReaderCommands ℕ)) :
    (payloads (run id file moves).2).flatten <+: file ∧ (payloads (run id file moves).2).count [] ≤ 1 ∧
      ∀ before after, (run id file moves).2 = before ++ .readChunk id [] :: after →
        (payloads before).flatten = file ∧ after = [.readerWorkerFinished id] := by
  rcases run_cases id file moves with h | ⟨front,hlog,h,hrest,-⟩
  · have hnone : [] ∉ payloads (run id file moves).2 := fun hmem => h.nonempty [] hmem rfl
    refine ⟨⟨_,h.file_eq⟩,by simp [List.count_eq_zero.mpr hnone],fun before after heq => ?_⟩
    have hmem : .readChunk id [] ∈ (run id file moves).2 := by simp [heq]
    exact absurd (mem_payloads hmem) hnone
  · have hnone : [] ∉ payloads front := fun hmem => h.nonempty [] hmem rfl
    have hfile : (payloads front).flatten = file := by
      have hall := h.file_eq
      rwa [hrest, List.append_nil] at hall
    have hpayloads : payloads (run id file moves).2 = payloads front ++ [[]] := by
      rw [hlog, payloads_append]
      rfl
    refine ⟨?_,?_,fun before after heq => ?_⟩
    · rw [hpayloads]
      simp [hfile]
    · rw [hpayloads, List.count_append, List.count_eq_zero.mpr hnone]
      simp
    · rw [hlog] at heq
      obtain ⟨rfl,-,rfl⟩ := (List.append_cons_inj_of_notMem (fun hmem => hnone (mem_payloads hmem)) (by simp)).mp heq
      exact ⟨hfile,rfl⟩
end ReaderWorker
end RustyRtc.Files
