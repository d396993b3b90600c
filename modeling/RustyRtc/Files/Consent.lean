import RustyRtc.Files.Download
import RustyRtc.Files.Outcomes
import RustyRtc.Files.Storage

/-! # Files are written with the user's consent

A log is kept beside one client: the chunks that come in, the files that the user accepts, and the chunks that the
engine receives, each in their order. The listener hears of the last two in the order of the log, so a writer is given
nothing but the chunks that were received under its id after its file was accepted.
-/
namespace RustyRtc.Files
open Sctp Peer FileHandler FileHandlerEvents
variable {t : Thread}
inductive Entry where
  | heard (id : UInt32) (payload : Bytes)
  | accepted (id : UInt32) (filename : String)
  | received (id : UInt32) (payload : Bytes)
  deriving DecidableEq, Repr

namespace Entry
def heardOf (id : UInt32) : Entry → Option Bytes
  | .heard id' payload => if id' = id then some payload else none
  | _ => none
def receivedOf (id : UInt32) : Entry → Option Bytes
  | .received id' payload => if id' = id then some payload else none
  | _ => none
def event : Entry → Option FileHandlerEvents
  | .heard .. => none
  | .accepted id filename => some (.writeFile filename id)
  | .received id payload => some (.writeChunk id payload)
end Entry
open Entry
structure History where
  peer : Peer := {}
  log : List Entry := []

namespace History
def entries (p : Peer) : Move → List Entry
  | .hear _ data =>
    match SctpProtocolMessage.deserialize data with
    | .ok (.chunk id _ payload) => [.heard id payload]
    | _ => []
  | .turn .poll =>
    match p.events with
    | .receivedFileChunk id _ payload :: _ => [.received id payload]
    | _ => []
  | .turn (.frame (some .accept)) =>
    match (p.frame none).fileTransferState with
    | .remoteOffered props => [.accepted props.transactionId props.fileName]
    | _ => []
  | _ => []

def step (c : Computer) (s : History) (m : Move) : History :=
  { peer := s.peer.move c m, log := s.log ++ entries s.peer m }
def run (c : Computer) (moves : List Move) : History := moves.foldl (step c) {}

/-- The move takes a chunk of this id a step further. -/
def passesChunk (id : UInt32) (p : Peer) : Move → Bool
  | .hear _ data => (chunkIn id data).isSome
  | .turn .report => (p.sctp.toParent.head?.bind (receivedChunkOf id)).isSome
  | .turn .poll => (p.events.head?.bind (receivedFileChunkOf id)).isSome
  | .turn (.listen _) => (p.handler.rx.head?.bind (writeChunkOf id)).isSome
  | .turn (.work i _) => p.handler.threads[i]?.any (·.id = id)
  | _ => false
end History

def FileHandlerEvents.isWrite : FileHandlerEvents → Bool
  | .writeFile .. | .writeChunk .. => true
  | _ => false
theorem filterMap_isWrite (id : UInt32) (event : FileHandlerEvents) :
    ([event].filter (·.isWrite)).filterMap (writeChunkOf id) = (writeChunkOf id event).toList := by
  cases event with
  | writeChunk id' payload => by_cases hid : id' = id <;> simp [isWrite,writeChunkOf,hid]
  | _ => rfl

namespace WriterWorker
variable (id : UInt32)
theorem run_send (path : Text) (moves : List (WorkerMove WriterCommands WriterResult))
    (commands : List WriterCommands) : (run id path (moves ++ commands.map .send)).1 =
      { (run id path moves).1 with rxCmd := (run id path moves).1.rxCmd ++ commands } := by
  rw [run,List.foldl_append,← run]
  generalize run id path moves = s
  induction commands generalizing s with
  | nil => simp
  | cons command commands ih =>
    rw [List.map_cons,List.foldl_cons,ih]
    simp [move,send]

theorem path_run (path : Text) (moves : List (WorkerMove WriterCommands WriterResult)) :
    (run id path moves).1.path = path := by
  refine List.foldlRecOn (motive := fun (s : WriterWorker × List FileHandlerEvents) => s.1.path = path) moves _ rfl fun s hs m _ => ?_
  cases m with
  | send command => exact hs
  | turn result =>
    refine Eq.trans ?_ hs
    change (s.1.step id result).1.path = s.1.path
    unfold step
    split
    · split <;> first | rfl | (split <;> rfl)
    · rfl

theorem written_run (path : Text) (moves : List (WorkerMove WriterCommands WriterResult))
    (later : List Bytes) : (run id path moves).1.written <+:
      ((((WorkerMove.commands moves).filterMap WriterCommands.chunk?) ++ later).takeWhile (· ≠ [])).flatten := by
  obtain ⟨chunks,hchunks,⟨rest,hsent⟩,hwritten⟩ : ∃ chunks : List Bytes, (∀ chunk ∈ chunks, chunk ≠ []) ∧
      chunks.map .writeChunk <+: WorkerMove.commands moves ∧
        (run id path moves).1.written = chunks.flatten := by
    rcases run_cases id path moves with
      ⟨-,-,chunks,hchunks,hsent,hwritten⟩ | ⟨-,-,chunks,rest,hchunks,hsent,hwritten⟩ | ⟨-,-,chunks,hchunks,hsent,hwritten⟩
    · exact ⟨chunks,hchunks,by rw [hsent]; exact List.prefix_append _ _,hwritten⟩
    · exact ⟨chunks,hchunks,by rw [hsent]; exact List.prefix_append _ _,hwritten⟩
    · exact ⟨chunks,hchunks,hsent,hwritten⟩
  have hgiven : (chunks.map WriterCommands.writeChunk).filterMap WriterCommands.chunk? = chunks := by
    simp [List.filterMap_map,Function.comp_def,WriterCommands.chunk?]
  rw [← hsent,List.filterMap_append,hgiven,List.append_assoc,List.takeWhile_append_of_pos (by simpa using hchunks),
    List.flatten_append,hwritten]
  exact List.prefix_append _ _
end WriterWorker

/-- The writer was started by one of the events handled so far, and has been sent chunks that were handled later. -/
def Thread.Follows (c : Computer) (past : List FileHandlerEvents) (t : Thread) (w : WriterWorker) : Prop :=
  ∃ before filename after moves rest, past = before ++ .writeFile filename t.id :: after ∧
    w = (WriterWorker.run t.id (Path.join c.storagePath filename.toList) moves).1 ∧
    after.filterMap (writeChunkOf t.id) = (WorkerMove.commands moves).filterMap WriterCommands.chunk? ++ rest ∧
    (t.listed = true → rest = [])

namespace Thread.Follows
variable {c : Computer} {past : List FileHandlerEvents} {t t' : Thread} {w : WriterWorker}

/-- One more event is handled. A writer that is in the listener's map is sent its chunk, if it brings one. -/
theorem send (h : t.Follows c past w) (hid : t'.id = t.id) (hlisted : t'.listed = true → t.listed = true)
    {event : FileHandlerEvents} {commands : List WriterCommands}
    (hcommands : commands.filterMap WriterCommands.chunk? =
      if t.listed then (writeChunkOf t.id event).toList else []) :
    t'.Follows c (past ++ [event].filter (·.isWrite)) { w with rxCmd := w.rxCmd ++ commands } := by
  obtain ⟨before,filename,after,moves,rest,rfl,rfl,hchunks,hrest⟩ := h
  refine ⟨before,filename,after ++ [event].filter (·.isWrite),moves ++ commands.map .send,
    rest ++ (if t.listed then [] else (writeChunkOf t.id event).toList),by simp [hid],?_,?_,?_⟩
  · rw [WriterWorker.run_send,hid]
  · have hsent : WorkerMove.commands (commands.map .send : List (WorkerMove _ WriterResult)) = commands := by
      simp [WorkerMove.commands,List.filterMap_map]
    rw [hid,List.filterMap_append,hchunks,filterMap_isWrite,WorkerMove.commands_append,hsent,
      List.filterMap_append,hcommands]
    cases hlist : t.listed with
    | true => simp [hrest hlist]
    | false => simp
  · intro hlisted'
    simp [hlisted hlisted',hrest]

theorem turn (h : t.Follows c past w) (result : WriterResult) : t.Follows c past (w.step t.id result).1 := by
  obtain ⟨before,filename,after,moves,rest,hpast,rfl,hchunks,hrest⟩ := h
  refine ⟨before,filename,after,moves ++ [.turn result],rest,hpast,?_,?_,hrest⟩
  · simp [WriterWorker.run,WriterWorker.move]
  · simpa [WorkerMove.commands] using hchunks
end Thread.Follows

/-- What is made and written goes back to the events handled so far. -/
structure FileHandler.Follows (c : Computer) (past : List FileHandlerEvents) (h : FileHandler) : Prop where
  made : ∀ place ∈ h.made, ∃ filename id w, .writeFile filename id ∈ past ∧ Peer.Makes c w filename place
  writers : ∀ t ∈ h.threads, ∀ w, t.worker = .writer w → t.Follows c past w

namespace FileHandler.Follows
variable {c : Computer} {past : List FileHandlerEvents} {h : FileHandler}
theorem told (hf : h.Follows c past) (h' : FileHandler) (event : FileHandlerEvents) (ht : t ∈ h.threads)
    {w' : WriterWorker} (hw' : (h'.told t.id event t).worker = .writer w') :
    (h'.told t.id event t).Follows c (past ++ [event].filter (·.isWrite)) w' := by
  cases hworker : t.worker with
  | reader w =>
    obtain ⟨commands,hreader,-⟩ := @told_reader h' t.id event t w hworker
    cases hreader.symm.trans hw'
  | writer w =>
    obtain ⟨commands,hwriter,hcommands⟩ := told_writer t.id h' event hworker
    obtain rfl := Worker.writer.inj (hwriter.symm.trans hw')
    exact (hf.writers t ht w hworker).send (id_told event t) listed_of_told hcommands

theorem handle (hf : h.Follows c past) (w : Surroundings) (event : FileHandlerEvents) :
    (h.handle c w event).1.Follows c (past ++ [event].filter (·.isWrite)) := by
  constructor
  · intro place hplace
    rcases made_of_handle w h event hplace with hold | ⟨filename,id,rfl,hmakes⟩
    · obtain ⟨filename,id,w',hmem,hmakes⟩ := hf.made place hold
      exact ⟨filename,id,w',List.mem_append_left _ hmem,hmakes⟩
    · exact ⟨filename,id,w,by simp [isWrite],hmakes⟩
  · intro t' ht' w' hw'
    rw [threads_handle] at ht'
    rcases List.mem_append.mp ht' with ht' | hnew
    · obtain ⟨t,ht,rfl⟩ := List.mem_map.mp ht'
      unfold handled at hw' ⊢
      split
      · next hreplaced =>
        -- the writer's channel is dropped
        rw [if_pos hreplaced] at hw'
        obtain ⟨new,hnew,-⟩ := (Option.any_eq_true _ _).mp hreplaced
        have hnone : writeChunkOf t.id event = none := by
          obtain ⟨path,id,file,rfl,-,-⟩ | ⟨filename,id,rfl,-⟩ := spawned_cases hnew <;> rfl
        simpa using @Thread.Follows.send c past t { t with listed := false } w' (hf.writers t ht w' hw') rfl (by simp)
          event [] (by simp [hnone])
      · next hkept =>
        rw [if_neg hkept] at hw'
        exact hf.told h event ht hw'
    · obtain ⟨path,id,file,rfl,-,rfl⟩ | ⟨filename,id,rfl,rfl⟩ := spawned_cases (Option.mem_toList.mp hnew)
      · cases hw'
      · obtain rfl := Worker.writer.inj hw'
        exact ⟨past,filename,[],[],[],rfl,rfl,rfl,fun _ => rfl⟩

theorem work (hf : h.Follows c past) (i : ℕ) (r : CallResult) : (h.work i r).Follows c past := by
  rcases work_cases i r h with hsame | ⟨t,ht,hwork⟩
  · rwa [hsame]
  · rw [hwork]
    refine ⟨hf.made,fun t' ht' w' hw' => ?_⟩
    rcases List.mem_or_eq_of_mem_set ht' with hold | rfl
    · exact hf.writers t' hold w' hw'
    · cases hworker : t.worker with
      | reader w => simp [FileHandler.step,hworker] at hw'
      | writer w =>
        simp only [FileHandler.step,hworker,Worker.writer.injEq] at hw'
        subst hw'
        exact (hf.writers t (List.mem_of_getElem? ht) w hworker).turn _

theorem shutdown (hf : h.Follows c past) : h.shutdown.Follows c past := by
  refine ⟨hf.made,fun t' ht' w' hw' => ?_⟩
  rw [threads_shutdown] at ht'
  obtain ⟨t,ht,rfl⟩ := List.mem_map.mp ht'
  simpa [isWrite] using hf.told h (.cancel t.id) ht hw'
end FileHandler.Follows

theorem FileHandler.handled_writeChunk {c : Computer} {w : Surroundings} {h : FileHandler} {id : UInt32} {payload : Bytes}
    (ht : t.id ≠ id) : h.handled c w (.writeChunk id payload) t = t := by
  refine (if_neg Bool.false_ne_true).trans ?_
  unfold told
  split
  · exact if_neg ht
  · rfl

namespace History
variable {c : Computer} {s : History} {id : UInt32} {filename : String}

/-- The listener has handled the first of the events of the log, and the next ones are in its channel. -/
structure Sound (c : Computer) (s : History) : Prop where
  listener : ∃ past later, s.log.filterMap Entry.event = past ++ s.peer.handler.rx.filter (·.isWrite) ++ later ∧
    (s.peer.fileHandler = true → later = []) ∧ s.peer.handler.Follows c past
  engine : ∀ id, s.log.filterMap (Entry.heardOf id) = s.log.filterMap (Entry.receivedOf id) ++ s.peer.arrived id

variable {p : Peer}
theorem entries_event {t : Turn} : (entries p (.turn t)).filterMap Entry.event =
    (p.request t).listener.toList.filter (·.isWrite) := by
  cases t with
  | poll =>
    unfold entries Peer.request
    cases p.events with
    | nil => rfl
    | cons event rest => cases event <;> rfl
  | drain high =>
    unfold entries Peer.request
    dsimp only
    split <;> rfl
  | frame action =>
    cases action with
    | none => rfl
    | some action =>
      unfold entries Peer.request Peer.pressed Peer.wish
      cases (p.frame none).fileTransferState <;> cases action <;> first | rfl | (dsimp only [Option.bind_some]; split <;> rfl)
  | _ => rfl

theorem entries_heardOf (id : UInt32) (t : Turn) : (entries p (.turn t)).filterMap (heardOf id) = [] := by
  unfold entries
  split
  · contradiction
  · split <;> rfl
  · split <;> rfl
  · rfl

theorem entries_hear (id : UInt32) (now : ℕ) (data : Bytes) :
    (entries p (.hear now data)).filterMap (heardOf id) = (chunkIn id data).toList ∧
      (entries p (.hear now data)).filterMap (receivedOf id) = [] ∧
      (entries p (.hear now data)).filterMap Entry.event = [] := by
  simp only [entries,chunkIn]
  cases hdata : SctpProtocolMessage.deserialize data with
  | error e => exact ⟨rfl,rfl,rfl⟩
  | ok msg =>
    cases msg with
    | chunk id' seq payload => by_cases hid : id' = id <;> simp [Except.toOption,chunkOf,heardOf,receivedOf,Entry.event,hid]
    | _ => exact ⟨rfl,rfl,rfl⟩

theorem entries_receivedOf (id : UInt32) (t : Turn) : (entries p (.turn t)).filterMap (receivedOf id) ++
    (p.eventsAfter t).filterMap (receivedFileChunkOf id) = p.events.filterMap (receivedFileChunkOf id) := by
  cases t with
  | poll =>
    unfold entries eventsAfter
    cases p.events with
    | nil => rfl
    | cons event rest =>
      cases event with
      | receivedFileChunk id' seq payload => by_cases hid : id' = id <;> simp [receivedOf,receivedFileChunkOf,hid]
      | _ => rfl
  | frame action =>
    have hnone : (entries p (.turn (.frame action))).filterMap (receivedOf id) = [] := by
      unfold entries
      split
      · contradiction
      · next heq => cases heq
      · split <;> rfl
      · rfl
    rw [hnone]
    rfl
  | _ => rfl

theorem pairwise_entries (R : Entry → Entry → Prop) (p : Peer) (m : Move) : (entries p m).Pairwise R := by
  unfold entries
  split <;> first | exact .nil | (split <;> simp)

theorem offersIn_of_accepted (c : Computer) {t : Turn}
    (h : .accepted id filename ∈ entries p (.turn t)) : 0 < p.offersIn id := by
  have hevent : .writeFile filename id ∈ (entries p (.turn t)).filterMap Entry.event := List.mem_filterMap.mpr ⟨_,h,rfl⟩
  rw [entries_event] at hevent
  have hlistener := Option.mem_toList.mp (List.mem_filter.mp hevent).1
  have hasks := p.asks_request t
  have hoffer (ht : t.asks = true) := (counts_ask (c := c) id p ht).2.1
  generalize p.request t = r at hlistener hasks hoffer
  cases r with
  | press button =>
    cases button with
    | accept props =>
      cases hlistener
      obtain ⟨rfl,-⟩ := hasks.accept
      have hle := hoffer rfl
      simp [Request.offer,isReceivedFileOffer] at hle
      omega
    | _ => cases hlistener
  | pass event => cases event <;> cases hlistener
  | _ => cases hlistener

/-- Nothing for the listener is added to the log, and the listener has handled nothing. -/
theorem Sound.keep (h : s.Sound c) {q : Peer} {new : List Entry} (hnew : new.filterMap Entry.event = [])
    (hrx : q.handler.rx.filter (·.isWrite) = s.peer.handler.rx.filter (·.isWrite))
    (hfile : q.fileHandler = true → s.peer.fileHandler = true)
    (hhandler : ∀ past, s.peer.handler.Follows c past → q.handler.Follows c past)
    (hengine : ∀ id, s.peer.arrived id ++ new.filterMap (heardOf id) =
      new.filterMap (receivedOf id) ++ q.arrived id) : Sound c ⟨q,s.log ++ new⟩ := by
  obtain ⟨past,later,hlog,hlater,hf⟩ := h.listener
  refine ⟨⟨past,later,?_,fun hq => hlater (hfile hq),hhandler past hf⟩,fun id => ?_⟩
  · rw [List.filterMap_append,hnew,List.append_nil,hlog,hrx]
  · rw [List.filterMap_append,List.filterMap_append,h.engine id,List.append_assoc,hengine,List.append_assoc]

theorem Sound.listen (h : s.Sound c) (w : Surroundings) : (s.step c (.turn (.listen w))).Sound c := by
  rw [step,Peer.move,Peer.step,FileHandler.listen]
  cases hrx : s.peer.handler.rx with
  | nil => exact h.keep rfl rfl id (fun _ hf => hf) (by simp [arrived,entries])
  | cons event rest =>
    obtain ⟨past,later,hlog,hlater,hf⟩ := h.listener
    let h' : FileHandler := { s.peer.handler with rx := rest }
    have hf' : h'.Follows c past := ⟨hf.made,hf.writers⟩
    have hkept : (h'.handle c w event).1.rx.filter (·.isWrite) = rest.filter (·.isWrite) :=
      filter_rx_handle c (fun _ => rfl) w h' event
    refine ⟨⟨past ++ [event].filter (·.isWrite),later,?_,hlater,hf'.handle w event⟩,fun id => ?_⟩
    · change (s.log ++ []).filterMap Entry.event = _ ++ (h'.handle c w event).1.rx.filter _ ++ _
      have hfirst : (event :: rest).filter (·.isWrite) = [event].filter (·.isWrite) ++ rest.filter (·.isWrite) :=
        List.filter_append [event] rest
      rw [List.append_nil,hlog,hkept,hrx,hfirst]
      simp only [List.append_assoc]
    · have hnone : (h'.handle c w event).2.filterMap (receivedFileChunkOf id) = [] :=
        List.filterMap_eq_nil_iff.mpr fun event' hmem => (says_handle hmem).1
      change (s.log ++ []).filterMap _ = (s.log ++ []).filterMap _ ++
        ((s.peer.events ++ (h'.handle c w event).2).filterMap (receivedFileChunkOf id) ++ _)
      rw [List.append_nil,h.engine id,List.filterMap_append,hnone,List.append_nil,arrived]

theorem Sound.work (h : s.Sound c) (i : ℕ) (r : FileHandler.CallResult) : (s.step c (.turn (.work i r))).Sound c := by
  refine h.keep rfl ?_ id (fun _ hf => hf.work i r) (by simp [arrived,entries,Peer.move,Peer.step])
  change (s.peer.handler.work i r).rx.filter (·.isWrite) = _
  rcases work_cases i r s.peer.handler with hsame | ⟨t,-,hwork⟩
  · rw [hsame]
  · have hnone : (FileHandler.step (r.of t) t).2.filter (·.isWrite) = [] := by
      refine List.filter_eq_nil_iff.mpr fun event hevent => ?_
      have hfrom := fromWorker_of_mem_step hevent
      cases event <;> simp_all [fromWorker,isWrite]
    rw [hwork,List.filter_append,hnone,List.append_nil]

theorem Sound.ask (h : s.Sound c) {t : Turn} (ht : t.asks = true) : (s.step c (.turn t)).Sound c := by
  obtain ⟨past,later,hlog,hlater,hf⟩ := h.listener
  obtain ⟨out,sending,receiving,state,d,hstep⟩ := (@Peer.step_eq_ask s.peer c t ht).eq
  rw [step,Peer.move,hstep]
  refine ⟨⟨past,later ++ if s.peer.fileHandler then [] else (s.peer.request t).listener.toList.filter (·.isWrite),
    ?_,?_,?_⟩,fun id => ?_⟩
  · rw [List.filterMap_append,hlog,entries_event,handler_ask]
    cases hfile : s.peer.fileHandler with
    | true =>
      obtain rfl := hlater hfile
      simp
    | false => simp
  · intro hfile
    have hfile' : s.peer.fileHandler = true := hfile
    simp [hfile',hlater hfile']
  · rw [handler_ask]
    exact ⟨hf.made,hf.writers⟩
  · rw [List.filterMap_append,List.filterMap_append,entries_heardOf,List.append_nil,h.engine id,arrived,
      ← entries_receivedOf id t,arrived,toParent_ask]
    simp only [Peer.ask,List.append_assoc]

theorem Sound.step (h : s.Sound c) (m : Move) : (s.step c m).Sound c := by
  have hsession : ∀ {t : Turn} (q : SctpSession), entries s.peer (.turn t) = [] → q.toParent = s.peer.sctp.toParent →
      s.peer.step c t = { s.peer with sctp := q } → (History.step c s (.turn t)).Sound c := by
    intro t q hentries hparent hstep
    rw [History.step,Peer.move,hentries,hstep]
    exact h.keep rfl rfl id (fun _ hf => hf) (by simp [arrived,hparent])
  cases m with
  | hear now data =>
    refine h.keep (entries_hear 0 now data).2.2 rfl id (fun _ hf => hf) fun id => ?_
    obtain ⟨hheard,hreceived,-⟩ := @entries_hear s.peer id now data
    rw [hheard,hreceived,Peer.move,arrived_hear]
    rfl
  | turn t =>
    cases t with
    | listen w => exact h.listen w
    | work i r => exact h.work i r
    | transmit now results => exact hsession _ rfl (SctpSession.transmit_toParent now results s.peer.sctp) rfl
    | checkTimeouts now ids =>
      obtain ⟨silent,hsilent⟩ := SctpSession.checkStreamTimeouts_eq now ids s.peer.sctp
      refine hsession _ rfl ?_ rfl
      rw [hsilent]
    | connected => exact hsession (s.peer.sctp.route .sctpConnected) rfl rfl rfl
    | report =>
      have hhandler : s.peer.report.handler = s.peer.handler ∧ s.peer.report.fileHandler = s.peer.fileHandler := by
        rw [Peer.report]
        split <;> exact ⟨rfl,rfl⟩
      rw [History.step,Peer.move,Peer.step]
      refine h.keep rfl (by rw [hhandler.1]) (by simp [hhandler.2]) (fun _ hf => hhandler.1 ▸ hf) fun id => ?_
      rw [arrived_report]
      simp [entries]
    | poll | drain _ | frame _ => exact h.ask rfl
    | stop =>
      rw [History.step,Peer.move,Peer.step,Peer.stop]
      split
      · exact h.keep rfl rfl (by simp) (fun _ hf => hf.shutdown) (by simp [arrived,entries])
      · exact h.keep rfl rfl id (fun _ hf => hf) (by simp [entries])
    | close => exact h.keep rfl rfl (by simp [Peer.move,Peer.step,Peer.closeSession]) (fun _ hf => hf) (by simp [arrived,entries,Peer.move,Peer.step,Peer.closeSession])

theorem sound_run (c : Computer) (moves : List Move) : (run c moves).Sound c := by
  refine List.foldlRecOn (motive := Sound c) moves _ ⟨⟨[],[],rfl,fun _ => rfl,by simp,by simp⟩,fun _ => rfl⟩ ?_
  exact fun _ h m _ => h.step m
theorem receivedOf_eq (id : UInt32) : receivedOf id = fun entry => entry.event.bind (writeChunkOf id) :=
  funext fun entry => by cases entry <;> rfl

theorem split_log {log : List Entry} {before after : List FileHandlerEvents}
    (h : log.filterMap Entry.event = before ++ .writeFile filename id :: after) :
    ∃ before' after', log = before' ++ .accepted id filename :: after' ∧
      after'.filterMap (receivedOf id) = after.filterMap (writeChunkOf id) := by
  obtain ⟨before',rest,rfl,-,hrest⟩ := List.filterMap_eq_append_iff.mp h
  obtain ⟨quiet,entry,after',rfl,-,hentry,rfl⟩ := List.filterMap_eq_cons_iff.mp hrest
  obtain rfl : entry = .accepted id filename := by
    cases entry <;> cases hentry
    rfl
  refine ⟨before' ++ quiet,after',by simp,?_⟩
  rw [receivedOf_eq,List.filterMap_filterMap]

/-- A complete file is what was received after the user's consent, up to the first empty chunk. -/
theorem Sound.completed (h : s.Sound c) (ht : t ∈ s.peer.handler.threads) {w : WriterWorker}
    (hw : t.worker = .writer w) (hfinished : w.state = .finished) : ∃ chunks before filename after,
      s.log = before ++ .accepted t.id filename :: after ∧
        chunks ++ [[]] <+: after.filterMap (receivedOf t.id) ∧ w.written = chunks.flatten := by
  obtain ⟨past,later,hlog,-,hf⟩ := h.listener
  obtain ⟨before,filename,after,moves,rest,rfl,rfl,hchunks,-⟩ := hf.writers t ht w hw
  rw [List.append_assoc,List.append_assoc,List.cons_append] at hlog
  obtain ⟨before',after',hsplit,hreceived⟩ := split_log hlog
  rcases WriterWorker.run_cases t.id (Path.join c.storagePath filename.toList) moves with
    ⟨hstate,-⟩ | ⟨-,-,chunks,unread,-,hsent,hwritten⟩ | ⟨hstate,-⟩
  · cases hstate.symm.trans hfinished
  · refine ⟨chunks,before',filename,after',hsplit,?_,hwritten⟩
    rw [hreceived,List.filterMap_append,hchunks,hsent]
    simp [List.filterMap_map,Function.comp_def,WriterCommands.chunk?]
  · cases hstate.symm.trans hfinished

theorem filter_id_map {threads : List Thread} {g : Thread → Thread} (hid : ∀ t, (g t).id = t.id)
    (hg : ∀ t, t.id ≠ id → g t = t) : (threads.map g).filter (·.id ≠ id) = threads.filter (·.id ≠ id) := by
  rw [List.filter_map]
  simp only [Function.comp_def,hid]
  refine (List.map_congr_left fun t ht => hg t ?_).trans (List.map_id _)
  exact of_decide_eq_true (List.mem_filter.mp ht).2

theorem files_of_passesChunk {m : Move} (h : passesChunk id p m = true) : (p.move c m).handler.made = p.handler.made ∧
      (p.move c m).handler.threads.filter (·.id ≠ id) = p.handler.threads.filter (·.id ≠ id) := by
  have hsame : ∀ {q : Peer}, q.handler.made = p.handler.made → q.handler.threads = p.handler.threads →
      q.handler.made = p.handler.made ∧ q.handler.threads.filter (·.id ≠ id) = p.handler.threads.filter (·.id ≠ id) :=
    fun hmade hthreads => ⟨hmade,by rw [hthreads]⟩
  unfold passesChunk at h
  split at h
  · exact hsame rfl rfl
  · rw [Peer.move,Peer.step,Peer.report]
    split
    · exact hsame rfl rfl
    · exact hsame rfl rfl
  · rw [Peer.move,handler_step c rfl]
    exact ⟨rfl,rfl⟩
  · next w =>
    cases hrx : p.handler.rx with
    | nil => simp [hrx] at h
    | cons event rest =>
      obtain ⟨payload,rfl⟩ : ∃ payload, event = .writeChunk id payload := by
        rw [hrx] at h
        cases event with
        | writeChunk id' payload =>
          obtain rfl : id' = id := by
            by_contra hne
            simp [writeChunkOf,hne] at h
          exact ⟨payload,rfl⟩
        | _ => cases h
      rw [Peer.move,Peer.step,FileHandler.listen,hrx]
      refine ⟨rfl,?_⟩
      change (FileHandler.handle c w { p.handler with rx := rest } (.writeChunk id payload)).1.threads.filter _ = _
      rw [threads_handle,List.filter_append]
      exact (List.append_nil _).trans (filter_id_map (id_handled w _) fun t ht => handled_writeChunk ht)
  · next i r =>
    change (p.handler.work i r).made = _ ∧ (p.handler.work i r).threads.filter _ = _
    rcases work_cases i r p.handler with hsame | ⟨t,ht,hwork⟩
    · rw [hsame]
      exact ⟨rfl,rfl⟩
    · rw [hwork]
      have hid : t.id = id := by simpa [ht] using h
      rcases @filter_set _ (fun t => decide (t.id ≠ id)) _ i t { t with worker := (FileHandler.step (r.of t) t).1 } ht rfl with
        ⟨-,hfilter⟩ | ⟨j,hj,-⟩
      · exact ⟨rfl,hfilter⟩
      · exact absurd hid (of_decide_eq_true (List.mem_filter.mp (List.mem_of_getElem? hj)).2)
  · cases h

/-- Places are made for accepted files alone. What a writer has written is a beginning of the chunks received under its
id after the user's consent, up to the first empty one. No chunk is received that was not heard, and none changes
anything of a file with another id. -/
theorem written_with_consent (c : Computer) (moves : List Move) :
    (∀ place ∈ (run c moves).peer.handler.made, ∃ id filename w, .accepted id filename ∈ (run c moves).log ∧
      Peer.Makes c w filename place) ∧
    (∀ t ∈ (run c moves).peer.handler.threads, ∀ w, t.worker = .writer w → ∃ before filename after,
      (run c moves).log = before ++ .accepted t.id filename :: after ∧
        w.path = Path.join c.storagePath filename.toList ∧
        w.written <+: ((after.filterMap (Entry.receivedOf t.id)).takeWhile (· ≠ [])).flatten) ∧
    (∀ id, (run c moves).log.filterMap (Entry.receivedOf id) <+: (run c moves).log.filterMap (Entry.heardOf id)) ∧
    ∀ id m, passesChunk id (run c moves).peer m = true →
      ((run c moves).peer.move c m).handler.made = (run c moves).peer.handler.made ∧
        ((run c moves).peer.move c m).handler.threads.filter (·.id ≠ id) =
          (run c moves).peer.handler.threads.filter (·.id ≠ id) := by
  have hsound := sound_run c moves
  obtain ⟨past,later,hlog,-,hfollows⟩ := hsound.listener
  refine ⟨fun place hplace => ?_,fun t ht w hw => ?_,fun id => ?_,fun id m h => files_of_passesChunk h⟩
  · obtain ⟨filename,id,w,hmem,hmakes⟩ := hfollows.made place hplace
    obtain ⟨before,after,rfl⟩ := List.append_of_mem hmem
    rw [List.append_assoc, List.append_assoc, List.cons_append] at hlog
    obtain ⟨before',after',hsplit,-⟩ := split_log hlog
    exact ⟨id,filename,w,by simp [hsplit],hmakes⟩
  · obtain ⟨before,filename,after,moves',rest,rfl,rfl,hchunks,-⟩ := hfollows.writers t ht w hw
    rw [List.append_assoc, List.append_assoc, List.cons_append] at hlog
    obtain ⟨before',after',hsplit,hreceived⟩ := split_log hlog
    refine ⟨before',filename,after',hsplit,WriterWorker.path_run _ _ _,?_⟩
    rw [hreceived, List.filterMap_append, hchunks, List.append_assoc]
    exact WriterWorker.written_run _ _ _ _
  · rw [hsound.engine id]
    exact List.prefix_append _ _
def heldChunk : List Move :=
  showOffer "x" ++ [.hear 0 ((SctpProtocolMessage.chunk 7 0 [1]).serialize.toOption.getD []),
    .turn (.frame (some .accept)),.turn .report,.turn .poll,.turn (.listen (yielding 2)),.turn (.listen (yielding 2)),
    .turn (.work 0 ⟨.ok 0, .ok⟩)]

/-- A chunk that comes in before the user accepts the file, and that the engine takes up afterwards, is written. -/
theorem chunk_before_consent_written : (run atHome heldChunk).log = [.heard 7 [1], .accepted 7 "x", .received 7 [1]] ∧
    ∃ t ∈ (run atHome heldChunk).peer.handler.threads, ∃ w, t.worker = .writer w ∧ t.id = 7 ∧ w.written = [1] := by
  refine ⟨by decide +kernel,?_⟩
  have hwritten : ((run atHome heldChunk).peer.handler.threads.map fun t => (t.id,t.worker)) =
      [(7, .writer { path := "./downloads/x".toList, written := [1] })] := by decide +kernel
  obtain ⟨t,ht,heq⟩ := List.mem_map.mp (hwritten ▸ List.mem_singleton_self _)
  obtain ⟨hid,hworker⟩ := Prod.mk.inj heq
  exact ⟨t,ht,_,hworker,hid,rfl⟩
end History
end RustyRtc.Files
