import RustyRtc.Files.Handshake
import RustyRtc.Foundation.Pipeline

/-! # An upload

The chunks of an offered file go from the reader to the listener, to the engine's queue, to the sender and to the
association. There are two gates: the engine passes chunks on while it has a session, the sender while the transfer
is in its table of streams. If every chunk the sender writes is taken, what has been sent is an initial part of what
has been read.
-/
namespace RustyRtc.Files
open Sctp FileHandler SctpSession
variable {file : Bytes} {chunks : List Bytes}
section Chunks
variable (id : UInt32)
def readChunkOf : FileHandlerEvents → Option Bytes
  | .readChunk id' payload => if id' = id then some payload else none
  | _ => none
def sendFileChunkOf : EngineEvent → Option Bytes
  | .sendFileChunk id' payload => if id' = id then some payload else none
  | _ => none
def sendChunkOf : SctpEvents → Option Bytes
  | .sendChunk id' payload => if id' = id then some payload else none
  | _ => none
end Chunks

/-- The chunks a reader has given out: parts of the file, and an empty one after the last. -/
def Emitted (file : Bytes) (chunks : List Bytes) : Prop :=
  ∃ parts : List Bytes, (∀ part ∈ parts, part ≠ [] ∧ part.length ≤ chunkSize) ∧
    (chunks = parts ∧ parts.flatten <+: file ∨ chunks = parts ++ [[]] ∧ parts.flatten = file)

theorem Emitted.length_le (h : Emitted file chunks) {chunk : Bytes}
    (hmem : chunk ∈ chunks) : chunk.length ≤ chunkSize := by
  obtain ⟨parts,hparts,⟨rfl,-⟩ | ⟨rfl,-⟩⟩ := h
  · exact (hparts chunk hmem).2
  · rcases List.mem_append.mp hmem with hmem | hmem
    · exact (hparts chunk hmem).2
    · simp [List.mem_singleton.mp hmem]

/-- An empty chunk comes after the whole file. -/
theorem Emitted.flatten_eq {taken : List Bytes} (h : Emitted file chunks)
    (htaken : taken <+: chunks) (hend : [] ∈ taken) : taken.flatten = file := by
  obtain ⟨parts,hparts,⟨rfl,-⟩ | ⟨rfl,hfile⟩⟩ := h
  · exact absurd rfl (hparts [] (htaken.subset hend)).1
  · rcases List.prefix_concat_iff.mp htaken with rfl | htaken
    · simpa using hfile
    · exact absurd rfl (hparts [] (htaken.subset hend)).1

namespace Peer
variable {s : SctpSession} {results : ℕ → WriteResult} {payload : Bytes}
def readAhead (id : UInt32) (p : Peer) : List Bytes :=
  p.events.filterMap (sendFileChunkOf id) ++ p.handler.rx.filterMap (readChunkOf id)
def toSend (id : UInt32) (p : Peer) : List Bytes := p.sctp.toSender.filterMap (sendChunkOf id)
def onStream (id : UInt32) (p : Peer) : List Bytes := p.sctp.stream0.filterMap (chunkIn id)

/-- The sender has the transfer in its table, or will have it before it comes to a chunk. -/
def Open (id : UInt32) (p : Peer) : Prop := id ∈ p.sctp.streams ∨ .receivedAccept id ∈ p.sctp.toSender

/-- `read` is what the reader has given out, `heard` what has come in on the other side. -/
structure Upload (c : Computer) (id : UInt32) (file : Bytes) (p : Peer) (read heard : List Bytes) : Prop where
  thread : ∀ t ∈ p.handler.threadsOf id, ∃ w, t.worker = .reader w ∧
    (w.running = true → (∀ chunk ∈ read, chunk ≠ []) ∧ read.flatten ++ w.rest = file)
  fresh : p.handler.threadsOf id = [] → read = []
  emitted : Emitted file read
  asked : ∀ path, .readFile path id ∈ p.handler.rx → c.disk path = .ok file
  noWriter : ∀ filename, .writeFile filename id ∉ p.handler.rx
  ahead : p.sctp.toSender.Pairwise fun x y => sendChunkOf id x ≠ none → y ≠ .receivedAccept id
  pending : ∀ msg ∈ p.sctp.pending, chunkOf id msg = none
  flows : Flows (heard ++ p.onStream id) [(p.Open id,p.toSend id),(p.session = true,p.readAhead id)] read

variable {c : Computer} {id : UInt32} {file : Bytes} {p : Peer} {read heard : List Bytes}

/-- Whatever the session becomes without a chunk of the transfer coming, going or getting past another. -/
theorem Upload.quiet (h : p.Upload c id file read heard) (hstream : s.stream0.filterMap (chunkIn id) = p.onStream id)
    (hsend : s.toSender.filterMap (sendChunkOf id) = p.toSend id)
    (hahead : s.toSender.Pairwise fun x y => sendChunkOf id x ≠ none → y ≠ .receivedAccept id)
    (hpending : ∀ msg ∈ s.pending, chunkOf id msg = none)
    (hopen : Open id { p with sctp := s } → p.Open id ∨ read = []) :
    Upload c id file { p with sctp := s } read heard := by
  refine ⟨h.thread,h.fresh,h.emitted,h.asked,h.noWriter,hahead,hpending,?_⟩
  change Flows (heard ++ s.stream0.filterMap (chunkIn id))
    [(Open id { p with sctp := s },s.toSender.filterMap (sendChunkOf id)),(p.session = true,p.readAhead id)] read
  rw [hstream,hsend]
  by_cases hread : read = []
  · subst hread
    obtain ⟨hnone,hheld⟩ := h.flows.eq_nil
    rw [hnone]
    exact Flows.of_held_eq_nil hheld
  · exact h.flows.close (.cons ⟨fun hnew => (hopen hnew).resolve_right hread,rfl⟩ (.cons ⟨fun h => h,rfl⟩ .nil))

theorem Upload.toSend_eq_nil (h : p.Upload c id file [] heard) : p.toSend id = [] :=
  (List.append_eq_nil_iff.mp h.flows.eq_nil.2).1

theorem Upload.queue (h : p.Upload c id file read heard) {events : List SctpEvents}
    (hstream : s.stream0 = p.sctp.stream0) (hpending : s.pending = p.sctp.pending)
    (hstreams : id ∈ s.streams → id ∈ p.sctp.streams) (hto : s.toSender = p.sctp.toSender ++ events)
    (hevents : ∀ event ∈ events, sendChunkOf id event = none ∧ (event = .receivedAccept id → read = [])) :
    Upload c id file { p with sctp := s } read heard := by
  have hnone : events.filterMap (sendChunkOf id) = [] :=
    List.filterMap_eq_nil_iff.mpr fun event hevent => (hevents event hevent).1
  refine h.quiet (by rw [hstream,onStream]) ?_ ?_ (hpending ▸ h.pending) ?_
  · rw [hto,List.filterMap_append,hnone,List.append_nil,toSend]
  · rw [hto]
    refine List.pairwise_append.mpr ⟨h.ahead,?_,fun x hx y hy hchunk heq => ?_⟩
    · exact List.Pairwise.imp_of_mem (R := fun _ _ => True) (fun hx _ _ hchunk => absurd (hevents _ hx).1 hchunk)
        (List.pairwise_of_forall fun _ _ => trivial)
    · obtain rfl := (hevents y hy).2 heq
      have hempty := h.toSend_eq_nil
      rw [toSend,List.filterMap_eq_nil_iff] at hempty
      exact hchunk (hempty x hx)
  · rintro (hmem | hmem)
    · exact .inl (.inl (hstreams hmem))
    · change _ ∈ s.toSender at hmem
      rw [hto] at hmem
      rcases List.mem_append.mp hmem with hmem | hmem
      · exact .inl (.inr hmem)
      · exact .inr ((hevents _ hmem).2 rfl)

theorem Upload.route (h : p.Upload c id file read heard) {event : SctpEvents} (streams : Table UInt32 SctpStream)
    (hstreams : id ∈ streams → id ∈ p.sctp.streams) (hchunk : sendChunkOf id event = none)
    (haccept : event = .receivedAccept id → read = []) :
    Upload c id file { p with sctp := SctpSession.route { p.sctp with streams := streams } event } read heard := by
  have hto : (SctpSession.route { p.sctp with streams := streams } event).toSender =
      p.sctp.toSender ++ if event.forSender then [event] else [] := by
    simp only [SctpSession.route]
    split <;> simp
  refine h.queue rfl rfl hstreams hto fun event' hmem => ?_
  split at hmem
  · rw [List.mem_singleton.mp hmem]
    exact ⟨hchunk,haccept⟩
  · simp at hmem

theorem quiet_sendMessage {msg : SctpProtocolMessage} (result : WriteResult)
    (hmsg : chunkOf id msg = none) (hpending : ∀ msg ∈ s.pending, chunkOf id msg = none) :
    (sendMessage result s msg).stream0.filterMap (chunkIn id) = s.stream0.filterMap (chunkIn id) ∧
      ∀ msg' ∈ (sendMessage result s msg).pending, chunkOf id msg' = none := by
  obtain ⟨data,hdata,⟨-,hs⟩ | ⟨-,hs⟩ | ⟨-,hs⟩⟩ := sendMessage_cases result s msg
  · rw [hs]
    exact ⟨by simp [chunkIn_eq_none hdata hmsg],hpending⟩
  · rw [hs]
    refine ⟨rfl,fun msg' hmem => ?_⟩
    rcases List.mem_append.mp hmem with hmem | hmem
    · exact hpending msg' hmem
    · rwa [List.mem_singleton.mp hmem]
  · rw [hs]
    exact ⟨rfl,hpending⟩

theorem quiet_flush (results : ℕ → WriteResult) (hpending : ∀ msg ∈ s.pending, chunkOf id msg = none) :
    (s.flush results).stream0.filterMap (chunkIn id) = s.stream0.filterMap (chunkIn id) ∧
      ∀ msg ∈ (s.flush results).pending, chunkOf id msg = none := by
  refine foldl_sendMessage (I := fun s' => s'.stream0.filterMap (chunkIn id) =
    s.stream0.filterMap (chunkIn id) ∧ ∀ msg ∈ s'.pending, chunkOf id msg = none) ⟨rfl,by simp⟩ ?_
  rintro s' ⟨msg,i⟩ hmem ⟨hstream,hrest⟩
  have hquiet := quiet_sendMessage (results i) (hpending msg (List.fst_mem_of_mem_zipIdx hmem)) hrest
  exact ⟨hquiet.1.trans hstream,hquiet.2⟩

theorem quiet_handle {event : SctpEvents} (now : ℕ) (results : ℕ → WriteResult) (hevent : sendChunkOf id event = none)
    (hpending : ∀ msg ∈ s.pending, chunkOf id msg = none) :
    (s.handle now results event).stream0.filterMap (chunkIn id) = s.stream0.filterMap (chunkIn id) ∧
      ∀ msg ∈ (s.handle now results event).pending, chunkOf id msg = none := by
  refine handle_cases (P := fun s' => s'.stream0.filterMap (chunkIn id) = s.stream0.filterMap (chunkIn id) ∧
    ∀ msg ∈ s'.pending, chunkOf id msg = none) now results s (fun _ => quiet_flush results hpending)
    (fun _ => ⟨rfl,hpending⟩) fun streams msg hmsg => ?_
  refine quiet_sendMessage (s := { s with streams := streams }) (results 0) ?_ hpending
  cases event with
  | sendChunk id' payload =>
    obtain ⟨_,-,rfl⟩ := Option.map_eq_some_iff.mp hmsg
    simpa [chunkOf,sendChunkOf] using hevent
  | _ => cases hmsg <;> rfl

theorem Upload.transmit_chunk (h : p.Upload c id file read heard) (now : ℕ)
    {rest : List SctpEvents} (hto : p.sctp.toSender = .sendChunk id payload :: rest)
    (hwrite : id ∈ p.sctp.streams → results 0 = .written) :
    (p.step c (.transmit now results)).Upload c id file read heard := by
  have hahead := h.ahead
  rw [hto,List.pairwise_cons] at hahead
  have hflows := h.flows
  have hchunks : p.toSend id = payload :: rest.filterMap (sendChunkOf id) := by simp [toSend,hto,sendChunkOf]
  rw [hchunks] at hflows
  simp only [Peer.step,SctpSession.transmit,hto]
  unfold SctpSession.handle
  dsimp only
  cases hlookup : p.sctp.streams.lookup id with
  | none =>
    have hnone : id ∉ p.sctp.streams := AList.lookup_eq_none.mp hlookup
    have hclosed : ¬ p.Open id := by
      rintro (hmem | hmem)
      · exact hnone hmem
      · rw [hto] at hmem
        rcases List.mem_cons.mp hmem with heq | hmem
        · cases heq
        · exact hahead.1 _ hmem (by simp [sendChunkOf]) rfl
    refine ⟨h.thread,h.fresh,h.emitted,h.asked,h.noWriter,hahead.2,h.pending,?_⟩
    refine (hflows.lose [] hclosed).close (.cons ⟨?_,rfl⟩ (.cons ⟨fun h => h,rfl⟩ .nil))
    rintro (hmem | hmem)
    · exact absurd hmem hnone
    · exact .inr (by rw [hto]; exact List.mem_cons_of_mem _ hmem)
  | some stream =>
    have hmem : id ∈ p.sctp.streams := Table.mem_iff.mpr ⟨_,hlookup⟩
    have hlength : payload.length < UInt32.size :=
      (h.emitted.length_le (hflows.held_subset (by simp))).trans_lt (by simp [chunkSize,UInt32.size])
    obtain ⟨tail,hdata⟩ := (SctpProtocolMessage.chunk id stream.nextSeq payload).serialize_eq
    simp only [hwrite hmem,sendMessage_written _ hdata]
    refine ⟨h.thread,h.fresh,h.emitted,h.asked,h.noWriter,hahead.2,h.pending,?_⟩
    simp only [onStream,List.filterMap_append,List.filterMap_cons,chunkIn_chunk hlength hdata,List.filterMap_nil]
    rw [← List.append_assoc]
    exact (hflows.leave (.inl hmem)).close (.cons ⟨fun _ => .inl hmem,rfl⟩ (.cons ⟨fun h => h,rfl⟩ .nil))

/-- The turn gives the association no chunk of the transfer that it does not take. -/
def ChunkWritten (id : UInt32) (p : Peer) : Turn → Prop
  | .transmit _ results =>
    (p.sctp.toSender.head?.bind (sendChunkOf id)).isSome = true → id ∈ p.sctp.streams → results 0 = .written
  | _ => True

/-- The sender's turn. An offer or an acceptance of the same id would open the gate again. -/
theorem Upload.transmit (h : p.Upload c id file read heard) {now : ℕ}
    (hopening : read ≠ [] → p.offersOut id = 0 ∧ p.acceptsOut id = 0)
    (hwritten : p.ChunkWritten id (.transmit now results)) :
    (p.step c (.transmit now results)).Upload c id file read heard := by
  rw [Peer.step,SctpSession.transmit]
  cases hto : p.sctp.toSender with
  | nil => exact h
  | cons event rest =>
    have hahead := h.ahead
    rw [hto,List.pairwise_cons] at hahead
    cases hevent : sendChunkOf id event with
    | some payload =>
      obtain rfl : event = .sendChunk id payload := by
        cases event <;> simp_all [sendChunkOf]
      have hchunk := h.transmit_chunk now hto (hwritten (by simp [hto,sendChunkOf]))
      rwa [Peer.step,SctpSession.transmit,hto] at hchunk
    | none =>
      -- any other event leaves the chunks alone
      obtain ⟨hstream,hpending⟩ := quiet_handle (s := { p.sctp with toSender := rest }) now results hevent h.pending
      refine h.quiet hstream ?_ (by rw [handle_toSender]; exact hahead.2) hpending ?_
      · rw [handle_toSender,toSend,hto,List.filterMap_cons,hevent]
      · rintro (hnew | hnew)
        · rcases mem_streams_handle hnew with hopens | ⟨hold,-⟩
          · cases event with
            | receivedAccept id' =>
              cases hopens
              exact .inl (.inr (by simp [hto]))
            | sendOffer props =>
              cases hopens
              refine .inr (by_contra fun hread => ?_)
              have hnone := (hopening hread).1
              simp [Peer.offersOut,outgoing,hto,isSendOffer] at hnone
            | sendAccept id' =>
              cases hopens
              refine .inr (by_contra fun hread => ?_)
              have hnone := (hopening hread).2
              simp [Peer.acceptsOut,outgoing,hto,isSendAccept] at hnone
            | _ => cases hopens
          · exact .inl (.inl hold)
        · rw [handle_toSender] at hnew
          exact .inl (.inr (by rw [hto]; exact List.mem_cons_of_mem _ hnew))

theorem Upload.hear (h : p.Upload c id file read heard) (now : ℕ) (data : Bytes)
    (haccept : carries (isAccept id) data = true → read = []) : (p.hear now data).Upload c id file read heard := by
  rw [Peer.hear]
  obtain ⟨-,hsame⟩ | ⟨msg,streams,hdata,hstreams,hroute⟩ := handleChunkData_cases now p.sctp data
  · rwa [hsame]
  have hcarries : carries (isAccept id) data = isAccept id msg := by simp [carries,hdata,Except.toOption]
  rw [hcarries] at haccept
  rw [hroute]
  refine h.route streams (hstreams id).mp ?_ fun heq => haccept ?_
  · cases msg <;> rfl
  · cases msg <;> simp_all [SctpProtocolMessage.report,isAccept]

theorem chunks_step (id : UInt32) (result : ReadResult) (w : ReaderWorker) :
    ((w.step id result).2.filterMap (readChunkOf id) = [] ∧ (w.step id result).1.rest = w.rest ∧
      ((w.step id result).1.running = true → w.running = true)) ∨
    ∃ payload, w.running = true ∧ .getChunk ∈ w.rxCmd ∧ (w.step id result).2.filterMap (readChunkOf id) = [payload] ∧
      payload ++ (w.step id result).1.rest = w.rest ∧ payload.length ≤ chunkSize ∧
      (payload = [] → w.rest = [] ∧ (w.step id result).1.running = false) := by
  rw [ReaderWorker.step]
  split
  · next hrunning =>
    split
    · exact .inl ⟨rfl,rfl,fun h => h⟩
    · exact .inl ⟨rfl,rfl,fun _ => hrunning⟩
    · next hcmd =>
      cases result with
      | err e => exact .inl ⟨rfl,rfl,fun h => h⟩
      | ok n =>
        have hsplit := w.buffer_append_drop n
        have hlength : (w.buffer n).length ≤ chunkSize := by
          rw [ReaderWorker.buffer,List.length_take]
          omega
        right
        refine ⟨w.buffer n,hrunning,by simp [hcmd],?_⟩
        cases hbuffer : w.buffer n with
        | nil => simp [readChunkOf,hbuffer,ReaderWorker.buffer_eq_nil_iff.mp hbuffer]
        | cons b payload =>
          rw [hbuffer] at hsplit hlength
          simpa [List.filterMap_cons,readChunkOf,hbuffer] using ⟨hsplit,hlength⟩
  · exact .inl ⟨rfl,rfl,fun h => h⟩

theorem emitted_append {rest rest' : Bytes} (hemitted : Emitted file read) (hread : ∀ chunk ∈ read, chunk ≠ [])
    (hrest : read.flatten ++ rest = file) (hsplit : payload ++ rest' = rest) (hlength : payload.length ≤ chunkSize)
    (hend : payload = [] → rest = []) : Emitted file (read ++ [payload]) := by
  have hparts : ∀ part ∈ read, part ≠ [] ∧ part.length ≤ chunkSize := fun part hpart =>
    ⟨hread part hpart,hemitted.length_le hpart⟩
  by_cases hpayload : payload = []
  · subst hpayload
    rw [hend rfl,List.append_nil] at hrest
    exact ⟨read,hparts, .inr ⟨rfl,hrest⟩⟩
  · refine ⟨read ++ [payload],?_, .inl ⟨rfl,rest',?_⟩⟩
    · simpa [or_imp,forall_and,hpayload,hlength] using hparts
    · rw [← hrest,← hsplit]
      simp

theorem Upload.work (h : p.Upload c id file read heard) (hone : p.handler.started id ≤ 1) (i : ℕ)
    (r : FileHandler.CallResult) :
    ∃ new, (p.step c (.work i r)).Upload c id file (read ++ new) heard ∧ (new ≠ [] → p.handler.Asked id) := by
  have hasked : ∀ path, .readFile path id ∈ (p.handler.work i r).rx → c.disk path = .ok file := fun path hmem =>
    h.asked path (mem_rx_of_work hmem fun _ => rfl)
  have hnoWriter : ∀ filename, .writeFile filename id ∉ (p.handler.work i r).rx := fun filename hmem =>
    h.noWriter filename (mem_rx_of_work hmem fun _ => rfl)
  rw [Peer.step]
  rcases work_single hone i r with ⟨hthreads,said,hrx,hsaid⟩ | ⟨t,ht,hafter,hrx⟩
  · have hothers : said.filterMap (readChunkOf id) = [] := by
      refine List.filterMap_eq_nil_iff.mpr fun event hevent => ?_
      obtain ⟨id',hne,hfrom⟩ := hsaid event hevent
      cases event <;> simp_all [fromWorker,readChunkOf]
    have hahead : readAhead id { p with handler := p.handler.work i r } = p.readAhead id := by
      simp [readAhead,hrx,hothers]
    refine ⟨[],?_,by simp⟩
    rw [List.append_nil]
    refine ⟨hthreads ▸ h.thread,hthreads ▸ h.fresh,h.emitted,hasked,hnoWriter,h.ahead,h.pending,?_⟩
    rw [hahead]
    exact h.flows
  · have hmem : t ∈ p.handler.threadsOf id := by simp [ht]
    have hid : t.id = id := of_decide_eq_true (List.mem_filter.mp hmem).2
    obtain ⟨w,hw,hrest⟩ := h.thread t hmem
    have hstep : FileHandler.step (r.of t) t =
        (.reader (w.step id (r.of t).read).1,(w.step id (r.of t).read).2) := by
      rw [FileHandler.step,hw,hid]
    rw [hstep] at hafter hrx
    have hahead : readAhead id { p with handler := p.handler.work i r } =
        p.readAhead id ++ (w.step id (r.of t).read).2.filterMap (readChunkOf id) := by
      simp [readAhead,hrx]
    rcases chunks_step id (r.of t).read w with ⟨hnone,hsame,hrun⟩ | ⟨payload,hrunning,hcmd,hpayload,hsplit,hlength,hend⟩
    · refine ⟨[],?_,by simp⟩
      rw [List.append_nil]
      refine ⟨?_,by simp [hafter],h.emitted,hasked,hnoWriter,h.ahead,h.pending,?_⟩
      · simpa [hafter,hsame] using fun h => hrest (hrun h)
      · rw [hahead,hnone,List.append_nil]
        exact h.flows
    · obtain ⟨hread,hfile⟩ := hrest hrunning
      refine ⟨[payload],⟨?_,by simp [hafter],?_,hasked,hnoWriter,h.ahead,h.pending,?_⟩,fun _ => ?_⟩
      · simp only [hafter,List.mem_singleton,forall_eq]
        refine ⟨_,rfl,fun hrun => ⟨?_,?_⟩⟩
        · simpa [or_imp,forall_and] using ⟨hread,fun hempty => by simp [(hend hempty).2] at hrun⟩
        · rw [← hfile,← hsplit]
          simp
      · exact emitted_append h.emitted hread hfile hsplit hlength fun hempty => (hend hempty).1
      · rw [hahead,hpayload]
        exact h.flows.push [_]
      · exact .inr (.inr ⟨t,hmem,by simpa [Thread.waiting,hw] using hcmd⟩)

theorem chunks_handle (h : FileHandler) (w : Surroundings) (event : FileHandlerEvents) :
    (h.handle c w event).2.filterMap (sendFileChunkOf id) = (readChunkOf id event).toList := by
  cases event with
  | readFile path id' =>
    simp only [FileHandler.handle,FileHandler.readFile]
    cases c.disk path <;> rfl
  | readChunk id' payload =>
    by_cases hid : id' = id <;> simp [FileHandler.handle,sendFileChunkOf,readChunkOf,hid]
  | _ => rfl

theorem Upload.listen (h : p.Upload c id file read heard) (hone : p.handler.started id ≤ 1) (w : Surroundings) :
    (p.step c (.listen w)).Upload c id file read heard := by
  rw [Peer.step,FileHandler.listen]
  cases hrx : p.handler.rx with
  | nil => simpa using h
  | cons event rest =>
    let h' : FileHandler := { p.handler with rx := rest }
    have hthreads := threadsOf_handle (c := c) (h := h') w (threadsOf_eq_nil hone hrx)
    have hasked := h.asked
    have hnoWriter := h.noWriter
    rw [hrx] at hasked hnoWriter
    have hahead : readAhead id { p with
        handler := (h'.handle c w event).1
        events := p.events ++ (h'.handle c w event).2 } = p.readAhead id := by
      have hkept : (h'.handle c w event).1.rx.filterMap (readChunkOf id) = rest.filterMap (readChunkOf id) :=
        filterMap_rx_handle c (fun _ => rfl) w h' event
      simp only [readAhead,List.filterMap_append,chunks_handle,hkept,hrx,List.append_assoc]
      rw [List.filterMap_cons]
      cases readChunkOf id event <;> rfl
    refine ⟨?_,?_,h.emitted,?_,?_,h.ahead,h.pending,by rw [hahead]; exact h.flows⟩
    · intro t ht
      rw [hthreads] at ht
      rcases List.mem_append.mp ht with ht | ht
      · obtain ⟨t,hmem,rfl⟩ := List.mem_map.mp ht
        obtain ⟨w,hw,hrest⟩ := h.thread t hmem
        obtain ⟨commands,hw',-⟩ := told_reader hw
        exact ⟨_,hw',hrest⟩
      · obtain ⟨hspawned,rfl⟩ := mem_created.mp ht
        obtain ⟨path,id,file',rfl,hdisk,rfl⟩ | ⟨filename,id,rfl,rfl⟩ := spawned_cases hspawned
        · have hread := h.fresh (threadsOf_eq_nil hone hrx (by simp [isReadFile]))
          obtain rfl := Except.ok.inj (hdisk.symm.trans (hasked path (by simp)))
          exact ⟨_,rfl,by simp [hread,ReaderWorker.new]⟩
        · exact absurd (by simp) (hnoWriter filename)
    · intro hnone
      rw [hthreads] at hnone
      exact h.fresh (List.map_eq_nil_iff.mp (List.append_eq_nil_iff.mp hnone).1)
    · exact fun path hmem => hasked path (List.mem_cons_of_mem _ (mem_rx_of_handle c hmem (by simp)))
    · exact fun filename hmem =>
        hnoWriter filename (List.mem_cons_of_mem _ (mem_rx_of_handle c hmem (by simp)))

theorem Upload.report (h : p.Upload c id file read heard) : (p.step c .report).Upload c id file read heard := by
  rw [Peer.step,Peer.report]
  cases hparent : p.sctp.toParent with
  | nil => exact h
  | cons event rest =>
    have hfrom := p.sctp.forParent_of_mem event (by simp [hparent])
    have hnone : (engineEvent event).toList.filterMap (sendFileChunkOf id) = [] := by
      cases event <;> simp_all [engineEvent,sendFileChunkOf,SctpEvents.forParent]
    have hahead : readAhead id { p with
        sctp := p.sctp.nextForParent
        events := p.events ++ (engineEvent event).toList } = p.readAhead id := by
      simp [readAhead,hnone]
    exact ⟨h.thread,h.fresh,h.emitted,h.asked,h.noWriter,h.ahead,h.pending,by rw [hahead]; exact h.flows⟩

theorem chunks_request (id : UInt32) (p : Peer) (t : Turn) :
    ((p.request t).session.bind (sendChunkOf id)).toList ++ (p.eventsAfter t).filterMap (sendFileChunkOf id) =
      p.events.filterMap (sendFileChunkOf id) := by
  conv_rhs => rw [p.events_eq t,List.filterMap_append]
  refine congrArg (· ++ _) ?_
  cases p.request t with
  | pass event =>
    cases event with
    | sendFileChunk id' payload =>
      by_cases hid : id' = id <;> simp [Request.session,Request.passed,sendChunkOf,sendFileChunkOf,hid]
    | _ => rfl
  | press button => cases button <;> rfl
  | _ => rfl

/-- The session's share: its gate lets a chunk through to the sender, or it is lost. -/
theorem Upload.pass (h : p.Upload c id file read heard) {event : Option SctpEvents} {events : List EngineEvent}
    (hevent : event ≠ some (.receivedAccept id))
    (hevents : (event.bind (sendChunkOf id)).toList ++ events.filterMap (sendFileChunkOf id) =
      p.events.filterMap (sendFileChunkOf id)) : Upload c id file
      { p with sctp := if p.session then event.elim p.sctp p.sctp.route else p.sctp, events := events } read heard := by
  cases hchunk : event.bind (sendChunkOf id) with
  | none =>
    have hafter : Upload c id file { p with sctp := if p.session then event.elim p.sctp p.sctp.route else p.sctp }
        read heard := by
      split
      · cases event with
        | none => exact h
        | some event => exact h.route p.sctp.streams (fun hmem => hmem) hchunk fun heq => absurd (by rw [heq]) hevent
      · exact h
    rw [hchunk] at hevents
    refine ⟨h.thread,h.fresh,h.emitted,h.asked,h.noWriter,hafter.ahead,hafter.pending,?_⟩
    have hflows := hafter.flows
    rw [readAhead,← hevents] at hflows
    exact hflows
  | some payload =>
    obtain rfl : event = some (.sendChunk id payload) := by
      obtain ⟨event,rfl,hpayload⟩ := Option.bind_eq_some_iff.mp hchunk
      cases event <;> simp_all [sendChunkOf]
    have hahead : p.readAhead id = payload :: readAhead id { p with events := events } := by
      rw [readAhead,← hevents,hchunk]
      rfl
    have hflows := h.flows
    rw [hahead] at hflows
    split
    · next hsession =>
      refine ⟨h.thread,h.fresh,h.emitted,h.asked,h.noWriter,?_,h.pending,?_⟩
      · exact List.pairwise_append.mpr ⟨h.ahead,by simp,by simp⟩
      · have hsend : p.toSend id ++ [payload] = (p.sctp.route (.sendChunk id payload)).toSender.filterMap (sendChunkOf id) := by
          simp [toSend,SctpSession.route,SctpEvents.forSender,sendChunkOf]
        refine (hflows.pass [] hsession).close (.cons ⟨?_,hsend⟩ (.cons ⟨fun h => h,rfl⟩ .nil))
        rintro (hmem | hmem)
        · exact .inl hmem
        · exact .inr ((List.mem_append.mp hmem).resolve_right (by simp))
    · next hsession => exact ⟨h.thread,h.fresh,h.emitted,h.asked,h.noWriter,h.ahead,h.pending,hflows.lose [_] hsession⟩

theorem Upload.ask (h : p.Upload c id file read heard) {t : Turn} (ht : t.asks = true) (hin : p.offersIn id = 0)
    (hdisk : ∀ input, t = .frame (some (.sendFile input id)) → c.disk (trim input) = .ok file) :
    (p.step c t).Upload c id file read heard := by
  obtain ⟨out,s,r,state,d,hstep⟩ := (step_eq_ask (p := p) c ht).eq
  have hchunks := chunks_request id p t
  have hoffer := (counts_ask (c := c) id p ht).2.1
  have hlistener : ∀ event, (p.request t).listener = some event → readChunkOf id event = none ∧
      (∀ filename, event ≠ .writeFile filename id) ∧ ∀ path, event = .readFile path id → c.disk path = .ok file := by
    intro event hevent
    have hasks := p.asks_request t
    generalize p.request t = r at hevent hasks hoffer
    cases r with
    | pass event' => cases event' <;> cases hevent <;> simp [readChunkOf]
    | drainChunks => cases hevent; simp [readChunkOf]
    | none => cases hevent
    | press button =>
      cases button with
      | send path id' =>
        cases hevent
        obtain ⟨input,rfl,rfl⟩ := hasks.send
        refine ⟨rfl,by simp,fun path hpath => ?_⟩
        obtain ⟨rfl,rfl⟩ := FileHandlerEvents.readFile.inj hpath
        exact hdisk input rfl
      | accept props =>
        cases hevent
        refine ⟨rfl,fun filename hname => ?_,by simp⟩
        simp [Request.offer,isReceivedFileOffer,(FileHandlerEvents.writeFile.inj hname).2] at hoffer
        omega
      | reject _ | cancel _ _ => cases hevent <;> simp [readChunkOf]
  have hpass := h.pass (fun heq => by cases Request.forParent_session heq) hchunks
  refine ⟨?_,?_,h.emitted,?_,?_,?_,?_,?_⟩
  · rw [handler_step c ht]
    exact h.thread
  · rw [handler_step c ht]
    exact h.fresh
  · exact fun path hmem => (mem_rx_step ht hmem).elim (h.asked path) fun hnew => (hlistener _ hnew).2.2 path rfl
  · exact fun filename hmem =>
      (mem_rx_step ht hmem).elim (h.noWriter filename) fun hnew => (hlistener _ hnew).2.1 filename rfl
  · rw [hstep]
    exact hpass.ahead
  · rw [hstep]
    exact hpass.pending
  · have hflows := hpass.flows
    rw [hstep]
    rw [readAhead] at hflows ⊢
    have hquiet : (if p.fileHandler then (p.request t).listener.toList else []).filterMap (readChunkOf id) = [] := by
      split
      · exact List.filterMap_eq_nil_iff.mpr fun event hmem => (hlistener event (Option.mem_toList.mp hmem)).1
      · rfl
    rw [handler_ask]
    dsimp only
    rw [List.filterMap_append,hquiet,List.append_nil]
    exact hflows

theorem Upload.stop (h : p.Upload c id file read heard) : (p.step c .stop).Upload c id file read heard := by
  rw [Peer.step,Peer.stop]
  split
  · refine ⟨?_,?_,h.emitted,h.asked,h.noWriter,h.ahead,h.pending,h.flows⟩
    · intro t' ht'
      rw [threadsOf_shutdown] at ht'
      obtain ⟨t,ht,rfl⟩ := List.mem_map.mp ht'
      obtain ⟨w,hw,hrest⟩ := h.thread t ht
      obtain ⟨commands,hw',-⟩ := told_reader hw
      exact ⟨_,hw',hrest⟩
    · intro hnone
      rw [threadsOf_shutdown] at hnone
      exact h.fresh (List.map_eq_nil_iff.mp hnone)
  · exact h

theorem Upload.step (h : p.Upload c id file read heard) {t : Turn} (hone : p.handler.started id ≤ 1)
    (hin : p.offersIn id = 0) (hopening : read ≠ [] → p.offersOut id = 0 ∧ p.acceptsOut id = 0)
    (hdisk : ∀ input, t = .frame (some (.sendFile input id)) → c.disk (trim input) = .ok file)
    (hwritten : p.ChunkWritten id t) :
    ∃ new, (p.step c t).Upload c id file (read ++ new) heard ∧ (new ≠ [] → p.handler.Asked id) := by
  have hquiet : (p.step c t).Upload c id file read heard →
      ∃ new, (p.step c t).Upload c id file (read ++ new) heard ∧ (new ≠ [] → p.handler.Asked id) :=
    fun hafter => ⟨[],by simpa using hafter,by simp⟩
  cases t with
  | listen w => exact hquiet (h.listen hone w)
  | work i r => exact h.work hone i r
  | transmit now results => exact hquiet (h.transmit hopening hwritten)
  | checkTimeouts now ids =>
    obtain ⟨silent,hsilent⟩ := checkStreamTimeouts_eq now ids p.sctp
    rw [Peer.step,hsilent] at hquiet ⊢
    exact hquiet (h.queue rfl rfl (fun hmem => hmem) rfl (by simp [sendChunkOf]))
  | connected => exact hquiet (h.route p.sctp.streams (fun hmem => hmem) rfl (by simp))
  | report => exact hquiet h.report
  | poll | drain _ | frame _ => exact hquiet (h.ask rfl hin hdisk)
  | stop => exact hquiet h.stop
  | close =>
    refine hquiet ⟨h.thread,h.fresh,h.emitted,h.asked,h.noWriter,h.ahead,h.pending,?_⟩
    exact h.flows.close (.cons ⟨fun h => h,rfl⟩ (.cons ⟨fun hopen => absurd hopen (by simp [Peer.step,closeSession]),rfl⟩ .nil))

theorem Upload.delivered (h : p.Upload c id file read heard) {data : Bytes} {rest : List Bytes}
    (hdata : p.sctp.stream0 = data :: rest) :
    Upload c id file { p with sctp := { p.sctp with stream0 := rest } } read (heard ++ (chunkIn id data).toList) := by
  refine ⟨h.thread,h.fresh,h.emitted,h.asked,h.noWriter,h.ahead,h.pending,?_⟩
  have hstream : (chunkIn id data).toList ++ rest.filterMap (chunkIn id) = p.onStream id := by
    rw [onStream,hdata,List.filterMap_cons]
    cases chunkIn id data <;> rfl
  change Flows (heard ++ _ ++ rest.filterMap (chunkIn id)) _ read
  rw [List.append_assoc,hstream]
  exact h.flows
end Peer
end RustyRtc.Files
