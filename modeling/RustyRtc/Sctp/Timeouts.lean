import RustyRtc.Sctp.Order

/-! # Transfers that fall silent

The receiver cancels every stream of the table that has been silent for ten seconds. The sender takes a stream out of
the table when this side ends the transfer, but nobody does when the peer ends it.
-/
namespace RustyRtc.Sctp
open SctpSession
variable {results : ℕ → WriteResult} {event : SctpEvents}

inductive Logged where
  | sent (m : SctpProtocolMessage)
  | received (m : SctpProtocolMessage)
  deriving DecidableEq

/-- Where a transfer stands. The end that takes the stream out of the table is told apart from the others. -/
inductive Status where
  | unknown
  | opened
  | endedHere
  | endedThere
  deriving DecidableEq, Repr

namespace Logged
def next (id : UInt32) (status : Status) : Logged → Status
  | .sent (.offer i _ _) | .sent (.accept i) | .received (.offer i _ _) | .received (.accept i) =>
    if i = id then .opened else status
  | .sent (.endFile i) | .sent (.cancel i) => if i = id then .endedHere else status
  | .sent (.reject i) | .received (.reject i) | .received (.cancel i) | .received (.endFile i) =>
    if i = id then .endedThere else status
  | .sent (.chunk ..) | .received (.chunk ..) => status

def Ends (entry : Logged) (id : UInt32) : Prop := entry.next id .opened ≠ .opened
instance (entry : Logged) (id : UInt32) : Decidable (entry.Ends id) := inferInstanceAs (Decidable (_ ≠ _))

variable {id : UInt32} {status : Status}
theorem next_ne_unknown (entry : Logged) (h : status ≠ .unknown) : entry.next id status ≠ .unknown := by
  unfold next
  split <;> first | assumption | (split <;> simp [h])
theorem next_received (m : SctpProtocolMessage) (h : status = .opened ∨ status = .endedThere) :
    next id status (.received m) = .opened ∨ next id status (.received m) = .endedThere := by
  cases m <;> unfold next <;> dsimp only <;> first | assumption | (split <;> simp [h])
theorem next_sent {m : SctpProtocolMessage} (hm : m ≠ .cancel id ∧ m ≠ .endFile id)
    (h : status = .opened ∨ status = .endedThere) :
    next id status (.sent m) = .opened ∨ next id status (.sent m) = .endedThere := by
  cases m <;> unfold next <;> dsimp only <;> first | assumption | (split <;> simp_all)
end Logged
def status (log : List Logged) (id : UInt32) : Status := log.foldl (Logged.next id) .unknown
@[simp] theorem status_concat (log : List Logged) (entry : Logged) (id : UInt32) :
    status (log ++ [entry]) id = entry.next id (status log id) := by
  simp [status]

namespace SctpSession
variable {s : SctpSession} {k : UInt32} {now : ℕ}

/-- A stream of the table is one whose transfer has just been opened, or was there before and is not taken out. -/
theorem mem_handle_streams (h : k ∈ (handle now results s event).streams) : event = .receivedAccept k ∨
      (∃ m ∈ s.messageOf event, ∀ st, (Logged.sent m).next k st = .opened) ∨
      (k ∈ s.streams ∧ ∀ m ∈ s.messageOf event, m ≠ .cancel k ∧ m ≠ .endFile k) := by
  rcases mem_streams_handle h with hopens | ⟨hold,hcloses⟩
  · cases event with
    | receivedAccept id => exact .inl (congrArg _ (Option.some.inj hopens))
    | sendOffer props | sendAccept id =>
      cases hopens
      exact .inr (.inl ⟨_,rfl,by simp [Logged.next]⟩)
    | _ => cases hopens
  · refine .inr (.inr ⟨hold,fun m hm => ?_⟩)
    cases event with
    | sendChunk fileId payload =>
      obtain ⟨stream,-,rfl⟩ := Option.map_eq_some_iff.mp hm
      simp
    | _ => cases hm <;> simpa [SctpEvents.closes] using hcloses

theorem handleChunkData_spec (now : ℕ) (data : Bytes) : (∀ k ∈ (handleChunkData now s data).streams, k ∈ s.streams) ∧
      ∃ new, (handleChunkData now s data).toSender = s.toSender ++ new ∧
        ∀ e ∈ new, ∃ id, e = .receivedAccept id ∧ SctpProtocolMessage.deserialize data = .ok (.accept id) := by
  obtain ⟨-,hsame⟩ | ⟨msg,streams,hmsg,hstreams,hroute⟩ := handleChunkData_cases now s data
  · rw [hsame]
    exact ⟨fun _ h => h,[],by simp⟩
  · rw [hroute]
    refine ⟨fun k => (hstreams k).mp,?_⟩
    cases msg with
    | accept id => exact ⟨[.receivedAccept id],by simp [route,SctpProtocolMessage.report,SctpEvents.forSender,hmsg]⟩
    | _ => exact ⟨[],by simp [route,SctpProtocolMessage.report,SctpEvents.forSender]⟩

theorem mem_of_mem_timedOutIds {streams : Table UInt32 SctpStream} (h : k ∈ timedOutIds now streams) : k ∈ streams := by
  obtain ⟨e,he,rfl⟩ := List.mem_map.mp h
  exact AList.mem_keys.mpr (List.mem_keys_of_mem (List.mem_of_mem_filter he))
end SctpSession

/-- The session, with the transfers that the waiting events of the timeout check are to cancel, and the messages so far. -/
@[ext] structure Transfers where
  session : SctpSession := {}
  /-- For each event that waits for the sender, the stream that fell silent, if the event comes from the check. -/
  timeouts : List (Option UInt32) := []
  log : List Logged := []

namespace Transfers
inductive Input where
  /-- The parent gives the router an event. -/
  | command (e : SctpEvents)
  | data (now : ℕ) (bytes : Bytes)
  | check (now : ℕ) (ids : Iteration UInt32)
  | sender (now : ℕ) (results : ℕ → WriteResult)
def logged (c : Transfers) : Input → Option Logged
  | .data _ bytes => (SctpProtocolMessage.deserialize bytes).toOption.map .received
  | .sender _ _ => (c.session.toSender.head?.bind c.session.messageOf).map .sent
  | _ => none
def after (c : Transfers) : Input → SctpSession
  -- what came in reaches the router from the receiver only
  | .command e => if e.forParent then c.session else c.session.route e
  | .data now bytes => c.session.handleChunkData now bytes
  | .check now ids => c.session.checkStreamTimeouts now ids
  | .sender now results => c.session.transmit now results

def timeoutsAfter (c : Transfers) : Input → List (Option UInt32)
  | .check now ids => c.timeouts ++ (ids.order (SctpSession.timedOutIds now c.session.streams)).map some
  | .sender _ _ => c.timeouts.tail
  | i => c.timeouts ++ List.replicate ((c.after i).toSender.length - c.session.toSender.length) none
def step (c : Transfers) (i : Input) : Transfers where
  session := c.after i
  timeouts := c.timeoutsAfter i
  log := c.log ++ (c.logged i).toList
def accepting (c : Transfers) : Option UInt32 := c.session.toSender.head?.bind fun
  | .receivedAccept id => some id
  | _ => none

/-- No transfer ends while a waiting Cancel of the check is for it. -/
def Undisturbed (c : Transfers) (i : Input) : Prop :=
  ∀ entry ∈ c.logged i, ∀ t ∈ c.timeoutsAfter i, ∀ id ∈ t, ¬ entry.Ends id

/-- The check finds no stream of a transfer that was rejected or that the peer has ended, and no acceptance is taken up
after this side has ended the transfer. -/
def Prompt (c : Transfers) : Input → Prop
  | .check now _ => ∀ id ∈ SctpSession.timedOutIds now c.session.streams, status c.log id ≠ .endedThere
  | .sender _ _ => ∀ id ∈ c.accepting, status c.log id ≠ .endedHere
  | _ => True
def Orderly (c : Transfers) (i : Input) : Prop := c.Undisturbed i ∧ c.Prompt i

/-- A Cancel that the sender takes up because of the check is for an open transfer. -/
def CancelsOpen (c : Transfers) : Input → Prop
  | .sender _ _ => ∀ t ∈ c.timeouts.head?, ∀ id ∈ t,
      c.session.toSender.head? = some (.sendCancel id) ∧ status c.log id = .opened
  | _ => True
def Origin (e : SctpEvents) (t : Option UInt32) : Prop := ∀ id, t = some id → e = .sendCancel id
structure Sound (c : Transfers) : Prop where
  aligned : List.Forall₂ Origin c.session.toSender c.timeouts
  table : ∀ id ∈ c.session.streams, status c.log id = .opened ∨ status c.log id = .endedThere
  waiting : ∀ id, some id ∈ c.timeouts → status c.log id = .opened
  accepted : ∀ id, .receivedAccept id ∈ c.session.toSender → status c.log id ≠ .unknown
theorem sound_start : Sound {} where
  aligned := .nil
  table := by simp
  waiting := by simp
  accepted := by simp
theorem aligned_none (new : List SctpEvents) : List.Forall₂ Origin new (List.replicate new.length none) := by
  induction new with
  | nil => exact .nil
  | cons e new ih => exact .cons nofun ih

section Log
variable {c : Transfers} {i : Input} {id : UInt32}
theorem waiting_step (hi : c.Orderly i) (ht : some id ∈ c.timeoutsAfter i) (hopen : status c.log id = .opened) :
    status (c.step i).log id = .opened := by
  rw [step]
  cases hentry : c.logged i with
  | none => simpa using hopen
  | some entry =>
    rw [Option.toList_some,status_concat,hopen]
    exact not_not.mp (hi.1 entry hentry _ ht id rfl)

theorem known_step (hid : status c.log id ≠ .unknown) : status (c.step i).log id ≠ .unknown := by
  rw [step]
  cases c.logged i with
  | none => simpa using hid
  | some entry =>
    rw [Option.toList_some,status_concat]
    exact entry.next_ne_unknown hid

theorem log_of_none (h : c.logged i = none) : (c.step i).log = c.log := by simp [step,h]
theorem log_of_some {entry : Logged} (h : c.logged i = some entry) : (c.step i).log = c.log ++ [entry] := by
  simp [step,h]
end Log

namespace Sound
variable {c : Transfers} (h : c.Sound)
include h

theorem of_appended {i : Input} {new : List SctpEvents} (hi : c.Orderly i)
    (hnew : (c.after i).toSender = c.session.toSender ++ new) (ht : c.timeoutsAfter i =
      c.timeouts ++ List.replicate ((c.after i).toSender.length - c.session.toSender.length) none)
    (htable : ∀ id ∈ (c.after i).streams, status (c.step i).log id = .opened ∨ status (c.step i).log id = .endedThere)
    (haccepted : ∀ id, .receivedAccept id ∈ new → status (c.step i).log id ≠ .unknown) : (c.step i).Sound := by
  have ht' : c.timeoutsAfter i = c.timeouts ++ List.replicate new.length none := by simp [ht,hnew]
  refine ⟨?_,htable,?_,?_⟩
  · change List.Forall₂ Origin (c.after i).toSender (c.timeoutsAfter i)
    rw [hnew,ht']
    exact List.rel_append h.aligned (aligned_none new)
  · intro id hid
    refine waiting_step hi hid (h.waiting id ?_)
    change some id ∈ c.timeoutsAfter i at hid
    simpa [ht'] using hid
  · intro id hid
    change _ ∈ (c.after i).toSender at hid
    rw [hnew,List.mem_append] at hid
    exact hid.elim (fun hold => known_step (h.accepted id hold)) (haccepted id)

theorem command (e : SctpEvents) (hi : c.Orderly (.command e)) : (c.step (.command e)).Sound := by
  have hlog : (c.step (.command e)).log = c.log := log_of_none rfl
  by_cases he : e.forParent = true
  · have hafter : c.after (.command e) = c.session := by simp [after,he]
    have hnew : (c.after (.command e)).toSender = c.session.toSender ++ [] := by simp [hafter]
    refine h.of_appended hi hnew rfl ?_ (by simp)
    rw [hafter,hlog]
    exact h.table
  · have hafter : c.after (.command e) = c.session.route e := by simp [after,he]
    have hnew : (c.after (.command e)).toSender = c.session.toSender ++ if e.forSender then [e] else [] := by
      rw [hafter,SctpSession.route]
      split <;> simp
    refine h.of_appended hi hnew rfl ?_ ?_
    · rw [hafter,hlog]
      exact h.table
    · intro id hid
      split at hid
      · obtain rfl := List.mem_singleton.mp hid
        exact absurd rfl he
      · exact absurd hid List.not_mem_nil

theorem data (now : ℕ) (bytes : Bytes) (hi : c.Orderly (.data now bytes)) : (c.step (.data now bytes)).Sound := by
  obtain ⟨hstreams,new,hnew,haccept⟩ := handleChunkData_spec (s := c.session) now bytes
  refine h.of_appended hi hnew rfl ?_ ?_
  · intro id hid
    have htable := h.table id (hstreams id hid)
    cases hentry : c.logged (.data now bytes) with
    | none => rwa [log_of_none hentry]
    | some entry =>
      obtain ⟨m,-,rfl⟩ := Option.map_eq_some_iff.mp hentry
      rw [log_of_some hentry,status_concat]
      exact Logged.next_received m htable
  · intro id hid
    obtain ⟨_,⟨⟩,hmsg⟩ := haccept _ hid
    have hentry : c.logged (.data now bytes) = some (.received (.accept id)) := by simp [logged,hmsg,Except.toOption]
    rw [log_of_some hentry,status_concat]
    simp [Logged.next]

theorem check (now : ℕ) (ids : Iteration UInt32) (hi : c.Orderly (.check now ids)) :
    (c.step (.check now ids)).Sound := by
  have hlog : (c.step (.check now ids)).log = c.log := log_of_none rfl
  have hsession : (c.step (.check now ids)).session = _ := checkStreamTimeouts_cancels now ids c.session
  have htimeouts : (c.step (.check now ids)).timeouts = c.timeouts ++ (ids.order _).map some := rfl
  refine ⟨?_,?_,?_,?_⟩
  · rw [hsession,htimeouts]
    refine List.rel_append h.aligned ?_
    rw [List.forall₂_map_left_iff,List.forall₂_map_right_iff,List.forall₂_same]
    rintro id - _ ⟨⟩
    rfl
  · rw [hlog,hsession]
    exact h.table
  · intro id hid
    refine waiting_step hi hid ?_
    rw [htimeouts,List.mem_append] at hid
    rcases hid with hold | hnew
    · exact h.waiting id hold
    · obtain ⟨_,hsilent,⟨⟩⟩ := List.mem_map.mp hnew
      have hsilent := (ids.perm _).mem_iff.mp hsilent
      exact (h.table id (mem_of_mem_timedOutIds hsilent)).resolve_right (hi.2 id hsilent)
  · intro id hid
    rw [hsession,List.mem_append] at hid
    rw [hlog]
    exact h.accepted id (hid.resolve_right (by simp))

theorem table_sender {now : ℕ} {rest : List SctpEvents}
    (hq : c.session.toSender = event :: rest) (hi : c.Orderly (.sender now results)) {id : UInt32}
    (hid : id ∈ (SctpSession.handle now results { c.session with toSender := rest } event).streams) :
    status (c.step (.sender now results)).log id = .opened ∨
      status (c.step (.sender now results)).log id = .endedThere := by
  have hlogged : c.logged (.sender now results) = (c.session.messageOf event).map .sent := by
    rw [logged,hq]
    rfl
  rcases mem_handle_streams hid with rfl | ⟨m,hm,hopens⟩ | ⟨hstream,hother⟩
  · -- the acceptance has been received, and this side has not ended the transfer since
    have hnone : c.logged (.sender now results) = none := hlogged
    rw [log_of_none hnone]
    have hknown := h.accepted id (by simp [hq])
    have hgoing : status c.log id ≠ .endedHere := hi.2 id (by simp [accepting,hq])
    cases hst : status c.log id with
    | unknown => exact absurd hst hknown
    | opened => exact .inl rfl
    | endedHere => exact absurd hst hgoing
    | endedThere => exact .inr rfl
  · have hentry : c.logged (.sender now results) = some (.sent m) := hlogged.trans (congrArg _ hm)
    rw [log_of_some hentry,status_concat,hopens]
    exact .inl rfl
  · have htable := h.table id hstream
    cases hm : c.session.messageOf event with
    | none =>
      rw [hm] at hlogged
      rwa [log_of_none hlogged]
    | some m =>
      rw [hm] at hlogged
      rw [log_of_some hlogged,status_concat]
      exact Logged.next_sent (hother m hm) htable

theorem sender (now : ℕ) (results : ℕ → WriteResult) (hi : c.Orderly (.sender now results)) :
    (c.step (.sender now results)).Sound := by
  have haligned := h.aligned
  cases hq : c.session.toSender with
  | nil =>
    have hsession : (c.step (.sender now results)).session = c.session := by
      simp only [step,after,SctpSession.transmit,hq]
    have hlog : (c.step (.sender now results)).log = c.log := log_of_none (by simp [logged,hq])
    have hnone : c.timeouts = [] := by
      rw [hq] at haligned
      exact List.forall₂_nil_left_iff.mp haligned
    have htimeouts : (c.step (.sender now results)).timeouts = c.timeouts := by simp [step,timeoutsAfter,hnone]
    rwa [Transfers.ext hsession htimeouts hlog]
  | cons event rest =>
    have hsession : (c.step (.sender now results)).session =
        SctpSession.handle now results { c.session with toSender := rest } event := by
      simp only [step,after,SctpSession.transmit,hq]
    have hqueue : (c.step (.sender now results)).session.toSender = rest := by
      rw [hsession,handle_toSender]
    refine ⟨?_,?_,?_,?_⟩
    · rw [hq] at haligned
      obtain ⟨t,ts,-,hrest,hts⟩ := List.forall₂_cons_left_iff.mp haligned
      have htimeouts : (c.step (.sender now results)).timeouts = ts := by simp [step,timeoutsAfter,hts]
      rwa [hqueue,htimeouts]
    · rw [hsession]
      exact fun id hid => h.table_sender hq hi hid
    · exact fun id hid => waiting_step hi hid (h.waiting id (List.mem_of_mem_tail hid))
    · intro id hid
      rw [hqueue] at hid
      exact known_step (h.accepted id (by simp [hq,hid]))

theorem step {i : Input} (hi : c.Orderly i) : (c.step i).Sound := by
  cases i with
  | command e => exact h.command e hi
  | data now bytes => exact h.data now bytes hi
  | check now ids => exact h.check now ids hi
  | sender now results => exact h.sender now results hi

theorem cancelsOpen (i : Input) : c.CancelsOpen i := by
  cases i with
  | sender now results =>
    rintro t ht id rfl
    have haligned := h.aligned
    obtain ⟨ts,hts⟩ := List.head?_eq_some_iff.mp ht
    rw [hts] at haligned
    obtain ⟨event,rest,horigin,-,hq⟩ := List.forall₂_cons_right_iff.mp haligned
    refine ⟨?_,h.waiting id (by simp [hts])⟩
    rw [hq,horigin id rfl,List.head?_cons]
  | _ => trivial
end Sound

/-- For every run of transfers in both directions, a transfer that the check cancels is open when its Cancel is sent,
if the run is orderly. -/
theorem cancels_open (inputs : List Input) (h : Along step Orderly {} inputs) : Along step CancelsOpen {} inputs :=
  h.imp_of_invariant (fun _ _ hs hi => hs.step hi) (fun _ i hs _ => hs.cancelsOpen i) sound_start

section Decidable
variable (c : Transfers)

-- the ids are too many to be gone through
instance decidableWaiting (p : UInt32 → Prop) [DecidablePred p] (l : List (Option UInt32)) :
    Decidable (∀ t ∈ l, ∀ id ∈ t, p id) :=
  @List.decidableBAll _ _ (fun t => Option.decidableForallMem t) l
instance : DecidablePred c.CancelsOpen
  | .sender _ _ => @Option.decidableForallMem _ _ (fun t => Option.decidableForallMem t) _
  | .command _ | .data _ _ | .check _ _ => isTrue trivial
instance : DecidablePred c.Undisturbed := fun _ =>
  @Option.decidableForallMem _ _ (fun _ => decidableWaiting _ _) _
instance : DecidablePred c.Prompt
  | .check _ _ => List.decidableBAll _ _
  | .sender _ _ => Option.decidableForallMem _
  | .command _ | .data _ _ => isTrue trivial
instance : DecidablePred c.Orderly := fun _ => inferInstanceAs (Decidable (_ ∧ _))
end Decidable
def silentPeer : List Input :=
  [.command (.sendOffer Sending.sampleProperties), .sender 0 fun _ => .written, .check 10001 .plain,
    .sender 10001 fun _ => .written]
theorem cancels_open_silentPeer : Along step CancelsOpen {} silentPeer ∧
    (silentPeer.foldl step {}).log = [.sent (.offer 7 "a" 1), .sent (.cancel 7)] := by
  refine ⟨?_,by decide +kernel⟩
  exact cancels_open silentPeer (by decide +kernel)

/-- A file is accepted and comes in to its end. Ten seconds later the check cancels it. -/
def completeDownload : List Input :=
  [.data 0 (SctpProtocolMessage.offer 7 "a" 1).encoded, .command (.sendAccept 7), .sender 1 fun _ => .written,
    .data 2 (SctpProtocolMessage.chunk 7 0 [65]).encoded, .data 3 (SctpProtocolMessage.endFile 7).encoded]

theorem finished_download_cancelled : ∃ inputs : List Input,
    (inputs.foldl step {}).log = [.received (.offer 7 "a" 1), .sent (.accept 7), .received (.chunk 7 0 [65]),
      .received (.endFile 7), .sent (.cancel 7)] ∧ ¬ Along step CancelsOpen {} inputs := by
  refine ⟨completeDownload ++ [.check 10003 .plain, .sender 10003 fun _ => .written],by decide +kernel,?_⟩
  decide +kernel
end Transfers
end RustyRtc.Sctp
