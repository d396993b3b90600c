import RustyRtc.Foundation.Bytes
import RustyRtc.Foundation.Execution

/-! # The channel under the DTLS stream

`dtls/buffered_udp_channel`: datagrams that the socket would not take wait in a queue, and in manual mode the bytes to
read are pushed in by hand. What the socket says to each attempt is an input. A datagram the socket takes is
taken whole.
-/
namespace RustyRtc.Dtls
inductive IoError where
  | wouldBlock
  | other (e : String)
  deriving DecidableEq, Repr
inductive SendResult where
  | sent
  | wouldBlock
  | err (e : String)
  deriving DecidableEq, Repr

/-- `recv_from`: a datagram, and whether it is from the peer. -/
inductive RecvResult where
  | datagram (data : Bytes) (fromPeer : Bool)
  | wouldBlock
  | err (e : String)
  deriving DecidableEq, Repr

/-- `reader` is what the cursor has not given out yet, `sent` what the socket has taken. -/
structure BufferedUdpChannel where
  reader : Bytes := []
  incomingQueue : Bytes := []
  manualMode : Bool := false
  outgoingQueue : List Bytes := []
  sent : List Bytes := []
  deriving DecidableEq, Repr

namespace BufferedUdpChannel
variable {data : Bytes} {rest : List Bytes} {bufLen : ℕ}
def setManualMode (ch : BufferedUdpChannel) (manual : Bool) : BufferedUdpChannel := { ch with manualMode := manual }
def pushIncoming (ch : BufferedUdpChannel) (data : Bytes) : BufferedUdpChannel :=
  { ch with incomingQueue := ch.incomingQueue ++ data }
def hasPendingWrites (ch : BufferedUdpChannel) : Bool := !ch.outgoingQueue.isEmpty
def recvBufSize : ℕ := 65535

/-- The loop over the socket. One that has nothing more to say would block. -/
def readSocket (ch : BufferedUdpChannel) (bufLen : ℕ) : List RecvResult → BufferedUdpChannel × Except IoError Bytes
  | .datagram _ false :: results => readSocket ch bufLen results
  | .datagram data true :: _ =>
    let packet := data.take recvBufSize
    ({ ch with reader := packet.drop bufLen }, .ok (packet.take bufLen))
  | .err e :: _ => (ch, .error (.other e))
  | .wouldBlock :: _ | [] => (ch, .error .wouldBlock)

def read (ch : BufferedUdpChannel) (bufLen : ℕ) (results : List RecvResult) :
    BufferedUdpChannel × Except IoError Bytes :=
  if ch.reader ≠ [] then ({ ch with reader := ch.reader.drop bufLen }, .ok (ch.reader.take bufLen))
  else if ch.manualMode then
    if ch.incomingQueue.isEmpty then (ch, .error .wouldBlock)
    else
      let amt := min bufLen ch.incomingQueue.length
      ({ ch with incomingQueue := ch.incomingQueue.drop amt }, .ok (ch.incomingQueue.take amt))
  else ch.readSocket bufLen results

def write (ch : BufferedUdpChannel) (result : SendResult) (buf : Bytes) : BufferedUdpChannel × Except IoError ℕ :=
  if !ch.outgoingQueue.isEmpty then ({ ch with outgoingQueue := ch.outgoingQueue ++ [buf] }, .ok buf.length)
  else
    match result with
    | .sent => ({ ch with sent := ch.sent ++ [buf] }, .ok buf.length)
    | .wouldBlock => ({ ch with outgoingQueue := ch.outgoingQueue ++ [buf] }, .ok buf.length)
    | .err e => (ch, .error (.other e))

/-- The loop of `flush`: the packets that are sent, those that stay, and the answer. -/
def flushQueue (results : ℕ → SendResult) : List Bytes → List Bytes × List Bytes × Except IoError Unit
  | [] => ([],[], .ok ())
  | packet :: rest =>
    match results 0 with
    | .sent =>
      let (sent,queue,answer) := flushQueue (fun i => results (i + 1)) rest
      (packet :: sent,queue,answer)
    | .wouldBlock => ([],packet :: rest, .ok ())
    | .err e => ([],packet :: rest, .error (.other e))

def flush (ch : BufferedUdpChannel) (results : ℕ → SendResult) : BufferedUdpChannel × Except IoError Unit :=
  let (sent,queue,answer) := flushQueue results ch.outgoingQueue
  ({ ch with sent := ch.sent ++ sent, outgoingQueue := queue },answer)

theorem flushQueue_append (results : ℕ → SendResult) (queue : List Bytes) :
    (flushQueue results queue).1 ++ (flushQueue results queue).2.1 = queue := by
  induction queue generalizing results with
  | nil => rfl
  | cons packet rest ih =>
    rw [flushQueue]
    cases results 0 with
    | sent => exact congrArg (packet :: ·) (ih _)
    | wouldBlock => rfl
    | err e => rfl

inductive Call where
  | write (buf : Bytes) (result : SendResult)
  | flush (results : ℕ → SendResult)
  | read (bufLen : ℕ) (results : List RecvResult)
  | pushIncoming (data : Bytes)
  | setManualMode (manual : Bool)
inductive Answer where
  | wrote (r : Except IoError ℕ)
  | flushed (r : Except IoError Unit)
  | read (r : Except IoError Bytes)
  | done
def step (ch : BufferedUdpChannel) : Call → BufferedUdpChannel × Answer
  | .write buf result => let (ch,r) := ch.write result buf; (ch, .wrote r)
  | .flush results => let (ch,r) := ch.flush results; (ch, .flushed r)
  | .read bufLen results => let (ch,r) := ch.read bufLen results; (ch, .read r)
  | .pushIncoming data => (ch.pushIncoming data, .done)
  | .setManualMode manual => (ch.setManualMode manual, .done)
def run (ch : BufferedUdpChannel) (calls : List Call) : BufferedUdpChannel :=
  calls.foldl (fun ch call => (step ch call).1) ch
def accepted : Call × Answer → Option Bytes
  | (.write buf _, .wrote (.ok _)) => some buf
  | _ => none
def outgoing (ch : BufferedUdpChannel) : List Bytes := ch.sent ++ ch.outgoingQueue

theorem outgoing_write (ch : BufferedUdpChannel) (result : SendResult) (buf : Bytes) :
    (ch.write result buf).1.outgoing = ch.outgoing ++ (accepted (.write buf result, .wrote (ch.write result buf).2)).toList := by
  unfold write
  split
  · simp [outgoing,accepted]
  · next hempty =>
    have hqueue : ch.outgoingQueue = [] := by simpa using hempty
    cases result <;> simp [outgoing,accepted,hqueue]

theorem outgoing_read (ch : BufferedUdpChannel) (bufLen : ℕ) (results : List RecvResult) :
    (ch.read bufLen results).1.outgoing = ch.outgoing := by
  have hsocket : (ch.readSocket bufLen results).1.outgoing = ch.outgoing := by
    fun_induction readSocket ch bufLen results with
    | case1 data results ih => exact ih
    | _ => rfl
  unfold read
  split_ifs
  · rfl
  · rfl
  · rfl
  · exact hsocket

theorem outgoing_step (ch : BufferedUdpChannel) (call : Call) :
    (ch.step call).1.outgoing = ch.outgoing ++ (accepted (call,(ch.step call).2)).toList := by
  cases call with
  | write buf result => exact outgoing_write ch result buf
  | flush results =>
    have hkept := flushQueue_append results ch.outgoingQueue
    simp [step,flush,outgoing,accepted,hkept]
  | read bufLen results => simpa [step,accepted] using outgoing_read ch bufLen results
  | pushIncoming data | setManualMode manual => exact (List.append_nil _).symm

/-- Whatever the socket says, the datagrams it has taken and those in the queue are together the buffers that
were accepted, each of them once and whole, in their order. -/
theorem sent_append_outgoingQueue (calls : List Call) :
    (run {} calls).sent ++ (run {} calls).outgoingQueue = (calls.zip (answers step {} calls)).filterMap accepted := by
  suffices h : ∀ ch : BufferedUdpChannel,
      (run ch calls).outgoing = ch.outgoing ++ (calls.zip (answers step ch calls)).filterMap accepted from h {}
  induction calls with
  | nil => exact fun ch => (List.append_nil _).symm
  | cons call calls ih =>
    intro ch
    calc (run ch (call :: calls)).outgoing
        = (ch.step call).1.outgoing ++ (calls.zip (answers step (ch.step call).1 calls)).filterMap accepted :=
          ih (ch.step call).1
      _ = ch.outgoing ++ ((accepted (call,(ch.step call).2)).toList ++
            (calls.zip (answers step (ch.step call).1 calls)).filterMap accepted) := by
          rw [outgoing_step, List.append_assoc]
      _ = ch.outgoing ++ ((call :: calls).zip (answers step ch (call :: calls))).filterMap accepted := by
          simp only [answers,List.zip_cons_cons,List.filterMap_cons]
          cases accepted (call,(ch.step call).2) <;> rfl

inductive Incoming where
  | push (data : Bytes)
  | read (bufLen : ℕ)
  deriving DecidableEq, Repr
def incoming (ch : BufferedUdpChannel) : Incoming → BufferedUdpChannel × Option (Except IoError Bytes)
  | .push data => (ch.pushIncoming data,none)
  | .read bufLen => let (ch,r) := ch.read bufLen []; (ch,some r)

/-- A queue of datagrams, as the channel is meant to be one: a read takes the oldest. An empty datagram leaves
nothing to read. -/
def mailbox (waiting : List Bytes) : Incoming → List Bytes × Option (Except IoError Bytes)
  | .push data => (if data.isEmpty then waiting else waiting ++ [data],none)
  | .read _ =>
    match waiting with
    | [] => ([],some (.error .wouldBlock))
    | data :: rest => (rest,some (.ok data))

/-- A read that finds more than one datagram has a buffer that the first one fills. -/
def Separate (waiting : List Bytes) : Incoming → Prop
  | .push _ => True
  | .read bufLen => waiting.length ≤ 1 ∨ waiting.head?.map List.length = some bufLen
instance (waiting : List Bytes) : DecidablePred (Separate waiting)
  | .push _ => isTrue trivial
  | .read _ => inferInstanceAs (Decidable (_ ∨ _))
structure Holds (waiting : List Bytes) (ch : BufferedUdpChannel) : Prop where
  manualMode : ch.manualMode = true
  reader : ch.reader = []
  bytes : ch.incomingQueue = waiting.flatten
  nonempty : ∀ data ∈ waiting, data ≠ []

variable {waiting : List Bytes} {ch : BufferedUdpChannel}
theorem Holds.push (h : Holds waiting ch) (data : Bytes) : Holds (mailbox waiting (.push data)).1 (ch.pushIncoming data) := by
  cases data with
  | nil => exact ⟨h.manualMode,h.reader,by simpa [mailbox,pushIncoming] using h.bytes,h.nonempty⟩
  | cons b data =>
    refine ⟨h.manualMode,h.reader,?_,?_⟩
    · simp [mailbox,pushIncoming,h.bytes]
    · simpa [mailbox,or_imp,forall_and] using h.nonempty

theorem Holds.read_nil (h : Holds [] ch) (bufLen : ℕ) : ch.read bufLen [] = (ch, .error .wouldBlock) := by
  simp [read,h.manualMode,h.reader,h.bytes]

theorem Holds.read_cons (h : Holds (data :: rest) ch) (bufLen : ℕ) :
    ch.read bufLen [] = ({ ch with incomingQueue := (data ++ rest.flatten).drop bufLen },
      .ok ((data ++ rest.flatten).take bufLen)) := by
  have hbytes : ch.incomingQueue = data ++ rest.flatten := h.bytes
  have hsome : ch.incomingQueue.isEmpty = false := by simp [hbytes,h.nonempty data (by simp)]
  have hdrop : (data ++ rest.flatten).drop (min bufLen (data ++ rest.flatten).length) =
      (data ++ rest.flatten).drop bufLen := by
    rcases Nat.le_total bufLen (data ++ rest.flatten).length with hle | hle
    · rw [Nat.min_eq_left hle]
    · rw [Nat.min_eq_right hle,List.drop_length,List.drop_eq_nil_of_le hle]
  simp only [read,h.reader,h.manualMode,hsome,ne_eq,not_true_eq_false,if_false,if_true,Bool.false_eq_true]
  rw [hbytes,hdrop,← List.take_eq_take_min]

/-- A read into a buffer that is large enough gives the first datagram, and no more, if it is the only one or
fills the buffer. -/
theorem Holds.take_eq_iff (h : Holds (data :: rest) ch) (hfits : data.length ≤ bufLen) :
    (data ++ rest.flatten).take bufLen = data ↔ Separate (data :: rest) (.read bufLen) := by
  have hrest : rest.flatten = [] ↔ rest = [] := by
    constructor
    · intro hnil
      refine List.eq_nil_iff_forall_not_mem.mpr fun d hd => ?_
      exact h.nonempty d (by simp [hd]) (List.flatten_eq_nil_iff.mp hnil d hd)
    · rintro rfl
      rfl
  calc (data ++ rest.flatten).take bufLen = data
      ↔ rest.flatten.take (bufLen - data.length) = [] := by
        rw [List.take_append,List.take_of_length_le hfits,List.append_right_eq_self]
    _ ↔ bufLen - data.length = 0 ∨ rest = [] := by rw [List.take_eq_nil_iff,hrest]
    _ ↔ rest = [] ∨ data.length = bufLen := by
        rw [or_comm,Nat.sub_eq_zero_iff_le]
        exact or_congr_right ⟨Nat.le_antisymm hfits,fun heq => Nat.le_of_eq heq.symm⟩
    _ ↔ Separate (data :: rest) (.read bufLen) := by simp [Separate]

theorem Holds.read (h : Holds (data :: rest) ch)
    (htake : (data ++ rest.flatten).take bufLen = data) : Holds rest (ch.read bufLen []).1 := by
  have hdrop : (data ++ rest.flatten).drop bufLen = rest.flatten := by
    have hall := List.take_append_drop bufLen (data ++ rest.flatten)
    rw [htake] at hall
    exact List.append_cancel_left hall
  rw [h.read_cons,hdrop]
  exact ⟨h.manualMode,h.reader,rfl,fun d hd => h.nonempty d (by simp [hd])⟩

/-- A channel in manual mode with nothing left over answers like a queue of datagrams if and only if no read finds
two of them in front of a buffer with room for more than the first. -/
theorem keeps_datagrams_iff (ch : BufferedUdpChannel) (hch : Holds [] ch) (calls : List Incoming)
    (hfits : ∀ data bufLen, .push data ∈ calls → .read bufLen ∈ calls → data.length ≤ bufLen) :
    answers incoming ch calls = answers mailbox [] calls ↔
      Along (fun waiting call => (mailbox waiting call).1) Separate [] calls := by
  suffices hrun : ∀ (waiting : List Bytes) (ch : BufferedUdpChannel), Holds waiting ch →
      (∀ data ∈ waiting, ∀ bufLen, .read bufLen ∈ calls → data.length ≤ bufLen) →
      (answers incoming ch calls = answers mailbox waiting calls ↔
        Along (fun waiting call => (mailbox waiting call).1) Separate waiting calls) from
    hrun [] ch hch (by simp)
  clear hch ch
  induction calls with
  | nil => exact fun waiting ch _ _ => ⟨fun _ => trivial,fun _ => rfl⟩
  | cons call calls ih =>
    have ih := ih fun data bufLen hpush hread => hfits data bufLen (by simp [hpush]) (by simp [hread])
    intro waiting ch h hwaiting
    have hlater : ∀ data ∈ waiting, ∀ bufLen, .read bufLen ∈ calls → data.length ≤ bufLen :=
      fun data hdata bufLen hread => hwaiting data hdata bufLen (by simp [hread])
    rw [answers, answers, List.cons.injEq, Along]
    cases call with
    | push data =>
      have hpushed : ∀ d ∈ (mailbox waiting (.push data)).1, d ∈ waiting ∨ d = data := by
        intro d hd
        rw [mailbox] at hd
        split at hd
        · exact .inl hd
        · simpa using hd
      have hnext := ih _ _ (h.push data) (by
        intro d hd bufLen hread
        rcases hpushed d hd with hold | rfl
        · exact hlater d hold bufLen hread
        · exact hfits d bufLen (by simp) (by simp [hread]))
      simpa [incoming,mailbox,Separate] using hnext
    | read bufLen =>
      cases waiting with
      | nil =>
        have hnext := ih [] ch h (by simp)
        simpa [incoming,mailbox,Separate,h.read_nil] using hnext
      | cons data rest =>
        have hone := h.take_eq_iff (hwaiting data (by simp) bufLen (by simp))
        have hanswer : (incoming ch (.read bufLen)).2 = (mailbox (data :: rest) (.read bufLen)).2 ↔
            Separate (data :: rest) (.read bufLen) := by
          rw [← hone]
          simp [incoming,mailbox,h.read_cons]
        rw [hanswer]
        refine and_congr_right fun hsep => ?_
        exact ih rest _ (h.read (hone.mpr hsep)) fun d hd => hlater d (by simp [hd])

theorem keeps_datagrams_in_turn : ∃ calls : List Incoming,
    calls = [.push [1], .read 3, .push [2,3], .push [], .read 3, .read 3] ∧
      answers incoming (setManualMode {} true) calls = answers mailbox [] calls := by
  refine ⟨_,rfl,(keeps_datagrams_iff (setManualMode {} true) ⟨rfl,rfl,rfl,by simp⟩ _ ?_).mpr (by decide)⟩
  intro data bufLen hpush hread
  simp only [List.mem_cons,Incoming.push.injEq,Incoming.read.injEq,reduceCtorEq,List.not_mem_nil,false_or,or_false,
    or_self] at hpush hread
  rcases hpush with rfl | rfl | rfl <;> simp [hread]

/-- Two datagrams that are pushed before a read come out as one. -/
theorem pushed_datagrams_merge : ∃ calls : List Incoming, calls = [.push [1], .push [2], .read 65535] ∧
    answers incoming (setManualMode {} true) calls = [none,none,some (.ok [1,2])] ∧ .push [1,2] ∉ calls := by
  refine ⟨_,rfl,rfl,?_⟩
  decide
end BufferedUdpChannel
end RustyRtc.Dtls
