import RustyRtc.Dtls.BufferedUdpChannel

/-! # The SCTP transport

`sctp/transport`: the thread between the router and the DTLS stream. It takes all events that have come, pushes the
packets among them into the channel, and then reads records, but only so many. Before each turn it waits for an
event, with a timeout only if datagrams are still to be sent. The DTLS layer is the environment, and so is what the
socket says.
-/
namespace RustyRtc.Sctp
open Dtls

inductive SslRead where
  | ok (plaintext : Bytes)
  | wouldBlock
  | err (e : String)
  deriving DecidableEq, Repr
structure SslStream where
  encrypt : Bytes → Bytes
  /-- What a read gives with these bytes in the channel, and which of them it leaves there. -/
  read : Bytes → SslRead × Bytes
  read_nil : read [] = (.wouldBlock,[])
inductive TransportEvent where
  | incomingSctpPacket (sctpPacket : Bytes)
  | transmitSctpPacket (payload : Bytes)
  /-- Any other event is ignored. -/
  | other
  deriving DecidableEq, Repr
def TransportEvent.packet : TransportEvent → Bytes
  | .incomingSctpPacket sctpPacket => sctpPacket
  | _ => []

/-- `routerTx` is what was decrypted for the router. -/
structure SctpTransport where
  channel : BufferedUdpChannel := .setManualMode {} true
  routerTx : List Bytes := []
  deriving DecidableEq, Repr

/-- The events of one turn, and what the socket says to each write and to each attempt of each flush. No events have
come if the wait has timed out. -/
structure TransportTurn where
  batch : List TransportEvent
  writes : ℕ → SendResult
  flushes : ℕ → ℕ → SendResult

namespace SctpTransport
variable (ssl : SslStream) {records : List Bytes} {t : SctpTransport} {turns : List (TransportTurn × List Bytes)}
def process (t : SctpTransport) (result : SendResult) : TransportEvent → SctpTransport
  | .incomingSctpPacket sctpPacket => { t with channel := t.channel.pushIncoming sctpPacket }
  | .transmitSctpPacket payload => { t with channel := (t.channel.write result (ssl.encrypt payload)).1 }
  | .other => t
def processBatch (t : SctpTransport) (turn : TransportTurn) : SctpTransport :=
  turn.batch.zipIdx.foldl (fun t e => process ssl t (turn.writes e.2) e.1) t
def leave (t : SctpTransport) (rest : Bytes) : SctpTransport :=
  { t with channel := { t.channel with incomingQueue := rest } }
def flush (t : SctpTransport) (results : ℕ → SendResult) : SctpTransport :=
  { t with channel := (t.channel.flush results).1 }

def readLoop (flushes : ℕ → ℕ → SendResult) : ℕ → SctpTransport → SctpTransport
  | 0,t => t.flush (flushes 0)
  | n + 1,t =>
    let t := t.flush (flushes 0)
    match ssl.read t.channel.incomingQueue with
    | (.ok plaintext,rest) =>
      if plaintext.isEmpty then t.leave rest
      else readLoop (fun i => flushes (i + 1)) n { t.leave rest with routerTx := t.routerTx ++ [plaintext] }
    | (.wouldBlock,rest) | (.err _,rest) => t.leave rest

def readLimit : ℕ := 20
def turn (t : SctpTransport) (turn : TransportTurn) : SctpTransport :=
  readLoop ssl turn.flushes readLimit (t.processBatch ssl turn)
def Sleeps (t : SctpTransport) : Prop := t.channel.hasPendingWrites = false
instance (t : SctpTransport) : Decidable t.Sleeps := inferInstanceAs (Decidable (_ = _))

/-- A read takes this record off the front of the channel and gives its plaintext. -/
def Record (record : Bytes) : Prop :=
  record ≠ [] ∧ ∃ plaintext, plaintext ≠ [] ∧ ∀ later, ssl.read (record ++ later) = (.ok plaintext,later)
@[simp] theorem incomingQueue_flush (t : SctpTransport) (results : ℕ → SendResult) :
    (t.flush results).channel.incomingQueue = t.channel.incomingQueue := rfl

theorem incomingQueue_process (t : SctpTransport) (result : SendResult) (event : TransportEvent) :
    (t.process ssl result event).channel.incomingQueue = t.channel.incomingQueue ++ event.packet := by
  cases event with
  | incomingSctpPacket sctpPacket => rfl
  | transmitSctpPacket payload =>
    have hwrite : (t.channel.write result (ssl.encrypt payload)).1.incomingQueue = t.channel.incomingQueue := by
      unfold BufferedUdpChannel.write
      split
      · rfl
      · cases result <;> rfl
    simpa [TransportEvent.packet,process] using hwrite
  | other => exact (List.append_nil _).symm

theorem incomingQueue_processBatch (t : SctpTransport) (turn : TransportTurn) :
    (t.processBatch ssl turn).channel.incomingQueue =
      t.channel.incomingQueue ++ turn.batch.flatMap TransportEvent.packet := by
  suffices h : ∀ (events : List (TransportEvent × ℕ)) (t : SctpTransport),
      (events.foldl (fun t e => process ssl t (turn.writes e.2) e.1) t).channel.incomingQueue =
        t.channel.incomingQueue ++ (events.map Prod.fst).flatMap TransportEvent.packet by
    have hbatch := h turn.batch.zipIdx t
    rwa [List.zipIdx_map_fst] at hbatch
  intro events
  induction events with
  | nil => simp
  | cons e events ih =>
    intro t
    rw [List.foldl_cons,ih,incomingQueue_process]
    simp

theorem incomingQueue_readLoop (h : ∀ record ∈ records, Record ssl record) (n : ℕ)
    (flushes : ℕ → ℕ → SendResult) (ht : t.channel.incomingQueue = records.flatten) :
    (readLoop ssl flushes n t).channel.incomingQueue = (records.drop n).flatten := by
  induction n generalizing records flushes t with
  | zero => exact ht
  | succ n ih =>
    rw [readLoop]
    dsimp only
    rw [incomingQueue_flush,ht]
    cases records with
    | nil =>
      rw [List.flatten_nil,ssl.read_nil]
      rfl
    | cons record records =>
      obtain ⟨-,plaintext,hplain,hread⟩ := h record (by simp)
      rw [List.flatten_cons,hread]
      dsimp only
      rw [if_neg (by simpa using hplain)]
      exact ih (fun record hrecord => h record (by simp [hrecord])) _ rfl

def Brings (turn : TransportTurn) (records : List Bytes) : Prop :=
  turn.batch.flatMap TransportEvent.packet = records.flatten ∧ ∀ record ∈ records, Record ssl record

theorem incomingQueue_turn {turn : TransportTurn} {waiting : List Bytes}
    (hwaiting : ∀ record ∈ waiting, Record ssl record) (ht : t.channel.incomingQueue = waiting.flatten)
    (hturn : Brings ssl turn records) :
    (t.turn ssl turn).channel.incomingQueue = ((waiting ++ records).drop readLimit).flatten := by
  refine incomingQueue_readLoop ssl (fun record hrecord => ?_) readLimit turn.flushes ?_
  · exact (List.mem_append.mp hrecord).elim (hwaiting record) (hturn.2 record)
  · rw [incomingQueue_processBatch,ht,hturn.1,List.flatten_append]

def run (turns : List (TransportTurn × List Bytes)) : SctpTransport := turns.foldl (fun t x => turn ssl t x.1) {}

/-- How many records are left over if so many come and up to `readLimit` are read in each turn. -/
def backlog (arrivals : List ℕ) : ℕ := arrivals.foldl (fun waiting n => waiting + n - readLimit) 0

theorem incomingQueue_run (h : ∀ x ∈ turns, Brings ssl x.1 x.2) :
    ∃ waiting : List Bytes, (∀ record ∈ waiting, Record ssl record) ∧
      waiting.length = backlog (turns.map fun x => x.2.length) ∧
      (run ssl turns).channel.incomingQueue = waiting.flatten := by
  induction turns using List.reverseRecOn with
  | nil => exact ⟨[],by simp,rfl,rfl⟩
  | append_singleton turns x ih =>
    obtain ⟨waiting,hwaiting,hlength,hqueue⟩ := ih fun y hy => h y (by simp [hy])
    have hx := h x (by simp)
    refine ⟨(waiting ++ x.2).drop readLimit,fun record hrecord => ?_,?_,?_⟩
    · exact (List.mem_append.mp (List.mem_of_mem_drop hrecord)).elim (hwaiting record) (hx.2 record)
    · simp [backlog,hlength]
    · rw [run,List.foldl_append]
      exact incomingQueue_turn ssl hwaiting hqueue hx

theorem incomingQueue_run_eq_nil (h : ∀ x ∈ turns, Brings ssl x.1 x.2) :
    (run ssl turns).channel.incomingQueue = [] ↔ backlog (turns.map fun x => x.2.length) = 0 := by
  obtain ⟨waiting,hwaiting,hlength,hqueue⟩ := incomingQueue_run ssl h
  rw [hqueue,← hlength,List.length_eq_zero_iff,List.flatten_eq_nil_iff]
  constructor
  · exact fun hnil => List.eq_nil_iff_forall_not_mem.mpr fun record hrecord =>
      (hwaiting record hrecord).1 (hnil record hrecord)
  · rintro rfl
    simp

/-- If whole records come, the transport never waits without a timeout while bytes are unread if and only if, wherever
it does wait so, no more records have come than it has read. -/
theorem sleeps_with_nothing_unread_iff (turns : List (TransportTurn × List Bytes))
    (h : ∀ x ∈ turns, Brings ssl x.1 x.2) :
    (∀ front, front <+: turns → (run ssl front).Sleeps → (run ssl front).channel.incomingQueue = []) ↔
      ∀ front, front <+: turns → (run ssl front).Sleeps → backlog (front.map fun x => x.2.length) = 0 := by
  refine forall_congr' fun front => forall_congr' fun hfront => imp_congr_right fun _ => ?_
  exact incomingQueue_run_eq_nil ssl fun x hx => h x (hfront.subset hx)

/-- A layer without encryption whose records are single bytes. -/
def bytewise : SslStream where
  encrypt := id
  read
    | [] => (.wouldBlock,[])
    | b :: rest => (.ok [b],rest)
  read_nil := rfl
def packets (n : ℕ) : TransportTurn where
  batch := List.replicate n (.incomingSctpPacket [1])
  writes _ := .sent
  flushes _ _ := .sent
theorem brings_packets (n : ℕ) : Brings bytewise (packets n) (List.replicate n [1]) := by
  constructor
  · simp [packets,TransportEvent.packet,List.flatMap_def]
  · intro record hrecord
    obtain rfl := List.eq_of_mem_replicate hrecord
    exact ⟨by simp,[1],by simp,fun _ => rfl⟩

theorem nothing_unread_after_twenty : ∃ t : SctpTransport, t = run bytewise [(packets 20,List.replicate 20 [1])] ∧
    t.Sleeps ∧ t.channel.incomingQueue = [] := by
  have hrun := (sleeps_with_nothing_unread_iff bytewise [(packets 20,List.replicate 20 [1])]
    (by simpa using brings_packets 20)).mpr (by
      intro front hfront _
      rcases List.prefix_cons_iff.mp hfront with rfl | ⟨rest,rfl,hrest⟩
      · rfl
      · obtain rfl := List.prefix_nil.mp hrest
        rfl)
  exact ⟨_,rfl,rfl,hrun _ List.prefix_rfl rfl⟩

/-- After twenty records the loop stops, and the transport sleeps on the bytes of the twenty-first packet. -/
theorem sleeps_on_twenty_first_packet : ∃ t : SctpTransport, t = run bytewise [(packets 21,List.replicate 21 [1])] ∧
    t.routerTx.length = 20 ∧ t.Sleeps ∧ t.channel.incomingQueue = [1] := by
  refine ⟨_,rfl,?_⟩
  decide +kernel
end SctpTransport
end RustyRtc.Sctp
