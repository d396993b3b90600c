import RustyRtc.Foundation.Execution
import RustyRtc.Foundation.Lists
import RustyRtc.Sctp.Session

/-! # The order of the messages on stream 0

A message that the association is not ready for is put off until the sender hears that it is connected. That event
comes through the router's queue, and what the sender handles before it is written at once.
-/
namespace RustyRtc.Sctp
open SctpSession
def SctpProtocolMessage.encoded (msg : SctpProtocolMessage) : Bytes := msg.serialize.toOption.getD []
theorem SctpProtocolMessage.serialize_encoded (msg : SctpProtocolMessage) : msg.serialize = .ok msg.encoded := by
  obtain ⟨rest,hrest⟩ := msg.serialize_eq
  simp [encoded,hrest,Except.toOption]

/-- How far the association has come; nothing is said about its end. -/
inductive Association where
  | absent
  | connecting
  | writable
  deriving DecidableEq, Repr
def Association.result : Association → WriteResult
  | .absent => .noAssociation
  | .connecting => .notReady
  | .writable => .written

namespace SctpSession
variable {a : Association} (s : SctpSession)
theorem sendMessage_writable (msg : SctpProtocolMessage) :
    sendMessage Association.writable.result s msg = { s with stream0 := s.stream0 ++ [msg.encoded] } :=
  s.sendMessage_written msg.serialize_encoded
theorem sendMessage_unready (h : a ≠ .writable) (s : SctpSession) (msg : SctpProtocolMessage) :
    sendMessage a.result s msg = { s with pending := s.pending ++ [msg] } := by
  rw [sendMessage,msg.serialize_encoded]
  cases a with
  | writable => exact absurd rfl h
  | _ => rfl

theorem foldl_writable (ms : List (SctpProtocolMessage × ℕ)) :
    ms.foldl (fun s m => sendMessage Association.writable.result s m.1) s =
      { s with stream0 := s.stream0 ++ ms.map fun m => m.1.encoded } := by
  induction ms generalizing s with
  | nil => simp
  | cons m ms ih =>
    rw [List.foldl_cons,ih,sendMessage_writable]
    simp

theorem foldl_unready (h : a ≠ .writable) (s : SctpSession) (ms : List (SctpProtocolMessage × ℕ)) :
    ms.foldl (fun s m => sendMessage a.result s m.1) s = { s with pending := s.pending ++ ms.map (·.1) } := by
  induction ms generalizing s with
  | nil => simp
  | cons m ms ih =>
    rw [List.foldl_cons,ih,sendMessage_unready h]
    simp

theorem flush_writable : s.flush (fun _ => Association.writable.result) =
    { s with pending := [], stream0 := s.stream0 ++ s.pending.map (·.encoded) } := by
  rw [flush,foldl_writable]
  have hms : s.pending.zipIdx.map (fun m => m.1.encoded) = s.pending.map (·.encoded) := by
    rw [← List.zipIdx_map_fst 0 s.pending,List.map_map,List.zipIdx_map_fst]
    rfl
  simp [hms]

theorem flush_unready (h : a ≠ .writable) (s : SctpSession) : s.flush (fun _ => a.result) = s := by
  rw [flush,foldl_unready h]
  simp
end SctpSession

/-- The sender with its association, and the messages of the events that it has handled. -/
structure Sending where
  session : SctpSession := {}
  association : Association := .absent
  handled : List SctpProtocolMessage := []

namespace Sending
inductive Input where
  /-- The router is given an event. -/
  | event (e : SctpEvents)
  | associate
  | ready
  | sender (now : ℕ)
def upcoming (c : Sending) : Option SctpProtocolMessage := c.session.toSender.head?.bind c.session.messageOf

def step (c : Sending) : Input → Sending
  | .event e =>
    -- the receiver reports the connection once the association is up
    if e = .sctpConnected ∧ c.association ≠ .writable then c else { c with session := c.session.route e }
  | .associate => if c.association = .absent then { c with association := .connecting } else c
  | .ready => if c.association = .connecting then { c with association := .writable } else c
  | .sender now =>
    { c with
      session := c.session.transmit now fun _ => c.association.result
      handled := c.handled ++ c.upcoming.toList }

/-- What was written, and behind it what is put off, are the messages of the events in the order of the events. -/
def InOrder (c : Sending) : Prop :=
  c.session.stream0 ++ c.session.pending.map (·.encoded) = c.handled.map (·.encoded)

/-- The sender writes a message while a different one is put off. -/
def Overtakes (c : Sending) : Input → Prop
  | .sender _ => c.association = .writable ∧ ∃ msg ∈ c.upcoming, ∃ m ∈ c.session.pending, m.encoded ≠ msg.encoded
  | _ => False

section Steps
variable {c : Sending} (h : c.InOrder) {rest : List SctpEvents} (msg : SctpProtocolMessage)
include h

theorem inOrder_put_off :
    c.session.stream0 ++ (c.session.pending ++ [msg]).map (·.encoded) = (c.handled ++ [msg]).map (·.encoded) := by
  rw [List.map_append,List.map_append,← h,List.append_assoc]
theorem inOrder_written_iff :
    c.session.stream0 ++ [msg.encoded] ++ c.session.pending.map (·.encoded) = (c.handled ++ [msg]).map (·.encoded) ↔
      ∀ m ∈ c.session.pending, m.encoded = msg.encoded := by
  rw [List.map_append,← h,List.append_assoc,List.append_assoc,List.append_cancel_left_eq]
  exact cons_eq_concat_iff.trans List.forall_mem_map

omit h in
theorem upcoming_connected (hq : c.session.toSender = .sctpConnected :: rest) : c.upcoming = none := by
  rw [upcoming,hq]
  rfl

theorem inOrder_connected (hq : c.session.toSender = .sctpConnected :: rest) (now : ℕ) :
    (c.step (.sender now)).InOrder := by
  have hflush : c.session.transmit now (fun _ => c.association.result) =
      SctpSession.flush (fun _ => c.association.result) { c.session with toSender := rest } := by
    rw [SctpSession.transmit,hq]
    rfl
  simp only [InOrder,step,upcoming_connected hq,hflush,Option.toList_none,List.append_nil]
  by_cases ha : c.association = .writable
  · simpa [ha,flush_writable,InOrder] using h
  · rw [flush_unready ha]
    exact h

theorem inOrder_handle_iff {event : SctpEvents} (hq : c.session.toSender = event :: rest)
    (hevent : event ≠ .sctpConnected) (now : ℕ) : (c.step (.sender now)).InOrder ↔ ¬ c.Overtakes (.sender now) := by
  have hup : c.upcoming = c.session.messageOf event := by simp [upcoming,hq]
  obtain ⟨streams,hhandle⟩ := SctpSession.handle_eq now (fun _ => c.association.result)
    { c.session with toSender := rest } hevent
  have hmsg : messageOf { c.session with toSender := rest } event = c.session.messageOf event := rfl
  simp only [InOrder,step,Overtakes,SctpSession.transmit,hq,hhandle,hmsg,hup]
  cases c.session.messageOf event with
  | none => simpa [InOrder] using h
  | some msg =>
    by_cases ha : c.association = .writable
    · rw [ha]
      simpa [sendMessage_writable] using inOrder_written_iff h msg
    · refine iff_of_true ?_ fun hover => ha hover.1
      simpa [sendMessage_unready ha] using inOrder_put_off h msg

theorem inOrder_step_iff (i : Input) : (c.step i).InOrder ↔ ¬ c.Overtakes i := by
  cases i with
  | event e | associate | ready =>
    refine iff_of_true ?_ id
    simp only [step]
    split <;> exact h
  | sender now =>
    cases hq : c.session.toSender with
    | nil =>
      have hnone : c.upcoming = none := by simp [upcoming,hq]
      refine iff_of_true ?_ (by simp [Overtakes,hnone])
      simpa [InOrder,step,hnone,SctpSession.transmit,hq] using h
    | cons event rest =>
      by_cases hevent : event = .sctpConnected
      · subst hevent
        exact iff_of_true (inOrder_connected h hq now) (by simp [Overtakes,upcoming_connected hq])
      · exact inOrder_handle_iff h hq hevent now
end Steps

/-- For every sequence of events and every moment at which the association comes into being and becomes writable, the
messages stay in order exactly as long as none is written while others are put off. -/
theorem in_order_iff (inputs : List Input) :
    Along step (fun c i => (c.step i).InOrder) {} inputs ↔ Along step (fun c i => ¬ c.Overtakes i) {} inputs := by
  have hstart : InOrder {} := rfl
  exact along_iff_of_invariant (fun _ _ h => inOrder_step_iff h _) (fun _ _ _ h => h) hstart
def sampleProperties : SctpFileProperties := { fileName := "a", fileSize := 1, transactionId := 7 }

/-- An offer is put off and then withdrawn; the association becomes writable in between. -/
theorem cancel_overtakes_offer : ∃ inputs : List Input, (inputs.foldl step {}).handled = [.offer 7 "a" 1, .cancel 7] ∧
    (inputs.foldl step {}).session.pending = [] ∧
    (inputs.foldl step {}).session.stream0.map SctpProtocolMessage.deserialize =
      [.ok (.cancel 7), .ok (.offer 7 "a" 1)] := by
  refine ⟨[.event (.sendOffer sampleProperties), .sender 0, .associate, .ready, .event (.sendCancel 7), .event .sctpConnected,
    .sender 1, .sender 2],?_⟩
  decide +kernel
end Sending
end RustyRtc.Sctp
