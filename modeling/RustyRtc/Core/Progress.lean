import RustyRtc.Core.Handshake

/-! # The receiver gets to every message

Left to itself, a receiver thread that has not returned drains its socket round by round and
works off each batch. So a message that completes the handshake is handled in the end, and
the session is established then if not before.
-/
namespace RustyRtc.Core
open Session
def WillEstablish (s : Session) : Prop := ∃ n, (Session.receive^[n] s).shared.established = true

namespace WillEstablish
variable {s : Session}
theorem now (h : s.shared.established = true) : WillEstablish s := ⟨0,h⟩
theorem next (h : WillEstablish s.receive) : WillEstablish s := by
  obtain ⟨n,hn⟩ := h
  exact ⟨n + 1,by rwa [Function.iterate_succ_apply]⟩

section
open Handshaking
variable {me other : UInt64} (hne : me ≠ other) {batch : List AppMsg}
include hne

theorem of_handling {m : AppMsg} {code : Code}
    (h : (discipline me other).Follows s) (hr : s.receiver = .handling m code batch)
    (hend : ∀ s', (discipline me other).Follows s' → s'.receiver = .processing batch →
      s'.inbox = s.inbox → (Completes me m → s'.shared.established = true) → WillEstablish s') : WillEstablish s := by
  induction code generalizing s with
  | ret again =>
    have hrec : s.receive = { s with receiver := .processing batch } := by
      simp [receive,hr,Session.handle]
    refine next (hend _ (follows_receive hne h) ?_ ?_ ?_)
    · rw [hrec]
    · rw [hrec]
    · rw [hrec]
      exact (h.handling m _ batch hr).ret_post h.inv
  | atom f code ih =>
    have hrec : s.receive = { s with
        receiver := .handling m (code s.shared) batch, shared := f s.shared } := by
      simp [receive,hr,Session.handle,Prog.step]
    refine next (ih s.shared (follows_receive hne h) (by rw [hrec]) ?_)
    rwa [hrec]
  | await code ih =>
    have hrec : s.receive = { s with receiver := .handling m (code ⟨false,false⟩) batch } := by
      simp [receive,hr,Session.handle,Prog.step]
    refine next (ih ⟨false,false⟩ (follows_receive hne h) (by rw [hrec]) ?_)
    rwa [hrec]

variable {N : ℕ}
  (hhead : ∀ s, (discipline me other).Follows s → s.inbox.length ≤ N → s.receiver = .head →
    (∃ m ∈ s.inbox, Completes me m) → WillEstablish s)
include hhead

theorem of_processing (h : (discipline me other).Follows s)
    (hN : s.inbox.length ≤ N) (hr : s.receiver = .processing batch)
    (hm : ∃ m ∈ batch ++ s.inbox, Completes me m) : WillEstablish s := by
  induction batch generalizing s with
  | nil =>
    have hrec : s.receive = { s with receiver := .head } := by simp [receive,hr]
    refine next (hhead _ (follows_receive hne h) ?_ ?_ ?_)
    · rwa [hrec]
    · rw [hrec]
    · rwa [hrec]
  | cons x batch ih =>
    have hrec : s.receive = { s with receiver := .handling x (handleAppMsg s.tokenLocal x) batch } := by
      simp [receive,hr]
    refine next (of_handling hne (follows_receive hne h) (by rw [hrec]) ?_)
    intro s' hs' hr' hi hx
    rw [hrec] at hi
    by_cases hc : Completes me x
    · exact now (hx hc)
    · apply ih hs' (by rwa [hi]) hr'
      obtain ⟨m,hmem,hmc⟩ := hm
      rcases List.mem_cons.mp hmem with rfl | hmem
      · exact absurd hmc hc
      · exact ⟨m,by rwa [hi],hmc⟩

theorem of_draining {left : ℕ} (h : (discipline me other).Follows s)
    (hN : s.inbox.length ≤ N) (hr : s.receiver = .draining left batch)
    (hm : ∃ m ∈ batch ++ s.inbox, Completes me m) : WillEstablish s := by
  induction left generalizing s batch with
  | zero =>
    have hrec : s.receive = { s with receiver := .processing batch } := by simp [receive,hr]
    refine next (of_processing hne hhead (follows_receive hne h) ?_ (by rw [hrec]) ?_)
    · rwa [hrec]
    · rwa [hrec]
  | succ left ih =>
    cases hi : s.inbox with
    | nil =>
      have hrec : s.receive = { s with receiver := .processing batch } := by
        simp [receive,hr,hi]
      refine next (of_processing hne hhead (follows_receive hne h) ?_ (by rw [hrec]) ?_)
      · rwa [hrec]
      · rwa [hrec]
    | cons x inbox =>
      have hrec : s.receive = { s with
          inbox := inbox, receiver := .draining left (batch ++ [x]) } := by
        simp [receive,hr,hi]
      refine next (ih (follows_receive hne h) ?_ (by rw [hrec]) ?_)
      · rw [hi,List.length_cons] at hN
        rw [hrec]
        exact Nat.le_of_succ_le hN
      · rw [hi] at hm
        rw [hrec]
        simpa using hm

omit hhead in
/-- Every round takes at least one datagram off a socket that is not empty. -/
theorem of_head (N : ℕ) : ∀ s, (discipline me other).Follows s → s.inbox.length ≤ N →
    s.receiver = .head → (∃ m ∈ s.inbox, Completes me m) → WillEstablish s := by
  induction N with
  | zero =>
    intro s _ hN _ hm
    obtain ⟨m,hm,-⟩ := hm
    simp [List.length_eq_zero_iff.mp (Nat.le_zero.mp hN)] at hm
  | succ N ih =>
    intro s h hN hr hm
    have hrec : s.receive = { s with receiver := .draining 64 [] } := by
      simp [receive,hr,h.inv.runFlag]
    have h' := follows_receive hne h
    cases hi : s.inbox with
    | nil => simp [hi] at hm
    | cons x inbox =>
      have hrec' : s.receive.receive = { s with inbox := inbox, receiver := .draining 63 [x] } := by
        rw [hrec]
        simp [receive,hi]
      refine next (next (of_draining hne ih (follows_receive hne h') ?_ (by rw [hrec']) ?_))
      · rw [hi,List.length_cons] at hN
        rw [hrec']
        exact Nat.le_of_succ_le_succ hN
      · rw [hi] at hm
        rw [hrec']
        simpa using hm

omit hhead in
theorem of_queued (h : (discipline me other).Follows s) (hr : s.receiver.running)
    (hm : ∃ m ∈ s.queued, Completes me m) : WillEstablish s := by
  have hhead := of_head hne s.inbox.length
  unfold queued at hm
  cases hrec : s.receiver with
  | head => exact hhead s h (Nat.le_refl _) hrec (by simpa [hrec,Receiver.messages] using hm)
  | draining left batch =>
    exact of_draining hne hhead h (Nat.le_refl _) hrec (by simpa [hrec,Receiver.messages] using hm)
  | processing batch =>
    exact of_processing hne hhead h (Nat.le_refl _) hrec (by simpa [hrec,Receiver.messages] using hm)
  | handling x code batch =>
    refine of_handling hne h hrec fun s' hs' hr' hi hx => ?_
    by_cases hc : Completes me x
    · exact now (hx hc)
    · apply of_processing hne hhead hs' (Nat.le_of_eq (congrArg _ hi)) hr'
      obtain ⟨m,hmem,hmc⟩ := hm
      simp only [hrec,Receiver.messages,List.cons_append,List.mem_cons] at hmem
      rcases hmem with rfl | hmem
      · exact absurd hmc hc
      · exact ⟨m,by rwa [hi],hmc⟩
  | stopped => simp [hrec,Receiver.running] at hr
end
end WillEstablish
end RustyRtc.Core
