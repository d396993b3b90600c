import RustyRtc.Signaling.Framing

/-! # Connection loops

`signaling/transport.rs` and `signaling_client/signaling_client_c.rs`: the thread that owns a
connection, on the server and on the client. Both drain their queue of commands, try to read one
message, and go round again; a read that times out is not an error to them.
-/
namespace RustyRtc
def IoErrorKind.isTransient : IoErrorKind → Bool
  | .timedOut | .wouldBlock | .interrupted => true
  | _ => false

namespace Signaling
open Incoming
variable {r s : Incoming} {k : IoErrorKind} {msgs : List SignalingMsg} {m : SignalingMsg} {p : Bytes}
variable {ms : List SignalingMsg}

/-- What a thread does around a read, in a turn `t` whose surroundings are given: each part may end the
loop for a reason of its own. -/
structure ReadLoop (σ τ χ : Type) where
  before : σ → τ → Except χ σ
  received : σ → τ → Except χ σ
  after : σ → τ → Except χ σ
inductive LoopEvent (χ : Type) where
  | message (m : SignalingMsg)
  | ioFailed (k : IoErrorKind)
  | protoFailed (e : ProtoError)
  | left (why : χ)
  deriving DecidableEq, Repr

namespace ReadLoop
variable {σ τ χ : Type} {L : ReadLoop σ τ χ} {st : σ} {t : τ} {ts : List τ} {s : Incoming}
def run (L : ReadLoop σ τ χ) : σ → List τ → Incoming → List (LoopEvent χ)
  | _,[],_ => []
  | st,t :: ts,s =>
    match L.before st t with
    | .error why => [.left why]
    | .ok st =>
      match readMsg.runOn s with
      | (.ok m,r) =>
        match L.received st t with
        | .error why => [.left why]
        | .ok st =>
          .message m :: match L.after st t with
            | .error why => [.left why]
            | .ok st => run L st ts r
      | (.error (.io k),r) =>
        if k.isTransient then
          match L.after st t with
          | .error why => [.left why]
          | .ok st => run L st ts r
        else [.ioFailed k]
      | (.error (.proto e),_) => [.protoFailed e]

theorem run_cons (h : ∀ why, .left why ∉ L.run st (t :: ts) s) :
    (∃ m r st', readMsg.runOn s = (.ok m,r) ∧ L.run st (t :: ts) s = .message m :: L.run st' ts r) ∨
    (∃ k r st', readMsg.runOn s = (.error (.io k),r) ∧ k.isTransient ∧ L.run st (t :: ts) s = L.run st' ts r) ∨
    (∃ k r, readMsg.runOn s = (.error (.io k),r) ∧ ¬k.isTransient ∧ L.run st (t :: ts) s = [.ioFailed k]) ∨
    ∃ e r, readMsg.runOn s = (.error (.proto e),r) ∧ L.run st (t :: ts) s = [.protoFailed e] := by
  rw [run] at h ⊢
  cases hbefore : L.before st t with
  | error why => simp [hbefore] at h
  | ok st₁ =>
    simp only [hbefore] at h ⊢
    rcases hread : readMsg.runOn s with ⟨(k | e) | m,r⟩
    · by_cases hk : k.isTransient
      · cases hafter : L.after st₁ t with
        | error why => simp [hread,hk,hafter] at h
        | ok st₂ => exact .inr (.inl ⟨k,r,st₂,rfl,hk,by simp [hk]⟩)
      · exact .inr (.inr (.inl ⟨k,r,rfl,hk,by simp [hk]⟩))
    · exact .inr (.inr (.inr ⟨e,r,rfl,rfl⟩))
    · cases hreceived : L.received st₁ t with
      | error why => simp [hread,hreceived] at h
      | ok st₂ =>
        cases hafter : L.after st₂ t with
        | error why => simp [hread,hreceived,hafter] at h
        | ok st₃ => exact .inl ⟨m,r,st₃,rfl,by simp [hafter]⟩

theorem run_cons_ok (h : ∀ why, .left why ∉ L.run st (t :: ts) s) (hread : readMsg.runOn s = (.ok m,r)) :
    ∃ st', L.run st (t :: ts) s = .message m :: L.run st' ts r := by
  rcases run_cons h with ⟨m',r',st',hread',hrun⟩ | ⟨k,r',st',hread',-,-⟩ | ⟨k,r',hread',-,-⟩ | ⟨e,r',hread',-⟩
  · obtain ⟨rfl,rfl⟩ : m = m' ∧ r = r' := by simpa [hread] using hread'
    exact ⟨st',hrun⟩
  all_goals simp [hread] at hread'

theorem run_cons_transient (h : ∀ why, .left why ∉ L.run st (t :: ts) s)
    (hread : readMsg.runOn s = (.error (.io k),r)) (hk : k.isTransient) :
    ∃ st', L.run st (t :: ts) s = L.run st' ts r := by
  rcases run_cons h with ⟨m,r',st',hread',-⟩ | ⟨k',r',st',hread',-,hrun⟩ | ⟨k',r',hread',hk',-⟩ | ⟨e,r',hread',-⟩
  · simp [hread] at hread'
  · obtain ⟨rfl,rfl⟩ : k = k' ∧ r = r' := by simpa [hread] using hread'
    exact ⟨st',hrun⟩
  · obtain ⟨rfl,rfl⟩ : k = k' ∧ r = r' := by simpa [hread] using hread'
    exact absurd hk hk'
  · simp [hread] at hread'

def delivered (es : List (LoopEvent χ)) : List SignalingMsg := es.filterMap fun
  | .message m => some m
  | _ => none
@[simp] theorem delivered_nil : delivered ([] : List (LoopEvent χ)) = [] := rfl
@[simp] theorem delivered_message (m : SignalingMsg) (es : List (LoopEvent χ)) :
    delivered (.message m :: es) = m :: delivered es := rfl

theorem delivered_bytes (L : ReadLoop σ τ χ) (st : σ) (ts : List τ) (s : Incoming)
    (h : ∀ why, .left why ∉ L.run st ts s) :
    ((delivered (L.run st ts s)).map fun m => 8 + m.bodyLen).sum ≤ s.bytes.length ∧
      ∀ m ∈ delivered (L.run st ts s), m.bodyLen ≤ MAX_BODY_LEN := by
  induction ts generalizing st s with
  | nil => simp [run]
  | cons t ts ih =>
    rcases run_cons h with ⟨m,r,st',hread,hrun⟩ | ⟨k,r,st',hread,-,hrun⟩ | ⟨k,r,-,-,hrun⟩ | ⟨e,r,-,hrun⟩
    · obtain ⟨hsum,hmax⟩ := ih st' r (by simpa [hrun] using h)
      obtain ⟨hlen,hm,-⟩ := readMsg_eq_ok hread
      rw [hrun,delivered_message]
      constructor
      · rw [List.map_cons,List.sum_cons]
        omega
      · exact List.forall_mem_cons.mpr ⟨hm,hmax⟩
    · obtain ⟨hsum,hmax⟩ := ih st' r (by simpa [hrun] using h)
      obtain ⟨used,hused⟩ := readMsg_consumes s
      simp only [hread] at hused
      rw [hrun,hused,List.length_append]
      exact ⟨by omega,hmax⟩
    · simp [hrun,delivered]
    · simp [hrun,delivered]
end ReadLoop

/-- Whenever the stream breaks off, what has arrived is a whole number of the frames written. -/
def BreaksBetweenFrames (msgs : List SignalingMsg) (s : Incoming) : Prop :=
  ∀ front k back, s = front ++ .fails k :: back → ∃ sent, sent <+: msgs ∧ writeMsgs sent = .ok (Incoming.bytes front)

theorem breaksBetweenFrames_fails : BreaksBetweenFrames msgs (.fails k :: s) ↔ BreaksBetweenFrames msgs s := by
  constructor
  · rintro h front k' back rfl
    exact h (.fails k :: front) k' back rfl
  · intro h front k' back heq
    cases front with
    | nil => exact ⟨[],List.nil_prefix,rfl⟩
    | cons a front =>
      obtain ⟨rfl,htail⟩ := List.cons.inj heq
      exact h front k' back htail

section
variable {m : SignalingMsg} {ms : List SignalingMsg} {c : Bytes}
theorem breaksBetweenFrames_frame (hc : writeMsg m = .ok c) :
    BreaksBetweenFrames (m :: ms) (ofBytes c ++ r) ↔ BreaksBetweenFrames ms r := by
  constructor
  · rintro h front k back rfl
    obtain ⟨sent,hsent,hbytes⟩ := h (ofBytes c ++ front) k back (by simp)
    cases sent with
    | nil =>
      have hlen := writeMsg_length hc
      have hempty : c = [] := by
        have h : c = [] ∧ bytes front = [] := by simpa [writeMsgs] using hbytes
        exact h.1
      simp only [hempty,List.length_nil] at hlen
      omega
    | cons m' sent =>
      obtain ⟨rfl,htail⟩ := List.cons_prefix_cons.mp hsent
      obtain ⟨c',d,hc',hd,heq⟩ := writeMsgs_cons_eq_ok.mp hbytes
      obtain rfl : c = c' := Except.ok.inj (hc.symm.trans hc')
      exact ⟨sent,htail,by simpa [hd] using heq.symm⟩
  · intro h front k back heq
    obtain ⟨front,rfl,rfl⟩ := fault_after_ofBytes heq
    obtain ⟨sent,hsent,hbytes⟩ := h front k back rfl
    exact ⟨m :: sent,List.cons_prefix_cons.mpr ⟨rfl,hsent⟩,
      by simpa using writeMsgs_cons_eq_ok.mpr ⟨c,_,hc,hbytes,rfl⟩⟩

theorem not_breaksBetweenFrames (hc : writeMsg m = .ok c) (hpos : p ≠ [])
    (hlt : p.length < c.length) (k : IoErrorKind) (r : Incoming) :
    ¬BreaksBetweenFrames (m :: ms) (ofBytes p ++ .fails k :: r) := by
  intro h
  obtain ⟨sent,hsent,hbytes⟩ := h (ofBytes p) k r rfl
  rw [bytes_ofBytes] at hbytes
  cases sent with
  | nil => exact hpos (Except.ok.inj hbytes).symm
  | cons m' sent =>
    obtain ⟨rfl,-⟩ := List.cons_prefix_cons.mp hsent
    obtain ⟨c',d,hc',-,rfl⟩ := writeMsgs_cons_eq_ok.mp hbytes
    obtain rfl : c = c' := Except.ok.inj (hc.symm.trans hc')
    rw [List.length_append] at hlt
    omega
end

theorem bodyLen_readBack (m : SignalingMsg) : m.readBack.bodyLen = m.bodyLen := by
  cases m with
  | bye sender dest r =>
    by_cases hr : r = some ""
    · subst hr
      rfl
    · simp [SignalingMsg.readBack,hr]
  | _ => rfl

theorem writeMsgs_length {b : Bytes} (h : writeMsgs ms = .ok b) : b.length = (ms.map fun m => 8 + m.bodyLen).sum := by
  induction ms generalizing b with
  | nil =>
    cases h
    rfl
  | cons m ms ih =>
    obtain ⟨c,d,hc,hd,rfl⟩ := writeMsgs_cons_eq_ok.mp h
    rw [List.length_append,ih hd,writeMsg_length hc,List.map_cons,List.sum_cons]

namespace ReadLoop
variable {σ τ χ : Type} {ts : List τ} {st : σ}
theorem run_ended {L : ReadLoop σ τ χ}
    (hleft : ∀ why, .left why ∉ L.run st (t :: ts) []) : L.run st (t :: ts) [] = [.ioFailed .unexpectedEof] := by
  rcases run_cons hleft with ⟨_,_,_,hread,-⟩ | ⟨_,_,_,hread,hk,-⟩ | ⟨_,_,hread,-,hrun⟩ | ⟨_,_,hread,-⟩
  · simp [readMsg_nil] at hread
  · obtain ⟨rfl,-⟩ : IoErrorKind.unexpectedEof = _ ∧ _ := by simpa [readMsg_nil] using hread
    cases hk
  · obtain ⟨rfl,-⟩ : IoErrorKind.unexpectedEof = _ ∧ _ := by simpa [readMsg_nil] using hread
    exact hrun
  · simp [readMsg_nil] at hread

/-- If the stream breaks off inside the first frame, the bytes of it that have come are missing from then on. -/
theorem not_delivered_of_broken {L : ReadLoop σ τ χ} {c d : Bytes} (hc : writeMsg m = .ok c)
    (hd : writeMsgs ms = .ok d) (hcd : bytes (ofBytes p ++ .fails k :: r) = c ++ d)
    (hmax : m.bodyLen ≤ MAX_BODY_LEN) (hk : k = .timedOut ∨ k = .wouldBlock) (hpos : p ≠ [])
    (hlen : p.length < c.length) (hleft : ∀ why, .left why ∉ L.run st (t :: ts) (ofBytes p ++ .fails k :: r)) :
    delivered (L.run st (t :: ts) (ofBytes p ++ .fails k :: r)) ≠ (m :: ms).map SignalingMsg.readBack := by
  intro hdelivered
  have hprefix : p <+: c := by
    have hp : p <+: c ++ d := by
      rw [← hcd,bytes_append,bytes_ofBytes]
      exact List.prefix_append _ _
    exact List.prefix_of_prefix_length_le hp (List.prefix_append c d) (Nat.le_of_lt hlen)
  have hread := readMsg_broken hc hmax hprefix hlen (k := k) (by rcases hk with rfl | rfl <;> decide) r
  obtain ⟨st',hrun⟩ := run_cons_transient hleft hread (by rcases hk with rfl | rfl <;> rfl)
  have hpaid := (delivered_bytes L st' ts r (by simpa [hrun] using hleft)).1
  have hbytes := writeMsgs_length (writeMsgs_cons_eq_ok.mpr ⟨c,d,hc,hd,rfl⟩)
  rw [← hrun,hdelivered] at hpaid
  simp only [List.map_map,Function.comp_def,bodyLen_readBack] at hpaid
  rw [← hcd] at hbytes
  have hplen := List.length_pos_iff.mpr hpos
  simp only [bytes_append,bytes_ofBytes,bytes_fails,List.length_append] at hbytes
  omega

/-- A loop that is given enough turns delivers what was written exactly if the stream never breaks off
inside a frame. -/
theorem delivers_iff (L : ReadLoop σ τ χ)
    (hw : writeMsgs msgs = .ok s.bytes) (hmax : ∀ m ∈ msgs, m.bodyLen ≤ MAX_BODY_LEN)
    (hk : ∀ k ∈ s.faults, k = .timedOut ∨ k = .wouldBlock) (hturns : msgs.length + s.faults.length ≤ ts.length)
    (hleft : ∀ why, .left why ∉ L.run st ts s) :
    (delivered (L.run st ts s) = msgs.map SignalingMsg.readBack ∧ ∀ e, .protoFailed e ∉ L.run st ts s) ↔
      BreaksBetweenFrames msgs s := by
  induction ts generalizing st s msgs with
  | nil =>
    have hlen : msgs.length = 0 ∧ s.faults.length = 0 := by simpa using hturns
    obtain rfl := List.length_eq_zero_iff.mp hlen.1
    have hno := List.length_eq_zero_iff.mp hlen.2
    refine iff_of_true ⟨rfl,by simp [run]⟩ ?_
    rintro front k back rfl
    simp at hno
  | cons t ts ih =>
    cases s with
    | nil =>
      obtain rfl : msgs = [] := by
        have hlen := writeMsgs_length hw
        cases msgs with
        | nil => rfl
        | cons m ms =>
          simp only [bytes_nil,List.length_nil,List.map_cons,List.sum_cons] at hlen
          omega
      rw [run_ended hleft]
      exact iff_of_true ⟨rfl,by simp⟩ (by rintro front k back h; simp at h)
    | cons a s =>
      cases a with
      | fails k =>
        have hk' := hk k (by simp)
        have hread : readMsg.runOn (.fails k :: s) = (.error (.io k),s) :=
          readMsg_fails (by rcases hk' with rfl | rfl <;> decide) s
        obtain ⟨st',hrun⟩ := run_cons_transient hleft hread (by rcases hk' with rfl | rfl <;> rfl)
        rw [hrun] at hleft ⊢
        rw [breaksBetweenFrames_fails]
        simp only [faults_fails,List.length_cons] at hturns
        exact ih hw hmax (fun k' hk' => hk k' (by simp [hk'])) (by omega) hleft
      | byte b =>
        obtain ⟨m,ms,rfl⟩ : ∃ m ms, msgs = m :: ms := by
          cases msgs with
          | nil => cases hw
          | cons m ms => exact ⟨m,ms,rfl⟩
        obtain ⟨c,d,hc,hd,hcd⟩ := writeMsgs_cons_eq_ok.mp hw
        have hsplit := whole_or_broken c.length (.byte b :: s) (by rw [hcd]; simp)
        rcases hsplit with ⟨c',r,hlen,hs⟩ | ⟨p,k,r,hlen,hs⟩
        · -- the first frame arrives in one piece
          obtain ⟨rfl,hr⟩ : c' = c ∧ bytes r = d := by
            apply List.append_inj _ hlen
            rw [← hcd,hs,bytes_append,bytes_ofBytes]
          rw [hs] at hleft hk hturns ⊢
          have hread := readMsg_writeMsg hc (hmax m (by simp)) r
          obtain ⟨st',hrun⟩ := run_cons_ok hleft hread
          simp only [faults_append,faults_ofBytes,List.nil_append,List.length_cons]
            at hk hturns
          have hleft' : ∀ why, .left why ∉ L.run st' ts r := by simpa [hrun] using hleft
          have hrest := ih (hr ▸ hd) (fun m' hm' => hmax m' (by simp [hm'])) hk (by omega) hleft'
          rw [hrun,breaksBetweenFrames_frame hc,← hrest]
          simp
        · -- the stream breaks off inside the first frame
          have hpos : p ≠ [] := by
            rintro rfl
            cases hs
          rw [hs] at hcd hleft hk ⊢
          refine iff_of_false (fun h => ?_) (not_breaksBetweenFrames hc hpos hlen k r)
          exact not_delivered_of_broken hc hd hcd (hmax m (by simp)) (hk k (by simp)) hpos hlen hleft h.1

theorem delivers_within_limit_iff (L : ReadLoop σ τ χ) (hw : writeMsgs msgs = .ok s.bytes)
    (hk : ∀ k ∈ s.faults, k = .timedOut ∨ k = .wouldBlock) (hturns : msgs.length + s.faults.length ≤ ts.length)
    (hleft : ∀ why, .left why ∉ L.run st ts s) :
    (delivered (L.run st ts s) = msgs.map SignalingMsg.readBack ∧ ∀ e, .protoFailed e ∉ L.run st ts s) ↔
      (∀ m ∈ msgs, m.bodyLen ≤ MAX_BODY_LEN) ∧ BreaksBetweenFrames msgs s := by
  constructor
  · intro h
    have hmax : ∀ m ∈ msgs, m.bodyLen ≤ MAX_BODY_LEN := by
      intro m hm
      have hread := (delivered_bytes L st ts s hleft).2 m.readBack (by rw [h.1]; exact List.mem_map_of_mem hm)
      rwa [bodyLen_readBack] at hread
    exact ⟨hmax,(L.delivers_iff hw hmax hk hturns hleft).mp h⟩
  · rintro ⟨hmax,hbreaks⟩
    exact (L.delivers_iff hw hmax hk hturns hleft).mpr hbreaks
end ReadLoop

inductive ServerEvent where
  | msgFromClient (clientId : ClientId) (msg : SignalingMsg)
  | disconnected (clientId : ClientId)
  | registerClient (clientId : ClientId)
  deriving DecidableEq, Repr
inductive ServerDrain where
  | empty
  | sendFailed (e : FrameError)
  | disconnected
  deriving DecidableEq, Repr
structure ServerTurn where
  drain : ServerDrain
  serverAlive : Bool
  deriving DecidableEq, Repr
inductive ServerLeft where
  | sendFailed (e : FrameError)
  | disconnected
  | serverGone
  deriving DecidableEq, Repr

def serverLoop : ReadLoop Unit ServerTurn ServerLeft where
  before _ t := match t.drain with
    | .empty => .ok ()
    | .sendFailed e => .error (.sendFailed e)
    | .disconnected => .error .disconnected
  received _ t := if t.serverAlive then .ok () else .error .serverGone
  after _ _ := .ok ()

inductive ServerOutput where
  | event (e : ServerEvent)
  | sendError (e : FrameError)
  | readError (e : FrameError)
  deriving DecidableEq, Repr

def serverReport (clientId : ClientId) : LoopEvent ServerLeft → List ServerOutput
  | .message m => [.event (.msgFromClient clientId m)]
  | .ioFailed k => [.readError (.io k), .event (.disconnected clientId)]
  | .protoFailed e => [.readError (.proto e), .event (.disconnected clientId)]
  | .left (.sendFailed e) => [.sendError e, .event (.disconnected clientId)]
  | .left .disconnected => [.event (.disconnected clientId)]
  | .left .serverGone => []

def spawnTlsConnectionThread (clientId : ClientId) (turns : List ServerTurn) (s : Incoming) :
    List ServerOutput :=
  .event (.registerClient clientId) :: (serverLoop.run () turns s).flatMap (serverReport clientId)
inductive ClientError where
  | helloFailed (e : FrameError)
  | frame (e : FrameError)
  | heartbeatTimeout
  deriving DecidableEq, Repr
inductive SignalingEvent where
  | connected
  | disconnected
  | error (e : ClientError)
  | serverMsg (m : SignalingMsg)
  deriving DecidableEq, Repr
inductive ClientDrain where
  | empty
  | sendFailed (e : FrameError)
  | disconnect
  deriving DecidableEq, Repr

/-- The clock when a message arrives and when the heartbeat is looked at, in milliseconds. -/
structure ClientTurn where
  drain : ClientDrain
  eventsOpen : Bool
  seen : ℕ
  now : ℕ
  ping : Except FrameError Unit

inductive ClientLeft where
  | sendFailed (e : FrameError)
  | disconnect
  | eventsClosed
  | heartbeatTimeout
  | pingFailed (e : FrameError)
  deriving DecidableEq, Repr

structure Heartbeat where
  lastSeen : ℕ
  nextPing : ℕ
  nonce : UInt64
  deriving DecidableEq, Repr
def PING_INTERVAL : ℕ := 5000
def HEARTBEAT_TIMEOUT : ℕ := 15000
def Heartbeat.start (now : ℕ) : Heartbeat := ⟨now,now + PING_INTERVAL,1⟩

def clientLoop : ReadLoop Heartbeat ClientTurn ClientLeft where
  before st t := match t.drain with
    | .empty => .ok st
    | .sendFailed e => .error (.sendFailed e)
    | .disconnect => .error .disconnect
  received st t := if t.eventsOpen then .ok { st with lastSeen := t.seen } else .error .eventsClosed
  after st t :=
    if t.now - st.lastSeen > HEARTBEAT_TIMEOUT then .error .heartbeatTimeout
    else if t.now ≥ st.nextPing then
      match t.ping with
      | .error e => .error (.pingFailed e)
      | .ok _ => .ok { st with nonce := st.nonce + 1,nextPing := t.now + PING_INTERVAL }
    else .ok st

def clientReport : LoopEvent ClientLeft → List SignalingEvent
  | .message m => [.serverMsg m]
  | .ioFailed k => [.error (.frame (.io k)), .disconnected]
  | .protoFailed e => [.error (.frame (.proto e)), .disconnected]
  | .left (.sendFailed e) | .left (.pingFailed e) => [.error (.frame e), .disconnected]
  | .left .disconnect | .left .eventsClosed => [.disconnected]
  | .left .heartbeatTimeout => [.error .heartbeatTimeout, .disconnected]

/-- The thread says hello, announces the connection and then runs its loop. -/
def spawnNetworkThread (hello : Except FrameError Unit) (start : ℕ) (turns : List ClientTurn) (s : Incoming) :
    List SignalingEvent :=
  match hello with
  | .error e => [.error (.helloFailed e), .disconnected]
  | .ok _ => .connected :: (clientLoop.run (.start start) turns s).flatMap clientReport
def ServerOutput.delivered (out : List ServerOutput) : List SignalingMsg := out.filterMap fun
  | .event (.msgFromClient _ m) => some m
  | _ => none
def SignalingEvent.delivered (out : List SignalingEvent) : List SignalingMsg := out.filterMap fun
  | .serverMsg m => some m
  | _ => none

theorem serverReport_delivered (clientId : ClientId) (es : List (LoopEvent ServerLeft)) :
    ServerOutput.delivered (es.flatMap (serverReport clientId)) = ReadLoop.delivered es := by
  induction es with
  | nil => rfl
  | cons e es ih =>
    rw [List.flatMap_cons,ServerOutput.delivered,List.filterMap_append]
    rcases e with m | k | e | (e | _ | _)
    case message => exact congrArg (m :: ·) ih
    all_goals exact ih

theorem clientReport_delivered (es : List (LoopEvent ClientLeft)) :
    SignalingEvent.delivered (es.flatMap clientReport) = ReadLoop.delivered es := by
  induction es with
  | nil => rfl
  | cons e es ih =>
    rw [List.flatMap_cons,SignalingEvent.delivered,List.filterMap_append]
    rcases e with m | k | e | (e | _ | _ | _ | e)
    case message => exact congrArg (m :: ·) ih
    all_goals exact ih

theorem serverReport_protoFailed (clientId : ClientId) (es : List (LoopEvent ServerLeft)) (e : ProtoError) :
    .readError (.proto e) ∈ es.flatMap (serverReport clientId) ↔ .protoFailed e ∈ es := by
  rw [List.mem_flatMap]
  constructor
  · rintro ⟨a,ha,hmem⟩
    rcases a with m | k | e' | (e' | _ | _) <;> simp [serverReport] at hmem
    exact hmem ▸ ha
  · intro h
    exact ⟨_,h,by simp [serverReport]⟩

theorem clientReport_protoFailed {es : List (LoopEvent ClientLeft)} (hleft : ∀ why, .left why ∉ es)
    (e : ProtoError) : .error (.frame (.proto e)) ∈ es.flatMap clientReport ↔ .protoFailed e ∈ es := by
  rw [List.mem_flatMap]
  constructor
  · rintro ⟨a,ha,hmem⟩
    rcases a with m | k | e' | why
    case left => exact absurd ha (hleft why)
    all_goals simp [clientReport] at hmem
    exact hmem ▸ ha
  · intro h
    exact ⟨_,h,by simp [clientReport]⟩

/-- With enough turns, and as long as it is not left for another reason, either thread delivers exactly
what was written and reports no protocol error if and only if every frame is within the reader's limit
and no timeout falls inside one. -/
theorem threads_deliver_iff {msgs : List SignalingMsg} {s : Incoming} (hw : writeMsgs msgs = .ok s.bytes)
    (hk : ∀ k ∈ s.faults, k = .timedOut ∨ k = .wouldBlock) :
    (∀ (clientId : ClientId) (turns : List ServerTurn), msgs.length + s.faults.length ≤ turns.length →
      (∀ why, .left why ∉ serverLoop.run () turns s) →
      ((ServerOutput.delivered (spawnTlsConnectionThread clientId turns s) = msgs.map SignalingMsg.readBack ∧
          ∀ e, .readError (.proto e) ∉ spawnTlsConnectionThread clientId turns s) ↔
        (∀ m ∈ msgs, m.bodyLen ≤ MAX_BODY_LEN) ∧ BreaksBetweenFrames msgs s)) ∧
    ∀ (start : ℕ) (turns : List ClientTurn), msgs.length + s.faults.length ≤ turns.length →
      (∀ why, .left why ∉ clientLoop.run (.start start) turns s) →
      ((SignalingEvent.delivered (spawnNetworkThread (.ok ()) start turns s) = msgs.map SignalingMsg.readBack ∧
          ∀ e, .error (.frame (.proto e)) ∉ spawnNetworkThread (.ok ()) start turns s) ↔
        (∀ m ∈ msgs, m.bodyLen ≤ MAX_BODY_LEN) ∧ BreaksBetweenFrames msgs s) := by
  constructor
  · intro clientId turns hturns hleft
    have hdelivered : ServerOutput.delivered (spawnTlsConnectionThread clientId turns s) =
        ReadLoop.delivered (serverLoop.run () turns s) := serverReport_delivered clientId _
    have hproto : ∀ e, .readError (.proto e) ∈ spawnTlsConnectionThread clientId turns s ↔
        .protoFailed e ∈ serverLoop.run () turns s := by
      intro e
      rw [spawnTlsConnectionThread, List.mem_cons, serverReport_protoFailed]
      simp
    simp only [hdelivered, hproto]
    exact ReadLoop.delivers_within_limit_iff serverLoop hw hk hturns hleft
  · intro start turns hturns hleft
    have hdelivered : SignalingEvent.delivered (spawnNetworkThread (.ok ()) start turns s) =
        ReadLoop.delivered (clientLoop.run (.start start) turns s) := clientReport_delivered _
    have hproto : ∀ e, .error (.frame (.proto e)) ∈ spawnNetworkThread (.ok ()) start turns s ↔
        .protoFailed e ∈ clientLoop.run (.start start) turns s := by
      intro e
      rw [spawnNetworkThread, List.mem_cons, clientReport_protoFailed hleft]
      simp
    simp only [hdelivered, hproto]
    exact ReadLoop.delivers_within_limit_iff clientLoop hw hk hturns hleft

def pingBetweenTimeouts : Incoming :=
  .fails .timedOut :: (Incoming.ofBytes [1,0x30,0,0,0,0,0,8,0,0,0,0,0,0,0,1] ++ [.fails .wouldBlock])

theorem threads_deliver_ping :
    (ServerOutput.delivered (spawnTlsConnectionThread 7 (.replicate 3 ⟨.empty,true⟩) pingBetweenTimeouts) =
        [.ping 1] ∧
      ∀ e, .readError (.proto e) ∉ spawnTlsConnectionThread 7 (.replicate 3 ⟨.empty,true⟩) pingBetweenTimeouts) ∧
    SignalingEvent.delivered
        (spawnNetworkThread (.ok ()) 0 (.replicate 3 ⟨.empty,true,0,0, .ok ()⟩) pingBetweenTimeouts) = [.ping 1] ∧
      ∀ e, .error (.frame (.proto e)) ∉
        spawnNetworkThread (.ok ()) 0 (.replicate 3 ⟨.empty,true,0,0, .ok ()⟩) pingBetweenTimeouts := by
  have hping : writeMsg (.ping 1) = .ok [1,0x30,0,0,0,0,0,8,0,0,0,0,0,0,0,1] := rfl
  have hbreaks : BreaksBetweenFrames [.ping 1] pingBetweenTimeouts := by
    rw [pingBetweenTimeouts, breaksBetweenFrames_fails, breaksBetweenFrames_frame hping,
      breaksBetweenFrames_fails]
    intro front k back h
    simp at h
  have hmax : ∀ m ∈ [SignalingMsg.ping 1], m.bodyLen ≤ MAX_BODY_LEN := by
    intro m hm
    obtain rfl := List.mem_singleton.mp hm
    decide
  have hwritten : writeMsgs [.ping 1] = .ok pingBetweenTimeouts.bytes := rfl
  have h := threads_deliver_iff hwritten (by decide)
  have hserver : serverLoop.run () (.replicate 3 ⟨.empty,true⟩) pingBetweenTimeouts = [.message (.ping 1)] := by
    decide +kernel
  have hclient : clientLoop.run (.start 0) (.replicate 3 ⟨.empty,true,0,0, .ok ()⟩) pingBetweenTimeouts =
      [.message (.ping 1)] := by
    decide +kernel
  exact ⟨(h.1 7 _ (by decide) (by rw [hserver]; simp)).mpr ⟨hmax,hbreaks⟩,
    (h.2 0 _ (by decide) (by rw [hclient]; simp)).mpr ⟨hmax,hbreaks⟩⟩

/-- A timeout after the first byte of a Ping: the version byte is gone, the next read takes the type
byte for the version, and both threads give the connection up. -/
theorem timeout_inside_frame_ends_connection :
    let s : Incoming := .byte 1 :: .fails .timedOut ::
      Incoming.ofBytes [0x30,0,0,0,0,0,8,0,0,0,0,0,0,0,1]
    writeMsgs [.ping 1] = .ok s.bytes ∧ s.faults = [.timedOut] ∧
      spawnTlsConnectionThread 7 (.replicate 2 ⟨.empty,true⟩) s =
        [.event (.registerClient 7), .readError (.proto (.invalidFormat "bad proto version")),
          .event (.disconnected 7)] ∧
      spawnNetworkThread (.ok ()) 0 (.replicate 2 ⟨.empty,true,0,0, .ok ()⟩) s =
        [.connected, .error (.frame (.proto (.invalidFormat "bad proto version"))), .disconnected] :=
  ⟨rfl,rfl,by decide +kernel,by decide +kernel⟩
end Signaling
end RustyRtc
