import RustyRtc.Core.Discipline

/-! # A FIN with the token of no peer

The handler of a FIN does not compare its token with the stored one, as the handlers of the other messages do. So every
FIN that the receiver takes up takes the session down, whatever the other threads do meanwhile.
-/
namespace RustyRtc.Core
inductive Input where
  | turn (t : Turn)
  | arrive (m : AppMsg)
def Session.input (s : Session) : Input → Session
  | .turn t => s.step t
  | .arrive m => s.arrive m
def Input.isReceiver : Input → Bool
  | .turn .receiver => true
  | _ => false

/-- What the threads besides the receiver do at most: they stop the media session and take the session down. -/
def Lowers (a b : Shared) : Prop :=
  (b.established = true → a.established = true) ∧ (b.rtpSession = true → a.rtpSession = true) ∧
    (b.rtpMediaTx = true → a.rtpMediaTx = true) ∧ b.tokenPeer = a.tokenPeer
theorem Lowers.refl (s : Shared) : Lowers s s := ⟨id,id,id,rfl⟩
theorem Lowers.trans {a b c : Shared} (h : Lowers a b) (h' : Lowers b c) : Lowers a c :=
  ⟨h.1 ∘ h'.1,h.2.1 ∘ h'.2.1,h.2.2.1 ∘ h'.2.2.1,h'.2.2.2.trans h.2.2.2⟩

namespace Quiet
def guar : Thread → Shared → Shared → Prop
  | .receiver _,_,_ => True
  | _,a,b => Lowers a b
def contract (th : Thread) : Contract Shared Unit where
  watch _ := ()
  guar := guar th
  post _ _ := True
  guar_refl s := by cases th <;> simp [guar,Lowers]

variable {me : UInt64}
theorem meets_handleAppMsg (m : AppMsg) (s : Shared) :
    Meets (fun _ => True) (contract (.receiver m)) (handleAppMsg me m) s := by
  cases m <;> simp [handleAppMsg,answerSyn,establish,clearHandshake,contract,guar]
theorem meets_requestClose (s : Shared) : Meets (fun _ => True) (contract .caller) requestClose s := by
  simp [requestClose,contract,guar,Lowers]

def discipline (me : UInt64) : Discipline me Unit where
  inv _ := True
  contract := contract
  incoming _ := True
  apart _ _ _ _ := rfl
  network _ _ _ := ⟨trivial,fun _ => rfl⟩
  recvError _ _ := ⟨trivial,fun _ => rfl⟩
  handshake s _ _ := by simp [handshakeDriver,contract,guar,Lowers]
  close _ s _ _ := by simp [closeDriver,stopAll,contract,guar,Lowers]

theorem admits (s : Session) (t : Turn) : (discipline me).Admits s t :=
  (discipline me).admits_of_meets meets_handleAppMsg meets_requestClose (fun _ _ => trivial) s t

variable {s : Session} (h : (discipline me).Follows s)
include h

theorem input (i : Input) : (discipline me).Follows (s.input i) := by
  cases i with
  | turn t => exact (h.step (admits s t)).1
  | arrive m => exact h.arrive trivial

theorem lowers {i : Input} (hi : i.isReceiver = false) : Lowers s.shared (s.input i).shared := by
  cases i with
  | arrive m => exact .refl _
  | turn t =>
    have heff := (h.step (admits s t)).2
    simp only [Session.input]
    generalize (s.step t).shared = b at heff
    cases heff with
    | same => exact .refl _
    | acts th hth hg =>
      cases th with
      | receiver m => cases t <;> first | exact hth.elim | cases hi
      | handshake | caller | close i => exact hg
    | recvError text => exact .refl _
end Quiet

theorem Session.input_receiver {s : Session} {i : Input} (hi : i.isReceiver = false)
    (hr : ∀ left batch, s.receiver ≠ .draining left batch) : (s.input i).receiver = s.receiver := by
  cases i with
  | arrive m => rfl
  | turn t =>
    cases t with
    | receiver => cases hi
    | recvError text =>
      simp only [input,step,recvError]
      split
      · next hdraining => exact absurd hdraining (hr _ _)
      · rfl
    | handshake clock => rfl
    | requestClose => exact requestCloseTurn_receiver.1
    | caller => exact callerTurn_receiver.1
    | close i clock => exact (closeTurn_receiver i clock).1

/-- The next `n` actions of the code lead to `post`, whatever the other threads do before each of them. -/
def Leads (post : Shared → Prop) : ℕ → Code → Shared → Prop
  | 0,_,a => post a
  | n + 1, .atom f next,a => ∀ b, Lowers a b → Leads post n (next b) (f b)
  | _,_,_ => False
theorem Leads.rely {post : Shared → Prop} (hpost : ∀ a b, Lowers a b → post a → post b) {n : ℕ} {code : Code}
    {a b : Shared} (h : Leads post n code a) (hab : Lowers a b) : Leads post n code b := by
  cases n with
  | zero => exact hpost a b hab h
  | succ n =>
    cases code with
    | atom f next => exact fun c hbc => h c (hab.trans hbc)
    | ret again | await next => exact h

structure Down (their : UInt64) (s : Shared) : Prop where
  established : s.established = false
  rtpSession : s.rtpSession = false
  rtpMediaTx : s.rtpMediaTx = false
  tokenPeer : s.tokenPeer = their
theorem Down.lowers {their : UInt64} {a b : Shared} (hab : Lowers a b) (h : Down their a) : Down their b where
  established := Bool.eq_false_iff.mpr fun hb => Bool.eq_false_iff.mp h.established (hab.1 hb)
  rtpSession := Bool.eq_false_iff.mpr fun hb => Bool.eq_false_iff.mp h.rtpSession (hab.2.1 hb)
  rtpMediaTx := Bool.eq_false_iff.mpr fun hb => Bool.eq_false_iff.mp h.rtpMediaTx (hab.2.2.1 hb)
  tokenPeer := hab.2.2.2.trans h.tokenPeer

theorem fin_leads (me their : UInt64) (a : Shared) : Leads (Down their) 6 (handleAppMsg me (.fin their)) a := by
  -- the six stores of the handler; what each wrote is what the next one finds, or lower
  intro b₁ h₁ b₂ h₂ b₃ h₃ b₄ h₄ b₅ h₅ b₆ h₆
  have hdown : b₆.established = false := by
    refine Bool.eq_false_iff.mpr fun h => ?_
    exact absurd (h₃.1 (h₄.1 (h₅.1 (h₆.1 h)))) (by simp)
  exact ⟨hdown,Bool.eq_false_iff.mpr fun h => absurd (h₆.2.1 h) (by simp),rfl,h₆.2.2.2.trans (h₅.2.2.2.trans h₄.2.2.2)⟩

/-- The receiver is about to take up the message or at its handler, with `n` of its own turns left. -/
inductive Session.Facing (s : Session) (m : AppMsg) (post : Shared → Prop) : ℕ → Prop
  | upcoming {n : ℕ} (batch : List AppMsg) (hr : s.receiver = .processing (m :: batch))
      (h : Leads post n (handleAppMsg s.tokenLocal m) s.shared) : Facing s m post (n + 1)
  | handling {n : ℕ} (code : Code) (batch : List AppMsg) (hr : s.receiver = .handling m code batch)
      (h : Leads post n code s.shared) : Facing s m post n

namespace Session.Facing
variable {me : UInt64} {s : Session} {m : AppMsg} {post : Shared → Prop} {n : ℕ} {i : Input}
theorem receive (h : s.Facing m post (n + 1)) : s.receive.Facing m post n := by
  cases h with
  | upcoming batch hr h =>
    exact .handling (handleAppMsg s.tokenLocal m) batch (by simp [Session.receive,hr])
      (by simpa [Session.receive,hr] using h)
  | handling code batch hr h =>
    cases code with
    | atom f next =>
      refine .handling (next s.shared) batch (by simp [Session.receive,hr,handle,Prog.step]) ?_
      simpa [Session.receive,hr,handle,Prog.step] using h s.shared (.refl _)
    | ret again | await next => exact h.elim

theorem beside (hpost : ∀ a b, Lowers a b → post a → post b) (hf : (Quiet.discipline me).Follows s)
    (hi : i.isReceiver = false) (h : s.Facing m post n) : (s.input i).Facing m post n := by
  have hlowers := Quiet.lowers hf hi
  cases h with
  | upcoming batch hr h =>
    have hr' := (input_receiver hi (by simp [hr])).trans hr
    refine .upcoming batch hr' ?_
    rw [(Quiet.input hf i).token,← hf.token]
    exact h.rely hpost hlowers
  | handling code batch hr h =>
    exact .handling code batch ((input_receiver hi (by simp [hr])).trans hr) (h.rely hpost hlowers)

/-- With the receiver's last turn at the handler the aim is reached. -/
theorem run (hpost : ∀ a b, Lowers a b → post a → post b) {inputs : List Input}
    (hf : (Quiet.discipline me).Follows s) (h : s.Facing m post n) (hn : inputs.countP Input.isReceiver = n) :
    post (inputs.foldl input s).shared := by
  induction inputs generalizing s n with
  | nil =>
    subst hn
    cases h with
    | handling code batch hr h => exact h
  | cons i inputs ih =>
    rw [List.countP_cons] at hn
    cases hi : i.isReceiver with
    | false =>
      exact ih (Quiet.input hf i) (h.beside hpost hf hi) (by simpa [hi] using hn)
    | true =>
      obtain rfl : i = .turn .receiver := by
        cases i with
        | turn t => cases t <;> first | rfl | cases hi
        | arrive m => cases hi
      obtain rfl : inputs.countP Input.isReceiver + 1 = n := by simpa [hi] using hn
      exact ih (Quiet.input hf _) h.receive rfl
end Session.Facing

/-- In every state that a session reaches, established or not, a FIN with another token than the stored one that the
receiver takes up stops the media session, takes the session down and takes the peer's place, whatever arrives and
whatever the other threads do during the seven turns of the receiver. -/
theorem stray_fin_always_closes (token : UInt64) (rtp : Except String Unit) (inputs during : List Input) (s : Session)
    (their : UInt64) (hs : s = inputs.foldl Session.input (Session.start token rtp))
    (hfin : s.upcoming = some (.fin their)) (hstray : their ≠ s.shared.tokenPeer)
    (hduring : during.countP Input.isReceiver = 7) :
    let s' := during.foldl Session.input s
    s'.shared.established = false ∧ s'.shared.rtpSession = false ∧ s'.shared.rtpMediaTx = false ∧
      s'.shared.tokenPeer = their ∧ s'.shared.tokenPeer ≠ s.shared.tokenPeer := by
  have hfollows : (Quiet.discipline token).Follows s := by
    rw [hs]
    exact List.foldlRecOn inputs _ (Discipline.follows_start _ trivial trivial) fun _ h i _ => Quiet.input h i
  obtain ⟨batch,hr⟩ : ∃ batch, s.receiver = .processing (.fin their :: batch) := by
    unfold Session.upcoming at hfin
    split at hfin
    · next m batch hr => exact ⟨batch,Option.some.inj hfin ▸ hr⟩
    · cases hfin
  have hfacing : s.Facing (.fin their) (Down their) 7 := .upcoming batch hr (fin_leads s.tokenLocal their s.shared)
  have hdown := hfacing.run (fun _ _ => Down.lowers) hfollows hduring
  exact ⟨hdown.established,hdown.rtpSession,hdown.rtpMediaTx,hdown.tokenPeer,hdown.tokenPeer ▸ hstray⟩
def receiverTurns (n : ℕ) : List Input := List.replicate n (.turn .receiver)
def answered : List Input := .arrive (.synAck 5 9) :: receiverTurns 13
def finArrives (their : UInt64) : List Input := answered ++ .arrive (.fin their) :: receiverTurns 3
def crowded : List Input :=
  .turn (.handshake ⟨false,true⟩) :: receiverTurns 4 ++ [.arrive (.syn 9), .turn .requestClose] ++ receiverTurns 3

theorem stray_fin_always_closes_crowded : ∃ s s' : Session,
    s = (finArrives 3).foldl Session.input (Session.start 5 (.ok ())) ∧ s' = crowded.foldl Session.input s ∧
    s.shared.established = true ∧ s'.shared.established = false ∧ s'.shared.tokenPeer = 3 := by
  refine ⟨_,_,rfl,rfl,by decide +kernel,?_⟩
  obtain ⟨hdown,-,-,htoken,-⟩ := stray_fin_always_closes 5 (.ok ()) (finArrives 3) crowded _ 3 rfl (by decide +kernel)
    (by decide +kernel) (by decide +kernel)
  exact ⟨hdown,htoken⟩

/-- A FIN with the token of no peer stops the media session and takes the peer's place. -/
theorem stray_fin_closes : ∃ (inputs : List Input) (s s' : Session), s = inputs.foldl Session.input (Session.start 5 (.ok ())) ∧
    s' = (receiverTurns 8).foldl Session.input s ∧
    s.shared.established = true ∧ s.shared.rtpSession = true ∧ s.shared.tokenPeer = 9 ∧
    s.upcoming = some (.fin 3) ∧
    s'.shared.established = false ∧ s'.shared.rtpSession = false ∧ s'.shared.tokenPeer = 3 := by
  refine ⟨finArrives 3,_,_,rfl,rfl,?_⟩
  decide +kernel
end RustyRtc.Core
