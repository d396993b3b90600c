import Mathlib.Data.List.Basic
import Mathlib.Logic.Relation

/-! # Offers and answers

Two peers send each other descriptions over channels that keep the order. A peer that offers takes control
and waits; the next description it gets is its answer, whatever the sender meant. A peer that does not wait
takes a description for an offer, answers it and gives up control. A description may also be refused.

If nobody offers while an offer is on its way to them, exactly one peer is in control whenever both have
been informed, nobody waits and nothing is on its way.
-/
namespace RustyRtc.OfferAnswer
inductive Peer where
  | caller
  | callee
  deriving DecidableEq, Repr

namespace Peer
def other : Peer → Peer
  | .caller => .callee
  | .callee => .caller
theorem forall_iff {P : Peer → Prop} : (∀ p, P p) ↔ P .caller ∧ P .callee :=
  ⟨fun h => ⟨h _,h _⟩,fun ⟨h,h'⟩ p => match p with
    | .caller => h
    | .callee => h'⟩
instance (P : Peer → Prop) [DecidablePred P] : Decidable (∀ p, P p) := decidable_of_iff _ forall_iff.symm
end Peer
inductive Kind where
  | offer
  | answer
  deriving DecidableEq, Repr
structure Party where
  offering : Bool
  controlling : Bool
  informed : Bool
  deriving DecidableEq, Repr
structure Exchange where
  party : Peer → Party
  inbox : Peer → List Kind

/-- What a peer can do by itself: its party and inbox change, and something is sent. -/
inductive Move : Party → List Kind → Party → List Kind → List Kind → Prop
  | offer {a i} : a.offering = false → .offer ∉ i → Move a i ⟨true,true,a.informed⟩ i [.offer]
  | answer {a k i} : a.offering = false → Move a (k :: i) ⟨false,false,true⟩ i [.answer]
  | accept {a k i} : a.offering = true → Move a (k :: i) ⟨false,a.controlling,true⟩ i []
  | refuse {a k i} : Move a (k :: i) a i []

namespace Exchange
def start : Exchange := ⟨fun _ => ⟨false,true,false⟩,fun _ => []⟩
def put (x : Exchange) (p : Peer) (a : Party) (i sent : List Kind) : Exchange where
  party q := if q = p then a else x.party q
  inbox q := if q = p then i else x.inbox q ++ sent
def Step (x y : Exchange) : Prop :=
  ∃ p a i sent, Move (x.party p) (x.inbox p) a i sent ∧ y = x.put p a i sent

/-- Nobody waits, nothing is on its way, and both have been informed. -/
def Settled (x : Exchange) : Prop := ∀ p, (x.party p).offering = false ∧ x.inbox p = [] ∧ (x.party p).informed = true
end Exchange

/-- One peer's party and inbox, and the other's. The peer listed first is the one that offered last, if
one of them did. -/
inductive Stage : Party → List Kind → Party → List Kind → Prop
  | quiet {a b} : a.offering = false → b.offering = false →
      (a.informed = false ∧ b.informed = false ∨ a.controlling ≠ b.controlling) → Stage a [] b []
  | offered {a b} : a.offering = true → a.controlling = true → b.offering = false → Stage a [] b [.offer]
  | answered {a b} : a.offering = true → a.controlling = true → b.offering = false → b.controlling = false →
      Stage a [.answer] b []
  | overtaken {a b} : a.offering = true → b.offering = true → b.controlling = true →
      Stage a [.answer, .offer] b []
  | unanswered {a b} : a.offering = true → a.controlling = true → b.offering = false → Stage a [] b []
  | late {a b} : a.offering = true → b.offering = true → b.controlling = true → Stage a [.offer] b []
  | stuck {a b} : a.offering = true → b.offering = true → Stage a [] b []

def AtStage (a : Party) (i : List Kind) (b : Party) (o : List Kind) : Prop := Stage a i b o ∨ Stage b o a i

theorem Stage.left {a b a' : Party} {i o i' sent : List Kind} (h : Stage a i b o) (hmove : Move a i a' i' sent) :
    AtStage a' i' b (o ++ sent) := by
  cases h with
  | quiet ha hb _ =>
    cases hmove with
    | offer => exact .inl (.offered rfl rfl hb)
  | offered ha _ hb =>
    cases hmove with
    | offer hidle => simp [ha] at hidle
  | answered ha hac hb hbc =>
    cases hmove with
    | offer hidle => simp [ha] at hidle
    | answer hidle => simp [ha] at hidle
    | accept => exact .inl (.quiet rfl hb (.inr (by simp [hac,hbc])))
    | refuse => exact .inl (.unanswered ha hac hb)
  | overtaken ha hb hbc =>
    cases hmove with
    | offer hidle => simp [ha] at hidle
    | answer hidle => simp [ha] at hidle
    | accept => exact .inr (.offered hb hbc rfl)
    | refuse => exact .inl (.late ha hb hbc)
  | unanswered ha _ hb =>
    cases hmove with
    | offer hidle => simp [ha] at hidle
  | late ha hb hbc =>
    cases hmove with
    | offer hidle => simp [ha] at hidle
    | answer hidle => simp [ha] at hidle
    | accept => exact .inr (.unanswered hb hbc rfl)
    | refuse => exact .inl (.stuck ha hb)
  | stuck ha hb =>
    cases hmove with
    | offer hidle => simp [ha] at hidle

theorem Stage.right {a b b' : Party} {i o o' sent : List Kind} (h : Stage a i b o) (hmove : Move b o b' o' sent) :
    AtStage a (i ++ sent) b' o' := by
  cases h with
  | quiet ha hb _ =>
    cases hmove with
    | offer => exact .inr (.offered rfl rfl ha)
  | offered ha hac hb =>
    cases hmove with
    | offer _ hnone => simp at hnone
    | answer => exact .inl (.answered ha hac rfl rfl)
    | accept hwait => simp [hb] at hwait
    | refuse => exact .inl (.unanswered ha hac hb)
  | answered ha hac hb hbc =>
    cases hmove with
    | offer => exact .inl (.overtaken ha rfl rfl)
  | overtaken ha hb _ =>
    cases hmove with
    | offer hidle => simp [hb] at hidle
  | unanswered ha _ hb =>
    cases hmove with
    | offer => exact .inl (.late ha rfl rfl)
  | late ha hb _ | stuck ha hb =>
    cases hmove with
    | offer hidle => simp [hb] at hidle

theorem AtStage.move {a b a' : Party} {i o i' sent : List Kind} (h : AtStage a i b o) (hmove : Move a i a' i' sent) :
    AtStage a' i' b (o ++ sent) :=
  h.elim (fun h => h.left hmove) fun h => (h.right hmove).symm

namespace Exchange
def Orderly (x : Exchange) : Prop := AtStage (x.party .caller) (x.inbox .caller) (x.party .callee) (x.inbox .callee)
theorem orderly_start : start.Orderly := .inl (.quiet rfl rfl (.inl ⟨rfl,rfl⟩))
theorem Orderly.seenFrom {x : Exchange} (h : x.Orderly) (p : Peer) :
    AtStage (x.party p) (x.inbox p) (x.party p.other) (x.inbox p.other) := by
  cases p with
  | caller => exact h
  | callee => exact h.symm
theorem Orderly.step {x y : Exchange} (h : x.Orderly) (hstep : Step x y) : y.Orderly := by
  obtain ⟨p,a,i,sent,hmove,rfl⟩ := hstep
  have hnext := (h.seenFrom p).move hmove
  cases p with
  | caller => exact hnext
  | callee => exact hnext.symm

/-- When everything has been said, one peer is in control and the other is not. -/
theorem Orderly.controlling_ne {x : Exchange} (h : x.Orderly) (hsettled : x.Settled) :
    (x.party .caller).controlling ≠ (x.party .callee).controlling := by
  obtain ⟨ha,hi,hia⟩ := hsettled .caller
  obtain ⟨hb,ho,hib⟩ := hsettled .callee
  have hquiet : ∀ {a b : Party} {i o : List Kind}, Stage a i b o → i = [] → o = [] → a.offering = false →
      b.offering = false → a.informed = true → a.controlling ≠ b.controlling := by
    intro a b i o hstage hi ho ha hb hinf
    cases hstage with
    | quiet _ _ hne =>
      rcases hne with ⟨hnot,-⟩ | hne
      · simp [hinf] at hnot
      · exact hne
    | offered | answered | overtaken | late => simp at hi ho
    | unanswered hwait => simp [ha] at hwait
    | stuck hwait => simp [ha] at hwait
  rcases h with hstage | hstage
  · exact hquiet hstage hi ho ha hb hia
  · exact (hquiet hstage ho hi hb ha hib).symm
end Exchange
end RustyRtc.OfferAnswer
