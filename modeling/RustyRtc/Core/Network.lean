import RustyRtc.Core.Session
import Mathlib.Logic.Function.Iterate

/-! # Two sessions and the datagrams between them

The channel loses, repeats and reorders datagrams but makes none up: what reaches one side is
in flight from the other.
-/
namespace RustyRtc.Core
variable (who : Side)
inductive Side where
  | left
  | right
  deriving DecidableEq
def Side.other : Side → Side
  | .left => .right
  | .right => .left
@[simp] theorem Side.other_other : who.other.other = who := by cases who <;> rfl
@[simp] theorem Side.other_ne : who.other ≠ who := by cases who <;> decide
theorem Side.eq_or_other (side : Side) : who = side ∨ who = side.other := by
  cases who <;> cases side <;> decide
def Net := Side → Session

/-- A thread of one side takes its turn, or the channel delivers, loses or repeats the datagram
at some position among those in flight. -/
inductive Act where
  | turn (who : Side) (t : Turn)
  | deliver (dest : Side) (i : ℕ)
  | lose (sender : Side) (i : ℕ)
  | duplicate (sender : Side) (i : ℕ)

namespace Net
def start (tokens : Side → UInt64) (rtp : Side → Except String Unit) : Net :=
  fun who => Session.start (tokens who) (rtp who)

variable (net : Net)
def set (who : Side) (s : Session) : Net := fun side => if side = who then s else net side
def sent (who : Side) : List AppMsg := (net who).shared.sent

def step : Act → Net
  | .turn who t => net.set who ((net who).step t)
  | .deliver dest i =>
    match (net.sent dest.other)[i]? with
    | none => net
    | some m =>
      (net.set dest ((net dest).arrive m)).set dest.other
        ((net dest.other).withSent ((net.sent dest.other).eraseIdx i))
  | .lose who i => net.set who ((net who).withSent ((net.sent who).eraseIdx i))
  | .duplicate who i =>
    match (net.sent who)[i]? with
    | none => net
    | some m => net.set who ((net who).withSent (net.sent who ++ [m]))

def run (acts : List Act) : Net := acts.foldl step net

/-- The messages on their way to a side: in flight, at its socket or in its receiver. -/
def pending (who : Side) : List AppMsg := (net who).queued ++ net.sent who.other

/-- All that an action of the network can do to one side. -/
inductive Change (net : Net) (a : Act) (who : Side) : Session → Prop where
  | same : Change net a who (net who)
  | turn (t : Turn) (h : a = .turn who t) : Change net a who ((net who).step t)
  | sent (sent : List AppMsg) (h : sent ⊆ net.sent who) : Change net a who ((net who).withSent sent)
  | arrive (m : AppMsg) (h : m ∈ net.sent who.other) : Change net a who ((net who).arrive m)

variable {net}

@[simp] theorem set_self (s : Session) : net.set who s who = s := if_pos rfl
theorem set_of_ne {who side : Side} (h : side ≠ who) (s : Session) : net.set who s side = net side :=
  if_neg h

theorem change (a : Act) (who : Side) : Change net a who (net.step a who) := by
  cases a with
  | turn side t =>
    by_cases h : who = side
    · subst h
      rw [step,set_self]
      exact .turn t rfl
    · rw [step,set_of_ne h]
      exact .same
  | deliver dest i =>
    cases hm : (net.sent dest.other)[i]? with
    | none => simpa only [step,hm] using .same
    | some m =>
      simp only [step,hm]
      rcases who.eq_or_other dest with rfl | rfl
      · rw [set_of_ne who.other_ne.symm,set_self]
        exact .arrive m (List.mem_of_getElem? hm)
      · rw [set_self]
        exact .sent _ List.eraseIdx_subset
  | lose side i =>
    by_cases h : who = side
    · subst h
      rw [step,set_self]
      exact .sent _ List.eraseIdx_subset
    · rw [step,set_of_ne h]
      exact .same
  | duplicate side i =>
    cases hm : (net.sent side)[i]? with
    | none => simpa only [step,hm] using .same
    | some m =>
      simp only [step,hm]
      by_cases h : who = side
      · subst h
        rw [set_self]
        exact .sent _ (by simp [List.mem_of_getElem? hm])
      · rw [set_of_ne h]
        exact .same

theorem queued_step_subset (a : Act) (who : Side) : (net.step a who).queued ⊆ net.pending who := by
  have hc := net.change a who
  generalize net.step a who = s' at hc
  intro m hm
  cases hc with
  | same => exact List.mem_append_left _ hm
  | turn t _ => exact List.mem_append_left _ (Session.queued_step t hm)
  | sent sent _ => exact List.mem_append_left _ hm
  | arrive x hx =>
    simp only [Session.queued,Session.arrive,← List.append_assoc,List.mem_append,
      List.mem_singleton] at hm
    rcases hm with hm | rfl
    · exact List.mem_append_left _ (List.mem_append.mpr hm)
    · exact List.mem_append_right _ hx
end Net

def receives (who : Side) (n : ℕ) : List Act := List.replicate n (.turn who .receiver)

theorem Net.run_receives (net : Net) (who : Side) (n : ℕ) :
    net.run (receives who n) who = Session.receive^[n] (net who) := by
  induction n generalizing net with
  | zero => rfl
  | succ n ih =>
    rw [Function.iterate_succ_apply]
    have hstep : net.step (.turn who .receiver) who = (net who).receive := Net.set_self ..
    rw [← hstep]
    exact ih (net.step (.turn who .receiver))

section Samples
def sampleTokens : Side → UInt64
  | .left => 2
  | .right => 1
def sampleNet : Net := Net.start sampleTokens fun _ => .ok ()
def drives (who : Side) (n : ℕ) : List Act := List.replicate n (.turn who (.handshake ⟨false,true⟩))
end Samples
end RustyRtc.Core
