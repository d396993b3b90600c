import Mathlib.Data.List.Induction

/-! # Runs, machines and loops

Three shapes of execution over an arbitrary state type. A run applies a step function to
a list of inputs, and a condition may be asked of every step along it. A machine answers each
input, or stops for good; its history holds the inputs with their answers. Inputs that leave no trace
may be taken out of it. A loop repeats its body until the body stops; it carries the measure that
makes it total.
-/
namespace RustyRtc
section Runs
variable {σ α : Type*} (step : σ → α → σ) {I : σ → Prop} {s : σ} {as : List α}

/-- Every step of the run from `s` meets `p` in the state in front of it. -/
def Along (p : σ → α → Prop) : σ → List α → Prop
  | _, [] => True
  | s, a :: as => p s a ∧ Along p (step s a) as
instance Along.decidable (p : σ → α → Prop) [∀ s a, Decidable (p s a)] :
    ∀ s as, Decidable (Along step p s as)
  | _, [] => isTrue trivial
  | s, a :: as =>
    have := Along.decidable p (step s a) as
    inferInstanceAs (Decidable (p s a ∧ Along step p (step s a) as))

variable {step} {p q : σ → α → Prop}

/-- The invariant rule: steps that meet `p` keep `I`. -/
theorem Along.invariant (hstep : ∀ s a, I s → p s a → I (step s a))
    (h : Along step p s as) (hs : I s) : I (as.foldl step s) := by
  induction as generalizing s with
  | nil => exact hs
  | cons a as ih => exact ih h.2 (hstep s a hs h.1)

/-- What an invariant and one condition give at each step holds along the run. -/
theorem Along.imp_of_invariant (hstep : ∀ s a, I s → p s a → I (step s a))
    (hpq : ∀ s a, I s → p s a → q s a) (h : Along step p s as) (hs : I s) : Along step q s as := by
  induction as generalizing s with
  | nil => trivial
  | cons a as ih => exact ⟨hpq s a hs h.1,ih h.2 (hstep s a hs h.1)⟩

/-- Conditions that agree wherever `p` holds hold along the same runs. -/
theorem Along.congr {r : σ → α → Prop} (hqr : ∀ s a, p s a → (q s a ↔ r s a))
    (h : Along step p s as) : Along step q s as ↔ Along step r s as := by
  induction as generalizing s with
  | nil => exact Iff.rfl
  | cons a as ih => exact and_congr (hqr s a h.1) (ih h.2)

/-- Conditions that agree wherever `I` holds, if a step that meets them keeps `I`. -/
theorem along_iff_of_invariant (hpq : ∀ s a, I s → (p s a ↔ q s a))
    (hstep : ∀ s a, I s → p s a → I (step s a)) (hs : I s) : Along step p s as ↔ Along step q s as := by
  induction as generalizing s with
  | nil => exact Iff.rfl
  | cons a as ih =>
    constructor
    · exact fun h => ⟨(hpq s a hs).mp h.1,(ih (hstep s a hs h.1)).mp h.2⟩
    · intro h
      have hp := (hpq s a hs).mpr h.1
      exact ⟨hp,(ih (hstep s a hs hp)).mpr h.2⟩

theorem Along.concat {b : α} (h : Along step p s (as ++ [b])) : Along step p s as ∧ p (as.foldl step s) b := by
  induction as generalizing s with
  | nil => exact ⟨trivial,h.1⟩
  | cons a as ih => exact ⟨⟨h.1,(ih h.2).1⟩,(ih h.2).2⟩
theorem along_of_forall_mem {r : α → Prop} (h : ∀ a ∈ as, r a) (s : σ) : Along step (fun _ a => r a) s as := by
  induction as generalizing s with
  | nil => trivial
  | cons a as ih => exact ⟨h a (by simp),ih (fun b hb => h b (by simp [hb])) _⟩
end Runs

section Machines
variable {σ α ω : Type*} (step : σ → α → Option (σ × ω)) {as : List α} {h : List (α × ω)} {s s' : σ}
variable {P : List (α × ω) → σ → Prop} {h₁ h₂ : List (α × ω)}

/-- `s` is the state of the machine after the history `h`. -/
inductive Reaches (s₀ : σ) : List (α × ω) → σ → Prop
  | init : Reaches s₀ [] s₀
  | snoc {h s s' a o} : Reaches s₀ h s → step s a = some (s',o) → Reaches s₀ (h ++ [(a,o)]) s'
def trace (s : σ) : List α → Option (List (α × ω) × σ)
  | [] => some ([],s)
  | a :: as =>
    match step s a with
    | none => none
    | some (s',o) => (trace s' as).map fun r => ((a,o) :: r.1,r.2)

variable {step} {s₀ : σ}
theorem Reaches.trace {h' : List (α × ω)} (hs : Reaches step s₀ h s)
    (ht : trace step s as = some (h',s')) : Reaches step s₀ (h ++ h') s' := by
  induction as generalizing h s h' with
  | nil =>
    cases ht
    simpa using hs
  | cons a as ih =>
    rw [RustyRtc.trace] at ht
    cases hstep : step s a with
    | none => simp [hstep] at ht
    | some p =>
      obtain ⟨s₁,o⟩ := p
      rw [hstep] at ht
      obtain ⟨⟨h₁,s₂⟩,hrest,heq⟩ := Option.map_eq_some_iff.mp ht
      cases heq
      have hlong := ih (hs.snoc hstep) hrest
      simpa using hlong

theorem inputs_of_trace (ht : trace step s as = some (h,s')) : h.map Prod.fst = as := by
  induction as generalizing s h with
  | nil =>
    cases ht
    rfl
  | cons a as ih =>
    rw [RustyRtc.trace] at ht
    cases hstep : step s a with
    | none => simp [hstep] at ht
    | some p =>
      rw [hstep] at ht
      obtain ⟨⟨h₁,s₂⟩,hrest,heq⟩ := Option.map_eq_some_iff.mp ht
      cases heq
      exact congrArg (a :: ·) (ih hrest)

/-- A property of where a run on given inputs ends, found by running it. -/
theorem exists_reaches_on (as : List α) [∀ h s, Decidable (P h s)]
    (h : ((RustyRtc.trace step s₀ as).any fun r => P r.1 r.2) = true) :
    ∃ h s, Reaches step s₀ h s ∧ h.map Prod.fst = as ∧ P h s := by
  cases hr : RustyRtc.trace step s₀ as with
  | none => simp [hr] at h
  | some r =>
    rw [hr] at h
    exact ⟨r.1,r.2,by simpa using Reaches.init.trace hr,inputs_of_trace hr,of_decide_eq_true h⟩

theorem exists_reaches_of_trace (as : List α) [∀ h s, Decidable (P h s)]
    (h : ((RustyRtc.trace step s₀ as).any fun r => P r.1 r.2) = true) : ∃ h s, Reaches step s₀ h s ∧ P h s := by
  obtain ⟨h,s,hs,-,hP⟩ := exists_reaches_on as h
  exact ⟨h,s,hs,hP⟩

theorem Reaches.front (h : Reaches step s₀ (h₁ ++ h₂) s) : ∃ s₁, Reaches step s₀ h₁ s₁ := by
  induction h₂ using List.reverseRecOn generalizing s with
  | nil => exact ⟨s,by simpa using h⟩
  | append_singleton h₂ x ih =>
    rw [← List.append_assoc] at h
    generalize hl : h₁ ++ h₂ ++ [x] = l at h
    cases h with
    | init => simp at hl
    | snoc hprev hstep =>
      obtain ⟨rfl,-⟩ := List.append_inj' hl rfl
      exact ih hprev

theorem Reaches.middle {a : α} {o : ω} (h : Reaches step s₀ (h₁ ++ (a,o) :: h₂) s) :
    ∃ s₁ s₂, Reaches step s₀ h₁ s₁ ∧ step s₁ a = some (s₂,o) := by
  rw [List.append_cons] at h
  obtain ⟨s₂,hfront⟩ := h.front
  generalize hl : h₁ ++ [(a,o)] = l at hfront
  cases hfront with
  | init => simp at hl
  | @snoc h' s₁ _ a' o' hprev hstep =>
    obtain ⟨rfl,hx⟩ := List.append_inj' hl rfl
    obtain ⟨rfl,rfl⟩ := Prod.mk.inj (List.singleton_inj.mp hx)
    exact ⟨s₁,s₂,hprev,hstep⟩

theorem Reaches.unique (hs : Reaches step s₀ h s) (hs' : Reaches step s₀ h s') : s = s' := by
  induction hs generalizing s' with
  | init =>
    generalize hl : ([] : List (α × ω)) = l at hs'
    cases hs' with
    | init => rfl
    | snoc => simp at hl
  | @snoc h s₁ s₂ a o _ hstep ih =>
    generalize hl : h ++ [(a,o)] = l at hs'
    cases hs' with
    | init => simp at hl
    | snoc hprev hstep' =>
      obtain ⟨rfl,hx⟩ := List.append_inj' hl rfl
      obtain ⟨rfl,rfl⟩ := Prod.mk.inj (List.singleton_inj.mp hx)
      obtain rfl := ih hprev
      exact (Prod.mk.inj (Option.some.inj (hstep.symm.trans hstep'))).1

/-- A machine that looks at its inputs only through `f` gives the same answers, and ends in the same
state, on all inputs that `f` does not tell apart. -/
theorem Reaches.congr {β : Type*} {f : α → β} (hf : ∀ s a a', f a = f a' → step s a = step s a')
    (hs : Reaches step s₀ h s)
    (has : as.map f = h.map fun x => f x.1) : Reaches step s₀ (as.zip (h.map Prod.snd)) s := by
  induction hs generalizing as with
  | init =>
    obtain rfl : as = [] := by simpa using has
    exact .init
  | @snoc h s s' a o hprev hstep ih =>
    rw [List.map_append,List.map_cons,List.map_nil] at has
    obtain ⟨front,last,rfl,hfront,hlast⟩ := List.map_eq_append_iff.mp has
    obtain ⟨a',rfl,ha⟩ := List.map_eq_singleton_iff.mp hlast
    have hlen : front.length = (h.map Prod.snd).length := by
      have := congrArg List.length hfront
      simpa using this
    rw [List.map_append,List.zip_append hlen]
    exact (ih hfront).snoc ((hf s a' a ha).trans hstep)
end Machines

section Erasure
variable {σ α ω : Type*} {step : σ → α → σ × ω}
def answers (step : σ → α → σ × ω) : σ → List α → List ω
  | _, [] => []
  | s, a :: as => (step s a).2 :: answers step (step s a).1 as

/-- If related states answer alike and stay related, and an input that is not kept leaves its state related to
whatever it was related to, then the kept inputs alone get the same answers. -/
theorem answers_filter {R : σ → σ → Prop} {keep : α × ω → Bool}
    (hstep : ∀ s t a, R s t → (step s a).2 = (step t a).2 ∧ R (step s a).1 (step t a).1)
    (hdrop : ∀ s t a, R s t → keep (a,(step s a).2) = false → R (step s a).1 t) {s t : σ} (hst : R s t) (as : List α) :
    let kept := (as.zip (answers step s as)).filter keep
    answers step t (kept.map Prod.fst) = kept.map Prod.snd := by
  induction as generalizing s t with
  | nil => rfl
  | cons a as ih =>
    simp only [answers,List.zip_cons_cons,List.filter_cons]
    split
    · obtain ⟨hanswer,hnext⟩ := hstep s t a hst
      simp only [List.map_cons,answers,hanswer]
      exact congrArg _ (ih hnext)
    · next hkeep => exact ih (hdrop s t a hst (Bool.eq_false_iff.mpr hkeep))
end Erasure

/-- The body gives the next state and some output, or stops. -/
structure Loop (σ ω : Type*) where
  body : σ → Option (σ × List ω)
  measure : σ → ℕ
  decreases : ∀ {s s' out}, body s = some (s',out) → measure s' < measure s

namespace Loop
variable {σ ω : Type*} (L : Loop σ ω)

/-- The state in which the loop stops, and all it has put out. -/
def run (s : σ) : σ × List ω :=
  match h : L.body s with
  | none => (s,[])
  | some (s',out) => ((run s').1,out ++ (run s').2)
termination_by L.measure s
decreasing_by all_goals exact L.decreases h
def visited (s : σ) : List σ :=
  match h : L.body s with
  | none => []
  | some (s',_) => s :: visited s'
termination_by L.measure s
decreasing_by exact L.decreases h

variable {L} {s s' : σ} {out : List ω}
theorem run_stop (h : L.body s = none) : L.run s = (s,[]) := by
  rw [run]
  split
  · rfl
  · next heq => simp [h] at heq

theorem run_next (h : L.body s = some (s',out)) : L.run s = ((L.run s').1,out ++ (L.run s').2) := by
  rw [run]
  split
  · next heq => simp [h] at heq
  · next heq =>
    obtain ⟨rfl,rfl⟩ := Prod.mk.inj (Option.some.inj (heq.symm.trans h))
    rfl

theorem visited_stop (h : L.body s = none) : L.visited s = [] := by
  rw [visited]
  split
  · rfl
  · next heq => simp [h] at heq

theorem visited_next (h : L.body s = some (s',out)) : L.visited s = s :: L.visited s' := by
  rw [visited]
  split
  · next heq => simp [h] at heq
  · next heq =>
    obtain ⟨rfl,_⟩ := Prod.mk.inj (Option.some.inj (heq.symm.trans h))
    rfl

/-- The induction rule of a loop follows its iterations. -/
theorem induction {motive : σ → Prop} (stop : ∀ s, L.body s = none → motive s)
    (next : ∀ s s' out, L.body s = some (s',out) → motive s' → motive s) (s : σ) : motive s := by
  cases h : L.body s with
  | none => exact stop s h
  | some r => exact next s r.1 r.2 h (induction stop next r.1)
termination_by L.measure s
decreasing_by exact L.decreases h

theorem length_visited_le (L : Loop σ ω) (s : σ) : (L.visited s).length ≤ L.measure s := by
  induction s using L.induction with
  | stop s h => simp [visited_stop h]
  | next s s' out h ih =>
    rw [visited_next h,List.length_cons]
    exact Nat.succ_le_of_lt (Nat.lt_of_le_of_lt ih (L.decreases h))
end Loop
end RustyRtc
