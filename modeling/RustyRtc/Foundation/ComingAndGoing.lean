import Mathlib.Data.List.Chain
import RustyRtc.Foundation.Execution

/-! # Notices about what comes and goes

A state holds a value or none. An observer of a run is told when a value appears and when it goes, and nothing
else. Then what the observer is told alternates, and the last notice says whether there is a value.
-/
namespace RustyRtc
variable {κ : Type*} {x y z : Option κ} {notices : List Bool}
inductive Notified (x y : Option κ) : List Bool → Prop
  | same : y = x → Notified x y []
  | appears {k : κ} : x = none → y = some k → Notified x y [true]
  | goes {k : κ} : x = some k → y = none → Notified x y [false]
structure Told (x y : Option κ) (notices : List Bool) : Prop where
  alternate : notices.IsChain (· ≠ ·)
  first : ∀ b ∈ notices.head?, b = x.isNone
  last : ∀ b ∈ notices.getLast?, b = y.isSome
  unchanged : notices = [] → y = x

theorem Told.refl (x : Option κ) : Told x x [] := ⟨List.isChain_nil,by simp,by simp,fun _ => rfl⟩
theorem Told.concat (h : Told x y notices) {b : Bool} (hyz : y.isSome = !b)
    (hz : z.isSome = b) : Told x z (notices ++ [b]) := by
  refine ⟨List.isChain_append.mpr ⟨h.alternate,List.isChain_singleton b,?_⟩,?_,?_,fun hnil => absurd hnil (by simp)⟩
  · intro last hlast b' hb'
    obtain rfl : b = b' := by simpa using hb'
    rw [h.last last hlast,hyz]
    simp
  · intro first hfirst
    cases notices with
    | nil =>
      obtain rfl : b = first := by simpa using hfirst
      rw [← h.unchanged rfl,← Option.not_isSome,hyz,Bool.not_not]
    | cons b' notices => exact h.first first hfirst
  · intro last hlast
    obtain rfl : b = last := by simpa using hlast
    exact hz.symm

theorem Told.append {said : List Bool} (h : Told x y notices) (hsaid : Notified y z said) :
    Told x z (notices ++ said) := by
  cases hsaid with
  | same hz =>
    rw [List.append_nil,hz]
    exact h
  | appears hy hz | goes hy hz => exact h.concat (by rw [hy]; rfl) (by rw [hz]; rfl)

section Runs
variable {σ α ω : Type*} {step : σ → α → Option (σ × ω)} {s₀ s : σ} {h : List (α × ω)}
variable {ok : α → Prop} {I : σ → Prop} {f : σ → Option κ} {say : α × ω → List Bool}

/-- The run rule: steps that keep `I` say how `f` changes, as long as the inputs are `ok`. -/
theorem Reaches.told
    (hstep : ∀ s a s' o, I s → ok a → step s a = some (s',o) → I s' ∧ Notified (f s) (f s') (say (a,o)))
    (hs₀ : I s₀) (hs : Reaches step s₀ h s) (hok : ∀ x ∈ h, ok x.1) : I s ∧ Told (f s₀) (f s) (h.flatMap say) := by
  induction hs with
  | init => exact ⟨hs₀,Told.refl _⟩
  | snoc _ hnext ih =>
    obtain ⟨hprev,hlast⟩ := List.forall_mem_append.mp hok
    obtain ⟨hI,htold⟩ := ih hprev
    obtain ⟨hI,hsaid⟩ := hstep _ _ _ _ hI (hlast _ (List.mem_singleton_self _)) hnext
    rw [List.flatMap_append,List.flatMap_singleton]
    exact ⟨hI,htold.append hsaid⟩

/-- The last notice is that a value has appeared exactly if there is one now that was not there all the time. -/
theorem Reaches.last_appears_iff
    (hstep : ∀ s a s' o, I s → ok a → step s a = some (s',o) → I s' ∧ Notified (f s) (f s') (say (a,o)))
    (hs₀ : I s₀) (hs : Reaches step s₀ h s) (hok : ∀ x ∈ h, ok x.1) : (h.flatMap say).getLast? = some true ↔
      ∃ k, f s = some k ∧ ∃ h₁ h₂ s₁, h = h₁ ++ h₂ ∧ Reaches step s₀ h₁ s₁ ∧ f s₁ ≠ some k := by
  induction hs with
  | init =>
    simp only [List.flatMap_nil,List.getLast?_nil,reduceCtorEq,false_iff]
    rintro ⟨k,hk,h₁,h₂,s₁,hnil,hs₁,hne⟩
    obtain ⟨rfl,-⟩ := List.append_eq_nil_iff.mp hnil.symm
    obtain rfl := Reaches.unique .init hs₁
    exact hne hk
  | @snoc h s s' a o hprev hnext ih =>
    obtain ⟨hokprev,hlast⟩ := List.forall_mem_append.mp hok
    obtain ⟨hI,-⟩ := hprev.told hstep hs₀ hokprev
    obtain ⟨-,hsaid⟩ := hstep _ _ _ _ hI (hlast _ (List.mem_singleton_self _)) hnext
    rw [List.flatMap_append,List.flatMap_singleton]
    generalize hsay : say (a,o) = said at hsaid
    cases hsaid with
    | same hz =>
      rw [List.append_nil,ih hokprev,hz]
      refine exists_congr fun k => and_congr_right fun hk => ?_
      constructor
      · rintro ⟨h₁,h₂,s₁,rfl,hs₁,hne⟩
        exact ⟨h₁,h₂ ++ [(a,o)],s₁,List.append_assoc ..,hs₁,hne⟩
      · rintro ⟨h₁,h₂,s₁,hsplit,hs₁,hne⟩
        rcases List.eq_nil_or_concat h₂ with rfl | ⟨h₂',x,rfl⟩
        · -- the value is there at the end
          rw [List.append_nil] at hsplit
          obtain rfl := (hprev.snoc hnext).unique (hsplit ▸ hs₁)
          exact absurd (hz.trans hk) hne
        · rw [List.concat_eq_append,← List.append_assoc] at hsplit
          exact ⟨h₁,h₂',s₁,(List.append_inj' hsplit rfl).1,hs₁,hne⟩
    | @appears k hy hz =>
      simp only [List.getLast?_concat,true_iff]
      exact ⟨k,hz,h,[(a,o)],s,rfl,hprev,by simp [hy]⟩
    | goes hy hz => simp [hz]
end Runs

/-- Only one element of a list without repetitions has something to say. -/
theorem flatMap_eq_of_only {α γ : Type*} [DecidableEq α] {l : List α} (hl : l.Nodup) {a : α} {g : α → List γ}
    (hg : ∀ x ∈ l, x ≠ a → g x = []) : l.flatMap g = if a ∈ l then g a else [] := by
  induction l with
  | nil => simp
  | cons x l ih =>
    obtain ⟨hx,hl⟩ := List.nodup_cons.mp hl
    rw [List.flatMap_cons, ih hl fun y hy => hg y (by simp [hy])]
    by_cases ha : x = a
    · subst ha
      simp [hx]
    · simp [hg x (by simp) ha,Ne.symm ha]
end RustyRtc
