import Mathlib.Tactic.TypeStar

/-! # Threads over shared state

The code of a thread is a tree of atomic actions, so that other threads may act between any
two of them. A contract says what the other threads leave alone while the thread runs, what
each of its actions guarantees to them, and what holds when its code ends. A thread that
meets its contract keeps doing so whatever happens within the contract's bounds.
-/
namespace RustyRtc

/-- What a thread has still to do. An atomic action goes on by the state it found, a wait by
what the environment answers. The end of the code says whether a loop goes round again. -/
inductive Prog (σ ι : Type*) where
  | ret (again : Bool)
  | atom (f : σ → σ) (next : σ → Prog σ ι)
  | await (next : ι → Prog σ ι)

namespace Prog
variable {σ ι α : Type*}
def load (get : σ → α) (next : α → Prog σ ι) : Prog σ ι := .atom id fun s => next (get s)
def store (f : σ → σ) (next : Prog σ ι) : Prog σ ι := .atom f fun _ => next
def step (i : ι) : Prog σ ι → σ → Prog σ ι × σ
  | .ret again, s => (.ret again,s)
  | .atom f next, s => (next s,f s)
  | .await next, s => (next i,s)

/-- One action of a thread that repeats `body`. -/
def resume (p body : Prog σ ι) (i : ι) (s : σ) : Prog σ ι × σ :=
  match p with
  | .ret true => (body,s)
  | p => p.step i s
end Prog

/-- The terms on which a thread shares its state with others. -/
structure Contract (σ α : Type*) where
  /-- What the others leave as it is. -/
  watch : σ → α
  /-- What each action of the thread does at most. -/
  guar : σ → σ → Prop
  /-- What holds when the code ends. -/
  post : Bool → σ → Prop
  guar_refl : ∀ s, guar s s

/-- From `s` on the thread keeps `inv` and its contract, whatever the others do. -/
def Meets {σ ι α : Type*} (inv : σ → Prop) (c : Contract σ α) : Prog σ ι → σ → Prop
  | .ret again, s => ∀ s', inv s' → c.watch s' = c.watch s → c.post again s'
  | .atom f next, s => ∀ s', inv s' → c.watch s' = c.watch s →
      inv (f s') ∧ c.guar s' (f s') ∧ Meets inv c (next s') (f s')
  | .await next, s => ∀ i, Meets inv c (next i) s

namespace Meets
variable {σ ι α β : Type*} {inv : σ → Prop} {c : Contract σ α} {p body : Prog σ ι} {s s' : σ} {again : Bool}
variable {f : σ → σ}
theorem rely (h : Meets inv c p s) (hw : c.watch s' = c.watch s) : Meets inv c p s' := by
  induction p with
  | ret again | atom f next => exact fun t ht hts => h t ht (hts.trans hw)
  | await next ih => exact fun i => ih i (h i)

theorem ret_post (h : Meets inv c (.ret again : Prog σ ι) s) (hs : inv s) : c.post again s := h s hs rfl
theorem step (h : Meets inv c p s) (hs : inv s) (i : ι) :
    inv (p.step i s).2 ∧ c.guar s (p.step i s).2 ∧ Meets inv c (p.step i s).1 (p.step i s).2 := by
  cases p with
  | ret again => exact ⟨hs,c.guar_refl s,h⟩
  | atom f next => exact h s hs rfl
  | await next => exact ⟨hs,c.guar_refl s,h i⟩

/-- The loop rule: what holds at the end of a round lets the next round start. -/
theorem resume (hbody : ∀ s, inv s → c.post true s → Meets inv c body s) (h : Meets inv c p s) (hs : inv s) (i : ι) :
    inv (p.resume body i s).2 ∧ c.guar s (p.resume body i s).2 ∧
      Meets inv c (p.resume body i s).1 (p.resume body i s).2 := by
  match p with
  | .ret true => exact ⟨hs,c.guar_refl s,hbody s hs (h.ret_post hs)⟩
  | .ret false => exact h.step hs i
  | .atom f next => exact h.step hs i
  | .await next => exact h.step hs i

theorem store (hf : ∀ t, inv t → c.watch t = c.watch s →
      inv (f t) ∧ c.guar t (f t) ∧ c.watch (f t) = c.watch t) (hp : Meets inv c p s) : Meets inv c (.store f p) s := by
  intro t ht hw
  obtain ⟨hinv,hguar,hwatch⟩ := hf t ht hw
  exact ⟨hinv,hguar,hp.rely (hwatch.trans hw)⟩
theorem storeTo (s' : σ) (hf : ∀ t, inv t → c.watch t = c.watch s →
      inv (f t) ∧ c.guar t (f t) ∧ c.watch (f t) = c.watch s') (hp : Meets inv c p s') :
    Meets inv c (.store f p) s := by
  intro t ht hw
  obtain ⟨hinv,hguar,hwatch⟩ := hf t ht hw
  exact ⟨hinv,hguar,hp.rely hwatch⟩
theorem load {get : σ → β} {next : β → Prog σ ι}
    (h : ∀ t, inv t → c.watch t = c.watch s → Meets inv c (next (get t)) s) : Meets inv c (.load get next) s :=
  fun t ht hw => ⟨ht,c.guar_refl t,(h t ht hw).rely hw⟩
theorem ret (h : ∀ t, inv t → c.watch t = c.watch s → c.post again t) : Meets inv c (.ret again : Prog σ ι) s := h
end Meets

section Symbolic
variable {σ ι α β : Type*} {inv : σ → Prop} {c : Contract σ α} {s : σ} {f : σ → σ}

@[simp] theorem meets_ret {again : Bool} : Meets inv c (.ret again : Prog σ ι) s ↔
    ∀ s', inv s' → c.watch s' = c.watch s → c.post again s' := Iff.rfl
@[simp] theorem meets_atom {next : σ → Prog σ ι} : Meets inv c (.atom f next) s ↔
    ∀ s', inv s' → c.watch s' = c.watch s →
      inv (f s') ∧ c.guar s' (f s') ∧ Meets inv c (next s') (f s') := Iff.rfl
@[simp] theorem meets_load {get : σ → β} {next : β → Prog σ ι} : Meets inv c (.load get next) s ↔
    ∀ s', inv s' → c.watch s' = c.watch s → Meets inv c (next (get s')) s' :=
  ⟨fun h s' hs' hw => (h s' hs' hw).2.2,fun h s' hs' hw => ⟨hs',c.guar_refl s',h s' hs' hw⟩⟩
@[simp] theorem meets_store : Meets inv c (.store f p) s ↔ ∀ s', inv s' → c.watch s' = c.watch s →
      inv (f s') ∧ c.guar s' (f s') ∧ Meets inv c p (f s') := Iff.rfl
@[simp] theorem meets_await {next : ι → Prog σ ι} : Meets inv c (.await next) s ↔
    ∀ i, Meets inv c (next i) s := Iff.rfl
@[simp] theorem meets_ite {P : Prop} [Decidable P] {q : Prog σ ι} :
    Meets inv c (if P then p else q) s ↔ (P → Meets inv c p s) ∧ (¬P → Meets inv c q s) := by
  split <;> simp [*]
end Symbolic
end RustyRtc
