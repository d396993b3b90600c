import Mathlib.Data.List.Forall2

/-! # Pipelines with gates

Items go from a source through a row of queues to an end. In front of each queue there is a gate: an item that
comes to an open one passes, at a closed one it is lost. As long as no gate opens again after items have come,
what arrives at the end is an initial part of what left the source.
-/
namespace RustyRtc
variable {α : Type*}
abbrev Pipeline (α : Type*) := List (Prop × List α)

namespace Pipeline
def held (qs : Pipeline α) : List α := qs.flatMap Prod.snd

@[simp] theorem held_nil : held ([] : Pipeline α) = [] := rfl
@[simp] theorem held_cons (q : Prop × List α) (qs : Pipeline α) : held (q :: qs) = q.2 ++ held qs := rfl
@[simp] theorem held_append (qs qs' : Pipeline α) : held (qs ++ qs') = held qs ++ held qs' := List.flatMap_append
theorem held_congr {R : Prop → Prop → Prop} {qs qs' : Pipeline α}
    (h : List.Forall₂ (fun q q' => R q.1 q'.1 ∧ q.2 = q'.2) qs qs') : held qs = held qs' := by
  induction h with
  | nil => rfl
  | cons h _ ih => rw [held_cons,held_cons,h.2,ih]
end Pipeline

/-- `out` has come through, and the queues hold the rest of `src`, as far as no gate is closed. -/
def Flows : List α → Pipeline α → List α → Prop
  | out,[],src => out = src
  | out,(gate,queue) :: rest,src =>
    (gate ∧ Flows (out ++ queue) rest src) ∨ (¬ gate ∧ out <+: src ∧ Pipeline.held ((gate,queue) :: rest) ⊆ src)

namespace Flows
variable {out src queue queue' : List α} {gate gate' : Prop} {qs qs' post : Pipeline α} {x : α}
theorem initial (h : Flows out qs src) : out <+: src := by
  induction qs generalizing out with
  | nil => exact h ▸ List.prefix_rfl
  | cons q qs ih =>
    rcases h with ⟨-,h⟩ | ⟨-,h,-⟩
    · exact (List.prefix_append out q.2).trans (ih h)
    · exact h

theorem held_subset (h : Flows out qs src) : Pipeline.held qs ⊆ src := by
  induction qs generalizing out with
  | nil => simp
  | cons q qs ih =>
    rcases h with ⟨-,h⟩ | ⟨-,-,h⟩
    · have hq : q.2 ⊆ src := List.Subset.trans (List.suffix_append out q.2).subset h.initial.subset
      simpa using List.append_subset.mpr ⟨hq,ih h⟩
    · exact h

theorem close (h : Flows out qs src) (hqs : List.Forall₂ (fun q q' => (q'.1 → q.1) ∧ q.2 = q'.2) qs qs') :
    Flows out qs' src := by
  induction hqs generalizing out with
  | nil => exact h
  | @cons q q' qs qs' hq hqs ih =>
    have hheld : Pipeline.held (q :: qs) = Pipeline.held (q' :: qs') :=
      Pipeline.held_congr (R := fun g g' => g' → g) (.cons hq hqs)
    by_cases hopen : q'.1
    · rcases h with ⟨-,h⟩ | ⟨hclosed,-⟩
      · exact .inl ⟨hopen,hq.2 ▸ ih h⟩
      · exact absurd (hq.1 hopen) hclosed
    · exact .inr ⟨hopen,h.initial,hheld ▸ h.held_subset⟩

theorem push (pre : Pipeline α) (h : Flows out (pre ++ [(gate,queue)]) src) : Flows out (pre ++ [(gate,queue ++ [x])]) (src ++ [x]) := by
  have hsubset : Pipeline.held (pre ++ [(gate,queue ++ [x])]) ⊆ src ++ [x] := by
    have hheld : Pipeline.held (pre ++ [(gate,queue ++ [x])]) = Pipeline.held (pre ++ [(gate,queue)]) ++ [x] := by
      simp
    rw [hheld]
    exact List.append_subset.mpr
      ⟨List.Subset.trans h.held_subset (List.subset_append_left _ _),List.subset_append_right _ _⟩
  induction pre generalizing out with
  | nil =>
    rcases h with ⟨hopen,h⟩ | ⟨hclosed,hle,-⟩
    · exact .inl ⟨hopen,by rw [← List.append_assoc]; exact congrArg (· ++ [x]) h⟩
    · exact .inr ⟨hclosed,hle.trans (List.prefix_append _ _),hsubset⟩
  | cons q pre ih =>
    rcases h with ⟨hopen,h⟩ | ⟨hclosed,hle,-⟩
    · exact .inl ⟨hopen,ih h (List.Subset.trans (List.subset_append_right _ _) hsubset)⟩
    · exact .inr ⟨hclosed,hle.trans (List.prefix_append _ _),hsubset⟩

theorem pass (pre : Pipeline α) (h : Flows out (pre ++ (gate,queue) :: (gate',x :: queue') :: post) src) (hopen : gate') :
    Flows out (pre ++ (gate,queue ++ [x]) :: (gate',queue') :: post) src := by
  induction pre generalizing out with
  | nil =>
    rcases h with ⟨hgate,⟨-,h⟩ | ⟨hclosed,-⟩⟩ | ⟨hclosed,hle,hsubset⟩
    · exact .inl ⟨hgate, .inl ⟨hopen,by simpa using h⟩⟩
    · exact absurd hopen hclosed
    · exact .inr ⟨hclosed,hle,by simpa using hsubset⟩
  | cons q pre ih =>
    rcases h with ⟨hgate,h⟩ | ⟨hclosed,hle,hsubset⟩
    · exact .inl ⟨hgate,ih h⟩
    · exact .inr ⟨hclosed,hle,by simpa using hsubset⟩

theorem lose (pre : Pipeline α) (h : Flows out (pre ++ (gate',x :: queue') :: post) src) (hclosed : ¬ gate') :
    Flows out (pre ++ (gate',queue') :: post) src := by
  induction pre generalizing out with
  | nil =>
    rcases h with ⟨hopen,-⟩ | ⟨-,hle,hsubset⟩
    · exact absurd hopen hclosed
    · exact .inr ⟨hclosed,hle,List.Subset.trans (List.subset_cons_self x _) hsubset⟩
  | cons q pre ih =>
    rcases h with ⟨hgate,h⟩ | ⟨hgate,hle,hsubset⟩
    · exact .inl ⟨hgate,ih h⟩
    · refine .inr ⟨hgate,hle,fun y hy => hsubset ?_⟩
      simp only [List.append_eq,Pipeline.held_cons,Pipeline.held_append,List.mem_append,List.mem_cons] at hy ⊢
      tauto

theorem leave (h : Flows out ((gate,x :: queue) :: post) src) (hopen : gate) :
    Flows (out ++ [x]) ((gate,queue) :: post) src := by
  rcases h with ⟨-,h⟩ | ⟨hclosed,-⟩
  · exact .inl ⟨hopen,by simpa using h⟩
  · exact absurd hopen hclosed

theorem of_held_eq_nil (h : Pipeline.held qs = []) : Flows ([] : List α) qs [] := by
  induction qs with
  | nil => rfl
  | cons q qs ih =>
    obtain ⟨hq,hqs⟩ := List.append_eq_nil_iff.mp h
    by_cases hopen : q.1
    · exact .inl ⟨hopen,by simpa [hq] using ih hqs⟩
    · exact .inr ⟨hopen,List.prefix_rfl,by rw [h]; simp⟩

theorem eq_nil (h : Flows out qs []) : out = [] ∧ Pipeline.held qs = [] :=
  ⟨List.prefix_nil.mp h.initial,List.subset_nil.mp h.held_subset⟩
end Flows
end RustyRtc
