import Mathlib.Data.Set.Insert
import Mathlib.Tactic.Tauto

/-! # Sliding bitmap windows

A growing set of naturals is compressed into its largest element and a mask of
fixed width. The mask remembers the elements close to the top exactly; everything
further behind is reported as seen. No element list is kept.
-/
namespace RustyRtc.SlidingWindow
variable {S : Set ℕ}

/-- Bit `d` of the mask stands for the natural `top - d`. -/
structure Window (w : ℕ) where
  top : ℕ
  mask : BitVec w

variable {w : ℕ}
def empty : Window w := ⟨0,0#w⟩
def Window.seen (W : Window w) (i : ℕ) : Bool :=
  if W.top < i then false
  else if w ≤ W.top - i then true
  else W.mask.getLsbD (W.top - i)
def Window.push (W : Window w) (i : ℕ) : Window w :=
  if W.top < i then
    ⟨i,(if i - W.top < w then W.mask <<< (i - W.top) else 0#w) ||| 1#w⟩
  else if W.top - i < w then ⟨W.top,W.mask ||| (1#w <<< (W.top - i))⟩
  else W

theorem Window.seen_push_self (hw : 0 < w) (W : Window w) (i : ℕ) : (W.push i).seen i = true := by
  unfold push
  split
  · simp [seen,hw]
  · split
    · next hlt h =>
      have hs : ¬ w ≤ W.top - i := by omega
      simp [seen,hlt,hs,h]
    · next hlt h => simp only [seen,if_neg hlt,if_pos (Nat.le_of_not_lt h)]

theorem Window.seen_push_of_seen {W : Window w} {j : ℕ} (i : ℕ) (h : W.seen j = true) : (W.push i).seen j = true := by
  have hj : ¬ W.top < j := by
    intro hlt
    simp [seen,hlt] at h
  unfold push
  split
  · next hi =>
    have hij : ¬ i < j := by omega
    by_cases hfar : w ≤ i - j
    · simp only [seen,if_neg hij,if_pos hfar]
    · have hold : ¬ w ≤ W.top - j := by omega
      have hbit : W.mask.getLsbD (W.top - j) = true := by simpa only [seen,if_neg hj,if_neg hold] using h
      have hsub : i - j - (i - W.top) = W.top - j := by omega
      have hge : ¬ i - j < i - W.top := by omega
      simp only [seen,if_neg hij,if_neg hfar,if_pos (show i - W.top < w by omega),
        BitVec.getLsbD_or,BitVec.getLsbD_shiftLeft,hsub,hbit]
      simp [hge,show i - j < w by omega]
  · split
    · by_cases hfar : w ≤ W.top - j
      · simp only [seen,if_neg hj,if_pos hfar]
      · have hbit : W.mask.getLsbD (W.top - j) = true := by simpa only [seen,if_neg hj,if_neg hfar] using h
        simp only [seen,if_neg hj,if_neg hfar,BitVec.getLsbD_or,hbit,Bool.true_or]
    · exact h

/-- The window is an exact account of the set `S` down to its width. -/
structure Tracks (W : Window w) (S : Set ℕ) : Prop where
  le_top : ∀ i ∈ S, i ≤ W.top
  top_mem : S.Nonempty → W.top ∈ S
  top_empty : ¬ S.Nonempty → W.top = 0
  bit : ∀ d, d < w → d ≤ W.top → (W.mask.getLsbD d = true ↔ W.top - d ∈ S)
theorem tracks_empty : Tracks (empty : Window w) ∅ where
  le_top := by simp
  top_mem := by simp
  top_empty := fun _ => rfl
  bit := by simp [empty]

theorem Tracks.push {W : Window w} (h : Tracks W S) (i : ℕ) : Tracks (W.push i) (insert i S) := by
  have hne : (insert i S).Nonempty := ⟨i,Set.mem_insert i S⟩
  unfold Window.push
  split
  · next hi =>
    refine ⟨?_,fun _ => Set.mem_insert i S,fun hn => absurd hne hn,?_⟩
    · rintro j (rfl | hj)
      · exact le_rfl
      · exact (h.le_top j hj).trans hi.le
    · intro d hd hdi
      dsimp only at hdi ⊢
      by_cases hd0 : d = 0
      · subst d
        simp [show 0 < w by omega]
      by_cases hnew : d < i - W.top
      · have hout : i - d ∉ insert i S := by
          rintro (heq | hmem)
          · omega
          · have := h.le_top _ hmem
            omega
        refine iff_of_false ?_ hout
        split <;> simp [hnew,hd0]
      · have hdiff : i - W.top < w := by omega
        have hidx : W.top - (d - (i - W.top)) = i - d := by omega
        have hb := h.bit (d - (i - W.top)) (by omega) (by omega)
        have hne' : i - d ≠ i := by omega
        rw [hidx] at hb
        simp only [if_pos hdiff,BitVec.getLsbD_or,BitVec.getLsbD_shiftLeft,BitVec.getLsbD_one]
        simp only [hd,hnew,hd0,decide_true,decide_false,Bool.not_false,Bool.true_and,
          Bool.and_false,Bool.or_false,hb,Set.mem_insert_iff,hne',false_or]
  · next hi =>
    have hle : i ≤ W.top := by omega
    have htop : W.top ∈ insert i S := by
      by_cases hS : S.Nonempty
      · exact Set.mem_insert_of_mem i (h.top_mem hS)
      · have h0 := h.top_empty hS
        exact Or.inl (by omega)
    have hbound : ∀ j ∈ insert i S, j ≤ W.top := by
      rintro j (rfl | hj)
      · exact hle
      · exact h.le_top j hj
    split
    · next hd =>
      refine ⟨hbound,fun _ => htop,fun hn => absurd hne hn,?_⟩
      intro d hdw hdt
      dsimp only at hdt ⊢
      have hb := h.bit d hdw hdt
      have hone : (1#w <<< (W.top - i)).getLsbD d = true ↔ W.top - d = i := by
        simp only [BitVec.getLsbD_shiftLeft,BitVec.getLsbD_one,Bool.and_eq_true,
          Bool.not_eq_true',decide_eq_true_eq,decide_eq_false_iff_not]
        omega
      simp only [BitVec.getLsbD_or,Bool.or_eq_true,hb,hone,Set.mem_insert_iff]
      exact or_comm
    · next hd =>
      refine ⟨hbound,fun _ => htop,fun hn => absurd hne hn,?_⟩
      intro d hdw hdt
      have hb := h.bit d hdw hdt
      have hne' : W.top - d ≠ i := by omega
      simp only [hb,Set.mem_insert_iff,hne',false_or]

theorem Tracks.pushAll {W : Window w} (h : Tracks W S) (l : List ℕ) :
    Tracks (l.foldl Window.push W) (S ∪ {i | i ∈ l}) := by
  induction l generalizing W S with
  | nil => simpa using h
  | cons i l ih =>
    have hs : S ∪ {j | j ∈ i :: l} = insert i S ∪ {j | j ∈ l} := by
      ext j
      simp only [Set.mem_union,Set.mem_ofPred_eq,List.mem_cons,Set.mem_insert_iff]
      tauto
    rw [hs]
    exact ih (h.push i)

/-- Seen means recorded, or too far behind the largest recorded element. -/
theorem Tracks.seen_iff (hw : 0 < w) {W : Window w} (h : Tracks W S) (i : ℕ) :
    W.seen i = true ↔ i ∈ S ∨ ∃ m ∈ S, (∀ k ∈ S, k ≤ m) ∧ i + w ≤ m := by
  unfold Window.seen
  split
  · next hi =>
    apply iff_of_false (by simp)
    rintro (hmem | ⟨m,hm,_,hfar⟩)
    · have := h.le_top i hmem
      omega
    · have := h.le_top m hm
      omega
  · next hi =>
    split
    · next hfar =>
      refine iff_of_true rfl (Or.inr ?_)
      by_cases hS : S.Nonempty
      · exact ⟨W.top,h.top_mem hS,h.le_top,by omega⟩
      · have := h.top_empty hS
        omega
    · next hnear =>
      have hb := h.bit (W.top - i) (by omega) (by omega)
      rw [show W.top - (W.top - i) = i by omega] at hb
      rw [hb]
      refine ⟨Or.inl,?_⟩
      rintro (hmem | ⟨m,hm,_,hfar⟩)
      · exact hmem
      · have := h.le_top m hm
        omega
end RustyRtc.SlidingWindow
