import RustyRtc.Foundation.SlidingWindow

/-! # The SRTP replay window

The record is the literal pair of words of `replay_window.rs`. Every fact about it is
read off the sliding bitmap window of width 64 that it represents.
-/
namespace RustyRtc.Srtp
open SlidingWindow

def replayWindowSize : UInt64 := 64

/-- `u64::saturating_sub`. -/
def saturatingSub (a b : UInt64) : UInt64 := if b ≤ a then a - b else 0
structure ReplayWindow where
  maxIndex : UInt64
  window : UInt64
  deriving DecidableEq, Repr

namespace ReplayWindow
variable {d : UInt64} (W : ReplayWindow)
def new : ReplayWindow := ⟨0,0⟩
def isReplay (W : ReplayWindow) (index : UInt64) : Bool :=
  if index > W.maxIndex then false
  else
    let diff := saturatingSub W.maxIndex index
    if diff ≥ replayWindowSize then true
    else W.window &&& (1 <<< diff) != 0

def record (W : ReplayWindow) (index : UInt64) : ReplayWindow :=
  if index > W.maxIndex then
    let diff := saturatingSub index W.maxIndex
    ⟨index,(if diff < replayWindowSize then W.window <<< diff else 0) ||| 1⟩
  else
    let diff := saturatingSub W.maxIndex index
    if diff < replayWindowSize then ⟨W.maxIndex,W.window ||| (1 <<< diff)⟩ else W

def view (W : ReplayWindow) : Window 64 := ⟨W.maxIndex.toNat,W.window.toBitVec⟩
@[simp] theorem view_top : W.view.top = W.maxIndex.toNat := rfl
@[simp] theorem view_mask : W.view.mask = W.window.toBitVec := rfl
@[simp] theorem view_new : new.view = empty := rfl
theorem saturatingSub_toNat {a b : UInt64} (h : b ≤ a) : (saturatingSub a b).toNat = a.toNat - b.toNat := by
  rw [saturatingSub,if_pos h,UInt64.toNat_sub_of_le a b h]
theorem shiftLeft_toBitVec (x : UInt64) (hd : d < replayWindowSize) : (x <<< d).toBitVec = x.toBitVec <<< d.toNat := by
  have hlt : d.toNat < 64 := UInt64.lt_iff_toNat_lt.mp hd
  rw [UInt64.toBitVec_shiftLeft,BitVec.shiftLeft_eq',BitVec.toNat_umod]
  congr 1
  simp only [UInt64.toNat_toBitVec]
  exact Nat.mod_eq_of_lt hlt

/-- Testing one bit of the mask word is reading that bit. -/
theorem and_shift_ne_zero (x : UInt64) (hd : d < replayWindowSize) :
    (x &&& (1 <<< d) != 0) = x.toBitVec.getLsbD d.toNat := by
  have hlt : d.toNat < 64 := UInt64.lt_iff_toNat_lt.mp hd
  have hbit : (x &&& (1 <<< d)).toBitVec =
      if x.toBitVec.getLsbD d.toNat then BitVec.twoPow 64 d.toNat else 0#64 := by
    rw [UInt64.toBitVec_and,shiftLeft_toBitVec 1 hd,← BitVec.and_twoPow,BitVec.twoPow_eq]
    rfl
  have hpow : BitVec.twoPow 64 d.toNat ≠ 0#64 := by
    intro h
    have := congrArg (BitVec.getLsbD · d.toNat) h
    simp [hlt] at this
  rw [bne,beq_eq_decide,Bool.eq_iff_iff]
  simp only [Bool.not_eq_true',decide_eq_false_iff_not,← UInt64.toBitVec_inj,hbit]
  cases x.toBitVec.getLsbD d.toNat
  · simp
  · simpa using hpow

theorem isReplay_eq_seen (index : UInt64) : W.isReplay index = W.view.seen index.toNat := by
  simp only [isReplay,Window.seen,view_top,view_mask]
  by_cases hgt : index > W.maxIndex
  · have hlt : W.maxIndex.toNat < index.toNat := UInt64.lt_iff_toNat_lt.mp hgt
    simp only [hgt,hlt,↓reduceIte]
  · have hle : index ≤ W.maxIndex := UInt64.not_lt.mp hgt
    have hnlt : ¬ W.maxIndex.toNat < index.toNat := Nat.not_lt.mpr (UInt64.le_iff_toNat_le.mp hle)
    simp only [if_neg hgt,if_neg hnlt,← saturatingSub_toNat hle]
    by_cases hlt : saturatingSub W.maxIndex index < replayWindowSize
    · have hlt' : (saturatingSub W.maxIndex index).toNat < 64 := UInt64.lt_iff_toNat_lt.mp hlt
      simp only [ge_iff_le,if_neg (UInt64.not_le.mpr hlt),if_neg (Nat.not_le.mpr hlt'),
        and_shift_ne_zero _ hlt]
    · have hge := UInt64.not_lt.mp hlt
      have hge' : 64 ≤ (saturatingSub W.maxIndex index).toNat := UInt64.le_iff_toNat_le.mp hge
      simp only [ge_iff_le,if_pos hge,if_pos hge']

theorem view_record (index : UInt64) : (W.record index).view = W.view.push index.toNat := by
  simp only [record,Window.push,view_top,view_mask]
  by_cases hgt : index > W.maxIndex
  · have hlt : W.maxIndex.toNat < index.toNat := UInt64.lt_iff_toNat_lt.mp hgt
    simp only [if_pos hgt,if_pos hlt,← saturatingSub_toNat (UInt64.le_of_lt hgt)]
    by_cases hd : saturatingSub index W.maxIndex < replayWindowSize
    · have hd' : (saturatingSub index W.maxIndex).toNat < 64 := UInt64.lt_iff_toNat_lt.mp hd
      simp only [if_pos hd,if_pos hd',view,UInt64.toBitVec_or,shiftLeft_toBitVec _ hd]
      rfl
    · have hd' : ¬ (saturatingSub index W.maxIndex).toNat < 64 :=
        fun h => hd (UInt64.lt_iff_toNat_lt.mpr h)
      simp only [if_neg hd,if_neg hd',view,UInt64.toBitVec_or]
      rfl
  · have hle : index ≤ W.maxIndex := UInt64.not_lt.mp hgt
    have hnlt : ¬ W.maxIndex.toNat < index.toNat := Nat.not_lt.mpr (UInt64.le_iff_toNat_le.mp hle)
    simp only [if_neg hgt,if_neg hnlt,← saturatingSub_toNat hle]
    by_cases hd : saturatingSub W.maxIndex index < replayWindowSize
    · have hd' : (saturatingSub W.maxIndex index).toNat < 64 := UInt64.lt_iff_toNat_lt.mp hd
      simp only [if_pos hd,if_pos hd',view,UInt64.toBitVec_or,shiftLeft_toBitVec _ hd]
      rfl
    · have hd' : ¬ (saturatingSub W.maxIndex index).toNat < 64 :=
        fun h => hd (UInt64.lt_iff_toNat_lt.mpr h)
      simp only [if_neg hd,if_neg hd']

theorem isReplay_record_self (index : UInt64) : (W.record index).isReplay index = true := by
  rw [isReplay_eq_seen,view_record]
  exact Window.seen_push_self (by decide) _ _
theorem isReplay_record_of_isReplay {W : ReplayWindow} {j : UInt64} (index : UInt64)
    (h : W.isReplay j = true) : (W.record index).isReplay j = true := by
  rw [isReplay_eq_seen] at h ⊢
  rw [view_record]
  exact Window.seen_push_of_seen _ h
def recordAll (W : ReplayWindow) (recorded : List UInt64) : ReplayWindow := recorded.foldl record W

theorem view_recordAll (recorded : List UInt64) :
    (W.recordAll recorded).view = (recorded.map UInt64.toNat).foldl Window.push W.view := by
  induction recorded generalizing W with
  | nil => rfl
  | cons i rest ih =>
    have h := ih (W.record i)
    rw [view_record] at h
    exact h

/-- The mask and the maximum account for the whole history of recorded indices. -/
theorem recordAll_isReplay_iff (recorded : List UInt64) (i : UInt64) : (new.recordAll recorded).isReplay i = true ↔
      i ∈ recorded ∨ ∃ m ∈ recorded, (∀ k ∈ recorded, k ≤ m) ∧ i.toNat + 64 ≤ m.toNat := by
  have ht := (tracks_empty (w := 64)).pushAll (recorded.map UInt64.toNat)
  rw [isReplay_eq_seen,view_recordAll,view_new,ht.seen_iff (by decide)]
  simp only [Set.empty_union,Set.mem_ofPred_eq,List.mem_map,UInt64.toNat_inj,exists_eq_right,
    UInt64.le_iff_toNat_le]
  constructor
  · rintro (h | ⟨_,⟨m,hm,rfl⟩,hmax,hfar⟩)
    · exact Or.inl h
    · exact Or.inr ⟨m,hm,fun k hk => hmax _ ⟨k,hk,rfl⟩,hfar⟩
  · rintro (h | ⟨m,hm,hmax,hfar⟩)
    · exact Or.inl h
    · refine Or.inr ⟨m.toNat,⟨m,hm,rfl⟩,?_,hfar⟩
      rintro _ ⟨k,hk,rfl⟩
      exact hmax k hk
end ReplayWindow
end RustyRtc.Srtp
