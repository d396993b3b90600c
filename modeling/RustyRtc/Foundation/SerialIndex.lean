import Mathlib.Tactic.Linarith
import Mathlib.Tactic.Ring

/-! # Serial numbers as residues of unbounded positions

A counter of modulus `2 * H` shows only the residue of a position. Two positions
less than half a cycle apart are ordered, and their cycles compared, by their
residues alone. The half `H` is arbitrary throughout.
-/
namespace RustyRtc.SerialIndex

/-- The cycle of a position whose residue is `r`, guessed from a reference position
in cycle `c` with residue `s`. -/
def estimate (H : ℕ) (c : ℤ) (s r : ℕ) : ℤ :=
  if (r : ℤ) - s ≤ -H then c + 1
  else if (H : ℤ) ≤ (r : ℤ) - s then c - 1
  else c

variable {H I J : ℕ}
theorem cycle_le_succ (hIJ : I < J + H) : I / (2 * H) ≤ J / (2 * H) + 1 := by
  have hH : 0 < 2 * H ∨ H = 0 := by omega
  rcases hH with hH | rfl
  · have hstep : I < J + 2 * H := by omega
    calc I / (2 * H) ≤ (J + 2 * H) / (2 * H) := Nat.div_le_div_right hstep.le
      _ = J / (2 * H) + 1 := Nat.add_div_right J hH
  · simp

/-- Half a cycle apart is close enough: the guess is the true cycle. -/
theorem estimate_eq (hIJ : I < J + H) (hJI : J < I + H) :
    estimate H (J / (2 * H) : ℕ) (J % (2 * H)) (I % (2 * H)) = (I / (2 * H) : ℕ) := by
  have hM : 0 < 2 * H := by omega
  have hq := cycle_le_succ hIJ
  have hp := cycle_le_succ hJI
  have hI := Nat.div_add_mod I (2 * H)
  have hJ := Nat.div_add_mod J (2 * H)
  have hr := Nat.mod_lt I hM
  have hs := Nat.mod_lt J hM
  generalize I / (2 * H) = q at *
  generalize J / (2 * H) = p at *
  generalize I % (2 * H) = r at *
  generalize J % (2 * H) = s at *
  have hcases : q = p ∨ q = p + 1 ∨ p = q + 1 := by omega
  unfold estimate
  rcases hcases with rfl | rfl | rfl
  · rw [if_neg (by omega),if_neg (by omega)]
  · rw [Nat.mul_add,Nat.mul_one] at hI
    rw [if_pos (by omega)]
    push_cast
    ring
  · rw [Nat.mul_add,Nat.mul_one] at hJ
    rw [if_neg (by omega),if_pos (by omega)]
    push_cast
    ring

theorem eq_of_residue_eq {M : ℕ} (hIJ : I < J + M) (hJI : J < I + M) (h : I % M = J % M) : I = J := by
  rcases le_total I J with hle | hle
  · have hd : M ∣ J - I := Nat.dvd_of_mod_eq_zero (Nat.sub_mod_eq_zero_of_mod_eq h.symm)
    have := Nat.eq_zero_of_dvd_of_lt hd (by omega)
    omega
  · have hd : M ∣ I - J := Nat.dvd_of_mod_eq_zero (Nat.sub_mod_eq_zero_of_mod_eq h)
    have := Nat.eq_zero_of_dvd_of_lt hd (by omega)
    omega
end RustyRtc.SerialIndex
