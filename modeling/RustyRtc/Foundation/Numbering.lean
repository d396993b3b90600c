import Mathlib.Data.List.Count

/-! # Logs numbered by key

Every entry of a log belongs to a key, and each key counts its own entries. Entries of one key then
carry different numbers, less than the number of its entries apart.
-/
namespace RustyRtc
section
variable {ε κ : Type*} [DecidableEq κ] (key : ε → κ) (Stamp : ε → ℕ → Prop)

/-- The entries of each key are stamped with consecutive numbers from `next` on. -/
def Numbered : (κ → ℕ) → List ε → Prop
  | _, [] => True
  | next, e :: log => Stamp e (next (key e)) ∧ Numbered (Function.update next (key e) (next (key e) + 1)) log
def entries (log : List ε) (k : κ) : ℕ := log.countP fun e => key e = k
theorem entries_cons_self (e : ε) (log : List ε) : entries key (e :: log) (key e) = entries key log (key e) + 1 :=
  List.countP_cons_of_pos (by simp)
theorem entries_le_cons (e : ε) (log : List ε) (k : κ) : entries key log k ≤ entries key (e :: log) k := by
  rw [entries,entries,List.countP_cons]
  exact Nat.le_add_right _ _

variable {key Stamp} {next : κ → ℕ} {log : List ε}
theorem Numbered.stamp (h : Numbered key Stamp next log) {e : ε} (he : e ∈ log) :
    ∃ n, next (key e) ≤ n ∧ n < next (key e) + entries key log (key e) ∧ Stamp e n := by
  induction log generalizing next with
  | nil => simp at he
  | cons e' log ih =>
    rcases List.mem_cons.mp he with rfl | he
    · refine ⟨_,Nat.le_refl _,?_,h.1⟩
      rw [entries_cons_self]
      omega
    · obtain ⟨n,hle,hlt,hn⟩ := ih h.2 he
      have hcount := entries_le_cons key e' log (key e)
      by_cases hkey : key e = key e'
      · rw [hkey,Function.update_self] at hle hlt
        have hself := entries_cons_self key e' log
        rw [hkey]
        exact ⟨n,by omega,by omega,hn⟩
      · rw [Function.update_of_ne hkey] at hle hlt
        exact ⟨n,hle,by omega,hn⟩

theorem Numbered.pairwise (h : Numbered key Stamp next log) {B : ℕ} (hB : ∀ k, entries key log k < B) :
    log.Pairwise fun a b => key a = key b → ∃ m n, m < n ∧ n < m + B ∧ Stamp a m ∧ Stamp b n := by
  induction log generalizing next with
  | nil => exact List.Pairwise.nil
  | cons e log ih =>
    refine List.Pairwise.cons ?_ (ih h.2 fun k => Nat.lt_of_le_of_lt (entries_le_cons key e log k) (hB k))
    intro e' he' hkey
    obtain ⟨n,hle,hlt,hn⟩ := h.2.stamp he'
    rw [← hkey,Function.update_self] at hle hlt
    have hself := entries_cons_self key e log
    have htotal := hB (key e)
    exact ⟨next (key e),n,by omega,by omega,h.1,hn⟩
end
end RustyRtc
