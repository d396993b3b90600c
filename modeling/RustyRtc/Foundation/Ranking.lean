import Mathlib.Data.List.MinMax
import Mathlib.Data.List.Sort

/-! # Ranked lists

A list sorted stably by descending rank is searched for the first element with a property. That
element is the best one of the unsorted list, the earliest among equals: `List.argmax`.
-/
namespace RustyRtc.Ranking
variable {α β κ κ' : Type*} [LinearOrder κ] [LinearOrder κ'] (rank : α → κ) (p : α → Bool)
variable (r : α → α → Prop) [DecidableRel r]
theorem find?_orderedInsert_of_not {a : α} (ha : p a = false) (l : List α) :
    (l.orderedInsert r a).find? p = l.find? p := by
  induction l with
  | nil => simp [ha]
  | cons b l ih =>
    rw [List.orderedInsert_cons]
    split
    · rw [List.find?_cons,ha]
    · rw [List.find?_cons,List.find?_cons,ih]

variable {rank r} (hr : ∀ a b, r a b ↔ rank b ≤ rank a)
include hr

theorem find?_orderedInsert {a : α} (ha : p a = true) {l : List α} (hl : l.Pairwise r) : (l.orderedInsert r a).find? p =
      Option.casesOn (l.find? p) (some a) fun c => if rank a < rank c then some c else some a := by
  induction l with
  | nil => simp [ha]
  | cons b l ih =>
    obtain ⟨hb,hl⟩ := List.pairwise_cons.mp hl
    rw [List.orderedInsert_cons]
    by_cases hab : r a b
    · rw [if_pos hab,List.find?_cons,ha]
      -- everything from `b` on is no better than `a`
      have hle : ∀ c, (b :: l).find? p = some c → rank c ≤ rank a := by
        intro c hc
        rcases List.mem_cons.mp (List.mem_of_find?_eq_some hc) with rfl | hmem
        · exact (hr a c).mp hab
        · exact ((hr b c).mp (hb c hmem)).trans ((hr a b).mp hab)
      cases hc : (b :: l).find? p with
      | none => rfl
      | some c => simp [not_lt.mpr (hle c hc)]
    · have hlt : rank a < rank b := not_le.mp fun h => hab ((hr a b).mpr h)
      rw [if_neg hab,List.find?_cons,List.find?_cons]
      cases hpb : p b with
      | false => exact ih hl
      | true => simp [hlt]

theorem find?_insertionSort (l : List α) : (l.insertionSort r).find? p = (l.filter p).argmax rank := by
  have htotal : Std.Total r := ⟨fun a b => by simpa only [hr] using le_total (rank b) (rank a)⟩
  have htrans : IsTrans α r := ⟨fun a b c hab hbc => (hr a c).mpr (((hr b c).mp hbc).trans ((hr a b).mp hab))⟩
  induction l with
  | nil => rfl
  | cons a l ih =>
    rw [List.insertionSort_cons]
    cases ha : p a with
    | false => rw [find?_orderedInsert_of_not p r ha,ih,List.filter_cons_of_neg (by simp [ha])]
    | true =>
      rw [find?_orderedInsert p hr ha (List.pairwise_insertionSort r l),ih,List.filter_cons_of_pos ha,
        List.argmax_cons]

omit hr [DecidableRel r]

variable (rank) in
/-- The best image is the image of the best, if images are ranked like their originals. -/
theorem argmax_filterMap {f : α → Option β} {rank' : β → κ'} {l : List α}
    (hf : ∀ a ∈ l, ∀ c ∈ l, ∀ b ∈ f a, ∀ d ∈ f c, (rank' b < rank' d ↔ rank a < rank c)) :
    (l.filterMap f).argmax rank' = ((l.filter fun a => (f a).isSome).argmax rank).bind f := by
  induction l with
  | nil => rfl
  | cons a l ih =>
    have ih := ih fun b hb c hc => hf b (List.mem_cons_of_mem a hb) c (List.mem_cons_of_mem a hc)
    cases ha : f a with
    | none => rw [List.filterMap_cons_none ha,List.filter_cons_of_neg (by simp [ha]),ih]
    | some b =>
      rw [List.filterMap_cons_some ha,List.filter_cons_of_pos (by simp [ha]),List.argmax_cons,List.argmax_cons,
        ih]
      cases hc : (l.filter fun a => (f a).isSome).argmax rank with
      | none => exact ha.symm
      | some c =>
        obtain ⟨hmem,hsome⟩ := List.mem_filter.mp (List.argmax_mem hc)
        obtain ⟨d,hd⟩ := Option.isSome_iff_exists.mp hsome
        have hiff := hf a List.mem_cons_self c (List.mem_cons_of_mem a hmem) b ha d hd
        simp only [Option.bind_some,hd,hiff]
        split
        · exact hd.symm
        · exact ha.symm
end RustyRtc.Ranking
