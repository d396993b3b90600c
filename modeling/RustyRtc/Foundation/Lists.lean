import Mathlib.Data.List.Nodup

/-! # Lists

What several models need of lists: filtered lists and the places in them, neighbours with the same key, the first
value of a function, and lists with some of the entries of another.
-/
namespace RustyRtc
section Filtering
variable {α : Type*} {p : α → Bool} {l : List α}
theorem map_filter_eq_self_iff (ls : List (List α)) : ls.map (List.filter p) = ls ↔ ∀ x ∈ ls.flatten, p x = true := by
  induction ls with
  | nil => simp
  | cons l ls ih => rw [List.map_cons,List.cons.injEq,ih,List.filter_eq_self,List.flatten_cons,List.forall_mem_append]

theorem filter_set {i : ℕ} {x y : α} (hx : l[i]? = some x)
    (hp : p y = p x) : (p x = false ∧ (l.set i y).filter p = l.filter p) ∨
      ∃ j, (l.filter p)[j]? = some x ∧ (l.set i y).filter p = (l.filter p).set j y := by
  induction l generalizing i with
  | nil => simp at hx
  | cons a l ih =>
    cases i with
    | zero =>
      obtain rfl := Option.some.inj hx
      cases ha : p a with
      | true => exact .inr ⟨0,by simp [ha],by simp [ha,hp]⟩
      | false => exact .inl ⟨rfl,by simp [ha,hp]⟩
    | succ i =>
      rcases ih hx with ⟨hdrop,hsame⟩ | ⟨j,hj,hset⟩
      · exact .inl ⟨hdrop,by simp [List.filter_cons,hsame]⟩
      · right
        cases ha : p a with
        | true => exact ⟨j + 1,by simpa [ha] using hj,by simp [ha,hset]⟩
        | false => exact ⟨j,by simpa [ha] using hj,by simp [ha,hset]⟩

theorem cons_eq_concat_iff {a : α} : a :: l = l ++ [a] ↔ ∀ b ∈ l, b = a := by
  induction l with
  | nil => simp
  | cons b l ih =>
    constructor
    · intro h
      obtain ⟨rfl,htail⟩ := List.cons.inj h
      simpa using ih.mp htail
    · intro h
      obtain rfl := h b (by simp)
      rw [List.cons_append,← ih.mpr fun x hx => h x (by simp [hx])]

/-- The second components of a list of pairs, looked up by position. -/
theorem exists_zipIdx_eq {β : Type*} (b : β) (l : List (α × β)) :
    ∃ f : ℕ → β, (l.map Prod.fst).zipIdx.map (fun x => (x.1,f x.2)) = l := by
  refine ⟨fun i => (l[i]?.map Prod.snd).getD b,List.ext_getElem? fun i => ?_⟩
  rw [List.getElem?_map,List.getElem?_zipIdx,List.getElem?_map]
  cases h : l[i]? <;> simp [h]
end Filtering

section Keys
variable {α β κ : Type*}

/-- `dedup_by_key`: of neighbours with the same key the first stays. -/
def dedupByKey [DecidableEq κ] (key : α → κ) : List α → List α
  | [] => []
  | a :: rest =>
    match dedupByKey key rest with
    | [] => [a]
    | b :: rest => if key a = key b then a :: rest else a :: b :: rest

theorem dedupByKey_eq_self [DecidableEq κ] {key : α → κ} {l : List α} (h : (l.map key).Nodup) :
    dedupByKey key l = l := by
  induction l with
  | nil => rfl
  | cons a l ih =>
    obtain ⟨ha,hl⟩ := List.nodup_cons.mp h
    rw [dedupByKey,ih hl]
    cases l with
    | nil => rfl
    | cons b l => exact if_neg fun hkey => ha (List.mem_map.mpr ⟨b,List.mem_cons_self,hkey.symm⟩)

theorem findSome?_cons_or (f : α → Option β) (a : α) (as : List α) :
    (a :: as).findSome? f = (f a).or (as.findSome? f) := by
  rw [List.findSome?_cons]
  cases f a <;> rfl

theorem findSome?_eq_of_agree {f : α → Option β} {as : List α} {b : β}
    (hagree : ∀ a ∈ as, f a = none ∨ f a = some b) (hmem : ∃ a ∈ as, f a = some b) : as.findSome? f = some b := by
  obtain ⟨a,ha,hfa⟩ := hmem
  have hsome : (as.findSome? f).isSome := List.findSome?_isSome_iff.mpr ⟨a,ha,by rw [hfa]; rfl⟩
  obtain ⟨c,hc⟩ := Option.isSome_iff_exists.mp hsome
  obtain ⟨a',ha',hfa'⟩ := List.exists_of_findSome?_eq_some hc
  rcases hagree a' ha' with h | h
  · exact absurd (h.symm.trans hfa') (by simp)
  · rw [hc,← hfa',h]
end Keys

section Picking
variable {α : Type*} {must : α → Option Bool} {a : α} {l l' : List α}

/-- `l'` has entries of `l` in their order. What `must` says nothing of may be in it or not. -/
inductive Picks (must : α → Option Bool) : List α → List α → Prop
  | nil : Picks must [] []
  | take {a : α} {l l' : List α} (ha : must a ≠ some false) (h : Picks must l l') : Picks must (a :: l) (a :: l')
  | skip {a : α} {l l' : List α} (ha : must a ≠ some true) (h : Picks must l l') : Picks must (a :: l) l'

namespace Picks
/-- What comes behind is taken, or none of it is. -/
theorem append {m : List α} {k : Bool} (h : Picks must l l') (hm : ∀ a ∈ m, must a ≠ some !k) :
    Picks must (l ++ m) (cond k (l' ++ m) l') := by
  induction h with
  | nil =>
    induction m with
    | nil => cases k <;> exact .nil
    | cons a m ih =>
      have hrest := ih fun b hb => hm b (by simp [hb])
      cases k with
      | true => exact .take (hm a (by simp)) hrest
      | false => exact .skip (hm a (by simp)) hrest
  | take ha _ ih => cases k <;> exact .take ha ih
  | skip ha _ ih => cases k <;> exact .skip ha ih

theorem cases_cons (h : Picks must (a :: l) l') :
    ∃ (k : Bool) (rest : List α), must a ≠ some (!k) ∧ l' = cond k (a :: rest) rest ∧ Picks must l rest := by
  cases h with
  | take ha h => exact ⟨true,_,ha,rfl,h⟩
  | skip ha h => exact ⟨false,_,ha,rfl,h⟩

theorem subset (h : Picks must l l') : l' ⊆ l := by
  induction h with
  | nil => exact List.Subset.refl _
  | take _ _ ih => exact List.cons_subset_cons _ ih
  | skip _ _ ih => exact List.subset_cons_of_subset _ ih
theorem mem (h : Picks must l l') (ha : must a = some true) (hmem : a ∈ l) : a ∈ l' := by
  induction h with
  | nil => exact hmem
  | take _ _ ih => exact (List.mem_cons.mp hmem).elim (fun heq => by simp [heq]) fun hrest => by simp [ih hrest]
  | skip hb _ ih => exact ih ((List.mem_cons.mp hmem).resolve_left (by rintro rfl; exact hb ha))
end Picks
end Picking
end RustyRtc
