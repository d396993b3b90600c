import RustyRtc.Foundation.Table

/-! # One queue for each key

A table of queues: messages are pushed at the end of the queue of their key, and all queues are
emptied at once, in some order of the keys. Whatever that order is, each key gets its messages in
the order in which they were pushed.
-/
namespace RustyRtc
abbrev Queues (κ μ : Type) := Table κ (List μ)

namespace Queues
variable {κ μ : Type} [DecidableEq κ]
def select (k : κ) (ms : List (κ × μ)) : List μ := (ms.filter (·.1 = k)).map Prod.snd
def pending (q : Queues κ μ) (k : κ) : List μ := (q.lookup k).getD []

/-- `entry(k).or_default()`. -/
def touch (q : Queues κ μ) (k : κ) : Queues κ μ := if k ∈ q then q else q.insert k []
def push (q : Queues κ μ) (m : κ × μ) : Queues κ μ := q.insert m.1 (q.pending m.1 ++ [m.2])

def drainKeys : List κ → Queues κ μ → Queues κ μ × List (κ × μ)
  | [],q => (q,[])
  | k :: ks,q =>
    match q.lookup k with
    | some ms =>
      let rest := drainKeys ks (q.erase k)
      (rest.1,ms.map (fun m => (k,m)) ++ rest.2)
    | none => drainKeys ks q

def drain (keys : Iteration κ) (q : Queues κ μ) : Queues κ μ × List (κ × μ) := drainKeys (keys.order q.keys) q
theorem select_append (k : κ) (ms ms' : List (κ × μ)) : select k (ms ++ ms') = select k ms ++ select k ms' := by
  rw [select,List.filter_append,List.map_append]
  rfl
theorem select_map (k k' : κ) (ms : List μ) : select k (ms.map fun m => (k',m)) = if k' = k then ms else [] := by
  split
  · next h => simp [select,List.filter_map,Function.comp_def,h]
  · next h => simp [select,List.filter_map,Function.comp_def,h]
theorem pending_eq_nil {q : Queues κ μ} {k : κ} (h : k ∉ q) : q.pending k = [] := by
  rw [pending,AList.lookup_eq_none.mpr h]
  rfl

@[simp] theorem pending_touch (q : Queues κ μ) (k k' : κ) : (q.touch k').pending k = q.pending k := by
  unfold touch
  split
  · rfl
  · next hk =>
    by_cases h : k = k'
    · subst h
      rw [pending_eq_nil hk,pending,AList.lookup_insert]
      rfl
    · rw [pending,AList.lookup_insert_ne h,pending]

theorem pending_erase (q : Queues κ μ) (k k' : κ) : pending (q.erase k') k = if k' = k then [] else q.pending k := by
  split
  · next h =>
    subst h
    rw [pending,AList.lookup_erase]
    rfl
  · next h => rw [pending,AList.lookup_erase_ne (Ne.symm h),pending]

theorem pending_push (q : Queues κ μ) (m : κ × μ) (k : κ) : (q.push m).pending k = q.pending k ++ select k [m] := by
  by_cases h : m.1 = k
  · subst h
    rw [pending,push,AList.lookup_insert]
    simp [select]
  · rw [pending,push,AList.lookup_insert_ne (Ne.symm h)]
    simp [select,h,pending]

theorem pending_foldl_push (q : Queues κ μ) (ms : List (κ × μ)) (k : κ) :
    (ms.foldl push q).pending k = q.pending k ++ select k ms := by
  induction ms generalizing q with
  | nil => simp [select]
  | cons m ms ih =>
    rw [List.foldl_cons,ih,pending_push,List.append_assoc,← select_append]
    rfl

theorem pending_drainKeys (ks : List κ) (q : Queues κ μ) (k : κ) :
    (drainKeys ks q).1.pending k = if k ∈ ks then [] else q.pending k := by
  induction ks generalizing q with
  | nil => simp [drainKeys]
  | cons k' ks ih =>
    simp only [List.mem_cons]
    cases hk' : q.lookup k' with
    | some ms =>
      simp only [drainKeys,hk',ih,pending_erase]
      by_cases h : k = k'
      · simp [h]
      · simp [h,Ne.symm h]
    | none =>
      simp only [drainKeys,hk',ih]
      by_cases h : k = k'
      · subst h
        simp [pending,hk']
      · simp [h]

theorem select_drainKeys (ks : List κ) (q : Queues κ μ) (k : κ) :
    select k (drainKeys ks q).2 = if k ∈ ks then q.pending k else [] := by
  induction ks generalizing q with
  | nil => simp [drainKeys,select]
  | cons k' ks ih =>
    simp only [List.mem_cons]
    cases hk' : q.lookup k' with
    | some ms =>
      simp only [drainKeys,hk',select_append,select_map,ih,pending_erase]
      by_cases h : k = k'
      · subst h
        simp [pending,hk']
      · simp [h,Ne.symm h]
    | none =>
      simp only [drainKeys,hk',ih]
      by_cases h : k = k'
      · subst h
        simp [pending,hk']
      · simp [h]

section
variable (keys : Iteration κ) (q : Queues κ μ) (k : κ)
theorem pending_drain : (q.drain keys).1.pending k = [] := by
  rw [drain,pending_drainKeys]
  split
  · rfl
  · next h => exact pending_eq_nil fun hk => h ((keys.perm _).mem_iff.mpr (AList.mem_keys.mp hk))

theorem select_drain : select k (q.drain keys).2 = q.pending k := by
  rw [drain,select_drainKeys]
  split
  · rfl
  · next h => exact (pending_eq_nil fun hk => h ((keys.perm _).mem_iff.mpr (AList.mem_keys.mp hk))).symm
end
end Queues
end RustyRtc
