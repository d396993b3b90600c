import Mathlib.Data.List.AList

/-! # Hash maps

A hash map is an association list with distinct keys. What a program may not rely on is the
order in which an iteration meets the entries, so each iteration is given one.
-/
namespace RustyRtc
abbrev Table (κ ν : Type) := AList (fun _ : κ => ν)
abbrev TableSet (κ : Type) := Table κ Unit

/-- The order in which one iteration meets the entries it is given. -/
structure Iteration (α : Type) where
  order : List α → List α
  perm : ∀ l, (order l).Perm l
def Iteration.plain {α : Type} : Iteration α := ⟨id,fun _ => .rfl⟩

namespace Table
variable {κ ν : Type} [DecidableEq κ] {t : Table κ ν} {k : κ}
theorem mem_iff : k ∈ t ↔ ∃ v, t.lookup k = some v := AList.lookup_isSome.symm.trans Option.isSome_iff_exists
def ofEntries (l : List ((_ : κ) × ν)) : Table κ ν := l.foldl (fun t e => t.insert e.1 e.2) ∅

theorem lookup_insert_eq_some {k' : κ} {v v' : ν} :
    (t.insert k v).lookup k' = some v' ↔ k' = k ∧ v = v' ∨ k' ≠ k ∧ t.lookup k' = some v' := by
  by_cases h : k' = k
  · subst h
    simp
  · simp [h,AList.lookup_insert_ne h]

theorem lookup_foldl_insert (l : List ((_ : κ) × ν)) (hl : l.NodupKeys) (t : Table κ ν) (k : κ) :
    (l.foldl (fun t e => t.insert e.1 e.2) t).lookup k = (l.dlookup k).or (t.lookup k) := by
  induction l generalizing t with
  | nil => simp
  | cons e l ih =>
    obtain ⟨k',v⟩ := e
    obtain ⟨hnew,hl⟩ := List.nodupKeys_cons.mp hl
    rw [List.foldl_cons,ih hl]
    by_cases hk : k = k'
    · subst hk
      rw [List.dlookup_eq_none.mpr hnew]
      simp
    · rw [List.dlookup_cons_ne _ _ hk,AList.lookup_insert_ne hk]

theorem lookup_ofEntries {l : List ((_ : κ) × ν)} (h : l.Perm t.entries) (k : κ) :
    (ofEntries l).lookup k = t.lookup k := by
  have hl : l.NodupKeys := (List.perm_nodupKeys h).mpr t.nodupKeys
  rw [ofEntries,lookup_foldl_insert l hl]
  simp only [AList.lookup_empty,Option.or_none]
  exact List.perm_dlookup k hl h

/-- `HashMap::retain`. -/
def retain (p : κ → ν → Bool) (t : Table κ ν) : Table κ ν :=
  ⟨t.entries.filter fun e => p e.1 e.2,(t.nodupKeys.sublist List.filter_sublist)⟩
theorem lookup_retain_eq_some {p : κ → ν → Bool} {v : ν} :
    (retain p t).lookup k = some v ↔ t.lookup k = some v ∧ p k v := by
  change v ∈ (retain p t).lookup k ↔ v ∈ t.lookup k ∧ _
  rw [AList.mem_lookup_iff,AList.mem_lookup_iff]
  exact List.mem_filter

section Keys
variable {p : κ → Bool}
theorem lookup_retain (hk : p k = true) : (retain (fun k _ => p k) t).lookup k = t.lookup k := by
  refine Option.ext fun v => ?_
  rw [lookup_retain_eq_some]
  exact and_iff_left hk

theorem filter_kerase (l : List ((_ : κ) × ν)) :
    (l.kerase k).filter (fun e => p e.1) = if p k then (l.filter fun e => p e.1).kerase k else l.filter fun e => p e.1 := by
  induction l with
  | nil => simp
  | cons e l ih =>
    by_cases he : k = e.1
    · subst he
      rw [List.kerase_cons_eq rfl,List.filter_cons]
      split
      · exact (List.kerase_cons_eq rfl).symm
      · rfl
    · rw [List.kerase_cons_ne he,List.filter_cons,ih,List.filter_cons]
      split_ifs
      · exact (List.kerase_cons_ne he).symm
      · rfl
      · rfl
      · rfl

theorem retain_erase : retain (fun k _ => p k) (t.erase k) =
    if p k then (retain (fun k _ => p k) t).erase k else retain (fun k _ => p k) t := by
  refine AList.ext ((filter_kerase t.entries).trans ?_)
  split <;> rfl

theorem retain_insert (v : ν) : retain (fun k _ => p k) (t.insert k v) =
    if p k then (retain (fun k _ => p k) t).insert k v else retain (fun k _ => p k) t := by
  refine AList.ext ?_
  change (⟨k,v⟩ :: t.entries.kerase k).filter (fun e => p e.1) = _
  rw [List.filter_cons,filter_kerase]
  cases p k <;> rfl
end Keys

theorem eq_empty (h : ∀ k, t.lookup k = none) : t = ∅ := by
  refine AList.ext (List.eq_nil_iff_forall_not_mem.mpr fun e he => ?_)
  have hlookup := AList.mem_lookup_iff.mpr he
  rw [h e.1] at hlookup
  cases hlookup
theorem erase_insert (h : k ∉ t) (v : ν) : (t.insert k v).erase k = t := by
  refine AList.ext ?_
  change List.kerase k (t.insert k v).entries = t.entries
  rw [AList.entries_insert_of_notMem h]
  exact List.kerase_cons_eq rfl

theorem mem_foldl_insert {l : List (κ × ν)}
    (h : k ∈ l.foldl (fun t e => t.insert e.1 e.2) t) : k ∈ t ∨ ∃ v, (k,v) ∈ l := by
  induction l generalizing t with
  | nil => exact .inl h
  | cons e l ih =>
    rcases ih h with ht | ⟨v,hv⟩
    · rcases AList.mem_insert t |>.mp ht with rfl | ht
      · exact .inr ⟨e.2,List.mem_cons_self ..⟩
      · exact .inl ht
    · exact .inr ⟨v,List.mem_cons_of_mem _ hv⟩
end Table
end RustyRtc
