import RustyRtc.Foundation.Ranking
import RustyRtc.Ice.Agent

/-! # Which pair a packet is for

Pairs are formed from every local and every remote candidate and sorted by priority, and a packet is
for the first pair with its source address. Below the limit on the number of pairs that is the pair
of the best local candidate that goes with the remote one, whatever the remote one is.
-/
namespace RustyRtc.Ice
open CandidatePair
variable {c d : Candidate}

namespace IceAgent
def pairOf (role : IceRole) (c remote : Candidate) : Option CandidatePair :=
  let priority := CandidatePair.calculatePairPriority c remote role
  if c.address.isIpv4 ≠ remote.address.isIpv4 ∨ c.transport ≠ remote.transport ∨ priority < 1 then none
  else some (.new c remote priority)

variable (role : IceRole) (limit : ℕ)
def compatiblePairs (remotes locals : List Candidate) : List CandidatePair :=
  locals.flatMap fun c => remotes.filterMap (pairOf role c)

theorem pairWith_take (c : Candidate) (remotes : List Candidate) (pairs : List CandidatePair)
    (hlimit : pairs.length < limit) :
    pairWith role limit c remotes pairs = (pairs ++ remotes.filterMap (pairOf role c)).take limit := by
  induction remotes generalizing pairs with
  | nil => rw [pairWith,List.filterMap_nil,List.append_nil,List.take_of_length_le (Nat.le_of_lt hlimit)]
  | cons remote rest ih =>
    rw [pairWith]
    split
    · next hskip =>
      have hnone : pairOf role c remote = none := if_pos hskip
      rw [ih pairs hlimit,List.filterMap_cons_none hnone]
    · next htake =>
      have hsome : pairOf role c remote = some (.new c remote (calculatePairPriority c remote role)) :=
        if_neg htake
      rw [List.filterMap_cons_some hsome,List.append_cons pairs _ (rest.filterMap (pairOf role c))]
      dsimp only
      split
      · next hfull =>
        rw [List.length_append,List.length_singleton] at hfull
        rw [List.take_left' (by rw [List.length_append, List.length_singleton]; omega)]
      · next hroom => exact ih _ (Nat.lt_of_not_le hroom)

theorem pairAll_take (remotes locals : List Candidate) (pairs : List CandidatePair) (hlimit : pairs.length ≤ limit) :
    pairAll role limit remotes locals pairs = (pairs ++ compatiblePairs role remotes locals).take limit := by
  induction locals generalizing pairs with
  | nil => rw [pairAll,compatiblePairs,List.flatMap_nil,List.append_nil,List.take_of_length_le hlimit]
  | cons c rest ih =>
    rw [pairAll,compatiblePairs,List.flatMap_cons]
    split
    · next hfull => rw [List.take_left' (Nat.le_antisymm hlimit hfull)]
    · next hroom =>
      have htwice : ∀ l m : List CandidatePair, (l.take limit ++ m).take limit = (l ++ m).take limit := by
        intro l m
        rw [List.take_append,List.take_append,List.take_take,Nat.min_self,List.length_take]
        congr 2
        omega
      rw [pairWith_take role limit c remotes pairs (Nat.lt_of_not_le hroom),ih _ (List.length_take_le ..),htwice,
        List.append_assoc]
      rfl

theorem pairAll_eq (remotes locals : List Candidate) (hlimit : locals.length * remotes.length ≤ limit) :
    pairAll role limit remotes locals [] = compatiblePairs role remotes locals := by
  have hfewer : (compatiblePairs role remotes locals).length ≤ locals.length * remotes.length := by
    clear hlimit
    induction locals with
    | nil => simp [compatiblePairs]
    | cons c rest ih =>
      rw [compatiblePairs,List.flatMap_cons,List.length_append,List.length_cons,Nat.succ_mul,Nat.add_comm]
      exact Nat.add_le_add ih (List.length_filterMap_le _ _)
  rw [pairAll_take role limit remotes locals [] (Nat.zero_le _),List.nil_append,List.take_of_length_le (by omega)]
end IceAgent

namespace CandidatePair
theorem toNat_pairPriority (g d : UInt32) (hwrap : g.toNat < 2 ^ 32 - 1 ∨ d.toNat < 2 ^ 32 - 1) :
    (((1 : UInt64) <<< 32) * min g.toUInt64 d.toUInt64 + 2 * max g.toUInt64 d.toUInt64 +
      if g.toUInt64 > d.toUInt64 then 1 else 0).toNat =
      2 ^ 32 * min g.toNat d.toNat + 2 * max g.toNat d.toNat + if d.toNat < g.toNat then 1 else 0 := by
  have hg := g.toNat_lt
  have hd := d.toNat_lt
  have hshift : ((1 : UInt64) <<< 32).toNat = 2 ^ 32 := by decide
  have hle : g.toUInt64 ≤ d.toUInt64 ↔ g.toNat ≤ d.toNat := by simp [UInt64.le_iff_toNat_le]
  have hlt : g.toUInt64 > d.toUInt64 ↔ d.toNat < g.toNat := by simp [UInt64.lt_iff_toNat_lt]
  have hmin : (min g.toUInt64 d.toUInt64).toNat = min g.toNat d.toNat := by
    change (if g.toUInt64 ≤ d.toUInt64 then g.toUInt64 else d.toUInt64).toNat = _
    simp only [hle,Nat.min_def]
    split <;> simp
  have hmax : (max g.toUInt64 d.toUInt64).toNat = max g.toNat d.toNat := by
    change (if g.toUInt64 ≤ d.toUInt64 then d.toUInt64 else g.toUInt64).toNat = _
    simp only [hle,Nat.max_def]
    split <;> simp
  have htie : (if g.toUInt64 > d.toUInt64 then 1 else 0 : UInt64).toNat = if d.toNat < g.toNat then 1 else 0 := by
    simp only [hlt]
    split <;> rfl
  rw [UInt64.toNat_add,UInt64.toNat_add,UInt64.toNat_mul,UInt64.toNat_mul,hshift,hmin,hmax,htie]
  have htwo : (2 : UInt64).toNat = 2 := rfl
  rw [htwo]
  split <;> omega

theorem calculatePairPriority_lt_iff {c' remote : Candidate} (role : IceRole)
    (hc : c.priority.toNat < 2 ^ 32 - 1 ∨ remote.priority.toNat < 2 ^ 32 - 1)
    (hc' : c'.priority.toNat < 2 ^ 32 - 1 ∨ remote.priority.toNat < 2 ^ 32 - 1) :
    (calculatePairPriority c remote role).toNat < (calculatePairPriority c' remote role).toNat ↔
      c.priority.toNat < c'.priority.toNat := by
  cases role with
  | controlling =>
    have h := toNat_pairPriority c.priority remote.priority hc
    have h' := toNat_pairPriority c'.priority remote.priority hc'
    simp only [calculatePairPriority,h,h']
    split <;> split <;> omega
  | controlled =>
    have h := toNat_pairPriority remote.priority c.priority hc.symm
    have h' := toNat_pairPriority remote.priority c'.priority hc'.symm
    simp only [calculatePairPriority,h,h']
    split <;> split <;> omega

theorem calculatePairPriority_pos {remote : Candidate} (role : IceRole)
    (hwrap : c.priority.toNat < 2 ^ 32 - 1 ∨ remote.priority.toNat < 2 ^ 32 - 1)
    (hpos : 0 < c.priority.toNat ∨ 0 < remote.priority.toNat) : ¬ calculatePairPriority c remote role < 1 := by
  rw [UInt64.lt_iff_toNat_lt]
  change ¬ _ < 1
  cases role with
  | controlling =>
    simp only [calculatePairPriority,toNat_pairPriority c.priority remote.priority hwrap]
    omega
  | controlled =>
    simp only [calculatePairPriority,toNat_pairPriority remote.priority c.priority hwrap.symm]
    omega
end CandidatePair

/-- Candidates an agent can be reached at: each has an address and a socket of its own, and a priority
between the extremes. -/
structure Reachable (cs : List Candidate) : Prop where
  nodup : (cs.map (·.address)).Nodup
  socket : ∀ c ∈ cs, c.socket = some c.address
  priority : ∀ c ∈ cs, 0 < c.priority.toNat ∧ c.priority.toNat < 2 ^ 32 - 1
def Candidate.GoesWith (c d : Candidate) : Prop := c.address.isIpv4 = d.address.isIpv4 ∧ c.transport = d.transport
instance (c d : Candidate) : Decidable (c.GoesWith d) := inferInstanceAs (Decidable (_ ∧ _))
theorem Candidate.GoesWith.symm (h : c.GoesWith d) : d.GoesWith c := ⟨h.1.symm,h.2.symm⟩
theorem Candidate.GoesWith.trans {e : Candidate} (h : c.GoesWith d) (h' : d.GoesWith e) : c.GoesWith e :=
  ⟨h.1.trans h'.1,h.2.trans h'.2⟩

namespace IceAgent
variable {c remote : Candidate} {p : CandidatePair}
def best (locals : List Candidate) (remote : Candidate) : Option Candidate :=
  (locals.filter fun c => c.GoesWith remote).argmax (·.priority.toNat)
theorem best_congr (h : c.GoesWith d) (locals : List Candidate) : best locals c = best locals d := by
  have hsame : ∀ e : Candidate, e.GoesWith c ↔ e.GoesWith d := fun e => ⟨(·.trans h),(·.trans h.symm)⟩
  simp only [best,hsame]
theorem best_goesWith {locals : List Candidate} (h : best locals remote = some c) : c ∈ locals ∧ c.GoesWith remote := by
  have hmem := List.mem_filter.mp (List.argmax_mem h)
  exact ⟨hmem.1,of_decide_eq_true hmem.2⟩

theorem pairOf_eq (role : IceRole) (hpos : 0 < c.priority.toNat) (hwrap : c.priority.toNat < 2 ^ 32 - 1) :
    pairOf role c remote =
      if c.GoesWith remote then some (.new c remote (calculatePairPriority c remote role)) else none := by
  have hpriority := @CandidatePair.calculatePairPriority_pos c remote role (.inl hwrap) (.inl hpos)
  by_cases h : c.GoesWith remote
  · rw [if_pos h]
    exact if_neg (by simp [h.1,h.2,hpriority])
  · rw [if_neg h]
    refine if_pos ?_
    rw [Candidate.GoesWith,not_and_or] at h
    exact h.elim .inl fun h => .inr (.inl h)

theorem remote_of_pairOf {role : IceRole} (h : pairOf role c remote = some p) : p.remote = remote ∧ p.localCand = c ∧
      p.priority = calculatePairPriority c remote role := by
  unfold pairOf at h
  dsimp only at h
  split at h
  · cases h
  · cases h
    exact ⟨rfl,rfl,rfl⟩

theorem remote_mem_of_pairFor {a : IceAgent}
    (hlimit : a.localCandidates.length * a.remoteCandidates.length ≤ a.maxCandidatePairs) {x : SocketAddr}
    (h : a.formCandidatePairs.1.pairFor x = some p) : p.remote ∈ a.remoteCandidates ∧ p.remote.address = x := by
  have hmem := (List.mem_insertionSort _).mp (List.mem_of_find?_eq_some h)
  rw [pairAll_eq a.role a.maxCandidatePairs _ _ hlimit,compatiblePairs,List.mem_flatMap] at hmem
  obtain ⟨c,-,hmem⟩ := hmem
  obtain ⟨remote,hremote,hp⟩ := List.mem_filterMap.mp hmem
  rw [(remote_of_pairOf hp).1]
  have hfound := List.find?_some h
  rw [(remote_of_pairOf hp).1] at hfound
  exact ⟨hremote,of_decide_eq_true hfound⟩

theorem filter_filterMap_pairOf (role : IceRole) (c : Candidate) {remotes : List Candidate}
    (hnodup : (remotes.map (·.address)).Nodup) (hremote : remote ∈ remotes) :
    (remotes.filterMap (pairOf role c)).filter (·.remote.address = remote.address) = (pairOf role c remote).toList := by
  induction remotes with
  | nil => cases hremote
  | cons r rest ih =>
    obtain ⟨hnew,hnodup⟩ := List.nodup_cons.mp hnodup
    have hrest : ∀ x, (∀ r ∈ rest, r.address ≠ x) →
        (rest.filterMap (pairOf role c)).filter (·.remote.address = x) = [] := by
      intro x hx
      rw [List.filter_eq_nil_iff]
      intro p hp
      obtain ⟨r,hr,hp⟩ := List.mem_filterMap.mp hp
      simpa [(remote_of_pairOf hp).1] using hx r hr
    rcases List.mem_cons.mp hremote with rfl | hmem
    · have hnil := hrest remote.address fun r hr h => hnew (List.mem_map.mpr ⟨r,hr,h⟩)
      cases hp : pairOf role c remote with
      | none => simpa [List.filterMap_cons_none hp] using hnil
      | some p => simpa [List.filterMap_cons_some hp,(remote_of_pairOf hp).1] using hnil
    · have hne : r.address ≠ remote.address := fun h => hnew (List.mem_map.mpr ⟨remote,hmem,h.symm⟩)
      rw [← ih hnodup hmem]
      cases hp : pairOf role c r with
      | none => rw [List.filterMap_cons_none hp]
      | some p => simp [List.filterMap_cons_some hp,(remote_of_pairOf hp).1,hne]

theorem pairFor_formCandidatePairs (a : IceAgent)
    (hlimit : a.localCandidates.length * a.remoteCandidates.length ≤ a.maxCandidatePairs)
    (hlocal : Reachable a.localCandidates) (hremote : remote ∈ a.remoteCandidates)
    (hnodup : (a.remoteCandidates.map (·.address)).Nodup) :
    a.formCandidatePairs.1.pairFor remote.address = (best a.localCandidates remote).map fun c =>
      .new c remote (calculatePairPriority c remote a.role) := by
  have hrank : ∀ p q : CandidatePair, q.priority ≤ p.priority ↔ q.priority.toNat ≤ p.priority.toNat := fun _ _ =>
    UInt64.le_iff_toNat_le
  have hlists : (a.localCandidates.flatMap fun c => a.remoteCandidates.filterMap (pairOf a.role c)).filter
      (·.remote.address = remote.address) = a.localCandidates.filterMap (pairOf a.role · remote) := by
    rw [List.filter_flatMap,List.filterMap_eq_flatMap_toList]
    simp only [filter_filterMap_pairOf a.role _ hnodup hremote]
  have hgoes : ∀ c ∈ a.localCandidates, pairOf a.role c remote = if c.GoesWith remote then
      some (.new c remote (calculatePairPriority c remote a.role)) else none := by
    intro c hc
    obtain ⟨hpos,hwrap⟩ := hlocal.priority c hc
    exact pairOf_eq a.role hpos hwrap
  have hmax : (a.localCandidates.filterMap (pairOf a.role · remote)).argmax (·.priority.toNat) =
      (best a.localCandidates remote).bind (pairOf a.role · remote) := by
    rw [Ranking.argmax_filterMap fun c : Candidate => c.priority.toNat]
    · have hfilter : a.localCandidates.filter (fun c => (pairOf a.role c remote).isSome) =
          a.localCandidates.filter fun c => c.GoesWith remote := by
        refine List.filter_congr fun c hc => ?_
        rw [hgoes c hc]
        split <;> simp [*]
      rw [hfilter]
      rfl
    · intro c hc c' hc' p hp p' hp'
      rw [(remote_of_pairOf hp).2.2,(remote_of_pairOf hp').2.2]
      exact calculatePairPriority_lt_iff a.role (.inl (hlocal.priority c hc).2)
        (.inl (hlocal.priority c' hc').2)
  calc a.formCandidatePairs.1.pairFor remote.address
      = ((pairAll a.role a.maxCandidatePairs a.remoteCandidates a.localCandidates []).filter
          (·.remote.address = remote.address)).argmax (·.priority.toNat) :=
        Ranking.find?_insertionSort _ hrank _
    _ = (best a.localCandidates remote).bind (pairOf a.role · remote) := by
        rw [pairAll_eq a.role a.maxCandidatePairs _ _ hlimit,compatiblePairs,hlists,hmax]
    _ = _ := by
        cases hbest : best a.localCandidates remote with
        | none => rfl
        | some c =>
          obtain ⟨hc,hwith⟩ := best_goesWith hbest
          rw [Option.bind_some,hgoes c hc,if_pos hwith]
          rfl
end IceAgent
end RustyRtc.Ice
