import Mathlib.Data.Prod.Lex
import RustyRtc.Ice.Agreement

/-! # The check list

Pairs are ranked by a number that packs three things into 64 bits. For the priorities that candidates may
have nothing is lost by it, and both agents rank a pair alike. The list of pairs is cut off at its limit before
it is sorted, and nothing is taken out of it. It holds the best pairs, each once, exactly if the loops meet
those first and meet none twice.
-/
namespace RustyRtc.Ice
variable {c remote : Candidate} (role : IceRole)

namespace CandidatePair

/-- The smaller priority, the larger one, and whether the controlling side's is the larger. -/
def rankOf (g d : ℕ) : ℕ ×ₗ ℕ ×ₗ Bool := toLex (min g d,toLex (max g d,decide (d < g)))
def rank (c remote : Candidate) : IceRole → ℕ ×ₗ ℕ ×ₗ Bool
  | .controlling => rankOf c.priority.toNat remote.priority.toNat
  | .controlled => rankOf remote.priority.toNat c.priority.toNat
def packed (r : ℕ ×ₗ ℕ ×ₗ Bool) : ℕ :=
  2 ^ 32 * (ofLex r).1 + 2 * (ofLex (ofLex r).2).1 + (ofLex (ofLex r).2).2.toNat
theorem packed_rankOf (g d : ℕ) : packed (rankOf g d) = 2 ^ 32 * min g d + 2 * max g d + if d < g then 1 else 0 := by
  by_cases h : d < g <;> simp [packed,rankOf,h]
theorem packed_lt_packed {g d g' d' : ℕ} (hg : g < 2 ^ 31) (hd : d < 2 ^ 31) (hg' : g' < 2 ^ 31) (hd' : d' < 2 ^ 31) :
    packed (rankOf g d) < packed (rankOf g' d') ↔ rankOf g d < rankOf g' d' := by
  rw [packed_rankOf,packed_rankOf,rankOf,rankOf,Prod.Lex.toLex_lt_toLex,Prod.Lex.toLex_lt_toLex,Bool.lt_iff,
    decide_eq_false_iff_not,decide_eq_true_iff]
  dsimp only
  split <;> split <;> omega
theorem toNat_calculatePairPriority (hc : c.priority.toNat < 2 ^ 31) (hr : remote.priority.toNat < 2 ^ 31) :
    (calculatePairPriority c remote role).toNat = packed (rank c remote role) := by
  cases role with
  | controlling => exact (toNat_pairPriority c.priority remote.priority (.inl (by omega))).trans (packed_rankOf _ _).symm
  | controlled => exact (toNat_pairPriority remote.priority c.priority (.inl (by omega))).trans (packed_rankOf _ _).symm

/-- For priorities up to 2^31 - 1 the number is the packed rank itself, so nothing overflows. Two agents with
opposite roles give a pair the same number, and numbers compare like ranks, smaller priority first. -/
theorem calculatePairPriority_agreed {c remote c' remote' : Candidate} (role role' : IceRole)
    (h : ∀ x ∈ [c,remote,c',remote'], 1 ≤ x.priority.toNat ∧ x.priority.toNat ≤ 2 ^ 31 - 1) :
    (calculatePairPriority c remote role).toNat = packed (rank c remote role) ∧
      calculatePairPriority remote c role.other = calculatePairPriority c remote role ∧
      (calculatePairPriority c remote role < calculatePairPriority c' remote' role' ↔
        rank c remote role < rank c' remote' role') := by
  have hbound : ∀ x ∈ [c,remote,c',remote'], x.priority.toNat < 2 ^ 31 := fun x hx => by
    have := (h x hx).2
    omega
  have hc := hbound c (by simp)
  have hr := hbound remote (by simp)
  have hc' := hbound c' (by simp)
  have hr' := hbound remote' (by simp)
  refine ⟨toNat_calculatePairPriority role hc hr,by cases role <;> rfl,?_⟩
  rw [UInt64.lt_iff_toNat_lt, toNat_calculatePairPriority role hc hr, toNat_calculatePairPriority role' hc' hr']
  cases role <;> cases role' <;> simp only [rank] <;> exact packed_lt_packed (by assumption) (by assumption)
    (by assumption) (by assumption)

theorem calculatePairPriority_agreed_reflexive :
    let host := Link.hostAt (.v4 10 0 0 1) 2130706431
    let reflexive := Link.hostAt (.v4 203 0 113 7) 1694498815
    (calculatePairPriority host reflexive .controlling).toNat = packed (rank host reflexive .controlling) ∧
      calculatePairPriority reflexive host .controlled = calculatePairPriority host reflexive .controlling ∧
      (calculatePairPriority host reflexive .controlling < calculatePairPriority reflexive host .controlling ↔
        rank host reflexive .controlling < rank reflexive host .controlling) :=
  calculatePairPriority_agreed .controlling .controlling (by decide)
end CandidatePair

namespace IceAgent
variable {p : CandidatePair} (a : IceAgent)

/-- The new pair of a local and a remote candidate that agree in address family and transport, with a priority
at or above the threshold. -/
def Compatible (a : IceAgent) (p : CandidatePair) : Prop :=
  ∃ c ∈ a.localCandidates, ∃ remote ∈ a.remoteCandidates, c.address.isIpv4 = remote.address.isIpv4 ∧
    c.transport = remote.transport ∧ 1 ≤ CandidatePair.calculatePairPriority c remote a.role ∧
    p = .new c remote (CandidatePair.calculatePairPriority c remote a.role)

/-- The best of the compatible pairs up to the limit, in descending order and without two of the same addresses. A
pair is left out for one of the same addresses that is no worse, or because the list is full of pairs that are no
worse. -/
structure IsCheckList (a : IceAgent) (l : List CandidatePair) : Prop where
  compatible : ∀ p ∈ l, a.Compatible p
  sorted : l.Pairwise fun p q => q.priority ≤ p.priority
  distinct : (l.map (·.addresses)).Nodup
  limited : l.length ≤ a.maxCandidatePairs
  best : ∀ q, a.Compatible q → q ∉ l → (∃ p ∈ l, p.addresses = q.addresses ∧ q.priority ≤ p.priority) ∨
    (l.length = a.maxCandidatePairs ∧ ∀ p ∈ l, q.priority ≤ p.priority)

theorem pairOf_eq_some {role : IceRole} :
    pairOf role c remote = some p ↔ c.address.isIpv4 = remote.address.isIpv4 ∧ c.transport = remote.transport ∧
      1 ≤ CandidatePair.calculatePairPriority c remote role ∧
      p = .new c remote (CandidatePair.calculatePairPriority c remote role) := by
  unfold pairOf
  dsimp only
  split
  · next hskip =>
    constructor
    · intro h
      cases h
    · rintro ⟨hfamily,htransport,hprio,-⟩
      rcases hskip with hskip | hskip | hskip
      · exact absurd hfamily hskip
      · exact absurd htransport hskip
      · exact absurd hskip (UInt64.not_lt.mpr hprio)
  · next hgo =>
    simp only [not_or,not_not,UInt64.not_lt] at hgo
    rw [Option.some.injEq,eq_comm]
    exact ⟨fun h => ⟨hgo.1,hgo.2.1,hgo.2.2,h⟩,fun h => h.2.2.2⟩

theorem mem_compatiblePairs {a : IceAgent} :
    p ∈ compatiblePairs a.role a.remoteCandidates a.localCandidates ↔ a.Compatible p := by
  simp only [compatiblePairs,List.mem_flatMap,List.mem_filterMap,pairOf_eq_some,Compatible]

/-- The pairs that the loops meet before the limit, and those they do not get to. -/
def met (a : IceAgent) : List CandidatePair :=
  (compatiblePairs a.role a.remoteCandidates a.localCandidates).take a.maxCandidatePairs
def missed (a : IceAgent) : List CandidatePair :=
  (compatiblePairs a.role a.remoteCandidates a.localCandidates).drop a.maxCandidatePairs
theorem formCandidatePairs_perm : a.formCandidatePairs.1.candidatePairs.Perm a.met := by
  have hall := pairAll_take a.role a.maxCandidatePairs a.remoteCandidates a.localCandidates [] (Nat.zero_le _)
  rw [List.nil_append] at hall
  rw [met,← hall]
  exact List.perm_insertionSort _ _
theorem formCandidatePairs_sorted :
    a.formCandidatePairs.1.candidatePairs.Pairwise fun p q => q.priority ≤ p.priority := by
  have htotal : Std.Total fun p q : CandidatePair => q.priority ≤ p.priority := ⟨fun p q => UInt64.le_total _ _⟩
  have htrans : IsTrans CandidatePair fun p q => q.priority ≤ p.priority := ⟨fun p q r h h' => UInt64.le_trans h' h⟩
  exact List.pairwise_insertionSort _ _

/-- No pair is met twice, and one that is missed is no better than one of the same addresses that is met, or than
any that is met. -/
def MetBest (a : IceAgent) : Prop :=
  (a.met.map (·.addresses)).Nodup ∧ ∀ q ∈ a.missed,
    (∃ p ∈ a.met, p.addresses = q.addresses ∧ q.priority ≤ p.priority) ∨ ∀ p ∈ a.met, q.priority ≤ p.priority
instance (a : IceAgent) : Decidable a.MetBest := inferInstanceAs (Decidable (_ ∧ _))

theorem isCheckList_iff : a.IsCheckList a.formCandidatePairs.1.candidatePairs ↔ a.MetBest := by
  have hperm := a.formCandidatePairs_perm
  have hsplit : ∀ q, a.Compatible q ↔ q ∈ a.met ∨ q ∈ a.missed := by
    intro q
    rw [← mem_compatiblePairs,← List.take_append_drop a.maxCandidatePairs (compatiblePairs ..),List.mem_append]
    rfl
  constructor
  · intro h
    refine ⟨(hperm.map _).nodup_iff.mp h.distinct,fun q hq => ?_⟩
    by_cases hmem : q ∈ a.met
    · exact .inl ⟨q,hmem,rfl,UInt64.le_refl _⟩
    · rcases h.best q ((hsplit q).mpr (.inr hq)) (fun hq => hmem (hperm.mem_iff.mp hq)) with ⟨p,hp,hle⟩ | ⟨-,hle⟩
      · exact .inl ⟨p,hperm.mem_iff.mp hp,hle⟩
      · exact .inr fun p hp => hle p (hperm.mem_iff.mpr hp)
  · rintro ⟨hnodup,hbest⟩
    refine ⟨fun p hp => (hsplit p).mpr (.inl (hperm.mem_iff.mp hp)),a.formCandidatePairs_sorted,
      (hperm.map _).nodup_iff.mpr hnodup,?_,fun q hq hout => ?_⟩
    · rw [hperm.length_eq]
      exact List.length_take_le _ _
    · have hmissed : q ∈ a.missed := ((hsplit q).mp hq).resolve_left fun hmet => hout (hperm.mem_iff.mpr hmet)
      -- something is missed only when the limit is reached
      have hfull : a.met.length = a.maxCandidatePairs := by
        have hpos := List.length_pos_of_mem hmissed
        rw [missed,List.length_drop] at hpos
        rw [met,List.length_take]
        omega
      rcases hbest q hmissed with ⟨p,hp,hle⟩ | hle
      · exact .inl ⟨p,hperm.mem_iff.mpr hp,hle⟩
      · exact .inr ⟨hperm.length_eq.trans hfull,fun p hp => hle p (hperm.mem_iff.mp hp)⟩

/-- The list holds the pairs that the loops meet before the limit, in descending order. It is the list of the best
compatible pairs, each once, exactly if those pairs are the best and different. -/
theorem formCandidatePairs_checkList (a : IceAgent) : a.formCandidatePairs.1.candidatePairs.Perm a.met ∧
    (a.formCandidatePairs.1.candidatePairs.Pairwise fun p q => q.priority ≤ p.priority) ∧
    (a.IsCheckList a.formCandidatePairs.1.candidatePairs ↔ a.MetBest) :=
  ⟨a.formCandidatePairs_perm,a.formCandidatePairs_sorted,a.isCheckList_iff⟩
def facing (limit : ℕ) (remotes : List Candidate) : IceAgent :=
  { withLogger .controlling limit ("ufrag","pwd") with
    localCandidates := [Link.hostAt (.v4 10 0 0 1) 9]
    remoteCandidates := remotes }

/-- With room for one pair the first remote candidate is taken and the better second one is not. A remote candidate
that is there twice is paired twice. -/
theorem check_list_cut_off_and_repeated :
    (∃ a, a = facing 1 [Link.hostAt (.v4 10 0 0 2) 5,Link.hostAt (.v4 10 0 0 3) 9] ∧
      ¬ a.IsCheckList a.formCandidatePairs.1.candidatePairs) ∧
    ∃ a, a = facing 100 [Link.hostAt (.v4 10 0 0 2) 5,Link.hostAt (.v4 10 0 0 2) 5] ∧
      ¬ a.IsCheckList a.formCandidatePairs.1.candidatePairs := by
  refine ⟨⟨_,rfl,?_⟩,_,rfl,?_⟩
  · rw [isCheckList_iff]
    decide +kernel
  · rw [isCheckList_iff]
    decide +kernel
end IceAgent

theorem CandidatePair.one_le_calculatePairPriority_iff :
    1 ≤ calculatePairPriority c remote role ↔ c.priority ≠ 0 ∨ remote.priority ≠ 0 := by
  by_cases hzero : c.priority = 0 ∧ remote.priority = 0
  · simp only [hzero.1,hzero.2,ne_eq,not_true_eq_false,or_self,iff_false]
    cases role <;> (simp only [calculatePairPriority,hzero.1,hzero.2]; decide)
  · have hpos : c.priority ≠ 0 ∨ remote.priority ≠ 0 := not_and_or.mp hzero
    refine iff_of_true ?_ hpos
    by_cases hwrap : c.priority.toNat < 2 ^ 32 - 1 ∨ remote.priority.toNat < 2 ^ 32 - 1
    · have hnat : ∀ x : UInt32, x ≠ 0 → 0 < x.toNat := fun x hx =>
        Nat.pos_of_ne_zero fun h => hx (UInt32.toNat_inj.mp h)
      have hpos' : 0 < c.priority.toNat ∨ 0 < remote.priority.toNat := hpos.imp (hnat _) (hnat _)
      exact UInt64.not_lt.mp (calculatePairPriority_pos role hwrap hpos')
    · -- both have the largest priority, and the sum wraps around
      have hmax : ∀ x : UInt32, ¬ x.toNat < 2 ^ 32 - 1 → x = 4294967295 := by
        intro x hx
        have hlt := x.toNat_lt
        have hval : (4294967295 : UInt32).toNat = 2 ^ 32 - 1 := by decide
        exact UInt32.toNat_inj.mp (by omega)
      obtain ⟨hc,hr⟩ := not_or.mp hwrap
      have hc := hmax _ hc
      have hr := hmax _ hr
      cases role <;> (simp only [calculatePairPriority,hc,hr]; decide)

def Candidate.Pairs (c remote : Candidate) : Prop := c.GoesWith remote ∧ (c.priority ≠ 0 ∨ remote.priority ≠ 0)
instance (c remote : Candidate) : Decidable (c.Pairs remote) := inferInstanceAs (Decidable (_ ∧ _))
def CandidatePair.ends (p : CandidatePair) : Candidate × Candidate := (p.localCand,p.remote)

namespace IceAgent
def pairings (locals remotes : List Candidate) : List (Candidate × Candidate) :=
  locals.flatMap fun c => (remotes.filter fun remote => c.Pairs remote).map fun remote => (c,remote)
theorem mem_pairings {locals remotes : List Candidate} {x : Candidate × Candidate} :
    x ∈ pairings locals remotes ↔ x.1 ∈ locals ∧ x.2 ∈ remotes ∧ x.1.Pairs x.2 := by
  obtain ⟨c,remote⟩ := x
  simp [pairings]

theorem pairOf_ends (c remote : Candidate) :
    (pairOf role c remote).map (·.ends) = if c.Pairs remote then some (c,remote) else none := by
  split
  · next h =>
    have hprio := (CandidatePair.one_le_calculatePairPriority_iff role).mpr h.2
    rw [pairOf_eq_some.mpr ⟨h.1.1,h.1.2,hprio,rfl⟩]
    rfl
  · next h =>
    rw [Option.map_eq_none_iff,Option.eq_none_iff_forall_ne_some]
    intro p hp
    obtain ⟨hfamily,htransport,hprio,-⟩ := pairOf_eq_some.mp hp
    exact h ⟨⟨hfamily,htransport⟩,(CandidatePair.one_le_calculatePairPriority_iff role).mp hprio⟩

theorem map_ends_compatiblePairs (remotes locals : List Candidate) :
    (compatiblePairs role remotes locals).map (·.ends) = pairings locals remotes := by
  unfold compatiblePairs pairings
  rw [List.map_flatMap]
  congr 1
  funext c
  induction remotes with
  | nil => rfl
  | cons remote remotes ih =>
    have hends := pairOf_ends role c remote
    by_cases h : c.Pairs remote
    · rw [if_pos h] at hends
      obtain ⟨p,hp,hends⟩ := Option.map_eq_some_iff.mp hends
      rw [List.filterMap_cons_some hp,List.map_cons,hends,ih,List.filter_cons,if_pos (decide_eq_true h),
        List.map_cons]
    · rw [if_neg h,Option.map_eq_none_iff] at hends
      rw [List.filterMap_cons_none hends,ih,List.filter_cons,if_neg (by simpa using h)]

theorem formCandidatePairs_ends {a : IceAgent}
    (h : (pairings a.localCandidates a.remoteCandidates).length ≤ a.maxCandidatePairs) :
    (a.formCandidatePairs.1.candidatePairs.map (·.ends)).Perm (pairings a.localCandidates a.remoteCandidates) := by
  have hmap := map_ends_compatiblePairs a.role a.remoteCandidates a.localCandidates
  have hall : a.met = compatiblePairs a.role a.remoteCandidates a.localCandidates := by
    rw [← hmap,List.length_map] at h
    exact List.take_of_length_le h
  rw [← hmap,← hall]
  exact a.formCandidatePairs_perm.map _

theorem startChecks_ends (sendOk : SocketAddr → SocketAddr → Bool) (a : IceAgent) :
    (a.startChecks sendOk).1.candidatePairs.map (·.ends) = a.candidatePairs.map (·.ends) := by
  have hcheck : ∀ p, (startCheck sendOk p).1.ends = p.ends := by
    intro p
    unfold startCheck
    split
    · rfl
    · split <;> rfl
  simp [startChecks,hcheck]
end IceAgent
end RustyRtc.Ice
