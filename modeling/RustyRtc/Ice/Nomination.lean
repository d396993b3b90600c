import Mathlib.Order.Bounds.Defs
import RustyRtc.Ice.CheckList

/-! # Nominations

A packet moves one entry of the pair list on, the first one with its source address. A nomination flags the
entry and puts a copy of it on record. What each packet and each call of `select_valid_pair` does to the entries
is said once; the record of a controlling agent and the flags of either agent follow from it over whole runs.
-/
namespace RustyRtc.Ice
def CandidatePair.nominated (p : CandidatePair) : CandidatePair := { p with state := .succeeded,isNominated := true }

namespace IceAgent
variable {front back : List CandidatePair} {p : CandidatePair} {a : IceAgent} {p' : CandidatePair}
variable {pairs : List CandidatePair} {fromAddr : SocketAddr}

structure Entry (pairs front : List CandidatePair) (p : CandidatePair) (back : List CandidatePair) : Prop where
  pairs : pairs = front ++ p :: back
  first : ∀ q ∈ front, q.remote.address ≠ p.remote.address

section
variable {pairs front back : List CandidatePair} {p q : CandidatePair}
theorem Entry.mem_of_moved (h : Entry pairs front p back) (hq : q ∈ front ++ p' :: back) : q = p' ∨ q ∈ pairs := by
  rw [h.pairs]
  simp only [List.mem_append,List.mem_cons] at hq ⊢
  tauto
theorem Entry.mem_moved (h : Entry pairs front p back) (p' : CandidatePair) (hq : q ∈ pairs) :
    q = p ∨ q ∈ front ++ p' :: back := by
  rw [h.pairs] at hq
  simp only [List.mem_append,List.mem_cons] at hq ⊢
  tauto
end
def nomineeFor (a : IceAgent) (packet : Bytes) (fromAddr : SocketAddr) : Option CandidatePair :=
  (a.pairFor fromAddr).filter fun p => match a.role with
    | .controlling => decide (packet = BINDING_RESPONSE ∧ p.state ≠ .succeeded ∧ a.shouldNominate p = true)
    | .controlled => decide (packet = NOMINATION_REQUEST ∧ a.nominatesOther p = true)

inductive Progress (a : IceAgent) (packet : Bytes) (fromAddr : SocketAddr) : Option CandidatePair → IceAgent → Prop
  | kept : Progress a packet fromAddr none a
  | checked {a' front p back} : Entry a.candidatePairs front p back → p.remote.address = fromAddr →
      packet = BINDING_RESPONSE → p.state ≠ .succeeded → (a.role = .controlling → a.shouldNominate p = false) →
      a' = { a with candidatePairs := front ++ { p with state := .succeeded } :: back } →
      Progress a packet fromAddr none a'
  | nominated {a' front p back} : Entry a.candidatePairs front p back → p.remote.address = fromAddr →
      (a.role = .controlling ∧ packet = BINDING_RESPONSE ∧ p.state ≠ .succeeded ∧ a.shouldNominate p = true ∨
        a.role = .controlled ∧ packet = NOMINATION_REQUEST ∧ a.nominatesOther p = true) →
      a' = { a with candidatePairs := front ++ p.nominated :: back,nominatedPair := some p.nominated.cloneLight } →
      Progress a packet fromAddr (some p) a'

theorem setPair_entry (h : Entry pairs front p back)
    (q : CandidatePair) : setPair p.remote.address q pairs = front ++ q :: back := by
  obtain ⟨rfl,hfirst⟩ := h
  induction front with
  | nil => simp [setPair]
  | cons r front ih =>
    rw [List.cons_append, setPair, if_neg (hfirst r (by simp)), ih fun q hq => hfirst q (by simp [hq]),
      List.cons_append]

theorem entry_of_pairFor (h : a.pairFor fromAddr = some p) :
    p.remote.address = fromAddr ∧ ∃ front back, Entry a.candidatePairs front p back := by
  obtain ⟨-,front,back,hpairs,hfirst⟩ := List.find?_eq_some_iff_append.mp h
  have haddr := remote_of_pairFor h
  refine ⟨haddr,front,back,hpairs,fun q hq => ?_⟩
  rw [haddr]
  simpa using hfirst q hq

theorem Entry.pairFor (h : Entry a.candidatePairs front p back) : a.pairFor p.remote.address = some p := by
  refine List.find?_eq_some_iff_append.mpr ⟨decide_eq_true rfl,front,back,h.pairs,fun q hq => ?_⟩
  simpa using h.first q hq
theorem nomineeFor_eq (h : a.pairFor fromAddr = some p) (packet : Bytes) : a.nomineeFor packet fromAddr = if
      a.role = .controlling ∧ packet = BINDING_RESPONSE ∧ p.state ≠ .succeeded ∧ a.shouldNominate p = true ∨
        a.role = .controlled ∧ packet = NOMINATION_REQUEST ∧ a.nominatesOther p = true then some p else none := by
  rw [nomineeFor,h,Option.filter_some]
  cases a.role <;> simp

theorem progress (sendOk : SocketAddr → SocketAddr → Bool) (a : IceAgent) (packet : Bytes) (fromAddr : SocketAddr) :
    Progress a packet fromAddr (a.nomineeFor packet fromAddr) (a.handleIncomingPacket sendOk packet fromAddr).1 := by
  unfold handleIncomingPacket
  cases hp : a.pairFor fromAddr with
  | none =>
    rw [nomineeFor,hp]
    exact .kept
  | some p =>
    obtain ⟨rfl,front,back,hentry⟩ := entry_of_pairFor hp
    have hnominee := nomineeFor_eq hp packet
    dsimp only
    split
    · next hresponse =>
      have hnot : packet ≠ NOMINATION_REQUEST := hresponse ▸ response_ne
      split
      · next hstate =>
        rw [hnominee,if_neg (by simp [hnot,hstate])]
        exact .kept
      · next hstate =>
        split
        · next hnominate =>
          have hwhy : a.role = .controlling ∧ packet = BINDING_RESPONSE ∧ p.state ≠ .succeeded ∧
              a.shouldNominate p = true := ⟨hnominate.1,hresponse,hstate,hnominate.2⟩
          rw [hnominee,if_pos (.inl hwhy)]
          exact .nominated hentry rfl (.inl hwhy) (by rw [setPair_entry hentry]; rfl)
        · next hkeep =>
          have hkeep : ¬(a.role = .controlling ∧ a.shouldNominate p = true) := hkeep
          rw [hnominee,if_neg (by tauto)]
          refine .checked hentry rfl hresponse hstate (fun hrole => ?_) (by rw [setPair_entry hentry])
          exact Bool.eq_false_iff.mpr fun hshould => hkeep ⟨hrole,hshould⟩
    · next hresponse =>
      split
      · split
        · next hnominate =>
          rw [hnominee,if_pos (.inr hnominate)]
          exact .nominated hentry rfl (.inr hnominate) (by rw [setPair_entry hentry]; rfl)
        · next hkeep =>
          rw [hnominee,if_neg (by tauto)]
          exact .kept
      · next hother =>
        rw [hnominee,if_neg (by tauto)]
        exact .kept

structure Incoming where
  sendOk : SocketAddr → SocketAddr → Bool
  packet : Bytes
  fromAddr : SocketAddr
def receive (a : IceAgent) (x : Incoming) : IceAgent := (a.handleIncomingPacket x.sendOk x.packet x.fromAddr).1

/-- The record is as good as the best pair that has succeeded. -/
structure Leading (a : IceAgent) : Prop where
  role : a.role = .controlling
  attained : ∀ np, a.nominatedPair = some np → ∃ p ∈ a.candidatePairs, p.state = .succeeded ∧ p.priority = np.priority
  above : ∀ np, a.nominatedPair = some np → ∀ p ∈ a.candidatePairs, p.state = .succeeded → p.priority ≤ np.priority
  none : a.nominatedPair = none → ∀ p ∈ a.candidatePairs, p.state ≠ .succeeded

theorem Leading.receive (h : a.Leading) (x : Incoming) : (a.receive x).Leading := by
  have hprogress := progress x.sendOk a x.packet x.fromAddr
  rw [← IceAgent.receive] at hprogress
  generalize a.nomineeFor x.packet x.fromAddr = nominee at hprogress
  generalize a.receive x = b at hprogress
  cases hprogress with
  | kept => exact h
  | @checked _ front p back hentry _ _ hstate hkeep hb =>
    have hkeep := hkeep h.role
    subst hb
    obtain ⟨np,hnp⟩ : ∃ np, a.nominatedPair = some np := by
      cases hnp : a.nominatedPair with
      | none => simp [shouldNominate,hnp] at hkeep
      | some np => exact ⟨np,rfl⟩
    refine ⟨h.role,fun np' hnp' => ?_,fun np' hnp' q hq hsucceeded => ?_,fun hnone => ?_⟩
    · obtain ⟨q,hq,hsucceeded,hprio⟩ := h.attained np' hnp'
      rcases hentry.mem_moved { p with state := .succeeded } hq with rfl | hq
      · exact absurd hsucceeded hstate
      · exact ⟨q,hq,hsucceeded,hprio⟩
    · obtain rfl := Option.some.inj (hnp.symm.trans hnp')
      rcases hentry.mem_of_moved hq with rfl | hq
      · simpa [shouldNominate,hnp] using hkeep
      · exact h.above np hnp q hq hsucceeded
    · cases hnp.symm.trans hnone
  | @nominated _ front p back hentry _ hwhy hb =>
    have hshould : a.shouldNominate p = true := by
      rcases hwhy with hwhy | hwhy
      · exact hwhy.2.2.2
      · exact absurd (h.role.symm.trans hwhy.1) (by decide)
    subst hb
    refine ⟨h.role,fun np' hnp' => ?_,fun np' hnp' q hq hsucceeded => ?_,fun hnone => by cases hnone⟩
    · cases hnp'
      exact ⟨p.nominated,by simp,rfl,rfl⟩
    · cases hnp'
      rcases hentry.mem_of_moved hq with rfl | hq
      · exact UInt64.le_refl _
      · -- a pair that succeeded before is no better than the old record, and that is worse
        cases hnp : a.nominatedPair with
        | none => exact absurd hsucceeded (h.none hnp q hq)
        | some np =>
          have hgt : np.priority < p.priority := by simpa [shouldNominate,hnp] using hshould
          exact UInt64.le_of_lt (UInt64.lt_of_le_of_lt (h.above np hnp q hq hsucceeded) hgt)

theorem Leading.run (h : a.Leading) (xs : List Incoming) : (xs.foldl IceAgent.receive a).Leading := by
  induction xs generalizing a with
  | nil => exact h
  | cons x xs ih => exact ih (h.receive x)

/-- Whatever packets arrive at a controlling agent that has checked nothing yet, a pair is on record exactly if one
has succeeded, and the record has the greatest priority of all that have. -/
theorem best_pair_nominated {a : IceAgent} (hrole : a.role = .controlling) (hnone : a.nominatedPair = none)
    (hfresh : ∀ p ∈ a.candidatePairs, p.state ≠ .succeeded) (xs : List Incoming) :
    let b := xs.foldl receive a
    (b.nominatedPair.isSome ↔ ∃ p ∈ b.candidatePairs, p.state = .succeeded) ∧
      ∀ np, b.nominatedPair = some np →
        IsGreatest {x | ∃ p ∈ b.candidatePairs, p.state = .succeeded ∧ p.priority = x} np.priority := by
  intro b
  have hstart : a.Leading := by
    refine ⟨hrole,fun np hnp => ?_,fun np hnp => ?_,fun _ => hfresh⟩
    · cases hnone.symm.trans hnp
    · cases hnone.symm.trans hnp
  have hrun : b.Leading := hstart.run xs
  constructor
  · constructor
    · intro hsome
      obtain ⟨np,hnp⟩ := Option.isSome_iff_exists.mp hsome
      obtain ⟨p,hp,hsucceeded,-⟩ := hrun.attained np hnp
      exact ⟨p,hp,hsucceeded⟩
    · rintro ⟨p,hp,hsucceeded⟩
      cases hnp : b.nominatedPair with
      | none => exact absurd hsucceeded (hrun.none hnp p hp)
      | some np => rfl
  · intro np hnp
    refine ⟨hrun.attained np hnp,?_⟩
    rintro x ⟨p,hp,hsucceeded,rfl⟩
    exact hrun.above np hnp p hp hsucceeded

theorem best_pair_nominated_dualStack :
    let a := (Link.dualStack .controlling).formCandidatePairs.1
    let b := [Incoming.mk always BINDING_RESPONSE ⟨.v6 2,5000⟩,⟨always,BINDING_RESPONSE,⟨.v4 10 0 0 2,5000⟩⟩].foldl receive a
    (b.nominatedPair.isSome ↔ ∃ p ∈ b.candidatePairs, p.state = .succeeded) ∧
      ∀ np, b.nominatedPair = some np →
        IsGreatest {x | ∃ p ∈ b.candidatePairs, p.state = .succeeded ∧ p.priority = x} np.priority :=
  best_pair_nominated rfl rfl (by decide +kernel) _

inductive Input where
  | packet (x : Incoming)
  | selectValidPair
def advance (a : IceAgent) : Input → IceAgent
  | .packet x => a.receive x
  | .selectValidPair => a.selectValidPair.1
def nominee (a : IceAgent) : Input → Option CandidatePair
  | .packet x => a.nomineeFor x.packet x.fromAddr
  | .selectValidPair => (bestSucceeded a.candidatePairs).bind (a.candidatePairs[·]?)
def nominating (a : IceAgent) (i : Input) : Option (IceAgent × Option CandidatePair) := some (a.advance i,a.nominee i)

inductive Advanced (a : IceAgent) : Option CandidatePair → IceAgent → Prop
  | kept : Advanced a none a
  | checked {a' front p back} : Entry a.candidatePairs front p back → p.state ≠ .succeeded →
      a' = { a with candidatePairs := front ++ { p with state := .succeeded } :: back } → Advanced a none a'
  | nominated {a' front p back} : a.candidatePairs = front ++ p :: back →
      (p.state = .succeeded ∨ ∀ q ∈ front, q.remote.address ≠ p.remote.address) →
      a' = { a with candidatePairs := front ++ p.nominated :: back,nominatedPair := some p.nominated.cloneLight } →
      Advanced a (some p) a'

theorem succeeded_of_bestSucceeded {i : ℕ} (h : bestSucceeded pairs = some i) :
    ∃ p, pairs[i]? = some p ∧ p.state = .succeeded := by
  obtain ⟨best,hbest,rfl⟩ := Option.map_eq_some_iff.mp h
  have hmem : best ∈ pairs.zipIdx.filter (·.1.state = .succeeded) := by
    refine List.foldlRecOn (motive := fun b => ∀ x, b = some x → x ∈ _) _ _ ?_ ?_ best hbest
    · rintro x ⟨⟩
    · intro b hb p hp x hx
      cases b with
      | none => exact Option.some.inj hx ▸ hp
      | some q =>
        dsimp only at hx
        split at hx
        · exact Option.some.inj hx ▸ hp
        · exact hb x hx
  obtain ⟨hin,hstate⟩ := List.mem_filter.mp hmem
  exact ⟨best.1,List.mem_zipIdx_iff_getElem?.mp hin,of_decide_eq_true hstate⟩

theorem advanced (a : IceAgent) (i : Input) : Advanced a (a.nominee i) (a.advance i) := by
  cases i with
  | packet x =>
    have hprogress := progress x.sendOk a x.packet x.fromAddr
    rw [advance,nominee,IceAgent.receive]
    generalize a.nomineeFor x.packet x.fromAddr = nominee at hprogress
    generalize (a.handleIncomingPacket x.sendOk x.packet x.fromAddr).1 = b at hprogress
    cases hprogress with
    | kept => exact .kept
    | checked hentry _ _ hstate _ hb => exact .checked hentry hstate hb
    | nominated hentry _ _ hb => exact .nominated hentry.pairs (.inr hentry.first) hb
  | selectValidPair =>
    rw [advance,nominee,selectValidPair]
    cases hbest : bestSucceeded a.candidatePairs with
    | none => exact .kept
    | some i =>
      obtain ⟨p,hp,hstate⟩ := succeeded_of_bestSucceeded hbest
      obtain ⟨hi,hget⟩ := List.getElem?_eq_some_iff.mp hp
      have hsplit : a.candidatePairs = a.candidatePairs.take i ++ p :: a.candidatePairs.drop (i + 1) := by
        rw [← hget,List.getElem_cons_drop,List.take_append_drop]
      have hflag : ({ p with isNominated := true } : CandidatePair) = p.nominated := by
        rw [CandidatePair.nominated,← hstate]
      simp only [Option.bind_some,hp,List.getElem?_modify,if_true,Option.map_eq_map,Option.map_some]
      refine .nominated hsplit (.inl hstate) ?_
      rw [List.modify_eq_take_cons_drop hi,hget,hflag]

def nominees (h : List (Input × Option CandidatePair)) : List CandidatePair := h.filterMap Prod.snd

/-- The flags after a history are those of its nominations, and the record is the last of them. -/
structure Flagged (h : List (Input × Option CandidatePair)) (s : IceAgent) : Prop where
  /-- Of all entries with one remote address only the first can have succeeded. -/
  first : s.candidatePairs.Pairwise fun p q => q.state = .succeeded → p.remote.address ≠ q.remote.address
  succeeded : ∀ p ∈ s.candidatePairs, p.isNominated = true → p.state = .succeeded
  nominated : ∀ p ∈ s.candidatePairs, p.isNominated = true → ∃ q ∈ nominees h, q.addresses = p.addresses
  flagged : ∀ q ∈ nominees h, ∃ p ∈ s.candidatePairs, p.isNominated = true ∧ p.addresses = q.addresses
  record : ∀ q, (nominees h).getLast? = some q → ∃ p ∈ s.candidatePairs, p.isNominated = true ∧
    p.addresses = q.addresses ∧ s.nominatedPair = some p.cloneLight

theorem first_moved (p : CandidatePair) (hremote : p'.remote = p.remote)
    (hnew : ∀ q ∈ front, q.remote.address ≠ p.remote.address)
    (h : (front ++ p :: back).Pairwise fun p q => q.state = .succeeded → p.remote.address ≠ q.remote.address) :
    (front ++ p' :: back).Pairwise fun p q => q.state = .succeeded → p.remote.address ≠ q.remote.address := by
  rw [List.pairwise_append,List.pairwise_cons] at h ⊢
  obtain ⟨hfront,⟨hp,hback⟩,hcross⟩ := h
  refine ⟨hfront,⟨fun q hq => ?_,hback⟩,fun q hq r hr hsucceeded => ?_⟩
  · rw [hremote]
    exact hp q hq
  · rcases List.mem_cons.mp hr with rfl | hr
    · rw [hremote]
      exact hnew q hq
    · exact hcross q hq r (List.mem_cons_of_mem p hr) hsucceeded

theorem Flagged.step {h : List (Input × Option CandidatePair)} {s s' : IceAgent} {i : Input}
    {n : Option CandidatePair} (hf : Flagged h s) (hstep : Advanced s n s') : Flagged (h ++ [(i,n)]) s' := by
  have hnominees : nominees (h ++ [(i,n)]) = nominees h ++ n.toList := by
    rw [nominees,List.filterMap_append]
    cases n <;> rfl
  cases hstep with
  | kept =>
    rw [Option.toList_none,List.append_nil] at hnominees
    exact ⟨hf.first,hf.succeeded,hnominees ▸ hf.nominated,hnominees ▸ hf.flagged,hnominees ▸ hf.record⟩
  | @checked _ front p back hentry hstate hs' =>
    subst hs'
    rw [Option.toList_none,List.append_nil] at hnominees
    -- a pair that has not succeeded has no flag
    have hplain : p.isNominated ≠ true := fun hp => hstate (hf.succeeded p (by simp [hentry.pairs]) hp)
    have hsame : ∀ q, q.isNominated = true → (q ∈ front ++ { p with state := .succeeded } :: back ↔ q ∈ s.candidatePairs) := by
      intro q hflag
      constructor <;> intro hq
      · exact (hentry.mem_of_moved hq).resolve_left (by rintro rfl; exact hplain hflag)
      · exact (hentry.mem_moved _ hq).resolve_left (by rintro rfl; exact hplain hflag)
    refine ⟨first_moved p rfl hentry.first (hentry.pairs ▸ hf.first),
      fun q hq hflag => hf.succeeded q ((hsame q hflag).mp hq) hflag,
      hnominees ▸ fun q hq hflag => hf.nominated q ((hsame q hflag).mp hq) hflag,hnominees ▸ fun q hq => ?_,
      hnominees ▸ fun q hq => ?_⟩
    · obtain ⟨r,hr,hflag,haddr⟩ := hf.flagged q hq
      exact ⟨r,(hsame r hflag).mpr hr,hflag,haddr⟩
    · obtain ⟨r,hr,hflag,haddr,hrecord⟩ := hf.record q hq
      exact ⟨r,(hsame r hflag).mpr hr,hflag,haddr,hrecord⟩
  | @nominated _ front p back hpairs hwhy hs' =>
    subst hs'
    rw [Option.toList_some] at hnominees
    have hfirst := hf.first
    rw [hpairs] at hfirst
    have hentry : Entry s.candidatePairs front p back := by
      refine ⟨hpairs,?_⟩
      rcases hwhy with hsucceeded | hnew
      · exact fun q hq => (List.pairwise_append.mp hfirst).2.2 q hq p (by simp) hsucceeded
      · exact hnew
    refine ⟨first_moved p rfl hentry.first hfirst,fun q hq hflag => ?_,fun q hq hflag => ?_,fun q hq => ?_,fun q hq => ?_⟩
    · rcases hentry.mem_of_moved hq with rfl | hq
      · rfl
      · exact hf.succeeded q hq hflag
    · rw [hnominees]
      rcases hentry.mem_of_moved hq with rfl | hq
      · exact ⟨p,by simp,rfl⟩
      · obtain ⟨r,hr,haddr⟩ := hf.nominated q hq hflag
        exact ⟨r,List.mem_append_left _ hr,haddr⟩
    · rw [hnominees] at hq
      rcases List.mem_append.mp hq with hq | hq
      · obtain ⟨r,hr,hflag,haddr⟩ := hf.flagged q hq
        rcases hentry.mem_moved p.nominated hr with rfl | hr
        · exact ⟨r.nominated,by simp,rfl,haddr⟩
        · exact ⟨r,hr,hflag,haddr⟩
      · obtain rfl := List.mem_singleton.mp hq
        exact ⟨q.nominated,by simp,rfl,rfl⟩
    · rw [hnominees,List.getLast?_concat] at hq
      cases hq
      exact ⟨p.nominated,by simp,rfl,rfl,rfl⟩

theorem fresh_of_mem (h : p ∈ a.formCandidatePairs.1.candidatePairs) : p.state = .waiting ∧ p.isNominated = false := by
  have hmet := List.mem_of_mem_take (a.formCandidatePairs_perm.mem_iff.mp h)
  obtain ⟨c,-,remote,-,-,-,-,rfl⟩ := mem_compatiblePairs.mp hmet
  exact ⟨rfl,rfl⟩

theorem flagged_run {s : IceAgent} {h : List (Input × Option CandidatePair)}
    (hs : Reaches nominating a.formCandidatePairs.1 h s) : Flagged h s := by
  induction hs with
  | init =>
    have hplain : ∀ p ∈ a.formCandidatePairs.1.candidatePairs, p.isNominated ≠ true := fun p hp => by
      rw [(fresh_of_mem hp).2]
      decide
    refine ⟨List.pairwise_of_forall_mem_list fun p _ q hq hsucceeded => ?_,fun p hp hflag => absurd hflag (hplain p hp),
      fun p hp hflag => absurd hflag (hplain p hp),by simp [nominees],by simp [nominees]⟩
    rw [(fresh_of_mem hq).1] at hsucceeded
    cases hsucceeded
  | @snoc h s s' i n _ hstep ih =>
    cases hstep
    exact ih.step (s.advanced i)

/-- No pair is flagged but the one on record. -/
def SingleFlag (a : IceAgent) : Prop :=
  (a.candidatePairs.filter (·.isNominated)).length ≤ 1 ∧
    ∀ p ∈ a.candidatePairs, p.isNominated = true → a.nominatedPair = some p.cloneLight
instance (a : IceAgent) : Decidable a.SingleFlag := inferInstanceAs (Decidable (_ ∧ _))

theorem eq_of_single (h : (a.candidatePairs.filter (·.isNominated)).length ≤ 1) {q : CandidatePair}
    (hp : p ∈ a.candidatePairs) (hpn : p.isNominated = true) (hq : q ∈ a.candidatePairs) (hqn : q.isNominated = true) :
    p = q := by
  have hp := List.mem_filter.mpr ⟨hp,hpn⟩
  have hq := List.mem_filter.mpr ⟨hq,hqn⟩
  generalize a.candidatePairs.filter (·.isNominated) = l at h hp hq
  rcases l with _ | ⟨r,_ | ⟨r',l⟩⟩
  · cases hp
  · rw [List.mem_singleton.mp hp,List.mem_singleton.mp hq]
  · simp at h

/-- From freshly formed pairs, in either role: the record is a copy of the flagged pair that was nominated last.
There is no other flag exactly if no two different pairs were nominated. -/
theorem flags_of_nominations {a s : IceAgent} {h : List (Input × Option CandidatePair)}
    (hs : Reaches nominating a.formCandidatePairs.1 h s) :
    (∀ q, (nominees h).getLast? = some q → ∃ p ∈ s.candidatePairs, p.isNominated = true ∧
      p.addresses = q.addresses ∧ s.nominatedPair = some p.cloneLight) ∧
    (s.SingleFlag ↔ ∀ q ∈ nominees h, ∀ q' ∈ nominees h, q.addresses = q'.addresses) := by
  have hf := flagged_run hs
  refine ⟨hf.record,⟨fun hsingle q hq q' hq' => ?_,fun hsame => ?_⟩⟩
  · obtain ⟨p,hp,hflag,haddr⟩ := hf.flagged q hq
    obtain ⟨p',hp',hflag',haddr'⟩ := hf.flagged q' hq'
    rw [← haddr, ← haddr', eq_of_single hsingle.1 hp hflag hp' hflag']
  · -- flagged pairs have the address of a nominee, and two entries of one address are not both flagged
    have hremote : ∀ p ∈ s.candidatePairs, p.isNominated = true → ∀ q ∈ s.candidatePairs, q.isNominated = true →
        p.remote.address = q.remote.address := by
      intro p hp hpn q hq hqn
      obtain ⟨r,hr,hrp⟩ := hf.nominated p hp hpn
      obtain ⟨r',hr',hrq⟩ := hf.nominated q hq hqn
      have haddr := hrp.symm.trans ((hsame r hr r' hr').trans hrq)
      exact (Prod.mk.inj haddr).2
    have hlength : (s.candidatePairs.filter (·.isNominated)).length ≤ 1 := by
      have hpair := hf.first.filter (·.isNominated)
      have hmem : ∀ p ∈ s.candidatePairs.filter (·.isNominated), p ∈ s.candidatePairs ∧ p.isNominated = true :=
        fun p hp => List.mem_filter.mp hp
      generalize s.candidatePairs.filter (·.isNominated) = l at hpair hmem
      rcases l with _ | ⟨p,_ | ⟨q,l⟩⟩
      · exact Nat.zero_le 1
      · exact Nat.le_refl 1
      · obtain ⟨hp,hpn⟩ := hmem p (by simp)
        obtain ⟨hq,hqn⟩ := hmem q (by simp)
        exact absurd (hremote p hp hpn q hq hqn)
          ((List.pairwise_cons.mp hpair).1 q (by simp) (hf.succeeded q hq hqn))
    refine ⟨hlength,fun p hp hflag => ?_⟩
    obtain ⟨q,hq,-⟩ := hf.nominated p hp hflag
    obtain ⟨last,hlast⟩ : ∃ last, (nominees h).getLast? = some last :=
      Option.isSome_iff_exists.mp (by rw [List.getLast?_isSome]; exact List.ne_nil_of_mem hq)
    obtain ⟨p',hp',hflag',-,hrecord⟩ := hf.record last hlast
    rw [hrecord, eq_of_single hlength hp hflag hp' hflag']

theorem flags_of_nominations_dualStack :
    ∃ h s, Reaches nominating (Link.dualStack .controlling).formCandidatePairs.1 h s ∧
      (nominees h).map (·.addresses) = [(⟨.v4 10 0 0 1,5000⟩,⟨.v4 10 0 0 2,5000⟩),(⟨.v4 10 0 0 1,5000⟩,⟨.v4 10 0 0 2,5000⟩)] ∧
      (∀ q, (nominees h).getLast? = some q → ∃ p ∈ s.candidatePairs, p.isNominated = true ∧
        p.addresses = q.addresses ∧ s.nominatedPair = some p.cloneLight) ∧
      (s.SingleFlag ↔ ∀ q ∈ nominees h, ∀ q' ∈ nominees h, q.addresses = q'.addresses) := by
  obtain ⟨h,s,hs,hnominees⟩ : ∃ h s, Reaches nominating (Link.dualStack .controlling).formCandidatePairs.1 h s ∧
      (nominees h).map (·.addresses) =
        [(⟨.v4 10 0 0 1,5000⟩,⟨.v4 10 0 0 2,5000⟩),(⟨.v4 10 0 0 1,5000⟩,⟨.v4 10 0 0 2,5000⟩)] :=
    exists_reaches_of_trace [.packet ⟨always,BINDING_RESPONSE,⟨.v4 10 0 0 2,5000⟩⟩,.selectValidPair] (by decide +kernel)
  exact ⟨h,s,hs,hnominees,flags_of_nominations hs⟩

/-- The less preferred address answers first: its pair is nominated, then the other one, and both stay flagged. -/
theorem two_pairs_flagged :
    ∃ h s, Reaches nominating (Link.dualStack .controlling).formCandidatePairs.1 h s ∧
      (s.candidatePairs.filter (·.isNominated)).map (·.addresses) =
        [(⟨.v4 10 0 0 1,5000⟩,⟨.v4 10 0 0 2,5000⟩),(⟨.v6 1,5000⟩,⟨.v6 2,5000⟩)] ∧ ¬ s.SingleFlag :=
  exists_reaches_of_trace [.packet ⟨always,BINDING_RESPONSE,⟨.v6 2,5000⟩⟩,
    .packet ⟨always,BINDING_RESPONSE,⟨.v4 10 0 0 2,5000⟩⟩] (by decide +kernel)
end IceAgent
end RustyRtc.Ice
