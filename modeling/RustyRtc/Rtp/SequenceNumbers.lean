import RustyRtc.Rtp.PlayoutOrder
import RustyRtc.Rtp.Reports

/-! # Extended sequence numbers

A packet has an unbounded true position of which its sequence number shows sixteen bits. `seq_ext.rs` puts the number
of wraps in front of them. It counts a wrap whenever the numbers fall by more than half their range, and never takes
one back.
-/
namespace RustyRtc.Rtp
variable {q : ℤ} {ps : List ℤ}
def seqOf (p : ℤ) : UInt16 := UInt16.ofNat (p % 65536).toNat
def extOf (p : ℤ) : UInt32 := UInt32.ofNat (p % 4294967296).toNat
theorem toNat_seqOf (p : ℤ) : ((seqOf p).toNat : ℤ) = p % 65536 := by
  rw [seqOf,UInt16.toNat_ofNat']
  omega
theorem toNat_extOf (p : ℤ) : ((extOf p).toNat : ℤ) = p % 4294967296 := by
  rw [extOf,UInt32.toNat_ofNat']
  omega
def cycleOf (p : ℤ) : UInt32 := extOf (p / 65536 * 65536)

theorem cycleOf_or_seqOf (p : ℤ) : cycleOf p ||| (seqOf p).toUInt32 = extOf p := by
  have hcycle := toNat_extOf (p / 65536 * 65536)
  have hseq := toNat_seqOf p
  have hext := toNat_extOf p
  -- the low sixteen bits of a cycle are free
  have hmul : (cycleOf p).toNat = 2 ^ 16 * ((cycleOf p).toNat / 65536) := by
    rw [cycleOf]
    omega
  apply UInt32.toNat_inj.mp
  rw [UInt32.toNat_or,UInt16.toNat_toUInt32,hmul,← Nat.two_pow_add_eq_or_of_lt (seqOf p).toNat_lt,← hmul,cycleOf]
  omega

theorem cycleOf_add (p : ℤ) : cycleOf p + 65536 = cycleOf (p + 65536) := by
  have hcycle := toNat_extOf (p / 65536 * 65536)
  have hnext := toNat_extOf ((p + 65536) / 65536 * 65536)
  apply UInt32.toNat_inj.mp
  rw [UInt32.toNat_add,cycleOf,cycleOf]
  change ((extOf (p / 65536 * 65536)).toNat + 65536) % 2 ^ 32 = _
  omega

theorem cycleOf_congr {p : ℤ} (h : p / 65536 = q / 65536) : cycleOf p = cycleOf q := by rw [cycleOf,cycleOf,h]

namespace SeqExt
variable {p q : ℤ} {s : SeqExt}
def At (s : SeqExt) (q : ℤ) : Prop := s = ⟨cycleOf q,seqOf q⟩

theorem wraps_iff (hpq : |p - q| < 2 ^ 15) :
    (seqOf p < seqOf q ∧ seqOf q - seqOf p > 0x8000) ↔ q / 65536 < p / 65536 := by
  have hp := toNat_seqOf p
  have hq := toNat_seqOf q
  obtain ⟨hlow,hhigh⟩ := abs_lt.mp hpq
  have hhalf : (0x8000 : UInt16).toNat = 32768 := rfl
  rw [UInt16.lt_iff_toNat_lt,gt_iff_lt,UInt16.lt_iff_toNat_lt,UInt16.toNat_sub,hhalf]
  have := (seqOf p).toNat_lt
  have := (seqOf q).toNat_lt
  omega

theorem update_eq (hs : s.At q) (hpq : |p - q| < 2 ^ 15) : s.update (seqOf p) =
      if q / 65536 ≤ p / 65536 then (⟨cycleOf p,seqOf p⟩,extOf p)
      else (⟨cycleOf (p + 65536),seqOf p⟩,extOf (p + 65536)) := by
  subst hs
  have hseq : seqOf (p + 65536) = seqOf p := by simp [seqOf]
  obtain ⟨hlow,hhigh⟩ := abs_lt.mp hpq
  simp only [update,wraps_iff hpq]
  rcases lt_trichotomy (q / 65536) (p / 65536) with hlt | heq | hgt
  · have hnext : cycleOf (q + 65536) = cycleOf p := cycleOf_congr (by omega)
    rw [if_pos hlt,if_pos hlt.le,cycleOf_add,hnext,cycleOf_or_seqOf]
  · have hsame : cycleOf q = cycleOf p := cycleOf_congr heq
    rw [if_neg (by omega),if_pos heq.le,hsame,cycleOf_or_seqOf]
  · -- a packet from before a wrap is put behind it
    have hsame : cycleOf q = cycleOf (p + 65536) := cycleOf_congr (by omega)
    rw [if_neg (by omega),if_neg (by omega),hsame,← hseq,cycleOf_or_seqOf]

theorem extOf_add_ne (p : ℤ) : extOf (p + 65536) ≠ extOf p := by
  intro h
  have hnat := congrArg UInt32.toNat h
  have := toNat_extOf p
  have := toNat_extOf (p + 65536)
  omega

theorem update_first (hlow : 0 ≤ p) (hhigh : p < 65536) : update {} (seqOf p) = (⟨cycleOf p,seqOf p⟩,extOf p) := by
  have hnone : ¬(seqOf p < (0 : UInt16)) := by
    rw [UInt16.lt_iff_toNat_lt]
    exact Nat.not_lt_zero _
  have hcycle : cycleOf p = 0 := by
    rw [cycleOf,Int.ediv_eq_zero_of_lt hlow hhigh]
    rfl
  have hor := cycleOf_or_seqOf p
  rw [hcycle] at hor ⊢
  simp only [update,hnone,false_and,if_false,hor]

/-- The numbers extended are the positions exactly if no packet comes from a cycle before that of the last one. -/
theorem extended_eq_iff (hs : s.At q) (hnear : (q :: ps).IsChain fun q p => |p - q| < 2 ^ 15) :
    s.extended (ps.map seqOf) = ps.map extOf ↔ (q :: ps).IsChain fun q p => q / 65536 ≤ p / 65536 := by
  induction ps generalizing s q with
  | nil => simp [extended]
  | cons p ps ih =>
    obtain ⟨hpq,hrest⟩ := List.isChain_cons_cons.mp hnear
    have hupdate := update_eq hs hpq
    rw [List.map_cons,List.map_cons,extended,List.isChain_cons_cons,List.cons.injEq]
    split at hupdate
    · next hcycle =>
      rw [hupdate,and_iff_right rfl,and_iff_right hcycle]
      exact ih rfl hrest
    · next hback =>
      rw [hupdate]
      exact iff_of_false (fun h => extOf_add_ne p h.1) (fun h => hback h.1)
end SeqExt

theorem nonneg_of_chain (hq : 0 ≤ q)
    (h : (q :: ps).IsChain fun q p => q / 65536 ≤ p / 65536) : ∀ p ∈ q :: ps, 0 ≤ p := by
  induction ps generalizing q with
  | nil => simpa using hq
  | cons p ps ih =>
    obtain ⟨hcycle,hrest⟩ := List.isChain_cons_cons.mp h
    have hp : 0 ≤ p := by omega
    exact List.forall_mem_cons.mpr ⟨hq,ih hp hrest⟩

theorem highest_mem (exts : List UInt32) (h : exts ≠ []) : ∃ ext ∈ exts, ext.toNat = highest exts := by
  induction exts using List.reverseRecOn with
  | nil => exact absurd rfl h
  | append_singleton exts last ih =>
    rw [highest_concat]
    rcases Nat.le_total (highest exts) last.toNat with hle | hle
    · exact ⟨last,by simp,(Nat.max_eq_right hle).symm⟩
    · rw [Nat.max_eq_left hle]
      by_cases hnil : exts = []
      · subst hnil
        have hzero : last.toNat = 0 := Nat.le_zero.mp hle
        exact ⟨last,by simp,hzero⟩
      · obtain ⟨ext,hext,htop⟩ := ih hnil
        exact ⟨ext,by simp [hext],htop⟩

/-- For packets at positions less than 2^15 apart from one to the next, the numbers that the tracker gives them are
their positions exactly if none comes from a cycle before that of the packet before it, and all positions fit in
thirty-two bits. Then the highest number is the highest position. -/
theorem extended_positions_iff {events : List RxTracker.Event} {first : ℤ} {ps : List ℤ}
    (hseqs : seqs events = (first :: ps).map seqOf) (hlow : 0 ≤ first) (hhigh : first < 65536)
    (hnear : (first :: ps).IsChain fun q p => |p - q| < 2 ^ 15) :
    ((SeqExt.extended {} (seqs events)).map (fun ext => (ext.toNat : ℤ)) = first :: ps ↔
      ((first :: ps).IsChain fun q p => q / 65536 ≤ p / 65536) ∧ ∀ p ∈ first :: ps, p < 4294967296) ∧
    (((first :: ps).IsChain fun q p => q / 65536 ≤ p / 65536) → (∀ p ∈ first :: ps, p < 4294967296) →
      ((RxTracker.run events).highestExtSeq.toNat : ℤ) ∈ first :: ps ∧
        ∀ p ∈ first :: ps, p ≤ (RxTracker.run events).highestExtSeq.toNat) := by
  have hfirst := SeqExt.update_first hlow hhigh
  have hext : SeqExt.extended {} (seqs events) = extOf first :: SeqExt.extended ⟨cycleOf first,seqOf first⟩ (ps.map seqOf) := by
    rw [hseqs, List.map_cons, SeqExt.extended, hfirst]
  have hiff := SeqExt.extended_eq_iff (s := ⟨cycleOf first,seqOf first⟩) rfl hnear
  have hround : ∀ p : ℤ, 0 ≤ p → p < 4294967296 → ((extOf p).toNat : ℤ) = p := by
    intro p hp hp'
    rw [toNat_extOf, Int.emod_eq_of_lt hp hp']
  have hpositions : ((first :: ps).IsChain fun q p => q / 65536 ≤ p / 65536) → (∀ p ∈ first :: ps, p < 4294967296) →
      (SeqExt.extended {} (seqs events)).map (fun ext => (ext.toNat : ℤ)) = first :: ps := by
    intro hchain hbound
    have hnonneg := nonneg_of_chain hlow hchain
    rw [hext, hiff.mpr hchain, ← List.map_cons, List.map_map]
    refine (List.map_congr_left fun p hp => ?_).trans (List.map_id _)
    exact hround p (hnonneg p hp) (hbound p hp)
  refine ⟨⟨fun heq => ?_,fun h => hpositions h.1 h.2⟩,fun hchain hbound => ?_⟩
  · -- a position that is a thirty-two bit number is what it shows of itself
    have hbound : ∀ p ∈ first :: ps, 0 ≤ p ∧ p < 4294967296 := by
      intro p hp
      rw [← heq] at hp
      obtain ⟨ext,-,rfl⟩ := List.mem_map.mp hp
      have := ext.toNat_lt
      omega
    refine ⟨hiff.mp ?_,fun p hp => (hbound p hp).2⟩
    have hmap : SeqExt.extended {} (seqs events) = (first :: ps).map extOf := by
      rw [← heq, List.map_map]
      refine (List.map_id _).symm.trans (List.map_congr_left fun ext _ => ?_)
      apply UInt32.toNat_inj.mp
      have := toNat_extOf ext.toNat
      have := ext.toNat_lt
      simp only [id, Function.comp_apply]
      omega
    rw [hext, List.map_cons] at hmap
    exact (List.cons.inj hmap).2
  · have htop := (RxTracker.Tracks.run events).top
    have heq := hpositions hchain hbound
    constructor
    · obtain ⟨ext,hmem,hhighest⟩ := highest_mem (SeqExt.extended {} (seqs events)) (by rw [hext]; simp)
      rw [← heq, htop, ← hhighest]
      exact List.mem_map_of_mem hmem
    · intro p hp
      rw [← heq] at hp
      obtain ⟨ext,hmem,rfl⟩ := List.mem_map.mp hp
      rw [htop]
      exact_mod_cast le_highest hmem

def arriving (ps : List ℤ) : List RxTracker.Event := ps.map fun p => .rtp (seqOf p) 0 0
theorem seqs_arriving (ps : List ℤ) : seqs (arriving ps) = ps.map seqOf := by
  induction ps with
  | nil => rfl
  | cons p ps ih => exact congrArg (seqOf p :: ·) ih
theorem extended_positions_reordered :
    ((RxTracker.run (arriving [65534,65537,65536])).highestExtSeq.toNat : ℤ) ∈ [65534,65537,65536] ∧
      ∀ p ∈ [65534,65537,65536], p ≤ ((RxTracker.run (arriving [65534,65537,65536])).highestExtSeq.toNat : ℤ) :=
  (extended_positions_iff (seqs_arriving [65534,65537,65536]) (by decide) (by decide) (by decide)).2 (by decide)
    (by decide)

/-- Packet 65535 comes after packet 65537. It is put one cycle too high, and so is every packet after it. -/
theorem late_packet_counts_a_wrap :
    ([65534,65537,65535,65538] : List ℤ).IsChain (fun q p => |p - q| < 2 ^ 15) ∧
      (SeqExt.extended {} (seqs (arriving [65534,65537,65535,65538]))).map UInt32.toNat =
        [65534,65537,131071,131074] ∧
      (RxTracker.run (arriving [65534,65537,65535,65538])).highestExtSeq = 131074 := by
  decide
end RustyRtc.Rtp
