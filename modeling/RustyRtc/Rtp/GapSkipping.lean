import RustyRtc.Rtp.PlayoutOrder

/-! # Giving up on a gap

When the awaited packet is missing, the loop looks at the packet with the numerically smallest number, tests its age
and jumps to it. What it should look at is the nearest buffered packet after the last emitted one. The two are the
same exactly when the smallest number is the serially next one.
-/
namespace RustyRtc.Rtp
variable {key : UInt16}

/-- The numerically smallest buffered number is serially ahead of `next_seq`, and no other one is nearer. -/
def Playout.Straight (s : Playout) : Prop :=
  ∀ entry ∈ JitterBuffer.first s.jitterBuffer, (entry.1 - s.nextSeq).toNat < 2 ^ 15 ∧
    ∀ k ∈ s.jitterBuffer.keys, (k - s.nextSeq).toNat < 2 ^ 15 →
      (entry.1 - s.nextSeq).toNat ≤ (k - s.nextSeq).toNat

/-- The buffered packet that comes next after position `last`. -/
structure Nearest (buffer : JitterBuffer) (place : UInt16 → ℕ) (last : ℕ) (key : UInt16) (b : BufferedPacket) :
    Prop where
  buffered : buffer.lookup key = some b
  after : last < place key
  least : ∀ k ∈ buffer.keys, last < place k → place key ≤ place k

/-- Under every clock the loop goes on to the nearest packet once it has waited too long and not before, and it waits
if no packet comes after the last. -/
def Playout.SkipsRight (s : Playout) (place : UInt16 → ℕ) (last : ℕ) : Prop :=
  ∀ maxLatency clock,
    (∀ key b, Nearest s.jitterBuffer place last key b → s.body maxLatency clock =
      if clock s.readings - b.receivedAt > maxLatency then some (⟨s.jitterBuffer,key,s.readings + 1⟩,[]) else none) ∧
    ((∀ k ∈ s.jitterBuffer.keys, place k ≤ last) → s.body maxLatency clock = none)

section
variable {buffer : JitterBuffer} {place : UInt16 → ℕ} {last : ℕ} {k : UInt16}
theorem exists_nearest (hk : k ∈ buffer.keys) (hafter : last < place k) : ∃ key b, Nearest buffer place last key b := by
  let ahead := buffer.keys.filter fun k => last < place k
  have hne : (ahead.map place) ≠ [] := by
    have hmem : k ∈ ahead := List.mem_filter.mpr ⟨hk,decide_eq_true hafter⟩
    simpa using List.ne_nil_of_mem hmem
  obtain ⟨least,hleast⟩ := Option.ne_none_iff_exists'.mp (mt List.min?_eq_none_iff.mp hne)
  obtain ⟨hmem,hle⟩ := List.min?_eq_some_iff.mp hleast
  obtain ⟨key,hkey,rfl⟩ := List.mem_map.mp hmem
  obtain ⟨hbuffered,hlast⟩ := List.mem_filter.mp hkey
  obtain ⟨b,hb⟩ := Option.isSome_iff_exists.mp (lookup_isSome_iff_mem_keys.mpr hbuffered)
  refine ⟨key,b,hb,of_decide_eq_true hlast,fun l hl hl' => hle _ ?_⟩
  exact List.mem_map_of_mem (List.mem_filter.mpr ⟨hl,decide_eq_true hl'⟩)

theorem distance_eq (hplaced : Placed buffer place) (hclose : Close buffer place last)
    (hkey : key ∈ buffer.keys) (hafter : last < place key) :
    (key - UInt16.ofNat (last + 1)).toNat = place key - (last + 1) := by
  obtain ⟨hup,hdown⟩ := hclose.1 key hkey
  rw [UInt16.toNat_sub,UInt16.toNat_ofNat',toNat_of_placed hplaced hkey]
  omega
theorem key_eq_of_place_eq (hplaced : Placed buffer place) {l : UInt16} (hk : k ∈ buffer.keys)
    (hl : l ∈ buffer.keys) (h : place k = place l) : k = l := by
  rw [← hplaced.key k hk,← hplaced.key l hl,h]
end

section Gap
variable {s : Playout} {place : UInt16 → ℕ} {last : ℕ}
theorem body_of_gap (hgap : s.jitterBuffer.lookup s.nextSeq = none) {b : BufferedPacket}
    (hfirst : JitterBuffer.first s.jitterBuffer = some (key,b)) (maxLatency : ℕ) (clock : ℕ → ℕ) :
    s.body maxLatency clock =
      if clock s.readings - b.receivedAt > maxLatency then some (⟨s.jitterBuffer,key,s.readings + 1⟩,[]) else none := by
  simp only [Playout.body,hgap,hfirst]
theorem body_of_empty (hgap : s.jitterBuffer.lookup s.nextSeq = none)
    (hfirst : JitterBuffer.first s.jitterBuffer = none) (maxLatency : ℕ) (clock : ℕ → ℕ) :
    s.body maxLatency clock = none := by
  simp only [Playout.body,hgap,hfirst]

theorem straight_of_skipsRight (hplaced : Placed s.jitterBuffer place) (hclose : Close s.jitterBuffer place last)
    (hnext : s.nextSeq = UInt16.ofNat (last + 1)) (hgap : s.jitterBuffer.lookup s.nextSeq = none)
    (hright : s.SkipsRight place last) : s.Straight := by
  rintro ⟨first,b⟩ hfirst
  -- under a clock that has just passed the age of the first packet the loop jumps to it
  obtain ⟨hnearest,hnone⟩ := hright 0 fun _ => b.receivedAt + 1
  have hjump := body_of_gap hgap hfirst 0 fun _ => b.receivedAt + 1
  rw [if_pos (by omega)] at hjump
  have hsome : ∃ k ∈ s.jitterBuffer.keys, last < place k := by
    by_contra hall
    push Not at hall
    simp [hnone hall] at hjump
  obtain ⟨k,hk,hafter⟩ := hsome
  obtain ⟨key,b',hkey⟩ := exists_nearest hk hafter
  have hsame : first = key := by
    have hbody := (hnearest key b' hkey).symm.trans hjump
    split at hbody
    · simpa using (Prod.mk.inj (Option.some.inj hbody)).1.symm
    · cases hbody
  subst hsame
  have hmem := mem_keys_of_lookup hkey.buffered
  dsimp only
  rw [hnext]
  refine ⟨(ahead_iff hplaced hclose hmem).mpr hkey.after,fun l hl hl' => ?_⟩
  have hlast := (ahead_iff hplaced hclose hl).mp hl'
  rw [distance_eq hplaced hclose hmem hkey.after,distance_eq hplaced hclose hl hlast]
  exact Nat.sub_le_sub_right (hkey.least l hl hlast) _

theorem skipsRight_of_straight (hplaced : Placed s.jitterBuffer place) (hclose : Close s.jitterBuffer place last)
    (hnext : s.nextSeq = UInt16.ofNat (last + 1)) (hgap : s.jitterBuffer.lookup s.nextSeq = none)
    (hstraight : s.Straight) : s.SkipsRight place last := by
  intro maxLatency clock
  cases hfirst : JitterBuffer.first s.jitterBuffer with
  | none =>
    refine ⟨fun key b hkey => ?_,fun _ => body_of_empty hgap hfirst maxLatency clock⟩
    have hempty : s.jitterBuffer.keys = [] := by
      by_contra hne
      obtain ⟨least,hleast⟩ := Option.ne_none_iff_exists'.mp (mt List.min?_eq_none_iff.mp hne)
      obtain ⟨b',hb'⟩ := Option.isSome_iff_exists.mp
        (lookup_isSome_iff_mem_keys.mpr (List.min?_eq_some_iff.mp hleast).1)
      simp [JitterBuffer.first,hleast,hb'] at hfirst
    have hmem := mem_keys_of_lookup hkey.buffered
    simp [hempty] at hmem
  | some entry =>
    obtain ⟨first,b⟩ := entry
    obtain ⟨hahead,hleast⟩ := hstraight (first,b) hfirst
    dsimp only at hahead hleast
    have hlookup := (JitterBuffer.first_eq_some.mp hfirst).1
    have hmem := mem_keys_of_lookup hlookup
    rw [hnext] at hahead hleast
    have hafter := (ahead_iff hplaced hclose hmem).mp hahead
    refine ⟨fun key b' hkey => ?_,fun hall => absurd (hall first hmem) (Nat.not_le.mpr hafter)⟩
    have hkmem := mem_keys_of_lookup hkey.buffered
    -- both are the nearest
    have hle := hleast key hkmem ((ahead_iff hplaced hclose hkmem).mpr hkey.after)
    rw [distance_eq hplaced hclose hmem hafter,distance_eq hplaced hclose hkmem hkey.after] at hle
    have hge := hkey.least first hmem hafter
    obtain rfl := key_eq_of_place_eq hplaced hmem hkmem (by have := hkey.after; omega)
    obtain rfl := Option.some.inj (hlookup.symm.trans hkey.buffered)
    exact body_of_gap hgap hfirst maxLatency clock

/-- Without late packets, and with all buffered ones in one cycle of sequence numbers, the smallest number is the
next. -/
theorem straight_of_one_cycle (hplaced : Placed s.jitterBuffer place) (hclose : Close s.jitterBuffer place last)
    (hnext : s.nextSeq = UInt16.ofNat (last + 1)) (hafter : ∀ k ∈ s.jitterBuffer.keys, last < place k)
    (hcycle : ∀ k ∈ s.jitterBuffer.keys, ∀ l ∈ s.jitterBuffer.keys, place k / 65536 = place l / 65536) :
    s.Straight := by
  rintro ⟨first,b⟩ hfirst
  obtain ⟨hlookup,hle⟩ := JitterBuffer.first_eq_some.mp hfirst
  have hmem := mem_keys_of_lookup hlookup
  dsimp only
  rw [hnext]
  refine ⟨(ahead_iff hplaced hclose hmem).mpr (hafter first hmem),fun k hk _ => ?_⟩
  rw [distance_eq hplaced hclose hmem (hafter first hmem),distance_eq hplaced hclose hk (hafter k hk)]
  have hnumbers := UInt16.le_iff_toNat_le.mp (hle k hk)
  rw [toNat_of_placed hplaced hmem,toNat_of_placed hplaced hk] at hnumbers
  have := hcycle first hmem k hk
  omega
end Gap

def Tracked.looks (t : Tracked) (a : Arrival) : List Playout :=
  if (t.stream.jitterBuffer.lookup a.packet.seq).isSome then []
  else
    let s : Playout :=
      ⟨t.stream.jitterBuffer.insert a.packet.seq ⟨a.packet,a.now⟩,t.stream.nextSeq.getD a.packet.seq,0⟩
    (playoutLoop t.stream.maxLatency a.clock).visited s ++ [((playoutLoop t.stream.maxLatency a.clock).run s).1]

theorem Playout.Plays.gaps {s final : Playout} {visited : List Playout} {out : List RtpIn} {place : UInt16 → ℕ} {n : ℕ}
    (h : Plays s visited out final) (hs : s.Stands place n) : ∀ v ∈ visited ++ [final],
      v.jitterBuffer.lookup v.nextSeq = none → ∃ last, v.nextSeq = UInt16.ofNat (last + 1) ∧ v.Stands place last := by
  induction h generalizing n with
  | stop hmiss =>
    intro v hv _
    obtain rfl := List.mem_singleton.mp hv
    exact ⟨n,hs.waits hmiss,hs⟩
  | emit hb _ ih =>
    intro v hv hgap
    rcases List.mem_cons.mp hv with rfl | hv
    · simp [hb] at hgap
    · exact ih (hs.emit hb) v hv hgap
  | jump hnone hfirst _ ih =>
    intro v hv hgap
    rcases List.mem_cons.mp hv with rfl | hv
    · exact ⟨n,hs.waits (not_mem_keys_of_lookup hnone),hs⟩
    · exact ih (hs.jump hfirst) v hv hgap

variable {t : Tracked} {a : Arrival} {ssrc : UInt32}
theorem Tracked.Sound.gaps (hs : t.Sound ssrc) (hnear : t.Near a) :
    ∀ s ∈ t.looks a, s.jitterBuffer.lookup s.nextSeq = none → ∃ last, s.nextSeq = UInt16.ofNat (last + 1) ∧
      s.Stands (Function.update t.place a.packet.seq a.position) last := by
  intro s hlooks hgap
  unfold Tracked.looks at hlooks
  split at hlooks
  · cases hlooks
  · next hnew =>
    cases hnext : t.stream.nextSeq with
    | none =>
      -- the first packet is alone in the buffer
      have hempty := (hs.fresh hnext).2
      have honly : ∀ k ∈ (t.stream.jitterBuffer.insert a.packet.seq ⟨a.packet,a.now⟩).keys, k = a.packet.seq := by
        intro k hk
        simpa [hempty] using mem_keys_insert.mp hk
      refine (Playout.plays _ _ _).gaps (n := a.position) ⟨hs.placed.insert a,
        ⟨fun k hk => ?_,fun k hk l hl => ?_⟩, .inr ?_⟩ s hlooks hgap
      · rw [honly k hk,Function.update_self]
        omega
      · rw [honly k hk,honly l hl,Function.update_self]
        omega
      · rw [hnext,Option.getD_none]
        exact mem_keys_insert.mpr (.inl rfl)
    | some n =>
      obtain ⟨last,hlast,hn⟩ := hs.next n hnext
      refine (Playout.plays _ _ _).gaps ⟨hs.placed.insert a,hnear.close hlast, .inl ?_⟩ s hlooks hgap
      rw [hnext,Option.getD_some,hn]

theorem Tracked.sound_receiveAll {arrivals : List Arrival} (hs : t.Sound ssrc)
    (hssrc : ∀ b ∈ arrivals, b.packet.ssrc = ssrc) (hnear : Along Tracked.receive Tracked.Near t arrivals) :
    (t.receiveAll arrivals).Sound ssrc := by
  induction arrivals generalizing t with
  | nil => exact hs
  | cons b arrivals ih =>
    exact ih (Tracked.receive_step hs (hssrc b (by simp)) hnear.1).1 (fun c hc => hssrc c (by simp [hc])) hnear.2

/-- In every gap of every history, the loop goes on to the nearest following packet as soon as that has waited too
long, exactly if the numerically smallest buffered number is the serially next one. It is if no packet is late and the
buffer lies in one cycle of sequence numbers. -/
theorem gaps_skipped_right_iff (codec : RtpCodec) (remoteSsrc : Option UInt32) (epoch : ℕ) (ssrc : UInt32)
    (arrivals : List Arrival) (a : Arrival) (hremote : remoteSsrc.getD ssrc = ssrc)
    (hssrc : ∀ b ∈ arrivals, b.packet.ssrc = ssrc)
    (hnear : Along Tracked.receive Tracked.Near (Tracked.new codec remoteSsrc epoch) (arrivals ++ [a])) :
    let t := (Tracked.new codec remoteSsrc epoch).receiveAll arrivals
    let place := Function.update t.place a.packet.seq a.position
    ∀ s ∈ t.looks a, s.jitterBuffer.lookup s.nextSeq = none → ∃ last, s.nextSeq = UInt16.ofNat (last + 1) ∧
      (∀ k ∈ s.jitterBuffer.keys, place k < last + 2 ^ 15 ∧ last < place k + 2 ^ 15) ∧
      (s.SkipsRight place last ↔ s.Straight) ∧
      ((∀ k ∈ s.jitterBuffer.keys, last < place k) →
        (∀ k ∈ s.jitterBuffer.keys, ∀ l ∈ s.jitterBuffer.keys, place k / 65536 = place l / 65536) → s.Straight) := by
  intro t place s hlooks hgap
  obtain ⟨hbefore,hlast⟩ := hnear.concat
  have hsound := Tracked.sound_receiveAll (Tracked.sound_new codec epoch hremote) hssrc hbefore
  obtain ⟨last,hnext,hplaced,hclose,-⟩ := hsound.gaps hlast s hlooks hgap
  exact ⟨last,hnext,hclose.1,
    ⟨straight_of_skipsRight hplaced hclose hnext hgap,skipsRight_of_straight hplaced hclose hnext hgap⟩,
    straight_of_one_cycle hplaced hclose hnext⟩

theorem gap_skipped_sample :
    ((Tracked.new ⟨90000⟩ none 0).receiveAll [sampleArrival 5 0,sampleArrival 7 10,sampleArrival 8 300]).emitted =
        [5,7,8] ∧
      ∀ s ∈ ((Tracked.new ⟨90000⟩ none 0).receiveAll [sampleArrival 5 0,sampleArrival 7 10]).looks (sampleArrival 8 300),
        s.jitterBuffer.lookup s.nextSeq = none → ∃ last, s.nextSeq = UInt16.ofNat (last + 1) := by
  refine ⟨by decide +kernel,fun s hs hgap => ?_⟩
  obtain ⟨last,hnext,-⟩ := gaps_skipped_right_iff ⟨90000⟩ none 0 7 [sampleArrival 5 0,sampleArrival 7 10]
    (sampleArrival 8 300) rfl (by decide) (along_near_of_pairwise ⟨90000⟩ 0 7 rfl (by decide) (by decide)) s hs hgap
  exact ⟨last,hnext⟩

/-- Packet 65534 is lost. With packets on both sides of the wrap in the buffer, the loop jumps to the smallest number
and passes over packet 65535, which goes out last. Where only packet 65535 has waited too long, the loop does not move
at all. -/
theorem wrap_passes_over_packet :
    (∀ i ∈ [65533,65535,65536,65537], ∀ j ∈ [65533,65535,65536,65537], i < j + 2 ^ 15) ∧
      ((Tracked.new ⟨90000⟩ none 0).receiveAll [sampleArrival 65533 0,sampleArrival 65535 10,sampleArrival 65536 20,
        sampleArrival 65537 300]).emitted = [65533,65536,65537,65535] ∧
      ((Tracked.new ⟨90000⟩ none 0).receiveAll [sampleArrival 65533 0,sampleArrival 65535 10,sampleArrival 65536 250,
        sampleArrival 65537 300]).emitted = [65533] := by
  refine ⟨by decide,?_,?_⟩
  · decide +kernel
  · decide +kernel
end RustyRtc.Rtp
