import RustyRtc.Foundation.Table
import RustyRtc.Rtp.PlayoutLoop

/-! # The order of playout

Packets have unbounded true positions of which the wire shows sixteen bits. The stream is
run next to a record of the position behind each sequence number and of the positions
emitted so far, and every arrival keeps the two in step.
-/
namespace RustyRtc.Rtp
variable {xs ys : List ℕ} {remoteSsrc : Option UInt32} {arrivals : List Arrival}

/-- A packet as it arrives, with its true position and the clock of its processing. -/
structure Arrival where
  packet : RtpPacket
  position : ℕ
  now : ℕ
  clock : ℕ → ℕ
  seq_eq : packet.seq = UInt16.ofNat position

/-- A stream with the position behind each sequence number and the emitted positions. -/
structure Tracked where
  stream : RtpRecvStream
  place : UInt16 → ℕ
  emitted : List ℕ
def Tracked.new (codec : RtpCodec) (remoteSsrc : Option UInt32) (now : ℕ) : Tracked :=
  ⟨RtpRecvStream.new codec remoteSsrc now,fun _ => 0,[]⟩
def Tracked.receive (t : Tracked) (a : Arrival) : Tracked :=
  let place := Function.update t.place a.packet.seq a.position
  let (stream,events) := t.stream.receiveRtpPacket a.packet a.now a.clock
  ⟨stream,place,t.emitted ++ events.map (fun e => place e.seq)⟩
def Tracked.receiveAll (t : Tracked) (arrivals : List Arrival) : Tracked := arrivals.foldl Tracked.receive t
def Tracked.positions (t : Tracked) (a : Arrival) : List ℕ :=
  a.position :: t.emitted.getLast?.toList ++ t.stream.jitterBuffer.keys.map t.place
def Tracked.Near (t : Tracked) (a : Arrival) : Prop :=
  ∀ i ∈ t.positions a, ∀ j ∈ t.positions a, i < j + 2 ^ 15
def Tracked.turns (t : Tracked) (a : Arrival) : List Playout :=
  if (t.stream.jitterBuffer.lookup a.packet.seq).isSome then []
  else (playoutLoop t.stream.maxLatency a.clock).visited
    ⟨t.stream.jitterBuffer.insert a.packet.seq ⟨a.packet,a.now⟩,t.stream.nextSeq.getD a.packet.seq,0⟩
def Tracked.GapsAhead (t : Tracked) (a : Arrival) : Prop := ∀ s ∈ t.turns a, s.Ahead
structure Tracked.Sound (t : Tracked) (ssrc : UInt32) : Prop where
  ssrc : t.stream.remoteSsrc.getD ssrc = ssrc
  placed : Placed t.stream.jitterBuffer t.place
  fresh : t.stream.nextSeq = none → t.emitted = [] ∧ t.stream.jitterBuffer.keys = []
  next : ∀ n ∈ t.stream.nextSeq, ∃ last ∈ t.emitted.getLast?, n = UInt16.ofNat (last + 1)

variable {buffer : JitterBuffer} {place : UInt16 → ℕ} {last : ℕ}
theorem mem_keys_insert {key k : UInt16} {b : BufferedPacket} :
    k ∈ (buffer.insert key b).keys ↔ k = key ∨ k ∈ buffer.keys := by
  rw [← AList.mem_keys,← AList.mem_keys]
  exact AList.mem_insert buffer

theorem Placed.insert (h : Placed buffer place) (a : Arrival) :
    Placed (buffer.insert a.packet.seq ⟨a.packet,a.now⟩) (Function.update place a.packet.seq a.position) := by
  constructor
  · intro k hk
    by_cases hseq : k = a.packet.seq
    · subst hseq
      rw [Function.update_self,a.seq_eq]
    · rw [Function.update_of_ne hseq]
      exact h.key k ((mem_keys_insert.mp hk).resolve_left hseq)
  · intro k b hb
    rcases Table.lookup_insert_eq_some.mp hb with ⟨rfl,rfl⟩ | ⟨-,hold⟩
    · rfl
    · exact h.packet k b hold

variable {t : Tracked} {a : Arrival} {ssrc : UInt32}
namespace Tracked
open RtpRecvStream
theorem Near.close (h : t.Near a) (hlast : last ∈ t.emitted.getLast?) :
    Close (t.stream.jitterBuffer.insert a.packet.seq ⟨a.packet,a.now⟩)
      (Function.update t.place a.packet.seq a.position) last := by
  have hin : ∀ k ∈ (t.stream.jitterBuffer.insert a.packet.seq ⟨a.packet,a.now⟩).keys,
      Function.update t.place a.packet.seq a.position k ∈ t.positions a := by
    intro k hk
    by_cases hseq : k = a.packet.seq
    · subst hseq
      simp [positions]
    · rw [Function.update_of_ne hseq]
      have := (mem_keys_insert.mp hk).resolve_left hseq
      exact List.mem_append_right _ (List.mem_map_of_mem this)
  have hl : last ∈ t.positions a := by simp [positions,Option.mem_def.mp hlast]
  exact ⟨fun k hk => ⟨h _ (hin k hk) _ hl,h _ hl _ (hin k hk)⟩,fun k hk l hl => h _ (hin k hk) _ (hin l hl)⟩

theorem receive_eq (t : Tracked) (a : Arrival) : t.receive a =
    ⟨(t.stream.receiveRtpPacket a.packet a.now a.clock).1,Function.update t.place a.packet.seq a.position,
      t.emitted ++ (t.stream.receiveRtpPacket a.packet a.now a.clock).2.map
        fun e => Function.update t.place a.packet.seq a.position e.seq⟩ := rfl

theorem isChain_append_iff (hlast : last ∈ xs.getLast?) :
    (xs ++ ys).IsChain (· < ·) ↔ xs.IsChain (· < ·) ∧ (last :: ys).IsChain (· < ·) := by
  rw [List.isChain_append,List.isChain_cons]
  simp [Option.mem_def.mp hlast,and_comm]
theorem getLast?_append_of_mem (hlast : last ∈ xs.getLast?) : (xs ++ ys).getLast? = (last :: ys).getLast? := by
  rw [List.getLast?_append,List.getLast?_cons,Option.mem_def.mp hlast]
  cases ys.getLast? <;> rfl

/-- What one arrival does: it keeps the invariant, and it keeps the order exactly when its
jumps go ahead. -/
def KeepsOrder (t : Tracked) (a : Arrival) (ssrc : UInt32) : Prop :=
  (t.receive a).Sound ssrc ∧
    ((t.receive a).emitted.IsChain (· < ·) ↔ t.emitted.IsChain (· < ·) ∧ t.GapsAhead a)

theorem keepsOrder_duplicate (hs : t.Sound ssrc) (ha : a.packet.ssrc = ssrc)
    (hdup : (t.stream.jitterBuffer.lookup a.packet.seq).isSome = true) : t.KeepsOrder a ssrc := by
  subst ha
  obtain ⟨hout,hnext,hssrc,hbuffer⟩ := receiveRtpPacket_duplicate a.now a.clock hs.ssrc hdup
  rw [KeepsOrder,receive_eq,hout,List.map_nil,List.append_nil]
  refine ⟨⟨by rw [hssrc]; rfl,by rw [hbuffer]; exact hs.placed.insert a,?_,fun n hn => hs.next n (hnext ▸ hn)⟩,?_⟩
  · intro hnone
    have hempty := (hs.fresh (hnext ▸ hnone)).2
    have hmem := lookup_isSome_iff_mem_keys.mp hdup
    simp [hempty] at hmem
  · simp [GapsAhead,turns,hdup]

theorem keepsOrder_first (hs : t.Sound ssrc) (ha : a.packet.ssrc = ssrc)
    (hnew : (t.stream.jitterBuffer.lookup a.packet.seq).isSome = false) (hfirst : t.stream.nextSeq = none) :
    t.KeepsOrder a ssrc := by
  subst ha
  obtain ⟨hout,hnext,hssrc,hbuffer⟩ := receiveRtpPacket_new a.now a.clock hs.ssrc hnew
  obtain ⟨hnil,hempty⟩ := hs.fresh hfirst
  have hlookup := AList.lookup_insert (a := a.packet.seq) (b := ⟨a.packet,a.now⟩) t.stream.jitterBuffer
  have hrest : ((t.stream.jitterBuffer.insert a.packet.seq ⟨a.packet,a.now⟩).erase a.packet.seq).keys = [] := by
    rw [AList.keys_erase,AList.keys_insert,hempty]
    simp
  obtain ⟨hrun,hvisited⟩ := playoutLoop_single t.stream.maxLatency a.clock hlookup hrest 0
  simp only [hfirst,Option.getD_none,hrun] at hout hnext hbuffer
  have hplace : Function.update t.place a.packet.seq a.position (RtpIn.ofPacket a.packet).seq = a.position :=
    Function.update_self _ _ _
  rw [KeepsOrder,receive_eq,hout,hnil,List.map_singleton,hplace]
  refine ⟨⟨by rw [hssrc]; rfl,by rw [hbuffer]; exact (hs.placed.insert a).erase _,by simp [hnext],?_⟩,?_⟩
  · intro n hn
    refine ⟨a.position,rfl,?_⟩
    obtain rfl : a.packet.seq + 1 = n := by simpa [hnext] using hn
    rw [UInt16.ofNat_add,← a.seq_eq]
    rfl
  · have hahead : Playout.Ahead
        ⟨t.stream.jitterBuffer.insert a.packet.seq ⟨a.packet,a.now⟩,a.packet.seq,0⟩ :=
      fun hmiss => absurd (hlookup.symm.trans hmiss) (by simp)
    simp only [GapsAhead,turns,hfirst,hnew,Option.getD_none,hvisited]
    simpa using hahead

theorem keepsOrder_later (hs : t.Sound ssrc) (ha : a.packet.ssrc = ssrc) (hnear : t.Near a)
    (hnew : (t.stream.jitterBuffer.lookup a.packet.seq).isSome = false) {n : UInt16}
    (hnext : t.stream.nextSeq = some n) : t.KeepsOrder a ssrc := by
  subst ha
  obtain ⟨hout,hnext',hssrc,hbuffer⟩ := receiveRtpPacket_new a.now a.clock hs.ssrc hnew
  obtain ⟨last,hlast,hn⟩ := hs.next n hnext
  simp only [hnext,Option.getD_some] at hout hnext' hbuffer
  set s : Playout := ⟨t.stream.jitterBuffer.insert a.packet.seq ⟨a.packet,a.now⟩,n,0⟩
  have hstands : s.Stands (Function.update t.place a.packet.seq a.position) last :=
    ⟨hs.placed.insert a,hnear.close hlast, .inl hn⟩
  have hplays := Playout.plays t.stream.maxLatency a.clock s
  obtain ⟨last',hlast',hstops,hwait⟩ := hplays.stops hstands
  have hfirst : s.nextSeq ∈ s.jitterBuffer.keys →
      last < Function.update t.place a.packet.seq a.position s.nextSeq := by
    intro hin
    have hin' : UInt16.ofNat (last + 1) ∈ s.jitterBuffer.keys := hn ▸ hin
    rw [show s.nextSeq = UInt16.ofNat (last + 1) from hn,place_next hstands.placed hstands.close hin']
    omega
  rw [KeepsOrder,receive_eq,hout]
  refine ⟨⟨by rw [hssrc]; rfl,by rw [hbuffer]; exact hstops.placed,by simp [hnext'],?_⟩,?_⟩
  · intro m hm
    obtain rfl : ((playoutLoop t.stream.maxLatency a.clock).run s).1.nextSeq = m := by
      simpa [hnext'] using hm
    exact ⟨last',(getLast?_append_of_mem hlast).trans hlast',hwait⟩
  · have hturns : t.turns a = (playoutLoop t.stream.maxLatency a.clock).visited s := by
      simp only [turns,hnew,hnext,Bool.false_eq_true,↓reduceIte,Option.getD_some,s]
    rw [isChain_append_iff hlast,hplays.isChain_iff hstands,and_iff_right hfirst,GapsAhead,hturns]

theorem receive_step (hs : t.Sound ssrc) (ha : a.packet.ssrc = ssrc) (hnear : t.Near a) :
    t.KeepsOrder a ssrc := by
  cases hdup : (t.stream.jitterBuffer.lookup a.packet.seq).isSome with
  | true => exact keepsOrder_duplicate hs ha hdup
  | false =>
    cases hnext : t.stream.nextSeq with
    | none => exact keepsOrder_first hs ha hdup hnext
    | some n => exact keepsOrder_later hs ha hnear hdup hnext

theorem sound_new (codec : RtpCodec) (now : ℕ)
    (h : remoteSsrc.getD ssrc = ssrc) : (new codec remoteSsrc now).Sound ssrc where
  ssrc := h
  placed := ⟨by simp [new,RtpRecvStream.new],by simp [new,RtpRecvStream.new]⟩
  fresh := fun _ => ⟨rfl,rfl⟩
  next := by simp [new,RtpRecvStream.new]

theorem receiveAll_isChain_iff (hs : t.Sound ssrc)
    (hssrc : ∀ a ∈ arrivals, a.packet.ssrc = ssrc) (hnear : Along receive Near t arrivals) :
    (t.receiveAll arrivals).emitted.IsChain (· < ·) ↔
      t.emitted.IsChain (· < ·) ∧ Along receive GapsAhead t arrivals := by
  induction arrivals generalizing t with
  | nil => simp [receiveAll,Along]
  | cons a arrivals ih =>
    obtain ⟨hsound,hiff⟩ := receive_step hs (hssrc a (by simp)) hnear.1
    have hrest := ih hsound (fun b hb => hssrc b (by simp [hb])) hnear.2
    rw [receiveAll,List.foldl_cons]
    exact hrest.trans ((and_congr_left' hiff).trans and_assoc)

def From (t : Tracked) (X : Set ℕ) : Prop :=
  (∀ i ∈ t.emitted, i ∈ X) ∧ ∀ k ∈ t.stream.jitterBuffer.keys, t.place k ∈ X

theorem From.receive {X : Set ℕ} (h : t.From X) (hs : t.Sound ssrc) (ha : a.packet.ssrc = ssrc)
    (hX : a.position ∈ X) : (t.receive a).From X := by
  have hin : ∀ k ∈ (t.stream.jitterBuffer.insert a.packet.seq ⟨a.packet,a.now⟩).keys,
      Function.update t.place a.packet.seq a.position k ∈ X := by
    intro k hk
    by_cases hseq : k = a.packet.seq
    · rw [hseq,Function.update_self]
      exact hX
    · rw [Function.update_of_ne hseq]
      exact h.2 k ((mem_keys_insert.mp hk).resolve_left hseq)
  subst ha
  rw [receive_eq]
  cases hdup : (t.stream.jitterBuffer.lookup a.packet.seq).isSome with
  | true =>
    obtain ⟨hout,-,-,hbuffer⟩ := receiveRtpPacket_duplicate a.now a.clock hs.ssrc hdup
    exact ⟨by rw [hout,List.map_nil,List.append_nil]; exact h.1,by rw [hbuffer]; exact hin⟩
  | false =>
    obtain ⟨hout,-,-,hbuffer⟩ := receiveRtpPacket_new a.now a.clock hs.ssrc hdup
    have hkeys := ((Playout.plays t.stream.maxLatency a.clock
      ⟨_,t.stream.nextSeq.getD a.packet.seq,0⟩).divides (hs.placed.insert a).packet).keys
    constructor
    · intro i hi
      rw [hout] at hi
      rcases List.mem_append.mp hi with hold | hnew
      · exact h.1 i hold
      · obtain ⟨e,he,rfl⟩ := List.mem_map.mp hnew
        exact hin _ (hkeys.mem_iff.mp (List.mem_append_left _ (List.mem_map_of_mem he)))
    · rw [hbuffer]
      exact fun k hk => hin k (hkeys.mem_iff.mp (List.mem_append_right _ hk))
end Tracked

theorem along_near_of_pairwise (codec : RtpCodec) (epoch : ℕ) (ssrc : UInt32)
    (hremote : remoteSsrc.getD ssrc = ssrc) (hssrc : ∀ a ∈ arrivals, a.packet.ssrc = ssrc)
    (hpair : ∀ a ∈ arrivals, ∀ b ∈ arrivals, a.position < b.position + 2 ^ 15) :
    Along Tracked.receive Tracked.Near (Tracked.new codec remoteSsrc epoch) arrivals := by
  let X : Set ℕ := {i | ∃ a ∈ arrivals, a.position = i}
  have hnear : ∀ (t : Tracked) (a : Arrival), t.From X → a ∈ arrivals → t.Near a := by
    intro t a ht ha
    have hmem : ∀ i ∈ t.positions a, i ∈ X := by
      intro i hi
      simp only [Tracked.positions,List.cons_append,List.mem_cons,List.mem_append,Option.mem_toList] at hi
      rcases hi with rfl | hlast | hbuf
      · exact ⟨a,ha,rfl⟩
      · exact ht.1 i (List.mem_of_getLast? hlast)
      · obtain ⟨k,hk,rfl⟩ := List.mem_map.mp hbuf
        exact ht.2 k hk
    intro i hi j hj
    obtain ⟨b,hb,rfl⟩ := hmem i hi
    obtain ⟨c,hc,rfl⟩ := hmem j hj
    exact hpair b hb c hc
  refine Along.imp_of_invariant (I := fun t => t.Sound ssrc ∧ t.From X) ?_ ?_
    (along_of_forall_mem (fun a ha => ha) _) ⟨Tracked.sound_new codec epoch hremote,?_⟩
  · rintro t a ⟨hs,ht⟩ ha
    exact ⟨(Tracked.receive_step hs (hssrc a ha) (hnear t a ht ha)).1,ht.receive hs (hssrc a ha) ⟨a,ha,rfl⟩⟩
  · rintro t a ⟨_,ht⟩ ha
    exact hnear t a ht ha
  · exact ⟨by simp [Tracked.new],by simp [Tracked.new,RtpRecvStream.new]⟩

/-- Packets of one source leave the stream in increasing order exactly when, in every gap
the loop gives up on, the numerically smallest buffered number is serially ahead. -/
theorem playout_increasing_iff (codec : RtpCodec) (remoteSsrc : Option UInt32) (epoch : ℕ) (ssrc : UInt32)
    (arrivals : List Arrival) (hremote : remoteSsrc.getD ssrc = ssrc)
    (hssrc : ∀ a ∈ arrivals, a.packet.ssrc = ssrc)
    (hnear : Along Tracked.receive Tracked.Near (Tracked.new codec remoteSsrc epoch) arrivals) :
    ((Tracked.new codec remoteSsrc epoch).receiveAll arrivals).emitted.Pairwise (· < ·) ↔
      Along Tracked.receive Tracked.GapsAhead (Tracked.new codec remoteSsrc epoch) arrivals := by
  rw [← List.isChain_iff_pairwise,
    Tracked.receiveAll_isChain_iff (Tracked.sound_new codec epoch hremote) hssrc hnear]
  exact and_iff_right List.isChain_nil

def sampleArrival (position milliseconds : ℕ) : Arrival where
  packet := RtpPacket.simple 96 false (UInt16.ofNat position) 0 7 []
  position := position
  now := milliseconds * 1000000
  clock := fun _ => milliseconds * 1000000
  seq_eq := rfl

theorem playout_increasing_reordered :
    ((Tracked.new ⟨90000⟩ none 0).receiveAll
        [sampleArrival 65535 0,sampleArrival 65537 5,sampleArrival 65536 9]).emitted = [65535,65536,65537] ∧
      Along Tracked.receive Tracked.GapsAhead (Tracked.new ⟨90000⟩ none 0)
        [sampleArrival 65535 0,sampleArrival 65537 5,sampleArrival 65536 9] := by
  have hemitted : ((Tracked.new ⟨90000⟩ none 0).receiveAll
      [sampleArrival 65535 0,sampleArrival 65537 5,sampleArrival 65536 9]).emitted = [65535,65536,65537] := by
    decide +kernel
  refine ⟨hemitted,(playout_increasing_iff ⟨90000⟩ none 0 7 _ rfl (by decide)
    (along_near_of_pairwise ⟨90000⟩ 0 7 rfl (by decide) (by decide))).mp ?_⟩
  rw [hemitted]
  decide

/-- A duplicate of the first packet is buffered as new, and when it has become too old the
next arrival makes the loop go back to it. -/
theorem late_duplicate_emitted_again :
    (∀ i ∈ [10,11,10,13], ∀ j ∈ [10,11,10,13], i < j + 2 ^ 15) ∧
      ((Tracked.new ⟨90000⟩ none 0).receiveAll
        [sampleArrival 10 0,sampleArrival 11 20,sampleArrival 10 40,sampleArrival 13 300]).emitted = [10,11,10] := by
  refine ⟨by decide,?_⟩
  decide +kernel
end RustyRtc.Rtp
