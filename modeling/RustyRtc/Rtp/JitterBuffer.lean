import RustyRtc.Rtp.PlayoutOrder

/-! # What becomes of a packet

Every packet that the stream takes in is numbered by its arrival. It is emitted, or it waits in the buffer, or a later
packet with its sequence number has taken its place there; the three kinds of numbers together are all of them, each
once.
-/
namespace RustyRtc.Rtp
open RtpRecvStream
variable {rest : JitterBuffer} {out : List RtpIn} {a : Reception} {as : List Reception} {ssrc : UInt32}

theorem playoutLoop_turns_le (maxLatency : ℕ) (clock : ℕ → ℕ) (s : Playout) :
    ((playoutLoop maxLatency clock).visited s).length ≤ 2 * s.jitterBuffer.keys.length + 1 := by
  have hmeasure := (playoutLoop maxLatency clock).length_visited_le s
  change _ ≤ s.measure at hmeasure
  rw [Playout.measure] at hmeasure
  split at hmeasure <;> omega

structure Reception where
  packet : RtpPacket
  now : ℕ
  clock : ℕ → ℕ
def RtpRecvStream.receive (st : RtpRecvStream) (a : Reception) : RtpRecvStream × List RtpIn :=
  st.receiveRtpPacket a.packet a.now a.clock
def RtpRecvStream.receiveAll (st : RtpRecvStream) (as : List Reception) : RtpRecvStream × List RtpIn :=
  as.foldl (fun acc a => ((acc.1.receive a).1,acc.2 ++ (acc.1.receive a).2)) (st,[])
theorem RtpRecvStream.receiveAll_concat (st : RtpRecvStream) (as : List Reception) (a : Reception) :
    st.receiveAll (as ++ [a]) = (((st.receiveAll as).1.receive a).1,
      (st.receiveAll as).2 ++ ((st.receiveAll as).1.receive a).2) := by
  simp [receiveAll]

/-- Where the receptions have gone: `holder` tells whose packet is buffered under a number. -/
structure Conserved (as : List Reception) (buffer : JitterBuffer) (out : List RtpIn) (emitted replaced : List ℕ)
    (holder : UInt16 → ℕ) : Prop where
  all : (emitted ++ replaced ++ buffer.keys.map holder).Perm (List.range as.length)
  out : out.map some = emitted.map fun i => as[i]?.map fun a => RtpIn.ofPacket a.packet
  buffered : ∀ k b, buffer.lookup k = some b → ∃ a, as[holder k]? = some a ∧ b = ⟨a.packet,a.now⟩ ∧ a.packet.seq = k
  replaced : ∀ i ∈ replaced, ∃ j a b, i < j ∧ as[i]? = some a ∧ as[j]? = some b ∧ a.packet.seq = b.packet.seq

namespace Conserved
variable {as : List Reception} {buffer : JitterBuffer} {out : List RtpIn} {emitted replaced : List ℕ} {i : ℕ}
  {holder : UInt16 → ℕ}

theorem lt_of_mem (h : Conserved as buffer out emitted replaced holder)
    (hi : i ∈ emitted ++ replaced ++ buffer.keys.map holder) : i < as.length :=
  List.mem_range.mp (h.all.mem_iff.mp hi)
theorem getElem?_concat {b : Reception} (h : as[i]? = some b) : (as ++ [a])[i]? = some b := by
  obtain ⟨hi,-⟩ := List.getElem?_eq_some_iff.mp h
  rwa [List.getElem?_append_left hi]
theorem out_concat (h : Conserved as buffer out emitted replaced holder) (a : Reception) :
    out.map some = emitted.map fun i => (as ++ [a])[i]?.map fun a => RtpIn.ofPacket a.packet := by
  rw [h.out]
  refine List.map_congr_left fun i hi => ?_
  have hlt := h.lt_of_mem (List.mem_append_left _ (List.mem_append_left _ hi))
  rw [List.getElem?_append_left hlt]
theorem replaced_concat (h : Conserved as buffer out emitted replaced holder) (a : Reception) :
    ∀ i ∈ replaced, ∃ j b c, i < j ∧ (as ++ [a])[i]? = some b ∧ (as ++ [a])[j]? = some c ∧
      b.packet.seq = c.packet.seq := by
  intro i hi
  obtain ⟨j,b,c,hij,hb,hc,hseq⟩ := h.replaced i hi
  exact ⟨j,b,c,hij,getElem?_concat hb,getElem?_concat hc,hseq⟩

theorem buffered_insert (h : Conserved as buffer out emitted replaced holder) (a : Reception) :
    ∀ k b, (buffer.insert a.packet.seq ⟨a.packet,a.now⟩).lookup k = some b →
      ∃ c, (as ++ [a])[Function.update holder a.packet.seq as.length k]? = some c ∧ b = ⟨c.packet,c.now⟩ ∧
        c.packet.seq = k := by
  intro k b hlookup
  rcases Table.lookup_insert_eq_some.mp hlookup with ⟨rfl,rfl⟩ | ⟨hk,hold⟩
  · exact ⟨a,by simp,rfl,rfl⟩
  · obtain ⟨c,hc,hb,hseq⟩ := h.buffered k b hold
    rw [Function.update_of_ne hk]
    exact ⟨c,getElem?_concat hc,hb,hseq⟩

theorem map_update_erase (buffer : JitterBuffer) (holder : UInt16 → ℕ) (key : UInt16) (n : ℕ) :
    (buffer.keys.erase key).map (Function.update holder key n) = (buffer.keys.erase key).map holder := by
  refine List.map_congr_left fun k hk => ?_
  rw [Function.update_of_ne]
  rintro rfl
  exact (List.Nodup.not_mem_erase buffer.keys_nodup) hk

theorem replace (h : Conserved as buffer out emitted replaced holder) (a : Reception)
    (hdup : a.packet.seq ∈ buffer.keys) :
    Conserved (as ++ [a]) (buffer.insert a.packet.seq ⟨a.packet,a.now⟩) out emitted
      (replaced ++ [holder a.packet.seq]) (Function.update holder a.packet.seq as.length) := by
  have hheld : (buffer.keys.map holder).Perm (holder a.packet.seq :: (buffer.keys.erase a.packet.seq).map holder) :=
    (List.perm_cons_erase hdup).map holder
  refine ⟨?_,h.out_concat a,h.buffered_insert a,fun i hi => ?_⟩
  · rw [AList.keys_insert,List.map_cons,Function.update_self,map_update_erase,List.length_append,
      List.length_singleton,List.range_succ]
    have hall := (h.all.symm.trans (hheld.append_left (emitted ++ replaced))).symm
    refine List.Perm.trans ?_ (hall.append_right [as.length])
    simp only [List.append_assoc,List.cons_append,List.nil_append]
    refine (List.Perm.append_left _ (List.Perm.append_left _ (List.Perm.cons _ ?_)))
    exact (List.perm_append_singleton _ _).symm
  · rcases List.mem_append.mp hi with hi | hi
    · exact h.replaced_concat a i hi
    · obtain rfl := List.mem_singleton.mp hi
      obtain ⟨b,hb⟩ := Option.isSome_iff_exists.mp (lookup_isSome_iff_mem_keys.mpr hdup)
      obtain ⟨c,hc,-,hseq⟩ := h.buffered _ b hb
      obtain ⟨hlt,-⟩ := List.getElem?_eq_some_iff.mp hc
      exact ⟨as.length,c,a,hlt,getElem?_concat hc,by simp,hseq⟩

theorem insert (h : Conserved as buffer out emitted replaced holder) (a : Reception)
    (hnew : a.packet.seq ∉ buffer.keys) :
    Conserved (as ++ [a]) (buffer.insert a.packet.seq ⟨a.packet,a.now⟩) out emitted replaced
      (Function.update holder a.packet.seq as.length) := by
  refine ⟨?_,h.out_concat a,h.buffered_insert a,h.replaced_concat a⟩
  rw [AList.keys_insert,List.map_cons,Function.update_self,map_update_erase,List.erase_of_not_mem hnew,
    List.length_append,List.length_singleton,List.range_succ]
  refine List.Perm.trans ?_ (h.all.append_right [as.length])
  rw [List.append_assoc _ _ [as.length]]
  exact (List.perm_append_singleton _ _).symm.append_left _

theorem emit (h : Conserved as buffer out emitted replaced holder) {more : List RtpIn}
    (hdivides : Divides buffer more rest) :
    Conserved as rest (out ++ more) (emitted ++ more.map fun e => holder e.seq) replaced holder := by
  refine ⟨?_,?_,fun k b hlookup => h.buffered k b (hdivides.left k b hlookup),h.replaced⟩
  · have hkeys := hdivides.keys.map holder
    rw [List.map_append,List.map_map] at hkeys
    refine List.Perm.trans ?_ ((hkeys.append_left (emitted ++ replaced)).trans h.all)
    simp only [List.append_assoc]
    refine List.Perm.append_left _ ?_
    rw [← List.append_assoc,← List.append_assoc]
    exact List.perm_append_comm.append_right _
  · rw [List.map_append,List.map_append,h.out,List.map_map]
    congr 1
    refine List.map_congr_left fun e he => ?_
    obtain ⟨b,hlookup,heq⟩ := hdivides.emitted e he
    obtain ⟨a,ha,rfl,-⟩ := h.buffered e.seq b hlookup
    rw [Function.comp_apply,ha,Option.map_some]
    exact congrArg some heq
end Conserved

theorem Conserved.receive {st : RtpRecvStream} {emitted replaced : List ℕ}
    {holder : UInt16 → ℕ} (h : Conserved as st.jitterBuffer out emitted replaced holder)
    (hs : st.remoteSsrc.getD ssrc = ssrc) (ha : a.packet.ssrc = ssrc) :
    ∃ emitted replaced holder, Conserved (as ++ [a]) (st.receive a).1.jitterBuffer (out ++ (st.receive a).2)
      emitted replaced holder := by
  subst ha
  rw [RtpRecvStream.receive]
  cases hdup : (st.jitterBuffer.lookup a.packet.seq).isSome with
  | true =>
    obtain ⟨hout,-,-,hbuffer⟩ := receiveRtpPacket_duplicate a.now a.clock hs hdup
    rw [hbuffer,hout,List.append_nil]
    exact ⟨_,_,_,h.replace a (lookup_isSome_iff_mem_keys.mp hdup)⟩
  | false =>
    obtain ⟨hout,-,-,hbuffer⟩ := receiveRtpPacket_new a.now a.clock hs hdup
    have hnew : a.packet.seq ∉ st.jitterBuffer.keys :=
      not_mem_keys_of_lookup (Option.not_isSome_iff_eq_none.mp (by rw [hdup]; decide))
    have hinsert := h.insert a hnew
    have hseq : ∀ k b, (st.jitterBuffer.insert a.packet.seq ⟨a.packet,a.now⟩).lookup k = some b → b.packet.seq = k := by
      intro k b hlookup
      obtain ⟨c,-,rfl,hseq⟩ := hinsert.buffered k b hlookup
      exact hseq
    rw [hbuffer,hout]
    exact ⟨_,_,_,hinsert.emit ((Playout.plays st.maxLatency a.clock ⟨_,_,0⟩).divides hseq)⟩

theorem receiveAll_conserved {codec : RtpCodec} {remoteSsrc : Option UInt32} {epoch : ℕ}
    (hremote : remoteSsrc.getD ssrc = ssrc) (hssrc : ∀ a ∈ as, a.packet.ssrc = ssrc) :
    let r := (RtpRecvStream.new codec remoteSsrc epoch).receiveAll as
    r.1.remoteSsrc.getD ssrc = ssrc ∧
      ∃ emitted replaced holder, Conserved as r.1.jitterBuffer r.2 emitted replaced holder := by
  induction as using List.reverseRecOn with
  | nil =>
    refine ⟨hremote,[],[],fun _ => 0,?_,rfl,?_,by simp⟩
    · simp [receiveAll,RtpRecvStream.new]
    · simp [receiveAll,RtpRecvStream.new]
  | append_singleton as a ih =>
    obtain ⟨hs,emitted,replaced,holder,hconserved⟩ := ih fun b hb => hssrc b (by simp [hb])
    have ha := hssrc a (by simp)
    rw [receiveAll_concat]
    refine ⟨?_,hconserved.receive hs ha⟩
    subst ha
    cases hdup : (((RtpRecvStream.new codec remoteSsrc epoch).receiveAll as).1.jitterBuffer.lookup
        a.packet.seq).isSome with
    | true => rw [RtpRecvStream.receive,(receiveRtpPacket_duplicate a.now a.clock hs hdup).2.2.1,Option.getD_some]
    | false => rw [RtpRecvStream.receive,(receiveRtpPacket_new a.now a.clock hs hdup).2.2.1,Option.getD_some]

theorem processBuffer_not_mem (st : RtpRecvStream) (clock : ℕ → ℕ) :
    ∀ n ∈ (st.processBuffer clock).1.nextSeq, n ∉ (st.processBuffer clock).1.jitterBuffer.keys := by
  intro n hn
  unfold processBuffer at hn ⊢
  cases hnext : st.nextSeq with
  | none => simp [hnext] at hn
  | some s =>
    simp only [hnext,Option.mem_some_iff] at hn ⊢
    exact hn ▸ (Playout.plays st.maxLatency clock _).not_mem

/-- For every list of packets of the bound source, each is emitted once, or buffered, or replaced in the buffer by a
later packet with its number, and these exclude each other. Every call of `process_buffer` stops, after at most two
turns for each buffered packet and one, and leaves a buffer without `next_seq`. -/
theorem jitter_buffer_conserves (codec : RtpCodec) (remoteSsrc : Option UInt32) (epoch : ℕ) (ssrc : UInt32)
    (as : List Reception) (hremote : remoteSsrc.getD ssrc = ssrc) (hssrc : ∀ a ∈ as, a.packet.ssrc = ssrc) :
    (∃ emitted replaced holder, Conserved as ((RtpRecvStream.new codec remoteSsrc epoch).receiveAll as).1.jitterBuffer
      ((RtpRecvStream.new codec remoteSsrc epoch).receiveAll as).2 emitted replaced holder) ∧
    ∀ (st : RtpRecvStream) (clock : ℕ → ℕ),
      (∀ n ∈ (st.processBuffer clock).1.nextSeq, n ∉ (st.processBuffer clock).1.jitterBuffer.keys) ∧
      ∀ n ∈ st.nextSeq, ((playoutLoop st.maxLatency clock).visited ⟨st.jitterBuffer,n,0⟩).length ≤
        2 * st.jitterBuffer.keys.length + 1 :=
  ⟨(receiveAll_conserved hremote hssrc).2,fun st clock =>
    ⟨processBuffer_not_mem st clock,fun _ _ => playoutLoop_turns_le st.maxLatency clock _⟩⟩

def sampleReception (seq : UInt16) (milliseconds : ℕ) : Reception where
  packet := RtpPacket.simple 96 false seq 0 7 []
  now := milliseconds * 1000000
  clock := fun _ => milliseconds * 1000000

theorem jitter_buffer_conserves_duplicate :
    ∃ emitted replaced holder,
      Conserved [sampleReception 5 0,sampleReception 7 10,sampleReception 7 20]
        ((RtpRecvStream.new ⟨90000⟩ none 0).receiveAll
          [sampleReception 5 0,sampleReception 7 10,sampleReception 7 20]).1.jitterBuffer
        ((RtpRecvStream.new ⟨90000⟩ none 0).receiveAll
          [sampleReception 5 0,sampleReception 7 10,sampleReception 7 20]).2 emitted replaced holder :=
  (jitter_buffer_conserves ⟨90000⟩ none 0 7 _ rfl (by decide)).1
end RustyRtc.Rtp
