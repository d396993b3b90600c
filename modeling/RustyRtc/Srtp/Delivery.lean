import Mathlib.Data.List.Chain
import RustyRtc.Srtp.Sealed

/-! # End-to-end delivery

The sender protects a run of consecutive packets; an untampered, lossy and reordered
schedule of them reaches the receiver. The joint invariant is the position of the last
accepted packet and the set of positions in the replay window. It is carried along the
schedule one delivery at a time.
-/
namespace RustyRtc.Srtp
open SlidingWindow SrtpContext
variable {S : Set ℕ} {I start : ℕ} {positions js : List ℕ} {packet : Bytes} {master : SrtpEndpointKeys}
variable {packets : List Bytes}

/-- A delivery order of stream positions: it starts in the first rollover period, moves
by less than half a cycle, repeats nothing and never falls 64 behind the newest. -/
structure Schedule (positions : List ℕ) : Prop where
  first : ∀ i ∈ positions.head?, i < 65536
  near : positions.IsChain (fun i j => i < j + 2 ^ 15 ∧ j < i + 2 ^ 15)
  fresh : positions.Nodup
  window : positions.Pairwise (fun earlier later => earlier < later + 64)

theorem Schedule.init {is : List ℕ} {i : ℕ} (h : Schedule (is ++ [i])) : Schedule is where
  first := by
    intro j hj
    cases is with
    | nil => simp at hj
    | cons k is => exact h.first j (by simpa using hj)
  near := h.near.left_of_append
  fresh := (List.nodup_append.mp h.fresh).1
  window := (List.pairwise_append.mp h.window).1

/-- In-order delivery with losses of less than half a cycle is such a schedule. -/
theorem Schedule.of_inOrder (hfirst : ∀ i ∈ positions.head?, i < 65536)
    (hchain : positions.IsChain (fun i j => i < j ∧ j < i + 2 ^ 15)) : Schedule positions := by
  have hsorted : positions.Pairwise (· < ·) := (hchain.imp (fun _ _ h => h.1)).pairwise
  refine ⟨hfirst,hchain.imp (fun i j h => ⟨by omega,h.2⟩),hsorted.imp Nat.ne_of_lt,?_⟩
  exact hsorted.imp (fun h => by omega)

variable {P : Primitives} {ssrc : UInt32} {ctx : SrtpContext}
theorem unprotect_authentic {content : Bytes}
    (hwf : WellFormed ssrc (seqAt I) content) (hest : ctx.estimateRoc ssrc (seqAt I) = rocAt I)
    (hwin : Tracks (ctx.replayWindow ssrc).view S) (hI : I < 2 ^ 48) (hfresh : I ∉ S) (hclose : ∀ m ∈ S, m < I + 64) :
    ctx.unprotect P (content ++ authTag P ctx.sessionKeys content (rocAt I)) =
      ((ctx.touch ssrc).accept ssrc (rocAt I) (seqAt I),
        .ok (cryptPayload P ctx.sessionKeys ssrc (packetIndex (rocAt I) (seqAt I)) (headerLen content) content)) := by
  rw [unprotect_wellFormed ctx hwf (authTag_length _ _ _ _),hest,
    isReplay_eq_false hwin hI hfresh hclose,if_neg Bool.false_ne_true,if_pos rfl]

theorem unprotect_sealPacket (hwf : WellFormed ssrc (seqAt I) packet) (hest : ctx.estimateRoc ssrc (seqAt I) = rocAt I)
    (hwin : Tracks (ctx.replayWindow ssrc).view S) (hI : I < 2 ^ 48) (hfresh : I ∉ S) (hclose : ∀ m ∈ S, m < I + 64) :
    ctx.unprotect P (sealPacket P ctx.sessionKeys ssrc (rocAt I) packet) =
      ((ctx.touch ssrc).accept ssrc (rocAt I) (seqAt I), .ok packet) := by
  unfold sealPacket
  rw [unprotect_authentic (sealedContent_wellFormed _ hwf) hest hwin hI hfresh hclose,
    cryptPayload_sealedContent hwf]

structure Delivered (ctx after : SrtpContext) (ssrc : UInt32) (is : List ℕ) : Prop where
  keys : after.sessionKeys = ctx.sessionKeys
  none : is = [] → after.Untouched ssrc
  some : ∀ last ∈ is.getLast?, after.Received ssrc last {i | i ∈ is}

theorem unprotectAll_schedule (hctx : ctx.Untouched ssrc) (packet : ℕ → Bytes) {is : List ℕ}
    (hs : Schedule is) (hwf : ∀ i ∈ is, WellFormed ssrc (seqAt i) (packet i)) (hrange : ∀ i ∈ is, i < 2 ^ 48) :
    (ctx.unprotectAll P (is.map (fun i => sealPacket P ctx.sessionKeys ssrc (rocAt i) (packet i)))).2 =
        is.map (fun i => .ok (packet i)) ∧ Delivered ctx (ctx.unprotectAll P
        (is.map (fun i => sealPacket P ctx.sessionKeys ssrc (rocAt i) (packet i)))).1 ssrc is := by
  induction is using List.reverseRecOn with
  | nil => exact ⟨rfl,rfl,fun _ => hctx,by simp⟩
  | append_singleton is i ih =>
    obtain ⟨hres,hdel⟩ := ih hs.init (fun j hj => hwf j (by simp [hj])) (fun j hj => hrange j (by simp [hj]))
    have hi : i < 2 ^ 48 := hrange i (by simp)
    have hwfi := hwf i (by simp)
    have hfresh : i ∉ {j | j ∈ is} := by
      have hd := (List.nodup_append.mp hs.fresh).2.2
      exact fun hmem => hd i hmem i (by simp) rfl
    have hclose : ∀ m ∈ {j | j ∈ is}, m < i + 64 :=
      fun m hm => (List.pairwise_append.mp hs.window).2.2 m hm i (by simp)
    rw [List.map_append,unprotectAll_append]
    set after := (ctx.unprotectAll P
      (is.map (fun i => sealPacket P ctx.sessionKeys ssrc (rocAt i) (packet i)))).1 with hafter
    have hset : insert i {j | j ∈ is} = {j | j ∈ is ++ [i]} := by
      ext j
      simp [or_comm]
    have hready : after.estimateRoc ssrc (seqAt i) = rocAt i ∧
        Tracks (after.replayWindow ssrc).view {j | j ∈ is} := by
      cases hlast : is.getLast? with
      | none =>
        have hnil : is = [] := List.getLast?_eq_none_iff.mp hlast
        subst hnil
        have hu := hdel.none rfl
        have hi0 : i < 65536 := hs.first i (by simp)
        refine ⟨?_,by simpa using hu.tracks⟩
        rw [hu.estimateRoc_eq,rocAt,Nat.div_eq_of_lt hi0]
        rfl
      | some last =>
        have hr := hdel.some last hlast
        have hnear := (List.isChain_append.mp hs.near).2.2 last hlast i rfl
        exact ⟨hr.estimateRoc_eq hnear.2 hnear.1,hr.window⟩
    have hstep := unprotect_sealPacket (P := P) hwfi hready.1 hready.2 hi hfresh hclose
    rw [hdel.keys] at hstep
    simp only [List.map_cons,List.map_nil,unprotectAll,hstep,hres,List.map_append,true_and]
    refine ⟨hdel.keys,by simp,?_⟩
    intro last hl
    have hli : last = i := by simpa [eq_comm] using hl
    rw [hli,← hset]
    exact received_accept hready.2 hi

theorem new_untouched (h : SrtpContext.new P master = some ctx) (ssrc : UInt32) : ctx.Untouched ssrc := by
  obtain ⟨keys,_,rfl⟩ := Option.map_eq_some_iff.mp h
  exact ⟨rfl,rfl⟩
theorem new_expects (h : SrtpContext.new P master = some ctx) (ssrc : UInt32)
    (start : UInt16) : ctx.Expects ssrc start.toNat := Or.inl ⟨(new_untouched h ssrc).lastSeq,start.toNat_lt⟩

theorem delivered_wire {keys : SessionKeys} (hjs : ∀ j ∈ js, j < packets.length) :
    js.map (fun j => (packets.mapIdx (fun i packet => sealPacket P keys ssrc (rocAt (start + i)) packet)).getD j []) =
      (js.map (start + ·)).map (fun i => sealPacket P keys ssrc (rocAt i) (packets.getD (i - start) [])) := by
  rw [List.map_map]
  apply List.map_congr_left
  intro j hj
  simp [List.getD_eq_getElem?_getD,List.getElem?_eq_getElem (hjs j hj)]

theorem RunFrom.delivered (hrun : RunFrom ssrc start packets) (hjs : ∀ j ∈ js, j < packets.length) :
    ∀ i ∈ js.map (start + ·), WellFormed ssrc (seqAt i) (packets.getD (i - start) []) := by
  intro i hi
  obtain ⟨j,hj,rfl⟩ := List.mem_map.mp hi
  have := hrun j (hjs j hj)
  simpa [List.getD_eq_getElem?_getD,List.getElem?_eq_getElem (hjs j hj)] using this

/-- Two contexts from the same master keys, any start, any lossy reordering inside the
window: what is delivered is exactly what was protected, as long as the packet index
stays within its 48 bits. -/
theorem delivery_roundTrip {master : SrtpEndpointKeys} {sender receiver : SrtpContext}
    (hsender : SrtpContext.new P master = some sender) (hreceiver : SrtpContext.new P master = some receiver)
    (ssrc : UInt32) (start : UInt16) (packets : List Bytes) (hrun : RunFrom ssrc start.toNat packets)
    (hrange : start.toNat + packets.length ≤ 2 ^ 48) (js : List ℕ) (hjs : ∀ j ∈ js, j < packets.length)
    (hschedule : Schedule (js.map (start.toNat + ·))) :
    ∃ wire : List Bytes, (sender.protectAll P ssrc packets).2 = wire.map .ok ∧
      (receiver.unprotectAll P (js.map (fun j => wire.getD j []))).2 =
        js.map (fun j => .ok (packets.getD j [])) := by
  have hsame : sender = receiver := Option.some.inj (hsender.symm.trans hreceiver)
  subst hsame
  refine ⟨_,protectAll_run (new_expects hsender ssrc start) hrun,?_⟩
  have hbound : ∀ i ∈ js.map (start.toNat + ·), i < 2 ^ 48 := by
    intro i hi
    obtain ⟨j,hj,rfl⟩ := List.mem_map.mp hi
    have := hjs j hj
    omega
  rw [delivered_wire hjs,
    (unprotectAll_schedule (new_untouched hreceiver ssrc) _ hschedule (RunFrom.delivered hrun hjs) hbound).1,
    List.map_map]
  apply List.map_congr_left
  intro j hj
  simp

/-- Packets as the send stream encodes them, each with one payload byte. -/
def samplePackets (start : UInt16) (n : ℕ) : List Bytes :=
  (List.range n).map (fun i => Rtp.RtpPacket.simpleHeader 96 false (start + UInt16.ofNat i) 0 7 ++ [0x65])
theorem runFrom_samplePackets (start : UInt16) (n : ℕ) : RunFrom 7 start.toNat (samplePackets start n) := by
  intro i hi
  simp only [samplePackets,List.getElem_map,List.getElem_range,seqAt_add]
  exact wellFormed_encode (Rtp.RtpPacket.encode_simple _ _ _ _ _ _)

/-- AES-128 counter streams by counter block: three of the all-zero master key, then the
ones of the packets at positions 65535 to 65537. -/
def sampleStreams : List (Bytes × Bytes) := [
  ([0,0,0,0,0,0,0,0,0,0,0,0,0,0,0,0],
    [102,233,75,212,239,138,44,59,136,76,250,89,202,52,43,46]),
  ([0,0,0,0,0,0,0,1,0,0,0,0,0,0,0,0],
    [120,139,205,17,30,207,115,212,231,141,46,33,190,245,84,96,218,172,218,247]),
  ([0,0,0,0,0,0,0,2,0,0,0,0,0,0,0,0],
    [181,176,52,33,222,139,191,252,78,173,236,118,115,57]),
  ([181,176,52,33,222,139,191,251,78,173,236,118,140,198,0,0],
    [102]),
  ([181,176,52,33,222,139,191,251,78,173,236,119,115,57,0,0],
    [108]),
  ([181,176,52,33,222,139,191,251,78,173,236,119,115,56,0,0],
    [46])]

/-- HMAC-SHA1 under the session key derived from these streams. -/
def sampleTags : List (Bytes × Bytes) := [
  ([128,96,255,255,0,0,0,0,0,0,0,7,3,0,0,0,0],
    [29,61,61,234,124,8,120,229,146,120,175,192,10,194,251,116,212,207,247,246]),
  ([128,96,0,0,0,0,0,0,0,0,0,7,9,0,0,0,1],
    [159,232,1,66,224,145,194,182,125,13,58,38,123,214,226,140,125,247,79,156]),
  ([128,96,0,0,0,0,0,0,0,0,0,7,9,0,0,0,0],
    [34,179,162,91,2,154,171,35,182,11,59,231,117,74,176,187,120,137,220,151]),
  ([128,96,0,1,0,0,0,0,0,0,0,7,75,0,0,0,1],
    [153,188,227,170,92,12,0,39,153,18,185,184,23,251,136,14,4,123,41,174])]

def samplePrimitives : Primitives where
  keystream _ iv i := ((sampleStreams.lookup iv.toList).getD []).getD i 0
  hmacSha1 _ message := Vector.ofFn (fun i => ((sampleTags.lookup message).getD []).getD i.val 0)
def sampleMaster : SrtpEndpointKeys := ⟨List.replicate 16 0,List.replicate 14 0⟩
def sampleContext : SrtpContext := (SrtpContext.new samplePrimitives sampleMaster).get rfl

theorem new_sampleMaster (P : Primitives) : ∃ ctx, SrtpContext.new P sampleMaster = some ctx := ⟨_,rfl⟩
theorem delivery_roundTrip_reordered :
    ∃ (ctx : SrtpContext) (wire : List Bytes), SrtpContext.new samplePrimitives sampleMaster = some ctx ∧
      (ctx.protectAll samplePrimitives 7 (samplePackets 65535 3)).2 = wire.map .ok ∧
      (ctx.unprotectAll samplePrimitives ([0,2,1].map (fun j => wire.getD j []))).2 =
        [0,2,1].map (fun j => .ok ((samplePackets 65535 3).getD j [])) := by
  obtain ⟨ctx,hnew⟩ := new_sampleMaster samplePrimitives
  have hs : Schedule ([0,2,1].map ((65535 : UInt16).toNat + ·)) :=
    ⟨by decide,by decide,by decide,by decide⟩
  obtain ⟨wire,hwire,hres⟩ := delivery_roundTrip hnew hnew 7 65535 (samplePackets 65535 3)
    (runFrom_samplePackets 65535 3) (by decide) [0,2,1] (by decide) hs
  exact ⟨ctx,wire,hnew,hwire,hres⟩

theorem unprotect_wrapped {J : ℕ} (hwf : WellFormed ssrc (seqAt I) packet)
    (hr : ctx.Received ssrc J S) (hJS : J ∈ S) (hJ : J < 2 ^ 48) (hI : 2 ^ 48 ≤ I) (hIJ : I < J + 2 ^ 15) :
    ctx.unprotect P (sealPacket P ctx.sessionKeys ssrc (rocAt I) packet) =
      (ctx.touch ssrc, .error (replayDetected ssrc (seqAt I))) := by
  unfold sealPacket
  rw [unprotect_wellFormed ctx (sealedContent_wellFormed _ hwf) (authTag_length _ _ _ _),
    hr.estimateRoc_eq hIJ (by omega),isReplay_of_wrapped hr.window hJS hJ hI hIJ,if_pos rfl]

def strides (q : ℕ) : List ℕ := (List.range q).map (fun t => 65535 + 32767 * t)
theorem strides_succ (q : ℕ) : strides (q + 1) = strides q ++ [65535 + 32767 * q] := by
  simp [strides,List.range_succ]

theorem isChain_strides (q : ℕ) : (strides q).IsChain (fun i j => i < j ∧ j < i + 2 ^ 15) := by
  induction q with
  | zero => exact List.isChain_nil
  | succ q ih =>
    rw [strides_succ]
    refine List.isChain_append.mpr ⟨ih,List.isChain_singleton _,?_⟩
    intro last hlast next hnext
    obtain rfl : 65535 + 32767 * q = next := by simpa using hnext
    cases q with
    | zero => simp [strides] at hlast
    | succ q =>
      obtain rfl : 65535 + 32767 * q = last := by simpa [strides_succ] using hlast
      omega

theorem schedule_strides (q : ℕ) : Schedule (strides q) := by
  refine Schedule.of_inOrder ?_ (isChain_strides q)
  intro i hi
  cases q with
  | zero => simp [strides] at hi
  | succ q =>
    obtain rfl : 65535 = i := by simpa [strides,List.range_succ_eq_map] using hi
    decide

theorem schedule_past_range {q : ℕ} (hI : 65535 + 32767 * q + 7 = I) : Schedule (strides (q + 1) ++ [I]) := by
  refine Schedule.of_inOrder ?_ (List.isChain_append.mpr ⟨isChain_strides _,List.isChain_singleton _,?_⟩)
  · intro i hi
    exact (schedule_strides (q + 1)).first i (by simpa [strides,List.range_succ_eq_map] using hi)
  · intro last hl next hnext
    obtain rfl : 65535 + 32767 * q = last := by simpa [strides_succ] using hl
    obtain rfl : I = next := by simpa using hnext
    omega

theorem map_sub_map_add (h : ∀ i ∈ positions, start ≤ i) : (positions.map (· - start)).map (start + ·) = positions := by
  rw [List.map_map]
  refine (List.map_congr_left ?_).trans (List.map_id positions)
  exact fun i hi => Nat.add_sub_cancel' (h i hi)

/-- The last of fewer than `2 ^ 48` packets can lie beyond the range and is then refused. -/
theorem unprotectAll_past_range (hnew : SrtpContext.new P sampleMaster = some ctx) :
    ∃ (n : ℕ) (js : List ℕ) (e : String), n < 2 ^ 48 ∧ (∀ j ∈ js, j < n) ∧ Schedule (js.map (65535 + ·)) ∧
      (ctx.unprotectAll P (js.map (fun j => ((samplePackets 65535 n).mapIdx (fun i packet =>
        sealPacket P ctx.sessionKeys 7 (rocAt (65535 + i)) packet)).getD j []))).2.getLast? = some (.error e) := by
  obtain ⟨q,I,hq,hI⟩ : ∃ q I, 65535 + 32767 * q + 7 = I ∧ I = 2 ^ 48 := ⟨8590196742,2 ^ 48,by norm_num,rfl⟩
  obtain ⟨n,hn⟩ : ∃ n, n + 65534 = I := ⟨32767 * q + 8,by omega⟩
  obtain ⟨positions,hpos⟩ : ∃ positions, positions = strides (q + 1) ++ [I] := ⟨_,rfl⟩
  have hbelow : ∀ i ∈ strides (q + 1), 65535 ≤ i ∧ i < I := by
    intro i hi
    obtain ⟨t,ht,rfl⟩ := List.mem_map.mp hi
    have := List.mem_range.mp ht
    omega
  have hmem : ∀ i ∈ positions, 65535 ≤ i ∧ i ≤ I := by
    intro i hi
    rw [hpos] at hi
    rcases List.mem_append.mp hi with hi | hi
    · exact ⟨(hbelow i hi).1,(hbelow i hi).2.le⟩
    · rw [List.mem_singleton.mp hi]
      omega
  have hmap := map_sub_map_add (fun i hi => (hmem i hi).1)
  have hlen : (samplePackets 65535 n).length = n := by simp [samplePackets]
  have hjs : ∀ j ∈ positions.map (· - 65535), j < (samplePackets 65535 n).length := by
    intro j hj
    obtain ⟨i,hi,rfl⟩ := List.mem_map.mp hj
    have := hmem i hi
    omega
  have hrun := RunFrom.delivered (runFrom_samplePackets 65535 n) hjs
  rw [show (65535 : UInt16).toNat = 65535 from rfl,hmap,hpos] at hrun
  have hlast : (strides (q + 1)).getLast? = some (65535 + 32767 * q) := by
    rw [strides_succ,List.getLast?_concat]
  obtain ⟨-,hdel⟩ := unprotectAll_schedule (P := P) (new_untouched hnew 7) _ (schedule_strides (q + 1))
    (fun i hi => hrun i (List.mem_append_left _ hi)) (fun i hi => hI ▸ (hbelow i hi).2)
  have hrefuse := unprotect_wrapped (P := P) (hrun I (by simp)) (hdel.some _ hlast)
    (List.mem_of_getLast? hlast) (by omega) hI.ge (by omega)
  rw [hdel.keys] at hrefuse
  refine ⟨n,positions.map (· - 65535),replayDetected 7 (seqAt I),by omega,by rwa [hlen] at hjs,?_,?_⟩
  · rw [hmap,hpos]
    exact schedule_past_range hq
  · rw [delivered_wire hjs,hmap,hpos,List.map_append,unprotectAll_append,List.map_cons,List.map_nil]
    simp only [unprotectAll,hrefuse,List.getLast?_concat]

theorem delivery_refused_past_index_range :
    ¬ ∀ (P : Primitives) (master : SrtpEndpointKeys) (sender receiver : SrtpContext),
      SrtpContext.new P master = some sender → SrtpContext.new P master = some receiver →
      ∀ (ssrc : UInt32) (start : UInt16) (packets : List Bytes), RunFrom ssrc start.toNat packets →
      packets.length < 2 ^ 48 → ∀ js : List ℕ, (∀ j ∈ js, j < packets.length) →
      Schedule (js.map (start.toNat + ·)) →
      ∃ wire : List Bytes, (sender.protectAll P ssrc packets).2 = wire.map .ok ∧
        (receiver.unprotectAll P (js.map (fun j => wire.getD j []))).2 =
          js.map (fun j => .ok (packets.getD j [])) := by
  intro h
  obtain ⟨ctx,hnew⟩ := new_sampleMaster samplePrimitives
  obtain ⟨n,js,e,hn,hjs,hschedule,herror⟩ := unprotectAll_past_range hnew
  have hlen : (samplePackets 65535 n).length = n := by simp [samplePackets]
  obtain ⟨wire,hwire,hres⟩ := h samplePrimitives sampleMaster ctx ctx hnew hnew 7 65535 (samplePackets 65535 n)
    (runFrom_samplePackets 65535 n) (by rw [hlen]; exact hn) js (by rw [hlen]; exact hjs) hschedule
  rw [protectAll_run (new_expects hnew 7 65535) (runFrom_samplePackets 65535 n)] at hwire
  obtain rfl := List.map_injective_iff.mpr (fun _ _ h => Except.ok.inj h) hwire
  have hlast := congrArg List.getLast? hres
  rw [show (65535 : UInt16).toNat = 65535 from rfl] at hlast
  rw [herror] at hlast
  cases js using List.reverseRecOn with
  | nil => simp at hlast
  | append_singleton js j => simp at hlast
end RustyRtc.Srtp
