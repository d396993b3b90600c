import Mathlib.Data.List.Chain
import RustyRtc.Foundation.SerialIndex
import RustyRtc.Rtp.RecvStream

/-! # One run of the playout loop

The loop of `process_buffer` is seen through the true positions of the buffered packets.
Waiting for `next_seq` keeps their order by itself; only a jump over a gap can go back, and
it does so exactly when the numerically smallest buffered number is not serially ahead.
-/
namespace RustyRtc.Rtp
open SerialIndex Loop
variable {buffer : JitterBuffer} {key : UInt16} {place : UInt16 → ℕ}

/-- In a gap, the numerically smallest buffered number is serially ahead of `next_seq`. -/
def Playout.Ahead (s : Playout) : Prop :=
  s.jitterBuffer.lookup s.nextSeq = none →
    ∀ entry ∈ JitterBuffer.first s.jitterBuffer, (entry.1 - s.nextSeq).toNat < 2 ^ 15
structure Placed (buffer : JitterBuffer) (place : UInt16 → ℕ) : Prop where
  key : ∀ k ∈ buffer.keys, UInt16.ofNat (place k) = k
  packet : ∀ k b, buffer.lookup k = some b → b.packet.seq = k
def Close (buffer : JitterBuffer) (place : UInt16 → ℕ) (last : ℕ) : Prop :=
  (∀ k ∈ buffer.keys, place k < last + 2 ^ 15 ∧ last < place k + 2 ^ 15) ∧
    ∀ k ∈ buffer.keys, ∀ l ∈ buffer.keys, place k < place l + 2 ^ 15
theorem mem_keys_of_mem_erase {k : UInt16} (h : k ∈ (buffer.erase key).keys) : k ∈ buffer.keys := by
  rw [AList.keys_erase] at h
  exact List.mem_of_mem_erase h

theorem lookup_of_erase {k : UInt16} {b : BufferedPacket} (h : (buffer.erase key).lookup k = some b) :
    buffer.lookup k = some b := by
  by_cases hk : k = key
  · subst hk
    simp at h
  · rwa [AList.lookup_erase_ne hk] at h
theorem Placed.erase (h : Placed buffer place) (key : UInt16) : Placed (buffer.erase key) place :=
  ⟨fun k hk => h.key k (mem_keys_of_mem_erase hk),fun k b hb => h.packet k b (lookup_of_erase hb)⟩

theorem Close.erase {last : ℕ} (h : Close buffer place last)
    (hkey : key ∈ buffer.keys) : Close (buffer.erase key) place (place key) := by
  constructor
  · intro k hk
    have hk' := mem_keys_of_mem_erase hk
    exact ⟨h.2 k hk' key hkey,h.2 key hkey k hk'⟩
  · exact fun k hk l hl => h.2 k (mem_keys_of_mem_erase hk) l (mem_keys_of_mem_erase hl)

variable {buffer : JitterBuffer} {place : UInt16 → ℕ} {last : ℕ}
theorem ofNat_eq_iff {i j : ℕ} : UInt16.ofNat i = UInt16.ofNat j ↔ i % 65536 = j % 65536 := by
  rw [← UInt16.toNat_inj,UInt16.toNat_ofNat',UInt16.toNat_ofNat']
theorem place_next (hplaced : Placed buffer place) (hclose : Close buffer place last)
    (h : UInt16.ofNat (last + 1) ∈ buffer.keys) : place (UInt16.ofNat (last + 1)) = last + 1 := by
  obtain ⟨hup,hdown⟩ := hclose.1 _ h
  have hmod := ofNat_eq_iff.mp (hplaced.key _ h)
  exact eq_of_residue_eq (M := 65536) (by omega) (by omega) hmod
theorem toNat_of_placed (hplaced : Placed buffer place) (hkey : key ∈ buffer.keys) : key.toNat = place key % 65536 := by
  conv_lhs => rw [← hplaced.key key hkey]
  exact UInt16.toNat_ofNat'
theorem ahead_iff (hplaced : Placed buffer place) (hclose : Close buffer place last)
    (hkey : key ∈ buffer.keys) : (key - UInt16.ofNat (last + 1)).toNat < 2 ^ 15 ↔ last < place key := by
  obtain ⟨hup,hdown⟩ := hclose.1 key hkey
  rw [UInt16.toNat_sub,UInt16.toNat_ofNat',toNat_of_placed hplaced hkey]
  omega
theorem succ_of_placed (hplaced : Placed buffer place) (hkey : key ∈ buffer.keys) :
    key + 1 = UInt16.ofNat (place key + 1) := by
  rw [UInt16.ofNat_add,hplaced.key key hkey]
  rfl

/-- The buffered packets lie around position `last`, and the loop waits for the packet after it or finds the one it
waits for. -/
structure Playout.Stands (place : UInt16 → ℕ) (last : ℕ) (s : Playout) : Prop where
  placed : Placed s.jitterBuffer place
  close : Close s.jitterBuffer place last
  next : s.nextSeq = UInt16.ofNat (last + 1) ∨ s.nextSeq ∈ s.jitterBuffer.keys

/-- The states a run of the loop starts a turn in, what it emits, and the state it stops in. -/
inductive Playout.Plays : Playout → List Playout → List RtpIn → Playout → Prop
  | stop {s} : s.nextSeq ∉ s.jitterBuffer.keys → Plays s [] [] s
  | emit {s b visited out final} : s.jitterBuffer.lookup s.nextSeq = some b →
      Plays ⟨s.jitterBuffer.erase s.nextSeq,s.nextSeq + 1,s.readings⟩ visited out final →
      Plays s (s :: visited) (RtpIn.ofPacket b.packet :: out) final
  | jump {s key b visited out final} : s.jitterBuffer.lookup s.nextSeq = none →
      JitterBuffer.first s.jitterBuffer = some (key,b) →
      Plays ⟨s.jitterBuffer,key,s.readings + 1⟩ visited out final → Plays s (s :: visited) out final

namespace Playout
variable {s final : Playout} {visited : List Playout} {out : List RtpIn} {b : BufferedPacket}
theorem Stands.waits (h : s.Stands place last) (hmiss : s.nextSeq ∉ s.jitterBuffer.keys) :
    s.nextSeq = UInt16.ofNat (last + 1) := h.next.resolve_right hmiss
theorem Stands.emit (h : s.Stands place last) (hb : s.jitterBuffer.lookup s.nextSeq = some b) :
    Stands place (place s.nextSeq) ⟨s.jitterBuffer.erase s.nextSeq,s.nextSeq + 1,s.readings⟩ where
  placed := h.placed.erase s.nextSeq
  close := h.close.erase (mem_keys_of_lookup hb)
  next := .inl (succ_of_placed h.placed (mem_keys_of_lookup hb))
theorem Stands.jump (h : s.Stands place last) (hfirst : JitterBuffer.first s.jitterBuffer = some (key,b)) :
    Stands place last ⟨s.jitterBuffer,key,s.readings + 1⟩ :=
  ⟨h.placed,h.close, .inr (mem_keys_of_lookup (JitterBuffer.first_eq_some.mp hfirst).1)⟩

theorem plays (maxLatency : ℕ) (clock : ℕ → ℕ) (s : Playout) : Plays s ((playoutLoop maxLatency clock).visited s)
    ((playoutLoop maxLatency clock).run s).2 ((playoutLoop maxLatency clock).run s).1 := by
  induction s using (playoutLoop maxLatency clock).induction with
  | stop s h =>
    rw [run_stop h,visited_stop h]
    exact .stop (not_mem_of_stop h)
  | next s s' out h ih =>
    rw [run_next h,visited_next h]
    rcases body_cases h with ⟨b,hb,rfl,rfl⟩ | ⟨key,b,hnone,hfirst,rfl,rfl⟩
    · exact .emit hb ih
    · exact .jump hnone hfirst ih

/-- The loop emits in order, starting above `last`, exactly when all its jumps go ahead. -/
theorem Plays.isChain_iff (h : Plays s visited out final) (hs : s.Stands place last) :
    (last :: out.map (fun e => place e.seq)).IsChain (· < ·) ↔
      (s.nextSeq ∈ s.jitterBuffer.keys → last < place s.nextSeq) ∧ ∀ v ∈ visited, v.Ahead := by
  induction h generalizing last with
  | stop hmiss => simp [hmiss]
  | @emit s b visited out final hb _ ih =>
    have hmem := mem_keys_of_lookup hb
    have hseq : (RtpIn.ofPacket b.packet).seq = s.nextSeq := hs.placed.packet _ b hb
    have hrest := ih (hs.emit hb)
    have hstep : s.nextSeq + 1 ∈ (s.jitterBuffer.erase s.nextSeq).keys → place s.nextSeq < place (s.nextSeq + 1) := by
      rw [succ_of_placed hs.placed hmem]
      intro hin
      rw [place_next (hs.emit hb).placed (hs.emit hb).close hin]
      omega
    have hahead : s.Ahead := by
      intro hmiss
      simp [hmiss] at hb
    simp only [List.map_cons,hseq,List.isChain_cons_cons,hrest,List.forall_mem_cons]
    tauto
  | @jump s key b visited out final hnone hfirst _ ih =>
    have hmem := mem_keys_of_lookup (JitterBuffer.first_eq_some.mp hfirst).1
    have hmiss := not_mem_keys_of_lookup hnone
    have hahead : s.Ahead ↔ last < place key := by
      rw [← ahead_iff hs.placed hs.close hmem,← hs.waits hmiss]
      simp [Ahead,hnone,hfirst]
    simp only [ih (hs.jump hfirst),hmem,true_imp_iff,hmiss,false_imp_iff,true_and,List.forall_mem_cons,hahead]

theorem Plays.stops (h : Plays s visited out final) (hs : s.Stands place last) :
    ∃ last' ∈ (last :: out.map (fun e => place e.seq)).getLast?, final.Stands place last' ∧
      final.nextSeq = UInt16.ofNat (last' + 1) := by
  induction h generalizing last with
  | stop hmiss => exact ⟨last,rfl,hs,hs.waits hmiss⟩
  | @emit s b visited out final hb _ ih =>
    have hseq : (RtpIn.ofPacket b.packet).seq = s.nextSeq := hs.placed.packet _ b hb
    simpa only [List.map_cons,hseq,List.getLast?_cons_cons] using ih (hs.emit hb)
  | jump _ hfirst _ ih => exact ih (hs.jump hfirst)

theorem Plays.not_mem (h : Plays s visited out final) : final.nextSeq ∉ final.jitterBuffer.keys := by
  induction h with
  | stop hmiss => exact hmiss
  | emit _ _ ih | jump _ _ _ ih => exact ih
end Playout

/-- The loop divides the buffer into what it emits and what it leaves. -/
structure Divides (buffer : JitterBuffer) (out : List RtpIn) (rest : JitterBuffer) : Prop where
  keys : (out.map RtpIn.seq ++ rest.keys).Perm buffer.keys
  emitted : ∀ e ∈ out, ∃ b, buffer.lookup e.seq = some b ∧ e = RtpIn.ofPacket b.packet
  left : ∀ k b, rest.lookup k = some b → buffer.lookup k = some b

theorem Divides.emit {rest : JitterBuffer} {out : List RtpIn} {b : BufferedPacket}
    (h : Divides (buffer.erase key) out rest) (hb : buffer.lookup key = some b) (hseq : b.packet.seq = key) :
    Divides buffer (RtpIn.ofPacket b.packet :: out) rest := by
  have hhead : (RtpIn.ofPacket b.packet).seq = key := hseq
  refine ⟨?_,fun e he => ?_,fun k b' hlookup => lookup_of_erase (h.left k b' hlookup)⟩
  · have hkeys := h.keys
    rw [AList.keys_erase] at hkeys
    rw [List.map_cons,List.cons_append,hhead]
    exact (hkeys.cons key).trans (List.perm_cons_erase (mem_keys_of_lookup hb)).symm
  · rcases List.mem_cons.mp he with rfl | he
    · exact ⟨b,hhead ▸ hb,rfl⟩
    · obtain ⟨b',hlookup,heq⟩ := h.emitted e he
      exact ⟨b',lookup_of_erase hlookup,heq⟩

theorem Playout.Plays.divides {s final : Playout} {visited : List Playout} {out : List RtpIn}
    (h : Plays s visited out final) (hseq : ∀ k b, s.jitterBuffer.lookup k = some b → b.packet.seq = k) :
    Divides s.jitterBuffer out final.jitterBuffer := by
  induction h with
  | stop => exact ⟨.rfl,by simp,fun _ _ h => h⟩
  | emit hb _ ih => exact (ih fun k b hlookup => hseq k b (lookup_of_erase hlookup)).emit hb (hseq _ _ hb)
  | jump _ _ _ ih => exact ih hseq

section Loop
variable (maxLatency : ℕ) (clock : ℕ → ℕ)
theorem playoutLoop_single {b : BufferedPacket}
    (hb : buffer.lookup key = some b) (hrest : (buffer.erase key).keys = []) (readings : ℕ) :
    (playoutLoop maxLatency clock).run ⟨buffer,key,readings⟩ =
        (⟨buffer.erase key,key + 1,readings⟩,[RtpIn.ofPacket b.packet]) ∧
      (playoutLoop maxLatency clock).visited ⟨buffer,key,readings⟩ = [⟨buffer,key,readings⟩] := by
  have hemit : (playoutLoop maxLatency clock).body ⟨buffer,key,readings⟩ =
      some (⟨buffer.erase key,key + 1,readings⟩,[RtpIn.ofPacket b.packet]) := by
    simp [playoutLoop,Playout.body,hb]
  have hstop : (playoutLoop maxLatency clock).body ⟨buffer.erase key,key + 1,readings⟩ = none := by
    have hmiss : (buffer.erase key).lookup (key + 1) = none := by
      apply Option.not_isSome_iff_eq_none.mp
      rw [lookup_isSome_iff_mem_keys,hrest]
      exact List.not_mem_nil
    have hfirst : JitterBuffer.first (buffer.erase key) = none := by
      simp only [JitterBuffer.first,hrest,List.min?_nil]
    simp only [playoutLoop,Playout.body,hmiss,hfirst]
  rw [run_next hemit,visited_next hemit,run_stop hstop,visited_stop hstop]
  exact ⟨rfl,rfl⟩
end Loop
end RustyRtc.Rtp
