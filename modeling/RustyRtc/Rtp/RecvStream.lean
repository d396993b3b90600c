import Mathlib.Data.List.AList
import RustyRtc.Foundation.Execution
import RustyRtc.Rtp.Packet

/-! # The receive stream

`rtp_recv_stream.rs` with the tracker it feeds. Instants and durations are nanoseconds.
Every clock reading is an input: the one at the head of `receive_rtp_packet`, and the
sequence of readings that `elapsed` makes while the buffer is processed.
-/
namespace RustyRtc.Rtp
variable {buffer : JitterBuffer} {key : UInt16} {maxLatency : ℕ} {clock : ℕ → ℕ} {s : Playout} {b : BufferedPacket}
variable {s' : Playout} {out : List RtpIn}
structure SeqExt where
  cycles : UInt32 := 0
  last : UInt16 := 0
  deriving DecidableEq, Repr
def SeqExt.update (s : SeqExt) (seq : UInt16) : SeqExt × UInt32 :=
  let cycles := if seq < s.last ∧ s.last - seq > 0x8000 then s.cycles + 65536 else s.cycles
  (⟨cycles,seq⟩,cycles ||| seq.toUInt32)

structure RxTracker where
  seqext : SeqExt := {}
  baseExtSeq : Option UInt32 := none
  highestExtSeq : UInt32 := 0
  receivedUnique : UInt32 := 0
  expectedPrev : UInt32 := 0
  receivedPrev : UInt32 := 0
  jitter : UInt32 := 0
  lastTransit : Option UInt32 := none
  lastSrCompact : Option UInt32 := none
  lastSrArrivalCompact : Option UInt32 := none
  deriving DecidableEq, Repr

def absDiff (a b : UInt32) : UInt32 := if a < b then b - a else a - b

def RxTracker.onRtp (rx : RxTracker) (seq : UInt16) (rtpTs arrivalRtpUnits : UInt32) : RxTracker :=
  let (seqext,ext) := rx.seqext.update seq
  let transit := arrivalRtpUnits - rtpTs
  { rx with
    seqext := seqext
    baseExtSeq := some (rx.baseExtSeq.getD ext)
    highestExtSeq := if ext > rx.highestExtSeq then ext else rx.highestExtSeq
    receivedUnique := rx.receivedUnique + 1
    jitter :=
      match rx.lastTransit with
      | some prev => rx.jitter + UInt32.ofNat (((absDiff transit prev).toNat - rx.jitter.toNat) / 16)
      | none => rx.jitter
    lastTransit := some transit }

structure RtpCodec where
  clockRate : UInt32
  deriving DecidableEq, Repr
structure BufferedPacket where
  packet : RtpPacket
  receivedAt : ℕ
  deriving DecidableEq, Repr

/-- The finite map behind the `BTreeMap` keyed by sequence number. -/
abbrev JitterBuffer := AList (fun _ : UInt16 => BufferedPacket)

/-- `iter().next()`: the numerically smallest key with its packet. -/
def JitterBuffer.first (buffer : JitterBuffer) : Option (UInt16 × BufferedPacket) :=
  match buffer.keys.min? with
  | none => none
  | some key => (buffer.lookup key).map (key,·)

structure RtpIn where
  pt : UInt8
  marker : Bool
  timestamp90khz : UInt32
  seq : UInt16
  ssrc : UInt32
  payload : Bytes
  deriving DecidableEq, Repr

def RtpIn.ofPacket (p : RtpPacket) : RtpIn where
  pt := p.payloadType
  marker := p.marker
  timestamp90khz := p.timestamp
  seq := p.seq
  ssrc := p.ssrc
  payload := p.payload

structure RtpRecvStream where
  codec : RtpCodec
  remoteSsrc : Option UInt32
  rx : RxTracker
  epoch : ℕ
  lastActivity : ℕ
  jitterBuffer : JitterBuffer
  nextSeq : Option UInt16
  maxLatency : ℕ

/-- The variables of the loop in `process_buffer`, with the number of clock readings made. -/
structure Playout where
  jitterBuffer : JitterBuffer
  nextSeq : UInt16
  readings : ℕ
theorem lookup_isSome_iff_mem_keys : (buffer.lookup key).isSome = true ↔ key ∈ buffer.keys :=
  AList.lookup_isSome.trans AList.mem_keys
theorem mem_keys_of_lookup (h : buffer.lookup key = some b) : key ∈ buffer.keys :=
  lookup_isSome_iff_mem_keys.mp (Option.isSome_of_eq_some h)
theorem not_mem_keys_of_lookup (h : buffer.lookup key = none) : key ∉ buffer.keys := by
  intro hin
  simpa [h] using lookup_isSome_iff_mem_keys.mpr hin

theorem JitterBuffer.first_eq_some :
    JitterBuffer.first buffer = some (key,b) ↔ buffer.lookup key = some b ∧ ∀ k ∈ buffer.keys, key ≤ k := by
  unfold JitterBuffer.first
  cases hmin : buffer.keys.min? with
  | none =>
    have hnil := List.min?_eq_none_iff.mp hmin
    apply iff_of_false (by simp)
    rintro ⟨hb,_⟩
    have hmem := mem_keys_of_lookup hb
    simp [hnil] at hmem
  | some least =>
    obtain ⟨hmem,hle⟩ := List.min?_eq_some_iff.mp hmin
    constructor
    · intro h
      obtain ⟨b',hb',heq⟩ := Option.map_eq_some_iff.mp h
      cases heq
      exact ⟨hb',hle⟩
    · rintro ⟨hb,hkey⟩
      obtain rfl : key = least := UInt16.le_antisymm (hkey least hmem) (hle key (mem_keys_of_lookup hb))
      simp [hb]

/-- One turn of the loop: emit the awaited packet, or jump over a gap once the first
buffered packet is too old, or wait. -/
def Playout.body (maxLatency : ℕ) (clock : ℕ → ℕ) (s : Playout) : Option (Playout × List RtpIn) :=
  match s.jitterBuffer.lookup s.nextSeq with
  | some buffered =>
    some (⟨s.jitterBuffer.erase s.nextSeq,s.nextSeq + 1,s.readings⟩,[RtpIn.ofPacket buffered.packet])
  | none =>
    match JitterBuffer.first s.jitterBuffer with
    | some (bufferedSeq,bufferedPkt) =>
      if clock s.readings - bufferedPkt.receivedAt > maxLatency then
        some (⟨s.jitterBuffer,bufferedSeq,s.readings + 1⟩,[])
      else none
    | none => none

/-- A jump is always followed by an emission, and an emission shrinks the buffer. -/
def Playout.measure (s : Playout) : ℕ :=
  2 * s.jitterBuffer.keys.length + (if s.nextSeq ∈ s.jitterBuffer.keys then 0 else 1)

theorem Playout.body_cases (h : s.body maxLatency clock = some (s',out)) :
    (∃ b, s.jitterBuffer.lookup s.nextSeq = some b ∧
      s' = ⟨s.jitterBuffer.erase s.nextSeq,s.nextSeq + 1,s.readings⟩ ∧ out = [RtpIn.ofPacket b.packet]) ∨
    (∃ key b, s.jitterBuffer.lookup s.nextSeq = none ∧ JitterBuffer.first s.jitterBuffer = some (key,b) ∧
      s' = ⟨s.jitterBuffer,key,s.readings + 1⟩ ∧ out = []) := by
  unfold Playout.body at h
  split at h
  · next b hb =>
    cases h
    exact Or.inl ⟨b,hb,rfl,rfl⟩
  · next hnone =>
    split at h
    · next key b hfirst =>
      split at h
      · cases h
        exact Or.inr ⟨key,b,hnone,hfirst,rfl,rfl⟩
      · cases h
    · cases h

theorem Playout.measure_decreases (h : s.body maxLatency clock = some (s',out)) : s'.measure < s.measure := by
  rcases Playout.body_cases h with ⟨b,hb,rfl,_⟩ | ⟨key,b,hnone,hfirst,rfl,_⟩
  · have hmem := mem_keys_of_lookup hb
    have hlen := List.length_erase_of_mem hmem
    have hpos := List.length_pos_of_mem hmem
    simp only [Playout.measure,AList.keys_erase,hlen,if_pos hmem]
    split <;> omega
  · have hmem := mem_keys_of_lookup (JitterBuffer.first_eq_some.mp hfirst).1
    simp [Playout.measure,hmem,not_mem_keys_of_lookup hnone]

theorem Playout.not_mem_of_stop (h : s.body maxLatency clock = none) : s.nextSeq ∉ s.jitterBuffer.keys := by
  intro hin
  obtain ⟨b,hb⟩ := Option.isSome_iff_exists.mp (lookup_isSome_iff_mem_keys.mpr hin)
  simp [Playout.body,hb] at h

/-- The loop of `process_buffer` stops under every clock. -/
def playoutLoop (maxLatency : ℕ) (clock : ℕ → ℕ) : Loop Playout RtpIn where
  body := Playout.body maxLatency clock
  measure := Playout.measure
  decreases := Playout.measure_decreases

namespace RtpRecvStream
def new (codec : RtpCodec) (remoteSsrc : Option UInt32) (now : ℕ) : RtpRecvStream where
  codec := codec
  remoteSsrc := remoteSsrc
  rx := {}
  epoch := now
  lastActivity := now
  jitterBuffer := ∅
  nextSeq := none
  maxLatency := 200000000

/-- The multiplication saturates at 128 bits; the cast keeps the low 32. -/
def instantToRtpUnits (st : RtpRecvStream) (now : ℕ) : UInt32 :=
  let dur := now - st.epoch
  UInt32.ofNat (min (dur * st.codec.clockRate.toNat) 340282366920938463463374607431768211455 / 1000000000)
def processBuffer (st : RtpRecvStream) (clock : ℕ → ℕ) : RtpRecvStream × List RtpIn :=
  match st.nextSeq with
  | none => (st,[])
  | some s =>
    let (last,events) := (playoutLoop st.maxLatency clock).run ⟨st.jitterBuffer,s,0⟩
    ({ st with jitterBuffer := last.jitterBuffer, nextSeq := some last.nextSeq },events)

/-- A packet of another source is ignored; a packet whose number is already buffered
replaces the buffered one and nothing is processed. -/
def receiveRtpPacket (st : RtpRecvStream) (packet : RtpPacket) (now : ℕ) (clock : ℕ → ℕ) :
    RtpRecvStream × List RtpIn :=
  let st := { st with lastActivity := now }
  if st.remoteSsrc.getD packet.ssrc ≠ packet.ssrc then (st,[])
  else
    let st := { st with remoteSsrc := some packet.ssrc }
    let st := { st with rx := st.rx.onRtp packet.seq packet.timestamp (st.instantToRtpUnits now) }
    let seq := packet.seq
    let duplicate := (st.jitterBuffer.lookup seq).isSome
    let st := { st with jitterBuffer := st.jitterBuffer.insert seq ⟨packet,now⟩ }
    if duplicate then (st,[])
    else
      let st := { st with nextSeq := some (st.nextSeq.getD seq) }
      st.processBuffer clock

section
variable {st : RtpRecvStream} {packet : RtpPacket} (now : ℕ) (clock : ℕ → ℕ)
theorem receiveRtpPacket_duplicate (hs : st.remoteSsrc.getD packet.ssrc = packet.ssrc)
    (hdup : (st.jitterBuffer.lookup packet.seq).isSome = true) :
    let r := st.receiveRtpPacket packet now clock
    r.2 = [] ∧ r.1.nextSeq = st.nextSeq ∧ r.1.remoteSsrc = some packet.ssrc ∧
      r.1.jitterBuffer = st.jitterBuffer.insert packet.seq ⟨packet,now⟩ := by
  simp [receiveRtpPacket,hs,hdup]

theorem receiveRtpPacket_new (hs : st.remoteSsrc.getD packet.ssrc = packet.ssrc)
    (hnew : (st.jitterBuffer.lookup packet.seq).isSome = false) :
    let r := st.receiveRtpPacket packet now clock
    let run := (playoutLoop st.maxLatency clock).run
      ⟨st.jitterBuffer.insert packet.seq ⟨packet,now⟩,st.nextSeq.getD packet.seq,0⟩
    r.2 = run.2 ∧ r.1.nextSeq = some run.1.nextSeq ∧ r.1.remoteSsrc = some packet.ssrc ∧
      r.1.jitterBuffer = run.1.jitterBuffer := by
  simp [receiveRtpPacket,processBuffer,hs,hnew]
end
end RtpRecvStream
end RustyRtc.Rtp
