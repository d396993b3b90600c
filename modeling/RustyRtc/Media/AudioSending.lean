import Mathlib.Data.List.Chain
import RustyRtc.Foundation.Bytes
import RustyRtc.Foundation.Execution
import RustyRtc.Media.Spec

/-! # Captured audio on its way to the packetizer

`media_agent/audio_capture_worker`, `media_agent/audio_codec`, the audio part of `media_agent/media_agent_c` and the
egress part of `media_transport/event_loops/media_agent_event_loop`: three threads with a channel between each two.
The wall clock, the samples and the muting are inputs. The packetizer's end of its channel is taken to be there.
-/
namespace RustyRtc.Media
variable {xs : List Float32}

/-- The loop over the bits of the sample, from the highest down. -/
def ulawExponent (s mask : ℕ) : ℕ → ℕ
  | 0 => 0
  | exp + 1 => if s &&& mask = 0 then ulawExponent s (mask >>> 1) exp else exp + 1
def linearToUlaw (sample : Int16) : UInt8 :=
  let sign := (sample >>> 8) &&& 0x80
  let s := min sample.toInt.natAbs 32635 + 0x84
  let exp := ulawExponent s 0x4000 7
  let mantissa := (s >>> (exp + 3)) &&& 0x0F
  ~~~(sign.toUInt16.toUInt8 ||| (UInt8.ofNat exp <<< 4) ||| UInt8.ofNat mantissa)

/-- The cast to `i32` truncates and saturates. -/
def encode (pcmSamples : List Float32) : Bytes :=
  pcmSamples.map fun sample =>
    let s := (sample * 32767.0).toInt32
    linearToUlaw (Int16.ofInt (max (-32768) (min s.toInt 32767)))
structure AudioFrame where
  data : List Float32
  samples : ℕ
  sampleRate : UInt32
  channels : UInt16
  timestampMs : ℕ

inductive AudioCaptureEvent where
  | frame (frame : AudioFrame)
  | error (e : String)
inductive MediaTransportEvent where
  | sendEncodedFrame (annexbFrame : Bytes) (timestampMs : ℕ) (codecSpec : CodecSpec)
  | sendEncodedAudioFrame (payload : Bytes) (timestampMs : ℕ) (codecSpec : CodecSpec)
structure PacketizeOrder where
  payload : Bytes
  rtpTs : UInt32
  codecSpec : CodecSpec
  deriving DecidableEq, Repr

/-- The loop of the callback; each block is stamped with a reading of the clock of its own. -/
def cutBody (clock : ℕ → ℕ) (s : List Float32 × ℕ) : Option ((List Float32 × ℕ) × List AudioFrame) :=
  if 160 ≤ s.1.length then
    some ((s.1.drop 160,s.2 + 1),
      [{ data := s.1.take 160, samples := 160, sampleRate := 8000, channels := 1, timestampMs := clock s.2 }])
  else none

def cutLoop (clock : ℕ → ℕ) : Loop (List Float32 × ℕ) AudioFrame where
  body := cutBody clock
  measure := fun s => s.1.length
  decreases := by
    intro s s' out h
    unfold cutBody at h
    split at h
    · cases h
      simp only [List.length_drop]
      omega
    · cases h

def heardSamples (muted : Bool) (data : List Float32) : List Float32 :=
  if muted then List.replicate data.length 0 else data
def capture (buf : List Float32) (muted : Bool) (data : List Float32) (clock : ℕ → ℕ) :
    List Float32 × List AudioFrame :=
  let (last,frames) := (cutLoop clock).run (buf ++ heardSamples muted data,0)
  (last.1,frames)

/-- `audioFrames`, `events` and `orders` are what is in the channels; nobody takes from `orders`. -/
structure AudioSending where
  buffer : List Float32 := []
  audioFrames : List AudioCaptureEvent := []
  events : List MediaTransportEvent := []
  orders : List PacketizeOrder := []
  lastReceivedLocalTsMs : Option ℕ := none
  lastReceivedAudioTsMs : Option ℕ := none
  videoRtpTs : UInt32
  audioRtpTs : UInt32

inductive AudioTurn where
  /-- The input stream calls back. -/
  | capture (muted : Bool) (data : List Float32) (clock : ℕ → ℕ)
  /-- The input stream reports an error. -/
  | streamError (e : String)
  /-- One turn of the loop of `drain_audio_frames`. -/
  | drainAudioFrames
  /-- The video encoder has a frame. -/
  | encoded (annexbFrame : Bytes) (timestampMs : ℕ)
  /-- The event loop takes its next event. -/
  | receive

namespace AudioSending
def relay : AudioCaptureEvent → Option MediaTransportEvent
  | .frame frame => some (.sendEncodedAudioFrame (encode frame.data) frame.timestampMs .g711u)
  | .error _ => none

def handle (targetFps : UInt32) (s : AudioSending) : MediaTransportEvent → AudioSending
  | .sendEncodedFrame annexbFrame timestampMs codecSpec =>
    if s.lastReceivedLocalTsMs = some timestampMs then s
    else
      { s with
        lastReceivedLocalTsMs := some timestampMs
        orders := s.orders ++ [⟨annexbFrame,s.videoRtpTs,codecSpec⟩]
        videoRtpTs := s.videoRtpTs + 90000 / targetFps }
  | .sendEncodedAudioFrame payload timestampMs codecSpec =>
    if s.lastReceivedAudioTsMs = some timestampMs then s
    else
      { s with
        lastReceivedAudioTsMs := some timestampMs
        orders := s.orders ++ [⟨payload,s.audioRtpTs,codecSpec⟩]
        audioRtpTs := s.audioRtpTs + 160 }

def step (targetFps : UInt32) (s : AudioSending) : AudioTurn → AudioSending
  | .capture muted data clock =>
    let (buffer,frames) := Media.capture s.buffer muted data clock
    { s with buffer := buffer, audioFrames := s.audioFrames ++ frames.map .frame }
  | .streamError e => { s with audioFrames := s.audioFrames ++ [.error e] }
  | .drainAudioFrames =>
    match s.audioFrames with
    | [] => s
    | event :: rest => { s with audioFrames := rest, events := s.events ++ (relay event).toList }
  | .encoded annexbFrame timestampMs => { s with events := s.events ++ [.sendEncodedFrame annexbFrame timestampMs .h264] }
  | .receive =>
    match s.events with
    | [] => s
    | event :: rest => handle targetFps { s with events := rest } event

def run (targetFps videoRtpTs audioRtpTs : UInt32) (turns : List AudioTurn) : AudioSending :=
  turns.foldl (step targetFps) { videoRtpTs := videoRtpTs, audioRtpTs := audioRtpTs }
end AudioSending

/-- Consecutive blocks of 160 samples; an incomplete one at the end is left out. -/
def blocks (xs : List Float32) : List (List Float32) :=
  (List.range (xs.length / 160)).map fun i => (xs.drop (160 * i)).take 160
theorem blocks_of_lt (h : xs.length < 160) : blocks xs = [] := by
  simp [blocks,Nat.div_eq_of_lt h]

theorem blocks_of_le (h : 160 ≤ xs.length) : blocks xs = xs.take 160 :: blocks (xs.drop 160) := by
  have hcount : xs.length / 160 = (xs.drop 160).length / 160 + 1 := by
    rw [List.length_drop]
    omega
  rw [blocks,hcount,List.range_succ_eq_map,List.map_cons,List.map_map,blocks]
  congr 1
  refine List.map_congr_left fun i _ => ?_
  simp [Nat.mul_add,Nat.add_comm]

theorem run_cutLoop (clock : ℕ → ℕ) (s : List Float32 × ℕ) : ((cutLoop clock).run s).1.1.length < 160 ∧
      ∀ ys, blocks (s.1 ++ ys) = ((cutLoop clock).run s).2.map AudioFrame.data ++
        blocks (((cutLoop clock).run s).1.1 ++ ys) := by
  induction s using Loop.induction (L := cutLoop clock) with
  | stop s hstop =>
    have hshort : s.1.length < 160 := by
      change cutBody clock s = none at hstop
      unfold cutBody at hstop
      split at hstop
      · cases hstop
      · omega
    rw [Loop.run_stop hstop]
    exact ⟨hshort,by simp⟩
  | next s s' out hnext ih =>
    rw [Loop.run_next hnext]
    change cutBody clock s = some (s',out) at hnext
    unfold cutBody at hnext
    split at hnext
    · next hlong =>
      cases hnext
      refine ⟨ih.1,fun ys => ?_⟩
      have hlong' : 160 ≤ (s.1 ++ ys).length := by
        rw [List.length_append]
        omega
      rw [blocks_of_le hlong',List.take_append_of_le_length hlong,List.drop_append_of_le_length hlong,ih.2 ys]
      rfl
    · cases hnext

def captured : List AudioTurn → List Float32 :=
  List.flatMap fun
    | .capture muted data _ => heardSamples muted data
    | _ => []
def frames : List Float32 → List AudioTurn → List AudioFrame
  | _, [] => []
  | buf, .capture muted data clock :: turns =>
    (capture buf muted data clock).2 ++ frames (capture buf muted data clock).1 turns
  | buf, _ :: turns => frames buf turns

theorem data_frames {buf : List Float32} (hbuf : buf.length < 160) (turns : List AudioTurn) :
    (frames buf turns).map AudioFrame.data = blocks (buf ++ captured turns) := by
  induction turns generalizing buf with
  | nil => simp [frames,captured,blocks_of_lt hbuf]
  | cons t turns ih =>
    cases t with
    | capture muted data clock =>
      obtain ⟨hshort,hcut⟩ := run_cutLoop clock (buf ++ heardSamples muted data,0)
      have hrest := hcut (captured turns)
      rw [List.append_assoc] at hrest
      change (capture buf muted data clock).1.length < 160 at hshort
      rw [frames,List.map_append,ih hshort]
      exact hrest.symm
    | _ => exact ih hbuf

def stamps (turns : List AudioTurn) : List ℕ := (frames [] turns).map AudioFrame.timestampMs
def handOver (last : Option ℕ) (rtpTs : UInt32) : List (Bytes × ℕ) → List PacketizeOrder
  | [] => []
  | (payload,stamp) :: rest =>
    if last = some stamp then handOver last rtpTs rest
    else ⟨payload,rtpTs, .g711u⟩ :: handOver (some stamp) (rtpTs + 160) rest
def numbered (rtpTs : UInt32) (payloads : List Bytes) : List PacketizeOrder :=
  payloads.mapIdx fun i payload => ⟨payload,rtpTs + 160 * UInt32.ofNat i, .g711u⟩

theorem numbered_cons (rtpTs : UInt32) (payload : Bytes) (payloads : List Bytes) :
    numbered rtpTs (payload :: payloads) = ⟨payload,rtpTs, .g711u⟩ :: numbered (rtpTs + 160) payloads := by
  rw [numbered,List.mapIdx_cons,numbered]
  congr 1
  · simp
  · refine List.mapIdx_eq_mapIdx_iff.mpr fun i hi => ?_
    have hstep : 160 * UInt32.ofNat (i + 1) = 160 + 160 * UInt32.ofNat i := by
      rw [UInt32.ofNat_add,UInt32.mul_add,UInt32.add_comm]
      rfl
    rw [hstep,UInt32.add_assoc]

theorem length_handOver_le (last : Option ℕ) (rtpTs : UInt32) (xs : List (Bytes × ℕ)) :
    (handOver last rtpTs xs).length ≤ xs.length := by
  induction xs generalizing last rtpTs with
  | nil => rfl
  | cons x xs ih =>
    rw [handOver]
    split
    · exact (ih last rtpTs).trans (Nat.le_succ _)
    · exact Nat.succ_le_succ (ih _ _)

/-- Everything is handed over if no payload has the stamp of the one before, and only then. -/
theorem handOver_eq_numbered_iff (last : Option ℕ) (rtpTs : UInt32) (xs : List (Bytes × ℕ)) :
    handOver last rtpTs xs = numbered rtpTs (xs.map Prod.fst) ↔ (last.toList ++ xs.map Prod.snd).IsChain (· ≠ ·) := by
  induction xs generalizing last rtpTs with
  | nil => cases last <;> simp [handOver,numbered]
  | cons x xs ih =>
    obtain ⟨payload,stamp⟩ := x
    have hnext := ih (some stamp) (rtpTs + 160)
    rw [List.map_cons,List.map_cons,numbered_cons,handOver]
    by_cases hsame : last = some stamp
    · rw [if_pos hsame]
      refine iff_of_false (fun heq => ?_) (by simp [hsame])
      -- one payload is missing for good
      have hlength := congrArg List.length heq
      have hle := length_handOver_le last rtpTs xs
      simp only [numbered,List.length_cons,List.length_mapIdx,List.length_map] at hlength
      omega
    · rw [if_neg hsame,List.cons.injEq,and_iff_right rfl,hnext]
      cases last with
      | none => rfl
      | some last =>
        have hne : last ≠ stamp := fun heq => hsame (by rw [heq])
        simp [hne]

namespace AudioSending
def audioOrders (s : AudioSending) : List PacketizeOrder := s.orders.filter fun order => order.codecSpec = .g711u
def audioOf : MediaTransportEvent → Option (Bytes × ℕ)
  | .sendEncodedAudioFrame payload timestampMs _ => some (payload,timestampMs)
  | .sendEncodedFrame .. => none
def encoded (frame : AudioFrame) : Bytes × ℕ := (encode frame.data,frame.timestampMs)
def waiting (s : AudioSending) : List (Bytes × ℕ) :=
  s.events.filterMap audioOf ++ (s.audioFrames.filterMap relay).filterMap audioOf
def upcoming (s : AudioSending) : List PacketizeOrder := handOver s.lastReceivedAudioTsMs s.audioRtpTs s.waiting
def Typed (s : AudioSending) : Prop := ∀ event ∈ s.events, match event with
  | .sendEncodedFrame _ _ codecSpec => codecSpec = .h264
  | .sendEncodedAudioFrame _ _ codecSpec => codecSpec = .g711u

variable {s : AudioSending}
theorem audioOf_relay (frames : List AudioFrame) :
    ((frames.map AudioCaptureEvent.frame).filterMap relay).filterMap audioOf = frames.map encoded := by
  induction frames with
  | nil => rfl
  | cons frame frames ih => exact congrArg (encoded frame :: ·) ih

theorem handle_balance (targetFps : UInt32) {event : MediaTransportEvent} {events : List MediaTransportEvent} (hs : s.Typed)
    (hevents : s.events = event :: events) (rest : List (Bytes × ℕ)) :
    let s' := handle targetFps { s with events := events } event
    s'.Typed ∧ s'.buffer = s.buffer ∧
      s'.audioOrders ++ handOver s'.lastReceivedAudioTsMs s'.audioRtpTs (s'.waiting ++ rest) =
        s.audioOrders ++ handOver s.lastReceivedAudioTsMs s.audioRtpTs (s.waiting ++ rest) := by
  have htyped := hs event (by simp [hevents])
  have hrest : Typed { s with events := events } := fun event' hmem => hs event' (by simp [hevents,hmem])
  cases event with
  | sendEncodedFrame annexbFrame timestampMs codecSpec =>
    obtain rfl : codecSpec = .h264 := htyped
    have hwaiting : s.waiting = waiting { s with events := events } := by
      simp [waiting,hevents,audioOf,List.filterMap_cons]
    simp only [handle]
    split
    · exact ⟨hrest,rfl,by rw [hwaiting]; rfl⟩
    · refine ⟨hrest,rfl,?_⟩
      rw [hwaiting]
      simp [audioOrders,waiting]
  | sendEncodedAudioFrame payload timestampMs codecSpec =>
    obtain rfl : codecSpec = .g711u := htyped
    have hwaiting : s.waiting = (payload,timestampMs) :: waiting { s with events := events } := by
      simp [waiting,hevents,audioOf]
    simp only [handle]
    split
    · next hsame =>
      refine ⟨hrest,rfl,?_⟩
      rw [hwaiting,List.cons_append,handOver,if_pos hsame]
      rfl
    · next hsame =>
      refine ⟨hrest,rfl,?_⟩
      rw [hwaiting,List.cons_append,handOver,if_neg hsame]
      simp [audioOrders,waiting]

theorem run_balance (targetFps : UInt32) (hs : s.Typed) (turns : List AudioTurn) :
    (turns.foldl (step targetFps) s).audioOrders ++ (turns.foldl (step targetFps) s).upcoming =
      s.audioOrders ++ handOver s.lastReceivedAudioTsMs s.audioRtpTs
        (s.waiting ++ (frames s.buffer turns).map encoded) := by
  induction turns generalizing s with
  | nil => simp [upcoming,frames]
  | cons t turns ih =>
    rw [List.foldl_cons]
    cases t with
    | capture muted data clock =>
      refine (ih (s := s.step targetFps (.capture muted data clock)) hs).trans ?_
      simp [step,audioOrders,waiting,frames,audioOf_relay,-List.filterMap_map]
    | streamError e =>
      refine (ih (s := s.step targetFps (.streamError e)) hs).trans ?_
      simp [step,audioOrders,waiting,frames,relay,List.filterMap_cons]
    | encoded annexbFrame timestampMs =>
      refine (ih (s := s.step targetFps (.encoded annexbFrame timestampMs)) ?_).trans ?_
      · intro event hmem
        rcases List.mem_append.mp hmem with hmem | hmem
        · exact hs event hmem
        · rw [List.mem_singleton.mp hmem]
      · simp [step,audioOrders,waiting,frames,audioOf,List.filterMap_cons]
    | drainAudioFrames =>
      simp only [step,frames]
      cases hchannel : s.audioFrames with
      | nil => exact ih hs
      | cons event rest =>
        refine (ih ?_).trans ?_
        · intro event' hmem
          rcases List.mem_append.mp hmem with hmem | hmem
          · exact hs event' hmem
          · cases event with
            | frame frame =>
              rw [List.mem_singleton.mp hmem]
            | error e => simp [relay] at hmem
        · cases event with
          | frame frame => simp [audioOrders,waiting,hchannel,relay,audioOf]
          | error e => simp [audioOrders,waiting,hchannel,relay,List.filterMap_cons]
    | receive =>
      simp only [step,frames]
      cases hevents : s.events with
      | nil => exact ih hs
      | cons event rest =>
        obtain ⟨htyped,hbuffer,hbalance⟩ :=
          handle_balance targetFps hs hevents ((frames s.buffer turns).map encoded)
        refine (ih htyped).trans ?_
        rw [hbuffer]
        exact hbalance

/-- The audio handed to the packetizer, with what the channels still hold, is the captured samples cut into blocks of
160, each once and in order, exactly if no block is stamped with the same millisecond as the block before. -/
theorem captured_audio_sent_iff (targetFps videoRtpTs audioRtpTs : UInt32) (turns : List AudioTurn) :
    let s := run targetFps videoRtpTs audioRtpTs turns
    (s.audioOrders ++ s.upcoming = numbered audioRtpTs ((blocks (captured turns)).map encode) ↔
      (stamps turns).IsChain (· ≠ ·)) ∧
    (s.events = [] → s.audioFrames = [] → s.upcoming = []) := by
  intro s
  refine ⟨?_,fun hevents hframes => by simp [upcoming,waiting,hevents,hframes,handOver]⟩
  have hbalance := run_balance targetFps
    (s := { videoRtpTs := videoRtpTs, audioRtpTs := audioRtpTs }) (by simp [Typed]) turns
  have hpayloads : (blocks (captured turns)).map encode = ((frames [] turns).map encoded).map Prod.fst := by
    rw [← List.nil_append (captured turns), ← data_frames (by simp) turns, List.map_map, List.map_map]
    rfl
  have hstamps : stamps turns = ((frames [] turns).map encoded).map Prod.snd := by
    rw [stamps, List.map_map]
    rfl
  change s.audioOrders ++ s.upcoming = _ at hbalance
  rw [hbalance, hpayloads, hstamps]
  simpa [audioOrders,waiting] using handOver_eq_numbered_iff none audioRtpTs ((frames [] turns).map encoded)

def oneMillisecond : List AudioTurn :=
  [.capture false (List.replicate 320 0) (fun _ => 7), .drainAudioFrames, .drainAudioFrames, .receive, .receive]

theorem second_block_of_a_millisecond_dropped :
    (run 30 0 0 oneMillisecond).events = [] ∧ (run 30 0 0 oneMillisecond).audioFrames = [] ∧
      stamps oneMillisecond = [7,7] ∧ (blocks (captured oneMillisecond)).length = 2 ∧
      (run 30 0 0 oneMillisecond).audioOrders.length = 1 ∧
      (run 30 0 0 oneMillisecond).audioOrders ≠ numbered 0 ((blocks (captured oneMillisecond)).map encode) := by
  have hone : (run 30 0 0 oneMillisecond).audioOrders.length = 1 := by decide +kernel
  have htwo : (blocks (captured oneMillisecond)).length = 2 := by decide +kernel
  refine ⟨List.length_eq_zero_iff.mp (by decide +kernel),List.length_eq_zero_iff.mp (by decide +kernel),
    by decide +kernel,htwo,hone,fun heq => ?_⟩
  have hlength := congrArg List.length heq
  rw [hone, numbered, List.length_mapIdx, List.length_map, htwo] at hlength
  exact absurd hlength (by decide)
end AudioSending
end RustyRtc.Media
