import Mathlib.Data.List.Infix
import RustyRtc.Foundation.Execution

/-! # Playback of received audio

`media_agent/audio_player_worker`: decoded frames come in over a channel, the output device asks for samples, and a
buffer stands between the two. Samples are only moved about, so their type is left open. The lock makes each frame
and each callback one step.
-/
namespace RustyRtc.Media
def maxBufferSize : ℕ := 4000

/-- `data` is what the device has been given so far, `none` where the buffer was empty and silence is played. -/
structure AudioPlayer (α : Type*) where
  buffer : List α := []
  data : List (Option α) := []
  deriving DecidableEq, Repr
inductive PlaybackEvent (α : Type*) where
  | playFrame (samples : List α)
  /-- The device asks for so many samples. -/
  | callback (len : ℕ)
  deriving DecidableEq, Repr
def PlaybackEvent.samples {α : Type*} : PlaybackEvent α → List α
  | .playFrame samples => samples
  | .callback _ => []

namespace AudioPlayer
variable {α : Type*}
def playFrame (buf samples : List α) : List α :=
  let currentLen := buf.length
  let incomingLen := samples.length
  let buf :=
    if currentLen + incomingLen > maxBufferSize then
      let dropCount := currentLen + incomingLen - maxBufferSize
      let toDrop := min dropCount currentLen
      buf.drop toDrop
    else buf
  buf ++ samples

/-- The loop of the output callback: what it writes to the device, and the buffer it leaves. -/
def fill : ℕ → List α → List (Option α) × List α
  | 0,buf => ([],buf)
  | n + 1,s :: buf => let (data,rest) := fill n buf; (some s :: data,rest)
  | n + 1,[] => let (data,rest) := fill n []; (none :: data,rest)
def step (p : AudioPlayer α) : PlaybackEvent α → AudioPlayer α
  | .playFrame samples => { p with buffer := playFrame p.buffer samples }
  | .callback len =>
    let (data,buffer) := fill len p.buffer
    { buffer := buffer, data := p.data ++ data }
def played (p : AudioPlayer α) : List α := p.data.filterMap id

theorem fill_eq (n : ℕ) (buf : List α) :
    fill n buf = ((buf.take n).map some ++ List.replicate (n - buf.length) none,buf.drop n) := by
  induction n generalizing buf with
  | zero => simp [fill]
  | succ n ih =>
    cases buf with
    | nil => simp [fill,ih,List.replicate_succ]
    | cons s buf => simp [fill,ih]

theorem playFrame_eq (buf samples : List α) :
    playFrame buf samples = buf.drop (buf.length + samples.length - maxBufferSize) ++ samples := by
  unfold playFrame
  dsimp only
  split
  · rcases Nat.le_total (buf.length + samples.length - maxBufferSize) buf.length with hle | hle
    · rw [Nat.min_eq_left hle]
    · rw [Nat.min_eq_right hle,List.drop_length,List.drop_eq_nil_of_le hle]
  · next hroom =>
    rw [Nat.sub_eq_zero_of_le (Nat.le_of_not_lt hroom)]
    rfl

theorem length_playFrame (buf samples : List α) :
    (playFrame buf samples).length = max samples.length (min (buf.length + samples.length) maxBufferSize) := by
  rw [playFrame_eq,List.length_append,List.length_drop]
  omega
@[simp] theorem step_callback (p : AudioPlayer α) (len : ℕ) :
    p.step (.callback len) = { buffer := p.buffer.drop len, data := p.data ++ (fill len p.buffer).1 } := by
  simp [step,fill_eq]
theorem played_callback (p : AudioPlayer α) (len : ℕ) :
    (p.step (.callback len)).played = p.played ++ p.buffer.take len := by
  simp [played,fill_eq,-List.map_take,List.filterMap_map]
def received (events : List (PlaybackEvent α)) : List α := events.flatMap (·.samples)

/-- The buffer holds the newest samples, and from the older ones some were played, in their order. -/
def Newest (received : List α) (p : AudioPlayer α) : Prop :=
  ∃ older, received = older ++ p.buffer ∧ p.played.Sublist older

theorem Newest.step {all : List α} {p : AudioPlayer α} (h : Newest all p) (event : PlaybackEvent α) :
    Newest (all ++ event.samples) (p.step event) := by
  obtain ⟨older,rfl,hplayed⟩ := h
  cases event with
  | playFrame samples =>
    -- what is dropped joins the older samples, unplayed
    refine ⟨older ++ p.buffer.take (p.buffer.length + samples.length - maxBufferSize),?_,?_⟩
    · rw [AudioPlayer.step,playFrame_eq,PlaybackEvent.samples,List.append_assoc older,List.append_assoc,
        ← List.append_assoc (List.take _ _),List.take_append_drop]
    · exact hplayed.trans (List.sublist_append_left _ _)
  | callback len =>
    refine ⟨older ++ p.buffer.take len,?_,?_⟩
    · simp [PlaybackEvent.samples]
    · rw [played_callback]
      exact hplayed.append_right _

theorem newest_run (events : List (PlaybackEvent α)) : Newest (received events) (events.foldl step {}) := by
  suffices h : ∀ (all : List α) (p : AudioPlayer α), Newest all p →
      Newest (all ++ received events) (events.foldl step p) from h [] {} ⟨[],rfl, .slnil⟩
  induction events with
  | nil => exact fun all p h => by simpa [received] using h
  | cons event events ih =>
    intro all p h
    simpa [received] using ih _ _ (h.step event)

theorem length_buffer_step {p : AudioPlayer α} {event : PlaybackEvent α} (hp : p.buffer.length ≤ maxBufferSize)
    (hevent : event.samples.length ≤ maxBufferSize) : (p.step event).buffer.length ≤ maxBufferSize := by
  cases event with
  | playFrame samples =>
    rw [step,length_playFrame]
    exact Nat.max_le.mpr ⟨hevent,Nat.min_le_right _ _⟩
  | callback len =>
    rw [step_callback,List.length_drop]
    omega

theorem length_buffer_run {events : List (PlaybackEvent α)} (h : ∀ e ∈ events, e.samples.length ≤ maxBufferSize) :
    (events.foldl step {}).buffer.length ≤ maxBufferSize :=
  (along_of_forall_mem (r := fun e : PlaybackEvent α => e.samples.length ≤ maxBufferSize) h _).invariant
    (I := fun p : AudioPlayer α => p.buffer.length ≤ maxBufferSize) (fun _ _ => length_buffer_step) (Nat.zero_le _)

/-- The buffer never holds more than `maxBufferSize` samples if and only if no frame is longer than that. It
always holds the newest samples, and samples are played in their order and once. -/
theorem playback (events : List (PlaybackEvent α)) :
    ((∀ front, front <+: events → (front.foldl step {}).buffer.length ≤ maxBufferSize) ↔
        ∀ samples, .playFrame samples ∈ events → samples.length ≤ maxBufferSize) ∧
      ∃ older, received events = older ++ (events.foldl step {}).buffer ∧
        (events.foldl step {}).played.Sublist older := by
  refine ⟨⟨?_,?_⟩,newest_run events⟩
  · intro h samples hmem
    obtain ⟨before,after,rfl⟩ := List.append_of_mem hmem
    have hfull := h (before ++ [.playFrame samples]) ⟨after,by simp⟩
    rw [List.foldl_append] at hfull
    refine Nat.le_trans ?_ hfull
    exact Nat.le_trans (Nat.le_max_left _ _) (Nat.le_of_eq (length_playFrame _ samples).symm)
  · intro h front hfront
    refine length_buffer_run fun event hevent => ?_
    cases event with
    | playFrame samples => exact h samples (hfront.subset hevent)
    | callback len => exact Nat.zero_le _

theorem buffer_one_frame (samples : List α) : (([.playFrame samples] : List (PlaybackEvent α)).foldl step {}).buffer.length =
    max samples.length (min samples.length maxBufferSize) := by
  simpa [step] using length_playFrame [] samples

/-- One long frame fills the buffer beyond its limit. -/
theorem long_frame_exceeds_buffer : ∃ samples : List ℕ, samples.length = 4001 ∧
    maxBufferSize < (([.playFrame samples] : List (PlaybackEvent ℕ)).foldl step {}).buffer.length := by
  refine ⟨List.replicate 4001 0,List.length_replicate,?_⟩
  rw [buffer_one_frame, List.length_replicate]
  decide
end AudioPlayer
end RustyRtc.Media
