import RustyRtc.Foundation.Execution
import RustyRtc.Foundation.Text

/-! # The congestion controller

`congestion_controller/congestion_controller_c`, as `core/engine` builds it from the configuration. Durations are in
nanoseconds. What a scaling in `f64` gives is an input. A call that panics gives nothing.
-/
namespace RustyRtc.Core
def initialBitrate : UInt32 := 1500000
def minBitrate : UInt32 := 500000
def maxBitrate : UInt32 := 1500000
def rttThreshold : ℕ := 200 * 1000000
def increaseInterval : ℕ := 1 * 1000000000
structure NetworkMetrics where
  roundTripTime : ℕ
  fractionLost : UInt8
  deriving DecidableEq, Repr

/-- One call: `scaled` is the bitrate after its multiplication with a factor, if there is one. -/
structure MetricsCall where
  metrics : NetworkMetrics
  now : ℕ
  scaled : UInt32
  deriving DecidableEq, Repr

/-- The thresholds and factors are constants. -/
structure CongestionController where
  currentBitrateBps : UInt32
  minBitrateBps : UInt32
  maxBitrateBps : UInt32
  lastUpdate : ℕ
  deriving DecidableEq, Repr

/-- `Ord::clamp`, which asserts that the limits are in order. -/
def clamp (x min max : UInt32) : Option UInt32 :=
  if min ≤ max then some (if x < min then min else if max < x then max else x) else none

namespace CongestionController
def new (initialBitrate minBitrate maxBitrate : UInt32) (now : ℕ) : CongestionController × UInt32 :=
  ({ currentBitrateBps := initialBitrate
     minBitrateBps := minBitrate
     maxBitrateBps := maxBitrate
     lastUpdate := now },initialBitrate)

def onNetworkMetrics (cc : CongestionController) (call : MetricsCall) :
    Option (CongestionController × Option UInt32) :=
  let newBitrate :=
    -- as quotients of single precision these are apart enough for the comparison to be exact
    if 10 * call.metrics.fractionLost.toNat > 255 then call.scaled
    else if call.metrics.roundTripTime > rttThreshold then call.scaled
    else if call.now - cc.lastUpdate > increaseInterval then call.scaled
    else cc.currentBitrateBps
  (clamp newBitrate cc.minBitrateBps cc.maxBitrateBps).map fun newBitrate =>
    if newBitrate ≠ cc.currentBitrateBps then
      ({ cc with currentBitrateBps := newBitrate, lastUpdate := call.now },some newBitrate)
    else (cc,none)

def configured (value : Option Text) (default : UInt32) : UInt32 :=
  (value.bind fun s => (parseU32 s).toOption).getD default
structure Settings where
  minBitrate : Option Text
  maxBitrate : Option Text

namespace Settings
def min (s : Settings) : UInt32 := configured s.minBitrate Core.minBitrate
def max (s : Settings) : UInt32 := configured s.maxBitrate Core.maxBitrate
def controller (s : Settings) (now : ℕ) : CongestionController × UInt32 := new initialBitrate s.min s.max now
def ofLimits (min max : UInt32) : Settings :=
  { minBitrate := some (decimal min.toNat), maxBitrate := some (decimal max.toNat) }
@[simp] theorem min_ofLimits (min max : UInt32) : (ofLimits min max).min = min := by
  simp [Settings.min,ofLimits,configured,parseU32_decimal,Except.toOption]
@[simp] theorem max_ofLimits (min max : UInt32) : (ofLimits min max).max = max := by
  simp [Settings.max,ofLimits,configured,parseU32_decimal,Except.toOption]
end Settings

theorem clamp_eq_some {x min max y : UInt32} (h : clamp x min max = some y) : min ≤ max ∧ min ≤ y ∧ y ≤ max := by
  unfold clamp at h
  split at h
  · next hle =>
    cases h
    refine ⟨hle,?_⟩
    split_ifs with hlow hhigh
    · exact ⟨UInt32.le_refl _,hle⟩
    · exact ⟨hle,UInt32.le_refl _⟩
    · exact ⟨UInt32.not_lt.mp hlow,UInt32.not_lt.mp hhigh⟩
  · cases h

variable {cc cc' : CongestionController} {call : MetricsCall} {announced : Option UInt32}

/-- A call panics if and only if the limits are the wrong way round. -/
theorem isSome_onNetworkMetrics : (cc.onNetworkMetrics call).isSome ↔ cc.minBitrateBps ≤ cc.maxBitrateBps := by
  unfold onNetworkMetrics clamp
  split_ifs <;> simp_all

theorem onNetworkMetrics_spec (h : cc.onNetworkMetrics call = some (cc',announced)) :
    cc'.minBitrateBps = cc.minBitrateBps ∧ cc'.maxBitrateBps = cc.maxBitrateBps ∧
      ∀ bitrate ∈ announced, cc.minBitrateBps ≤ bitrate ∧ bitrate ≤ cc.maxBitrateBps := by
  obtain ⟨newBitrate,hclamp,hresult⟩ := Option.map_eq_some_iff.mp h
  split at hresult
  · cases hresult
    refine ⟨rfl,rfl,fun bitrate hbitrate => ?_⟩
    cases hbitrate
    exact (clamp_eq_some hclamp).2
  · cases hresult
    exact ⟨rfl,rfl,by simp⟩

def announcements (h : List (MetricsCall × Option UInt32)) : List UInt32 := h.filterMap (·.2)

theorem trace_isSome (calls : List MetricsCall) (cc : CongestionController) :
    (trace onNetworkMetrics cc calls).isSome ↔ calls = [] ∨ cc.minBitrateBps ≤ cc.maxBitrateBps := by
  induction calls generalizing cc with
  | nil => simp [trace]
  | cons call calls ih =>
    rw [trace]
    cases hcall : cc.onNetworkMetrics call with
    | none =>
      have hpanic := @isSome_onNetworkMetrics cc call
      simpa [hcall] using hpanic
    | some r =>
      obtain ⟨hmin,hmax,-⟩ := onNetworkMetrics_spec hcall
      have hle := isSome_onNetworkMetrics.mp (Option.isSome_of_mem hcall)
      simp [ih,hmin,hmax,hle]

theorem announcements_trace {calls : List MetricsCall} {cc : CongestionController}
    {h : List (MetricsCall × Option UInt32)} (ht : trace onNetworkMetrics cc calls = some (h,cc')) :
    ∀ bitrate ∈ announcements h, cc.minBitrateBps ≤ bitrate ∧ bitrate ≤ cc.maxBitrateBps := by
  induction calls generalizing cc h with
  | nil =>
    cases ht
    simp [announcements]
  | cons call calls ih =>
    rw [trace] at ht
    cases hcall : cc.onNetworkMetrics call with
    | none => simp [hcall] at ht
    | some r =>
      rw [hcall] at ht
      obtain ⟨⟨h₁,cc₁⟩,hrest,heq⟩ := Option.map_eq_some_iff.mp ht
      cases heq
      obtain ⟨hmin,hmax,hone⟩ := onNetworkMetrics_spec hcall
      have hlater := ih hrest
      rw [hmin,hmax] at hlater
      intro bitrate hbitrate
      obtain ⟨x,hx,hannounced⟩ := List.mem_filterMap.mp hbitrate
      rcases List.mem_cons.mp hx with rfl | hx
      · exact hone bitrate hannounced
      · exact hlater bitrate (List.mem_filterMap.mpr ⟨x,hx,hannounced⟩)

/-- The engine's controller survives its calls if and only if the configured minimum is at most the maximum. Then
all it announces lies between the two if and only if the first bitrate does, which is a constant. -/
theorem controller_within_limits (s : Settings) (start : ℕ) (calls : List MetricsCall) :
    ((trace onNetworkMetrics (s.controller start).1 calls).isSome ↔ calls = [] ∨ s.min ≤ s.max) ∧
      ∀ h cc, trace onNetworkMetrics (s.controller start).1 calls = some (h,cc) →
        ((∀ bitrate ∈ (s.controller start).2 :: announcements h, s.min ≤ bitrate ∧ bitrate ≤ s.max) ↔
          s.min ≤ initialBitrate ∧ initialBitrate ≤ s.max) := by
  refine ⟨trace_isSome calls _,fun h cc ht => ?_⟩
  have hlater : ∀ bitrate ∈ announcements h, s.min ≤ bitrate ∧ bitrate ≤ s.max := announcements_trace ht
  rw [List.forall_mem_cons]
  exact and_iff_left hlater

def quietCall : MetricsCall := { metrics := { roundTripTime := 0, fractionLost := 0 }, now := 0, scaled := 0 }

/-- Limits the wrong way round make the first call panic. A maximum below the first bitrate is exceeded by it. -/
theorem configured_limits_violated :
    (∃ s : Settings, s.max < s.min ∧ trace onNetworkMetrics (s.controller 0).1 [quietCall] = none) ∧
      ∃ s : Settings, s.min ≤ s.max ∧ s.max < (s.controller 0).2 := by
  refine ⟨⟨.ofLimits 2 1,?_⟩,⟨.ofLimits 1 1000000,?_⟩⟩
  · simp [trace,onNetworkMetrics,Settings.controller,new,clamp]
  · simp [Settings.controller,new,initialBitrate]
end CongestionController
end RustyRtc.Core
