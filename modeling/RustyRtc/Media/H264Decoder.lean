import Mathlib.Algebra.Order.Floor.Div
import Mathlib.GroupTheory.GroupAction.Ring
import RustyRtc.Foundation.Slices

/-! # Decoded frames with aligned rows

`yuv_to_yuv420frame` of `media_agent/h264_decoder.rs`. The three planes of a decoded picture are copied row by row
into buffers whose rows have a multiple of 256 bytes. The decoder library is outside the model; what it hands over is
a picture with any dimensions, strides and planes.
-/
namespace RustyRtc.Media
open Checked

/-- What the methods of the library's picture return. -/
structure DecodedYUV where
  dimensions : ℕ × ℕ
  strides : ℕ × ℕ × ℕ
  y : Bytes
  u : Bytes
  v : Bytes
  timestamp : ℕ

inductive FrameFormat where
  | rgb | yuv420
  deriving DecidableEq, Repr
inductive VideoFrameData where
  | rgb (data : Bytes)
  | yuv420 (y u v : Bytes) (yStride uStride vStride : ℕ)
  deriving DecidableEq, Repr

structure VideoFrame where
  width : UInt32
  height : UInt32
  timestampMs : ℕ
  format : FrameFormat
  data : VideoFrameData
  deriving DecidableEq, Repr

def alignment : ℕ := 256
def alignedStride (width : ℕ) : ℕ := width ⌈/⌉ alignment * alignment

/-- One round of the loop over the rows of a plane. -/
def copyRow (src : Bytes) (w strideOrig strideNew : ℕ) (plane : Bytes) (row : ℕ) : Checked Empty Bytes := do
  let srcStart := row * strideOrig
  let dstStart := row * strideNew
  copyFromSlice plane dstStart (dstStart + w) (← slice src srcStart (srcStart + w))
def copyPlane (src : Bytes) (w h strideOrig strideNew : ℕ) : Checked Empty Bytes :=
  (List.range h).foldlM (copyRow src w strideOrig strideNew) (List.replicate (strideNew * h) 0)

def yuvToYuv420frame (nowMillis : ℕ) (yuv : DecodedYUV) : Checked Empty VideoFrame := do
  let (w,h) := yuv.dimensions
  let (yStrideOrig,uStrideOrig,vStrideOrig) := yuv.strides
  let yStrideNew := alignedStride w
  let uvW := w ⌈/⌉ 2
  let uStrideNew := alignedStride uvW
  let vStrideNew := alignedStride uvW
  let uvH := h ⌈/⌉ 2
  let yPlane ← copyPlane yuv.y w h yStrideOrig yStrideNew
  let uPlane ← copyPlane yuv.u uvW uvH uStrideOrig uStrideNew
  let vPlane ← copyPlane yuv.v uvW uvH vStrideOrig vStrideNew
  return {
    width := .ofNat w
    height := .ofNat h
    timestampMs := if yuv.timestamp = 0 then nowMillis else yuv.timestamp
    format := .yuv420
    data := .yuv420 yPlane uPlane vPlane yStrideNew uStrideNew vStrideNew }

theorem alignedStride_isLeast (width : ℕ) : IsLeast {n | alignment ∣ n ∧ width ≤ n} (alignedStride width) := by
  have hle : ∀ c, width ⌈/⌉ alignment ≤ c ↔ width ≤ alignment * c := fun c =>
    ceilDiv_le_iff_le_mul (by decide)
  constructor
  · refine ⟨Nat.dvd_mul_left .. ,?_⟩
    rw [alignedStride,Nat.mul_comm]
    exact (hle _).mp le_rfl
  · rintro _ ⟨⟨c,rfl⟩,hc⟩
    rw [alignedStride,Nat.mul_comm]
    exact Nat.mul_le_mul_left _ ((hle c).mpr hc)

section Rows
variable {α : Type*} {f : ℕ → List α} {s : ℕ}
theorem length_rows {h : ℕ} (hf : ∀ row < h, (f row).length = s) : ((List.range h).flatMap f).length = h * s := by
  induction h with
  | zero => simp
  | succ h ih =>
    rw [List.range_succ, List.flatMap_append, List.length_append, ih fun row hrow => hf row (by omega),
      List.flatMap_singleton, hf h (by omega), Nat.succ_mul]

/-- In rows of one length, row and column give the place. -/
theorem getElem?_rows {h row col : ℕ} (hf : ∀ row < h, (f row).length = s) (hrow : row < h) (hcol : col < s) :
    ((List.range h).flatMap f)[row * s + col]? = (f row)[col]? := by
  induction h with
  | zero => omega
  | succ h ih =>
    have hlen := length_rows fun row hrow => hf row (Nat.lt_succ_of_lt hrow)
    rw [List.range_succ,List.flatMap_append,List.flatMap_singleton]
    by_cases hlast : row = h
    · subst hlast
      rw [← hlen,List.getElem?_append_right (Nat.le_add_right ..),Nat.add_sub_cancel_left]
    · have hroom : (row + 1) * s ≤ h * s := Nat.mul_le_mul_right s (by omega)
      rw [Nat.succ_mul] at hroom
      rw [List.getElem?_append_left (by omega)]
      exact ih (fun row hrow => hf row (by omega)) (by omega)
end Rows

/-- The plane is long enough for its rows. -/
def HasRows (src : Bytes) (w h stride : ℕ) : Prop := ∀ row < h, row * stride + w ≤ src.length
instance (src : Bytes) (w h stride : ℕ) : Decidable (HasRows src w h stride) :=
  inferInstanceAs (Decidable (∀ row < h, row * stride + w ≤ src.length))
def alignedRow (src : Bytes) (w strideOrig strideNew row : ℕ) : Bytes :=
  (src.drop (row * strideOrig)).take w ++ List.replicate (strideNew - w) 0

section Planes
variable {src : Bytes} {w h strideOrig strideNew : ℕ} (hsrc : HasRows src w h strideOrig) (hw : w ≤ strideNew)
include hsrc hw

theorem length_alignedRow {row : ℕ} (hrow : row < h) : (alignedRow src w strideOrig strideNew row).length = strideNew := by
  have := hsrc row hrow
  simp only [alignedRow,List.length_append,List.length_take,List.length_drop,List.length_replicate]
  omega

/-- A round of the loop turns the first of the rows still empty into the row of the source. -/
theorem copyRow_eq {row : ℕ} {front : Bytes} (hrow : row < h) (hfront : front.length = row * strideNew) (back : Bytes) :
    copyRow src w strideOrig strideNew (front ++ (List.replicate strideNew 0 ++ back)) row =
      pure (front ++ (alignedRow src w strideOrig strideNew row ++ back)) := by
  have hroom := hsrc row hrow
  have hfield : ((src.drop (row * strideOrig)).take w).length = (List.replicate w (0 : UInt8)).length := by
    simp
    omega
  have hsplit : List.replicate strideNew (0 : UInt8) = List.replicate w 0 ++ List.replicate (strideNew - w) 0 := by
    rw [List.replicate_append_replicate,Nat.add_sub_of_le hw]
  have hcopy := copyFromSlice_append (ε := Empty) front (List.replicate (strideNew - w) 0 ++ back) hfield
  rw [List.length_replicate,hfront] at hcopy
  rw [copyRow,slice_eq (by omega) hroom,pure_bind,List.drop_take,Nat.add_sub_cancel_left,hsplit,List.append_assoc,
    hcopy,alignedRow,List.append_assoc]

theorem copyPlane_eq :
    copyPlane src w h strideOrig strideNew = pure ((List.range h).flatMap (alignedRow src w strideOrig strideNew)) := by
  -- after `k` rows the others are still zero
  have hloop : ∀ k ≤ h, (List.range k).foldlM (copyRow src w strideOrig strideNew) (List.replicate (strideNew * h) 0) =
      pure ((List.range k).flatMap (alignedRow src w strideOrig strideNew) ++ List.replicate (strideNew * (h - k)) 0) := by
    intro k hk
    induction k with
    | zero => simp
    | succ k ih =>
      have hlen := length_rows fun row hrow => length_alignedRow hsrc hw (Nat.lt_of_lt_of_le hrow (Nat.le_of_succ_le hk))
      have hrest : List.replicate (strideNew * (h - k)) (0 : UInt8) =
          List.replicate strideNew 0 ++ List.replicate (strideNew * (h - (k + 1))) 0 := by
        rw [List.replicate_append_replicate,show h - k = h - (k + 1) + 1 by omega,Nat.mul_succ,Nat.add_comm]
      rw [List.range_succ,List.foldlM_append,ih (by omega),pure_bind,hrest,List.foldlM_cons,
        copyRow_eq hsrc hw hk hlen,pure_bind,List.foldlM_nil,List.flatMap_append,List.flatMap_singleton,
        List.append_assoc]
  have hall := hloop h le_rfl
  rwa [Nat.sub_self,Nat.mul_zero,List.replicate_zero,List.append_nil] at hall
end Planes

/-- `plane` holds the pixels of `src` in rows of `stride` bytes, with zeros behind each row. -/
structure Realigned (src : Bytes) (w h strideOrig : ℕ) (plane : Bytes) (stride : ℕ) : Prop where
  least : IsLeast {n | 256 ∣ n ∧ w ≤ n} stride
  length : plane.length = stride * h
  pixel : ∀ row < h, ∀ col < w, ∃ b, src[row * strideOrig + col]? = some b ∧ plane[row * stride + col]? = some b
  padding : ∀ row < h, ∀ col, w ≤ col → col < stride → plane[row * stride + col]? = some 0

theorem realigned_copyPlane {src : Bytes} {w h strideOrig : ℕ} (hsrc : HasRows src w h strideOrig) :
    ∃ plane, copyPlane src w h strideOrig (alignedStride w) = pure plane ∧
      Realigned src w h strideOrig plane (alignedStride w) := by
  have hleast := alignedStride_isLeast w
  have hw := hleast.1.2
  have hrows : ∀ row < h, (alignedRow src w strideOrig (alignedStride w) row).length = alignedStride w :=
    fun row hrow => length_alignedRow hsrc hw hrow
  refine ⟨_,copyPlane_eq hsrc hw,hleast,?_,fun row hrow col hcol => ?_,fun row hrow col hcol hstride => ?_⟩
  · rw [length_rows hrows,Nat.mul_comm]
  · have hroom := hsrc row hrow
    refine ⟨src.get ⟨row * strideOrig + col,by omega⟩,List.getElem?_eq_getElem _,?_⟩
    rw [getElem?_rows hrows hrow (by omega),alignedRow,List.getElem?_append_left (by simp; omega),
      List.getElem?_take_of_lt hcol,List.getElem?_drop]
    exact List.getElem?_eq_getElem _
  · have hroom := hsrc row hrow
    have hlen : ((src.drop (row * strideOrig)).take w).length = w := by
      simp
      omega
    rw [getElem?_rows hrows hrow hstride,alignedRow,List.getElem?_append_right (by omega),
      List.getElem?_replicate_of_lt (by omega)]

/-- No access is out of range, and all three planes come out realigned. Nothing is asked of the strides
of the source but that the rows are there; they may even overlap. -/
theorem yuvToYuv420frame_realigns (nowMillis : ℕ) (yuv : DecodedYUV)
    (hy : HasRows yuv.y yuv.dimensions.1 yuv.dimensions.2 yuv.strides.1)
    (hu : HasRows yuv.u (yuv.dimensions.1 ⌈/⌉ 2) (yuv.dimensions.2 ⌈/⌉ 2) yuv.strides.2.1)
    (hv : HasRows yuv.v (yuv.dimensions.1 ⌈/⌉ 2) (yuv.dimensions.2 ⌈/⌉ 2) yuv.strides.2.2) :
    ∃ frame y u v yStride uStride vStride, yuvToYuv420frame nowMillis yuv = pure frame ∧
      frame.data = .yuv420 y u v yStride uStride vStride ∧
      Realigned yuv.y yuv.dimensions.1 yuv.dimensions.2 yuv.strides.1 y yStride ∧
      Realigned yuv.u (yuv.dimensions.1 ⌈/⌉ 2) (yuv.dimensions.2 ⌈/⌉ 2) yuv.strides.2.1 u uStride ∧
      Realigned yuv.v (yuv.dimensions.1 ⌈/⌉ 2) (yuv.dimensions.2 ⌈/⌉ 2) yuv.strides.2.2 v vStride := by
  obtain ⟨y,hcopyY,hrealY⟩ := realigned_copyPlane hy
  obtain ⟨u,hcopyU,hrealU⟩ := realigned_copyPlane hu
  obtain ⟨v,hcopyV,hrealV⟩ := realigned_copyPlane hv
  have hframe : yuvToYuv420frame nowMillis yuv = pure ⟨.ofNat yuv.dimensions.1, .ofNat yuv.dimensions.2,
      if yuv.timestamp = 0 then nowMillis else yuv.timestamp, .yuv420, .yuv420 y u v (alignedStride yuv.dimensions.1)
        (alignedStride (yuv.dimensions.1 ⌈/⌉ 2)) (alignedStride (yuv.dimensions.1 ⌈/⌉ 2))⟩ := by
    simp only [yuvToYuv420frame, hcopyY, hcopyU, hcopyV, pure_bind]
  exact ⟨_,y,u,v,_,_,_,hframe,rfl,hrealY,hrealU,hrealV⟩

/-- Three by three pixels, so that the chroma planes are rounded up. -/
def oddPicture : DecodedYUV :=
  ⟨(3,3),(4,2,3),[1,2,3,0,4,5,6,0,7,8,9],[10,11,12,13],[14,15,0,16,17],0⟩
theorem oddPicture_realigned : ∃ frame y u v yStride uStride vStride, yuvToYuv420frame 5 oddPicture = pure frame ∧
    frame.data = .yuv420 y u v yStride uStride vStride ∧ Realigned oddPicture.y 3 3 4 y yStride ∧
    Realigned oddPicture.u 2 2 2 u uStride ∧ Realigned oddPicture.v 2 2 3 v vStride :=
  yuvToYuv420frame_realigns 5 oddPicture (by decide) (by decide) (by decide)
end RustyRtc.Media
