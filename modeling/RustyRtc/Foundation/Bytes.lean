import Mathlib.Algebra.Group.Nat.Defs

/-! # Byte strings and big-endian fields

Reads outside the string give zero. Callers that mirror slice accesses check the
length first, so the default is never what they read.
-/
namespace RustyRtc
variable {b : Bytes} {i : ℕ}
abbrev Bytes := List UInt8

/-- A property of one byte can be decided on its 256 values. -/
theorem forall_byte {p : UInt8 → Prop} (h : ∀ b : BitVec 8, p ⟨b⟩) (x : UInt8) : p x := h x.toBitVec
def readU16 (b : Bytes) (i : ℕ) : UInt16 :=
  (b.getD i 0).toUInt16 <<< 8 ||| (b.getD (i + 1) 0).toUInt16
def readU32 (b : Bytes) (i : ℕ) : UInt32 :=
  (readU16 b i).toUInt32 <<< 16 ||| (readU16 b (i + 2)).toUInt32
def readU64 (b : Bytes) (i : ℕ) : UInt64 :=
  (readU32 b i).toUInt64 <<< 32 ||| (readU32 b (i + 4)).toUInt64
def beBytes16 (x : UInt16) : Bytes := [(x >>> 8).toUInt8,x.toUInt8]
def beBytes32 (x : UInt32) : Bytes := beBytes16 (x >>> 16).toUInt16 ++ beBytes16 x.toUInt16
def beBytes64 (x : UInt64) : Bytes := beBytes32 (x >>> 32).toUInt32 ++ beBytes32 x.toUInt32
@[simp] theorem beBytes16_length (x : UInt16) : (beBytes16 x).length = 2 := rfl
@[simp] theorem beBytes32_length (x : UInt32) : (beBytes32 x).length = 4 := rfl
@[simp] theorem beBytes64_length (x : UInt64) : (beBytes64 x).length = 8 := rfl
theorem shiftLeft_mod_or {high low : ℕ} (i : ℕ) {w : ℕ} (hlow : low < 2 ^ i) (hhigh : high * 2 ^ i < 2 ^ w) :
    high <<< i % 2 ^ w ||| low = high * 2 ^ i + low := by
  rw [Nat.shiftLeft_eq,Nat.mod_eq_of_lt hhigh,← Nat.shiftLeft_eq,Nat.shiftLeft_add_eq_or_of_lt hlow]
theorem readU16_toNat (b : Bytes) (i : ℕ) :
    (readU16 b i).toNat = (b.getD i 0).toNat * 256 + (b.getD (i + 1) 0).toNat := by
  have hhigh := (b.getD i 0).toNat_lt
  simp only [readU16,UInt16.toNat_or,UInt16.toNat_shiftLeft,UInt8.toNat_toUInt16]
  exact shiftLeft_mod_or 8 (b.getD (i + 1) 0).toNat_lt (by omega)
theorem readU32_toNat (b : Bytes) (i : ℕ) :
    (readU32 b i).toNat = (readU16 b i).toNat * 65536 + (readU16 b (i + 2)).toNat := by
  have hhigh := (readU16 b i).toNat_lt
  simp only [readU32,UInt32.toNat_or,UInt32.toNat_shiftLeft,UInt16.toNat_toUInt32]
  exact shiftLeft_mod_or 16 (readU16 b (i + 2)).toNat_lt (by omega)
theorem readU64_toNat (b : Bytes) (i : ℕ) :
    (readU64 b i).toNat = (readU32 b i).toNat * 4294967296 + (readU32 b (i + 4)).toNat := by
  have hhigh := (readU32 b i).toNat_lt
  simp only [readU64,UInt64.toNat_or,UInt64.toNat_shiftLeft,UInt32.toNat_toUInt64]
  exact shiftLeft_mod_or 32 (readU32 b (i + 4)).toNat_lt (by omega)

theorem readU16_append (h : i + 2 ≤ b.length) (c : Bytes) : readU16 (b ++ c) i = readU16 b i := by
  simp only [readU16,List.getD_eq_getElem?_getD]
  rw [List.getElem?_append_left (by omega),List.getElem?_append_left (by omega)]
theorem readU32_append (h : i + 4 ≤ b.length) (c : Bytes) : readU32 (b ++ c) i = readU32 b i := by
  simp only [readU32]
  rw [readU16_append (by omega),readU16_append (by omega)]
theorem readU16_append_right (b c : Bytes) : readU16 (b ++ c) (b.length + i) = readU16 c i := by
  simp only [readU16,List.getD_eq_getElem?_getD]
  rw [List.getElem?_append_right (by omega),List.getElem?_append_right (by omega)]
  congr 5 <;> omega
theorem readU32_append_right (b c : Bytes) : readU32 (b ++ c) (b.length + i) = readU32 c i := by
  simp only [readU32,Nat.add_assoc,readU16_append_right]
theorem readU16_beBytes16 (x : UInt16) (c : Bytes) : readU16 (beBytes16 x ++ c) 0 = x := by
  apply UInt16.toNat_inj.mp
  have hx := x.toNat_lt
  rw [readU16_toNat]
  simp [beBytes16,Nat.shiftRight_eq_div_pow]
  omega

theorem readU32_beBytes32 (x : UInt32) (c : Bytes) : readU32 (beBytes32 x ++ c) 0 = x := by
  apply UInt32.toNat_inj.mp
  have hx := x.toNat_lt
  have hhigh : readU16 (beBytes32 x ++ c) 0 = (x >>> 16).toUInt16 := by
    rw [beBytes32,List.append_assoc,readU16_beBytes16]
  have hlow : readU16 (beBytes32 x ++ c) (0 + 2) = x.toUInt16 := by
    have h := readU16_append_right (beBytes16 (x >>> 16).toUInt16) (beBytes16 x.toUInt16 ++ c) (i := 0)
    rw [readU16_beBytes16] at h
    simpa [beBytes32,List.append_assoc] using h
  rw [readU32_toNat,hhigh,hlow]
  simp [Nat.shiftRight_eq_div_pow]
  omega

theorem readU64_beBytes64 (x : UInt64) (c : Bytes) : readU64 (beBytes64 x ++ c) 0 = x := by
  apply UInt64.toNat_inj.mp
  have hx := x.toNat_lt
  have hhigh : readU32 (beBytes64 x ++ c) 0 = (x >>> 32).toUInt32 := by
    rw [beBytes64,List.append_assoc,readU32_beBytes32]
  have hlow : readU32 (beBytes64 x ++ c) (0 + 4) = x.toUInt32 := by
    have h := readU32_append_right (beBytes32 (x >>> 32).toUInt32) (beBytes32 x.toUInt32 ++ c) (i := 0)
    rw [readU32_beBytes32] at h
    simpa [beBytes64,List.append_assoc] using h
  rw [readU64_toNat,hhigh,hlow]
  simp [Nat.shiftRight_eq_div_pow]
  omega

/-! What was read can be written back. -/

theorem beBytes16_readU16 (x y : UInt8) (c : Bytes) : beBytes16 (readU16 (x :: y :: c) 0) = [x,y] := by
  have h := readU16_toNat (x :: y :: c) 0
  have hx := x.toNat_lt
  have hy := y.toNat_lt
  simp only [List.getD_cons_zero,List.getD_cons_succ] at h
  rw [beBytes16,List.cons.injEq,List.cons.injEq]
  refine ⟨UInt8.toNat_inj.mp ?_,UInt8.toNat_inj.mp ?_,rfl⟩
  · simp [Nat.shiftRight_eq_div_pow,h]
    omega
  · simp [h]

theorem beBytes32_readU32 (x y z w : UInt8) (c : Bytes) :
    beBytes32 (readU32 (x :: y :: z :: w :: c) 0) = [x,y,z,w] := by
  have h := readU32_toNat (x :: y :: z :: w :: c) 0
  have hhigh := beBytes16_readU16 x y (z :: w :: c)
  have hlow := beBytes16_readU16 z w c
  have hright : readU16 (x :: y :: z :: w :: c) (0 + 2) = readU16 (z :: w :: c) 0 := by
    have h := readU16_append_right [x,y] (z :: w :: c) (i := 0)
    simpa using h
  rw [hright] at h
  have hl := (readU16 (z :: w :: c) 0).toNat_lt
  have hh := (readU16 (x :: y :: z :: w :: c) 0).toNat_lt
  have ehigh : (readU32 (x :: y :: z :: w :: c) 0 >>> 16).toUInt16 = readU16 (x :: y :: z :: w :: c) 0 := by
    apply UInt16.toNat_inj.mp
    simp [Nat.shiftRight_eq_div_pow,h]
    omega
  have elow : (readU32 (x :: y :: z :: w :: c) 0).toUInt16 = readU16 (z :: w :: c) 0 := by
    apply UInt16.toNat_inj.mp
    simp [h]
  rw [beBytes32,ehigh,elow,hhigh,hlow]
  rfl

theorem beBytes64_readU64 (x₀ x₁ x₂ x₃ x₄ x₅ x₆ x₇ : UInt8) (c : Bytes) :
    beBytes64 (readU64 (x₀ :: x₁ :: x₂ :: x₃ :: x₄ :: x₅ :: x₆ :: x₇ :: c) 0) = [x₀,x₁,x₂,x₃,x₄,x₅,x₆,x₇] := by
  have h := readU64_toNat (x₀ :: x₁ :: x₂ :: x₃ :: x₄ :: x₅ :: x₆ :: x₇ :: c) 0
  have hhigh := beBytes32_readU32 x₀ x₁ x₂ x₃ (x₄ :: x₅ :: x₆ :: x₇ :: c)
  have hlow := beBytes32_readU32 x₄ x₅ x₆ x₇ c
  have hright : readU32 (x₀ :: x₁ :: x₂ :: x₃ :: x₄ :: x₅ :: x₆ :: x₇ :: c) (0 + 4) =
      readU32 (x₄ :: x₅ :: x₆ :: x₇ :: c) 0 := by
    have h := readU32_append_right [x₀,x₁,x₂,x₃] (x₄ :: x₅ :: x₆ :: x₇ :: c) (i := 0)
    simpa using h
  rw [hright] at h
  generalize readU64 (x₀ :: x₁ :: x₂ :: x₃ :: x₄ :: x₅ :: x₆ :: x₇ :: c) 0 = word at h ⊢
  generalize readU32 (x₀ :: x₁ :: x₂ :: x₃ :: x₄ :: x₅ :: x₆ :: x₇ :: c) 0 = high at h hhigh
  generalize readU32 (x₄ :: x₅ :: x₆ :: x₇ :: c) 0 = low at h hlow
  have hh := high.toNat_lt
  have hl := low.toNat_lt
  have ehigh : (word >>> 32).toUInt32 = high := by
    apply UInt32.toNat_inj.mp
    simp [Nat.shiftRight_eq_div_pow,h]
    omega
  have elow : word.toUInt32 = low := by
    apply UInt32.toNat_inj.mp
    simp [h]
  rw [beBytes64,ehigh,elow,hhigh,hlow]
  rfl
end RustyRtc
