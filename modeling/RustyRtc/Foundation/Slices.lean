import RustyRtc.Foundation.Codec

/-! # Decoders that index a slice

A decoder written over a slice keeps a position and takes fields at offsets from it. An access
outside the slice is neither a value nor an error: the computation has no result. Such a decoder
agrees with a reader of lists if it gives the same value or the same error, and stops at a
position of the slice where the reader leaves off. Agreement is built up along the code; it
includes that no access is out of range.
-/
namespace RustyRtc

/-- A result, an error of the code itself, or `none` where an access is out of range. -/
abbrev Checked (ε α : Type) := ExceptT ε Option α

namespace Checked
variable {ε α β : Type} {f : Bytes → Checked ε (α × ℕ)} {r : Reader ε α} {idx : ℕ} {body : ℕ → Checked ε (α × ℕ)}
variable {n width : ℕ} {p q : Prop}
def outOfRange : Checked ε α := (none : Option (Except ε α))

/-- `b[i]` -/
def index (b : Bytes) (i : ℕ) : Checked ε UInt8 := if i < b.length then pure (b.getD i 0) else outOfRange

/-- `b[i..j]` -/
def slice (b : Bytes) (i j : ℕ) : Checked ε Bytes :=
  if i ≤ j ∧ j ≤ b.length then pure ((b.take j).drop i) else outOfRange

/-- `b[i..]` -/
def sliceFrom (b : Bytes) (i : ℕ) : Checked ε Bytes := slice b i b.length

/-- `b[i..j].copy_from_slice(field)` -/
def copyFromSlice (b : Bytes) (i j : ℕ) (field : Bytes) : Checked ε Bytes :=
  if i ≤ j ∧ j ≤ b.length ∧ field.length = j - i then pure (b.take i ++ (field ++ b.drop j)) else outOfRange
def sub (m n : ℕ) : Checked ε ℕ := if n ≤ m then pure (m - n) else outOfRange
def array (n : ℕ) (bad : ε) (b : Bytes) : Checked ε Bytes := if b.length = n then pure b else throw bad
def u16At (b : Bytes) (i : ℕ) (bad : ε) : Checked ε UInt16 := do
  let field ← array 2 bad (← slice b i (i + 2))
  return readU16 field 0
def u32At (b : Bytes) (i : ℕ) (bad : ε) : Checked ε UInt32 := do
  let field ← array 4 bad (← slice b i (i + 4))
  return readU32 field 0

theorem bind_eq_pure {m : Checked ε α} {f : α → Checked ε β} {y : β} :
    m >>= f = pure y ↔ ∃ x, m = pure x ∧ f x = pure y := by
  constructor
  · intro h
    match m, h with
    | some (.ok x), h => exact ⟨x,rfl,h⟩
  · rintro ⟨x,rfl,hf⟩
    rw [pure_bind,hf]

section InRange
variable {b : Bytes} {i j : ℕ} {bad : ε}
theorem index_eq (h : i < b.length) : (index b i : Checked ε UInt8) = pure (b.getD i 0) := if_pos h
theorem slice_eq (h : i ≤ j) (hj : j ≤ b.length) : (slice b i j : Checked ε Bytes) = pure ((b.take j).drop i) :=
  if_pos ⟨h,hj⟩
theorem sliceFrom_eq (h : i ≤ b.length) : (sliceFrom b i : Checked ε Bytes) = pure (b.drop i) := by
  rw [sliceFrom,slice_eq h (Nat.le_refl _),List.take_length]

/-- A write between two parts of a slice leaves them as they are. -/
theorem copyFromSlice_append {old field : Bytes} (front back : Bytes) (h : field.length = old.length) :
    (copyFromSlice (front ++ (old ++ back)) front.length (front.length + old.length) field : Checked ε Bytes) =
      pure (front ++ (field ++ back)) := by
  rw [copyFromSlice,if_pos ⟨by omega,by simp,by omega⟩,List.take_left,← List.drop_drop,List.drop_left,List.drop_left]
theorem sub_eq {m : ℕ} (h : n ≤ m) : (sub m n : Checked ε ℕ) = pure (m - n) := if_pos h
theorem drop_cons (h : i < b.length) : b.drop i = b.getD i 0 :: b.drop (i + 1) := by
  rw [List.drop_eq_getElem_cons h,List.getD_eq_getElem?_getD,List.getElem?_eq_getElem h]
  rfl
theorem readU16_take (b : Bytes) (i : ℕ) : readU16 ((b.drop i).take 2) 0 = readU16 b i := by simp [readU16]
theorem readU32_take (b : Bytes) (i : ℕ) : readU32 ((b.drop i).take 4) 0 = readU32 b i := by
  simp [readU32,readU16,Nat.add_assoc]
theorem array_slice (h : i + n ≤ b.length) :
    (slice b i (i + n) >>= fun field => array n bad field) = pure ((b.drop i).take n) := by
  rw [slice_eq (by omega) h,pure_bind,List.drop_take,Nat.add_sub_cancel_left]
  exact if_pos (by rw [List.length_take,List.length_drop]; omega)

theorem u16At_eq (h : i + 2 ≤ b.length) : u16At b i bad = pure (readU16 b i) := by
  rw [u16At,← bind_assoc,array_slice h,pure_bind,readU16_take]
theorem u32At_eq (h : i + 4 ≤ b.length) : u32At b i bad = pure (readU32 b i) := by
  rw [u32At,← bind_assoc,array_slice h,pure_bind,readU32_take]
end InRange

theorem ok_bind (x : α) (f : α → Except ε β) : (Except.ok x >>= f) = f x := rfl

section Fields
variable {b : Bytes} {i : ℕ} {short : ε}
theorem run_take (n : ℕ) (h : n ≤ b.length) : (Codec.take short n).run b = .ok (b.take n,b.drop n) :=
  if_neg (by omega)
theorem run_u8 (h : i + 1 ≤ b.length) : (Codec.u8 short).get.run (b.drop i) = .ok (b.getD i 0,b.drop (i + 1)) := by
  simp only [Codec.u8,Codec.fixed,map_eq_pure_bind]
  rw [Reader.run_bind_of_ok (run_take 1 (by rw [List.length_drop]; omega)),List.drop_drop,StateT.run_pure]
  simp [pure,Except.pure]
theorem run_u16 (h : i + 2 ≤ b.length) : (Codec.u16 short).get.run (b.drop i) = .ok (readU16 b i,b.drop (i + 2)) := by
  simp only [Codec.u16,Codec.fixed,map_eq_pure_bind]
  rw [Reader.run_bind_of_ok (run_take 2 (by rw [List.length_drop]; omega)),List.drop_drop,StateT.run_pure,
    readU16_take]
  rfl
theorem run_u32 (h : i + 4 ≤ b.length) : (Codec.u32 short).get.run (b.drop i) = .ok (readU32 b i,b.drop (i + 4)) := by
  simp only [Codec.u32,Codec.fixed,map_eq_pure_bind]
  rw [Reader.run_bind_of_ok (run_take 4 (by rw [List.length_drop]; omega)),List.drop_drop,StateT.run_pure,
    readU32_take]
  rfl
theorem drop_eq_beBytes16 (h : i + 2 ≤ b.length) : b.drop i = beBytes16 (readU16 b i) ++ b.drop (i + 2) := by
  obtain ⟨-,c,hc,hb⟩ := (Codec.u16 ()).law.mp (run_u16 h)
  cases hc
  exact hb
theorem drop_eq_beBytes32 (h : i + 4 ≤ b.length) : b.drop i = beBytes32 (readU32 b i) ++ b.drop (i + 4) := by
  obtain ⟨-,c,hc,hb⟩ := (Codec.u32 ()).law.mp (run_u32 h)
  cases hc
  exact hb
end Fields

/-- The same value at a position of the slice where the reader leaves off, or the same error. -/
inductive Agree (buf : Bytes) : Checked ε (α × ℕ) → Except ε (α × Bytes) → Prop
  | error (e : ε) : Agree buf (throw e) (.error e)
  | ok (x : α) {idx : ℕ} (h : idx ≤ buf.length) : Agree buf (pure (x,idx)) (.ok (x,buf.drop idx))

variable {buf : Bytes} {m : Checked ε (α × ℕ)} {s : Except ε (α × Bytes)}
theorem Agree.bind (h : Agree buf m s) {f : α × ℕ → Checked ε (β × ℕ)} {g : α × Bytes → Except ε (β × Bytes)}
    (hf : ∀ x idx, idx ≤ buf.length → s = .ok (x,buf.drop idx) → Agree buf (f (x,idx)) (g (x,buf.drop idx))) :
    Agree buf (m >>= f) (s >>= g) := by
  cases h with
  | error e => exact .error e
  | ok x h => exact hf x _ h rfl

theorem Agree.guard [Decidable p] [Decidable q] (hpq : p ↔ q) (e : ε) (h : ¬ p → Agree buf m s) :
    Agree buf (if p then throw e else m) (if q then .error e else s) := by
  by_cases hp : p
  · rw [if_pos hp,if_pos (hpq.mp hp)]
    exact .error e
  · rw [if_neg hp, if_neg fun hq => hp (hpq.mpr hq)]
    exact h hp

theorem Agree.atLeast {e : ε} (h : ¬ buf.length < n → Agree buf m (r.run buf)) :
    Agree buf (if buf.length < n then throw e else m) ((r.atLeast n e).run buf) := .guard Iff.rfl e h

theorem guard_eq [Decidable p] [Decidable q] (hpq : p ↔ q) (e : ε) {m : Checked ε β} {f : α → β}
    {s : Except ε α} (h : ¬ p → m = some (f <$> s)) :
    (if p then throw e else m) = some (f <$> if q then .error e else s) := by
  by_cases hp : p
  · rw [if_pos hp,if_pos (hpq.mp hp)]
    rfl
  · rw [if_neg hp, if_neg fun hq => hp (hpq.mpr hq)]
    exact h hp

theorem Agree.finish (h : Agree buf m s) {f : α × ℕ → Checked ε β} {g : α × Bytes → Except ε β}
    (hf : ∀ x idx, idx ≤ buf.length → s = .ok (x,buf.drop idx) → f (x,idx) = some (g (x,buf.drop idx))) :
    m >>= f = some (s >>= g) := by
  cases h with
  | error e => rfl
  | ok x h => exact hf x _ h rfl

/-- A decoder of a whole slice, which does not say how much of it was used. -/
def Takes (f : Bytes → Checked ε α) (r : Reader ε α) : Prop := ∀ b, f b = some (Prod.fst <$> r.run b)
theorem Takes.atLeast {e : ε} {f : Bytes → Checked ε α} (h : ∀ b, ¬ b.length < n → f b = some (Prod.fst <$> r.run b)) :
    Takes (fun b => if b.length < n then throw e else f b) (r.atLeast n e) := fun b => guard_eq Iff.rfl e (h b)

/-- A decoder that is given its own slice and says how much of it was used. -/
def Decodes (f : Bytes → Checked ε (α × ℕ)) (r : Reader ε α) : Prop := ∀ b, Agree b (f b) (r.run b)
def advance (f : Bytes → Checked ε (α × ℕ)) (buf : Bytes) (idx : ℕ) : Checked ε (α × ℕ) := do
  let (x,used) ← f (← sliceFrom buf idx)
  return (x,idx + used)

theorem Decodes.advance (h : Decodes f r)
    (hidx : idx ≤ buf.length) : Agree buf (advance f buf idx) (r.run (buf.drop idx)) := by
  rw [Checked.advance,sliceFrom_eq hidx,pure_bind]
  generalize hm : f (buf.drop idx) = m
  generalize hs : r.run (buf.drop idx) = s
  have hagree : Agree (buf.drop idx) m s := hm ▸ hs ▸ h (buf.drop idx)
  cases hagree with
  | error e => exact .error e
  | ok x hused =>
    rename_i used
    rw [List.drop_drop]
    rw [List.length_drop] at hused
    exact .ok x (by omega)

theorem Decodes.used_pos (h : Decodes f r) (hr : r.Consumes)
    {b : Bytes} {x : α} {used : ℕ} (hf : f b = pure (x,used)) : 0 < used := by
  have hagree := h b
  generalize hs : r.run b = s at hagree
  rw [hf] at hagree
  cases hagree with
  | ok _ hused =>
    have hlt := hr b x _ hs
    rw [List.length_drop] at hlt
    omega

/-- `for _ in 0..n`, the values collected. -/
def forTimes (body : ℕ → Checked ε (α × ℕ)) : ℕ → ℕ → Checked ε (List α × ℕ)
  | 0, idx => return ([],idx)
  | n + 1, idx => do
    let (x,idx) ← body idx
    let (xs,idx) ← forTimes body n idx
    return (x :: xs,idx)

theorem forTimes_agree (h : ∀ idx ≤ buf.length, Agree buf (body idx) (r.run (buf.drop idx))) (n : ℕ)
    (hidx : idx ≤ buf.length) : Agree buf (forTimes body n idx) ((r.readMany n).run (buf.drop idx)) := by
  induction n generalizing idx with
  | zero => exact .ok [] hidx
  | succ n ih =>
    rw [forTimes,Reader.readMany,StateT.run_bind]
    refine (h idx hidx).bind fun x idx hidx _ => ?_
    rw [StateT.run_bind]
    exact (ih hidx).bind fun xs idx hidx _ => .ok (x :: xs) hidx

theorem forTimes_fixed {field : ℕ → α}
    (hbody : ∀ idx, idx + width ≤ buf.length → body idx = pure (field idx,idx + width))
    (hr : ∀ idx, idx + width ≤ buf.length → r.run (buf.drop idx) = .ok (field idx,buf.drop (idx + width)))
    (n : ℕ) (hroom : idx + n * width ≤ buf.length) :
    Agree buf (forTimes body n idx) ((r.readMany n).run (buf.drop idx)) := by
  induction n generalizing idx with
  | zero => exact .ok [] (by omega)
  | succ n ih =>
    rw [Nat.add_mul,Nat.one_mul] at hroom
    rw [forTimes,hbody idx (by omega),pure_bind,Reader.readMany,Reader.run_bind_of_ok (hr idx (by omega)),
      StateT.run_bind]
    exact (ih (by omega)).bind fun xs idx hidx _ => .ok (field _ :: xs) hidx

theorem idx_of_forTimes (hbody : ∀ idx x idx', body idx = pure (x,idx') → idx' = idx + width) {idx' : ℕ} {xs : List α}
    (h : forTimes body n idx = pure (xs,idx')) : idx' = idx + n * width := by
  induction n generalizing idx xs with
  | zero =>
    cases h
    omega
  | succ n ih =>
    obtain ⟨⟨x,idx₁⟩,hx,h⟩ := bind_eq_pure.mp h
    obtain ⟨⟨rest,idx₂⟩,hrest,hret⟩ := bind_eq_pure.mp h
    cases hret
    rw [ih hrest,hbody idx x idx₁ hx,Nat.succ_mul]
    omega

def Advances (body : ℕ → Checked ε (α × ℕ)) : Prop := ∀ idx x idx', body idx = pure (x,idx') → idx < idx'

theorem Decodes.advances (h : Decodes f r) (hr : r.Consumes) (buf : Bytes) : Advances (Checked.advance f buf) := by
  intro idx x idx' hadvance
  obtain ⟨b,-,hrest⟩ := bind_eq_pure.mp hadvance
  obtain ⟨⟨y,used⟩,hf,hret⟩ := bind_eq_pure.mp hrest
  have hused := h.used_pos hr hf
  cases hret
  omega

/-- `while idx + least <= len`, the values collected, and an error unless the loop ends at the end. -/
def whileLeft (len least : ℕ) (hleast : 0 < least) (left : ε) (body : ℕ → Checked ε (α × ℕ))
    (hbody : Advances body) (idx : ℕ) : Checked ε (List α) :=
  if idx + least ≤ len then
    match _h : body idx with
    | none => outOfRange
    | some (.error e) => throw e
    | some (.ok (x,idx')) => do
      let xs ← whileLeft len least hleast left body hbody idx'
      return x :: xs
  else if idx ≠ len then throw left
  else return []
termination_by len - idx
decreasing_by
  have := hbody idx x idx' _h
  omega

theorem whileLeft_eq {least : ℕ} {hleast : 0 < least} {left : ε} {hbody : Advances body} {hr : r.Consumes}
    (h : ∀ idx, idx + least ≤ buf.length → Agree buf (body idx) (r.run (buf.drop idx))) (hidx : idx ≤ buf.length) :
    whileLeft buf.length least hleast left body hbody idx = some (r.readAll hr least left (buf.drop idx)) := by
  fun_induction whileLeft buf.length least hleast left body hbody idx with
  | case1 idx hlt hnone =>
    have hagree := h idx hlt
    generalize r.run (buf.drop idx) = s at hagree
    rw [hnone] at hagree
    cases hagree
  | case2 idx hlt e herror =>
    have hagree := h idx hlt
    generalize hs : r.run (buf.drop idx) = s at hagree
    rw [herror] at hagree
    cases hagree
    rw [Reader.readAll_of_error (by rw [List.length_drop]; omega) hs]
    rfl
  | case3 idx hlt x idx' hok ih =>
    have hagree := h idx hlt
    generalize hs : r.run (buf.drop idx) = s at hagree
    rw [hok] at hagree
    cases hagree with
    | ok _ hidx' =>
      rw [ih hidx',Reader.readAll_of_run (by rw [List.length_drop]; omega) hs]
      generalize r.readAll hr least left (buf.drop idx') = rest
      cases rest <;> rfl
  | case4 idx hlt hne =>
    rw [Reader.readAll_of_lt (by rw [List.length_drop]; omega),if_neg (by simp; omega)]
    rfl
  | case5 idx hlt heq =>
    rw [Reader.readAll_of_lt (by rw [List.length_drop]; omega),if_pos (by simp; omega)]
    rfl
end Checked
end RustyRtc
