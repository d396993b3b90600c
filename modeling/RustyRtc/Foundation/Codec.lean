import Mathlib.Algebra.GroupWithZero.Nat
import Mathlib.Data.List.Forall2
import RustyRtc.Foundation.Bytes

/-! # Fields that can be written and read back

A reader takes a value off the front of a byte string. A codec pairs a writer with a
reader and carries their law: the reader returns exactly the values that fit, each off its
own bytes. Products, lists and refinements of codecs inherit the law, so a record layout
is proved readable and canonical by naming its fields in order.
-/
namespace RustyRtc
variable {b : Bytes}
theorem bind_eq_ok {ε α β : Type} {x : Except ε α} {f : α → Except ε β} {y : β} :
    (x >>= f) = .ok y ↔ ∃ a, x = .ok a ∧ f a = .ok y := by
  cases x <;> simp [bind,Except.bind]
abbrev Reader (ε α : Type) := StateT Bytes (Except ε) α

namespace Reader
variable {ε α β : Type} {rest : Bytes}
theorem run_bind_eq_ok {r : Reader ε α} {f : α → Reader ε β} {y : β} :
    (r >>= f).run b = .ok (y,rest) ↔ ∃ x mid, r.run b = .ok (x,mid) ∧ (f x).run mid = .ok (y,rest) := by
  rw [StateT.run_bind]
  cases h : r.run b with
  | error e => simp [bind,Except.bind]
  | ok p =>
    obtain ⟨x,mid⟩ := p
    simp only [bind,Except.bind,Except.ok.injEq,Prod.mk.injEq]
    constructor
    · intro hf
      exact ⟨x,mid,⟨rfl,rfl⟩,hf⟩
    · rintro ⟨_,_,⟨rfl,rfl⟩,hf⟩
      exact hf

theorem run_pure_eq_ok {x y : α} : (pure x : Reader ε α).run b = .ok (y,rest) ↔ x = y ∧ b = rest := by
  rw [StateT.run_pure]
  simp [pure,Except.pure]
end Reader

section Writers
variable {ε α : Type} {w : α → Except ε Bytes} {e : Bytes} {xs : List α}
theorem append_eq_ok {a b : Except ε Bytes} :
    (do return (← a) ++ (← b)) = Except.ok e ↔ ∃ c d, a = .ok c ∧ b = .ok d ∧ e = c ++ d := by
  cases a with
  | error _ => simp [bind,Except.bind]
  | ok c =>
    cases b with
    | error _ => simp [bind,Except.bind]
    | ok d => simp [bind,Except.bind,pure,Except.pure,eq_comm]

def writeAll (w : α → Except ε Bytes) : List α → Except ε Bytes
  | [] => .ok []
  | x :: xs => do return (← w x) ++ (← writeAll w xs)
theorem writeAll_cons_eq_ok {x : α} :
    writeAll w (x :: xs) = .ok e ↔ ∃ c d, w x = .ok c ∧ writeAll w xs = .ok d ∧ e = c ++ d :=
  append_eq_ok
theorem writeAll_ok (enc : α → Bytes) (xs : List α) :
    writeAll (fun x => (.ok (enc x) : Except ε Bytes)) xs = .ok (xs.flatMap enc) := by
  induction xs with
  | nil => rfl
  | cons x xs ih => exact writeAll_cons_eq_ok.mpr ⟨_,_,rfl,ih,List.flatMap_cons⟩

theorem writeAll_isOk_iff : (∃ e, writeAll w xs = .ok e) ↔ ∀ x ∈ xs, ∃ c, w x = .ok c := by
  induction xs with
  | nil => simp [writeAll]
  | cons x xs ih =>
    simp only [writeAll_cons_eq_ok,List.mem_cons,forall_eq_or_imp,← ih]
    constructor
    · rintro ⟨_,c,d,hc,hd,-⟩
      exact ⟨⟨c,hc⟩,d,hd⟩
    · rintro ⟨⟨c,hc⟩,d,hd⟩
      exact ⟨_,c,d,hc,hd,rfl⟩

theorem writeAll_length {size : α → ℕ} (hw : ∀ x c, w x = .ok c → c.length = size x)
    (h : writeAll w xs = .ok e) : e.length = (xs.map size).sum := by
  induction xs generalizing e with
  | nil =>
    cases h
    rfl
  | cons x xs ih =>
    obtain ⟨c,d,hc,hd,rfl⟩ := writeAll_cons_eq_ok.mp h
    rw [List.length_append,hw x c hc,ih hd,List.map_cons,List.sum_cons]
end Writers

namespace Reader
variable {ε α : Type} {r : Reader ε α} {b c : Bytes} {x : α} {least : ℕ} {xs : List α}

/-- The value `x` is read off the bytes `c`, whatever follows them. -/
def Reads (r : Reader ε α) (c : Bytes) (x : α) : Prop := ∀ rest, r.run (c ++ rest) = .ok (x,rest)
def atLeast (least : ℕ) (short : ε) (r : Reader ε α) : Reader ε α := fun b =>
  if b.length < least then .error short else r b
def rest : Reader ε Bytes := fun b => .ok (b,[])
def readMany (r : Reader ε α) : ℕ → Reader ε (List α)
  | 0 => pure []
  | n + 1 => do return (← r) :: (← readMany r n)
theorem run_bind_of_ok {β : Type} {f : α → Reader ε β} {mid : Bytes}
    (h : r.run b = .ok (x,mid)) : (r >>= f).run b = (f x).run mid := by
  rw [StateT.run_bind,h]
  rfl

theorem Reads.pure (x : α) : Reads (pure x : Reader ε α) [] x := fun _ => rfl
theorem Reads.bind {β : Type} {f : α → Reader ε β} {d : Bytes} {y : β}
    (hr : Reads r c x) (hf : Reads (f x) d y) : Reads (r >>= f) (c ++ d) y := by
  intro tail
  rw [List.append_assoc,run_bind_of_ok (hr (d ++ tail)),hf tail]
theorem Reads.bind_pure {β : Type} (hr : Reads r c x) (f : α → β) : Reads (r >>= fun a => Pure.pure (f a)) c (f x) := by
  intro tail
  rw [run_bind_of_ok (hr tail)]
  rfl
theorem run_atLeast (h : least ≤ b.length) (short : ε) (r : Reader ε α) : (atLeast least short r).run b = r.run b :=
  if_neg (by omega)
theorem Reads.atLeast (hr : Reads r c x) (short : ε) (h : least ≤ c.length) : Reads (atLeast least short r) c x := by
  intro tail
  rw [run_atLeast (by rw [List.length_append]; omega),hr tail]
theorem run_of_atLeast {short : ε} {left : Bytes}
    (h : (atLeast least short r).run b = .ok (x,left)) : r.run b = .ok (x,left) := by
  change (if b.length < least then _ else r.run b) = _ at h
  split at h
  · cases h
  · exact h

theorem Reads.readMany {w : α → Bytes} (h : ∀ x ∈ xs, Reads r (w x) x) :
    Reads (readMany r xs.length) (xs.flatMap w) xs := by
  induction xs with
  | nil => exact Reads.pure []
  | cons x xs ih =>
    have hxs := ih fun y hy => h y (by simp [hy])
    have htail : Reads (do return x :: (← Reader.readMany r xs.length)) (xs.flatMap w ++ []) (x :: xs) :=
      hxs.bind (Reads.pure (x :: xs))
    rw [List.append_nil] at htail
    exact (h x (by simp)).bind htail

def Consumes (r : Reader ε α) : Prop := ∀ b x rest, r.run b = .ok (x,rest) → rest.length < b.length

/-- Values while at least `least` bytes are left. Fewer bytes at the end are `left`. -/
def readAll (r : Reader ε α) (hr : r.Consumes) (least : ℕ) (left : ε) (b : Bytes) : Except ε (List α) :=
  if b.length < least then
    if b.isEmpty then .ok [] else .error left
  else
    match _h : r.run b with
    | .error e => .error e
    | .ok (x,rest) => do return x :: (← readAll r hr least left rest)
termination_by b.length
decreasing_by exact hr b x rest _h

variable {r : Reader ε α} {hr : r.Consumes} {least : ℕ} {left : ε}
theorem readAll_of_run {rest : Bytes} (hlen : least ≤ b.length) (h : r.run b = .ok (x,rest)) :
    readAll r hr least left b = (do return x :: (← readAll r hr least left rest)) := by
  rw [readAll,if_neg (by omega)]
  split
  · next he => simp [he] at h
  · next he =>
    rw [he,Except.ok.injEq,Prod.mk.injEq] at h
    rw [h.1,h.2]

theorem readAll_of_error {e : ε} (hlen : least ≤ b.length) (h : r.run b = .error e) :
    readAll r hr least left b = .error e := by
  rw [readAll,if_neg (by omega)]
  split
  · next he =>
    rw [he,Except.error.injEq] at h
    rw [h]
  · next he => simp [he] at h

theorem readAll_of_lt (h : b.length < least) :
    readAll r hr least left b = if b.isEmpty then .ok [] else .error left := by
  rw [readAll,if_pos h]

/-- A value comes off bytes of its own, at least `least` of them, whatever follows them. -/
def Local (r : Reader ε α) (least : ℕ) : Prop :=
  ∀ b x rest, r.run b = .ok (x,rest) → ∃ c, b = c ++ rest ∧ least ≤ c.length ∧ Reads r c x

/-- What is accepted falls apart into the bytes of the single values, and any such bytes are
accepted one after the other. -/
theorem readAll_eq_ok_iff (hlocal : r.Local least) (hleast : 0 < least) : readAll r hr least left b = .ok xs ↔
      ∃ parts, b = parts.flatten ∧ List.Forall₂ (fun c x => least ≤ c.length ∧ Reads r c x) parts xs := by
  constructor
  · intro h
    fun_induction readAll r hr least left b generalizing xs with
    | case1 b hlt hempty =>
      cases h
      exact ⟨[],by simpa using hempty, .nil⟩
    | case2 => cases h
    | case3 => cases h
    | case4 b hlen x rest hrun ih =>
      obtain ⟨ys,hys,hret⟩ := bind_eq_ok.mp h
      cases hret
      obtain ⟨c,rfl,hc,hreads⟩ := hlocal b x rest hrun
      obtain ⟨parts,rfl,hparts⟩ := ih hys
      exact ⟨c :: parts,rfl, .cons ⟨hc,hreads⟩ hparts⟩
  · rintro ⟨parts,rfl,hparts⟩
    induction hparts with
    | nil => exact readAll_of_lt hleast
    | cons hpart _ ih =>
      rw [List.flatten_cons,readAll_of_run (by simp; omega) (hpart.2 _),ih]
      rfl

/-- What was written value by value is read value by value. -/
theorem readAll_writeAll {w : α → Except ε Bytes} (hleast : 0 < least)
    (hread : ∀ x ∈ xs, ∀ c, w x = .ok c → least ≤ c.length ∧ Reads r c x)
    {e : Bytes} (h : writeAll w xs = .ok e) : readAll r hr least left e = .ok xs := by
  induction xs generalizing e with
  | nil =>
    cases h
    rw [readAll,if_pos (by simpa using hleast)]
    rfl
  | cons x xs ih =>
    obtain ⟨c,d,hc,hd,rfl⟩ := writeAll_cons_eq_ok.mp h
    obtain ⟨hlen,hx⟩ := hread x (by simp) c hc
    rw [readAll_of_run (by simp; omega) (hx d), ih (fun y hy => hread y (by simp [hy])) hd]
    rfl
end Reader

/-- The values in `Fits` are those that come back as they were written. -/
structure Codec (ε α : Type) where
  put : α → Except ε Bytes
  get : Reader ε α
  Fits : α → Prop
  law : ∀ {b rest x}, get.run b = .ok (x,rest) ↔ Fits x ∧ ∃ c, put x = .ok c ∧ b = c ++ rest

namespace Codec
variable {ε α β : Type} {xs : List α} {f : Codec ε α} {g : Codec ε β} {e : Bytes} {n : ℕ} {rest : Bytes}
variable {P : α → Prop} {size : α → ℕ}
def pair (f : Codec ε α) (g : Codec ε β) : Codec ε (α × β) where
  put p := do return (← f.put p.1) ++ (← g.put p.2)
  get := do return (← f.get,← g.get)
  Fits p := f.Fits p.1 ∧ g.Fits p.2
  law := by
    rintro b rest ⟨x,y⟩
    simp only [Reader.run_bind_eq_ok, Reader.run_pure_eq_ok, f.law, g.law, Prod.mk.injEq]
    constructor
    · rintro ⟨x,mid,⟨hx,c,hc,rfl⟩,y,rest,⟨hy,d,hd,rfl⟩,⟨rfl,rfl⟩,rfl⟩
      exact ⟨⟨hx,hy⟩,c ++ d,append_eq_ok.mpr ⟨c,d,hc,hd,rfl⟩,by simp⟩
    · rintro ⟨⟨hx,hy⟩,e,he,rfl⟩
      obtain ⟨c,d,hc,hd,rfl⟩ := append_eq_ok.mp he
      exact ⟨x,d ++ rest,⟨hx,c,hc,by simp⟩,y,rest,⟨hy,d,hd,rfl⟩,⟨rfl,rfl⟩,rfl⟩

/-- A field that stands for another type: `dec` takes back the good values that `enc` gives. -/
def via (f : Codec ε α) (enc : β → α) (dec : α → Except ε β) (Good : β → Prop)
    (h : ∀ {x y}, dec x = .ok y ↔ Good y ∧ enc y = x) : Codec ε β where
  put y := f.put (enc y)
  get := f.get >>= fun x => StateT.lift (dec x)
  Fits y := Good y ∧ f.Fits (enc y)
  law := by
    intro b rest y
    have hlift : ∀ x mid, (StateT.lift (dec x) : Reader ε β).run mid = .ok (y,rest) ↔
        (Good y ∧ enc y = x) ∧ mid = rest := by
      intro x mid
      rw [← h, StateT.run_lift]
      cases dec x <;> simp [bind,Except.bind,pure,Except.pure]
    simp only [Reader.run_bind_eq_ok, hlift, f.law]
    constructor
    · rintro ⟨x,mid,⟨hx,hc⟩,⟨hy,rfl⟩,rfl⟩
      exact ⟨⟨hy,hx⟩,hc⟩
    · rintro ⟨⟨hy,hx⟩,hc⟩
      exact ⟨enc y,rest,⟨hx,hc⟩,⟨hy,rfl⟩,rfl⟩

section Fixed
variable (short : ε)
def take (n : ℕ) : Reader ε Bytes := fun b =>
  if b.length < n then .error short else .ok (b.take n,b.drop n)

theorem run_take_eq_ok {x : Bytes} : (take short n).run b = .ok (x,rest) ↔ x.length = n ∧ b = x ++ rest := by
  simp only [take,StateT.run]
  split
  · next h =>
    simp only [reduceCtorEq,false_iff,not_and]
    rintro hx rfl
    simp at h
    omega
  · next h =>
    simp only [Except.ok.injEq,Prod.mk.injEq]
    constructor
    · rintro ⟨rfl,rfl⟩
      exact ⟨by simp; omega,by simp⟩
    · rintro ⟨rfl,rfl⟩
      simp

def fixed (n : ℕ) (write : α → Bytes) (read : Bytes → α) (hlen : ∀ x, (write x).length = n)
    (hread : ∀ x, read (write x) = x) (hwrite : ∀ b, b.length = n → write (read b) = b) : Codec ε α where
  put x := .ok (write x)
  get := read <$> take short n
  Fits _ := True
  law := by
    intro b rest x
    rw [map_eq_pure_bind, Reader.run_bind_eq_ok]
    simp only [Reader.run_pure_eq_ok, run_take_eq_ok, true_and]
    constructor
    · rintro ⟨c,mid,⟨hc,rfl⟩,rfl,rfl⟩
      exact ⟨c,by rw [hwrite c hc],rfl⟩
    · rintro ⟨c,hc,rfl⟩
      cases hc
      exact ⟨write x,rest,⟨hlen x,rfl⟩,hread x,rfl⟩

def u8 : Codec ε UInt8 :=
  fixed short 1 (fun x => [x]) (fun b => b.getD 0 0) (fun _ => rfl) (fun _ => rfl) (by
    intro b hb
    obtain ⟨x,rfl⟩ := List.length_eq_one_iff.mp hb
    rfl)
def u16 : Codec ε UInt16 :=
  fixed short 2 beBytes16 (readU16 · 0) beBytes16_length
    (fun x => by simpa using readU16_beBytes16 x []) (by
      intro b hb
      rcases b with _ | ⟨x,_ | ⟨y,_ | _⟩⟩ <;> simp at hb
      exact beBytes16_readU16 x y [])
def u32 : Codec ε UInt32 :=
  fixed short 4 beBytes32 (readU32 · 0) beBytes32_length
    (fun x => by simpa using readU32_beBytes32 x []) (by
      rintro (_ | ⟨x,_ | ⟨y,_ | ⟨z,_ | ⟨w,_ | _⟩⟩⟩⟩) hb <;> simp at hb
      exact beBytes32_readU32 x y z w [])

def u64 : Codec ε UInt64 :=
  fixed short 8 beBytes64 (readU64 · 0) beBytes64_length
    (fun x => by simpa using readU64_beBytes64 x []) (by
      rintro (_ | ⟨x₀,_ | ⟨x₁,_ | ⟨x₂,_ | ⟨x₃,_ | ⟨x₄,_ | ⟨x₅,_ | ⟨x₆,_ | ⟨x₇,_ | _⟩⟩⟩⟩⟩⟩⟩⟩) hb <;>
        simp at hb
      exact beBytes64_readU64 x₀ x₁ x₂ x₃ x₄ x₅ x₆ x₇ [])
end Fixed

section Many
variable (f : Codec ε α)
def putAll (xs : List α) : Except ε Bytes := writeAll f.put xs
def getMany (n : ℕ) : Reader ε (List α) := f.get.readMany n

theorem run_getMany_eq_ok : (f.getMany n).run b = .ok (xs,rest) ↔
      xs.length = n ∧ (∀ x ∈ xs, f.Fits x) ∧ ∃ c, f.putAll xs = .ok c ∧ b = c ++ rest := by
  induction n generalizing b rest xs with
  | zero =>
    rw [getMany,Reader.readMany,Reader.run_pure_eq_ok,List.length_eq_zero_iff]
    constructor
    · rintro ⟨rfl,rfl⟩
      exact ⟨rfl,by simp,[],rfl,rfl⟩
    · rintro ⟨rfl,-,c,hc,rfl⟩
      cases hc
      exact ⟨rfl,rfl⟩
  | succ n ih =>
    simp only [getMany] at ih
    simp only [getMany,Reader.readMany,Reader.run_bind_eq_ok,Reader.run_pure_eq_ok,f.law,ih]
    constructor
    · rintro ⟨x,_,⟨hx,c,hc,rfl⟩,xs,_,⟨rfl,hxs,d,hd,rfl⟩,rfl,rfl⟩
      exact ⟨rfl,by simpa using ⟨hx,hxs⟩,c ++ d,writeAll_cons_eq_ok.mpr ⟨c,d,hc,hd,rfl⟩,by simp⟩
    · rintro ⟨hlen,hfits,e,he,rfl⟩
      cases xs with
      | nil => simp at hlen
      | cons x xs =>
        obtain ⟨c,d,hc,hd,rfl⟩ := writeAll_cons_eq_ok.mp he
        simp only [List.mem_cons,forall_eq_or_imp] at hfits
        exact ⟨x,d ++ rest,⟨hfits.1,c,hc,by simp⟩,xs,rest,⟨by simpa using hlen,hfits.2,d,hd,rfl⟩,rfl,rfl⟩
end Many

section Counted
variable {κ : Type} (n : Codec ε κ) (size : κ → ℕ) (count : ℕ → κ) (hcount : ∀ k, count (size k) = k)

/-- A count, then as many values. The writer does not look whether the count fits. -/
def list (f : Codec ε α) : Codec ε (List α) where
  put xs := do return (← n.put (count xs.length)) ++ (← f.putAll xs)
  get := do f.getMany (size (← n.get))
  Fits xs := (n.Fits (count xs.length) ∧ size (count xs.length) = xs.length) ∧ ∀ x ∈ xs, f.Fits x
  law := by
    intro b rest xs
    simp only [Reader.run_bind_eq_ok, n.law, run_getMany_eq_ok]
    constructor
    · rintro ⟨k,_,⟨hk,c,hc,rfl⟩,hlen,hfits,d,hd,rfl⟩
      have hk' : count xs.length = k := by rw [hlen, hcount]
      rw [hk']
      exact ⟨⟨⟨hk,hlen.symm⟩,hfits⟩,c ++ d,append_eq_ok.mpr ⟨c,d,hc,hd,rfl⟩,by simp⟩
    · rintro ⟨⟨⟨hk,hsize⟩,hfits⟩,e,he,rfl⟩
      obtain ⟨c,d,hc,hd,rfl⟩ := append_eq_ok.mp he
      exact ⟨_,d ++ rest,⟨hk,c,hc,by simp⟩,hsize.symm,hfits,d,hd,rfl⟩

def blob (short : ε) : Codec ε Bytes where
  put x := do return (← n.put (count x.length)) ++ x
  get := do take short (size (← n.get))
  Fits x := n.Fits (count x.length) ∧ size (count x.length) = x.length
  law := by
    intro b rest x
    simp only [Reader.run_bind_eq_ok, n.law, run_take_eq_ok]
    constructor
    · rintro ⟨k,_,⟨hk,c,hc,rfl⟩,hlen,rfl⟩
      have hk' : count x.length = k := by rw [hlen, hcount]
      rw [hk']
      exact ⟨⟨hk,hlen.symm⟩,c ++ x,by simp [hc,bind,Except.bind,pure,Except.pure],by simp⟩
    · rintro ⟨⟨hk,hsize⟩,e,he,rfl⟩
      cases hc : n.put (count x.length) with
      | error _ => simp [hc,bind,Except.bind] at he
      | ok c =>
        simp only [hc, bind, Except.bind, pure, Except.pure, Except.ok.injEq] at he
        exact ⟨_,x ++ rest,⟨hk,c,hc,by simp [← he]⟩,hsize.symm,rfl⟩
end Counted

/-- A writer that refuses some of the values that would not come back. -/
def guard (f : Codec ε α) (Bad : α → Prop) [DecidablePred Bad] (refuse : α → ε)
    (h : ∀ {x}, f.Fits x → ¬ Bad x) : Codec ε α where
  put x := if Bad x then .error (refuse x) else f.put x
  get := f.get
  Fits := f.Fits
  law := by
    intro b rest x
    rw [f.law]
    constructor
    · rintro ⟨hx,hc⟩
      exact ⟨hx,by rwa [if_neg (h hx)]⟩
    · rintro ⟨hx,hc⟩
      exact ⟨hx,by rwa [if_neg (h hx)] at hc⟩

/-- Whatever can be written comes back. -/
def Total (f : Codec ε α) : Prop := ∀ x c, f.put x = .ok c → f.Fits x
theorem Total.run_get (hf : f.Total) {x : α} {c : Bytes} (h : f.put x = .ok c)
    (rest : Bytes) : f.get.run (c ++ rest) = .ok (x,rest) :=
  f.law.mpr ⟨hf x c h,c,h,rfl⟩
theorem put_pair_eq_ok {p : α × β} :
    (f.pair g).put p = .ok e ↔ ∃ c d, f.put p.1 = .ok c ∧ g.put p.2 = .ok d ∧ e = c ++ d :=
  append_eq_ok
theorem Total.pair (hf : f.Total) (hg : g.Total) : (f.pair g).Total := by
  intro p e h
  obtain ⟨c,d,hc,hd,rfl⟩ := put_pair_eq_ok.mp h
  exact ⟨hf p.1 c hc,hg p.2 d hd⟩
theorem Total.forall_mem (hf : f.Total) (h : f.putAll xs = .ok e) : ∀ x ∈ xs, f.Fits x := by
  intro x hx
  obtain ⟨c,hc⟩ := writeAll_isOk_iff.mp ⟨e,h⟩ x hx
  exact hf x c hc
def Accepts (f : Codec ε α) (P : α → Prop) : Prop := ∀ x, (∃ c, f.put x = .ok c) ↔ P x

theorem Accepts.pair {Q : β → Prop}
    (hf : f.Accepts P) (hg : g.Accepts Q) : (f.pair g).Accepts (fun p => P p.1 ∧ Q p.2) := by
  intro p
  simp only [← hf p.1,← hg p.2,put_pair_eq_ok]
  constructor
  · rintro ⟨_,c,d,hc,hd,-⟩
    exact ⟨⟨c,hc⟩,d,hd⟩
  · rintro ⟨⟨c,hc⟩,d,hd⟩
    exact ⟨_,c,d,hc,hd,rfl⟩

theorem Accepts.putAll (hf : f.Accepts P) (xs : List α) : (∃ e, f.putAll xs = .ok e) ↔ ∀ x ∈ xs, P x := by
  simp only [← hf _]
  exact writeAll_isOk_iff
def Sized (f : Codec ε α) (size : α → ℕ) : Prop := ∀ x c, f.put x = .ok c → c.length = size x
theorem Sized.pair {size' : β → ℕ}
    (hf : f.Sized size) (hg : g.Sized size') : (f.pair g).Sized (fun p => size p.1 + size' p.2) := by
  intro p e h
  obtain ⟨c,d,hc,hd,rfl⟩ := put_pair_eq_ok.mp h
  rw [List.length_append,hf p.1 c hc,hg p.2 d hd]
theorem Sized.putAll (hf : f.Sized size) (h : f.putAll xs = .ok e) : e.length = (xs.map size).sum :=
  writeAll_length hf h
end Codec

namespace Reader
variable {short : ε}
theorem reads_u8 (x : UInt8) : Reads (Codec.u8 short).get [x] x := fun _ => (Codec.u8 short).law.mpr ⟨trivial,_,rfl,rfl⟩
theorem reads_u16 (x : UInt16) : Reads (Codec.u16 short).get (beBytes16 x) x := fun _ =>
  (Codec.u16 short).law.mpr ⟨trivial,_,rfl,rfl⟩
theorem reads_u32 (x : UInt32) : Reads (Codec.u32 short).get (beBytes32 x) x := fun _ =>
  (Codec.u32 short).law.mpr ⟨trivial,_,rfl,rfl⟩
end Reader
end RustyRtc
