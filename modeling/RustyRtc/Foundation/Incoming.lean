import RustyRtc.Foundation.Bytes

/-! # Byte streams that arrive in pieces

What a blocking stream has in store for its reader: bytes, and errors between them. The list
ends where the other side has closed the stream. A reader that fails keeps what it consumed.
-/
namespace RustyRtc
variable {c : Bytes} {k : IoErrorKind} {n : ℕ} {r : Incoming}
inductive IoErrorKind where
  | timedOut
  | wouldBlock
  | interrupted
  | unexpectedEof
  | invalidInput
  | invalidData
  | other
  deriving DecidableEq, Repr

inductive ReadEvent where
  | byte (b : UInt8)
  | fails (k : IoErrorKind)
  deriving DecidableEq, Repr
abbrev Incoming := List ReadEvent

namespace Incoming
def bytes (s : Incoming) : Bytes := s.filterMap fun
  | .byte b => some b
  | .fails _ => none
def faults (s : Incoming) : List IoErrorKind := s.filterMap fun
  | .byte _ => none
  | .fails k => some k
def ofBytes (b : Bytes) : Incoming := b.map .byte

@[simp] theorem bytes_nil : bytes [] = [] := rfl
@[simp] theorem bytes_byte (b : UInt8) (s : Incoming) : bytes (.byte b :: s) = b :: bytes s := rfl
@[simp] theorem bytes_fails (k : IoErrorKind) (s : Incoming) : bytes (.fails k :: s) = bytes s := rfl
@[simp] theorem bytes_append (s r : Incoming) : bytes (s ++ r) = bytes s ++ bytes r := List.filterMap_append
theorem ofBytes_append (b c : Bytes) : ofBytes (b ++ c) = ofBytes b ++ ofBytes c := List.map_append
@[simp] theorem bytes_ofBytes (b : Bytes) : bytes (ofBytes b) = b := by
  induction b with
  | nil => rfl
  | cons x b ih => exact congrArg (x :: ·) ih
@[simp] theorem faults_byte (b : UInt8) (s : Incoming) : faults (.byte b :: s) = faults s := rfl
@[simp] theorem faults_fails (k : IoErrorKind) (s : Incoming) : faults (.fails k :: s) = k :: faults s := rfl
@[simp] theorem faults_append (s r : Incoming) : faults (s ++ r) = faults s ++ faults r :=
  List.filterMap_append
@[simp] theorem faults_ofBytes (b : Bytes) : faults (ofBytes b) = [] := by
  induction b with
  | nil => rfl
  | cons x b ih => exact ih

theorem fault_after_ofBytes {front back : Incoming} (h : ofBytes c ++ r = front ++ .fails k :: back) :
    ∃ front', front = ofBytes c ++ front' ∧ r = front' ++ .fails k :: back := by
  induction c generalizing front with
  | nil => exact ⟨front,rfl,h⟩
  | cons b c ih =>
    cases front with
    | nil => cases h
    | cons a front =>
      obtain ⟨rfl,htail⟩ := List.cons.inj h
      obtain ⟨front',rfl,hr⟩ := ih htail
      exact ⟨front',rfl,hr⟩

/-- Either the first `n` bytes arrive without interruption or the stream breaks off inside them. -/
theorem whole_or_broken (n : ℕ) (s : Incoming) (h : n ≤ s.bytes.length) :
    (∃ c r, c.length = n ∧ s = ofBytes c ++ r) ∨ ∃ c k r, c.length < n ∧ s = ofBytes c ++ .fails k :: r := by
  induction n generalizing s with
  | zero => exact .inl ⟨[],s,rfl,rfl⟩
  | succ n ih =>
    cases s with
    | nil => simp at h
    | cons a s =>
      cases a with
      | fails k => exact .inr ⟨[],k,s,by simp,rfl⟩
      | byte b =>
        rcases ih s (by simpa using h) with ⟨c,r,hc,rfl⟩ | ⟨c,k,r,hc,rfl⟩
        · exact .inl ⟨b :: c,r,by simp [hc],rfl⟩
        · exact .inr ⟨b :: c,k,r,by simpa using hc,rfl⟩
end Incoming

/-- A computation that reads from a stream and may fail; failing does not give bytes back. -/
abbrev StreamReader (ε α : Type) := ExceptT ε (StateM Incoming) α

namespace StreamReader
variable {ε α β : Type} {x : StreamReader ε α} {s r : Incoming} {a : α} {f : α → StreamReader ε β}
def runOn (x : StreamReader ε α) (s : Incoming) : Except ε α × Incoming := Id.run (StateT.run (ExceptT.run x) s)
@[simp] theorem runOn_pure (a : α) (s : Incoming) : runOn (pure a : StreamReader ε α) s = (.ok a,s) := rfl
@[simp] theorem runOn_throw (e : ε) (s : Incoming) :
    runOn (throw e : StreamReader ε α) s = (.error e,s) := rfl
theorem runOn_bind (x : StreamReader ε α) (f : α → StreamReader ε β) (s : Incoming) :
    runOn (x >>= f) s = match x.runOn s with
      | (.ok a,r) => (f a).runOn r
      | (.error e,r) => (.error e,r) := by
  simp only [runOn,ExceptT.run_bind,StateT.run_bind,Id.run_bind]
  rcases (StateT.run (ExceptT.run x) s).run with ⟨_ | _,_⟩ <;> rfl
theorem runOn_bind_ok (h : x.runOn s = (.ok a,r)) (f : α → StreamReader ε β) : runOn (x >>= f) s = (f a).runOn r := by
  rw [runOn_bind,h]
theorem runOn_bind_error {e : ε} (h : x.runOn s = (.error e,r))
    (f : α → StreamReader ε β) : runOn (x >>= f) s = (.error e,r) := by
  rw [runOn_bind,h]

theorem runOn_bind_eq_ok {b : β} :
    runOn (x >>= f) s = (.ok b,r) ↔ ∃ a mid, x.runOn s = (.ok a,mid) ∧ (f a).runOn mid = (.ok b,r) := by
  rw [runOn_bind]
  rcases hx : x.runOn s with ⟨_ | a,mid⟩
  · simp
  · simp only [Prod.mk.injEq,Except.ok.injEq]
    constructor
    · intro h
      exact ⟨a,mid,⟨rfl,rfl⟩,h⟩
    · rintro ⟨_,_,⟨rfl,rfl⟩,h⟩
      exact h

def ofExcept {δ : Type} (f : δ → ε) : Except δ α → StreamReader ε α
  | .ok a => pure a
  | .error d => throw (f d)
@[simp] theorem runOn_ofExcept_ok {δ : Type} (f : δ → ε) (a : α) (s : Incoming) :
    runOn (ofExcept f (.ok a)) s = (.ok a,s) := rfl
@[simp] theorem runOn_ofExcept_error {δ : Type} (f : δ → ε) (d : δ) (s : Incoming) :
    runOn (ofExcept f (.error d) : StreamReader ε α) s = (.error (f d),s) := rfl
theorem runOn_ofExcept_eq_ok {δ : Type} {f : δ → ε} {e : Except δ α} :
    runOn (ofExcept f e) s = (.ok a,r) ↔ e = .ok a ∧ s = r := by
  cases e <;> simp

/-- `x` never puts bytes back: what is left is the end of what was there. -/
def Consumes (x : StreamReader ε α) : Prop :=
  ∀ s, ∃ used, s.bytes = used ++ (x.runOn s).2.bytes
theorem consumes_pure (a : α) : (pure a : StreamReader ε α).Consumes := fun _ => ⟨[],rfl⟩
theorem consumes_ofExcept {δ : Type} (f : δ → ε) (e : Except δ α) : (ofExcept f e).Consumes := by
  intro s
  cases e <;> exact ⟨[],rfl⟩

theorem Consumes.bind (hx : x.Consumes) (hf : ∀ a, (f a).Consumes) : StreamReader.Consumes (x >>= f) := by
  intro s
  obtain ⟨used,hused⟩ := hx s
  rw [runOn_bind]
  rcases hrun : x.runOn s with ⟨_ | a,mid⟩
  · exact ⟨used,by rw [hused,hrun]⟩
  · obtain ⟨more,hmore⟩ := hf a mid
    refine ⟨used ++ more,?_⟩
    rw [hused,hrun,List.append_assoc,← hmore]
end StreamReader

/-- The standard library's `read_exact`: it retries when interrupted, stops at any other error, and
reports an end of stream inside the buffer. Bytes read before an error are gone. An empty buffer is
filled without looking at the stream. -/
def readExactFrom : ℕ → Incoming → Except IoErrorKind Bytes × Incoming
  | 0,s => (.ok [],s)
  | _ + 1,[] => (.error .unexpectedEof,[])
  | n + 1, .byte b :: s =>
    match readExactFrom n s with
    | (.ok c,r) => (.ok (b :: c),r)
    | (.error k,r) => (.error k,r)
  | n + 1, .fails .interrupted :: s => readExactFrom (n + 1) s
  | _ + 1, .fails k :: s => (.error k,s)

theorem readExactFrom_ofBytes (c : Bytes) (r : Incoming) :
    readExactFrom c.length (Incoming.ofBytes c ++ r) = (.ok c,r) := by
  induction c with
  | nil => exact readExactFrom.eq_1 r
  | cons b c ih =>
    change (match readExactFrom c.length (Incoming.ofBytes c ++ r) with
      | (.ok c,r) => (Except.ok (b :: c),r)
      | (.error k,r) => (.error k,r)) = _
    rw [ih]

theorem readExactFrom_broken (hc : c.length < n) (hk : k ≠ .interrupted)
    (r : Incoming) : readExactFrom n (Incoming.ofBytes c ++ .fails k :: r) = (.error k,r) := by
  induction c generalizing n with
  | nil =>
    obtain ⟨n,rfl⟩ := Nat.exists_eq_add_of_lt hc
    cases k <;> first | rfl | exact absurd rfl hk
  | cons b c ih =>
    obtain ⟨n,rfl⟩ : ∃ m, n = m + 1 := ⟨n - 1,by simp at hc; omega⟩
    change (match readExactFrom n (Incoming.ofBytes c ++ .fails k :: r) with
      | (.ok c,r) => (Except.ok (b :: c),r)
      | (.error k,r) => (.error k,r)) = _
    rw [ih (by simpa using hc)]

theorem readExactFrom_spec (n : ℕ) (s : Incoming) :
    (∃ c r, readExactFrom n s = (.ok c,r) ∧ c.length = n ∧ s.bytes = c ++ r.bytes) ∨
      ∃ k r used, readExactFrom n s = (.error k,r) ∧ s.bytes = used ++ r.bytes := by
  fun_induction readExactFrom n s with
  | case1 s => exact .inl ⟨[],s,rfl,rfl,rfl⟩
  | case2 n => exact .inr ⟨_,_,[],rfl,rfl⟩
  | case3 n b s c r hrun ih =>
    rcases ih with ⟨c',r',h,hlen,hbytes⟩ | ⟨k,r',used,h,-⟩
    · obtain ⟨rfl,rfl⟩ : c = c' ∧ r = r' := by simpa [hrun] using h
      exact .inl ⟨b :: c,r,rfl,by simp [hlen],by simp [hbytes]⟩
    · simp [hrun] at h
  | case4 n b s k r hrun ih =>
    rcases ih with ⟨c',r',h,-,-⟩ | ⟨k',r',used,h,hbytes⟩
    · simp [hrun] at h
    · obtain ⟨rfl,rfl⟩ : k = k' ∧ r = r' := by simpa [hrun] using h
      exact .inr ⟨k,r,b :: used,rfl,by simp [hbytes]⟩
  | case5 n s ih => exact ih
  | case6 n k s hk => exact .inr ⟨k,s,[],rfl,rfl⟩

/-- `read_exact`, its error put into the caller's error type. -/
def readExact {ε : Type} (io : IoErrorKind → ε) (n : ℕ) : StreamReader ε Bytes := ExceptT.mk fun s =>
  match readExactFrom n s with
  | (.ok c,r) => (.ok c,r)
  | (.error k,r) => (.error (io k),r)

section
variable {ε : Type} {io : IoErrorKind → ε}
theorem readExact_ofBytes (c : Bytes) (r : Incoming) :
    (readExact io c.length).runOn (Incoming.ofBytes c ++ r) = (.ok c,r) := by
  change (match readExactFrom c.length (Incoming.ofBytes c ++ r) with
    | (.ok c,r) => (Except.ok c,r)
    | (.error k,r) => (.error (io k),r)) = _
  rw [readExactFrom_ofBytes]
theorem readExact_broken (hc : c.length < n) (hk : k ≠ .interrupted)
    (r : Incoming) : (readExact io n).runOn (Incoming.ofBytes c ++ .fails k :: r) = (.error (io k),r) := by
  change (match readExactFrom n (Incoming.ofBytes c ++ .fails k :: r) with
    | (.ok c,r) => (Except.ok c,r)
    | (.error k,r) => (.error (io k),r)) = _
  rw [readExactFrom_broken hc hk]

theorem readExact_eq_ok {s : Incoming} (h : (readExact io n).runOn s = (.ok c,r)) :
    c.length = n ∧ s.bytes = c ++ r.bytes := by
  change (match readExactFrom n s with
    | (.ok c,r) => (Except.ok c,r)
    | (.error k,r) => (.error (io k),r)) = _ at h
  rcases readExactFrom_spec n s with ⟨c',r',hrun,hlen,hbytes⟩ | ⟨k,r',used,hrun,-⟩
  · obtain ⟨rfl,rfl⟩ : c' = c ∧ r' = r := by simpa [hrun] using h
    exact ⟨hlen,hbytes⟩
  · simp [hrun] at h

theorem readExact_consumes (n : ℕ) : (readExact io n).Consumes := by
  intro s
  change ∃ used, s.bytes = used ++ (match readExactFrom n s with
    | (.ok c,r) => (Except.ok c,r)
    | (.error k,r) => (.error (io k),r) : Except ε Bytes × Incoming).2.bytes
  rcases readExactFrom_spec n s with ⟨c,r,hrun,-,hbytes⟩ | ⟨k,r,used,hrun,hbytes⟩
  · exact ⟨c,by rw [hrun,hbytes]⟩
  · exact ⟨used,by rw [hrun,hbytes]⟩
end
end RustyRtc
