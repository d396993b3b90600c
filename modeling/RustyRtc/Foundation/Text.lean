import Mathlib.Data.List.DropRight
import RustyRtc.Foundation.Bytes

/-! # Text

Strings as UTF-8 byte strings, and the standard library's way of cutting a text into lines
and fields, on lists of characters.
-/
namespace RustyRtc
variable {line text part : List Char} {c : Char} {t : Text} {max n : ℕ} {sep : Char} {ts : List Text} {acc : ℕ}
def utf8 (s : String) : Bytes := s.toByteArray.data.toList

/-- `str::from_utf8`. -/
def fromUtf8 (b : Bytes) : Option String := String.fromUTF8? ⟨b.toArray⟩

@[simp] theorem utf8_length (s : String) : (utf8 s).length = s.utf8ByteSize := rfl
theorem fromUtf8_eq_some {b : Bytes} {s : String} : fromUtf8 b = some s ↔ utf8 s = b := by
  have hbytes : ∀ a : ByteArray, a = ⟨b.toArray⟩ ↔ a.data.toList = b := by
    intro a
    rw [ByteArray.ext_iff,← Array.toList_inj]
  rw [utf8,← hbytes]
  simp only [fromUtf8,String.fromUTF8?]
  split
  · next h =>
    rw [Option.some_inj,← String.toByteArray_inj]
    exact eq_comm
  · next h =>
    simp only [reduceCtorEq,false_iff]
    intro hs
    exact h (hs ▸ s.isValidUTF8)

/-- `from_utf8_lossy`: text as it is; what becomes of other bytes is left to `repair`. -/
def fromUtf8Lossy (repair : Bytes → String) (b : Bytes) : String := (fromUtf8 b).getD (repair b)
theorem fromUtf8Lossy_utf8 (repair : Bytes → String) (s : String) : fromUtf8Lossy repair (utf8 s) = s := by
  rw [fromUtf8Lossy,fromUtf8_eq_some.mpr rfl,Option.getD_some]
theorem utf8_ofList (cs : List Char) : utf8 (String.ofList cs) = cs.flatMap String.utf8EncodeChar := by
  rw [utf8,String.toByteArray_ofList,List.utf8Encode,List.toList_data_toByteArray]

theorem utf8ByteSize_le (s : String) : s.utf8ByteSize ≤ 4 * s.length := by
  have hlen : (utf8 (String.ofList s.toList)).length ≤ 4 * s.toList.length := by
    rw [utf8_ofList]
    induction s.toList with
    | nil => simp
    | cons c cs ih =>
      have hc := c.utf8Size_le_four
      rw [List.flatMap_cons,List.length_append,String.length_utf8EncodeChar,List.length_cons]
      omega
  rw [← String.length_toList]
  simpa using hlen

abbrev Text := List Char

/-- A text is searched character by character. Without this instance all characters there are would be gone
through where the library knows how to do so. -/
instance decidableForallMemText (p : Char → Prop) [DecidablePred p] (t : Text) : Decidable (∀ c ∈ t, p c) :=
  List.decidableBAll p t

/-- `char::is_whitespace`, the characters with the Unicode property White_Space. -/
def isWhitespace (c : Char) : Bool :=
  let n := c.toNat
  9 ≤ n && n ≤ 13 || n == 0x20 || n == 0x85 || n == 0xA0 || n == 0x1680 || 0x2000 ≤ n && n ≤ 0x200A ||
    n == 0x2028 || n == 0x2029 || n == 0x202F || n == 0x205F || n == 0x3000

/-- `str::trim`. -/
def trim (cs : List Char) : List Char := (cs.dropWhile isWhitespace).rdropWhile isWhitespace

/-- A line without the carriage return that ends it. -/
def stripCr (line : List Char) : List Char := if line.getLast? = some '\r' then line.dropLast else line

/-- `str::lines`: a line ends with a line feed, which a carriage return may precede; the last one may
have no end. -/
def lines (text : List Char) : List (List Char) :=
  let parts := text.splitOn '\n'
  parts.dropLast.map stripCr ++ parts.getLast?.toList.filter (· ≠ [])

/-- `str::split_once` at a character. -/
def splitOnce (sep : Char) : Text → Option (Text × Text)
  | [] => none
  | c :: cs => if c = sep then some ([],cs) else (splitOnce sep cs).map fun p => (c :: p.1,p.2)

/-- `str::split_whitespace`. -/
def splitWhitespace (cs : Text) : List Text := (cs.splitOnP isWhitespace).filter (· ≠ [])

theorem lines_append (h : '\n' ∉ line) (text : List Char) :
    lines (line ++ '\n' :: text) = stripCr line :: lines text := by
  have hne : text.splitOn '\n' ≠ [] := List.splitOn_ne_nil _ _
  have hlast : (line :: text.splitOn '\n').getLast? = (text.splitOn '\n').getLast? := by
    cases hparts : text.splitOn '\n' with
    | nil => exact absurd hparts hne
    | cons part parts => exact List.getLast?_cons_cons
  simp only [lines,List.splitOn_append_cons_self_of_not_mem h,List.dropLast_cons_of_ne_nil hne,hlast,
    List.map_cons,List.cons_append]

theorem mem_of_mem_splitOnP {p : Char → Bool} (h : part ∈ text.splitOnP p) : ∀ c ∈ part, c ∈ text ∧ p c = false := by
  induction text generalizing part with
  | nil =>
    rw [List.splitOnP_nil,List.mem_singleton] at h
    simp [h]
  | cons x text ih =>
    have hweak : ∀ {part}, part ∈ text.splitOnP p → ∀ c ∈ part, c ∈ x :: text ∧ p c = false := fun hp c hc =>
      ⟨List.mem_cons_of_mem _ (ih hp c hc).1,(ih hp c hc).2⟩
    rw [List.splitOnP_cons_eq_if_modifyHead] at h
    split at h
    · rcases List.mem_cons.mp h with rfl | htail
      · simp
      · exact hweak htail
    · next hx =>
      cases hparts : text.splitOnP p with
      | nil => exact absurd hparts (List.splitOnP_ne_nil _ _)
      | cons first parts =>
        rw [hparts] at h hweak
        rcases List.mem_cons.mp h with rfl | htail
        · exact List.forall_mem_cons.mpr ⟨⟨List.mem_cons_self ..,Bool.eq_false_iff.mpr hx⟩,
            hweak (List.mem_cons_self ..)⟩
        · exact hweak (List.mem_cons_of_mem _ htail)

theorem mem_of_mem_splitOn (h : part ∈ text.splitOn sep) : ∀ c ∈ part, c ∈ text ∧ c ≠ sep := by
  intro c hc
  obtain ⟨hmem,hsep⟩ := mem_of_mem_splitOnP h c hc
  exact ⟨hmem,by simpa using hsep⟩
theorem mem_of_mem_stripCr (h : c ∈ stripCr line) : c ∈ line := by
  unfold stripCr at h
  split at h
  · exact (List.dropLast_prefix line).subset h
  · exact h
theorem mem_of_mem_trim (h : c ∈ trim text) : c ∈ text :=
  (List.dropWhile_suffix _).subset ((List.rdropWhile_prefix _ _).subset h)

theorem not_mem_of_mem_lines (h : line ∈ lines text) : '\n' ∉ line := by
  simp only [lines,List.mem_append,List.mem_map,List.mem_filter,Option.mem_toList] at h
  rcases h with ⟨part,hpart,rfl⟩ | ⟨hlast,-⟩
  · intro hmem
    exact (mem_of_mem_splitOn ((List.dropLast_prefix _).subset hpart) _ (mem_of_mem_stripCr hmem)).2 rfl
  · intro hmem
    exact (mem_of_mem_splitOn (List.mem_of_getLast? hlast) _ hmem).2 rfl

theorem head_trim_not_whitespace {rest : List Char} (h : trim text = c :: rest) : isWhitespace c = false := by
  have hprefix : trim text <+: text.dropWhile isWhitespace := List.rdropWhile_prefix _ _
  rw [h] at hprefix
  obtain ⟨tail,htail⟩ := hprefix
  have hhead := List.head?_dropWhile_not isWhitespace text
  rw [← htail] at hhead
  simpa using hhead

theorem trim_eq_self (hhead : ∀ c ∈ text.head?, isWhitespace c = false)
    (hlast : ∀ c ∈ text.getLast?, isWhitespace c = false) : trim text = text := by
  have hfront : text.dropWhile isWhitespace = text := by
    cases text with
    | nil => rfl
    | cons c text => exact List.dropWhile_cons_of_neg (by simp [hhead c rfl])
  rw [trim,hfront]
  rcases List.eq_nil_or_concat text with rfl | ⟨front,c,rfl⟩
  · rfl
  · rw [List.concat_eq_append] at hlast ⊢
    exact List.rdropWhile_concat_neg _ _ _ (by simp [hlast c (by simp)])

theorem head_of_splitOn {parts : List (List Char)}
    (h : text.splitOn sep = (c :: part) :: parts) : text.head? = some c := by
  cases text with
  | nil => simp at h
  | cons x text =>
    rw [List.splitOn_cons_eq_if_modifyHead] at h
    split at h
    · simp at h
    · cases hparts : text.splitOn sep with
      | nil => exact absurd hparts (List.splitOn_ne_nil _ _)
      | cons first rest =>
        rw [hparts] at h
        obtain ⟨⟨rfl,-⟩,-⟩ : (x = c ∧ _) ∧ _ := by simpa using h
        rfl

/-- A word that white space can set off: not empty, and without any itself. -/
def Token (t : Text) : Prop := t ≠ [] ∧ ∀ c ∈ t, isWhitespace c = false
theorem token_of_mem_splitWhitespace {text : Text} (h : t ∈ splitWhitespace text) : Token t := by
  obtain ⟨hpart,hne⟩ := List.mem_filter.mp h
  exact ⟨by simpa using hne,fun c hc => (mem_of_mem_splitOnP hpart c hc).2⟩
theorem splitWhitespace_space (rest : Text) : splitWhitespace (' ' :: rest) = splitWhitespace rest := by
  rw [splitWhitespace,List.splitOnP_cons_eq_if_modifyHead,if_pos (show isWhitespace ' ' = true from rfl),
    List.filter_cons_of_neg (by simp)]
  rfl

namespace Token
variable {t : Text}
theorem splitWhitespace_eq (h : Token t) : splitWhitespace t = [t] := by
  rw [splitWhitespace,List.splitOnP_eq_singleton h.2,List.filter_cons_of_pos (by simpa using h.1),List.filter_nil]
theorem splitWhitespace_append (h : Token t) (rest : Text) :
    splitWhitespace (t ++ ' ' :: rest) = t :: splitWhitespace rest := by
  rw [splitWhitespace,List.splitOnP_append_cons_of_forall_mem h.2 ' ' rfl,
    List.filter_cons_of_pos (by simpa using h.1)]
  rfl
theorem not_mem (h : Token t) (hc : isWhitespace c = true) : c ∉ t := fun hmem =>
  Bool.false_ne_true ((h.2 c hmem).symm.trans hc)
theorem join {u : Text} (ht : Token t) (hc : isWhitespace c = false) (hu : Token u) : Token (t ++ c :: u) := by
  refine ⟨by simp,?_⟩
  rw [List.forall_mem_append,List.forall_mem_cons]
  exact ⟨ht.2,hc,hu.2⟩
end Token

theorem splitWhitespace_intercalate (h : ∀ t ∈ ts, Token t) : splitWhitespace (List.intercalate [' '] ts) = ts := by
  induction ts with
  | nil => rfl
  | cons t ts ih =>
    obtain ⟨ht,hts⟩ := List.forall_mem_cons.mp h
    cases ts with
    | nil => simpa using ht.splitWhitespace_eq
    | cons u ts =>
      rw [List.intercalate_cons_cons,List.append_assoc,List.singleton_append,ht.splitWhitespace_append,ih hts]

theorem last_trim_not_whitespace {text : Text} (h : (trim text).getLast? = some c) : isWhitespace c = false := by
  have hlast := List.rdropWhile_last_not isWhitespace (text.dropWhile isWhitespace)
  obtain ⟨hne,rfl⟩ := List.mem_getLast?_eq_getLast h
  exact Bool.eq_false_iff.mpr (hlast hne)

theorem trim_concat_whitespace (hc : isWhitespace c = true) (cs : Text) : trim (cs ++ [c]) = trim cs := by
  have hdrop : (cs ++ [c]).dropWhile isWhitespace = cs.dropWhile isWhitespace ++ [c] ∨
      (cs ++ [c]).dropWhile isWhitespace = [] ∧ cs.dropWhile isWhitespace = [] := by
    rw [List.dropWhile_append]
    cases hall : cs.dropWhile isWhitespace with
    | nil => exact .inr ⟨by simp [hc],rfl⟩
    | cons d ds => exact .inl rfl
  rcases hdrop with h | ⟨h,h'⟩
  · rw [trim,h,List.rdropWhile_concat_pos _ _ _ hc,trim]
  · rw [trim,h,trim,h']

theorem trim_trim (cs : Text) : trim (trim cs) = trim cs := by
  refine trim_eq_self ?_ fun c hc => last_trim_not_whitespace hc
  intro c hc
  cases h : trim cs with
  | nil => simp [h] at hc
  | cons d rest =>
    obtain rfl : d = c := by simpa [h] using hc
    exact head_trim_not_whitespace h

theorem Token.trim_eq (h : Token t) : trim t = t :=
  trim_eq_self (fun c hc => h.2 c (List.mem_of_mem_head? hc)) fun c hc => h.2 c (List.mem_of_getLast? hc)

theorem Token.trim_append {rest : Text} (h : Token t) (hrest : trim rest = rest) (hne : rest ≠ []) :
    trim (t ++ ' ' :: rest) = t ++ ' ' :: rest := by
  refine trim_eq_self (fun c hc => ?_) fun c hc => ?_
  · rw [List.head?_append_of_ne_nil _ h.1] at hc
    exact h.2 c (List.mem_of_mem_head? hc)
  · rw [List.getLast?_append_of_ne_nil _ (by simp),List.getLast?_cons_of_ne_nil hne,← hrest] at hc
    exact last_trim_not_whitespace hc

theorem trim_intercalate (h : ∀ t ∈ ts, Token t) : trim (List.intercalate [' '] ts) = List.intercalate [' '] ts := by
  induction ts with
  | nil => rfl
  | cons t ts ih =>
    obtain ⟨ht,hts⟩ := List.forall_mem_cons.mp h
    cases ts with
    | nil => simpa using ht.trim_eq
    | cons u us =>
      obtain ⟨hu,-⟩ := List.forall_mem_cons.mp hts
      have hne : List.intercalate [' '] (u :: us) ≠ [] := by
        cases us with
        | nil => simpa using hu.1
        | cons v vs => simp
      rw [List.intercalate_cons_cons,List.append_assoc,List.singleton_append]
      exact ht.trim_append (ih hts) hne

theorem not_mem_intercalate (hc : c ≠ ' ') (h : ∀ t ∈ ts, c ∉ t) : c ∉ List.intercalate [' '] ts := by
  induction ts with
  | nil => simp
  | cons t ts ih =>
    obtain ⟨ht,hts⟩ := List.forall_mem_cons.mp h
    cases ts with
    | nil => simpa using ht
    | cons u us => simp [ht,hc,ih hts]

/-- `std::num::IntErrorKind`, as far as unsigned numbers go. -/
inductive IntErrorKind where
  | empty
  | invalidDigit
  | posOverflow
  deriving DecidableEq, Repr
def decimal (n : ℕ) : Text := Nat.toDigits 10 n

def parseDigits (max acc : ℕ) : Text → Except IntErrorKind ℕ
  | [] => .ok acc
  | c :: cs =>
    if c.isDigit then
      let value := acc * 10 + (c.toNat - '0'.toNat)
      if value ≤ max then parseDigits max value cs else .error .posOverflow
    else .error .invalidDigit

/-- `str::parse` to an unsigned type with the largest value `max`. -/
def parseUnsigned (max : ℕ) : Text → Except IntErrorKind ℕ
  | [] => .error .empty
  | ['+'] => .error .invalidDigit
  | '+' :: digits => parseDigits max 0 digits
  | digits => parseDigits max 0 digits

theorem parseDigits_eq {digits : Text} (hdigits : ∀ c ∈ digits, c.isDigit = true)
    (hmax : Nat.ofDigitChars 10 digits acc ≤ max) :
    parseDigits max acc digits = .ok (Nat.ofDigitChars 10 digits acc) := by
  induction digits generalizing acc with
  | nil => rfl
  | cons c digits ih =>
    obtain ⟨hc,hrest⟩ := List.forall_mem_cons.mp hdigits
    rw [Nat.ofDigitChars_cons,Nat.mul_comm] at hmax ⊢
    -- the number read so far is at most the whole number
    have hle : acc * 10 + (c.toNat - '0'.toNat) ≤ max := by
      rw [Nat.ofDigitChars_eq_ofDigitChars_zero] at hmax
      have hpow : 1 ≤ 10 ^ digits.length := Nat.one_le_pow _ _ (by decide)
      calc acc * 10 + (c.toNat - '0'.toNat) ≤ 10 ^ digits.length * (acc * 10 + (c.toNat - '0'.toNat)) :=
            Nat.le_mul_of_pos_left _ hpow
        _ ≤ max := Nat.le_trans (Nat.le_add_right _ _) hmax
    rw [parseDigits,if_pos hc,if_pos hle]
    exact ih hrest hmax

theorem token_decimal (n : ℕ) : Token (decimal n) := by
  refine ⟨Nat.toDigits_ne_nil,fun c hc => ?_⟩
  have hdigit := Nat.isDigit_of_mem_toDigits (by decide) (by decide) hc
  simp only [Char.isDigit,Bool.and_eq_true,decide_eq_true_eq,ge_iff_le,UInt32.le_iff_toNat_le] at hdigit
  change 48 ≤ c.toNat ∧ c.toNat ≤ 57 at hdigit
  simp only [isWhitespace,Bool.or_eq_false_iff,Bool.and_eq_false_iff,decide_eq_false_iff_not,beq_eq_false_iff_ne]
  omega

theorem not_mem_decimal (hc : c.isDigit = false) (n : ℕ) : c ∉ decimal n := fun hmem =>
  Bool.false_ne_true (hc.symm.trans (Nat.isDigit_of_mem_toDigits (by decide) (by decide) hmem))

theorem parseUnsigned_decimal (h : n ≤ max) : parseUnsigned max (decimal n) = .ok n := by
  have hdigits : ∀ c ∈ decimal n, c.isDigit = true := fun c hc =>
    Nat.isDigit_of_mem_toDigits (by decide) (by decide) hc
  have hparse : parseDigits max 0 (decimal n) = .ok n := by
    have hvalue : Nat.ofDigitChars 10 (decimal n) 0 = n := Nat.ofDigitChars_ten_toDigits
    rw [parseDigits_eq hdigits (by rwa [hvalue]),hvalue]
  cases hd : decimal n with
  | nil => exact absurd hd Nat.toDigits_ne_nil
  | cons c rest =>
    have hc : c ≠ '+' := by
      rintro rfl
      exact absurd (hdigits '+' (by rw [hd]; exact List.mem_cons_self)) (by decide)
    rw [hd] at hparse
    unfold parseUnsigned
    split
    · next h => cases h
    · next h => exact absurd (List.cons.inj h).1 hc
    · next h => exact absurd (List.cons.inj h).1 hc
    · exact hparse

def parseU8 (s : Text) : Except IntErrorKind UInt8 := (parseUnsigned 255 s).map UInt8.ofNat
def parseU16 (s : Text) : Except IntErrorKind UInt16 := (parseUnsigned 65535 s).map UInt16.ofNat
def parseU32 (s : Text) : Except IntErrorKind UInt32 := (parseUnsigned (2 ^ 32 - 1) s).map UInt32.ofNat
def parseU64 (s : Text) : Except IntErrorKind UInt64 := (parseUnsigned (2 ^ 64 - 1) s).map UInt64.ofNat
theorem parseU8_decimal (x : UInt8) : parseU8 (decimal x.toNat) = .ok x := by
  rw [parseU8,parseUnsigned_decimal (Nat.le_of_lt_succ x.toNat_lt)]
  simp [Except.map]
theorem parseU16_decimal (x : UInt16) : parseU16 (decimal x.toNat) = .ok x := by
  rw [parseU16,parseUnsigned_decimal (Nat.le_of_lt_succ x.toNat_lt)]
  simp [Except.map]
theorem parseU32_decimal (x : UInt32) : parseU32 (decimal x.toNat) = .ok x := by
  have hfits : x.toNat ≤ 2 ^ 32 - 1 := Nat.le_of_lt_succ x.toNat_lt
  rw [parseU32,parseUnsigned_decimal hfits]
  simp [Except.map]
theorem parseU64_decimal (x : UInt64) : parseU64 (decimal x.toNat) = .ok x := by
  have hfits : x.toNat ≤ 2 ^ 64 - 1 := Nat.le_of_lt_succ x.toNat_lt
  rw [parseU64,parseUnsigned_decimal hfits]
  simp [Except.map]

/-- A number in lower-case hexadecimal, filled with zeros up to `width` digits. -/
def lowerHex (width n : ℕ) : Text := (Nat.toDigits 16 n).leftpad width '0'

/-- `char::to_digit` in base sixteen. -/
def toDigit (c : Char) : Option ℕ :=
  if c.isDigit then some (c.toNat - '0'.toNat)
  else if 'a' ≤ c ∧ c ≤ 'f' then some (c.toNat - 'a'.toNat + 10)
  else if 'A' ≤ c ∧ c ≤ 'F' then some (c.toNat - 'A'.toNat + 10)
  else none

def parseHexDigits (max acc : ℕ) : Text → Except IntErrorKind ℕ
  | [] => .ok acc
  | c :: cs =>
    match toDigit c with
    | none => .error .invalidDigit
    | some digit =>
      let value := acc * 16 + digit
      if value ≤ max then parseHexDigits max value cs else .error .posOverflow

/-- `from_str_radix` in base sixteen, to an unsigned type with the largest value `max`. -/
def parseUnsignedHex (max : ℕ) : Text → Except IntErrorKind ℕ
  | [] => .error .empty
  | ['+'] => .error .invalidDigit
  | '+' :: digits => parseHexDigits max 0 digits
  | digits => parseHexDigits max 0 digits
def parseHexU64 (s : Text) : Except IntErrorKind UInt64 := (parseUnsignedHex (2 ^ 64 - 1) s).map UInt64.ofNat
theorem toDigit_digitChar {d : ℕ} (h : d < 16) : toDigit d.digitChar = some d := by
  have hall : ∀ d : Fin 16, toDigit (Nat.digitChar d) = some d.val := by decide
  exact hall ⟨d,h⟩

theorem not_whitespace_of_toDigit (h : (toDigit c).isSome = true) : isWhitespace c = false ∧ c ≠ '+' := by
  have hrange : 48 ≤ c.toNat ∧ c.toNat ≤ 57 ∨ 97 ≤ c.toNat ∧ c.toNat ≤ 102 ∨ 65 ≤ c.toNat ∧ c.toNat ≤ 70 := by
    unfold toDigit at h
    split at h
    · next hc =>
      simp only [Char.isDigit,Bool.and_eq_true,decide_eq_true_eq,ge_iff_le,UInt32.le_iff_toNat_le] at hc
      exact .inl hc
    · split at h
      · next hc => exact .inr (.inl hc)
      · split at h
        · next hc => exact .inr (.inr hc)
        · cases h
  refine ⟨?_,?_⟩
  · simp only [isWhitespace,Bool.or_eq_false_iff,Bool.and_eq_false_iff,decide_eq_false_iff_not,
      beq_eq_false_iff_ne]
    omega
  · rintro rfl
    revert hrange
    decide

theorem parseHexDigits_append (max acc : ℕ) (cs ds : Text) :
    parseHexDigits max acc (cs ++ ds) = parseHexDigits max acc cs >>= fun value => parseHexDigits max value ds := by
  induction cs generalizing acc with
  | nil => rfl
  | cons c cs ih =>
    simp only [List.cons_append,parseHexDigits]
    cases toDigit c with
    | none => rfl
    | some digit =>
      dsimp only
      split
      · exact ih _
      · rfl

theorem toDigit_of_parseHexDigits {value : ℕ} {cs : Text} (h : parseHexDigits max acc cs = .ok value) :
    ∀ c ∈ cs, (toDigit c).isSome = true := by
  induction cs generalizing acc with
  | nil => simp
  | cons c cs ih =>
    rw [parseHexDigits] at h
    cases hc : toDigit c with
    | none => simp [hc] at h
    | some digit =>
      simp only [hc] at h
      split at h
      · exact List.forall_mem_cons.mpr ⟨by simp [hc],ih h⟩
      · cases h

theorem parseHexDigits_toDigits (h : n ≤ max) : parseHexDigits max 0 (Nat.toDigits 16 n) = .ok n := by
  induction n using Nat.strong_induction_on with
  | _ n ih =>
    -- the last digit is read after the number of those before it
    rw [Nat.toDigits_eq_if (by decide)]
    split
    · next hn => simp [parseHexDigits,toDigit_digitChar hn,h]
    · next hn =>
      have hvalue : n / 16 * 16 + n % 16 = n := by omega
      rw [parseHexDigits_append,ih (n / 16) (by omega) (by omega)]
      simp [Bind.bind,Except.bind,parseHexDigits,toDigit_digitChar (Nat.mod_lt n (by decide)),hvalue,h]

theorem parseHexDigits_lowerHex (h : n ≤ max) (width : ℕ) : parseHexDigits max 0 (lowerHex width n) = .ok n := by
  have hzeros : ∀ k, parseHexDigits max 0 (List.replicate k '0') = .ok 0 := by
    intro k
    induction k with
    | zero => rfl
    | succ k ih => simpa [List.replicate_succ,parseHexDigits,show toDigit '0' = some 0 from rfl] using ih
  rw [lowerHex,List.leftpad,parseHexDigits_append,hzeros]
  exact parseHexDigits_toDigits h

theorem token_lowerHex (width n : ℕ) : Token (lowerHex width n) := by
  refine ⟨?_,fun c hc => ?_⟩
  · rw [lowerHex,List.leftpad]
    exact List.append_ne_nil_of_right_ne_nil _ Nat.toDigits_ne_nil
  · exact (not_whitespace_of_toDigit (toDigit_of_parseHexDigits (parseHexDigits_lowerHex (le_refl n) width) c hc)).1

theorem parseUnsignedHex_lowerHex (h : n ≤ max) (width : ℕ) : parseUnsignedHex max (lowerHex width n) = .ok n := by
  have hparse := parseHexDigits_lowerHex h width
  cases hd : lowerHex width n with
  | nil => exact absurd hd (token_lowerHex width n).1
  | cons c rest =>
    rw [hd] at hparse
    have hc : c ≠ '+' := (not_whitespace_of_toDigit (toDigit_of_parseHexDigits hparse c (List.mem_cons_self ..))).2
    unfold parseUnsignedHex
    split
    · next h => cases h
    · next h => exact absurd (List.cons.inj h).1 hc
    · next h => exact absurd (List.cons.inj h).1 hc
    · exact hparse

theorem parseHexU64_lowerHex (x : UInt64) (width : ℕ) : parseHexU64 (lowerHex width x.toNat) = .ok x := by
  have hfits : x.toNat ≤ 2 ^ 64 - 1 := Nat.le_of_lt_succ x.toNat_lt
  rw [parseHexU64,parseUnsignedHex_lowerHex hfits]
  simp [Except.map]
end RustyRtc
