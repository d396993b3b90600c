import RustyRtc.Foundation.Codec
import RustyRtc.Sdp.Sdpc

/-! # Reading back what was written

The lines of a written text come back as they were, and a line is split where it was put together.
-/
namespace RustyRtc.Sdp
variable {c sep : Char} {l : Text} {m : Media}
theorem mem_onLast {α : Type} {f : α → α} {l : List α} {x : α} (h : x ∈ onLast f l) : x ∈ l ∨ ∃ y ∈ l, x = f y := by
  rcases List.mem_append.mp h with h | h
  · exact .inl ((List.dropLast_prefix l).subset h)
  · obtain ⟨y,hy,rfl⟩ := Option.map_eq_some_iff.mp (Option.mem_toList.mp h)
    exact .inr ⟨y,List.mem_of_getLast? hy,rfl⟩

namespace Parsing
theorem blank_fromStr {s : Text} (h : Media.fromStr s = .ok m) : m.attrs = [] ∧ m.extraLines = [] := by
  unfold Media.fromStr at h
  split at h
  · cases h
  · cases h
  · obtain ⟨_,-,h⟩ := bind_eq_ok.mp h
    cases h
  · obtain ⟨port,-,h⟩ := bind_eq_ok.mp h
    cases h
    exact ⟨rfl,rfl⟩
end Parsing

theorem chomp_concat_cr (l : Text) : chomp (l ++ ['\r']) = chomp l := List.rdropWhile_concat_pos _ _ _ rfl
theorem chomp_concat (hc : c ≠ '\r') (l : Text) : chomp (l ++ [c]) = l ++ [c] :=
  List.rdropWhile_concat_neg _ _ _ (by simpa using hc)

theorem chomp_append (hc : c ≠ '\r') (l rest : Text) : chomp (l ++ c :: rest) = l ++ c :: chomp rest := by
  induction rest using List.reverseRecOn with
  | nil => exact chomp_concat hc l
  | append_singleton rest d ih =>
    have hassoc : l ++ c :: (rest ++ [d]) = (l ++ c :: rest) ++ [d] := by simp
    rw [hassoc]
    by_cases hd : d = '\r'
    · rw [hd,chomp_concat_cr,chomp_concat_cr,ih]
    · rw [chomp_concat hd,chomp_concat hd,hassoc]

theorem textLines_flatMap {ls : List Text} (h : ∀ l ∈ ls, '\n' ∉ l) :
    textLines (ls.flatMap (· ++ ['\r','\n'])) = ls.map chomp ++ [[]] := by
  induction ls with
  | nil => rfl
  | cons l ls ih =>
    obtain ⟨hl,hls⟩ := List.forall_mem_cons.mp h
    have hcr : '\n' ∉ l ++ ['\r'] := by simpa using hl
    rw [List.flatMap_cons,show l ++ ['\r','\n'] = (l ++ ['\r']) ++ ['\n'] by simp,List.append_assoc,
      List.singleton_append,textLines,List.splitOn_append_cons_self_of_not_mem hcr,List.map_cons,List.map_cons,
      List.cons_append,← ih hls,chomp_concat_cr]
    rfl

theorem splitOnce_append (h : sep ∉ l) (rest : Text) : splitOnce sep (l ++ sep :: rest) = some (l,rest) := by
  induction l with
  | nil => exact if_pos rfl
  | cons c l ih =>
    have hne : c ≠ sep := fun hc => h (hc ▸ List.mem_cons_self)
    rw [List.cons_append, splitOnce, if_neg hne, ih fun hmem => h (List.mem_cons_of_mem c hmem)]
    rfl

theorem eq_append_of_splitOnce {a b : Text} (h : splitOnce sep l = some (a,b)) : l = a ++ sep :: b ∧ sep ∉ a := by
  induction l generalizing a with
  | nil => cases h
  | cons c l ih =>
    rw [splitOnce] at h
    split at h
    · next hc =>
      cases h
      exact ⟨by rw [hc]; rfl,List.not_mem_nil⟩
    · next hc =>
      obtain ⟨⟨a',b'⟩,hsplit,heq⟩ := Option.map_eq_some_iff.mp h
      cases heq
      obtain ⟨rfl,hnot⟩ := ih hsplit
      exact ⟨rfl,by simpa using ⟨Ne.symm hc,hnot⟩⟩

theorem not_mem_of_splitOnce (h : splitOnce sep l = none) : sep ∉ l := by
  induction l with
  | nil => exact List.not_mem_nil
  | cons c l ih =>
    rw [splitOnce] at h
    split at h
    · cases h
    · next hc => simpa using ⟨Ne.symm hc,ih (Option.map_eq_none_iff.mp h)⟩

theorem splitOnce_eq_none (h : sep ∉ l) : splitOnce sep l = none := by
  induction l with
  | nil => rfl
  | cons c l ih =>
    have hne : c ≠ sep := fun hc => h (hc ▸ List.mem_cons_self)
    rw [splitOnce, if_neg hne, ih fun hmem => h (List.mem_cons_of_mem c hmem)]
    rfl

/-- A key that a line can hold: no colon and no white space. -/
def PlainKey (key : Text) : Prop := ∀ c ∈ key, c ≠ ':' ∧ isWhitespace c = false
theorem PlainKey.trim_eq {key : Text} (h : PlainKey key) : trim key = key :=
  trim_eq_self (fun c hc => (h c (List.mem_of_mem_head? hc)).2) fun c hc => (h c (List.mem_of_getLast? hc)).2
theorem splitOnce_chomp (hc : c ≠ '=') (rest : Text) :
    splitOnce '=' (chomp (c :: '=' :: rest)) = some ([c],chomp rest) := by
  have hchomp : chomp (c :: '=' :: rest) = [c] ++ '=' :: chomp rest := chomp_append (by decide) [c] rest
  rw [hchomp,splitOnce_append (by simpa using hc.symm)]
end RustyRtc.Sdp
