import Mathlib.Data.List.Infix
import RustyRtc.Foundation.Bytes
import RustyRtc.Foundation.Execution

/-! # Annex-B byte streams

The scanner of `h264_packetizer.rs`. It looks for a four-byte start code before a
three-byte one at every offset, so zeros at the end of a NAL unit stay with the unit as
long as the codes between units have four bytes.
-/
namespace RustyRtc.Media
variable {data nalu rest : Bytes} {len : ℕ} {parts : List (Bytes × Bytes)} {pos : ℕ} {b : UInt8} {front : Bytes}
variable {nalus : List Bytes}
def startCode : Bytes := [0,0,0,1]
def annexb (nalus : List Bytes) : Bytes := nalus.flatMap (startCode ++ ·)

/-- The length of the start code at the head of the data, the longer one preferred. -/
def startCodeLen (data : Bytes) : Option ℕ :=
  if [0,0,0,1] <+: data then some 4
  else if [0,0,1] <+: data then some 3
  else none

/-- The loop of `find_start_code` from offset `i`, over what is left of the data. -/
def scan : Bytes → ℕ → Option (ℕ × ℕ)
  | [], _ => none
  | b :: rest, i =>
    match startCodeLen (b :: rest) with
    | some len => some (i,len)
    | none => scan rest (i + 1)
def findStartCode (data : Bytes) (start : ℕ) : Option (ℕ × ℕ) := scan (data.drop start) start

theorem startCodeLen_bounds (h : startCodeLen data = some len) : 3 ≤ len ∧ len ≤ data.length := by
  unfold startCodeLen at h
  split at h
  · next hp =>
    cases h
    exact ⟨by omega,hp.length_le⟩
  · split at h
    · next hp =>
      cases h
      exact ⟨le_rfl,hp.length_le⟩
    · cases h

theorem scan_bounds {i : ℕ} (h : scan data i = some (pos,len)) : i ≤ pos ∧ 3 ≤ len ∧ pos + len ≤ i + data.length := by
  induction data generalizing i with
  | nil => simp [scan] at h
  | cons b rest ih =>
    rw [scan] at h
    split at h
    · next hlen =>
      cases h
      have := startCodeLen_bounds hlen
      exact ⟨le_rfl,this.1,by omega⟩
    · have := ih h
      simp only [List.length_cons]
      omega

theorem findStartCode_bounds {start : ℕ} (h : findStartCode data start = some (pos,len)) :
    start ≤ pos ∧ 3 ≤ len ∧ pos + len ≤ data.length := by
  have hb := scan_bounds h
  rw [List.length_drop] at hb
  omega

/-- A unit reaches to the next start code, the last one to the end of the data. -/
def nalEnd (data : Bytes) : Option (ℕ × ℕ) → ℕ
  | some (nextScPos,_) => nextScPos
  | none => data.length

/-- One turn of the loop in `split_annexb_nalus`: the unit after the current start code,
and the start code after it. -/
def splitBody (data : Bytes) : Option (ℕ × ℕ) → Option (Option (ℕ × ℕ) × List Bytes)
  | none => none
  | some (scPos,scLen) =>
    let nalStart := scPos + scLen
    let next := findStartCode data nalStart
    let nalEnd := nalEnd data next
    some (next,if nalEnd > nalStart then [(data.drop nalStart).take (nalEnd - nalStart)] else [])

def splitMeasure (data : Bytes) : Option (ℕ × ℕ) → ℕ
  | none => 0
  | some (scPos,scLen) => data.length + 2 - (scPos + scLen) + 1

theorem splitMeasure_decreases {s s' : Option (ℕ × ℕ)} {out : List Bytes}
    (h : splitBody data s = some (s',out)) : splitMeasure data s' < splitMeasure data s := by
  cases s with
  | none => cases h
  | some code =>
    cases h
    cases hnext : findStartCode data (code.1 + code.2) with
    | none => simp [splitMeasure]
    | some next =>
      obtain ⟨pos,len⟩ := next
      have hb := findStartCode_bounds hnext
      simp only [splitMeasure]
      omega

def splitLoop (data : Bytes) : Loop (Option (ℕ × ℕ)) Bytes where
  body := splitBody data
  measure := splitMeasure data
  decreases := splitMeasure_decreases

/-- Data without any start code is taken as a single unit. -/
def splitAnnexbNalus (data : Bytes) : List Bytes :=
  match findStartCode data 0 with
  | none => if data.isEmpty then [] else [data]
  | some code => ((splitLoop data).run (some code)).2
def CodeFree (nalu : Bytes) : Prop := ¬ [0,0,1] <:+: nalu
instance : DecidablePred CodeFree := fun nalu => inferInstanceAs (Decidable (¬ [0,0,1] <:+: nalu))
theorem CodeFree.tail (h : CodeFree (b :: nalu)) : CodeFree nalu :=
  fun hin => h (hin.trans (List.suffix_cons b nalu).isInfix)
theorem CodeFree.startCodeLen_eq_none (h : CodeFree nalu) : startCodeLen nalu = none := by
  unfold startCodeLen
  rw [if_neg,if_neg]
  · exact fun hp => h hp.isInfix
  · intro hp
    exact h ((List.suffix_cons (0 : UInt8) [0,0,1]).isInfix.trans hp.isInfix)
theorem scan_of_codeFree (h : CodeFree nalu) (i : ℕ) : scan nalu i = none := by
  induction nalu generalizing i with
  | nil => rfl
  | cons b nalu ih =>
    rw [scan,h.startCodeLen_eq_none]
    exact ih h.tail (i + 1)

/-- A start code cannot begin inside a unit and end in the four-byte code after it. -/
theorem CodeFree.startCodeLen_append (h : CodeFree (b :: nalu)) (rest : Bytes) :
    startCodeLen (b :: nalu ++ (startCode ++ rest)) = none := by
  have hthree : ∀ x y z : UInt8, ∀ t : Bytes, b :: nalu = x :: y :: z :: t → ¬ ((0 = x ∧ 0 = y) ∧ 1 = z) := by
    rintro x y z t heq ⟨⟨rfl,rfl⟩,rfl⟩
    exact h ⟨[],t,by rw [heq]; rfl⟩
  have hfour : ∀ w x y z : UInt8, ∀ t : Bytes, b :: nalu = w :: x :: y :: z :: t →
      ¬ ((0 = x ∧ 0 = y) ∧ 1 = z) := by
    rintro w x y z t heq ⟨⟨rfl,rfl⟩,rfl⟩
    exact h ⟨[w],t,by rw [heq]; rfl⟩
  unfold startCodeLen startCode
  match nalu with
  | [] => simp
  | [c] => simp
  | [c,d] =>
    have := hthree b c d [] rfl
    simp
    tauto
  | c :: d :: e :: t =>
    have h3 := hthree b c d (e :: t) rfl
    have h4 := hfour b c d e t rfl
    simp only [List.cons_append,List.cons_prefix_cons,List.nil_prefix,and_true]
    rw [if_neg (by tauto),if_neg (by tauto)]

/-- No start code begins in `front` when `rest` follows it. -/
def Clear : Bytes → Bytes → Prop
  | [], _ => True
  | b :: front, rest => startCodeLen (b :: front ++ rest) = none ∧ Clear front rest

/-- The data is made of start codes, each with the unit behind it. A unit reaches to the next start code:
none begins inside it, not even one that would end in the bytes after it. -/
inductive Parts : Bytes → List (Bytes × Bytes) → Prop
  | nil : Parts [] []
  | cons {code unit rest : Bytes} {parts : List (Bytes × Bytes)} (hcode : code = [0,0,1] ∨ code = [0,0,0,1])
      (hclear : Clear unit rest) (hrest : Parts rest parts) :
      Parts (code ++ (unit ++ rest)) ((code,unit) :: parts)
def units (parts : List (Bytes × Bytes)) : List Bytes := (parts.map Prod.snd).filter (· ≠ [])

theorem Clear.codeFree (h : Clear front rest) : CodeFree front := by
  induction front with
  | nil => decide
  | cons b front ih =>
    intro hin
    rcases List.infix_cons_iff.mp hin with hhead | hin
    · have hthree : [0,0,1] <+: b :: front ++ rest := hhead.trans (List.prefix_append _ _)
      have hnone := h.1
      rw [startCodeLen,if_pos hthree] at hnone
      split at hnone <;> cases hnone
    · exact ih h.2 hin

theorem Parts.codeFree (h : Parts data parts) : ∀ part ∈ parts, CodeFree part.2 := by
  induction h with
  | nil => simp
  | cons _ hclear _ ih => exact List.forall_mem_cons.mpr ⟨hclear.codeFree,ih⟩

theorem startCodeLen_code {code : Bytes} (h : code = [0,0,1] ∨ code = [0,0,0,1]) (rest : Bytes) :
    startCodeLen (code ++ rest) = some code.length := by
  rcases h with rfl | rfl
  · rw [startCodeLen,if_neg (by simp),if_pos ⟨rest,rfl⟩]
    rfl
  · rw [startCodeLen,if_pos ⟨rest,rfl⟩]
    rfl

theorem code_of_startCodeLen (h : startCodeLen data = some len) :
    ∃ code rest, (code = [0,0,1] ∨ code = [0,0,0,1]) ∧ data = code ++ rest := by
  unfold startCodeLen at h
  split at h
  · next hfour =>
    obtain ⟨rest,rfl⟩ := hfour
    exact ⟨_,rest, .inr rfl,rfl⟩
  · split at h
    · next hthree =>
      obtain ⟨rest,rfl⟩ := hthree
      exact ⟨_,rest, .inl rfl,rfl⟩
    · cases h

/-- Any data is some bytes in which no start code begins, and parts behind them. -/
theorem exists_parts (data : Bytes) : ∃ lead rest parts, data = lead ++ rest ∧ Clear lead rest ∧ Parts rest parts := by
  cases hcode : startCodeLen data with
  | some len =>
    obtain ⟨code,tail,hform,hdata⟩ := code_of_startCodeLen hcode
    have hpos : 0 < code.length := by rcases hform with rfl | rfl <;> decide
    have : tail.length < data.length := by
      rw [hdata,List.length_append]
      omega
    obtain ⟨unit,rest,parts,htail,hclear,hparts⟩ := exists_parts tail
    exact ⟨[],data,_,rfl,trivial,by rw [hdata,htail]; exact .cons hform hclear hparts⟩
  | none =>
    cases hdata : data with
    | nil => exact ⟨[],[],[],rfl,trivial, .nil⟩
    | cons b tail =>
      have : tail.length < data.length := by simp [hdata]
      obtain ⟨lead,rest,parts,htail,hclear,hparts⟩ := exists_parts tail
      rw [hdata,htail] at hcode
      exact ⟨b :: lead,rest,parts,by rw [htail]; rfl,⟨hcode,hclear⟩,hparts⟩
termination_by data.length

theorem scan_clear (h : Clear front rest) (i : ℕ) : scan (front ++ rest) i = scan rest (i + front.length) := by
  induction front generalizing i with
  | nil => rfl
  | cons b front ih =>
    have hnone := h.1
    rw [List.cons_append] at hnone ⊢
    rw [scan,hnone,List.length_cons,Nat.add_comm front.length,← Nat.add_assoc]
    exact ih h.2 (i + 1)

theorem Parts.scan (h : Parts data parts) (i : ℕ) : scan data i = parts.head?.map fun part => (i,part.1.length) := by
  cases h with
  | nil => rfl
  | @cons code unit rest parts hcode hclear hrest =>
    have hlen := startCodeLen_code hcode (unit ++ rest)
    generalize hdata : code ++ (unit ++ rest) = data at hlen ⊢
    cases data with
    | nil => simp [startCodeLen] at hlen
    | cons b tail =>
      rw [Media.scan,hlen]
      rfl

/-- The loop takes one turn for each part and puts out the units that are not empty. -/
theorem splitLoop_parts (h : Parts rest parts) (front : Bytes)
    (hdata : data = front ++ rest) : let code := parts.head?.map fun part => (front.length,part.1.length)
    (splitLoop data).run code = (none,units parts) ∧ ((splitLoop data).visited code).length = parts.length := by
  induction h generalizing front with
  | nil =>
    have hstop : (splitLoop data).body none = none := rfl
    exact ⟨Loop.run_stop hstop,by rw [List.head?_nil,Option.map_none,Loop.visited_stop hstop]; rfl⟩
  | @cons code unit rest parts hcode hclear hrest ih =>
    -- the next turn starts behind this code and its unit
    obtain ⟨hrun,hturns⟩ := ih (front ++ code ++ unit) (by simp [hdata])
    have hbehind : data.drop (front.length + code.length) = unit ++ rest := by
      rw [hdata,← List.append_assoc,← List.length_append,List.drop_left]
    have hfind : findStartCode data (front.length + code.length) =
        parts.head?.map fun part => ((front ++ code ++ unit).length,part.1.length) := by
      rw [findStartCode,hbehind,scan_clear hclear,hrest.scan]
      simp [Nat.add_assoc]
    have hend : nalEnd data (findStartCode data (front.length + code.length)) =
        front.length + code.length + unit.length := by
      rw [hfind]
      cases hrest with
      | nil => simp [nalEnd,hdata,Nat.add_assoc]
      | cons => simp [nalEnd,Nat.add_assoc]
    have hbody : (splitLoop data).body (some (front.length,code.length)) =
        some (parts.head?.map fun part => ((front ++ code ++ unit).length,part.1.length),units [(code,unit)]) := by
      simp only [splitLoop,splitBody,hend,hbehind]
      rw [hfind,Nat.add_sub_cancel_left,List.take_left]
      cases unit <;> simp [units]
    refine ⟨?_,?_⟩
    · change (splitLoop data).run (some (front.length,code.length)) = _
      rw [Loop.run_next hbody,hrun]
      simp only [units,← List.filter_append,← List.map_append,List.singleton_append]
    · change ((splitLoop data).visited (some (front.length,code.length))).length = _
      rw [Loop.visited_next hbody,List.length_cons,hturns,List.length_cons]

/-- What the splitter makes of data that has been taken apart. -/
theorem splitAnnexbNalus_parts {lead : Bytes} (hclear : Clear lead rest)
    (h : Parts rest parts) : findStartCode (lead ++ rest) 0 = parts.head?.map (fun part => (lead.length,part.1.length)) ∧
      (parts ≠ [] → splitAnnexbNalus (lead ++ rest) = units parts) := by
  have hfind : findStartCode (lead ++ rest) 0 = parts.head?.map fun part => (lead.length,part.1.length) := by
    rw [findStartCode,List.drop_zero,scan_clear hclear,h.scan,Nat.zero_add]
  refine ⟨hfind,fun hne => ?_⟩
  have hrun := (splitLoop_parts h lead rfl).1
  cases parts with
  | nil => exact absurd rfl hne
  | cons part parts =>
    rw [splitAnnexbNalus,hfind]
    exact congrArg Prod.snd hrun

theorem splitAnnexbNalus_of_codeFree (hne : data ≠ []) (h : CodeFree data) : splitAnnexbNalus data = [data] := by
  rw [splitAnnexbNalus,findStartCode,List.drop_zero,scan_of_codeFree h,List.isEmpty_eq_false_iff.mpr hne]
  rfl

theorem splitAnnexbNalus_ne_nil {u : Bytes} (hu : u ∈ splitAnnexbNalus data) : u ≠ [] := by
  obtain ⟨lead,rest,parts,rfl,hclear,hparts⟩ := exists_parts data
  by_cases hne : parts = []
  · subst hne
    cases hparts
    rw [List.append_nil] at hu
    by_cases hlead : lead = []
    · subst hlead
      cases hu
    · rw [splitAnnexbNalus_of_codeFree hlead hclear.codeFree] at hu
      rwa [List.mem_singleton.mp hu]
  · rw [(splitAnnexbNalus_parts hclear hparts).2 hne] at hu
    simpa using (List.mem_filter.mp hu).2

/-- Data with a start code is taken apart into the bytes before the first one and the parts behind them;
the splitter, with one turn for each part, returns the units that are not empty. -/
theorem splitAnnexbNalus_partition (data : Bytes) :
    (¬ CodeFree data → ∃ lead rest parts, data = lead ++ rest ∧ Clear lead rest ∧ parts ≠ [] ∧ Parts rest parts ∧
      splitAnnexbNalus data = (parts.map Prod.snd).filter (· ≠ []) ∧
      (∀ unit ∈ splitAnnexbNalus data, CodeFree unit) ∧
      ((splitLoop data).visited (findStartCode data 0)).length = parts.length) ∧
    (data ≠ [] → CodeFree data → splitAnnexbNalus data = [data]) := by
  refine ⟨fun hcode => ?_,splitAnnexbNalus_of_codeFree⟩
  obtain ⟨lead,rest,parts,rfl,hclear,hparts⟩ := exists_parts data
  have hne : parts ≠ [] := by
    rintro rfl
    cases hparts
    exact hcode (by simpa using hclear.codeFree)
  obtain ⟨hfind,hsplit⟩ := splitAnnexbNalus_parts hclear hparts
  refine ⟨lead,rest,parts,rfl,hclear,hne,hparts,hsplit hne,?_,?_⟩
  · intro unit hunit
    rw [hsplit hne] at hunit
    obtain ⟨part,hpart,rfl⟩ := List.mem_map.mp (List.mem_filter.mp hunit).1
    exact hparts.codeFree part hpart
  · rw [hfind]
    exact (splitLoop_parts hparts lead rfl).2

/-- Between a code of three bytes and one of four, and with an empty unit behind that. -/
theorem splitAnnexbNalus_mixed_codes :
    let data : Bytes := [9,0,0,1,0x67,0,0,0,1,0,0,1,0x65,0]
    (∃ lead rest parts, data = lead ++ rest ∧ Clear lead rest ∧ parts ≠ [] ∧ Parts rest parts ∧
      [[0x67],[0x65,0]] = (parts.map Prod.snd).filter (· ≠ []) ∧
      (∀ unit ∈ splitAnnexbNalus data, CodeFree unit) ∧
      ((splitLoop data).visited (findStartCode data 0)).length = parts.length) ∧
    splitAnnexbNalus [0x67,0,0] = [[0x67,0,0]] := by
  have hsplit : splitAnnexbNalus [9,0,0,1,0x67,0,0,0,1,0,0,1,0x65,0] = [[0x67],[0x65,0]] := by decide +kernel
  have h := (splitAnnexbNalus_partition [9,0,0,1,0x67,0,0,0,1,0,0,1,0x65,0]).1 (by decide)
  obtain ⟨lead,rest,parts,hdata,hclear,hne,hparts,hunits,hrest⟩ := h
  exact ⟨⟨lead,rest,parts,hdata,hclear,hne,hparts,hsplit.symm.trans hunits,hrest⟩,
    (splitAnnexbNalus_partition [0x67,0,0]).2 (by decide) (by decide)⟩

theorem CodeFree.clear (h : CodeFree nalu) (rest : List Bytes) : Clear nalu (annexb rest) := by
  induction nalu with
  | nil => trivial
  | cons b nalu ih =>
    refine ⟨?_,ih h.tail⟩
    cases rest with
    | nil => simpa [annexb] using h.startCodeLen_eq_none
    | cons next rest => simpa [annexb] using h.startCodeLen_append (next ++ annexb rest)

theorem parts_annexb (h : ∀ u ∈ nalus, CodeFree u) : Parts (annexb nalus) (nalus.map (startCode,·)) := by
  induction nalus with
  | nil => exact .nil
  | cons nalu rest ih =>
    obtain ⟨hfree,hrest⟩ := List.forall_mem_cons.mp h
    have hparts := Parts.cons (.inr rfl) (hfree.clear rest) (ih hrest)
    simpa [annexb,startCode] using hparts

/-- Splitting undoes joining, zeros at the end of a unit included. -/
theorem splitAnnexbNalus_annexb (hne : nalus ≠ [])
    (h : ∀ u ∈ nalus, u ≠ [] ∧ CodeFree u) : splitAnnexbNalus (annexb nalus) = nalus := by
  have hparts := parts_annexb fun u hu => (h u hu).2
  have hlead : Clear [] (annexb nalus) := trivial
  have hsplit := (splitAnnexbNalus_parts hlead hparts).2 (by simpa using hne)
  rw [List.nil_append] at hsplit
  rw [hsplit,units,List.map_map]
  change (nalus.map id).filter _ = _
  rw [List.map_id]
  exact List.filter_eq_self.mpr fun u hu => decide_eq_true (h u hu).1
end RustyRtc.Media
