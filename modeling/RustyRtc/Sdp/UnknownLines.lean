import RustyRtc.Foundation.Lists
import RustyRtc.Sdp.Stability

/-! # Lines that are not understood

`sdp/sdpc.rs` and `sdp/media.rs`: a line of an unknown kind is kept in its section and written out again. The sections
of a text are told apart here without reading anything else of it. A line that has no equals sign is of no kind, and
the reader drops it.
-/
namespace RustyRtc.Sdp
variable {p p' : Parsing} {l : Text} {kind rest x : Text} {o : Outline} {s : Sdp} (ls : List Text)

/-- The lines of unknown kinds, of the session and of each media section, and whether a line would go to the last. -/
structure Outline where
  session : List Text
  media : List (List Text)
  inMedia : Bool
  deriving DecidableEq, Repr
def sessionKinds : List Text := "vosut".toList.map ([·])

namespace Outline
variable {o : Outline} {l kind : Text}
def add (o : Outline) (l : Text) : Outline :=
  if o.inMedia then { o with media := onLast (· ++ [l]) o.media } else { o with session := o.session ++ [l] }
def field (o : Outline) (l kind : Text) : Outline :=
  if kind = ['m'] then { o with media := o.media ++ [[]],inMedia := true }
  else if kind ∈ sessionKinds then { o with inMedia := false }
  else if kind ∈ kinds then o
  else o.add l
def line (o : Outline) (l : Text) : Outline :=
  if l = [] then o else (splitOnce '=' l).elim (o.add l) fun split => o.field l split.1
def sections (o : Outline) : List (List Text) := o.session :: o.media
theorem field_of_mem_sessionKinds (h : kind ∈ sessionKinds) : o.field l kind = { o with inMedia := false } := by
  have hne : kind ≠ ['m'] := by
    rintro rfl
    exact absurd h (by decide)
  rw [field,if_neg hne,if_pos h]
theorem field_of_mem_kinds (h : kind ∈ kinds) (hm : kind ≠ ['m'])
    (hsession : kind ∉ sessionKinds) : o.field l kind = o := by
  rw [field,if_neg hm,if_neg hsession,if_pos h]

theorem field_of_not_mem_kinds (h : kind ∉ kinds) : o.field l kind = o.add l := by
  have hm : kind ≠ ['m'] := by
    rintro rfl
    exact h (by decide)
  have hsession : kind ∉ sessionKinds := fun hmem => h ((by decide : ∀ k ∈ sessionKinds, k ∈ kinds) kind hmem)
  rw [field,if_neg hm,if_neg hsession,if_neg h]
end Outline

def outline (ls : List Text) : Outline := ls.foldl Outline.line ⟨[],[],false⟩

theorem map_onLast {α β : Type} {f : α → α} {g : α → β} {f' : β → β} (h : ∀ x, g (f x) = f' (g x)) (l : List α) :
    (onLast f l).map g = onLast f' (l.map g) := by
  unfold onLast
  rw [List.map_append,List.map_dropLast,List.getLast?_map]
  cases l.getLast? with
  | none => rfl
  | some x => simp [h]

theorem onLast_id {α : Type} (l : List α) : onLast (fun x => x) l = l := by
  rcases List.eq_nil_or_concat l with rfl | ⟨l,x,rfl⟩
  · rfl
  · rw [List.concat_eq_append,onLast_concat]

namespace Parsing
def outline (p : Parsing) : Outline := ⟨p.extraLines,p.media.map (·.extraLines),p.inMedia⟩
theorem outline_onMedia {f : Media → Media} (hf : ∀ m, (f m).extraLines = m.extraLines) :
    (p.onMedia f).outline = p.outline := by
  have hmedia : (onLast f p.media).map (·.extraLines) = p.media.map (·.extraLines) :=
    (@map_onLast _ _ f (·.extraLines) (fun x => x) hf p.media).trans (onLast_id _)
  unfold outline onMedia
  rw [hmedia]

theorem outline_field (h : p.field l kind rest = .ok p') : p'.outline = p.outline.field l kind := by
  have honMedia : ∀ {q : Parsing} {f : Media → Media}, q.outline = p.outline → (∀ m, (f m).extraLines = m.extraLines) →
      (if p.inMedia then p.onMedia f else q).outline = p.outline := by
    intro q f hq hf
    split
    · exact outline_onMedia hf
    · exact hq
  have honTime : ∀ {field : String} {f : TimeDesc → TimeDesc}, p.onTime field f = .ok p' → p'.outline = p.outline := by
    intro field f h
    unfold onTime at h
    split at h
    · cases h
    · cases h
      rfl
  have hsession : ∀ kind ∈ sessionKinds, p.outline.field l kind = { p.outline with inMedia := false } :=
    fun kind hkind => Outline.field_of_mem_sessionKinds hkind
  have hsame : ∀ kind ∈ [['i'],['e'],['p'],['c'],['b'],['r'],['z'],['a']], p.outline.field l kind = p.outline := by
    intro kind hkind
    obtain ⟨hknown,hm,hs⟩ := (by decide : ∀ kind ∈ [['i'],['e'],['p'],['c'],['b'],['r'],['z'],['a']],
      kind ∈ kinds ∧ kind ≠ ['m'] ∧ kind ∉ sessionKinds) kind hkind
    exact Outline.field_of_mem_kinds hknown hm hs
  by_cases hknown : kind ∈ kinds
  · unfold field at h
    split at h
    -- the version and the origin
    iterate 2
      obtain ⟨x,-,h⟩ := bind_eq_ok.mp h
      cases h
      exact (hsession _ (by decide)).symm
    · cases h
      exact (hsession _ (by decide)).symm
    · cases h
      refine Eq.trans ?_ (hsame _ ?_).symm
      · exact honMedia rfl fun _ => rfl
      · decide
    · cases h
      exact (hsession _ (by decide)).symm
    -- mails and phones
    iterate 2
      cases h
      exact (hsame _ (by decide)).symm
    -- the connection and the bandwidth
    iterate 2
      obtain ⟨x,-,h⟩ := bind_eq_ok.mp h
      cases h
      refine Eq.trans ?_ (hsame _ ?_).symm
      · exact honMedia rfl fun _ => rfl
      · decide
    · obtain ⟨x,-,h⟩ := bind_eq_ok.mp h
      cases h
      exact (hsession _ (by decide)).symm
    · exact (honTime h).trans (hsame _ (by decide)).symm
    · exact (honTime h).trans (hsame _ (by decide)).symm
    · obtain ⟨m,hm,h⟩ := bind_eq_ok.mp h
      cases h
      have hnew : m.extraLines = [] := (blank_fromStr hm).2
      rw [Outline.field,if_pos rfl]
      simp [outline,hnew]
    · cases h
      refine Eq.trans ?_ (hsame _ ?_).symm
      · exact honMedia rfl fun _ => rfl
      · decide
    · next hv ho hs hi hu he hp hc hb ht hr hz hm ha =>
      rw [kinds_eq] at hknown
      simp_all
  · rw [field_of_not_mem_kinds hknown] at h
    cases h
    rw [Outline.field_of_not_mem_kinds hknown,Outline.add]
    cases hmedia : p.inMedia with
    | false => simp [outline,hmedia]
    | true =>
      have hlast : (onLast (·.addExtraLine l) p.media).map (·.extraLines) =
          onLast (· ++ [l]) (p.media.map (·.extraLines)) := by
        refine map_onLast ?_ p.media
        exact fun _ => rfl
      simp [outline,onMedia,hmedia,hlast]
end Parsing

def hasEquals (l : Text) : Bool := '=' ∈ l
theorem exists_splitOnce (h : hasEquals l = true) : ∃ kind rest, splitOnce '=' l = some (kind,rest) := by
  cases hsplit : splitOnce '=' l with
  | none => exact absurd (of_decide_eq_true h) (not_mem_of_splitOnce hsplit)
  | some split => exact ⟨split.1,split.2,rfl⟩
theorem splitOnce_of_not_hasEquals (h : hasEquals l = false) : splitOnce '=' l = none :=
  splitOnce_eq_none (of_decide_eq_false h)
theorem Outline.line_of_splitOnce (h : splitOnce '=' l = some (kind,rest)) : o.line l = o.field l kind := by
  have hne : l ≠ [] := by
    rintro rfl
    cases h
  rw [line,if_neg hne,h]
  rfl
theorem Outline.line_of_none (hne : l ≠ []) (h : splitOnce '=' l = none) : o.line l = o.add l := by
  rw [line,if_neg hne,h]
  rfl

theorem Parsing.outline_line (h : p.line l = .ok p') :
    p'.outline = if hasEquals l then p.outline.line l else p.outline := by
  unfold Parsing.line at h
  split at h
  · next hsplit =>
    cases h
    rw [if_neg (by simpa [hasEquals] using not_mem_of_splitOnce hsplit)]
  · next kind rest hsplit =>
    have hmem : hasEquals l = true := by
      rw [(eq_append_of_splitOnce hsplit).1]
      simp [hasEquals]
    rw [if_pos hmem,Outline.line_of_splitOnce hsplit]
    exact outline_field h

theorem Parsing.outline_foldlM {ls : List Text} (h : ls.foldlM line p = .ok p') :
    p'.outline = (ls.filter hasEquals).foldl Outline.line p.outline := by
  induction ls generalizing p with
  | nil =>
    cases h
    rfl
  | cons l ls ih =>
    rw [List.foldlM_cons] at h
    obtain ⟨q,hq,h⟩ := bind_eq_ok.mp h
    rw [ih h,outline_line hq,List.filter_cons]
    split <;> rfl

theorem sections_of_parse {input : Text} (h : parse input = .ok s) :
    s.extraLines :: s.media.map (·.extraLines) = (outline ((textLines input).filter hasEquals)).sections := by
  obtain ⟨p,hp,hfinish⟩ := bind_eq_ok.mp h
  have houtline := Parsing.outline_foldlM hp
  rw [Parsing.eq_collected hfinish] at houtline
  exact congrArg Outline.sections houtline

namespace Outline
def keep (o : Outline) : Outline := ⟨o.session.filter hasEquals,o.media.map (List.filter hasEquals),o.inMedia⟩

theorem keep_add (o : Outline) (l : Text) : (o.add l).keep = if hasEquals l then o.keep.add l else o.keep := by
  have hlast : (onLast (· ++ [l]) o.media).map (List.filter hasEquals) =
      onLast (· ++ [l].filter hasEquals) (o.media.map (List.filter hasEquals)) := by
    refine map_onLast ?_ o.media
    exact fun x => List.filter_append x [l]
  cases hmedia : o.inMedia with
  | false =>
    cases hl : hasEquals l with
    | false | true => simp [add,keep,hmedia,hl]
  | true =>
    cases hl : hasEquals l with
    | false =>
      simp [add,keep,hmedia,hlast,hl,onLast_id]
    | true => simp [add,keep,hmedia,hlast,hl]

theorem keep_line (o : Outline) (l : Text) : (o.line l).keep = if hasEquals l then o.keep.line l else o.keep := by
  cases hl : hasEquals l with
  | false =>
    by_cases hne : l = []
    · rw [line,if_pos hne]
      rfl
    · rw [line_of_none hne (splitOnce_of_not_hasEquals hl),keep_add,hl]
      rfl
  | true =>
    obtain ⟨kind,rest,hsplit⟩ := exists_splitOnce hl
    rw [if_pos rfl,line_of_splitOnce hsplit,line_of_splitOnce hsplit,field,field]
    split
    · simp [keep]
    · split
      · rfl
      · split
        · rfl
        · rw [keep_add,if_pos hl]

theorem keep_foldl (o : Outline) (ls : List Text) :
    (ls.foldl line o).keep = (ls.filter hasEquals).foldl line o.keep := by
  induction ls generalizing o with
  | nil => rfl
  | cons l ls ih =>
    rw [List.foldl_cons,ih,keep_line,List.filter_cons]
    split <;> rfl
end Outline

theorem sections_filter :
    (outline (ls.filter hasEquals)).sections = (outline ls).sections.map (List.filter hasEquals) := by
  have hkeep : (outline ls).keep = outline (ls.filter hasEquals) := Outline.keep_foldl ⟨[],[],false⟩ ls
  rw [← hkeep]
  rfl
def Strange (l : Text) : Prop := l ≠ [] ∧ ∀ kind rest, splitOnce '=' l = some (kind,rest) → kind ∉ kinds
theorem mem_flatten_onLast {α : Type} {ls : List (List α)} (hne : ls ≠ []) {x y : α} :
    y ∈ (onLast (· ++ [x]) ls).flatten ↔ y ∈ ls.flatten ∨ y = x := by
  rcases List.eq_nil_or_concat ls with rfl | ⟨ls,l,rfl⟩
  · exact absurd rfl hne
  · rw [List.concat_eq_append,onLast_concat]
    simp [or_assoc]

namespace Outline
variable {o : Outline}
def Sound (o : Outline) : Prop := o.inMedia = true → o.media ≠ []
theorem mem_add (h : o.Sound) : x ∈ (o.add l).sections.flatten ↔ x ∈ o.sections.flatten ∨ x = l := by
  unfold add sections
  split
  · next hmedia => simp [mem_flatten_onLast (h hmedia),or_assoc]
  · simp [or_comm,or_left_comm]

theorem Sound.add (h : o.Sound) (l : Text) : (o.add l).Sound := by
  unfold Outline.add
  split
  · next hmedia =>
    intro _
    obtain ⟨ls,x,hls⟩ := (List.eq_nil_or_concat o.media).resolve_left (h hmedia)
    rw [hls,List.concat_eq_append]
    dsimp only
    rw [onLast_concat]
    simp
  · exact h

theorem Sound.line (h : o.Sound) (l : Text) : (o.line l).Sound ∧
    ∀ x, x ∈ (o.line l).sections.flatten ↔ x ∈ o.sections.flatten ∨ x = l ∧ Strange l := by
  by_cases hne : l = []
  · rw [Outline.line,if_pos hne]
    exact ⟨h,fun x => by simp [Strange,hne]⟩
  · cases hsplit : splitOnce '=' l with
    | none =>
      have hstrange : Strange l := ⟨hne,by rw [hsplit]; exact nofun⟩
      rw [line_of_none hne hsplit]
      exact ⟨h.add l,fun x => by rw [mem_add h,and_iff_left hstrange]⟩
    | some split =>
      obtain ⟨kind,rest⟩ := split
      rw [line_of_splitOnce hsplit]
      by_cases hknown : kind ∈ kinds
      · have hnot : ¬ Strange l := fun hs => hs.2 kind rest hsplit hknown
        simp only [hnot,and_false,or_false]
        unfold field
        split
        · exact ⟨fun _ => by simp,fun x => by simp [sections]⟩
        · split
          · exact ⟨nofun,fun x => Iff.rfl⟩
          · exact ⟨h,fun x => Iff.rfl⟩
      · have hstrange : Strange l := by
          refine ⟨hne,fun kind' rest' h' => ?_⟩
          obtain ⟨rfl,-⟩ := Prod.mk.inj (Option.some.inj (hsplit.symm.trans h'))
          exact hknown
        rw [field_of_not_mem_kinds hknown]
        exact ⟨h.add l,fun x => by rw [mem_add h,and_iff_left hstrange]⟩
end Outline

theorem mem_sections_outline : x ∈ (outline ls).sections.flatten ↔ x ∈ ls ∧ Strange x := by
  have hrun : ∀ o : Outline, o.Sound →
      (x ∈ (ls.foldl Outline.line o).sections.flatten ↔ x ∈ o.sections.flatten ∨ x ∈ ls ∧ Strange x) := by
    induction ls with
    | nil => exact fun o _ => by simp
    | cons l ls ih =>
      intro o ho
      obtain ⟨hsound,hmem⟩ := ho.line l
      rw [List.foldl_cons,ih _ hsound,hmem,List.mem_cons,or_assoc]
      refine or_congr_right ⟨?_,?_⟩
      · rintro (⟨rfl,hx⟩ | ⟨hx,hs⟩)
        · exact ⟨.inl rfl,hx⟩
        · exact ⟨.inr hx,hs⟩
      · rintro ⟨rfl | hx,hs⟩
        · exact .inl ⟨rfl,hs⟩
        · exact .inr ⟨hx,hs⟩
  rw [outline, hrun _ fun h => absurd h Bool.false_ne_true]
  simp [Outline.sections]

theorem sections_map_filter_iff :
    (outline ls).sections.map (List.filter hasEquals) = (outline ls).sections ↔ ∀ l ∈ ls, l ≠ [] → '=' ∈ l := by
  rw [map_filter_eq_self_iff]
  constructor
  · intro h l hl hne
    by_contra hno
    have hstrange : Strange l := ⟨hne,by rw [splitOnce_eq_none hno]; exact nofun⟩
    exact hno (of_decide_eq_true (h l ((mem_sections_outline ls).mpr ⟨hl,hstrange⟩)))
  · intro h x hx
    obtain ⟨hmem,hstrange⟩ := (mem_sections_outline ls).mp hx
    exact decide_eq_true (h x hmem hstrange.1)

/-- The unknown lines with an equals sign are written out again, each in its section and in their order. All unknown
lines are, exactly if every line that is not empty has an equals sign. -/
theorem unknown_lines_survive_iff {input : Text} {s : Sdp} (h : parse input = .ok s) :
    (outline (textLines s.encode)).sections = (outline (textLines input)).sections.map (List.filter hasEquals) ∧
      ((outline (textLines s.encode)).sections = (outline (textLines input)).sections ↔
        ∀ l ∈ textLines input, l ≠ [] → '=' ∈ l) := by
  have hstable := stable_of_parse h
  obtain ⟨inMedia,hclean,-⟩ := hstable.reads
  have hlines : ∀ l ∈ textLines s.encode, l ≠ [] → '=' ∈ l := by
    intro l hl hne
    rw [encode, textLines_flatMap fun l hl => (hclean l hl).1.1] at hl
    rcases List.mem_append.mp hl with hl | hl
    · obtain ⟨l,hmem,rfl⟩ := List.mem_map.mp hl
      rw [(hclean l hmem).1.chomp_eq]
      exact (hclean l hmem).2
    · exact absurd (List.mem_singleton.mp hl) hne
  have hwritten := sections_of_parse hstable.parse_encode
  rw [sections_filter, (sections_map_filter_iff _).mpr hlines] at hwritten
  have hread := sections_of_parse h
  rw [sections_filter] at hread
  have hkept : (outline (textLines s.encode)).sections =
      (outline (textLines input)).sections.map (List.filter hasEquals) := hwritten.symm.trans hread
  refine ⟨hkept,?_⟩
  rw [hkept]
  exact sections_map_filter_iff _

def strangeText : Text :=
  "v=0\no=- 1 2 IN IP4 h\ns=x\nk=1\nm=audio 9 RTP 0\nx-one=2\n=3\nm=video 9 RTP 0\ny=4\nu=\nkk=5\r\n".toList

theorem unknown_lines_survive_strangeText : ∃ s, parse strangeText = .ok s ∧
    (outline (textLines s.encode)).sections = (outline (textLines strangeText)).sections ∧
    (outline (textLines strangeText)).sections = ["k=1".toList,"kk=5".toList] ::
      [["x-one=2".toList,"=3".toList],["y=4".toList]] := by
  obtain ⟨hok,hequals,hsections⟩ : (parse strangeText).isOk = true ∧
      (∀ l ∈ textLines strangeText, l ≠ [] → '=' ∈ l) ∧
      (outline (textLines strangeText)).sections = ["k=1".toList,"kk=5".toList] ::
        [["x-one=2".toList,"=3".toList],["y=4".toList]] := by decide +kernel
  cases h : parse strangeText with
  | error e =>
    rw [h] at hok
    cases hok
  | ok s => exact ⟨s,rfl,(unknown_lines_survive_iff h).2.mpr hequals,hsections⟩

/-- A line without an equals sign is not written again. -/
theorem line_without_equals_lost : ∃ input s, parse input = .ok s ∧
    (outline (textLines input)).sections = [["junk".toList]] ∧ (outline (textLines s.encode)).sections = [[]] := by
  refine ⟨"v=0\no=- 1 2 IN IP4 h\ns=x\njunk\n".toList,?_⟩
  have hwritten : ((parse "v=0\no=- 1 2 IN IP4 h\ns=x\njunk\n".toList).toOption.map fun s =>
      (outline (textLines s.encode)).sections) = some [[]] := by decide +kernel
  cases h : parse "v=0\no=- 1 2 IN IP4 h\ns=x\njunk\n".toList with
  | error e =>
    rw [h] at hwritten
    cases hwritten
  | ok s =>
    rw [h] at hwritten
    exact ⟨s,rfl,by decide +kernel,Option.some.inj hwritten⟩
end RustyRtc.Sdp
