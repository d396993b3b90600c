import RustyRtc.Sdp.Lines

/-! # Written descriptions are read back

What a line can leave in a description is told apart from what a record could hold: texts without line ends,
words without white space, keys without colons. Every accepted description consists of such parts, and a
description that does is read back from its own lines, group by group in the order they are written.
-/
namespace RustyRtc.Sdp
open Parsing
variable {c : Char} {l s : Text} {a : Attribute} {f : Media → Media} {ls : List Text} {m : Media} {t kind rest : Text}
variable {p : Parsing} {ls' : List Text}

def Clean (t : Text) : Prop := '\n' ∉ t ∧ t.getLast? ≠ some '\r'

namespace Clean
variable {t a : Text} {b : Text}
theorem chomp_eq (h : Clean t) : chomp t = t := by
  rcases List.eq_nil_or_concat t with rfl | ⟨front,c,rfl⟩
  · rfl
  · rw [List.concat_eq_append] at h ⊢
    exact chomp_concat (fun hc => h.2 (by simp [hc])) front

theorem of_chomp (h : '\n' ∉ t) : Clean (chomp t) := by
  refine ⟨fun hmem => h ((List.rdropWhile_prefix _ _).subset hmem),fun hlast => ?_⟩
  obtain ⟨hne,hcr⟩ := List.mem_getLast?_eq_getLast hlast
  exact List.rdropWhile_last_not _ t hne (decide_eq_true hcr.symm)
theorem append (ha : '\n' ∉ a) (hb : Clean b) (hne : b ≠ []) : Clean (a ++ b) := by
  refine ⟨by simpa using ⟨ha,hb.1⟩,?_⟩
  rw [List.getLast?_append_of_ne_nil _ hne]
  exact hb.2
theorem concat (ha : '\n' ∉ a) (hlf : c ≠ '\n') (hcr : c ≠ '\r') : Clean (a ++ [c]) :=
  append ha ⟨by simpa using hlf.symm,by simpa using hcr⟩ (by simp)
theorem line (hc : c ≠ '\n') (ht : Clean t) : Clean (c :: '=' :: t) ∧ '=' ∈ c :: '=' :: t := by
  refine ⟨?_,by simp⟩
  cases t with
  | nil => exact concat (a := [c]) (by simpa using hc.symm) (by decide) (by decide)
  | cons d t => exact append (a := [c,'=']) (by simpa using hc.symm) ht (by simp)
theorem of_token (h : Token t) : Clean t :=
  ⟨h.not_mem rfl,fun hlast => h.not_mem rfl (List.mem_of_getLast? hlast)⟩

theorem decimal (n : ℕ) : Clean (decimal n) := of_token (token_decimal n)
theorem of_splitOnce {sep : Char} (hl : Clean l) (h : splitOnce sep l = some (a,b)) : '\n' ∉ a ∧ Clean b := by
  obtain ⟨rfl,-⟩ := eq_append_of_splitOnce h
  have hlf : '\n' ∉ a ∧ '\n' ∉ sep :: b := by simpa using hl.1
  refine ⟨hlf.1,fun hmem => hlf.2 (List.mem_cons_of_mem _ hmem),fun hlast => hl.2 ?_⟩
  have hne : b ≠ [] := by
    rintro rfl
    cases hlast
  rw [List.getLast?_append_of_ne_nil _ (by simp),List.getLast?_cons_of_ne_nil hne,hlast]
end Clean

theorem not_mem_trim (h : c ∉ t) : c ∉ trim t := fun hmem => h (mem_of_mem_trim hmem)
theorem Clean.of_trimmed (hlf : '\n' ∉ t) (h : trim t = t) : Clean t := by
  refine ⟨hlf,fun hlast => ?_⟩
  rw [← h] at hlast
  exact absurd (last_trim_not_whitespace hlast) (by decide)
theorem Clean.intercalate {ts : List Text} (h : ∀ t ∈ ts, Token t) : Clean (List.intercalate [' '] ts) :=
  .of_trimmed (not_mem_intercalate (by decide) fun t ht => (h t ht).not_mem rfl) (trim_intercalate h)

namespace Attribute
structure Stable (a : Attribute) : Prop where
  colon : ':' ∉ a.key
  key : '\n' ∉ a.key ∧ trim a.key = a.key
  value : ∀ v, a.value = some v → '\n' ∉ v ∧ trim v = v

theorem stable_fromStr (h : '\n' ∉ s) : (fromStr s).Stable := by
  unfold fromStr
  split
  · next k v hsplit =>
    obtain ⟨rfl,hcolon⟩ := eq_append_of_splitOnce hsplit
    have hlf : '\n' ∉ k ∧ '\n' ∉ ':' :: v := by simpa using h
    refine ⟨not_mem_trim hcolon,⟨not_mem_trim hlf.1,trim_trim k⟩,?_⟩
    rintro _ ⟨⟩
    exact ⟨not_mem_trim fun hmem => hlf.2 (List.mem_cons_of_mem _ hmem),trim_trim v⟩
  · next hsplit =>
    exact ⟨not_mem_trim (not_mem_of_splitOnce hsplit),⟨not_mem_trim h,trim_trim s⟩,nofun⟩

theorem Stable.clean (h : a.Stable) : Clean a.fmt := by
  unfold fmt
  cases hv : a.value with
  | none => exact .of_trimmed h.key.1 h.key.2
  | some v =>
    obtain ⟨hlf,htrim⟩ := h.value v hv
    dsimp only
    by_cases hne : v = []
    · rw [hne,List.append_nil]
      exact .concat h.key.1 (by decide) (by decide)
    · exact .append (by simpa using h.key.1) (.of_trimmed hlf htrim) hne

theorem Stable.fromStr_fmt (h : a.Stable) : fromStr a.fmt = a := by
  obtain ⟨key,value⟩ := a
  unfold fmt
  cases value with
  | none =>
    dsimp only
    rw [fromStr,splitOnce_eq_none h.colon]
    dsimp only
    rw [h.key.2]
  | some v =>
    dsimp only
    rw [List.append_assoc,List.singleton_append,fromStr,splitOnce_append h.colon]
    dsimp only
    rw [h.key.2,(h.value v rfl).2]
end Attribute

namespace Bandwidth
variable {b : Bandwidth}
structure Stable (b : Bandwidth) : Prop where
  colon : ':' ∉ b.bwtype
  lineFeed : '\n' ∉ b.bwtype

theorem stable_fromStr (hs : '\n' ∉ s) (h : fromStr s = .ok b) : b.Stable := by
  unfold fromStr at h
  split at h
  · next typ val hsplit =>
    obtain ⟨rfl,hcolon⟩ := eq_append_of_splitOnce hsplit
    obtain ⟨n,-,h⟩ := bind_eq_ok.mp h
    cases h
    exact ⟨hcolon,fun hmem => hs (List.mem_append_left _ hmem)⟩
  · cases h

theorem Stable.clean (h : b.Stable) : Clean b.fmt :=
  .append (by simpa using h.lineFeed) (.decimal _) (token_decimal _).1
theorem Stable.fromStr_fmt (h : b.Stable) : fromStr b.fmt = .ok b := by
  rw [fmt,List.append_assoc,List.singleton_append,fromStr,splitOnce_append h.colon]
  dsimp only
  rw [parseU64_decimal]
  rfl
end Bandwidth
theorem AddrType.token_fmt (t : AddrType) : Token t.fmt := by
  cases t <;> exact ⟨by decide,by decide⟩
theorem AddrType.fromStr_fmt (t : AddrType) : fromStr t.fmt = .ok t := by
  cases t <;> rfl

namespace Connection
variable {c : Connection}
structure Stable (c : Connection) : Prop where
  netType : Token c.netType
  connAddress : Token c.connAddress

theorem stable_fromStr (h : fromStr s = .ok c) : c.Stable := by
  unfold fromStr at h
  split at h
  · next netType addrType address hsplit =>
    obtain ⟨t,-,h⟩ := bind_eq_ok.mp h
    cases h
    exact ⟨token_of_mem_splitWhitespace (by rw [hsplit]; simp),token_of_mem_splitWhitespace (by rw [hsplit]; simp)⟩
  · cases h

theorem fmt_eq (c : Connection) : c.fmt = List.intercalate [' '] [c.netType,c.addrType.fmt,c.connAddress] := by
  simp [fmt]
theorem Stable.tokens (h : c.Stable) : ∀ t ∈ [c.netType,c.addrType.fmt,c.connAddress], Token t := by
  simpa using ⟨h.netType,c.addrType.token_fmt,h.connAddress⟩
theorem Stable.clean (h : c.Stable) : Clean c.fmt := c.fmt_eq ▸ .intercalate h.tokens
theorem Stable.fromStr_fmt (h : c.Stable) : fromStr c.fmt = .ok c := by
  simp only [fromStr,c.fmt_eq,splitWhitespace_intercalate h.tokens,AddrType.fromStr_fmt]
  rfl
end Connection

namespace Origin
variable {o : Origin}
structure Stable (o : Origin) : Prop where
  username : Token o.username
  netType : Token o.netType
  unicastAddress : ∀ a, o.unicastAddress = some a → Token a

theorem stable_fromStr (h : fromStr s = .ok o) : o.Stable := by
  unfold fromStr at h
  split at h
  · next username sessionId sessionVersion netType addrType rest hsplit =>
    obtain ⟨_,-,h⟩ := bind_eq_ok.mp h
    obtain ⟨_,-,h⟩ := bind_eq_ok.mp h
    obtain ⟨_,-,h⟩ := bind_eq_ok.mp h
    cases h
    refine ⟨token_of_mem_splitWhitespace (by rw [hsplit]; simp),
      token_of_mem_splitWhitespace (by rw [hsplit]; simp),fun a ha => ?_⟩
    have hmem := List.mem_of_mem_head? ha
    exact token_of_mem_splitWhitespace (by rw [hsplit]; simp [hmem])
  · cases h

theorem Stable.clean (h : o.Stable) : Clean o.fmt := by
  have huser := h.username.not_mem (c := '\n') rfl
  have hnet := h.netType.not_mem (c := '\n') rfl
  have haddr := o.addrType.token_fmt.not_mem (c := '\n') rfl
  have hid := (token_decimal o.sessionId.toNat).not_mem (c := '\n') rfl
  have hversion := (token_decimal o.sessionVersion.toNat).not_mem (c := '\n') rfl
  unfold fmt
  cases hu : o.unicastAddress with
  | none =>
    dsimp only
    rw [List.append_nil]
    exact .concat (by simp [huser,hnet,haddr,hid,hversion]) (by decide) (by decide)
  | some a =>
    have ha := h.unicastAddress a hu
    dsimp only
    rw [List.append_cons]
    exact .append (by simp [huser,hnet,haddr,hid,hversion]) (.of_token ha) ha.1

theorem Stable.fromStr_fmt (h : o.Stable) : fromStr o.fmt = .ok o := by
  have hsplit : splitWhitespace o.fmt = o.username :: decimal o.sessionId.toNat :: decimal o.sessionVersion.toNat ::
      o.netType :: o.addrType.fmt :: o.unicastAddress.toList := by
    simp only [fmt,List.append_assoc,List.cons_append,List.nil_append]
    rw [h.username.splitWhitespace_append,(token_decimal _).splitWhitespace_append,
      (token_decimal _).splitWhitespace_append,h.netType.splitWhitespace_append,
      o.addrType.token_fmt.splitWhitespace_append]
    cases hu : o.unicastAddress with
    | none => rfl
    | some a =>
      dsimp only
      rw [splitWhitespace_space,(h.unicastAddress a hu).splitWhitespace_eq]
      rfl
  simp only [fromStr,hsplit,parseU64_decimal,AddrType.fromStr_fmt]
  obtain ⟨_,_,_,_,_,address⟩ := o
  cases address <;> rfl
theorem stable_newBlank (ntpSeconds : UInt64) : (newBlank ntpSeconds).Stable := by
  have husername : Token ['-'] := ⟨by decide,by decide⟩
  have hnetType : Token "IN".toList := ⟨by decide,by decide⟩
  exact ⟨husername,hnetType,nofun⟩
end Origin

namespace TimeDesc
structure Stable (t : TimeDesc) : Prop where
  repeats : ∀ r ∈ t.repeats, Clean r
  zone : ∀ z, t.zone = some z → Clean z

theorem stable_fromStr {t : TimeDesc} (h : fromStr s = .ok t) : t.Stable := by
  unfold fromStr at h
  split at h
  · obtain ⟨_,-,h⟩ := bind_eq_ok.mp h
    obtain ⟨_,-,h⟩ := bind_eq_ok.mp h
    cases h
    exact ⟨by simp,nofun⟩
  · cases h

theorem fromStr_line (t : TimeDesc) :
    fromStr (decimal t.start.toNat ++ [' '] ++ decimal t.stop.toNat) = .ok ⟨t.start,t.stop,[],none⟩ := by
  have hsplit : splitWhitespace (decimal t.start.toNat ++ [' '] ++ decimal t.stop.toNat) =
      [decimal t.start.toNat,decimal t.stop.toNat] := by
    rw [← splitWhitespace_intercalate (by simp [token_decimal] : ∀ w ∈ [decimal t.start.toNat,_],Token w)]
    simp
  simp only [fromStr,hsplit,parseU64_decimal]
  rfl
end TimeDesc

namespace PortSpec
theorem token_fmt (p : PortSpec) : Token p.fmt := by
  obtain ⟨base,num⟩ := p
  cases num with
  | none => exact token_decimal _
  | some n =>
    simp only [fmt,List.append_assoc,List.singleton_append]
    exact (token_decimal _).join rfl (token_decimal _)

theorem fromStr_fmt (p : PortSpec) : fromStr p.fmt = .ok p := by
  have hslash := not_mem_decimal (c := '/') rfl
  obtain ⟨base,num⟩ := p
  cases num with
  | none =>
    simp only [fmt,fromStr,splitOnce_eq_none (hslash _),parseU16_decimal]
    rfl
  | some n =>
    simp only [fmt,List.append_assoc,List.singleton_append,fromStr,splitOnce_append (hslash _),parseU16_decimal]
    rfl
end PortSpec

/-- The name of the kind is a word, and no other kind's. -/
def MediaKind.Stable (k : MediaKind) : Prop := Token k.fmt ∧ MediaKind.fromStr k.fmt = k

theorem MediaKind.stable_fromStr (h : Token s) : (fromStr s).Stable := by
  have hfmt : (fromStr s).fmt = s := by
    unfold fromStr
    split_ifs with h₁ h₂ h₃ h₄ h₅
    · exact h₁.symm
    · exact h₂.symm
    · exact h₃.symm
    · exact h₄.symm
    · exact h₅.symm
    · rfl
  rw [Stable,hfmt]
  exact ⟨h,rfl⟩

def kinds : List Text := "vosiuepcbtrzma".toList.map ([·])
theorem kinds_eq : kinds = [['v'],['o'],['s'],['i'],['u'],['e'],['p'],['c'],['b'],['t'],['r'],['z'],['m'],['a']] := rfl
def Unknown (l : Text) : Prop := ∃ kind rest, splitOnce '=' l = some (kind,rest) ∧ kind ∉ kinds
theorem Unknown.equals (h : Unknown l) : '=' ∈ l := by
  obtain ⟨kind,rest,hsplit,-⟩ := h
  rw [(eq_append_of_splitOnce hsplit).1]
  simp
theorem Parsing.field_of_not_mem_kinds (h : kind ∉ kinds) : p.field l kind rest =
      .ok (if p.inMedia then p.onMedia (·.addExtraLine l) else { p with extraLines := p.extraLines ++ [l] }) := by
  unfold field
  split
  iterate 14 exact absurd (by decide) h
  rfl

namespace Media
variable {m : Media}
structure Stable (m : Media) : Prop where
  kind : m.kind.Stable
  proto : Token m.proto
  fmts : ∀ f ∈ m.fmts, Token f
  title : ∀ t, m.title = some t → Clean t
  connection : ∀ c, m.connection = some c → c.Stable
  bandwidth : ∀ b ∈ m.bandwidth, b.Stable
  attrs : ∀ a ∈ m.attrs, a.Stable
  extraLines : ∀ l ∈ m.extraLines, Clean l ∧ Unknown l

theorem stable_fromStr (h : fromStr s = .ok m) : m.Stable := by
  unfold fromStr at h
  split at h
  · cases h
  · cases h
  · obtain ⟨_,-,h⟩ := bind_eq_ok.mp h
    cases h
  · next kind port proto fmts hsplit =>
    obtain ⟨_,-,h⟩ := bind_eq_ok.mp h
    cases h
    have htoken : ∀ t ∈ kind :: port :: proto :: fmts, Token t := fun t ht =>
      token_of_mem_splitWhitespace (hsplit ▸ ht)
    exact {
      kind := MediaKind.stable_fromStr (htoken kind (by simp))
      proto := htoken proto (by simp)
      fmts := fun f hf => htoken f (by simp [hf])
      title := nofun
      connection := nofun
      bandwidth := by simp
      attrs := by simp
      extraLines := by simp }

def head (m : Media) : Text :=
  m.kind.fmt ++ [' '] ++ m.port.fmt ++ [' '] ++ m.proto ++
    if m.fmts.isEmpty then [] else ' ' :: List.intercalate [' '] m.fmts

theorem head_eq (m : Media) :
    m.head = List.intercalate [' '] (m.kind.fmt :: m.port.fmt :: m.proto :: m.fmts) := by
  unfold head
  cases m.fmts <;> simp
theorem Stable.tokens (h : m.Stable) : ∀ t ∈ m.kind.fmt :: m.port.fmt :: m.proto :: m.fmts, Token t := by
  simp only [List.forall_mem_cons]
  exact ⟨h.kind.1,m.port.token_fmt,h.proto,h.fmts⟩
theorem Stable.fromStr_head (h : m.Stable) :
    fromStr m.head = .ok ⟨m.kind,m.port,m.proto,m.fmts,none,none,[],[],[]⟩ := by
  simp only [fromStr,m.head_eq,splitWhitespace_intercalate h.tokens,PortSpec.fromStr_fmt,h.kind.2]
  rfl
theorem Stable.clean_head (h : m.Stable) : Clean m.head := m.head_eq ▸ .intercalate h.tokens
end Media

namespace Parsing
structure Stable (p : Parsing) : Prop where
  origin : ∀ o, p.origin = some o → o.Stable
  sessionName : ∀ t, p.sessionName = some t → Clean t
  sessionInfo : ∀ t, p.sessionInfo = some t → Clean t
  uri : ∀ t, p.uri = some t → Clean t
  emails : ∀ t ∈ p.emails, Clean t
  phones : ∀ t ∈ p.phones, Clean t
  connection : ∀ c, p.connection = some c → c.Stable
  bandwidth : ∀ b ∈ p.bandwidth, b.Stable
  times : ∀ t ∈ p.times, t.Stable
  attrs : ∀ a ∈ p.attrs, a.Stable
  media : ∀ m ∈ p.media, m.Stable
  extraLines : ∀ l ∈ p.extraLines, Clean l ∧ Unknown l

theorem forall_mem_onLast {α : Type} {P : α → Prop} {f : α → α} {l : List α} (h : ∀ x ∈ l, P x)
    (hf : ∀ x, P x → P (f x)) : ∀ x ∈ onLast f l, P x := by
  intro x hx
  rcases mem_onLast hx with hx | ⟨y,hy,rfl⟩
  · exact h x hx
  · exact hf y (h y hy)
theorem forall_mem_concat {α : Type} {P : α → Prop} {l : List α} (h : ∀ x ∈ l, P x) {x : α} (hx : P x) :
    ∀ y ∈ l ++ [x], P y := by
  intro y hy
  rcases List.mem_append.mp hy with hy | hy
  · exact h y hy
  · exact List.mem_singleton.mp hy ▸ hx

namespace Stable
variable {p p' : Parsing}
theorem init : Parsing.init.Stable := by
  constructor <;> simp [Parsing.init]
theorem onMedia (h : p.Stable) (hf : ∀ m, m.Stable → (f m).Stable) : (p.onMedia f).Stable :=
  { h with media := forall_mem_onLast h.media hf }

theorem onTime (h : p.Stable) {field : String} {f : TimeDesc → TimeDesc} (hf : ∀ t, t.Stable → (f t).Stable)
    (hp : p.onTime field f = .ok p') : p'.Stable := by
  unfold Parsing.onTime at hp
  split at hp
  · cases hp
  · cases hp
    exact { h with times := forall_mem_onLast h.times hf }

theorem route (h : p.Stable) {q : Parsing} (hf : ∀ m, m.Stable → (f m).Stable) (hq : q.Stable) :
    (if p.inMedia then p.onMedia f else q).Stable := by
  split
  · exact h.onMedia hf
  · exact hq

theorem field (h : p.Stable) (hl : Clean l) (hsplit : splitOnce '=' l = some (kind,rest))
    (hp : p.field l kind rest = .ok p') : p'.Stable := by
  obtain ⟨-,hrest⟩ := hl.of_splitOnce hsplit
  unfold Parsing.field at hp
  split at hp
  · obtain ⟨_,-,hp⟩ := bind_eq_ok.mp hp
    cases hp
    exact { h with }
  · obtain ⟨o,ho,hp⟩ := bind_eq_ok.mp hp
    cases hp
    exact { h with origin := by rintro _ ⟨⟩; exact Origin.stable_fromStr ho }
  · cases hp
    exact { h with sessionName := by rintro _ ⟨⟩; exact hrest }
  · cases hp
    exact h.route (fun m hm => { hm with title := by rintro _ ⟨⟩; exact hrest })
      { h with sessionInfo := by rintro _ ⟨⟩; exact hrest }
  · cases hp
    exact { h with uri := by rintro _ ⟨⟩; exact hrest }
  · cases hp
    exact { h with emails := forall_mem_concat h.emails hrest }
  · cases hp
    exact { h with phones := forall_mem_concat h.phones hrest }
  · obtain ⟨c,hc,hp⟩ := bind_eq_ok.mp hp
    cases hp
    have hc := Connection.stable_fromStr hc
    exact h.route (fun m hm => { hm with connection := by rintro _ ⟨⟩; exact hc })
      { h with connection := by rintro _ ⟨⟩; exact hc }
  · obtain ⟨b,hb,hp⟩ := bind_eq_ok.mp hp
    cases hp
    have hb := Bandwidth.stable_fromStr hrest.1 hb
    exact h.route (fun m hm => { hm with bandwidth := forall_mem_concat hm.bandwidth hb })
      { h with bandwidth := forall_mem_concat h.bandwidth hb }
  · obtain ⟨t,ht,hp⟩ := bind_eq_ok.mp hp
    cases hp
    exact { h with times := forall_mem_concat h.times (TimeDesc.stable_fromStr ht) }
  · exact h.onTime (f := (·.addRepeat rest))
      (fun t ht => { ht with repeats := forall_mem_concat ht.repeats hrest }) hp
  · exact h.onTime (f := (·.setZone (some rest))) (fun t ht => { ht with zone := by rintro _ ⟨⟩; exact hrest }) hp
  · obtain ⟨m,hm,hp⟩ := bind_eq_ok.mp hp
    cases hp
    exact { h with media := forall_mem_concat h.media (Media.stable_fromStr hm) }
  · cases hp
    have ha := Attribute.stable_fromStr hrest.1
    exact h.route (fun m hm => { hm with attrs := forall_mem_concat hm.attrs ha })
      { h with attrs := forall_mem_concat h.attrs ha }
  · next hv ho hs hi hu he hph hc hb ht hr hz hm ha =>
    cases hp
    have hkind : kind ∉ kinds := by
      simp only [kinds_eq,List.mem_cons,List.not_mem_nil,or_false,not_or]
      exact ⟨hv,ho,hs,hi,hu,he,hph,hc,hb,ht,hr,hz,hm,ha⟩
    have hline : Clean l ∧ Unknown l := ⟨hl,kind,rest,hsplit,hkind⟩
    exact h.route (fun m hm => { hm with extraLines := forall_mem_concat hm.extraLines hline })
      { h with extraLines := forall_mem_concat h.extraLines hline }

theorem foldlM (h : p.Stable) (hls : ∀ l ∈ ls, Clean l) (hp : ls.foldlM line p = .ok p') : p'.Stable := by
  induction ls generalizing p with
  | nil =>
    cases hp
    exact h
  | cons l ls ih =>
    obtain ⟨hl,hls⟩ := List.forall_mem_cons.mp hls
    rw [List.foldlM_cons] at hp
    obtain ⟨q,hq,hp⟩ := bind_eq_ok.mp hp
    refine ih ?_ hls hp
    unfold line at hq
    split at hq
    · cases hq
      exact h
    · next hsplit => exact h.field hl hsplit hq
end Stable
end Parsing

def Reads (ls : List Text) (p q : Parsing) : Prop := (∀ l ∈ ls, Clean l ∧ '=' ∈ l) ∧ ls.foldlM Parsing.line p = .ok q

namespace Reads
variable {p q r : Parsing} {α : Type} {xs : List α}
theorem nil (p : Parsing) : Reads [] p p := ⟨by simp,rfl⟩
theorem append (h : Reads ls p q) (h' : Reads ls' q r) : Reads (ls ++ ls') p r := by
  refine ⟨fun l hl => (List.mem_append.mp hl).elim (h.1 l) (h'.1 l),?_⟩
  rw [List.foldlM_append,h.2]
  exact h'.2
theorem single (hl : Clean l ∧ '=' ∈ l) (h : p.line l = .ok q) : Reads [l] p q := by
  refine ⟨by simpa using hl,?_⟩
  rw [List.foldlM_cons,h]
  rfl
theorem cons (hl : Clean l ∧ '=' ∈ l) (h : p.line l = .ok q) (h' : Reads ls q r) :
    Reads (l :: ls) p r := (single hl h).append h'

theorem flatMap (put : List α → Parsing) (f : α → List Text)
    (h : ∀ ys, ∀ x ∈ xs, Reads (f x) (put ys) (put (ys ++ [x]))) (ys : List α) :
    Reads (xs.flatMap f) (put ys) (put (ys ++ xs)) := by
  induction xs generalizing ys with
  | nil =>
    rw [List.append_nil]
    exact nil _
  | cons x xs ih =>
    have hrest := ih (fun zs z hz => h zs z (List.mem_cons_of_mem x hz)) (ys ++ [x])
    rw [List.append_assoc,List.singleton_append] at hrest
    exact (h ys x List.mem_cons_self).append hrest

theorem map (put : List α → Parsing) (f : α → Text)
    (h : ∀ ys, ∀ x ∈ xs, (Clean (f x) ∧ '=' ∈ f x) ∧ (put ys).line (f x) = .ok (put (ys ++ [x]))) (ys : List α) :
    Reads (xs.map f) (put ys) (put (ys ++ xs)) := by
  rw [List.map_eq_flatMap]
  exact flatMap put _ (fun ys x hx => single (h ys x hx).1 (h ys x hx).2) ys

/-- The lines of one kind. -/
theorem fields (c : Char) (put : List α → Parsing) (f : α → Text) (h : ∀ ys, ∀ x ∈ xs,
    Clean (f x) ∧ (put ys).line (c :: '=' :: f x) = .ok (put (ys ++ [x]))) (ys : List α)
    (hc : c ≠ '\n' := by decide) : Reads (xs.map fun x => c :: '=' :: f x) (put ys) (put (ys ++ xs)) :=
  map put _ (fun ys x hx => ⟨Clean.line hc (h ys x hx).1,(h ys x hx).2⟩) ys

theorem field (c : Char) (put : Option α → Parsing) (f : α → Text) {o : Option α}
    (h : ∀ x, o = some x → Clean (f x) ∧ (put none).line (c :: '=' :: f x) = .ok (put (some x)))
    (hc : c ≠ '\n' := by decide) : Reads (o.map fun x => c :: '=' :: f x).toList (put none) (put o) := by
  cases o with
  | none => exact nil _
  | some x => exact single (Clean.line hc (h x rfl).1) (h x rfl).2
end Reads

theorem onLast_concat {α : Type} (f : α → α) (l : List α) (x : α) : onLast f (l ++ [x]) = l ++ [f x] := by
  simp [onLast]

/-- The `t=` line starts a block, and the `r=` and `z=` lines go to it. -/
theorem reads_time (p : Parsing) {t : TimeDesc} (ht : t.Stable) :
    Reads t.fmtLines p { p with times := p.times ++ [t],inMedia := false } := by
  have honTime (x : TimeDesc) (field : String) (f : TimeDesc → TimeDesc) :
      Parsing.onTime { p with times := p.times ++ [x],inMedia := false } field f =
        .ok { p with times := p.times ++ [f x],inMedia := false } := by
    simp [Parsing.onTime,onLast_concat]
  have hhead : p.line ("t=".toList ++ decimal t.start.toNat ++ [' '] ++ decimal t.stop.toNat) =
      .ok { p with times := p.times ++ [⟨t.start,t.stop,[],none⟩],inMedia := false } := by
    change (do return { p with
      times := p.times ++ [← TimeDesc.fromStr (decimal t.start.toNat ++ [' '] ++ decimal t.stop.toNat)]
      inMedia := false }) = _
    rw [t.fromStr_line]
    rfl
  have hrepeats : Reads (t.repeats.map ("r=".toList ++ ·))
      { p with times := p.times ++ [⟨t.start,t.stop,[],none⟩],inMedia := false }
      { p with times := p.times ++ [⟨t.start,t.stop,t.repeats,none⟩],inMedia := false } :=
    Reads.fields 'r' (fun ys => { p with times := p.times ++ [⟨t.start,t.stop,ys,none⟩],inMedia := false }) id
      (fun ys r hr => ⟨ht.repeats r hr,honTime ⟨t.start,t.stop,ys,none⟩ "r=" (·.addRepeat r)⟩) []
  have hzone : Reads (t.zone.map ("z=".toList ++ ·)).toList
      { p with times := p.times ++ [⟨t.start,t.stop,t.repeats,none⟩],inMedia := false }
      { p with times := p.times ++ [t],inMedia := false } :=
    Reads.field 'z' (fun z => { p with times := p.times ++ [⟨t.start,t.stop,t.repeats,z⟩],inMedia := false }) id
      fun z hz => ⟨ht.zone z hz,honTime ⟨t.start,t.stop,t.repeats,none⟩ "z=" (·.setZone (some z))⟩
  refine .cons (Clean.line (by decide) ?_) hhead (hrepeats.append hzone)
  exact .append (by simpa using (token_decimal _).not_mem rfl) (.decimal _) (token_decimal _).1

namespace Parsing
variable (p : Parsing)
def inSection (m : Media) : Parsing := { p with media := p.media ++ [m],inMedia := true }
theorem onMedia_inSection (m : Media) (f : Media → Media) : (p.inSection m).onMedia f = p.inSection (f m) := by
  simp [inSection,onMedia,onLast_concat]
theorem line_media (hm : m.Stable) :
    p.line ("m=".toList ++ m.head) = .ok (p.inSection ⟨m.kind,m.port,m.proto,m.fmts,none,none,[],[],[]⟩) := by
  change (do return { p with media := p.media ++ [← Media.fromStr m.head],inMedia := true }) = _
  rw [hm.fromStr_head]
  rfl

theorem line_connection {c : Connection} (hc : c.Stable) : p.line ("c=".toList ++ c.fmt) =
      .ok (if p.inMedia then p.onMedia (·.setConnection (some c)) else { p with connection := some c }) := by
  change (do
    let c ← Connection.fromStr c.fmt
    return if p.inMedia then p.onMedia (·.setConnection (some c)) else { p with connection := some c }) = _
  rw [hc.fromStr_fmt]
  rfl

theorem line_bandwidth {b : Bandwidth} (hb : b.Stable) : p.line ("b=".toList ++ b.fmt) =
      .ok (if p.inMedia then p.onMedia (·.addBandwidth b) else { p with bandwidth := p.bandwidth ++ [b] }) := by
  change (do
    let b ← Bandwidth.fromStr b.fmt
    return if p.inMedia then p.onMedia (·.addBandwidth b) else { p with bandwidth := p.bandwidth ++ [b] }) = _
  rw [hb.fromStr_fmt]
  rfl

theorem line_attr (ha : a.Stable) : p.line ("a=".toList ++ a.fmt) =
      .ok (if p.inMedia then p.onMedia (·.addAttr a) else { p with attrs := p.attrs ++ [a] }) := by
  change Except.ok (if p.inMedia then p.onMedia (·.addAttr (Attribute.fromStr a.fmt))
    else { p with attrs := p.attrs ++ [Attribute.fromStr a.fmt] }) = _
  rw [ha.fromStr_fmt]
theorem line_extra (hl : Unknown l) : p.line l =
      .ok (if p.inMedia then p.onMedia (·.addExtraLine l) else { p with extraLines := p.extraLines ++ [l] }) := by
  obtain ⟨kind,rest,hsplit,hkind⟩ := hl
  rw [line,hsplit]
  exact field_of_not_mem_kinds hkind
theorem line_inSection {q : Parsing}
    (h : (p.inSection m).line l = .ok (if (p.inSection m).inMedia then (p.inSection m).onMedia f else q)) :
    (p.inSection m).line l = .ok (p.inSection (f m)) := by
  rw [h,← p.onMedia_inSection m f]
  rfl
end Parsing

/-- The `m=` line starts a section, and all lines behind it go to it. -/
theorem reads_media (p : Parsing) (hm : m.Stable) : Reads m.fmtLines p (p.inSection m) := by
  obtain ⟨kind,port,proto,fmts,title,connection,bandwidth,attrs,extraLines⟩ := m
  have htitle := Reads.field 'i' (fun t => p.inSection ⟨kind,port,proto,fmts,t,none,[],[],[]⟩) id
    fun t ht => ⟨hm.title t ht,p.line_inSection (f := (·.setTitle (some t))) rfl⟩
  have hconnection := Reads.field 'c' (fun c => p.inSection ⟨kind,port,proto,fmts,title,c,[],[],[]⟩) (·.fmt) fun c hc =>
    ⟨(hm.connection c hc).clean,p.line_inSection (line_connection _ (hm.connection c hc))⟩
  have hbandwidth := Reads.fields 'b' (fun bs => p.inSection ⟨kind,port,proto,fmts,title,connection,bs,[],[]⟩)
    (·.fmt) (fun bs b hb => ⟨(hm.bandwidth b hb).clean,p.line_inSection (line_bandwidth _ (hm.bandwidth b hb))⟩) []
  have hattrs := Reads.fields 'a' (fun as => p.inSection ⟨kind,port,proto,fmts,title,connection,bandwidth,as,[]⟩)
    (·.fmt) (fun as a ha => ⟨(hm.attrs a ha).clean,p.line_inSection (line_attr _ (hm.attrs a ha))⟩) []
  have hextra := Reads.map (fun ls => p.inSection ⟨kind,port,proto,fmts,title,connection,bandwidth,attrs,ls⟩) id
    (fun ls l hl => ⟨(hm.extraLines l hl).imp_right Unknown.equals,p.line_inSection (line_extra _ (hm.extraLines l hl).2)⟩) []
  rw [List.map_id] at hextra
  exact .cons (Clean.line (c := 'm') (by decide) hm.clean_head) (p.line_media hm)
    ((((htitle.append hconnection).append hbandwidth).append hattrs).append hextra)

def collected (s : Sdp) (inMedia : Bool) : Parsing :=
  ⟨some s.version,some s.origin,some s.sessionName,s.sessionInfo,s.uri,s.emails,s.phones,s.connection,s.bandwidth,
    s.times,s.attrs,s.media,s.extraLines,inMedia⟩

/-- A description whose parts all come back from their lines. -/
def Stable (s : Sdp) : Prop := (s.collected false).Stable
def withTime (s : Sdp) : Sdp := { s with times := if s.times.isEmpty then [TimeDesc.newBlank] else s.times }

theorem Parsing.eq_collected {s : Sdp} (h : p.finish = .ok s) : p = s.collected p.inMedia := by
  obtain ⟨version,origin,sessionName,_,_,_,_,_,_,_,_,_,_,_⟩ := p
  unfold finish at h
  cases version with
  | none => cases h
  | some version =>
    cases origin with
    | none => cases h
    | some origin =>
      cases sessionName with
      | none => cases h
      | some sessionName =>
        cases h
        rfl

theorem stable_of_parse {input : Text} {s : Sdp} (h : parse input = .ok s) : s.Stable := by
  obtain ⟨p,hp,hs⟩ := bind_eq_ok.mp h
  have hclean : ∀ l ∈ textLines input, Clean l := by
    intro l hl
    obtain ⟨raw,hraw,rfl⟩ := List.mem_map.mp hl
    exact .of_chomp fun hmem => (mem_of_mem_splitOn hraw _ hmem).2 rfl
  have hstable := Parsing.Stable.init.foldlM hclean hp
  rw [eq_collected hs] at hstable
  exact { hstable with }

theorem reads_mediaSections (p : Parsing) {ms : List Media} (h : ∀ m ∈ ms, m.Stable) :
    ∃ inMedia, Reads (ms.flatMap Media.fmtLines) p { p with media := p.media ++ ms,inMedia } := by
  induction ms generalizing p with
  | nil => exact ⟨p.inMedia,by simpa using Reads.nil p⟩
  | cons m ms ih =>
    obtain ⟨hm,hms⟩ := List.forall_mem_cons.mp h
    obtain ⟨inMedia,hrest⟩ := ih (p.inSection m) hms
    refine ⟨inMedia,?_⟩
    have happend := (reads_media p hm).append hrest
    simpa [inSection] using happend

theorem times_lines (s : Sdp) : (if s.times.isEmpty then ["t=0 0".toList] else s.times.flatMap TimeDesc.fmtLines) =
      s.withTime.times.flatMap TimeDesc.fmtLines := by
  unfold withTime
  cases s.times.isEmpty <;> rfl

theorem Stable.withTime {s : Sdp} (h : s.Stable) : s.withTime.Stable := by
  refine { h with times := ?_ }
  change ∀ t ∈ s.withTime.times, t.Stable
  unfold Sdp.withTime
  split
  · intro t ht
    obtain rfl := List.mem_singleton.mp ht
    exact ⟨by simp [TimeDesc.newBlank],nofun⟩
  · exact h.times

theorem Stable.reads {s : Sdp} (h : s.Stable) : ∃ inMedia, Reads s.fmtLines .init (s.withTime.collected inMedia) := by
  have htimes := h.withTime.times
  unfold fmtLines
  rw [times_lines]
  change ∀ t ∈ s.withTime.times, t.Stable at htimes
  change ∃ inMedia, Reads _ _ (Sdp.collected { s with times := s.withTime.times } inMedia)
  generalize s.withTime.times = times at htimes
  obtain ⟨version,origin,sessionName,sessionInfo,uri,emails,phones,connection,bandwidth,_,attrs,media,extraLines⟩ := s
  let p₁ : Parsing := { Parsing.init with version := some version }
  let p₂ : Parsing := { p₁ with origin := some origin }
  let p₃ : Parsing := { p₂ with sessionName := some sessionName }
  let p₄ : Parsing := { p₃ with sessionInfo := sessionInfo }
  let p₅ : Parsing := { p₄ with uri := uri }
  let p₆ : Parsing := { p₅ with emails := emails }
  let p₇ : Parsing := { p₆ with phones := phones }
  let p₈ : Parsing := { p₇ with connection := connection }
  let p₉ : Parsing := { p₈ with bandwidth := bandwidth }
  let p₁₀ : Parsing := { p₉ with times := times }
  let p₁₁ : Parsing := { p₁₀ with attrs := attrs }
  let p₁₂ : Parsing := { p₁₁ with extraLines := extraLines }
  have hversion : Parsing.init.line ("v=".toList ++ decimal version.toNat) = .ok p₁ := by
    change (do return { Parsing.init with
      version := some (← number (parseU8 (decimal version.toNat))), inMedia := false }) = _
    rw [parseU8_decimal]
    rfl
  have horigin : p₁.line ("o=".toList ++ origin.fmt) = .ok p₂ := by
    change (do return { p₁ with origin := some (← Origin.fromStr origin.fmt), inMedia := false }) = _
    rw [(h.origin origin rfl).fromStr_fmt]
    rfl
  have hfront : Reads ["v=".toList ++ decimal version.toNat,"o=".toList ++ origin.fmt,"s=".toList ++ sessionName]
      .init p₃ :=
    .cons (Clean.line (c := 'v') (by decide) (.decimal _)) hversion
      (.cons (Clean.line (c := 'o') (by decide) (h.origin origin rfl).clean) horigin
        (.single (Clean.line (c := 's') (by decide) (h.sessionName sessionName rfl)) rfl))
  have hinfo := Reads.field 'i' (fun t => { p₃ with sessionInfo := t }) id
    fun t ht => ⟨h.sessionInfo t ht,rfl⟩
  have huri := Reads.field 'u' (fun t => { p₄ with uri := t }) id
    fun t ht => ⟨h.uri t ht,rfl⟩
  have hemails := Reads.fields 'e' (fun ts => { p₅ with emails := ts }) id
    (fun ts t ht => ⟨h.emails t ht,rfl⟩) []
  have hphones := Reads.fields 'p' (fun ts => { p₆ with phones := ts }) id
    (fun ts t ht => ⟨h.phones t ht,rfl⟩) []
  have hconnection := Reads.field 'c' (fun c => { p₇ with connection := c }) (·.fmt) fun c hc =>
    ⟨(h.connection c hc).clean,line_connection _ (h.connection c hc)⟩
  have hbandwidth := Reads.fields 'b' (fun bs => { p₈ with bandwidth := bs }) (·.fmt) (fun bs b hb =>
    ⟨(h.bandwidth b hb).clean,line_bandwidth _ (h.bandwidth b hb)⟩) []
  have htimes := Reads.flatMap (fun ts => { p₉ with times := ts }) TimeDesc.fmtLines
    (fun ts t ht => reads_time _ (htimes t ht)) []
  have hattrs := Reads.fields 'a' (fun as => { p₁₀ with attrs := as }) (·.fmt) (fun as a ha =>
    ⟨(h.attrs a ha).clean,line_attr _ (h.attrs a ha)⟩) []
  have hextra := Reads.map (fun ls => { p₁₁ with extraLines := ls }) id
    (fun ls l hl => ⟨(h.extraLines l hl).imp_right Unknown.equals,line_extra _ (h.extraLines l hl).2⟩) []
  rw [List.map_id] at hextra
  obtain ⟨inMedia,hmedia⟩ := reads_mediaSections p₁₂ h.media
  refine ⟨inMedia,?_⟩
  exact (((((((((hfront.append hinfo).append huri).append hemails).append hphones).append hconnection).append
    hbandwidth).append htimes).append hattrs).append hextra).append hmedia

theorem Stable.parse_encode {s : Sdp} (h : s.Stable) : parse s.encode = .ok s.withTime := by
  obtain ⟨inMedia,hclean,hread⟩ := h.reads
  have hlines : s.fmtLines.map chomp = s.fmtLines := by
    conv_rhs => rw [← List.map_id s.fmtLines]
    exact List.map_congr_left fun l hl => (hclean l hl).1.chomp_eq
  rw [parse, encode, textLines_flatMap fun l hl => (hclean l hl).1.1, hlines, List.foldlM_append, hread]
  rfl

theorem trim_chomp (t : Text) : trim (chomp t) = trim t := by
  induction t using List.reverseRecOn with
  | nil => rfl
  | append_singleton t c ih =>
    by_cases hc : c = '\r'
    · rw [hc,chomp_concat_cr,ih,trim_concat_whitespace rfl]
    · rw [chomp_concat hc]

theorem Attribute.fromStr_chomp (t : Text) : fromStr (chomp t) = fromStr t := by
  cases hsplit : splitOnce ':' t with
  | none =>
    have hchomp : splitOnce ':' (chomp t) = none := splitOnce_eq_none fun hmem =>
      not_mem_of_splitOnce hsplit ((List.rdropWhile_prefix _ _).subset hmem)
    simp only [fromStr,hsplit,hchomp,trim_chomp]
  | some kv =>
    obtain ⟨k,v⟩ := kv
    obtain ⟨rfl,hcolon⟩ := eq_append_of_splitOnce hsplit
    rw [chomp_append (by decide),fromStr,fromStr,splitOnce_append hcolon,splitOnce_append hcolon]
    dsimp only
    rw [trim_chomp]

/-- Lines that are read alike once their carriage returns are off, and are broken nowhere if the others are not. -/
structure Alike (ls ls' : List Text) : Prop where
  unbroken : (∀ l ∈ ls', '\n' ∉ l) → ∀ l ∈ ls, '\n' ∉ l
  reads (p : Parsing) : (ls.map chomp).foldlM Parsing.line p = (ls'.map chomp).foldlM Parsing.line p

namespace Alike
theorem refl (ls : List Text) : Alike ls ls := ⟨id,fun _ => rfl⟩
theorem append {ks ks' : List Text} (h : Alike ls ls') (hk : Alike ks ks') : Alike (ls ++ ks) (ls' ++ ks') := by
  refine ⟨fun hlines => ?_,fun p => ?_⟩
  · rw [List.forall_mem_append] at hlines ⊢
    exact ⟨h.unbroken hlines.1,hk.unbroken hlines.2⟩
  · rw [List.map_append,List.map_append,List.foldlM_append,List.foldlM_append,h.reads p]
    exact bind_congr hk.reads

theorem flatMap {α : Type} {f g : α → List Text} {xs : List α} (h : ∀ x ∈ xs, Alike (f x) (g x)) :
    Alike (xs.flatMap f) (xs.flatMap g) := by
  induction xs with
  | nil => exact refl _
  | cons x xs ih =>
    obtain ⟨hx,hxs⟩ := List.forall_mem_cons.mp h
    rw [List.flatMap_cons,List.flatMap_cons]
    exact hx.append (ih hxs)
end Alike

def Attribute.reread (a : Attribute) : Attribute := fromStr a.fmt
def Media.reread (m : Media) : Media := { m with attrs := m.attrs.map Attribute.reread }

/-- The description with the attributes of its media sections as they are read. -/
def reread (s : Sdp) : Sdp := { s with media := s.media.map Media.reread }

theorem alike_attr (h : '\n' ∉ a.fmt) : Alike ["a=".toList ++ a.fmt] ["a=".toList ++ a.reread.fmt] := by
  have hline : ∀ (t : Text) (p : Parsing), p.line (chomp ("a=".toList ++ t)) = .ok (if p.inMedia then
      p.onMedia (·.addAttr (Attribute.fromStr t)) else { p with attrs := p.attrs ++ [Attribute.fromStr t] }) := by
    intro t p
    rw [← Attribute.fromStr_chomp t,Parsing.line]
    have hsplit : splitOnce '=' (chomp ("a=".toList ++ t)) = some (['a'],chomp t) := splitOnce_chomp (by decide) t
    rw [hsplit]
    rfl
  refine ⟨fun _ => List.forall_mem_singleton.mpr (by simpa using h),fun p => ?_⟩
  rw [List.map_singleton,List.map_singleton,List.foldlM_cons,List.foldlM_cons,hline,hline,Attribute.reread,
    (Attribute.stable_fromStr h).fromStr_fmt]

theorem alike_media (h : ∀ a ∈ m.attrs, '\n' ∉ a.fmt) : Alike m.fmtLines m.reread.fmtLines := by
  have hattrs : Alike (m.attrs.map ("a=".toList ++ ·.fmt)) ((m.attrs.map Attribute.reread).map ("a=".toList ++ ·.fmt)) := by
    rw [List.map_map,List.map_eq_flatMap,List.map_eq_flatMap]
    exact .flatMap fun a ha => alike_attr (h a ha)
  exact Alike.append (.refl [_]) (((Alike.refl _).append hattrs).append (.refl _))

/-- A description without line breaks in its attributes is read back with them trimmed. -/
theorem parse_encode_reread {s : Sdp} (hattrs : ∀ m ∈ s.media, ∀ a ∈ m.attrs, '\n' ∉ a.fmt) (h : s.reread.Stable) :
    parse s.encode = .ok s.reread.withTime := by
  obtain ⟨_,hclean,-⟩ := h.reads
  have halike : Alike s.fmtLines s.reread.fmtLines := by
    refine (Alike.refl _).append ?_
    change Alike _ ((s.media.map Media.reread).flatMap Media.fmtLines)
    rw [List.flatMap_map]
    exact .flatMap fun m hm => alike_media (hattrs m hm)
  have hlines : ∀ l ∈ s.reread.fmtLines, '\n' ∉ l := fun l hl => (hclean l hl).1.1
  rw [← h.parse_encode, parse, parse, encode, encode, textLines_flatMap hlines,
    textLines_flatMap (halike.unbroken hlines), List.foldlM_append, List.foldlM_append, halike.reads]

/-- Whatever text is accepted, the description read from it is read again from its own encoding, with one
`t=0 0` block if it had none. -/
theorem parse_encode_of_parse {input : Text} {s : Sdp} (h : parse input = .ok s) :
    parse s.encode = .ok { s with times := if s.times.isEmpty then [⟨0,0,[],none⟩] else s.times } :=
  (stable_of_parse h).parse_encode
def mixedText : Text := "s=x\no=- 1 2 IN IP4 h\r\nm=audio 9 RTP 0\nk=z\na= p : q \ne=e\nu=\nv=0\na=r\njunk\n".toList

def mixedSdp : Sdp where
  version := 0
  origin := ⟨['-'],1,2,['I','N'], .ip4,some ['h']⟩
  sessionName := ['x']
  sessionInfo := none
  uri := some []
  emails := [['e']]
  phones := []
  connection := none
  bandwidth := []
  times := []
  attrs := [⟨['r'],none⟩]
  media := [⟨.audio,⟨9,none⟩,['R','T','P'],[['0']],none,none,[],[⟨['p'],some ['q']⟩],[['k','=','z']]⟩]
  extraLines := []

theorem parse_encode_mixedText :
    parse mixedText = .ok mixedSdp ∧ parse mixedSdp.encode = .ok { mixedSdp with times := [⟨0,0,[],none⟩] } := by
  have hoption : (parse mixedText).toOption = some mixedSdp := by decide +kernel
  have h : parse mixedText = .ok mixedSdp := by
    cases hparse : parse mixedText with
    | error e => simp [hparse,Except.toOption] at hoption
    | ok s => rw [hparse] at hoption; exact congrArg _ (Option.some.inj hoption)
  exact ⟨h,parse_encode_of_parse h⟩
end RustyRtc.Sdp
