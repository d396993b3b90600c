import RustyRtc.Connection.Takeover
import RustyRtc.Sdp.Stability

/-! # What a peer takes from a description

A manager writes its candidates, credentials, fingerprint and codecs into a description. Where each of them
is text that a line can hold, the peer that reads the description has the same ones in the end.
-/
namespace RustyRtc.Connection
open Ice Sdp IceAndSdp
variable {t : Text}

theorem octet_decimal (x : UInt8) : octet (decimal x.toNat) = some x := by
  have hall : ∀ n < 256, (decimal n).length ≤ 3 ∧ ((decimal n).head? = some '0' → (decimal n).length = 1) := by
    decide +kernel
  obtain ⟨hlength,hzero⟩ := hall x.toNat x.toNat_lt
  have hdigits : (decimal x.toNat).all Char.isDigit = true :=
    List.all_eq_true.mpr fun c hc => Nat.isDigit_of_mem_toDigits (by decide) (by decide) hc
  rw [octet,if_pos ⟨hlength,hzero,hdigits⟩,parseU8_decimal]
  rfl

variable (v6 : Ipv6Text)
theorem parseIp_fmtIp_v4 (a b c d : UInt8) : parseIp v6 (fmtIp v6 (.v4 a b c d)) = some (.v4 a b c d) := by
  have hdot : ∀ t ∈ [a,b,c,d].map fun x => decimal x.toNat, '.' ∉ t := by
    intro t ht
    obtain ⟨x,-,rfl⟩ := List.mem_map.mp ht
    exact not_mem_decimal rfl _
  have hsplit := List.splitOn_intercalate '.' hdot (by simp)
  rw [parseIp,fmtIp,hsplit]
  simp [octet_decimal]

theorem token_fmtIp_v4 (a b c d : UInt8) : Token (fmtIp v6 (.v4 a b c d)) := by
  simp only [fmtIp,List.map_cons,List.map_nil,List.intercalate_cons_cons,List.intercalate_singleton,List.append_assoc,
    List.singleton_append]
  exact (token_decimal _).join rfl ((token_decimal _).join rfl ((token_decimal _).join rfl (token_decimal _)))

namespace IceAndSdp
def relatedWords (addr : SocketAddr) : List Text :=
  ["raddr".toList,fmtIp v6 addr.ip,"rport".toList,decimal addr.port.toNat]
def words (c : Candidate) : List Text :=
  [c.foundation.toList,decimal c.component.toNat,c.transport.toList,decimal c.priority.toNat,
    fmtIp v6 c.address.ip,decimal c.address.port.toNat,"typ".toList,typ c.candType] ++
    c.relatedAddress.toList.flatMap (relatedWords v6)

theorem fmt_eq_intercalate (c : Candidate) : fmt v6 c = List.intercalate [' '] (words v6 c) := by
  have htyp : " typ ".toList = [' '] ++ "typ".toList ++ [' '] := rfl
  have hraddr : "raddr ".toList = "raddr".toList ++ [' '] := rfl
  have hrport : " rport ".toList = [' '] ++ "rport".toList ++ [' '] := rfl
  unfold fmt words related relatedWords
  rw [htyp,hraddr,hrport]
  generalize "typ".toList = typWord, "raddr".toList = raddrWord, "rport".toList = rportWord
  cases c.relatedAddress <;> simp
end IceAndSdp

/-- A candidate with IPv4 addresses whose foundation and transport are words. -/
structure SayableCandidate (c : Candidate) : Prop where
  foundation : Token c.foundation.toList
  keyword : ¬ "candidate:".toList <+: c.foundation.toList
  transport : Token c.transport.toList
  address : c.address.isIpv4
  related : ∀ addr ∈ c.relatedAddress, addr.isIpv4

namespace IceAndSdp
variable {addr : SocketAddr} {c : Candidate}
theorem exists_v4 (h : addr.isIpv4 = true) : ∃ a b c d, addr.ip = .v4 a b c d := by
  obtain ⟨ip,port⟩ := addr
  cases ip with
  | v4 a b c d => exact ⟨a,b,c,d,rfl⟩
  | v6 bits => cases h

theorem token_fmtIp (h : addr.isIpv4 = true) : Token (fmtIp v6 addr.ip) := by
  obtain ⟨a,b,c,d,hip⟩ := exists_v4 h
  rw [hip]
  exact token_fmtIp_v4 v6 a b c d
theorem parseAddr_fmtIp (h : addr.isIpv4 = true) (message : String) :
    parseAddr v6 message (fmtIp v6 addr.ip) = .ok addr.ip := by
  obtain ⟨a,b,c,d,hip⟩ := exists_v4 h
  rw [hip,parseAddr,parseIp_fmtIp_v4]

theorem token_words (h : SayableCandidate c) : ∀ t ∈ words v6 c, Token t := by
  have hlit : ∀ t ∈ ["typ".toList,"raddr".toList,"rport".toList], Token t := by
    intro t ht
    simp only [List.mem_cons,List.not_mem_nil,or_false] at ht
    rcases ht with rfl | rfl | rfl <;> exact ⟨by decide,by decide⟩
  have htyp : Token (typ c.candType) := by
    cases c.candType <;> exact ⟨by decide,by decide⟩
  have hrelated : ∀ addr ∈ c.relatedAddress, ∀ t ∈ relatedWords v6 addr, Token t := by
    intro addr haddr
    simp only [relatedWords,List.forall_mem_cons]
    exact ⟨hlit _ (by simp),token_fmtIp v6 (h.related addr haddr),hlit _ (by simp),token_decimal _,by simp⟩
  simp only [words,List.forall_mem_append,List.forall_mem_cons]
  refine ⟨⟨h.foundation,token_decimal _,h.transport,token_decimal _,token_fmtIp v6 h.address,token_decimal _,
    hlit _ (by simp),htyp,by simp⟩,fun t ht => ?_⟩
  obtain ⟨addr,haddr,ht⟩ := List.mem_flatMap.mp ht
  exact hrelated addr (Option.mem_toList.mp haddr) t ht

theorem parseTyp_typ (t : CandidateType) : parseTyp (typ t) = .ok t := by
  cases t <;> rfl

theorem parseRelated_relatedWords {related : Option SocketAddr} (h : ∀ addr ∈ related, addr.isIpv4) :
    parseRelated v6 (related.toList.flatMap (relatedWords v6)) none = .ok related := by
  cases related with
  | none => rfl
  | some addr =>
    have hwords : (some addr).toList.flatMap (relatedWords v6) = relatedWords v6 addr := by simp
    rw [hwords,relatedWords,parseRelated,if_pos rfl,parseAddr_fmtIp v6 (h addr rfl)]
    change parseRelated v6 _ _ = _
    rw [parseRelated,if_neg (by decide),if_pos rfl,parseU16_decimal]
    rfl

theorem not_keyword (h : SayableCandidate c) : ¬ "candidate:".toList <+: fmt v6 c := by
  intro hpre
  have hfront : fmt v6 c = c.foundation.toList ++ ' ' :: List.intercalate [' '] (words v6 c).tail := by
    rw [fmt_eq_intercalate,words,List.cons_append,List.cons_append,List.intercalate_cons_cons]
    simp
  rw [hfront] at hpre
  rcases le_or_gt "candidate:".toList.length c.foundation.toList.length with hle | hlt
  · exact h.keyword (List.prefix_of_prefix_length_le hpre (List.prefix_append _ _) hle)
  · have hspace : c.foundation.toList ++ [' '] <+: "candidate:".toList := by
      refine List.prefix_of_prefix_length_le ⟨List.intercalate [' '] (words v6 c).tail,by simp⟩ hpre
        (by rw [List.length_append]; exact hlt)
    exact absurd (hspace.subset (by simp)) (by decide : ' ' ∉ "candidate:".toList)

theorem fromStr_fmt (h : SayableCandidate c) : fromStr v6 (trim (fmt v6 c)) = .ok c.cloneLight := by
  have htrim : trim (fmt v6 c) = fmt v6 c := by
    rw [fmt_eq_intercalate]
    exact trim_intercalate (token_words v6 h)
  have hwords : splitWhitespace (fmt v6 c) = words v6 c := by
    rw [fmt_eq_intercalate]
    exact splitWhitespace_intercalate (token_words v6 h)
  simp only [fromStr,htrim,if_neg (not_keyword v6 h),hwords,words,List.cons_append,List.nil_append,
    parseU8_decimal,parseU32_decimal,parseU16_decimal,parseAddr_fmtIp v6 h.address,parseTyp_typ,
    parseRelated_relatedWords v6 h.related,String.ofList_toList]
  rfl
end IceAndSdp

/-- A codec whose name is a word without a slash and whose parameters are one line. -/
structure CodecDescriptor.Sayable (d : CodecDescriptor) : Prop where
  payloadType : d.rtpRepresentation.payloadType ≤ 127
  name : Token d.rtpRepresentation.name
  slash : '/' ∉ d.rtpRepresentation.name
  fmtp : ∀ fmtp ∈ d.sdpFmtp, OneLine fmtp
theorem CodecDescriptor.Sayable.plain {d : CodecDescriptor} (h : d.Sayable) : d.Plain :=
  ⟨h.name.not_mem rfl,h.fmtp⟩
def rtpmapValue (codec : RtpCodec) : Text :=
  decimal codec.payloadType.toNat ++ [' '] ++ codec.name ++ ['/'] ++ decimal codec.clockRate.toNat

theorem RtpMap.fromStr_rtpmapValue {codec : RtpCodec} (hpt : codec.payloadType ≤ 127) (hname : Token codec.name)
    (hslash : '/' ∉ codec.name) :
    fromStr (trim (rtpmapValue codec)) = .ok ⟨codec.payloadType,codec.name,codec.clockRate,none⟩ := by
  have hrhs : Token (codec.name ++ '/' :: decimal codec.clockRate.toNat) := hname.join rfl (token_decimal _)
  have hwords : ∀ w ∈ [decimal codec.payloadType.toNat,codec.name ++ '/' :: decimal codec.clockRate.toNat], Token w := by
    simpa using ⟨token_decimal _,hrhs⟩
  have hvalue : rtpmapValue codec = List.intercalate [' '] [decimal codec.payloadType.toNat,
      codec.name ++ '/' :: decimal codec.clockRate.toNat] := by
    simp [rtpmapValue]
  have hclock : splitOnce '/' (decimal codec.clockRate.toNat) = none := splitOnce_eq_none (not_mem_decimal rfl _)
  have hle : ¬ codec.payloadType > 127 := UInt8.not_lt.mpr hpt
  simp only [fromStr,hvalue,trim_intercalate hwords,splitWhitespace_intercalate hwords,parseU8_decimal,Except.mapError,splitOnce_append hslash,hclock,
    (token_decimal _).trim_eq,parseU32_decimal,hname.trim_eq,parseParams]
  change (if codec.payloadType > 127 then _ else _) = _
  rw [if_neg hle]
  rfl

theorem reread_eq {a : Attribute} (hkey : a.key ∈ ConnectionManager.ownKeys) :
    a.reread = ⟨a.key,a.value.map trim⟩ := by
  obtain ⟨h,-⟩ := ConnectionManager.plain_ownKeys a.key hkey
  obtain ⟨key,value⟩ := a
  have hcolon : ':' ∉ key := fun hmem => (h ':' hmem).1 rfl
  unfold Attribute.reread Attribute.fmt
  cases value with
  | none =>
    dsimp only
    rw [Attribute.fromStr,splitOnce_eq_none hcolon]
    exact congrArg (Attribute.mk · none) h.trim_eq
  | some v =>
    dsimp only
    rw [List.append_assoc,List.singleton_append,Attribute.fromStr,splitOnce_append hcolon]
    exact congrArg (Attribute.mk · _) h.trim_eq

structure ConnectionManager.Sayable (cm : ConnectionManager) : Prop where
  ufrag : ∀ c ∈ cm.iceAgent.ufrag.toList, isWhitespace c = false
  pwd : ∀ c ∈ cm.iceAgent.pwd.toList, isWhitespace c = false
  fingerprint : Token cm.localFingerprint
  codecs : ∀ d ∈ cm.localCodecs, d.Sayable
  codecs_ne : cm.localCodecs ≠ []
  distinct : (cm.localCodecs.map (·.rtpRepresentation.payloadType)).Nodup

namespace ConnectionManager
variable {cm : ConnectionManager} {candidates : List Candidate} {a : Attribute} {codecs : List CodecDescriptor}
variable {as : List Attribute} {key : Text} {value : Option Text} {allowed : List UInt8} {d : CodecDescriptor}
variable {env : Surroundings} {m : Media} {fmtp : Text}
theorem trim_of_no_whitespace (h : ∀ c ∈ t, isWhitespace c = false) : trim t = t :=
  trim_eq_self (fun c hc => h c (List.mem_of_mem_head? hc)) fun c hc => h c (List.mem_of_getLast? hc)

theorem mediaIceMeta_eq
    (h : ∀ a ∈ as, a.key = "candidate".toList → ∃ c, a.value.map (fromStr v6) = some (.ok c))
    (agent : IceAgent) (m : IceMeta) : mediaIceMeta v6 as agent m =
      ({ agent with remoteCandidates := agent.remoteCandidates ++ as.filterMap (candidateOf v6) },
        .ok (as.foldl IceMeta.media m)) := by
  have hread : ∀ a ∈ as, readable v6 a = true := by
    intro a ha
    by_cases hkey : a.key = "candidate".toList
    · obtain ⟨c,hc⟩ := h a ha hkey
      obtain ⟨v,hv,hparse⟩ := Option.map_eq_some_iff.mp hc
      rw [readable,candidateOf,if_pos hkey,hv,Option.bind_some,hparse]
      exact Bool.or_true _
    · rw [readable,decide_eq_true hkey,Bool.true_or]
  rw [mediaIceMeta_takeWhile,List.takeWhile_eq_self_iff.mpr hread,if_pos (List.all_eq_true.mpr hread)]

theorem fingerprintOf_sha {hash : Text} (h : Token hash) :
    fingerprintOf ⟨"fingerprint".toList,some (trim ("sha-256 ".toList ++ hash))⟩ = some hash := by
  have hsha : Token "sha-256".toList := ⟨by decide,by decide⟩
  have hvalue : "sha-256 ".toList ++ hash = "sha-256".toList ++ ' ' :: hash := rfl
  refine (if_pos rfl).trans ?_
  rw [hvalue,hsha.trim_append h.trim_eq h.1,Option.bind_some,hsha.splitWhitespace_append,h.splitWhitespace_eq]
  rfl

def Finds (allowed : List UInt8) (as : List Attribute) (codecs : List RtpCodec) : Prop :=
  ∃ found, as.mapM (rtpmapCodec allowed) = .ok found ∧ found.reduceOption = codecs

theorem Finds.append {bs : List Attribute} {cs ds : List RtpCodec}
    (ha : Finds allowed as cs) (hb : Finds allowed bs ds) : Finds allowed (as ++ bs) (cs ++ ds) := by
  obtain ⟨found,hfound,rfl⟩ := ha
  obtain ⟨found',hfound',rfl⟩ := hb
  refine ⟨found ++ found',?_,List.filterMap_append⟩
  rw [List.mapM_append,hfound,hfound']
  rfl

theorem Finds.nil (allowed : List UInt8) : Finds allowed [] [] := ⟨[],rfl,rfl⟩
theorem Finds.none_of_key (h : ∀ a ∈ as, a.key ≠ "rtpmap".toList) : Finds allowed as [] := by
  induction as with
  | nil => exact .nil allowed
  | cons a as ih =>
    obtain ⟨ha,has⟩ := List.forall_mem_cons.mp h
    have hone : Finds allowed [a] [] := ⟨[none],by rw [List.mapM_cons,rtpmapCodec,if_pos ha]; rfl,rfl⟩
    exact hone.append (ih has)

theorem Finds.flatMap {α : Type} {f : α → List Attribute} {g : α → RtpCodec} {xs : List α}
    (h : ∀ x ∈ xs, Finds allowed (f x) [g x]) : Finds allowed (xs.flatMap f) (xs.map g) := by
  induction xs with
  | nil => exact .nil allowed
  | cons x xs ih =>
    obtain ⟨hx,hxs⟩ := List.forall_mem_cons.mp h
    exact hx.append (ih hxs)

theorem Finds.reread_none (has : ∀ a ∈ as, a.key ∈ ownKeys ∧ a.key ≠ "rtpmap".toList) :
    Finds allowed (as.map Attribute.reread) [] := by
  refine .none_of_key fun a ha => ?_
  obtain ⟨b,hb,rfl⟩ := List.mem_map.mp ha
  rw [reread_eq (has b hb).1]
  exact (has b hb).2

theorem finds_codecAttrs (mediaType : MediaType) (hd : d.Sayable)
    (hallowed : d.rtpRepresentation.payloadType ∈ allowed) :
    Finds allowed ((codecAttrs mediaType d).map Attribute.reread) [d.rtpRepresentation] := by
  have hname : rtpmapName mediaType d.rtpRepresentation = d.rtpRepresentation.name := by
    unfold rtpmapName
    exact if_neg (by simpa using hd.name.1)
  have hmap : Finds allowed [⟨"rtpmap".toList,some (trim (rtpmapValue d.rtpRepresentation))⟩] [d.rtpRepresentation] := by
    refine ⟨[some d.rtpRepresentation],?_,rfl⟩
    have hcodec : rtpmapCodec allowed ⟨"rtpmap".toList,some (trim (rtpmapValue d.rtpRepresentation))⟩ =
        .ok (some d.rtpRepresentation) := by
      refine (if_neg (not_not.mpr rfl)).trans ?_
      dsimp only
      rw [RtpMap.fromStr_rtpmapValue hd.payloadType hd.name hd.slash]
      exact if_neg fun h => h.2 hallowed
    rw [List.mapM_cons,hcodec]
    rfl
  unfold codecAttrs
  dsimp only
  rw [List.map_cons,reread_eq (by simp [ownKeys]),hname]
  refine hmap.append (.reread_none ?_)
  cases d.sdpFmtp <;> simp [ownKeys]

theorem key_of_mem_opening (ha : a ∈ opening v6 cm candidates) : a.key ∈ ownKeys ∧ a.key ≠ "rtpmap".toList := by
  have hmem : a.key ∈ ["candidate".toList,"ice-ufrag".toList,"ice-pwd".toList,"fingerprint".toList,"setup".toList] := by
    rcases List.mem_append.mp ha with ha | ha
    · obtain ⟨_,-,rfl⟩ := List.mem_map.mp ha
      exact List.mem_cons_self
    · exact List.mem_cons_of_mem _ (key_of_mem_said ha)
  revert hmem
  generalize a.key = key
  revert key
  decide
theorem attrs_buildMediaDescription (cm : ConnectionManager) (mediaType : MediaType)
    (hne : codecs ≠ []) (candidates : List Candidate) : (cm.buildMediaDescription mediaType codecs
      (candidateAttrs v6 candidates)).attrs =
      opening v6 cm candidates ++ codecs.flatMap (codecAttrs mediaType) ++ [⟨"rtcp-mux".toList,none⟩] := by
  have hempty : ¬ codecs.isEmpty = true := by simpa using hne
  unfold buildMediaDescription
  dsimp only
  rw [if_neg hempty]
  rfl

theorem finds_buildMediaDescription (cm : ConnectionManager) (mediaType : MediaType)
    (hne : codecs ≠ []) (hcodecs : ∀ d ∈ codecs, d.Sayable) (candidates : List Candidate) :
    Finds (codecs.map (·.rtpRepresentation.payloadType)) ((cm.buildMediaDescription mediaType codecs
      (candidateAttrs v6 candidates)).attrs.map Attribute.reread) (codecs.map (·.rtpRepresentation)) := by
  have hmaps : Finds (codecs.map (·.rtpRepresentation.payloadType))
      ((codecs.flatMap (codecAttrs mediaType)).map Attribute.reread) (codecs.map (·.rtpRepresentation)) := by
    rw [List.map_flatMap]
    exact .flatMap fun d hd => finds_codecAttrs mediaType (hcodecs d hd) (List.mem_map_of_mem hd)
  have hfront : Finds (codecs.map (·.rtpRepresentation.payloadType))
      ((opening v6 cm candidates).map Attribute.reread) [] :=
    .reread_none fun _ => key_of_mem_opening v6
  have hback : Finds (codecs.map (·.rtpRepresentation.payloadType))
      ([⟨"rtcp-mux".toList,none⟩].map Attribute.reread) [] := .reread_none (by simp [ownKeys])
  have h := (hfront.append hmaps).append hback
  rw [List.nil_append,List.append_nil] at h
  rw [attrs_buildMediaDescription v6 cm mediaType hne,List.map_append,List.map_append]
  exact h

theorem mediaCodecs_buildMediaDescription (cm : ConnectionManager) (mediaType : MediaType)
    (hne : codecs ≠ []) (hcodecs : ∀ d ∈ codecs, d.Sayable) (candidates : List Candidate) :
    mediaCodecs (cm.buildMediaDescription mediaType codecs (candidateAttrs v6 candidates)).reread =
      .ok (codecs.map (·.rtpRepresentation)) := by
  have hallowed : (codecs.map fun c => decimal c.rtpRepresentation.payloadType.toNat).filterMap
      (fun fmt => (parseU8 fmt).toOption) = codecs.map (·.rtpRepresentation.payloadType) := by
    rw [List.filterMap_map,← List.filterMap_eq_map]
    refine List.filterMap_congr fun d _ => ?_
    rw [Function.comp_apply,parseU8_decimal]
    rfl
  have hfmts : (cm.buildMediaDescription mediaType codecs
      (candidateAttrs v6 candidates)).reread.fmts =
      codecs.map fun c => decimal c.rtpRepresentation.payloadType.toNat := if_neg (by simpa using hne)
  have hrtp : isRtp (cm.buildMediaDescription mediaType codecs
      (candidateAttrs v6 candidates)).reread.proto = true := by
    change isRtp "UDP/TLS/RTP/SAVPF".toList = true
    decide +kernel
  obtain ⟨found,hfound,hcs⟩ := finds_buildMediaDescription v6 cm mediaType hne hcodecs candidates
  rw [mediaCodecs,if_pos hrtp,hfmts,hallowed]
  dsimp only
  rw [Media.reread,hfound,← hcs]
  rfl

theorem Sayable.gathered (h : cm.Sayable) (env : Surroundings) : (cm.gathered v6 env).Sayable := by
  rw [gathered_eq]
  exact ⟨h.ufrag,h.pwd,h.fingerprint,h.codecs,h.codecs_ne,h.distinct⟩
theorem Sayable.plain (h : cm.Sayable) : cm.Plain where
  ufrag hmem := absurd (h.ufrag _ hmem) (by decide)
  pwd hmem := absurd (h.pwd _ hmem) (by decide)
  fingerprint := h.fingerprint.not_mem rfl
  codecs d hd := (h.codecs d hd).plain
theorem plain_of_sayable (h : ∀ c ∈ env.hostCandidates, SayableCandidate c) : env.Plain v6 := by
  intro c hc
  rw [fmt_eq_intercalate]
  exact not_mem_intercalate (by decide) fun t ht => (token_words v6 (h c hc) t ht).not_mem rfl

theorem mapM_mediaOf (hcm : cm.Sayable) (candidates : List Candidate) (mediaType : MediaType) :
    ∃ found, ((cm.mediaOf (candidateAttrs v6 candidates) mediaType).map Media.reread).mapM mediaCodecs = .ok found ∧
      found.flatten = (cm.localCodecs.filter (·.spec.mediaType = mediaType)).map (·.rtpRepresentation) := by
  unfold mediaOf
  dsimp only
  split
  · next hempty =>
    refine ⟨[],rfl,?_⟩
    rw [List.isEmpty_iff.mp hempty]
    rfl
  · next hempty =>
    have hne : cm.localCodecs.filter (·.spec.mediaType = mediaType) ≠ [] := fun h => hempty (List.isEmpty_iff.mpr h)
    have hcodecs := mediaCodecs_buildMediaDescription v6 cm mediaType hne
      (fun d hd => hcm.codecs d (List.mem_of_mem_filter hd)) candidates
    refine ⟨[_],?_,List.flatten_singleton⟩
    rw [List.map_singleton,List.mapM_cons,hcodecs]
    rfl

theorem mediaOf_ne_nil (hd : d ∈ cm.localCodecs)
    (candidates : List Attribute) : cm.mediaOf candidates d.spec.mediaType ≠ [] := by
  have hmem : d ∈ cm.localCodecs.filter (·.spec.mediaType = d.spec.mediaType) :=
    List.mem_filter.mpr ⟨hd,decide_eq_true rfl⟩
  unfold mediaOf
  dsimp only
  rw [if_neg fun hempty => List.not_mem_nil (List.isEmpty_iff.mp hempty ▸ hmem)]
  exact List.cons_ne_nil _ _

theorem sections_ne_nil (hcm : cm.Sayable) (candidates : List Attribute) :
    cm.mediaOf candidates .audio ++ cm.mediaOf candidates .video ≠ [] := by
  obtain ⟨d,hd⟩ := List.exists_mem_of_ne_nil _ hcm.codecs_ne
  have hne := mediaOf_ne_nil hd candidates
  cases hspec : d.spec.mediaType with
  | audio =>
    rw [hspec] at hne
    exact List.append_ne_nil_of_left_ne_nil hne _
  | video =>
    rw [hspec] at hne
    exact List.append_ne_nil_of_right_ne_nil _ hne

theorem media_buildLocalSdp_eq (env : Surroundings) (hcm : cm.Sayable) : (cm.buildLocalSdp v6 env).2.media =
      (cm.gathered v6 env).mediaOf (candidateAttrs v6 env.hostCandidates) .audio ++
      (cm.gathered v6 env).mediaOf (candidateAttrs v6 env.hostCandidates) .video :=
  if_neg fun h => sections_ne_nil (hcm.gathered v6 env) _ (List.isEmpty_iff.mp h)
/-- The attributes of all sections, as the peer reads them. -/
abbrev heard (env : Surroundings) (cm : ConnectionManager) : List Attribute :=
  (cm.buildLocalSdp v6 env).2.reread.media.flatMap (·.attrs)
theorem says_of_mem_heard (ha : a ∈ cm.heard v6 env) :
    ∃ b, Says v6 cm env.hostCandidates b ∧ a = ⟨b.key,b.value.map trim⟩ := by
  obtain ⟨m',hm',ha⟩ := List.mem_flatMap.mp ha
  obtain ⟨m,hm,rfl⟩ := List.mem_map.mp hm'
  obtain ⟨b,hb,rfl⟩ := List.mem_map.mp ha
  have hwritten := says_of_mem_media v6 hm hb
  exact ⟨b,hwritten,reread_eq hwritten.key⟩
theorem candidate_of_heard (henv : ∀ c ∈ env.hostCandidates, SayableCandidate c) (ha : a ∈ cm.heard v6 env)
    (hkey : a.key = "candidate".toList) :
    ∃ c ∈ env.hostCandidates, a.value.map (fromStr v6) = some (.ok c.cloneLight) := by
  obtain ⟨b,hb,rfl⟩ := says_of_mem_heard v6 ha
  obtain ⟨c,hc,hvalue⟩ := hb.candidate hkey
  exact ⟨c,hc,by rw [hvalue,Option.map_some,Option.map_some,fromStr_fmt v6 (henv c hc)]⟩

theorem mem_of_opening (ha : a ∈ opening v6 cm env.hostCandidates) :
    a.reread ∈ cm.heard v6 env := by
  obtain ⟨m,hm⟩ := List.exists_mem_of_ne_nil _ (media_buildLocalSdp_ne_nil v6 env cm)
  exact List.mem_flatMap.mpr ⟨m.reread,List.mem_map_of_mem hm,List.mem_map_of_mem (opening_subset v6 hm ha)⟩

theorem stable_reread (henv : env.Plain v6) (hcm : cm.Plain) (hm : m ∈ (cm.buildLocalSdp v6 env).2.media) :
    m.reread.Stable := by
  have hattrs : ∀ a ∈ m.attrs, OneLine a.fmt := fun _ ha => (says_of_mem_media v6 hm ha).fmt v6 hcm henv
  obtain ⟨mediaType,codecs,-,rfl⟩ := mem_media_buildLocalSdp v6 hm
  have hkind : MediaKind.audio.Stable ∧ MediaKind.video.Stable :=
    ⟨⟨⟨by decide,by decide⟩,by decide⟩,⟨⟨by decide,by decide⟩,by decide⟩⟩
  have hproto : Token "UDP/TLS/RTP/SAVPF".toList := ⟨by decide,by decide⟩
  refine ⟨?_,hproto,fun f hf => ?_,nofun,?_,nofun,fun a ha => ?_,nofun⟩
  · cases mediaType with
    | audio => exact hkind.1
    | video => exact hkind.2
  · change f ∈ (if codecs.isEmpty then ["96".toList] else codecs.map fun c => decimal c.rtpRepresentation.payloadType.toNat) at hf
    split at hf
    · rw [List.mem_singleton.mp hf]
      exact ⟨by decide,by decide⟩
    · obtain ⟨d,-,rfl⟩ := List.mem_map.mp hf
      exact token_decimal _
  · rintro _ ⟨⟩
    exact ⟨⟨by decide,by decide⟩,⟨by decide,by decide⟩⟩
  · obtain ⟨b,hb,rfl⟩ := List.mem_map.mp ha
    exact Attribute.stable_fromStr (hattrs b hb)

theorem parse_encode_buildLocalSdp (henv : env.Plain v6) (hcm : cm.Plain) :
    Sdp.parse (cm.buildLocalSdp v6 env).2.encode = .ok (cm.buildLocalSdp v6 env).2.reread := by
  refine parse_encode_reread (fun m hm _ ha => (says_of_mem_media v6 hm ha).fmt v6 hcm henv) ?_
  have hmedia : ∀ m ∈ (cm.buildLocalSdp v6 env).2.reread.media, m.Stable := by
    intro _ hmem
    obtain ⟨m,hm,rfl⟩ := List.mem_map.mp hmem
    exact stable_reread v6 henv hcm hm
  have hname : Clean "demo_session".toList := ⟨by decide,by decide⟩
  exact {
    origin := fun o ho => Option.some.inj ho ▸ Origin.stable_newBlank env.ntpSeconds
    sessionName := fun t ht => Option.some.inj ht ▸ hname
    sessionInfo := nofun
    uri := nofun
    emails := nofun
    phones := nofun
    connection := nofun
    bandwidth := nofun
    times := fun t ht => by
      obtain rfl := List.mem_singleton.mp ht
      exact ⟨nofun,nofun⟩
    attrs := nofun
    media := hmedia
    extraLines := nofun }

theorem any_saysIceLite_heard (env : Surroundings) (cm : ConnectionManager) :
    (cm.heard v6 env).any saysIceLite = false := by
  rw [List.any_eq_false]
  intro a ha hlite
  obtain ⟨b,hb,rfl⟩ := says_of_mem_heard v6 ha
  exact (plain_ownKeys _ hb.key).2.2 (of_decide_eq_true hlite)

/-- A description whose texts are one line each is not read as that of an ICE-lite peer. -/
theorem readsIceLite_buildLocalSdp (henv : env.Plain v6) (hcm : cm.Plain) :
    readsIceLite (cm.buildLocalSdp v6 env).2.encode = false := by
  rw [readsIceLite,parse_encode_buildLocalSdp v6 henv hcm]
  exact any_saysIceLite_heard v6 env cm

theorem candidateOf_eq_some {c : Candidate} (h : candidateOf v6 a = some c) :
    a.key = "candidate".toList ∧ a.value.map (fromStr v6) = some (.ok c) := by
  unfold candidateOf at h
  split at h
  · next hkey =>
    obtain ⟨v,hv,hc⟩ := Option.bind_eq_some_iff.mp h
    refine ⟨hkey,?_⟩
    rw [hv,Option.map_some]
    cases hparse : fromStr v6 v with
    | error e => rw [hparse] at hc; cases hc
    | ok d => rw [hparse] at hc; rw [← Option.some.inj hc]
  · cases h

/-- Exactly the candidates of the manager are heard, in each section once more. -/
theorem mem_heard (henv : ∀ c ∈ env.hostCandidates, SayableCandidate c) (c : Candidate) :
    c ∈ (cm.heard v6 env).filterMap (candidateOf v6) ↔ ∃ d ∈ env.hostCandidates, c = d.cloneLight := by
  rw [List.mem_filterMap]
  constructor
  · rintro ⟨a,ha,hc⟩
    obtain ⟨hkey,hvalue⟩ := candidateOf_eq_some v6 hc
    obtain ⟨d,hd,hsame⟩ := candidate_of_heard v6 henv ha hkey
    exact ⟨d,hd,Except.ok.inj (Option.some.inj (hvalue.symm.trans hsame))⟩
  · rintro ⟨d,hd,rfl⟩
    have hopening : ⟨"candidate".toList,some (IceAndSdp.fmt v6 d)⟩ ∈ opening v6 cm env.hostCandidates :=
      List.mem_append_left _ (List.mem_map_of_mem hd)
    refine ⟨_,mem_of_opening v6 hopening,?_⟩
    rw [reread_eq (by simp [ownKeys]),Option.map_some,candidateOf_mk,fromStr_fmt v6 (henv d hd)]
    rfl

/-- What the manager says once, in each section the same, is what the peer finds. -/
theorem findSome?_said {f : Attribute → Option Text} {v found : Text}
    (hother : ∀ a : Attribute, a.key ≠ key → f a = none) (hfound : f ⟨key,some (trim v)⟩ = some found)
    (hsaid : ⟨key,some v⟩ ∈ cm.said) : (cm.heard v6 env).findSome? f = some found := by
  have hwritten : Says v6 cm env.hostCandidates ⟨key,some v⟩ := says_of_mem_said v6 hsaid
  refine findSome?_eq_of_agree (fun a ha => ?_)
    ⟨_,mem_of_opening v6 (List.mem_append_right _ hsaid),by rw [reread_eq hwritten.key]; exact hfound⟩
  obtain ⟨b,hb,rfl⟩ := says_of_mem_heard v6 ha
  by_cases hsame : b.key = key
  · rw [hb.own _ hsaid hsame]
    exact .inr hfound
  · exact .inl (hother _ hsame)

theorem findSome?_ufrag (hcm : cm.Sayable) :
    (cm.heard v6 env).findSome? (valueOf "ice-ufrag".toList) = some cm.iceAgent.ufrag.toList :=
  findSome?_said v6 (fun _ h => if_neg h) ((valueOf_self _ _).trans (congrArg some (trim_of_no_whitespace hcm.ufrag)))
    (.head _)
theorem findSome?_pwd (hcm : cm.Sayable) :
    (cm.heard v6 env).findSome? (valueOf "ice-pwd".toList) = some cm.iceAgent.pwd.toList :=
  findSome?_said v6 (fun _ h => if_neg h) ((valueOf_self _ _).trans (congrArg some (trim_of_no_whitespace hcm.pwd)))
    (.tail _ (.head _))
theorem findSome?_fingerprint (hcm : cm.Sayable) :
    (cm.heard v6 env).findSome? fingerprintOf = some cm.localFingerprint :=
  findSome?_said v6 (fun _ h => if_neg h) (fingerprintOf_sha hcm.fingerprint) (.tail _ (.tail _ (.head _)))

theorem extractAndStoreRemoteIceMeta_buildLocalSdp
    (henv : ∀ c ∈ env.hostCandidates, SayableCandidate c) (hcm : cm.Sayable) (peer : ConnectionManager) :
    peer.extractAndStoreRemoteIceMeta v6 (cm.buildLocalSdp v6 env).2.reread =
      ({ peer with iceAgent := { peer.iceAgent with
          remoteCandidates := peer.iceAgent.remoteCandidates ++ (cm.heard v6 env).filterMap (candidateOf v6)
          remoteUfrag := cm.iceAgent.ufrag
          remotePwd := cm.iceAgent.pwd } },
        .ok ⟨false,some cm.iceAgent.ufrag.toList,some cm.iceAgent.pwd.toList⟩) := by
  have hparse : ∀ a ∈ cm.heard v6 env, a.key = "candidate".toList →
      ∃ c, a.value.map (fromStr v6) = some (.ok c) := by
    intro a ha hkey
    obtain ⟨d,-,hd⟩ := candidate_of_heard v6 henv ha hkey
    exact ⟨_,hd⟩
  have hsession : (cm.buildLocalSdp v6 env).2.reread.attrs.foldl IceMeta.session ⟨false,none,none⟩ =
      ⟨false,none,none⟩ := rfl
  unfold extractAndStoreRemoteIceMeta
  rw [hsession,mediaIceMeta_eq v6 hparse,foldl_media,any_saysIceLite_heard,findSome?_ufrag v6 hcm,findSome?_pwd v6 hcm]
  simp only [Option.none_or,Option.map_some,Option.getD_some,String.ofList_toList,Bool.or_self]

theorem discovered_buildLocalSdp (env : Surroundings) (hcm : cm.Sayable) :
    ∃ found, (cm.buildLocalSdp v6 env).2.reread.media.mapM mediaCodecs = .ok found ∧
      found.flatten.Perm (cm.localCodecs.map (·.rtpRepresentation)) := by
  have hcodecs : (cm.gathered v6 env).localCodecs = cm.localCodecs := by rw [gathered_eq]
  obtain ⟨audio,haudio,haudioCodecs⟩ := mapM_mediaOf v6 (hcm.gathered v6 env) env.hostCandidates .audio
  obtain ⟨video,hvideo,hvideoCodecs⟩ := mapM_mediaOf v6 (hcm.gathered v6 env) env.hostCandidates .video
  refine ⟨audio ++ video,?_,?_⟩
  · change ((cm.buildLocalSdp v6 env).2.media.map Media.reread).mapM mediaCodecs = _
    rw [media_buildLocalSdp_eq v6 env hcm,List.map_append,List.mapM_append,haudio,hvideo]
    rfl
  · have hother : ∀ d : CodecDescriptor, (!decide (d.spec.mediaType = .audio)) = decide (d.spec.mediaType = .video) := by
      intro d
      cases d.spec.mediaType <;> rfl
    have hsplit := List.filter_append_perm (fun d : CodecDescriptor => decide (d.spec.mediaType = .audio)) cm.localCodecs
    simp only [hother] at hsplit
    rw [List.flatten_append,haudioCodecs,hvideoCodecs,hcodecs,← List.map_append]
    exact hsplit.map _

theorem extractAndStoreRtpMeta_buildLocalSdp (env : Surroundings) (hcm : cm.Sayable) (peer : ConnectionManager) :
    ∃ codecs : List RtpCodec, codecs.Perm (cm.localCodecs.map (·.rtpRepresentation)) ∧
      codecs.Pairwise (·.payloadType < ·.payloadType) ∧
      peer.extractAndStoreRtpMeta (cm.buildLocalSdp v6 env).2.reread = ({ peer with remoteCodecs := codecs }, .ok ()) := by
  obtain ⟨found,hfound,hperm⟩ := discovered_buildLocalSdp v6 env hcm
  have hsorted := (List.perm_insertionSort (fun c d : RtpCodec => c.payloadType ≤ d.payloadType) found.flatten).trans hperm
  have hnodup : ((found.flatten.insertionSort fun c d => c.payloadType ≤ d.payloadType).map (·.payloadType)).Nodup := by
    rw [(hsorted.map _).nodup_iff,List.map_map]
    exact hcm.distinct
  refine ⟨_,hsorted,?_,?_⟩
  · have : Std.Total fun c d : RtpCodec => c.payloadType ≤ d.payloadType := ⟨fun _ _ => UInt8.le_total _ _⟩
    have : IsTrans RtpCodec fun c d => c.payloadType ≤ d.payloadType := ⟨fun _ _ _ => UInt8.le_trans⟩
    have hle := List.pairwise_insertionSort (fun c d : RtpCodec => c.payloadType ≤ d.payloadType) found.flatten
    exact hle.imp₂ (fun _ _ h hne => UInt8.lt_of_le_of_ne h hne) (List.pairwise_map.mp hnodup)
  · rw [extractAndStoreRtpMeta,hfound]
    dsimp only
    rw [dedupByKey_eq_self hnodup]

/-- What a manager says in its description, the peer that reads it has: its codecs in the order of their payload
types, its candidates without their sockets, its credentials and its fingerprint. -/
theorem extract_parse_buildLocalSdp {env : Surroundings} (henv : ∀ c ∈ env.hostCandidates, SayableCandidate c)
    {cm : ConnectionManager} (hcm : cm.Sayable) (peer : ConnectionManager) :
    ∃ sdp peer', Sdp.parse (cm.buildLocalSdp v6 env).2.encode = .ok sdp ∧ peer.extract v6 sdp = (peer', .ok false) ∧
      peer'.remoteCodecs.Perm (cm.localCodecs.map (·.rtpRepresentation)) ∧
      peer'.remoteCodecs.Pairwise (·.payloadType < ·.payloadType) ∧
      (∀ c, c ∈ peer'.iceAgent.remoteCandidates ↔
        c ∈ peer.iceAgent.remoteCandidates ∨ ∃ d ∈ env.hostCandidates, c = d.cloneLight) ∧
      peer'.iceAgent.remoteUfrag = cm.iceAgent.ufrag ∧ peer'.iceAgent.remotePwd = cm.iceAgent.pwd ∧
      peer'.remoteFingerprint = some cm.localFingerprint := by
  have hice := extractAndStoreRemoteIceMeta_buildLocalSdp v6 henv hcm peer
  generalize hpeer : { peer with iceAgent := _ } = peerIce at hice
  obtain ⟨codecs,hperm,hsorted,hrtp⟩ := extractAndStoreRtpMeta_buildLocalSdp v6 env hcm peerIce
  let peer' := { peerIce with
    remoteCodecs := codecs
    remoteFingerprint := some cm.localFingerprint
    remoteDescription := some (cm.buildLocalSdp v6 env).2.reread }
  refine ⟨_,peer',parse_encode_buildLocalSdp v6 (plain_of_sayable v6 henv) hcm.plain,?_,hperm,hsorted,?_⟩
  · rw [extract, hice]
    dsimp only
    rw [hrtp]
    dsimp only
    rw [extractAndStoreFingerprint, findSome?_fingerprint v6 hcm]
  · subst hpeer
    refine ⟨fun c => ?_,rfl,rfl,rfl⟩
    rw [List.mem_append, mem_heard v6 henv]

def twoCodecs (fmtp : Text) : ConnectionManager :=
  (ConnectionManager.new 100 ("uf","pw") (some "AB:CD".toList)).setLocalRtpCodecs
    [⟨⟨96,90000,"H264".toList⟩,some fmtp, .h264⟩,⟨⟨0,8000,"PCMU".toList⟩,none, .g711u⟩]
def oneHost : Surroundings where
  hostCandidates := [⟨"f",1,"udp",100,⟨.v4 10 0 0 1,5000⟩, .host,none,some ⟨.v4 10 0 0 1,5000⟩⟩]
  candidates := []
  ntpSeconds := 1
  sendOk _ _ := true
theorem sayable_oneHost : ∀ c ∈ oneHost.hostCandidates, SayableCandidate c := by
  have hfoundation : Token "f".toList := ⟨by decide,by decide⟩
  have htransport : Token "udp".toList := ⟨by decide,by decide⟩
  intro c hc
  obtain rfl := List.mem_singleton.mp hc
  exact ⟨hfoundation,by decide,htransport,rfl,nofun⟩

theorem codec_of_mem_twoCodecs (hd : d ∈ (twoCodecs fmtp).localCodecs) :
    d.rtpRepresentation.payloadType ≤ 127 ∧ Token d.rtpRepresentation.name ∧ '/' ∉ d.rtpRepresentation.name ∧
      ∀ f ∈ d.sdpFmtp, f = fmtp := by
  have hh264 : Token "H264".toList ∧ '/' ∉ "H264".toList := ⟨⟨by decide,by decide⟩,by decide⟩
  have hpcmu : Token "PCMU".toList ∧ '/' ∉ "PCMU".toList := ⟨⟨by decide,by decide⟩,by decide⟩
  have hle : (96 : UInt8) ≤ 127 ∧ (0 : UInt8) ≤ 127 := by decide
  simp only [twoCodecs,setLocalRtpCodecs,List.mem_cons,List.not_mem_nil,or_false] at hd
  rcases hd with rfl | rfl
  · exact ⟨hle.1,hh264.1,hh264.2,fun f hf => (Option.some.inj hf).symm⟩
  · exact ⟨hle.2,hpcmu.1,hpcmu.2,nofun⟩

theorem distinct_twoCodecs (fmtp : Text) :
    ((twoCodecs fmtp).localCodecs.map (·.rtpRepresentation.payloadType)).Nodup := by
  have hne : [(96 : UInt8),0].Nodup := by decide
  exact hne

theorem sayable_twoCodecs (h : OneLine fmtp) : (twoCodecs fmtp).Sayable := by
  have hufrag : ∀ c ∈ "uf".toList, isWhitespace c = false := by decide
  have hpwd : ∀ c ∈ "pw".toList, isWhitespace c = false := by decide
  have hfingerprint : Token "AB:CD".toList := ⟨by decide,by decide⟩
  refine ⟨hufrag,hpwd,hfingerprint,fun d hd => ?_,List.cons_ne_nil _ _,distinct_twoCodecs fmtp⟩
  obtain ⟨hle,hname,hslash,hfmtp⟩ := codec_of_mem_twoCodecs hd
  exact ⟨hle,hname,hslash,fun f hf => hfmtp f hf ▸ h⟩

theorem extract_parse_twoCodecs :
    (twoCodecs "packetization-mode=1".toList).Sayable ∧
      ∃ sdp peer', Sdp.parse ((twoCodecs "packetization-mode=1".toList).buildLocalSdp noIpv6 oneHost).2.encode = .ok sdp ∧
        (ConnectionManager.new 100 ("a","b") none).extract noIpv6 sdp = (peer', .ok false) ∧
        peer'.remoteCodecs.Perm [⟨96,90000,"H264".toList⟩,⟨0,8000,"PCMU".toList⟩] ∧
        peer'.remoteCodecs.Pairwise (·.payloadType < ·.payloadType) ∧
        (∀ c, c ∈ peer'.iceAgent.remoteCandidates ↔ c ∈ [] ∨ ∃ d ∈ oneHost.hostCandidates, c = d.cloneLight) ∧
        peer'.iceAgent.remoteUfrag = "uf" ∧ peer'.iceAgent.remotePwd = "pw" ∧
        peer'.remoteFingerprint = some "AB:CD".toList := by
  have h : (twoCodecs "packetization-mode=1".toList).Sayable := sayable_twoCodecs (by decide)
  exact ⟨h,extract_parse_buildLocalSdp noIpv6 sayable_oneHost h _⟩

/-- A line break in a codec's parameters starts an attribute of its own, which the peer does not accept. -/
theorem fmtp_line_break_refused :
    let cm := twoCodecs "x\na=rtpmap:0".toList
    (∀ c ∈ oneHost.hostCandidates, SayableCandidate c) ∧
      (cm.localCodecs.map (·.rtpRepresentation.payloadType)).Nodup ∧
      (∀ d ∈ cm.localCodecs, d.rtpRepresentation.payloadType ≤ 127 ∧ Token d.rtpRepresentation.name ∧
        '/' ∉ d.rtpRepresentation.name) ∧
      (∀ c ∈ cm.iceAgent.ufrag.toList ++ cm.iceAgent.pwd.toList ++ cm.localFingerprint, isWhitespace c = false) ∧
      (Sdp.parse (cm.buildLocalSdp noIpv6 oneHost).2.encode).toOption.map
        (fun sdp => ((ConnectionManager.new 100 ("a","b") none).extract noIpv6 sdp).2.isOk) = some false := by
  refine ⟨sayable_oneHost,distinct_twoCodecs _,fun d hd => ?_,by decide,by decide +kernel⟩
  obtain ⟨hle,hname,hslash,-⟩ := codec_of_mem_twoCodecs hd
  exact ⟨hle,hname,hslash⟩
end ConnectionManager
end RustyRtc.Connection
