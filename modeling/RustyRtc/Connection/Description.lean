import RustyRtc.Connection.Manager
import RustyRtc.Sdp.Lines

/-! # A manager's own description

Each attribute that a manager writes has a key of its own. Candidates, credentials, the fingerprint and the announced
role stand in it as the manager has them, and each value is one line if the manager's texts are.
-/
namespace RustyRtc.Connection
open Ice Sdp

def saysIceLite (a : Attribute) : Bool := a.key = "ice-lite".toList
def iceLite (sdp : Sdp) : Bool := sdp.attributes.any saysIceLite
def readsIceLite (text : Text) : Bool :=
  match Sdp.parse text with
  | .ok sdp => iceLite sdp
  | .error _ => false

def OneLine (t : Text) : Prop := '\n' ∉ t
instance : DecidablePred OneLine := fun t => inferInstanceAs (Decidable ('\n' ∉ t))
theorem OneLine.append {s t : Text} (hs : OneLine s) (ht : OneLine t) : OneLine (s ++ t) := by
  simp only [OneLine,List.mem_append,not_or]
  exact ⟨hs,ht⟩
theorem oneLine_decimal (n : ℕ) : OneLine (decimal n) := (token_decimal n).not_mem rfl

def CodecDescriptor.Plain (d : CodecDescriptor) : Prop :=
  OneLine d.rtpRepresentation.name ∧ ∀ fmtp ∈ d.sdpFmtp, OneLine fmtp
structure ConnectionManager.Plain (cm : ConnectionManager) : Prop where
  ufrag : OneLine cm.iceAgent.ufrag.toList
  pwd : OneLine cm.iceAgent.pwd.toList
  fingerprint : OneLine cm.localFingerprint
  codecs : ∀ d ∈ cm.localCodecs, d.Plain
def Surroundings.Plain (v6 : Ipv6Text) (env : Surroundings) : Prop :=
  ∀ c ∈ env.hostCandidates, OneLine (IceAndSdp.fmt v6 c)
def candidateAttrs (v6 : Ipv6Text) (candidates : List Candidate) : List Attribute :=
  candidates.map fun c => ⟨"candidate".toList,some (IceAndSdp.fmt v6 c)⟩

namespace ConnectionManager
variable {cm : ConnectionManager} {candidates : List Candidate} {m : Media} {env : Surroundings} {a : Attribute}
variable {codecs : List CodecDescriptor} {mediaType : MediaType} {d : CodecDescriptor}
def ownKeys : List Text := ["candidate".toList,"ice-ufrag".toList,"ice-pwd".toList,"fingerprint".toList,"setup".toList,
  "rtpmap".toList,"fmtp".toList,"rtcp-mux".toList]
theorem plain_ownKeys : ∀ key ∈ ownKeys, PlainKey key ∧ OneLine key ∧ key ≠ "ice-lite".toList := by
  unfold PlainKey
  decide +kernel

/-- What every section says about the manager. -/
def said (cm : ConnectionManager) : List Attribute :=
  [⟨"ice-ufrag".toList,some cm.iceAgent.ufrag.toList⟩,⟨"ice-pwd".toList,some cm.iceAgent.pwd.toList⟩,
    ⟨"fingerprint".toList,some ("sha-256 ".toList ++ cm.localFingerprint)⟩,
    ⟨"setup".toList,some (if cm.signaling = .stable then "actpass".toList else "active".toList)⟩]
theorem key_of_mem_said (ha : a ∈ cm.said) :
    a.key ∈ ["ice-ufrag".toList,"ice-pwd".toList,"fingerprint".toList,"setup".toList] := List.mem_map_of_mem ha

theorem Plain.said (hcm : cm.Plain) (ha : a ∈ cm.said) : ∀ v ∈ a.value, OneLine v := by
  have hsetup : OneLine (if cm.signaling = .stable then "actpass".toList else "active".toList) := by
    split <;> decide +kernel
  have hfingerprint : OneLine ("sha-256 ".toList ++ cm.localFingerprint) :=
    OneLine.append (by decide +kernel) hcm.fingerprint
  simp only [ConnectionManager.said,List.mem_cons,List.not_mem_nil,or_false] at ha
  rcases ha with rfl | rfl | rfl | rfl <;> rintro _ ⟨⟩
  exacts [hcm.ufrag,hcm.pwd,hfingerprint,hsetup]

theorem oneLine_rtpmapName (mediaType : MediaType) {codec : RtpCodec} (h : OneLine codec.name) :
    OneLine (rtpmapName mediaType codec) := by
  unfold rtpmapName
  split
  · cases mediaType <;> decide +kernel
  · exact h

section
variable (v6 : Ipv6Text)

/-- What is known of an attribute that a manager with these candidates writes. -/
structure Says (cm : ConnectionManager) (candidates : List Candidate) (a : Attribute) : Prop where
  key : a.key ∈ ownKeys
  oneLine : cm.Plain → (∀ c ∈ candidates, OneLine (IceAndSdp.fmt v6 c)) → ∀ v ∈ a.value, OneLine v
  candidate : a.key = "candidate".toList → ∃ c ∈ candidates, a.value = some (IceAndSdp.fmt v6 c)
  own : ∀ b ∈ cm.said, a.key = b.key → a = b

theorem Says.fmt (h : Says v6 cm candidates a) (hcm : cm.Plain)
    (hcandidates : ∀ c ∈ candidates, OneLine (IceAndSdp.fmt v6 c)) : OneLine a.fmt := by
  obtain ⟨-,hkey,-⟩ := plain_ownKeys a.key h.key
  have hvalue := h.oneLine hcm hcandidates
  unfold Attribute.fmt
  split
  · next v hv => exact (hkey.append (by decide)).append (hvalue v hv)
  · exact hkey

theorem says_candidate {c : Candidate} (hc : c ∈ candidates) :
    Says v6 cm candidates ⟨"candidate".toList,some (IceAndSdp.fmt v6 c)⟩ where
  key := by simp [ownKeys]
  oneLine _ hcandidates v hv := Option.some.inj hv ▸ hcandidates c hc
  candidate _ := ⟨c,hc,rfl⟩
  own _ hb hkey := absurd (hkey ▸ key_of_mem_said hb) (by dsimp only; decide)
theorem says_of_mem_said (ha : a ∈ cm.said) : Says v6 cm candidates a where
  key := by
    have hkeys : ∀ key ∈ ["ice-ufrag".toList,"ice-pwd".toList,"fingerprint".toList,"setup".toList], key ∈ ownKeys := by
      decide
    exact hkeys _ (key_of_mem_said ha)
  oneLine hcm _ := hcm.said ha
  candidate hkey := absurd (hkey ▸ key_of_mem_said ha) (by decide)
  own _ hb hkey := by
    have hkeys : (cm.said.map (·.key)).Nodup := by
      change ["ice-ufrag".toList,"ice-pwd".toList,"fingerprint".toList,"setup".toList].Nodup
      decide
    exact List.inj_on_of_nodup_map hkeys ha hb hkey
theorem Says.other (hkey : a.key ∈ ["rtpmap".toList,"fmtp".toList,"rtcp-mux".toList])
    (hvalue : cm.Plain → ∀ v ∈ a.value, OneLine v) : Says v6 cm candidates a := by
  have hkeys : ∀ key ∈ ["rtpmap".toList,"fmtp".toList,"rtcp-mux".toList], key ∈ ownKeys ∧ key ≠ "candidate".toList ∧
      key ∉ ["ice-ufrag".toList,"ice-pwd".toList,"fingerprint".toList,"setup".toList] := by decide
  obtain ⟨hown,hcandidate,hsaid⟩ := hkeys a.key hkey
  exact ⟨hown,fun hcm _ => hvalue hcm,fun h => absurd h hcandidate,fun b hb h => absurd (h ▸ key_of_mem_said hb) hsaid⟩

theorem says_codecAttrs (hd : d ∈ cm.localCodecs) (ha : a ∈ codecAttrs mediaType d) : Says v6 cm candidates a := by
  have hspace : OneLine [' '] := by decide
  unfold codecAttrs at ha
  rcases List.mem_cons.mp ha with rfl | ha
  · refine .other v6 (by simp) fun hcm => ?_
    rintro _ ⟨⟩
    exact ((((oneLine_decimal _).append hspace).append (oneLine_rtpmapName mediaType (hcm.codecs d hd).1)).append
      (by decide)).append (oneLine_decimal _)
  · cases hfmtp : d.sdpFmtp with
    | none => simp [hfmtp] at ha
    | some fmtp =>
      rw [hfmtp] at ha
      rw [List.mem_singleton.mp ha]
      refine .other v6 (by simp) fun hcm => ?_
      rintro _ ⟨⟩
      exact ((oneLine_decimal _).append hspace).append ((hcm.codecs d hd).2 fmtp hfmtp)

theorem says_of_mem_attrs (hcodecs : codecs ⊆ cm.localCodecs)
    (ha : a ∈ (cm.buildMediaDescription mediaType codecs (candidateAttrs v6 candidates)).attrs) :
    Says v6 cm candidates a := by
  rcases List.mem_append.mp ha with ha | ha
  · rcases List.mem_append.mp ha with ha | ha
    · rcases List.mem_append.mp ha with ha | ha
      · obtain ⟨c,hc,rfl⟩ := List.mem_map.mp ha
        exact says_candidate v6 hc
      · exact says_of_mem_said v6 ha
    · split at ha
      · rw [List.mem_singleton.mp ha]
        exact .other v6 (by simp) fun _ => by decide +kernel
      · obtain ⟨d,hd,ha⟩ := List.mem_flatMap.mp ha
        exact says_codecAttrs v6 (hcodecs hd) ha
  · rw [List.mem_singleton.mp ha]
    exact .other v6 (by simp) (by simp)
end

theorem foldl_addLocalCandidate (cs : List Candidate) (a : IceAgent) :
    cs.foldl IceAgent.addLocalCandidate a = { a with localCandidates := a.localCandidates ++ cs } := by
  induction cs generalizing a with
  | nil => rw [List.foldl_nil,List.append_nil]
  | cons c cs ih => rw [List.foldl_cons,ih,IceAgent.addLocalCandidate,List.append_assoc,List.singleton_append]

theorem mem_mediaOf {candidates : List Attribute} (hm : m ∈ cm.mediaOf candidates mediaType) :
    ∃ codecs ⊆ cm.localCodecs, m = cm.buildMediaDescription mediaType codecs candidates := by
  unfold mediaOf at hm
  dsimp only at hm
  split at hm
  · cases hm
  · exact ⟨_,List.filter_subset_self _,List.mem_singleton.mp hm⟩

variable (v6 : Ipv6Text)
def gathered (env : Surroundings) (cm : ConnectionManager) : ConnectionManager :=
  (cm.getLocalCandidatesAsAttributes v6 env).1
theorem gathered_eq (env : Surroundings) (cm : ConnectionManager) :
    cm.gathered v6 env = { cm with iceAgent := { cm.iceAgent with
      localCandidates := cm.iceAgent.localCandidates ++ env.hostCandidates } } := by
  rw [gathered,getLocalCandidatesAsAttributes,foldl_addLocalCandidate]

theorem mem_media_buildLocalSdp (hm : m ∈ (cm.buildLocalSdp v6 env).2.media) : ∃ mediaType, ∃ codecs ⊆ cm.localCodecs,
      m = (cm.gathered v6 env).buildMediaDescription mediaType codecs (candidateAttrs v6 env.hostCandidates) := by
  unfold buildLocalSdp at hm
  dsimp only at hm
  split at hm
  · exact ⟨.video,[],List.nil_subset _,List.mem_singleton.mp hm⟩
  · rcases List.mem_append.mp hm with hm | hm
    · exact ⟨.audio,mem_mediaOf hm⟩
    · exact ⟨.video,mem_mediaOf hm⟩

theorem media_buildLocalSdp_ne_nil (env : Surroundings) (cm : ConnectionManager) :
    (cm.buildLocalSdp v6 env).2.media ≠ [] := by
  unfold buildLocalSdp
  dsimp only
  split
  · exact List.cons_ne_nil _ _
  · next h => exact fun hnil => h (List.isEmpty_iff.mpr hnil)

theorem says_of_mem_media (hm : m ∈ (cm.buildLocalSdp v6 env).2.media) (ha : a ∈ m.attrs) :
    Says v6 cm env.hostCandidates a := by
  obtain ⟨mediaType,codecs,hcodecs,rfl⟩ := mem_media_buildLocalSdp v6 hm
  rw [gathered_eq] at ha
  have hwritten := says_of_mem_attrs v6 hcodecs ha
  exact ⟨hwritten.key,fun h => hwritten.oneLine ⟨h.ufrag,h.pwd,h.fingerprint,h.codecs⟩,hwritten.candidate,hwritten.own⟩

def opening (cm : ConnectionManager) (candidates : List Candidate) : List Attribute :=
  candidateAttrs v6 candidates ++ cm.said
theorem opening_subset (hm : m ∈ (cm.buildLocalSdp v6 env).2.media) : opening v6 cm env.hostCandidates ⊆ m.attrs := by
  obtain ⟨mediaType,codecs,-,rfl⟩ := mem_media_buildLocalSdp v6 hm
  rw [gathered_eq]
  exact fun a ha => List.mem_append_left _ (List.mem_append_left _ ha)
end ConnectionManager
end RustyRtc.Connection
