import RustyRtc.Rtcp.RoundTrip

/-! # What the encoders refuse

An encoder that fails closed refuses exactly the packets that have no RFC 3550 form, and what it
writes carries the counts and lengths of its contents. The limits are checked in some encoders, in
others not at all, and in BYE one too early.
-/
namespace RustyRtc.Rtcp
namespace RtcpPacket
variable {p : Bye} {c : Bytes}
def totalWords (p : RtcpPacket) : ℕ := (p.bodyLength + 3) / 4 + 1

/-- No RFC 3550 form: a count over 31, an item or reason over 255 bytes, an item of type 0, or a
packet over 65536 words. -/
def Unrepresentable (p : RtcpPacket) : Prop :=
  (∃ n ∈ p.count, n > 31) ∨ p.totalWords > 65536 ∨
    match p with
    | .sdes p => ∃ chunk ∈ p.chunks, ∃ item ∈ chunk.items, item.asBytes.length > 255 ∨ item.typCode = 0
    | .bye p => ∃ r ∈ p.reason, r.utf8ByteSize > 255
    | _ => False

/-- The count, length and reason fields say what the packet holds. -/
structure FieldsAgree (p : RtcpPacket) (c : Bytes) : Prop where
  count : ∀ n ∈ p.count, (c.getD 0 0 &&& 0x1F).toNat = n
  length : ((readU16 c 2).toNat + 1) * 4 = c.length
  reason : ∀ q, p = .bye q → ∀ r ∈ q.reason, (c.getD (4 + 4 * q.sources.length) 0).toNat = r.utf8ByteSize
def FailsClosed (p : RtcpPacket) : Prop :=
  ((∃ e, p.encodeInto = .error e) ↔ p.Unrepresentable) ∧ ∀ c, p.encodeInto = .ok c → p.FieldsAgree c
def Refused : RtcpPacket → Prop
  | .sr p => p.reports.length > 31
  | .sdes p => ∃ chunk ∈ p.chunks, ∃ item ∈ chunk.items, item.asBytes.length > 255
  | .bye p => p.sources.length ≥ 31
  | _ => False

theorem sdes_isOk_iff (p : Sdes) : (∃ c, p.encodeInto = .ok c) ↔
    ∀ chunk ∈ p.chunks, ∀ item ∈ chunk.items, item.asBytes.length ≤ 255 := by
  have hitem : ∀ item : SdesItem, (∃ c, item.encodeInto = .ok c) ↔ item.asBytes.length ≤ 255 := by
    intro item
    simp [SdesItem.encodeInto_eq_ok]
  have hchunk : ∀ chunk : SdesChunk, (∃ c, chunk.encodeInto = .ok c) ↔
      ∀ item ∈ chunk.items, item.asBytes.length ≤ 255 := by
    intro chunk
    simp only [← hitem,← writeAll_isOk_iff,SdesChunk.encodeInto_eq_ok]
    constructor
    · rintro ⟨_,e,he,-⟩
      exact ⟨e,he⟩
    · rintro ⟨e,he⟩
      exact ⟨_,e,he,rfl⟩
  simp only [← hchunk,← writeAll_isOk_iff,Sdes.encodeInto,bind_eq_ok]
  constructor
  · rintro ⟨_,e,he,-⟩
    exact ⟨e,he⟩
  · rintro ⟨e,he⟩
    exact ⟨_,e,he,rfl⟩

theorem encodeInto_isOk_iff (p : RtcpPacket) : (∃ c, p.encodeInto = .ok c) ↔ ¬ p.Refused := by
  cases p with
  | sr p =>
    change (∃ c, (if p.reports.length > 31 then _ else _) = _) ↔ ¬ p.reports.length > 31
    split <;> simp [*]
  | bye p =>
    change (∃ c, (if p.sources.length ≥ 31 then _ else _) = _) ↔ ¬ p.sources.length ≥ 31
    split <;> simp [*]
  | sdes p =>
    refine (sdes_isOk_iff p).trans ?_
    simp [Refused]
  | rr p | app p | nack p | pli p => exact iff_of_true ⟨_,rfl⟩ id

theorem encodeInto_isError_iff (p : RtcpPacket) : (∃ e, p.encodeInto = .error e) ↔ p.Refused := by
  rw [← not_iff_not,← encodeInto_isOk_iff]
  cases p.encodeInto <;> simp

theorem bye_reason_byte {r : String} (hr : r ∈ p.reason) (hlen : r.utf8ByteSize ≤ 255)
    (hc : p.encodeInto = .ok c) : (c.getD (4 + 4 * p.sources.length) 0).toNat = r.utf8ByteSize := by
  rw [Bye.encodeInto] at hc
  split at hc
  · cases hc
  · cases hc
    have hsources : (p.sources.flatMap beBytes32).length = 4 * p.sources.length := by
      simp [List.length_flatMap,Nat.mul_comm]
    have hreason : ∃ more, Bye.reasonBytes p.reason = UInt8.ofNat (utf8 r).length :: more := by
      rw [Option.mem_def.mp hr]
      refine ⟨utf8 r ++ padding (1 + (utf8 r).length),?_⟩
      simp only [Bye.reasonBytes,if_pos (show (utf8 r).length ≤ 255 from hlen),List.cons_append]
    obtain ⟨more,hmore⟩ := hreason
    have hskip : ∀ (x y z w : UInt8) (b : Bytes) (i : ℕ), (x :: y :: z :: w :: b).getD (4 + i) 0 = b.getD i 0 := by
      intro x y z w b i
      rw [Nat.add_comm]
      rfl
    rw [finish_eq,hmore,beBytes16]
    simp only [List.cons_append,List.nil_append,List.append_assoc]
    rw [hskip,List.getD_append_right _ _ _ _ (Nat.le_of_eq hsources),hsources,Nat.sub_self]
    change (UInt8.ofNat (utf8 r).length).toNat = _
    rw [UInt8.toNat_ofNat',utf8_length]
    omega

theorem fieldsAgree_of_representable {p : RtcpPacket} (h : ¬ p.Unrepresentable)
    (hc : p.encodeInto = .ok c) : p.FieldsAgree c := by
  obtain ⟨rc,body,rfl,hbody,hrc⟩ := encodeInto_spec hc
  simp only [Unrepresentable,not_or,not_exists,not_and] at h
  obtain ⟨hcount,hwords,hkind⟩ := h
  have hlen : body.length ≤ 262140 := by
    rw [totalWords] at hwords
    omega
  refine ⟨?_,?_,?_⟩
  · intro n hn
    have hfirst : (finish rc p.packetType body).getD 0 0 &&& 0x1F = rc &&& 0x1F := by
      rw [finish_eq]
      exact (vprc_spec rc).2.2
    rw [hfirst,hrc n hn]
    exact count_toNat (Nat.not_lt.mp (hcount n hn))
  · have hfield := readU16_finish rc p.packetType body []
    rw [List.append_nil] at hfield
    rw [hfield,words_toNat hlen,finish_length]
  · rintro q rfl r hr
    have hshort : ¬ r.utf8ByteSize > 255 := fun hlong => hkind ⟨r,hr,hlong⟩
    exact bye_reason_byte hr (Nat.not_lt.mp hshort) hc

def WithinChecks : RtcpPacket → Prop
  | .sr p => p.reports.length > 31 ∨ totalWords (.sr p) ≤ 65536
  | .rr p => p.reports.length ≤ 31 ∧ totalWords (.rr p) ≤ 65536
  | .sdes p => (∃ chunk ∈ p.chunks, ∃ item ∈ chunk.items, item.asBytes.length > 255) ∨
      (p.chunks.length ≤ 31 ∧ (∀ chunk ∈ p.chunks, ∀ item ∈ chunk.items, item.typCode ≠ 0) ∧
        totalWords (.sdes p) ≤ 65536)
  | .bye p => p.sources.length ≥ 32 ∨ (p.sources.length = 31 ∧ ∃ r ∈ p.reason, r.utf8ByteSize > 255) ∨
      (p.sources.length ≤ 30 ∧ ∀ r ∈ p.reason, r.utf8ByteSize ≤ 255)
  | .app p => totalWords (.app p) ≤ 65536
  | .nack p => totalWords (.nack p) ≤ 65536
  | .pli _ => True

theorem failsClosed_iff_refused (p : RtcpPacket) : p.FailsClosed ↔ (p.Refused ↔ p.Unrepresentable) := by
  rw [FailsClosed,encodeInto_isError_iff]
  refine and_iff_left_of_imp fun hiff c hc => ?_
  have hok := (encodeInto_isOk_iff p).mp ⟨c,hc⟩
  exact fieldsAgree_of_representable (mt hiff.mpr hok) hc

theorem over_count_iff (n : ℕ) : (∃ m ∈ some n, m > 31) ↔ n > 31 := by simp
theorem sdes_within {p : Sdes} : (Refused (.sdes p) ↔ Unrepresentable (.sdes p)) ↔ WithinChecks (.sdes p) := by
  have hcount := over_count_iff p.chunks.length
  by_cases hlong : ∃ chunk ∈ p.chunks, ∃ item ∈ chunk.items, item.asBytes.length > 255
  · obtain ⟨chunk,hchunk,item,hitem,hlen⟩ := id hlong
    exact iff_of_true (iff_of_true hlong (.inr (.inr ⟨chunk,hchunk,item,hitem, .inl hlen⟩))) (.inl hlong)
  · have htype : (∃ chunk ∈ p.chunks, ∃ item ∈ chunk.items, item.asBytes.length > 255 ∨ item.typCode = 0) ↔
        ¬ ∀ chunk ∈ p.chunks, ∀ item ∈ chunk.items, item.typCode ≠ 0 := by
      constructor
      · rintro ⟨chunk,hchunk,item,hitem,hlen | htype⟩ hall
        · exact hlong ⟨chunk,hchunk,item,hitem,hlen⟩
        · exact hall chunk hchunk item hitem htype
      · intro hnot
        by_contra hnone
        exact hnot fun chunk hchunk item hitem htype => hnone ⟨chunk,hchunk,item,hitem, .inr htype⟩
    rw [Refused,Unrepresentable,WithinChecks,count,hcount,htype]
    simp only [hlong,false_iff,false_or,not_or,not_not,Nat.not_lt]
    tauto

theorem bye_words {p : Bye} (h : totalWords (.bye p) > 65536) :
    p.sources.length > 31 ∨ ∃ r ∈ p.reason, r.utf8ByteSize > 255 := by
  cases hreason : p.reason with
  | none =>
    simp only [totalWords,bodyLength,hreason,Option.elim_none] at h
    exact .inl (by omega)
  | some r =>
    simp only [totalWords,bodyLength,hreason,Option.elim_some] at h
    by_cases hr : r.utf8ByteSize > 255
    · exact .inr ⟨r,rfl,hr⟩
    · exact .inl (by omega)

theorem bye_within : (Refused (.bye p) ↔ Unrepresentable (.bye p)) ↔ WithinChecks (.bye p) := by
  have hcount := over_count_iff p.sources.length
  have hwords := @bye_words p
  have hshort : (∀ r ∈ p.reason, r.utf8ByteSize ≤ 255) ↔ ¬ ∃ r ∈ p.reason, r.utf8ByteSize > 255 := by
    simp only [not_exists,not_and,Nat.not_lt]
  rw [Refused,Unrepresentable,WithinChecks,count,hcount,hshort]
  generalize (∃ r ∈ p.reason, r.utf8ByteSize > 255) = Long at hwords
  by_cases hlong : Long
  · simp only [hlong,or_true,iff_true,and_true,not_true,and_false,or_false]
    omega
  · simp only [hlong,or_false,and_false,false_or,not_false_iff,and_true] at hwords ⊢
    omega

theorem refused_iff_unrepresentable (p : RtcpPacket) : (p.Refused ↔ p.Unrepresentable) ↔ p.WithinChecks := by
  cases p with
  | sr p =>
    simp only [Refused,Unrepresentable,WithinChecks,count,over_count_iff,or_false]
    omega
  | rr p =>
    simp only [Refused,Unrepresentable,WithinChecks,count,over_count_iff,or_false,false_iff]
    omega
  | sdes p => exact sdes_within
  | bye p => exact bye_within
  | app p | nack p =>
    simp only [Refused,Unrepresentable,WithinChecks,count,Option.mem_def,reduceCtorEq,false_and,exists_false,
      or_false,false_or,false_iff]
    omega
  | pli p => simp [Refused,Unrepresentable,WithinChecks,count,totalWords,bodyLength]

/-- Exactly on the packets within its checks does an encoder refuse what cannot be represented, and
nothing else, and write fields that agree with the contents. -/
theorem encoders_fail_closed_iff (p : RtcpPacket) : p.FailsClosed ↔ p.WithinChecks :=
  (failsClosed_iff_refused p).trans (refused_iff_unrepresentable p)
def crowdedReport : RtcpPacket := .rr ⟨1, .replicate 32 ⟨2,0,0,0,0,0,0⟩,[]⟩
def manyFarewells : RtcpPacket := .bye ⟨.replicate 31 1,none⟩
def longFarewell : RtcpPacket := .bye ⟨[1],some (String.ofList (.replicate 256 'a'))⟩

/-- A receiver report of 32 blocks goes out with a count of none; 31 farewells, which the count field
holds, are refused; a reason of 256 bytes goes out behind a length of none. -/
theorem encoders_do_not_fail_closed :
    (crowdedReport.Unrepresentable ∧
      ∃ c, crowdedReport.encodeInto = .ok c ∧ (c.getD 0 0 &&& 0x1F).toNat = 0) ∧
    (¬ manyFarewells.Unrepresentable ∧ manyFarewells.encodeInto = .error (.tooManyByeSources 31)) ∧
    (longFarewell.Unrepresentable ∧ ∃ c, longFarewell.encodeInto = .ok c ∧ (c.getD 8 0).toNat = 0) := by
  refine ⟨⟨.inl ⟨32,rfl,by decide⟩,_,rfl,by decide +kernel⟩,⟨?_,rfl⟩,?_⟩
  · rintro (⟨n,hn,hlong⟩ | hwords | ⟨r,hr,-⟩)
    · cases hn
      simp at hlong
    · exact absurd hwords (by decide)
    · cases hr
  · have hsize : (String.ofList (.replicate 256 'a')).utf8ByteSize = 256 := by decide +kernel
    exact ⟨.inr (.inr ⟨_,rfl,by rw [hsize]; decide⟩),_,rfl,by decide +kernel⟩
end RtcpPacket
end RustyRtc.Rtcp
