import RustyRtc.Foundation.Incoming
import RustyRtc.Signaling.Protocol

/-! # Signaling frames

`signaling/protocol/framing.rs` and the two entry points of `signaling/protocol`: a message is
one frame, an eight-byte header followed by the body. The header's length field is limited to
32 bits by the writer and to `MAX_BODY_LEN` by the reader.
-/
namespace RustyRtc.Signaling
open StreamReader Incoming
variable {k : IoErrorKind} {m : SignalingMsg} {ms : List SignalingMsg} {b : Bytes}
def PROTO_VERSION : UInt8 := 1
def MAX_BODY_LEN : ℕ := 1048576
inductive FrameError where
  | io (k : IoErrorKind)
  | proto (e : ProtoError)
  deriving DecidableEq, Repr
def frameHeader (t : MsgType) (len : ℕ) : Bytes := [PROTO_VERSION,t.asU8,0,0] ++ beBytes32 len.toUInt32
def writeFrame (t : MsgType) (body : Bytes) : Except FrameError Bytes :=
  if body.length > 4294967295 then .error (.io .invalidInput)
  else .ok (frameHeader t body.length ++ body)

/-- The checks `read_frame` makes on the eight bytes of a header, and what it takes from them. The two
bytes between type and length are ignored. -/
def checkHeader (maxBody : ℕ) (header : Bytes) : Except ProtoError (MsgType × ℕ) := do
  if header.getD 0 0 ≠ PROTO_VERSION then throw (.invalidFormat "bad proto version")
  let t ← MsgType.fromU8 (header.getD 1 0)
  let len := (readU32 header 4).toNat
  if len > maxBody then throw .tooLarge
  return (t,len)
def readFrame (maxBody : ℕ) : StreamReader FrameError (MsgType × Bytes) := do
  let header ← readExact .io 8
  let (t,len) ← .ofExcept .proto (checkHeader maxBody header)
  let body ← readExact .io len
  return (t,body)

def writeMsg (m : SignalingMsg) : Except FrameError Bytes :=
  match encodeMsg m with
  | .error e => .error (.proto e)
  | .ok (t,body) => writeFrame t body
def readMsg : StreamReader FrameError SignalingMsg := do
  let (t,body) ← readFrame MAX_BODY_LEN
  .ofExcept .proto (decodeMsg t body)
def writeMsgs : List SignalingMsg → Except FrameError Bytes
  | [] => .ok []
  | m :: ms => do return (← writeMsg m) ++ (← writeMsgs ms)
def readMsgs : ℕ → StreamReader FrameError (List SignalingMsg)
  | 0 => return []
  | n + 1 => do return (← readMsg) :: (← readMsgs n)

section Frames
variable {m : SignalingMsg} {c : Bytes} {n : ℕ}
theorem writeMsg_eq_ok : writeMsg m = .ok c ↔ ∃ t body, encodeMsg m = .ok (t,body) ∧
    body.length ≤ 4294967295 ∧ c = frameHeader t body.length ++ body := by
  unfold writeMsg writeFrame
  cases encodeMsg m with
  | error e => simp
  | ok p =>
    obtain ⟨t,body⟩ := p
    simp only [Except.ok.injEq,Prod.mk.injEq]
    constructor
    · split
      · simp
      · rintro ⟨⟩
        exact ⟨t,body,⟨rfl,rfl⟩,by omega,rfl⟩
    · rintro ⟨_,_,⟨rfl,rfl⟩,hlen,rfl⟩
      rw [if_neg (by omega)]

theorem writeMsg_length (h : writeMsg m = .ok c) : c.length = 8 + m.bodyLen := by
  obtain ⟨t,body,hm,-,rfl⟩ := writeMsg_eq_ok.mp h
  rw [← encodeMsg_length hm]
  simp [frameHeader]
  omega

theorem writeMsg_isOk_iff (m : SignalingMsg) : (∃ c, writeMsg m = .ok c) ↔
    (∀ s ∈ m.strings, s.utf8ByteSize ≤ 65535) ∧ m.peerCount ≤ 65535 ∧ m.bodyLen ≤ 4294967295 := by
  rw [← and_assoc,← encodeMsg_isOk_iff]
  constructor
  · rintro ⟨c,h⟩
    obtain ⟨t,body,hm,hlen,-⟩ := writeMsg_eq_ok.mp h
    exact ⟨⟨t,body,hm⟩,encodeMsg_length hm ▸ hlen⟩
  · rintro ⟨⟨t,body,hm⟩,hlen⟩
    exact ⟨_,writeMsg_eq_ok.mpr ⟨t,body,hm,encodeMsg_length hm ▸ hlen,rfl⟩⟩

theorem checkHeader_frameHeader (maxBody : ℕ) (t : MsgType) (hn : n ≤ 4294967295) :
    checkHeader maxBody (frameHeader t n) = if maxBody < n then .error .tooLarge else .ok (t,n) := by
  have hlen : (readU32 (frameHeader t n) 4).toNat = n := by
    have h := readU32_append_right [PROTO_VERSION,t.asU8,0,0] (beBytes32 n.toUInt32 ++ []) (i := 0)
    rw [readU32_beBytes32,List.append_nil] at h
    change (readU32 _ ([PROTO_VERSION,t.asU8,0,0].length + 0)).toNat = n
    rw [frameHeader,h]
    exact UInt32.toNat_ofNat_of_lt (Nat.lt_succ_of_le hn)
  have hversion : (frameHeader t n).getD 0 0 = PROTO_VERSION := rfl
  have htype : MsgType.fromU8 ((frameHeader t n).getD 1 0) = .ok t := MsgType.fromU8_asU8 t
  rw [checkHeader,if_neg (not_not_intro hversion),htype]
  by_cases hmax : maxBody < n
  · simp [hlen,hmax,bind,Except.bind,throw,throwThe,MonadExceptOf.throw]
  · simp [hlen,hmax,bind,Except.bind,pure,Except.pure]

theorem readFrame_header (maxBody : ℕ) (t : MsgType) (hn : n ≤ 4294967295) (r : Incoming) :
    (readFrame maxBody).runOn (ofBytes (frameHeader t n) ++ r) =
      if maxBody < n then (.error (.proto .tooLarge),r)
      else runOn (do return (t,← readExact .io n)) r := by
  have hheader : (readExact FrameError.io 8).runOn (ofBytes (frameHeader t n) ++ r) =
    (.ok (frameHeader t n),r) := readExact_ofBytes (frameHeader t n) r
  rw [readFrame,runOn_bind_ok hheader,checkHeader_frameHeader maxBody t hn]
  by_cases hmax : maxBody < n
  · rw [if_pos hmax,if_pos hmax]
    rfl
  · rw [if_neg hmax,if_neg hmax]
    rfl

theorem readMsg_writeMsg (h : writeMsg m = .ok c) (hmax : m.bodyLen ≤ MAX_BODY_LEN) (r : Incoming) :
    readMsg.runOn (ofBytes c ++ r) = (.ok m.readBack,r) := by
  obtain ⟨t,body,hm,hlen,rfl⟩ := writeMsg_eq_ok.mp h
  have hbody : ¬MAX_BODY_LEN < body.length := by
    rw [encodeMsg_length hm]
    omega
  have hframe : (readFrame MAX_BODY_LEN).runOn (ofBytes (frameHeader t body.length ++ body) ++ r) =
      (.ok (t,body),r) := by
    rw [ofBytes_append,List.append_assoc,readFrame_header _ t hlen,if_neg hbody,
      runOn_bind_ok (readExact_ofBytes body r)]
    rfl
  have hcontents := contents_le_bodyLen m
  have hlarge : MAX_BODY_LEN < 4294967296 := by decide
  rw [readMsg,runOn_bind_ok hframe]
  simp only [decodeMsg_of_encodeMsg hm (by omega),runOn_ofExcept_ok]

theorem readMsg_tooLarge (h : writeMsg m = .ok c) (hmax : MAX_BODY_LEN < m.bodyLen) (r : Incoming) :
    ∃ r', readMsg.runOn (ofBytes c ++ r) = (.error (.proto .tooLarge),r') := by
  obtain ⟨t,body,hm,hlen,rfl⟩ := writeMsg_eq_ok.mp h
  have hframe := readFrame_header MAX_BODY_LEN t hlen (ofBytes body ++ r)
  rw [if_pos (encodeMsg_length hm ▸ hmax),← List.append_assoc,← ofBytes_append] at hframe
  exact ⟨_,runOn_bind_error hframe _⟩

/-- An error inside a frame is reported, and what had arrived of the frame is lost. -/
theorem readMsg_broken (h : writeMsg m = .ok c) (hmax : m.bodyLen ≤ MAX_BODY_LEN) {p : Bytes} (hp : p <+: c)
    (hlt : p.length < c.length) (hk : k ≠ .interrupted) (r : Incoming) :
    readMsg.runOn (ofBytes p ++ .fails k :: r) = (.error (.io k),r) := by
  obtain ⟨t,body,hm,hlen,rfl⟩ := writeMsg_eq_ok.mp h
  apply runOn_bind_error
  by_cases hhead : p.length < 8
  · rw [readFrame,runOn_bind_error (readExact_broken hhead hk r)]
  · -- the header is complete, so the error falls into the body
    obtain ⟨q,rfl⟩ : frameHeader t body.length <+: p :=
      List.prefix_of_prefix_length_le (List.prefix_append _ _) hp (Nat.le_of_not_lt hhead)
    have hq : q.length < body.length := by simpa using hlt
    have hbody : ¬MAX_BODY_LEN < body.length := by
      rw [encodeMsg_length hm]
      omega
    rw [ofBytes_append,List.append_assoc,readFrame_header _ t hlen,if_neg hbody,
      runOn_bind_error (readExact_broken hq hk r)]
end Frames

theorem readMsg_consumes : readMsg.Consumes := by
  apply StreamReader.Consumes.bind
  · apply (readExact_consumes 8).bind
    intro header
    apply (consumes_ofExcept _ _).bind
    intro p
    exact (readExact_consumes p.2).bind fun body => consumes_pure _
  · intro p
    exact consumes_ofExcept _ _

theorem checkHeader_le {maxBody : ℕ} {header : Bytes} {t : MsgType} {n : ℕ}
    (h : checkHeader maxBody header = .ok (t,n)) : n ≤ maxBody := by
  unfold checkHeader at h
  by_cases hversion : header.getD 0 0 ≠ PROTO_VERSION
  · simp only [if_pos hversion] at h
    cases h
  · rw [if_neg hversion] at h
    cases htype : MsgType.fromU8 (header.getD 1 0) with
    | error e =>
      rw [htype] at h
      cases h
    | ok t' =>
      rw [htype] at h
      by_cases hmax : (readU32 header 4).toNat > maxBody
      · simp only [bind,Except.bind,pure,Except.pure,if_pos hmax] at h
        cases h
      · simp only [bind,Except.bind,pure,Except.pure,if_neg hmax] at h
        cases h
        exact Nat.le_of_not_lt hmax

/-- An error before the first byte of a frame costs nothing. -/
theorem readMsg_fails (hk : k ≠ .interrupted) (r : Incoming) : readMsg.runOn (.fails k :: r) = (.error (.io k),r) := by
  apply runOn_bind_error
  exact runOn_bind_error (readExact_broken (c := []) (by decide) hk r) _

theorem readMsg_nil : readMsg.runOn [] = (.error (.io .unexpectedEof),[]) := rfl
theorem readMsg_eq_ok {s r : Incoming} (h : readMsg.runOn s = (.ok m,r)) :
    s.bytes.length = 8 + m.bodyLen + r.bytes.length ∧ m.bodyLen ≤ MAX_BODY_LEN ∧ ∃ c, writeMsg m = .ok c := by
  obtain ⟨⟨t,body⟩,mid,hframe,hmsg⟩ := StreamReader.runOn_bind_eq_ok.mp h
  obtain ⟨header,s1,hheader,hafter⟩ := StreamReader.runOn_bind_eq_ok.mp hframe
  obtain ⟨⟨t',n⟩,s2,hchecked,hread⟩ := StreamReader.runOn_bind_eq_ok.mp hafter
  obtain ⟨body',s3,hbody,hpure⟩ := StreamReader.runOn_bind_eq_ok.mp hread
  obtain ⟨hcheck,rfl⟩ := StreamReader.runOn_ofExcept_eq_ok.mp hchecked
  obtain ⟨⟨rfl,rfl⟩,rfl⟩ : (t' = t ∧ body' = body) ∧ s3 = mid := by simpa using hpure
  obtain ⟨hdecode,rfl⟩ := StreamReader.runOn_ofExcept_eq_ok.mp hmsg
  have hencode := encodeMsg_of_decodeMsg hdecode
  obtain ⟨hheaderLen,hs⟩ := readExact_eq_ok hheader
  obtain ⟨hn,hs1⟩ := readExact_eq_ok hbody
  have hmax := checkHeader_le hcheck
  have hbodyLen := encodeMsg_length hencode
  have hlarge : MAX_BODY_LEN ≤ 4294967295 := by decide
  refine ⟨?_,by omega,_,writeMsg_eq_ok.mpr ⟨t',body',hencode,by omega,rfl⟩⟩
  rw [hs,hs1]
  simp only [List.length_append]
  omega

theorem writeMsgs_cons_eq_ok :
    writeMsgs (m :: ms) = .ok b ↔ ∃ c d, writeMsg m = .ok c ∧ writeMsgs ms = .ok d ∧ b = c ++ d := by
  rw [writeMsgs]
  cases writeMsg m with
  | error e => simp [bind,Except.bind]
  | ok c =>
    cases writeMsgs ms with
    | error e => simp [bind,Except.bind]
    | ok d => simp [bind,Except.bind,pure,Except.pure,eq_comm]

theorem readMsgs_writeMsgs (h : writeMsgs ms = .ok b) (hmax : ∀ m ∈ ms, m.bodyLen ≤ MAX_BODY_LEN) (r : Incoming) :
    (readMsgs ms.length).runOn (ofBytes b ++ r) = (.ok (ms.map SignalingMsg.readBack),r) := by
  induction ms generalizing b with
  | nil =>
    cases h
    rfl
  | cons m ms ih =>
    obtain ⟨c,d,hc,hd,rfl⟩ := writeMsgs_cons_eq_ok.mp h
    have hmsg := readMsg_writeMsg hc (hmax m (by simp)) (ofBytes d ++ r)
    rw [← List.append_assoc,← ofBytes_append] at hmsg
    rw [List.length_cons, readMsgs, runOn_bind_ok hmsg,
      runOn_bind_ok (ih hd fun m' hm' => hmax m' (by simp [hm']))]
    rfl

/-- Messages whose bodies are within the limit can be written one after another, and reading them back
gives the same messages and leaves nothing. A string over 65535 bytes or a longer list of peers is
refused. -/
theorem signaling_stream_round_trip (msgs : List SignalingMsg)
    (hfit : ∀ m ∈ msgs, ∃ t body, encodeMsg m = .ok (t,body) ∧ body.length ≤ MAX_BODY_LEN) :
    (∃ bytes, writeMsgs msgs = .ok bytes ∧
      (readMsgs msgs.length).runOn (Incoming.ofBytes bytes) = (.ok (msgs.map SignalingMsg.readBack),[])) ∧
    ∀ m : SignalingMsg, (∃ s ∈ m.strings, 65535 < s.utf8ByteSize) ∨ 65535 < m.peerCount →
      ∃ e, writeMsg m = .error e := by
  constructor
  · have hwrite : ∃ bytes, writeMsgs msgs = .ok bytes := by
      induction msgs with
      | nil => exact ⟨[],rfl⟩
      | cons m ms ih =>
        obtain ⟨d,hd⟩ := ih fun m' hm' => hfit m' (by simp [hm'])
        obtain ⟨t,body,hm,hlen⟩ := hfit m (by simp)
        have hlarge : MAX_BODY_LEN ≤ 4294967295 := by decide
        exact ⟨_,writeMsgs_cons_eq_ok.mpr ⟨_,d,writeMsg_eq_ok.mpr ⟨t,body,hm,by omega,rfl⟩,hd,rfl⟩⟩
    obtain ⟨bytes,hbytes⟩ := hwrite
    have hmax : ∀ m ∈ msgs, m.bodyLen ≤ MAX_BODY_LEN := by
      intro m hm
      obtain ⟨t,body,hbody,hlen⟩ := hfit m hm
      exact encodeMsg_length hbody ▸ hlen
    exact ⟨bytes,hbytes,by simpa using readMsgs_writeMsgs hbytes hmax []⟩
  · intro m hlong
    cases hw : writeMsg m with
    | error e => exact ⟨e,rfl⟩
    | ok c =>
      obtain ⟨hstrings,hpeers,-⟩ := (writeMsg_isOk_iff m).mp ⟨c,hw⟩
      rcases hlong with ⟨s,hs,hlen⟩ | hlen
      · exact absurd (hstrings s hs) (by omega)
      · omega

theorem signaling_stream_round_trip_mixed :
    ∃ bytes, writeMsgs [.listPeers, .peersOnline [("ada", .busy),("bob", .available)], .bye "ada" "bob" (some "")] =
        .ok bytes ∧
      (readMsgs 3).runOn (Incoming.ofBytes bytes) =
        (.ok [.listPeers, .peersOnline [("ada", .busy),("bob", .available)], .bye "ada" "bob" none],[]) := by
  have h := signaling_stream_round_trip
    [.listPeers, .peersOnline [("ada", .busy),("bob", .available)], .bye "ada" "bob" (some "")] (by
      intro m hm
      simp only [List.mem_cons, List.not_mem_nil, or_false] at hm
      rcases hm with rfl | rfl | rfl
      · exact ⟨_,_,rfl,by decide⟩
      · exact ⟨_,_,rfl,by decide +kernel⟩
      · exact ⟨_,_,rfl,by decide +kernel⟩)
  exact h.1
end RustyRtc.Signaling
