import RustyRtc.Foundation.Bytes

/-! # SRTP keys, counters and header layout

The block cipher and the hash are third-party code and stay parameters. Everything
built on them in `utils.rs` is literal: key derivation, the counter block, the tag
comparison and the length of the unencrypted header.
-/
namespace RustyRtc.Srtp
variable {packet : Bytes} {n : ℕ}
def srtpLabelEncryption : UInt8 := 0x00
def srtpLabelAuth : UInt8 := 0x01
def srtpLabelSalt : UInt8 := 0x02
abbrev sessionKeyLen : ℕ := 16
abbrev sessionAuthLen : ℕ := 20
abbrev sessionSaltLen : ℕ := 14
abbrev authTagLen : ℕ := 10

/-- AES-128 in counter mode is the byte stream it XORs into the data, a function of
key and counter block. HMAC-SHA1 is a function to 20 bytes. -/
structure Primitives where
  keystream : Vector UInt8 16 → Vector UInt8 16 → ℕ → UInt8
  hmacSha1 : Bytes → Bytes → Vector UInt8 20
def plainPrimitives : Primitives := ⟨fun _ _ _ => 0,fun _ _ => .replicate 20 0⟩
def applyKeystream (stream : ℕ → UInt8) (data : Bytes) : Bytes :=
  data.mapIdx (fun i b => b ^^^ stream i)
@[simp] theorem applyKeystream_applyKeystream (stream : ℕ → UInt8) (data : Bytes) :
    applyKeystream stream (applyKeystream stream data) = data := by
  unfold applyKeystream
  apply List.ext_getElem (by simp)
  intro i h₁ h₂
  simp [UInt8.xor_assoc]

structure SrtpEndpointKeys where
  masterKey : Bytes
  masterSalt : Bytes
  deriving DecidableEq, Repr
structure SessionKeys where
  encKey : Vector UInt8 sessionKeyLen
  authKey : Vector UInt8 sessionAuthLen
  salt : Vector UInt8 sessionSaltLen
def saltPad (masterSalt : Bytes) : Vector UInt8 16 :=
  Vector.ofFn (fun i => if i.val < 14 then masterSalt.getD i.val 0 else 0)

/-- `none` is the panic of the key conversion, which accepts sixteen bytes only. -/
def aesCmPrf (P : Primitives) (masterKey : Bytes) (masterSaltPadded : Vector UInt8 16)
    (label : UInt8) (n : ℕ) : Option (Vector UInt8 n) :=
  if h : masterKey.length = 16 then
    let iv := masterSaltPadded.set 7 (masterSaltPadded[7] ^^^ label)
    some (Vector.ofFn (fun i => 0 ^^^ P.keystream ⟨masterKey.toArray,by simpa using h⟩ iv i.val))
  else none

def deriveSessionKeys (P : Primitives) (master : SrtpEndpointKeys) : Option SessionKeys :=
  let pad := saltPad master.masterSalt
  match aesCmPrf P master.masterKey pad srtpLabelEncryption sessionKeyLen,
      aesCmPrf P master.masterKey pad srtpLabelAuth sessionAuthLen,
      aesCmPrf P master.masterKey pad srtpLabelSalt sessionSaltLen with
  | some encKey, some authKey, some salt => some ⟨encKey,authKey,salt⟩
  | _, _, _ => none

def computeIv (sessionSalt : Vector UInt8 14) (ssrc : UInt32) (index : UInt64) : Vector UInt8 16 :=
  let ssrcBytes := beBytes32 ssrc
  let idxFull := beBytes64 index
  Vector.ofFn (fun j =>
    sessionSalt.toList.getD j.val 0
      ^^^ (if 4 ≤ j.val ∧ j.val < 8 then ssrcBytes.getD (j.val - 4) 0 else 0)
      ^^^ (if 8 ≤ j.val ∧ j.val < 14 then idxFull.getD (2 + (j.val - 8)) 0 else 0))

/-- The 48-bit packet index `(roc << 16) | seq`. -/
def packetIndex (roc : UInt32) (seq : UInt16) : UInt64 := roc.toUInt64 <<< 16 ||| seq.toUInt64
theorem packetIndex_toNat (roc : UInt32) (seq : UInt16) :
    (packetIndex roc seq).toNat = roc.toNat * 65536 + seq.toNat := by
  have hroc := roc.toNat_lt
  simp only [packetIndex,UInt64.toNat_or,UInt64.toNat_shiftLeft,UInt32.toNat_toUInt64,
    UInt16.toNat_toUInt64]
  exact shiftLeft_mod_or 16 seq.toNat_lt (by omega)

/-- The truncated tag over the encrypted packet followed by the rollover counter. -/
def authTag (P : Primitives) (keys : SessionKeys) (content : Bytes) (roc : UInt32) : Bytes :=
  (P.hmacSha1 keys.authKey.toList (content ++ beBytes32 roc)).toList.take authTagLen
@[simp] theorem authTag_length (P : Primitives) (keys : SessionKeys) (content : Bytes) (roc : UInt32) :
    (authTag P keys content roc).length = authTagLen := by
  rw [authTag,List.length_take,Vector.length_toList]
  rfl

/-- The header stays in clear; the rest is XORed with the packet's keystream. -/
def cryptPayload (P : Primitives) (keys : SessionKeys) (ssrc : UInt32) (index : UInt64)
    (headerLen : ℕ) (packet : Bytes) : Bytes :=
  packet.take headerLen ++
    applyKeystream (P.keystream keys.encKey (computeIv keys.salt ssrc index)) (packet.drop headerLen)
def constantTimeEq (a b : Bytes) : Bool :=
  if a.length ≠ b.length then false
  else (a.zip b).foldl (fun result p => result ||| (p.1 ^^^ p.2)) 0 == 0

theorem foldl_or_eq_zero (l : List (UInt8 × UInt8)) (acc : UInt8) :
    l.foldl (fun result p => result ||| (p.1 ^^^ p.2)) acc = 0 ↔ acc = 0 ∧ ∀ p ∈ l, p.1 = p.2 := by
  induction l generalizing acc with
  | nil => simp
  | cons p l ih =>
    rw [List.foldl_cons,ih,UInt8.or_eq_zero_iff,UInt8.xor_eq_zero_iff]
    simp [and_assoc]

theorem constantTimeEq_iff (a b : Bytes) : constantTimeEq a b = true ↔ a = b := by
  unfold constantTimeEq
  by_cases hlen : a.length = b.length
  · rw [if_neg (fun h => h hlen), beq_iff_eq, foldl_or_eq_zero]
    constructor
    · rintro ⟨_,h⟩
      apply List.ext_getElem hlen
      intro i hi hj
      exact h (a[i],b[i]) (List.mem_iff_getElem.mpr ⟨i,by simp; omega,by simp⟩)
    · rintro rfl
      refine ⟨rfl,?_⟩
      intro p hp
      obtain ⟨i,hi,rfl⟩ := List.mem_iff_getElem.mp hp
      simp
  · rw [if_pos hlen]
    apply iff_of_false (by simp)
    rintro rfl
    exact hlen rfl

def checkHeaderLen (packet : Bytes) (len : ℕ) : Except String ℕ :=
  if packet.length < len then .error "Packet smaller than header calc" else .ok len

def getRtpHeaderLen (packet : Bytes) : Except String ℕ :=
  if packet.length < 12 then .error "Too short"
  else
    let vPXCc := packet.getD 0 0
    let cc := vPXCc &&& 0x0F
    let len := 12 + cc.toNat * 4
    if vPXCc &&& 0x10 != 0 then
      if packet.length < len + 4 then .error "Too short for Ext header"
      else checkHeaderLen packet (len + (4 + (readU16 packet (len + 2)).toNat * 4))
    else checkHeaderLen packet len

theorem checkHeaderLen_eq_ok {len : ℕ} : checkHeaderLen packet len = .ok n ↔ n = len ∧ len ≤ packet.length := by
  unfold checkHeaderLen
  split
  · simp
    omega
  · simp [eq_comm]
    omega

theorem getRtpHeaderLen_bounds (h : getRtpHeaderLen packet = .ok n) : 12 ≤ n ∧ n ≤ packet.length := by
  unfold getRtpHeaderLen at h
  dsimp only at h
  split at h
  · simp at h
  · split at h
    · split at h
      · simp at h
      · obtain ⟨rfl,hn⟩ := checkHeaderLen_eq_ok.mp h
        exact ⟨by omega,hn⟩
    · obtain ⟨rfl,hn⟩ := checkHeaderLen_eq_ok.mp h
      exact ⟨by omega,hn⟩

theorem getRtpHeaderLen_append {header body : Bytes}
    (h : getRtpHeaderLen (header ++ body) = .ok header.length) (other : Bytes) :
    getRtpHeaderLen (header ++ other) = .ok header.length := by
  have hmin := (getRtpHeaderLen_bounds h).1
  have hfirst : ∀ c : Bytes, (header ++ c).getD 0 0 = header.getD 0 0 := by
    intro c
    simp only [List.getD_eq_getElem?_getD]
    rw [List.getElem?_append_left (by omega)]
  unfold getRtpHeaderLen at h ⊢
  simp only [List.length_append,hfirst] at h ⊢
  rw [if_neg (by omega)] at h ⊢
  split at h
  · split at h
    · simp at h
    · obtain ⟨hlen,_⟩ := checkHeaderLen_eq_ok.mp h
      have hread : ∀ c : Bytes, readU16 (header ++ c) (12 + (header.getD 0 0 &&& 0x0F).toNat * 4 + 2) =
          readU16 header (12 + (header.getD 0 0 &&& 0x0F).toNat * 4 + 2) :=
        fun c => readU16_append (by omega) c
      rw [hread] at hlen ⊢
      rw [if_pos ‹_›,if_neg (by omega)]
      exact checkHeaderLen_eq_ok.mpr ⟨hlen,by rw [List.length_append]; omega⟩
  · obtain ⟨hlen,_⟩ := checkHeaderLen_eq_ok.mp h
    rw [if_neg ‹_›]
    exact checkHeaderLen_eq_ok.mpr ⟨hlen,by rw [List.length_append]; omega⟩
end RustyRtc.Srtp
