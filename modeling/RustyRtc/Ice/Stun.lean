import Mathlib.Data.List.GetD
import RustyRtc.Foundation.Slices
import RustyRtc.Ice.Agent

/-! # STUN

`gather_stun_candidates`, from the answer of the STUN server on: the agent looks for its public address among the
attributes. The answer lies at the start of a buffer of 512 bytes; what the loop reads behind it
is the rest of the buffer. Lengths are counted without the padding, and the padding is computed from them.
-/
namespace RustyRtc.Ice.Stun
open Checked
variable {b : Bytes} {i : ℕ} {r : Option SocketAddr}
def STUN_MAGIC_COOKIE : UInt32 := 0x2112A442
def ATTR_XOR_MAPPED_ADDRESS : UInt16 := 0x0020
def FAMILY_IPV4 : UInt8 := 0x01

/-- `u16::from_be_bytes([buf[i], buf[i + 1]])` -/
def u16From (buf : Bytes) (i : ℕ) : Checked String UInt16 := do
  return readU16 [← index buf i,← index buf (i + 1)] 0

def xorMapped (buf : Bytes) (offset : ℕ) : Checked String (Option SocketAddr) := do
  let family ← index buf (offset + 1)
  if family = FAMILY_IPV4 then
    let port := (← u16From buf (offset + 2)) ^^^ (STUN_MAGIC_COOKIE >>> 16).toUInt16
    let a := (← index buf (offset + 4)) ^^^ (STUN_MAGIC_COOKIE >>> 24).toUInt8
    let b := (← index buf (offset + 5)) ^^^ (STUN_MAGIC_COOKIE >>> 16).toUInt8
    let c := (← index buf (offset + 6)) ^^^ (STUN_MAGIC_COOKIE >>> 8).toUInt8
    let d := (← index buf (offset + 7)) ^^^ STUN_MAGIC_COOKIE.toUInt8
    return some ⟨.v4 a b c d,port⟩
  else return none

def attributeAddr (buf : Bytes) (attrType : UInt16) (attrLen offset : ℕ) : Checked String (Option SocketAddr) :=
  if attrType = ATTR_XOR_MAPPED_ADDRESS ∧ attrLen ≥ 8 then xorMapped buf offset else pure none

/-- The loop over the attributes. Every turn moves the offset on by four at least. -/
def reflexiveAddr (buf : Bytes) (len offset : ℕ) : Checked String (Option SocketAddr) :=
  if _h : offset + 4 ≤ len then do
    let attrType ← u16From buf offset
    let attrLen := (← u16From buf (offset + 2)).toNat
    match ← attributeAddr buf attrType attrLen (offset + 4) with
    | some addr => return some addr
    | none => reflexiveAddr buf len (offset + 4 + (attrLen + attrLen % 4))
  else return none
termination_by len - offset

def parseResponse (buf : Bytes) (len : ℕ) : Checked String SocketAddr := do
  if len < 20 then throw "Invalid STUN response (too short)"
  match ← reflexiveAddr buf len 20 with
  | some addr => return addr
  | none => throw "XOR-MAPPED-ADDRESS not found in STUN response"

/-- A buffer of 512 bytes after `recv_from`, and how much of it was received. -/
def recvBuffer (datagram : Bytes) : Bytes × ℕ :=
  (datagram.take 512 ++ List.replicate (512 - datagram.length) 0,min datagram.length 512)
def attrType (b : Bytes) (o : ℕ) : UInt16 := readU16 b o
def attrLen (b : Bytes) (o : ℕ) : ℕ := (readU16 b (o + 2)).toNat
def addressFrom (b : Bytes) (o : ℕ) : Option SocketAddr :=
  if b.getD (o + 1) 0 = FAMILY_IPV4 then
    some ⟨.v4 (b.getD (o + 4) 0 ^^^ 0x21) (b.getD (o + 5) 0 ^^^ 0x12) (b.getD (o + 6) 0 ^^^ 0xA4) (b.getD (o + 7) 0 ^^^ 0x42),
      readU16 b (o + 2) ^^^ 0x2112⟩
  else none
def addressAt (b : Bytes) (o : ℕ) : Option SocketAddr :=
  if attrType b o = ATTR_XOR_MAPPED_ADDRESS ∧ attrLen b o ≥ 8 then addressFrom b (o + 4) else none
def nextOffset (b : Bytes) (o : ℕ) : ℕ := o + 4 + (attrLen b o + attrLen b o % 4)

/-- The bytes of an address that the loop reads lie within the datagram: the family, and all eight of an IPv4
address. -/
def Enclosed (d : Bytes) (o : ℕ) : Prop :=
  attrType d o = ATTR_XOR_MAPPED_ADDRESS ∧ attrLen d o ≥ 8 →
    o + 6 ≤ d.length ∧ (d.getD (o + 5) 0 = FAMILY_IPV4 → o + 12 ≤ d.length)
instance (d : Bytes) (o : ℕ) : Decidable (Enclosed d o) := inferInstanceAs (Decidable (_ → _))
theorem u16From_eq (h : i + 2 ≤ b.length) : u16From b i = pure (readU16 b i) := by
  rw [u16From,index_eq (by omega),pure_bind,index_eq (by omega),pure_bind]
  rfl

theorem xorMapped_eq {o : ℕ} (h : o + 2 ≤ b.length)
    (hvalue : b.getD (o + 1) 0 = FAMILY_IPV4 → o + 8 ≤ b.length) : xorMapped b o = pure (addressFrom b o) := by
  rw [xorMapped,index_eq (by omega),pure_bind,addressFrom]
  split
  · next hfamily =>
    have hlen := hvalue hfamily
    rw [u16From_eq (by omega),pure_bind,index_eq (by omega),pure_bind,index_eq (by omega),pure_bind,
      index_eq (by omega),pure_bind,index_eq (by omega),pure_bind]
    rfl
  · rfl

theorem lt_of_index {x : UInt8} (h : (index b i : Checked String UInt8) = pure x) :
    i < b.length ∧ x = b.getD i 0 := by
  unfold index at h
  split at h
  · next hlt => exact ⟨hlt,(Except.ok.inj (Option.some.inj h)).symm⟩
  · cases h

theorem xorMapped_inside {o : ℕ} (h : xorMapped b o = pure r) :
    o + 2 ≤ b.length ∧ (b.getD (o + 1) 0 = FAMILY_IPV4 → o + 8 ≤ b.length) := by
  obtain ⟨family,hfamily,h⟩ := bind_eq_pure.mp h
  obtain ⟨hlt,rfl⟩ := lt_of_index hfamily
  refine ⟨hlt,fun hipv4 => ?_⟩
  rw [if_pos hipv4] at h
  obtain ⟨_,-,h⟩ := bind_eq_pure.mp h
  obtain ⟨_,-,h⟩ := bind_eq_pure.mp h
  obtain ⟨_,-,h⟩ := bind_eq_pure.mp h
  obtain ⟨_,-,h⟩ := bind_eq_pure.mp h
  obtain ⟨_,hlast,-⟩ := bind_eq_pure.mp h
  exact (lt_of_index hlast).1

section Turn
variable {d : Bytes} {o : ℕ}
theorem addressFrom_append (stale : Bytes) (h : o + 2 ≤ d.length)
    (hvalue : d.getD (o + 1) 0 = FAMILY_IPV4 → o + 8 ≤ d.length) : addressFrom (d ++ stale) o = addressFrom d o := by
  have hget : ∀ i < d.length, (d ++ stale).getD i 0 = d.getD i 0 := fun i hi => List.getD_append d stale 0 i hi
  rw [addressFrom,addressFrom,hget _ (by omega)]
  split
  · next hipv4 =>
    have hroom := hvalue hipv4
    rw [hget _ (by omega),hget _ (by omega),hget _ (by omega),hget _ (by omega),readU16_append (by omega)]
  · rfl

theorem reflexiveAddr_turn (h : o + 4 ≤ d.length) (hin : Enclosed d o) (stale : Bytes) :
    reflexiveAddr (d ++ stale) d.length o =
      (addressAt d o).elim (reflexiveAddr (d ++ stale) d.length (nextOffset d o)) fun addr => pure (some addr) := by
  have hlen : d.length ≤ (d ++ stale).length := by simp
  rw [reflexiveAddr,dif_pos h,u16From_eq (by omega),pure_bind,u16From_eq (by omega),pure_bind,
    readU16_append (by omega),readU16_append (by omega)]
  change attributeAddr (d ++ stale) (attrType d o) (attrLen d o) (o + 4) >>= _ = _
  rw [addressAt,attributeAddr]
  by_cases hmapped : attrType d o = ATTR_XOR_MAPPED_ADDRESS ∧ attrLen d o ≥ 8
  · obtain ⟨hfamily,hvalue⟩ := hin hmapped
    have hread : xorMapped (d ++ stale) (o + 4) = pure (addressFrom d (o + 4)) := by
      rw [← addressFrom_append stale (by omega) hvalue]
      refine xorMapped_eq (by omega) fun hipv4 => ?_
      rw [List.getD_append _ _ _ _ (by omega)] at hipv4
      have hroom := hvalue hipv4
      omega
    rw [if_pos hmapped,if_pos hmapped,hread,pure_bind]
    cases addressFrom d (o + 4) <;> rfl
  · rw [if_neg hmapped,if_neg hmapped,pure_bind]
    rfl

theorem enclosed_of_turn (h : o + 4 ≤ d.length) (hr : reflexiveAddr d d.length o = pure r) : Enclosed d o := by
  intro hmapped
  rw [reflexiveAddr,dif_pos h,u16From_eq (by omega),pure_bind,u16From_eq (by omega),pure_bind] at hr
  obtain ⟨found,hfound,-⟩ := bind_eq_pure.mp hr
  change attributeAddr d (attrType d o) (attrLen d o) (o + 4) = _ at hfound
  rw [attributeAddr,if_pos hmapped] at hfound
  exact xorMapped_inside hfound

theorem reflexiveAddr_end (buf : Bytes) {len : ℕ} (h : ¬ o + 4 ≤ len) : reflexiveAddr buf len o = pure none := by
  rw [reflexiveAddr,dif_neg h]
end Turn
inductive Reached (d : Bytes) : ℕ → ℕ → Prop
  | here {o} : Reached d o o
  | next {o o'} : o + 4 ≤ d.length → addressAt d o = none → Reached d (nextOffset d o) o' → Reached d o o'

theorem reads_inside_iff (d : Bytes) (o : ℕ) : (∃ r, ∀ stale, reflexiveAddr (d ++ stale) d.length o = pure r) ↔
      ∀ o', Reached d o o' → o' + 4 ≤ d.length → Enclosed d o' := by
  induction hn : d.length - o using Nat.strong_induction_on generalizing o with
  | _ n ih =>
    by_cases hroom : o + 4 ≤ d.length
    · constructor
      · rintro ⟨r,hr⟩ o' hreached hroom'
        have hnil := hr []
        rw [List.append_nil] at hnil
        have hin := enclosed_of_turn hroom hnil
        cases hreached with
        | here => exact hin
        | next _ hnone hrest =>
          refine (ih (d.length - nextOffset d o) ?_ (nextOffset d o) rfl).mp ⟨r,fun stale => ?_⟩ o' hrest hroom'
          · rw [nextOffset]
            omega
          · rw [← hr stale,reflexiveAddr_turn hroom hin stale,hnone]
            rfl
      · intro hall
        have hin := hall o .here hroom
        cases haddr : addressAt d o with
        | some addr =>
          refine ⟨some addr,fun stale => ?_⟩
          rw [reflexiveAddr_turn hroom hin stale,haddr]
          rfl
        | none =>
          obtain ⟨r,hr⟩ := (ih (d.length - nextOffset d o) (by rw [nextOffset]; omega) (nextOffset d o) rfl).mpr
            fun o' hreached => hall o' (.next hroom haddr hreached)
          refine ⟨r,fun stale => ?_⟩
          rw [reflexiveAddr_turn hroom hin stale,haddr]
          exact hr stale
    · refine iff_of_true ⟨none,fun stale => reflexiveAddr_end _ hroom⟩ fun o' hreached hroom' => ?_
      cases hreached with
      | here => exact absurd hroom' hroom
      | next hroom'' => exact absurd hroom'' hroom

/-- The loop ends with the same result whatever is behind the datagram, even nothing. -/
def ReadsWithin (d : Bytes) : Prop := ∃ r, ∀ stale, reflexiveAddr (d ++ stale) d.length 20 = pure r

/-- The loop always ends. It reads within the datagram exactly if each header of an address that it gets to has the
bytes of the address behind it. -/
theorem readsWithin_iff_enclosed (d : Bytes) :
    ReadsWithin d ↔ ∀ o, Reached d 20 o → o + 4 ≤ d.length → Enclosed d o := reads_inside_iff d 20
def endsWithHeader (value : Bytes) : Bytes :=
  List.replicate 20 0 ++ beBytes16 0x8022 ++ beBytes16 (UInt16.ofNat value.length) ++ value ++
    beBytes16 ATTR_XOR_MAPPED_ADDRESS ++ beBytes16 8

/-- The family of the address is read behind the end of an answer of 28 bytes. In an answer that fills the buffer it
is read behind the buffer, which is a panic. -/
theorem family_read_behind_datagram :
    (endsWithHeader []).length = 28 ∧ ¬ ReadsWithin (endsWithHeader []) ∧
      ∃ d, d = endsWithHeader (List.replicate 484 0) ∧ d.length = 512 ∧
        parseResponse (recvBuffer d).1 (recvBuffer d).2 = outOfRange := by
  refine ⟨by decide,fun h => ?_,_,rfl,by decide +kernel,Option.isNone_iff_eq_none.mp (by decide +kernel)⟩
  have hreached : Reached (endsWithHeader []) 20 24 := .next (by decide) (by decide) .here
  exact absurd ((reads_inside_iff _ 20).mp h 24 hreached (by decide)) (by decide)

/-- An attribute with its padding, which is not counted in its length. -/
structure Attribute where
  type : UInt16
  value : Bytes
  padding : Bytes
  fits : value.length < 2 ^ 16
  aligned : padding.length = (4 - value.length % 4) % 4

namespace Attribute
def bytes (x : Attribute) : Bytes :=
  beBytes16 x.type ++ beBytes16 (UInt16.ofNat x.value.length) ++ (x.value ++ x.padding)

/-- The address that the server has put into an attribute: the first eight bytes of the value with the XOR undone. -/
def address (x : Attribute) : Option SocketAddr :=
  if x.type = ATTR_XOR_MAPPED_ADDRESS ∧ x.value.length ≥ 8 then addressFrom x.value 0 else none
theorem length_bytes (x : Attribute) : x.bytes.length = 4 + (x.value.length + x.padding.length) := by
  simp only [bytes,List.length_append,beBytes16_length]
end Attribute
structure Response where
  transactionId : Bytes
  attributes : List Attribute
  identified : transactionId.length = 12
  fits : (attributes.flatMap (·.bytes)).length < 2 ^ 16

namespace Response
def header (r : Response) : Bytes :=
  beBytes16 0x0101 ++ beBytes16 (UInt16.ofNat (r.attributes.flatMap (·.bytes)).length) ++ beBytes32 STUN_MAGIC_COOKIE ++
    r.transactionId
def bytes (r : Response) : Bytes := r.header ++ r.attributes.flatMap (·.bytes)
theorem length_header (r : Response) : r.header.length = 20 := by simp [header,r.identified]
end Response
theorem addressFrom_behind (front b : Bytes) : addressFrom (front ++ b) front.length = addressFrom b 0 := by
  have hget : ∀ i, (front ++ b).getD (front.length + i) 0 = b.getD (0 + i) 0 := by
    intro i
    rw [List.getD_append_right _ _ _ _ (by omega),Nat.add_sub_cancel_left,Nat.zero_add]
  have hread := readU16_append_right front b (i := 0 + 2)
  rw [addressFrom,addressFrom,hget,hget,hget,hget,hget,← hread,Nat.zero_add]

section Attributes
variable (front : Bytes) (x : Attribute) (rest : Bytes)
theorem attrType_attribute : attrType (front ++ (x.bytes ++ rest)) front.length = x.type := by
  rw [attrType,← Nat.add_zero front.length,readU16_append_right,Attribute.bytes,List.append_assoc,
    List.append_assoc,readU16_beBytes16]

theorem attrLen_attribute : attrLen (front ++ (x.bytes ++ rest)) front.length = x.value.length := by
  have hread := readU16_append_right (beBytes16 x.type)
    (beBytes16 (UInt16.ofNat x.value.length) ++ (x.value ++ (x.padding ++ rest))) (i := 0)
  rw [readU16_beBytes16,beBytes16_length] at hread
  rw [attrLen,readU16_append_right,Attribute.bytes]
  simp only [List.append_assoc]
  rw [hread,UInt16.toNat_ofNat_of_lt' x.fits]

theorem addressAt_attribute : addressAt (front ++ (x.bytes ++ rest)) front.length = x.address := by
  rw [addressAt,attrType_attribute,attrLen_attribute,Attribute.address]
  split
  · next hmapped =>
    have hshape : front ++ (x.bytes ++ rest) = (front ++ (beBytes16 x.type ++ beBytes16 (UInt16.ofNat x.value.length))) ++
        (x.value ++ (x.padding ++ rest)) := by
      simp [Attribute.bytes]
    have hlength : (front ++ (beBytes16 x.type ++ beBytes16 (UInt16.ofNat x.value.length))).length =
        front.length + 4 := by simp
    rw [hshape, ← hlength, addressFrom_behind, addressFrom_append _ (by omega) fun _ => by omega]
  · rfl

theorem enclosed_attribute : Enclosed (front ++ (x.bytes ++ rest)) front.length := by
  rw [Enclosed,attrType_attribute,attrLen_attribute]
  rintro ⟨-,hlen⟩
  have hroom := x.length_bytes
  simp only [List.length_append]
  exact ⟨by omega,fun _ => by omega⟩
theorem nextOffset_attribute (heven : x.value.length % 2 = 0) :
    nextOffset (front ++ (x.bytes ++ rest)) front.length = (front ++ x.bytes).length := by
  have haligned := x.aligned
  rw [nextOffset,attrLen_attribute,List.length_append,x.length_bytes]
  omega
end Attributes

theorem reflexiveAddr_attributes (stale front : Bytes) {before : List Attribute} {x : Attribute} (rest : Bytes)
    {addr : SocketAddr} (hnone : ∀ y ∈ before, y.address = none) (heven : ∀ y ∈ before, y.value.length % 2 = 0)
    (haddr : x.address = some addr) :
    let d := front ++ (before.flatMap (·.bytes) ++ (x.bytes ++ rest))
    reflexiveAddr (d ++ stale) d.length front.length = pure (some addr) := by
  induction before generalizing front with
  | nil =>
    have hroom : front.length + 4 ≤ (front ++ (x.bytes ++ rest)).length := by
      simp only [List.length_append,x.length_bytes]
      omega
    have hturn := reflexiveAddr_turn hroom (enclosed_attribute front x rest) stale
    rw [addressAt_attribute,haddr] at hturn
    exact hturn
  | cons y before ih =>
    have hroom : front.length + 4 ≤ (front ++ (y.bytes ++ (before.flatMap (·.bytes) ++ (x.bytes ++ rest)))).length := by
      simp only [List.length_append,y.length_bytes]
      omega
    have hturn := reflexiveAddr_turn hroom (enclosed_attribute front y _) stale
    rw [addressAt_attribute,hnone y (by simp),nextOffset_attribute _ _ _ (heven y (by simp))] at hturn
    have hrest := ih (front ++ y.bytes) (fun z hz => hnone z (by simp [hz])) fun z hz => heven z (by simp [hz])
    rw [List.flatMap_cons,List.append_assoc]
    rw [List.append_assoc] at hrest
    exact hturn.trans hrest

/-- The first address of a response of at most 512 bytes is found if every attribute in front of it has an even
length. -/
theorem reflexive_address_found {r : Response} {before after : List Attribute} {x : Attribute} {addr : SocketAddr}
    (hsize : r.bytes.length ≤ 512) (hattributes : r.attributes = before ++ x :: after)
    (hnone : ∀ y ∈ before, y.address = none) (haddr : x.address = some addr)
    (heven : ∀ y ∈ before, y.value.length % 2 = 0) :
    parseResponse (recvBuffer r.bytes).1 (recvBuffer r.bytes).2 = pure addr := by
  have hshape : r.bytes = r.header ++ (before.flatMap (·.bytes) ++ (x.bytes ++ after.flatMap (·.bytes))) := by
    rw [Response.bytes, hattributes, List.flatMap_append, List.flatMap_cons]
  have hloop := reflexiveAddr_attributes (List.replicate (512 - r.bytes.length) 0) r.header
    (after.flatMap (·.bytes)) hnone heven haddr
  dsimp only at hloop
  rw [← hshape, r.length_header] at hloop
  have hlength : ¬ r.bytes.length < 20 := by
    rw [Response.bytes, List.length_append, r.length_header]
    omega
  rw [recvBuffer, List.take_of_length_le hsize, Nat.min_eq_left hsize, parseResponse]
  simp only [if_neg hlength, hloop, pure_bind]

def mapped : Attribute := ⟨ATTR_XOR_MAPPED_ADDRESS,[0,1,0x33,0x26,0xEA,0x12,0xD5,0x45],[],by decide,by decide⟩
def evenText : Attribute := ⟨0x8022,[82,84],[0,0],by decide,by decide⟩
def oddText : Attribute := ⟨0x8022,[82],[0,0,0],by decide,by decide⟩
def answering (x : Attribute) (fits : ([x,mapped].flatMap (·.bytes)).length < 2 ^ 16) : Response :=
  ⟨List.replicate 12 7,[x,mapped],by decide,fits⟩
theorem reflexive_address_found_even :
    let r := answering evenText (by decide)
    parseResponse (recvBuffer r.bytes).1 (recvBuffer r.bytes).2 = pure ⟨.v4 203 0 113 7,4660⟩ := by
  have hattributes : (answering evenText (by decide)).attributes = [evenText] ++ mapped :: [] := rfl
  exact reflexive_address_found (by decide) hattributes (by decide) (by decide) (by decide)

/-- A text of one byte has three bytes of padding. The loop skips one of them, takes the rest for a header and the
type of the address for a length, and finds no address. -/
theorem reflexive_address_missed :
    let r := answering oddText (by decide)
    r.attributes.findSome? (·.address) = some ⟨.v4 203 0 113 7,4660⟩ ∧ r.bytes.length ≤ 512 ∧
      parseResponse (recvBuffer r.bytes).1 (recvBuffer r.bytes).2 =
        throw "XOR-MAPPED-ADDRESS not found in STUN response" := by
  refine ⟨by decide,by decide,?_⟩
  change (_ : Option (Except String SocketAddr)) = some (.error _)
  decide +kernel
end RustyRtc.Ice.Stun
