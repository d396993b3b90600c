import RustyRtc.Foundation.Codec
import RustyRtc.Foundation.Incoming
import RustyRtc.Foundation.Text

/-! # File transfer messages

`sctp/protocol`: a type byte and the fields of the message, in network order. Lengths are cut to the width of
their field by `as`; bytes behind the last field are not looked at.
-/
namespace RustyRtc.Sctp
inductive SctpProtocolMessage where
  | offer (id : UInt32) (filename : String) (fileSize : UInt64)
  | accept (id : UInt32)
  | reject (id : UInt32)
  | cancel (id : UInt32)
  | chunk (id : UInt32) (seq : UInt64) (payload : Bytes)
  | endFile (id : UInt32)
  deriving DecidableEq, Repr

namespace Field
open Codec

def u8 : Codec IoErrorKind UInt8 := Codec.u8 .unexpectedEof
def u32 : Codec IoErrorKind UInt32 := Codec.u32 .unexpectedEof
def u64 : Codec IoErrorKind UInt64 := Codec.u64 .unexpectedEof
def filename : Codec IoErrorKind String :=
  (blob (Codec.u16 .unexpectedEof) UInt16.toNat UInt16.ofNat (fun _ => UInt16.ofNat_toNat) .unexpectedEof).via
    utf8 (fun b => (fromUtf8 b).elim (.error .invalidData) .ok) (fun _ => True) (by
      intro b s
      rw [true_and, ← fromUtf8_eq_some]
      cases fromUtf8 b <;> simp)
def payload : Codec IoErrorKind Bytes :=
  blob u32 UInt32.toNat UInt32.ofNat (fun _ => UInt32.ofNat_toNat) .unexpectedEof
def offer : Codec IoErrorKind (UInt32 × UInt64 × String) := u32.pair (u64.pair filename)
def chunk : Codec IoErrorKind (UInt32 × UInt64 × Bytes) := u32.pair (u64.pair payload)
end Field

open Field

namespace SctpProtocolMessage
variable {t : UInt8} {msg : SctpProtocolMessage} {data : Bytes}
def typeOffer : UInt8 := 1
def typeAccept : UInt8 := 2
def typeReject : UInt8 := 3
def typeCancel : UInt8 := 4
def typeChunk : UInt8 := 5
def typeEndFile : UInt8 := 6

def serialize : SctpProtocolMessage → Except IoErrorKind Bytes
  | .offer id filename fileSize => do return (← u8.put typeOffer) ++ (← Field.offer.put (id,fileSize,filename))
  | .accept id => do return (← u8.put typeAccept) ++ (← u32.put id)
  | .reject id => do return (← u8.put typeReject) ++ (← u32.put id)
  | .cancel id => do return (← u8.put typeCancel) ++ (← u32.put id)
  | .chunk id seq payload => do return (← u8.put typeChunk) ++ (← Field.chunk.put (id,seq,payload))
  | .endFile id => do return (← u8.put typeEndFile) ++ (← u32.put id)

def body (msgType : UInt8) : Reader IoErrorKind SctpProtocolMessage :=
  if msgType = typeOffer then do
    let (id,fileSize,filename) ← Field.offer.get
    return .offer id filename fileSize
  else if msgType = typeAccept then do return .accept (← u32.get)
  else if msgType = typeReject then do return .reject (← u32.get)
  else if msgType = typeCancel then do return .cancel (← u32.get)
  else if msgType = typeChunk then do
    let (id,seq,payload) ← Field.chunk.get
    return .chunk id seq payload
  else if msgType = typeEndFile then do return .endFile (← u32.get)
  else throw .invalidData

def deserialize (data : Bytes) : Except IoErrorKind SctpProtocolMessage :=
  ((u8.get >>= body).run data).map Prod.fst

def msgType : SctpProtocolMessage → UInt8
  | .offer .. => typeOffer
  | .accept _ => typeAccept
  | .reject _ => typeReject
  | .cancel _ => typeCancel
  | .chunk .. => typeChunk
  | .endFile _ => typeEndFile

def id : SctpProtocolMessage → UInt32
  | .offer id .. | .accept id | .reject id | .cancel id | .chunk id .. | .endFile id => id
def Fits : SctpProtocolMessage → Prop
  | .offer _ filename _ => Field.filename.Fits filename
  | .chunk _ _ payload => Field.payload.Fits payload
  | _ => True
theorem typed_eq_ok {e : Except IoErrorKind Bytes} {d : Bytes} :
    (do return (← u8.put t) ++ (← e) : Except IoErrorKind Bytes) = .ok d ↔ ∃ c, e = .ok c ∧ t :: c = d := by
  cases e <;> simp [u8,Codec.u8,Codec.fixed,bind,Except.bind,pure,Except.pure]

/-- Every message can be written; it starts with its type and its id. -/
theorem serialize_eq (msg : SctpProtocolMessage) :
    ∃ rest, msg.serialize = .ok (msg.msgType :: (beBytes32 msg.id ++ rest)) := by
  cases msg with
  | offer id filename fileSize => exact ⟨_,rfl⟩
  | chunk id seq payload => exact ⟨_,rfl⟩
  | _ id => exact ⟨[],typed_eq_ok.mpr ⟨beBytes32 id,rfl,by rw [List.append_nil]; rfl⟩⟩

theorem serialize_of_body {b rest : Bytes}
    (h : (body t).run b = .ok (msg,rest)) : msg.Fits ∧ ∃ c, msg.serialize = .ok (t :: c) ∧ b = c ++ rest := by
  rw [body] at h
  split_ifs at h with ht₁ ht₂ ht₃ ht₄ ht₅ ht₆
  case neg => simp [throw,throwThe,MonadExceptOf.throw,StateT.lift,StateT.run,bind,Except.bind] at h
  all_goals
    obtain ⟨x,mid,hx,hmsg⟩ := Reader.run_bind_eq_ok.mp h
    obtain ⟨hfits,c,hc,rfl⟩ := (Codec.law _).mp hx
    obtain ⟨rfl,rfl⟩ := Reader.run_pure_eq_ok.mp hmsg
    subst t
    refine ⟨?_,c,typed_eq_ok.mpr ⟨c,hc,rfl⟩,rfl⟩
    first
    | exact trivial
    | exact hfits.2.2

theorem body_of_serialize (h : msg.Fits) {c : Bytes}
    (hc : msg.serialize = .ok (t :: c)) (rest : Bytes) : (body t).run (c ++ rest) = .ok (msg,rest) := by
  cases msg <;>
    · obtain ⟨c,hput,heq⟩ := typed_eq_ok.mp hc
      obtain ⟨rfl,rfl⟩ := List.cons.inj heq
      refine Reader.run_bind_eq_ok.mpr ⟨_,rest,(Codec.law _).mpr ⟨?_,c,hput,rfl⟩,rfl⟩
      first
      | exact trivial
      | exact ⟨trivial,trivial,h⟩

theorem deserialize_eq_ok :
    deserialize data = .ok msg ↔ ∃ t b rest, data = t :: b ∧ (body t).run b = .ok (msg,rest) := by
  have hmap : deserialize data = .ok msg ↔ ∃ rest, (u8.get >>= body).run data = .ok (msg,rest) := by
    rw [deserialize]
    cases (u8.get >>= body).run data with
    | error e => simp [Except.map]
    | ok p =>
      obtain ⟨msg',rest⟩ := p
      simp [Except.map]
  simp only [hmap,Reader.run_bind_eq_ok,Codec.law u8]
  constructor
  · rintro ⟨rest,t,b,⟨-,c,hc,rfl⟩,hbody⟩
    cases hc
    exact ⟨t,b,rest,rfl,hbody⟩
  · rintro ⟨t,b,rest,rfl,hbody⟩
    exact ⟨rest,t,b,⟨trivial,[t],rfl,rfl⟩,hbody⟩

theorem deserialize_eq_ok_iff :
    deserialize data = .ok msg ↔ msg.Fits ∧ ∃ c rest, msg.serialize = .ok c ∧ data = c ++ rest := by
  rw [deserialize_eq_ok]
  constructor
  · rintro ⟨t,b,rest,rfl,hbody⟩
    obtain ⟨hfits,c,hc,rfl⟩ := serialize_of_body hbody
    exact ⟨hfits,t :: c,rest,hc,rfl⟩
  · rintro ⟨hfits,c,rest,hc,rfl⟩
    obtain ⟨tail,htail⟩ := msg.serialize_eq
    obtain rfl := Except.ok.inj (hc.symm.trans htail)
    exact ⟨_,_,rest,rfl,body_of_serialize hfits hc rest⟩

theorem deserialize_serialize (h : msg.Fits) (hdata : msg.serialize = .ok data) : deserialize data = .ok msg :=
  deserialize_eq_ok_iff.mpr ⟨h,data,[],hdata,(List.append_nil data).symm⟩

theorem head_of_deserialize {msg' : SctpProtocolMessage} (hdata : msg.serialize = .ok data)
    (h : deserialize data = .ok msg') : msg'.msgType = msg.msgType ∧ msg'.id = msg.id := by
  obtain ⟨tail,htail⟩ := msg.serialize_eq
  obtain rfl := Except.ok.inj (hdata.symm.trans htail)
  obtain ⟨-,c,rest,hc,heq⟩ := deserialize_eq_ok_iff.mp h
  obtain ⟨tail',htail'⟩ := msg'.serialize_eq
  obtain rfl := Except.ok.inj (hc.symm.trans htail')
  rw [List.cons_append] at heq
  obtain ⟨htype,hsplit⟩ := List.cons.inj heq
  refine ⟨htype.symm,?_⟩
  rw [List.append_assoc] at hsplit
  have hid := congrArg (readU32 · 0) hsplit
  rw [readU32_beBytes32,readU32_beBytes32] at hid
  exact hid.symm

/-- The filename is short enough for a 16-bit count, the payload for a 32-bit one. -/
def Counted : SctpProtocolMessage → Prop
  | .offer _ filename _ => filename.utf8ByteSize < UInt16.size
  | .chunk _ _ payload => payload.length < UInt32.size
  | _ => True

theorem fits_iff_counted (msg : SctpProtocolMessage) : msg.Fits ↔ msg.Counted := by
  cases msg with
  | offer id filename fileSize =>
    have hfits : (offer id filename fileSize).Fits ↔
        (UInt16.ofNat filename.utf8ByteSize).toNat = filename.utf8ByteSize := by
      simp [Fits,Field.filename,Codec.via,Codec.blob,Codec.u16,Codec.fixed]
    rw [hfits,UInt16.toNat_ofNat']
    exact Nat.mod_eq_iff_lt (by decide)
  | chunk id seq payload =>
    have hfits : (chunk id seq payload).Fits ↔ (UInt32.ofNat payload.length).toNat = payload.length := by
      simp [Fits,Field.payload,Codec.blob,Field.u32,Codec.u32,Codec.fixed]
    rw [hfits,UInt32.toNat_ofNat']
    exact Nat.mod_eq_iff_lt (by decide)
  | _ => exact Iff.rfl

/-- Every message is written, and comes back exactly if its lengths can be counted. What is read was written at the
front of the input. -/
theorem deserialize_serialize_iff (msg : SctpProtocolMessage) (input : Bytes) :
    (∃ data, msg.serialize = .ok data ∧ (deserialize data = .ok msg ↔ msg.Counted)) ∧
      ∀ msg', deserialize input = .ok msg' → ∃ n ≤ input.length, msg'.serialize = .ok (input.take n) := by
  constructor
  · obtain ⟨tail,hdata⟩ := msg.serialize_eq
    refine ⟨_,hdata,?_⟩
    rw [← fits_iff_counted]
    exact ⟨fun h => (deserialize_eq_ok_iff.mp h).1,fun h => deserialize_serialize h hdata⟩
  · intro msg' h
    obtain ⟨-,c,rest,hc,rfl⟩ := deserialize_eq_ok_iff.mp h
    refine ⟨c.length,by simp,?_⟩
    rw [List.take_left]
    exact hc

/-- A filename whose length is a multiple of 2¹⁶ goes out behind a count of none, and is not read. -/
theorem deserialize_offer_of_wrapped {filename : String} (h : UInt16.ofNat filename.utf8ByteSize = 0) (id : UInt32)
    (fileSize : UInt64) : ∃ data, (offer id filename fileSize).serialize = .ok data ∧
      deserialize data = .ok (offer id "" fileSize) := by
  refine ⟨typeOffer :: (beBytes32 id ++ (beBytes64 fileSize ++
    (beBytes16 (UInt16.ofNat filename.utf8ByteSize) ++ utf8 filename))),rfl,?_⟩
  have hempty : (offer id "" fileSize).Counted := by
    change "".utf8ByteSize < UInt16.size
    decide
  rw [h]
  refine deserialize_eq_ok_iff.mpr ⟨(fits_iff_counted _).mpr hempty,
    typeOffer :: (beBytes32 id ++ (beBytes64 fileSize ++ beBytes16 0)),utf8 filename,?_,by simp⟩
  exact typed_eq_ok.mpr ⟨_,rfl,by simp [utf8]⟩

theorem utf8ByteSize_replicate (n : ℕ) : (String.ofList (.replicate n 'a')).utf8ByteSize = n := by
  rw [← utf8_length,utf8_ofList]
  induction n with
  | zero => rfl
  | succ n ih => rw [List.replicate_succ,List.flatMap_cons,List.length_append,ih]; exact Nat.add_comm 1 n

/-- A file whose name has 65536 bytes is offered to the receiver without a name. -/
theorem long_filename_lost : ∃ msg data, serialize msg = .ok data ∧ deserialize data = .ok (offer 1 "" 5) ∧
    msg = offer 1 (String.ofList (.replicate 65536 'a')) 5 ∧ msg ≠ offer 1 "" 5 := by
  have hwrapped : UInt16.ofNat (String.ofList (.replicate 65536 'a')).utf8ByteSize = 0 := by
    rw [utf8ByteSize_replicate]
    decide
  obtain ⟨data,hdata,hread⟩ := deserialize_offer_of_wrapped hwrapped 1 5
  refine ⟨_,data,hdata,hread,rfl,fun h => ?_⟩
  have hsize := utf8ByteSize_replicate 65536
  rw [(offer.inj h).2.1] at hsize
  exact absurd hsize (by decide)
end SctpProtocolMessage
end RustyRtc.Sctp
