import RustyRtc.Connection.Fingerprint
import RustyRtc.Srtp.Delivery

/-! # Securing the media

`dtls/runtime.rs`: the certificate that the handshake accepts, and the SRTP keys that each side takes from what the
handshake exports. Both ends export the same; that is what the exporter is for.
-/
namespace RustyRtc.Connection
open OfferAnswer Ice Srtp SrtpContext

structure SrtpSessionConfig where
  outbound : SrtpEndpointKeys
  inbound : SrtpEndpointKeys
  deriving DecidableEq, Repr
inductive DtlsError where
  | noSrtpProfile
  | keyExport (reason : String)
  deriving DecidableEq, Repr
def srtpProfile : String := "SRTP_AES128_CM_SHA1_80"

/-- From the profile that was selected, and the sixty bytes that `export_keying_material` fills. -/
def deriveSrtpKeys (selectedProfile : Option String) (exported : Except String (Vector UInt8 60)) (role : DtlsRole) :
    Except DtlsError SrtpSessionConfig :=
  if selectedProfile ≠ some srtpProfile then .error .noSrtpProfile
  else
    match exported with
    | .error e => .error (.keyExport e)
    | .ok keyMat =>
      let (clientKey,rest) := keyMat.toList.splitAt 16
      let (serverKey,rest) := rest.splitAt 16
      let (clientSalt,rest) := rest.splitAt 14
      let (serverSalt,_) := rest.splitAt 14
      let clientKeys : SrtpEndpointKeys := ⟨clientKey,clientSalt⟩
      let serverKeys : SrtpEndpointKeys := ⟨serverKey,serverSalt⟩
      .ok <| match role with
        | .client => ⟨clientKeys,serverKeys⟩
        | .server => ⟨serverKeys,clientKeys⟩

theorem deriveSrtpKeys_of_role_ne (P : Primitives) (keyMat : Vector UInt8 60) {a b : IceRole} (h : a ≠ b) :
    ∃ here there ctx, deriveSrtpKeys (some srtpProfile) (.ok keyMat) (dtlsRole a) = .ok here ∧
      deriveSrtpKeys (some srtpProfile) (.ok keyMat) (dtlsRole b) = .ok there ∧
      SrtpContext.new P here.outbound = some ctx ∧ SrtpContext.new P there.inbound = some ctx := by
  have hnew : ∀ (key salt : Bytes), key.length = 16 → ∃ ctx, SrtpContext.new P ⟨key,salt⟩ = some ctx := by
    intro key salt h
    simp [SrtpContext.new,deriveSessionKeys,aesCmPrf,h]
  cases a with
  | controlling =>
    cases b with
    | controlling => exact absurd rfl h
    | controlled =>
      obtain ⟨ctx,hctx⟩ := hnew ((keyMat.toList.splitAt 16).2.splitAt 16).1 _ (by simp [List.splitAt_eq])
      exact ⟨_,_,ctx,rfl,rfl,hctx,hctx⟩
  | controlled =>
    cases b with
    | controlling =>
      obtain ⟨ctx,hctx⟩ := hnew (keyMat.toList.splitAt 16).1 _ (by simp [List.splitAt_eq])
      exact ⟨_,_,ctx,rfl,rfl,hctx,hctx⟩
    | controlled => exact absurd rfl h

namespace Call

def srtpKeys (s : Call) (keyMat : Vector UInt8 60) (p : Peer) : Except DtlsError SrtpSessionConfig :=
  deriveSrtpKeys (some srtpProfile) (.ok keyMat) (dtlsRole (s.role p))

/-- From a careful exchange of descriptions that has settled to the media: whatever the handshake exports, each peer
opens what the other protects, also if packets are lost or come out of order within the window. -/
theorem settled_media_delivered (v6 : Ipv6Text) {maxCandidatePairs : Peer → ℕ} {credentials : Peer → String × String}
    {fingerprint : Peer → Option Text} {acts : List Act}
    (hcareful : Along (step v6) Careful (start maxCandidatePairs credentials fingerprint) acts)
    (hsettled : (acts.foldl (step v6) (start maxCandidatePairs credentials fingerprint)).Settled)
    (P : Primitives) (keyMat : Vector UInt8 60) (p : Peer) {ssrc : UInt32} {first : UInt16} {packets : List Bytes}
    (hrun : RunFrom ssrc first.toNat packets) (hrange : first.toNat + packets.length ≤ 2 ^ 48) {js : List ℕ}
    (hjs : ∀ j ∈ js, j < packets.length) (hschedule : Schedule (js.map (first.toNat + ·))) :
    let s := acts.foldl (step v6) (start maxCandidatePairs credentials fingerprint)
    ∃ here there sender receiver, ∃ wire : List Bytes, s.srtpKeys keyMat p = .ok here ∧ s.srtpKeys keyMat p.other = .ok there ∧
      SrtpContext.new P here.outbound = some sender ∧ SrtpContext.new P there.inbound = some receiver ∧
      (sender.protectAll P ssrc packets).2 = wire.map .ok ∧
      (receiver.unprotectAll P (js.map (wire.getD · []))).2 = js.map fun j => .ok (packets.getD j []) := by
  obtain ⟨-,horderly⟩ := hcareful.invariant (I := fun s => s.Steady ∧ s.exchange.Orderly)
    (fun _ _ hs ha => step_orderly v6 hs ha) ⟨fun _ => .inl rfl,Exchange.orderly_start⟩
  intro s
  have hexchange : s.exchange.Settled := by
    intro q
    obtain ⟨hstable,-,hremote,hinbox⟩ := hsettled q
    exact ⟨not_offering hstable,by simp [s,exchange,hinbox],hremote⟩
  have hne : s.role .caller ≠ s.role .callee := fun heq =>
    horderly.controlling_ne hexchange (congrArg (fun role : IceRole => decide (role = .controlling)) heq)
  have hroles : s.role p ≠ s.role p.other := by
    cases p with
    | caller => exact hne
    | callee => exact hne.symm
  obtain ⟨here,there,ctx,hhere,hthere,hout,hin⟩ := deriveSrtpKeys_of_role_ne P keyMat hroles
  refine ⟨here,there,ctx,ctx,_,hhere,hthere,hout,hin,protectAll_run (new_expects hout ssrc first) hrun,?_⟩
  have hbound : ∀ i ∈ js.map (first.toNat + ·), i < 2 ^ 48 := by
    intro i hi
    obtain ⟨j,hj,rfl⟩ := List.mem_map.mp hi
    have := hjs j hj
    omega
  rw [delivered_wire hjs,
    (unprotectAll_schedule (new_untouched hin ssrc) _ hschedule (RunFrom.delivered hrun hjs) hbound).1, List.map_map]
  apply List.map_congr_left
  intro j hj
  simp

theorem settled_media_delivered_one_offer : ∃ here there sender receiver, ∃ wire : List Bytes,
    (oneOffer.foldl (step noIpv6) freshCall).srtpKeys (.replicate 60 0) .caller = .ok here ∧
      (oneOffer.foldl (step noIpv6) freshCall).srtpKeys (.replicate 60 0) .callee = .ok there ∧
      SrtpContext.new samplePrimitives here.outbound = some sender ∧
      SrtpContext.new samplePrimitives there.inbound = some receiver ∧
      (sender.protectAll samplePrimitives 7 (samplePackets 65535 3)).2 = wire.map .ok ∧
      (receiver.unprotectAll samplePrimitives ([0,2].map (wire.getD · []))).2 =
        [0,2].map fun j => .ok ((samplePackets 65535 3).getD j []) := by
  obtain ⟨hsettled,hcareful⟩ : (oneOffer.foldl (step noIpv6) freshCall).Settled ∧
      Along (step noIpv6) Careful freshCall oneOffer := by decide +kernel
  exact settled_media_delivered noIpv6 hcareful hsettled samplePrimitives (.replicate 60 0) .caller
    (runFrom_samplePackets 65535 3) (by decide) (by decide) ⟨by decide,by decide,by decide,by decide⟩

end Call
end RustyRtc.Connection
