/-
The digests of registry requests (pos-store composition_fallback_registry types.rs, logic.rs), over the
bytes they hash, and the registry's ports with the record codec. Each digest's bytes say what was
digested, so a hash without collisions tells requests apart.
-/
import PiglorProofs.Core.FallbackCodec
import PiglorProofs.Lib.Framed
import PiglorProofs.Store.FallbackRegistry

namespace Piglor

open List Finmap DomainFallbackPolicyV1
open Authority (textBytes ulidBytes underDomain)
open Framed (littleEndian sized counted)

/-! ## Digested bytes -/

/-- What a digest under a domain hashes. -/
def domainBytes (domain : String) (bytes : List UInt8) : List UInt8 := textBytes domain ++ 0 :: bytes

variable {domain : String}

theorem domainBytes_injective {a b : List UInt8} (h : domainBytes domain a = domainBytes domain b) :
    a = b := (cons.inj (append_cancel_left h)).2

namespace FallbackConformanceSetsV1

/-- The sets by entry key, each in order. -/
def rows (conformance : FallbackConformanceSetsV1) : List (String × List Hash) :=
  (Table.sorted conformance.sets.keys.val).map fun key =>
    (key, Table.sorted ((conformance.sets.lookup key).getD ∅).val)

def preimage (conformance : FallbackConformanceSetsV1) : List UInt8 :=
  counted (fun row => sized (textBytes row.1) ++ counted hashBytes row.2) conformance.rows

def digest (blake3 : ByteHash) (conformance : FallbackConformanceSetsV1) : Hash :=
  underDomain blake3 "PiglorOS.Composition.FallbackConformance.v1" conformance.preimage

end FallbackConformanceSetsV1

/-- A declaration's identity beyond its key: the entity and the conformance sets. -/
def Fallback.declarePreimage (entity : EntityId) (conformanceDigest : Hash) : List UInt8 :=
  [1] ++ (ulidBytes entity.ulid ++ hashBytes conformanceDigest)

def Fallback.declareRequestDigest (blake3 : ByteHash) (entity : EntityId) (conformanceDigest : Hash) : Hash :=
  underDomain blake3 "PiglorOS.Composition.FallbackRequest.v1" (declarePreimage entity conformanceDigest)

namespace FallbackActivateRequestV1

/-- An activation's identity: the entity and every argument. -/
def preimage (blake3 : ByteHash) (request : FallbackActivateRequestV1) : List UInt8 :=
  [2] ++ (ulidBytes request.target.entity.ulid ++ (sized (textBytes request.scope) ++
    (littleEndian 8 request.expectedStateRevision ++ (littleEndian 8 request.expectedLogicalHead ++
    (sized (textBytes request.entryKey) ++ (littleEndian 8 request.closingTenureOrdinal ++
    (hashBytes (request.fromKey.digest blake3) ++ (hashBytes (request.toKey.digest blake3) ++
    (UInt8.ofNat request.triggerCode.code :: UInt8.ofNat request.triggerBasis.origin.code ::
    (littleEndian 2 request.triggerBasis.cause ++
    (counted (fun skipped => hashBytes skipped.implementationDigest ++ [UInt8.ofNat skipped.reason.code]) request.skipped ++
    littleEndian 8 request.tick)))))))))))

def digest (blake3 : ByteHash) (request : FallbackActivateRequestV1) : Hash :=
  underDomain blake3 "PiglorOS.Composition.FallbackRequest.v1" (request.preimage blake3)

end FallbackActivateRequestV1

/-- The registry's ports over BLAKE3. -/
def fallbackPorts (blake3 : ByteHash) : FallbackPortsV1 where
  blake3 := blake3
  implementationDigest := ImplementationKeyV1.digest blake3
  conformanceDigest := FallbackConformanceSetsV1.digest blake3
  decodePolicy := DomainFallbackPolicyV1.fromCanonicalCbor blake3
  encodeDeclared := FallbackDeclaredPayloadV1.write
  decodeDeclared := FallbackDeclaredPayloadV1.fromCanonicalCbor
  encodeActivated := FallbackActivatedPayloadV1.write
  decodeActivated := FallbackActivatedPayloadV1.fromCanonicalCbor
  declareRequestDigest := Fallback.declareRequestDigest blake3
  activateRequestDigest := FallbackActivateRequestV1.digest blake3

/-! ## Telling requests apart -/

theorem textBytes_injective {a b : String} (h : textBytes a = textBytes b) : a = b := by
  have hread := Fallback.fromUTF8_textBytes a
  rw [h, Fallback.fromUTF8_textBytes] at hread
  exact (Option.some.inj hread).symm

theorem hashBytes_injective {a b : Hash} (h : hashBytes a = hashBytes b) : a = b := by
  rw [← hashOfBytes_hashBytes a, h, hashOfBytes_hashBytes]

theorem framed_hash : Framed (fun _ => True) hashBytes :=
  Framed.of_length length_hashBytes fun _ _ => hashBytes_injective

theorem framed_text : Framed (fun text => text.utf8ByteSize < 2 ^ 64) (fun text => sized (textBytes text)) := by
  intro a b rest rest' ha hb h
  rw [← Fallback.length_textBytes] at ha hb
  exact (Framed.bytes.map textBytes_injective) ha hb h

theorem framed_ulid : Framed (fun _ => True) ulidBytes := by
  refine Framed.of_length (fun u => (by simp [ulidBytes, beBytes] : (ulidBytes u).length = 16)) fun _ _ h => ?_
  rw [ulidBytes, ulidBytes, beBytes_eq_bigEndian, beBytes_eq_bigEndian] at h
  exact BitVec.eq_of_toNat_eq (Cbor.bigEndian_injective (BitVec.isLt _) (BitVec.isLt _) h)

/-- A byte in front of what follows. -/
theorem framed_code {α : Type} {code : α → Nat} {a b : α} {rest rest' : List UInt8} (hcode : ∀ {a b}, code a = code b → a = b)
    (hlt : ∀ a, code a < 24) (h : UInt8.ofNat (code a) :: rest = UInt8.ofNat (code b) :: rest') : a = b ∧ rest = rest' := by
  obtain ⟨hbyte, hrest⟩ := cons.inj h
  have hnat := congrArg UInt8.toNat hbyte
  have ha := hlt a
  have hb := hlt b
  rw [UInt8.toNat_ofNat', UInt8.toNat_ofNat', Nat.mod_eq_of_lt (by omega), Nat.mod_eq_of_lt (by omega)] at hnat
  exact ⟨hcode hnat, hrest⟩

theorem FallbackTriggerCodeV1.code_injective {a b : FallbackTriggerCodeV1} (h : a.code = b.code) : a = b :=
  Option.some.inj (a.ofCode_code ▸ h ▸ b.ofCode_code)

theorem FallbackActivationOriginV1.code_injective {a b : FallbackActivationOriginV1} (h : a.code = b.code) : a = b :=
  Option.some.inj (a.ofCode_code ▸ h ▸ b.ofCode_code)

theorem FallbackSkipReasonV1.code_injective {a b : FallbackSkipReasonV1} (h : a.code = b.code) : a = b :=
  Option.some.inj (a.ofCode_code ▸ h ▸ b.ofCode_code)

theorem sorted_injective {α : Type} [LinearOrder α] {s t : Multiset α} (h : Table.sorted s = Table.sorted t) : s = t := by
  rw [← Table.coe_sorted s, h, Table.coe_sorted]

namespace FallbackConformanceSetsV1

variable {a b : FallbackConformanceSetsV1}

theorem rows_injective (h : a.rows = b.rows) : a = b := by
  have hkeys : Table.sorted a.sets.keys.val = Table.sorted b.sets.keys.val := by
    have hfirst := congrArg (map Prod.fst) h
    rwa [rows, rows, map_map, map_map, show Prod.fst ∘ _ = id from rfl, show Prod.fst ∘ _ = id from rfl,
      map_id, map_id] at hfirst
  have hsame : a.sets.keys = b.sets.keys := Finset.val_injective (sorted_injective hkeys)
  rw [rows, rows, hkeys, map_inj_left] at h
  obtain ⟨a⟩ := a
  obtain ⟨b⟩ := b
  refine congrArg mk (ext_lookup fun key => ?_)
  by_cases hmem : key ∈ a.keys
  · have hrow := congrArg Prod.snd (h key (Table.mem_sorted.mpr (hsame ▸ hmem)))
    have hset := Finset.val_injective (sorted_injective hrow)
    obtain ⟨set, hlookup⟩ := mem_iff.mp (mem_keys.mp hmem)
    obtain ⟨set', hlookup'⟩ := mem_iff.mp (mem_keys.mp (hsame ▸ hmem))
    rw [hlookup, hlookup', Option.getD_some, Option.getD_some] at hset
    rw [hlookup, hlookup', hset]
  · have hmem' : key ∉ b.keys := fun h => hmem (hsame ▸ h)
    rw [Finmap.mem_keys] at hmem hmem'
    rw [lookup_eq_none.mpr hmem, lookup_eq_none.mpr hmem']

/-- The digested lengths fit a `u64`. -/
structure Typed (conformance : FallbackConformanceSetsV1) : Prop where
  count : conformance.rows.length < 2 ^ 64
  rows : ∀ row ∈ conformance.rows, row.1.utf8ByteSize < 2 ^ 64 ∧ row.2.length < 2 ^ 64

theorem eq_of_preimage (ha : a.Typed) (hb : b.Typed) (h : a.preimage = b.preimage) : a = b := by
  have hframed := (framed_text.prod framed_hash.list).list
  have hrows : ∀ {c : FallbackConformanceSetsV1}, c.Typed → c.rows.length < 2 ^ 64 ∧
      ∀ row ∈ c.rows, row.1.utf8ByteSize < 2 ^ 64 ∧ row.2.length < 2 ^ 64 ∧ ∀ hash ∈ row.2, True :=
    fun hc => ⟨hc.count, fun row hrow => ⟨(hc.rows row hrow).1, (hc.rows row hrow).2, fun _ _ => trivial⟩⟩
  exact rows_injective (hframed (hrows ha) (hrows hb) (congrArg (· ++ []) h)).1

end FallbackConformanceSetsV1

theorem Fallback.eq_of_declarePreimage {entity entity' : EntityId} {digest digest' : Hash}
    (h : declarePreimage entity digest = declarePreimage entity' digest') : entity = entity' ∧ digest = digest' := by
  have h := append_cancel_left h
  obtain ⟨hentity, h⟩ := framed_ulid trivial trivial h
  exact ⟨congrArg EntityId.mk hentity, hashBytes_injective h⟩

variable {blake3 : ByteHash}

namespace FallbackActivateRequestV1

/-- The machine integers of the request are in range, and its digested lengths. -/
structure Typed (request : FallbackActivateRequestV1) : Prop where
  scope : request.scope.utf8ByteSize < 2 ^ 64
  revision : request.expectedStateRevision < 2 ^ 64
  head : request.expectedLogicalHead < 2 ^ 64
  key : request.entryKey.utf8ByteSize < 2 ^ 64
  closing : request.closingTenureOrdinal < 2 ^ 64
  cause : request.triggerBasis.cause < 2 ^ 16
  skipped : request.skipped.length < 2 ^ 64
  tick : request.tick < 2 ^ 64

theorem framed_skipped : Framed (fun _ => True)
    (fun skipped : FallbackSkippedCandidateV1 => hashBytes skipped.implementationDigest ++ [UInt8.ofNat skipped.reason.code]) := by
  rintro ⟨digest, reason⟩ ⟨digest', reason'⟩ rest rest' - - h
  rw [append_assoc, append_assoc] at h
  obtain ⟨hdigest, h⟩ := framed_hash trivial trivial h
  obtain ⟨hreason, h⟩ := framed_code FallbackSkipReasonV1.code_injective FallbackSkipReasonV1.code_lt h
  dsimp only at hdigest hreason
  exact ⟨by rw [hdigest, hreason], h⟩

/-- The digested bytes name every argument but the Timeline. -/
theorem eq_of_preimage {a b : FallbackActivateRequestV1} (ha : a.Typed) (hb : b.Typed)
    (hfrom : a.fromKey.digest blake3 = b.fromKey.digest blake3 → a.fromKey = b.fromKey)
    (hto : a.toKey.digest blake3 = b.toKey.digest blake3 → a.toKey = b.toKey)
    (htimeline : a.target.timeline = b.target.timeline) (h : a.preimage blake3 = b.preimage blake3) : a = b := by
  have h := append_cancel_left h
  obtain ⟨hentity, h⟩ := framed_ulid trivial trivial h
  obtain ⟨hscope, h⟩ := framed_text ha.scope hb.scope h
  obtain ⟨hrevision, h⟩ := Framed.number 8 ha.revision hb.revision h
  obtain ⟨hhead, h⟩ := Framed.number 8 ha.head hb.head h
  obtain ⟨hkey, h⟩ := framed_text ha.key hb.key h
  obtain ⟨hclosing, h⟩ := Framed.number 8 ha.closing hb.closing h
  obtain ⟨hfromDigest, h⟩ := framed_hash trivial trivial h
  obtain ⟨htoDigest, h⟩ := framed_hash trivial trivial h
  obtain ⟨htrigger, h⟩ := framed_code FallbackTriggerCodeV1.code_injective FallbackTriggerCodeV1.code_lt h
  obtain ⟨horigin, h⟩ := framed_code FallbackActivationOriginV1.code_injective FallbackActivationOriginV1.code_lt h
  obtain ⟨hcause, h⟩ := Framed.number 2 ha.cause hb.cause h
  obtain ⟨hskipped, h⟩ := framed_skipped.list ⟨ha.skipped, fun _ _ => trivial⟩ ⟨hb.skipped, fun _ _ => trivial⟩ h
  obtain ⟨htick, -⟩ := Framed.number 8 ha.tick hb.tick (congrArg (· ++ []) h)
  have hfromKey := hfrom hfromDigest
  have htoKey := hto htoDigest
  obtain ⟨_, ⟨_, ⟨_⟩⟩, _, _, _, _, _, _, _, ⟨_, _⟩, _, _⟩ := a
  subst hentity hscope hrevision hhead hkey hclosing hfromKey htoKey htrigger horigin hcause hskipped htick htimeline
  rfl

end FallbackActivateRequestV1

/-! ## Collisions -/

/-- The hash gives different digests to different strings of the list. -/
def CollisionFree (blake3 : ByteHash) (hashed : List (List UInt8)) : Prop :=
  ∀ a ∈ hashed, ∀ b ∈ hashed, blake3 a = blake3 b → a = b

instance (blake3 : ByteHash) (hashed : List (List UInt8)) : Decidable (CollisionFree blake3 hashed) := by
  unfold CollisionFree
  infer_instance

theorem CollisionFree.eq_of_underDomain {hashed : List (List UInt8)}
    (h : CollisionFree blake3 hashed) {a b : List UInt8} (ha : domainBytes domain a ∈ hashed)
    (hb : domainBytes domain b ∈ hashed) (heq : underDomain blake3 domain a = underDomain blake3 domain b) : a = b :=
  domainBytes_injective (h _ ha _ hb heq)

/-- What a declaration hashes: the fields of its policy, its conformance sets and its identity. -/
def FallbackDeclareRequestV1.hashed (blake3 : ByteHash) (request : FallbackDeclareRequestV1) : List (List UInt8) :=
  (match DomainFallbackPolicyV1.fromCanonicalCbor blake3 request.policyBytes with
    | .ok policy => [domainBytes "PiglorOS.Composition.FallbackPolicy.v1"
        (DomainFallbackPolicyV1.preimage policy.scope policy.entries policy.previousPolicyDigest)]
    | .error _ => []) ++
  [domainBytes "PiglorOS.Composition.FallbackConformance.v1" request.conformance.preimage,
    domainBytes "PiglorOS.Composition.FallbackRequest.v1"
      (Fallback.declarePreimage request.target.entity (request.conformance.digest blake3))]

theorem FallbackDeclareRequestV1.mem_hashed {request : FallbackDeclareRequestV1} {policy : DomainFallbackPolicyV1}
    (h : fromCanonicalCbor blake3 request.policyBytes = .ok policy) :
    domainBytes "PiglorOS.Composition.FallbackPolicy.v1"
      (preimage policy.scope policy.entries policy.previousPolicyDigest) ∈ request.hashed blake3 := by
  rw [hashed, h]
  exact mem_cons_self

/-- What an activation hashes: the two implementations and its identity. -/
def FallbackActivateRequestV1.hashed (blake3 : ByteHash) (request : FallbackActivateRequestV1) : List (List UInt8) :=
  [domainBytes "PiglorOS.Composition.ImplementationKey.v1" request.fromKey.write,
    domainBytes "PiglorOS.Composition.ImplementationKey.v1" request.toKey.write,
    domainBytes "PiglorOS.Composition.FallbackRequest.v1" (request.preimage blake3)]

variable {hashed : List (List UInt8)} (hfree : CollisionFree blake3 hashed)
include hfree

variable {a b : FallbackDeclareRequestV1}

theorem FallbackDeclareRequestV1.policyBytes_eq {policy policy' : DomainFallbackPolicyV1}
    (ha : ∀ bytes ∈ a.hashed blake3, bytes ∈ hashed) (hb : ∀ bytes ∈ b.hashed blake3, bytes ∈ hashed)
    (hpolicy : fromCanonicalCbor blake3 a.policyBytes = .ok policy)
    (hpolicy' : fromCanonicalCbor blake3 b.policyBytes = .ok policy')
    (h : policy.policyDigest = policy'.policyDigest) : a.policyBytes = b.policyBytes := by
  obtain ⟨hdigest, hwrite⟩ := fromCanonicalCbor_eq_ok hpolicy
  obtain ⟨hdigest', hwrite'⟩ := fromCanonicalCbor_eq_ok hpolicy'
  have hfields := hfree.eq_of_underDomain (ha _ (mem_hashed hpolicy)) (hb _ (mem_hashed hpolicy'))
    (hdigest.symm.trans (h.trans hdigest'))
  rw [← hwrite, ← hwrite']
  exact write_congr hfields h

/-- Declarations with one request digest name one entity and the same conformance sets. -/
theorem FallbackDeclareRequestV1.identity_eq
    (ha : ∀ bytes ∈ a.hashed blake3, bytes ∈ hashed) (hb : ∀ bytes ∈ b.hashed blake3, bytes ∈ hashed)
    (htyped : a.conformance.Typed) (htyped' : b.conformance.Typed)
    (h : Fallback.declareRequestDigest blake3 a.target.entity (a.conformance.digest blake3) =
      Fallback.declareRequestDigest blake3 b.target.entity (b.conformance.digest blake3)) :
    a.target.entity = b.target.entity ∧ a.conformance = b.conformance := by
  have hrequest := hfree.eq_of_underDomain (ha _ (by simp [FallbackDeclareRequestV1.hashed]))
    (hb _ (by simp [FallbackDeclareRequestV1.hashed])) h
  obtain ⟨hentity, hdigest⟩ := Fallback.eq_of_declarePreimage hrequest
  have hconformance := hfree.eq_of_underDomain (ha _ (by simp [FallbackDeclareRequestV1.hashed]))
    (hb _ (by simp [FallbackDeclareRequestV1.hashed])) hdigest
  exact ⟨hentity, FallbackConformanceSetsV1.eq_of_preimage htyped htyped' hconformance⟩

theorem FallbackActivateRequestV1.eq_of_digest {a b : FallbackActivateRequestV1}
    (ha : ∀ bytes ∈ a.hashed blake3, bytes ∈ hashed) (hb : ∀ bytes ∈ b.hashed blake3, bytes ∈ hashed)
    (htyped : a.Typed) (htyped' : b.Typed) (htimeline : a.target.timeline = b.target.timeline)
    (h : a.digest blake3 = b.digest blake3) : a = b := by
  have hpreimage := hfree.eq_of_underDomain (ha _ (by simp [FallbackActivateRequestV1.hashed]))
    (hb _ (by simp [FallbackActivateRequestV1.hashed])) h
  refine FallbackActivateRequestV1.eq_of_preimage htyped htyped' (fun hfrom => ?_) (fun hto => ?_) htimeline hpreimage
  · exact ImplementationKeyV1.write_injective (hfree.eq_of_underDomain (ha _ (by simp [FallbackActivateRequestV1.hashed]))
      (hb _ (by simp [FallbackActivateRequestV1.hashed])) hfrom)
  · exact ImplementationKeyV1.write_injective (hfree.eq_of_underDomain (ha _ (by simp [FallbackActivateRequestV1.hashed]))
      (hb _ (by simp [FallbackActivateRequestV1.hashed])) hto)

end Piglor
