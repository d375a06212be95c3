/-
The composition fallback records (pos-core composition_fallback.rs, policy.rs, payload.rs): the
implementation keys, pins, entries and policies an owner declares, and the payloads of the two
Events that declare and activate them. Every record carries what its constructor checks. The
preferred CBOR forms and the BLAKE3 digests are the functions of a codec.
-/
import PiglorProofs.Core.Types
import PiglorProofs.Lib.Table
import Mathlib.Data.String.Basic

namespace Piglor

def compositionFallbackDeclaredEventTypeV1 : Kind := "pigloros.composition.fallback-declared"

def compositionFallbackActivatedEventTypeV1 : Kind := "pigloros.composition.fallback-activated"

/-- The record field a record refuses. -/
inductive FallbackFieldV1 where
  | pluginId
  | version
  | roles
  | entryKey
  | candidates
  | triggers
  | activationMode
  | distinctness
  | scope
  | entries
  | rebased
  | skipped
  | skipReason
  | triggerCode
  | triggerOrigin
  | implementation
deriving DecidableEq

inductive FallbackRecordErrorV1 where
  | invalidEncoding
  | nonCanonical
  | tooLarge
  | invalidField (field : FallbackFieldV1)
  | policyDigestMismatch
deriving DecidableEq

inductive FallbackTriggerCodeV1 where
  | missingImplementation
  | componentTrap
  | resourceLimit
  | artifactRevoked
  | workerCrashed
deriving DecidableEq

def FallbackTriggerCodeV1.code : FallbackTriggerCodeV1 → Nat
  | .missingImplementation => 1
  | .componentTrap => 2
  | .resourceLimit => 3
  | .artifactRevoked => 4
  | .workerCrashed => 5

inductive FallbackActivationModeV1 where
  | automatic
  | manual
deriving DecidableEq

/-- Who started an activation. -/
inductive FallbackActivationOriginV1 where
  | automatic
  | owner
deriving DecidableEq

inductive FallbackSkipReasonV1 where
  | releaseNotCurrent
  | factsMismatch
  | sourceUnavailable
  | memberBuildFailed
  | prepareRefused
  | swapRefused
deriving DecidableEq

/-! ## Field checks -/

namespace Fallback

def require (condition : Bool) (field : FallbackFieldV1) : Except FallbackRecordErrorV1 Unit :=
  if condition then .ok () else .error (.invalidField field)

def textWithin (text : String) (maximum : Nat) : Bool :=
  decide (text.utf8ByteSize ≠ 0) && decide (text.utf8ByteSize ≤ maximum)

/-- A byte of a stable slot name. -/
def isSlotByte (byte : UInt8) : Bool :=
  (48 ≤ byte && byte ≤ 57) || (65 ≤ byte && byte ≤ 90) || (97 ≤ byte && byte ≤ 122) || byte == 46 || byte == 95 || byte == 45

def validEntryKey (key : String) : Bool := textWithin key 64 && key.toUTF8.data.toList.all isSlotByte

def validRoles (roles : List String) : Bool :=
  decide (1 ≤ roles.length ∧ roles.length ≤ 16) && decide roles.Nodup && roles.all fun role => textWithin role 64

def strictlySorted (items : List String) : Bool := decide (items.IsChain (· < ·))

end Fallback

open Fallback

/-! ## Implementations and pins -/

/-- IMK1: the cross-run identity of an implementation. -/
structure ImplementationKeyV1 where
  pluginId : String
  version : String
  releaseDigest : Hash
  valid : textWithin pluginId 128 && textWithin version 64

/-- PPN1: a pinned implementation with its roles. -/
structure CompositionPinV1 where
  implementation : ImplementationKeyV1
  roles : List String
  valid : validRoles roles

def CompositionPinV1.pluginId (pin : CompositionPinV1) : String := pin.implementation.pluginId

/-! ## Policies -/

def validTriggers (triggers : List FallbackTriggerCodeV1) : Bool :=
  !triggers.isEmpty && decide ((triggers.map FallbackTriggerCodeV1.code).IsChain (· < ·))

/-- One entry of a policy: a primary with one or two candidates, in chain order. -/
structure FallbackEntryV1 where
  entryKey : String
  primary : CompositionPinV1
  candidates : List CompositionPinV1
  triggers : List FallbackTriggerCodeV1
  activationMode : FallbackActivationModeV1
  valid : validEntryKey entryKey && decide (1 ≤ candidates.length ∧ candidates.length ≤ 2) && validTriggers triggers &&
    decide ((primary :: candidates).map CompositionPinV1.pluginId).Nodup

def FallbackEntryV1.pluginIds (entry : FallbackEntryV1) : List String :=
  (entry.primary :: entry.candidates).map CompositionPinV1.pluginId

def validEntries (entries : List FallbackEntryV1) : Bool :=
  decide (entries.length ≤ 32) && strictlySorted (entries.map FallbackEntryV1.entryKey)

def distinctPlugins (entries : List FallbackEntryV1) : Bool := decide (entries.flatMap FallbackEntryV1.pluginIds).Nodup

/-- DFP1: an owner-declared fallback policy; one without entries withdraws its predecessor. -/
structure DomainFallbackPolicyV1 where
  scope : String
  entries : List FallbackEntryV1
  previousPolicyDigest : Option Hash
  policyDigest : Hash
  valid : textWithin scope 128 && validEntries entries && distinctPlugins entries

def DomainFallbackPolicyV1.isWithdrawal (policy : DomainFallbackPolicyV1) : Bool := policy.entries.isEmpty

/-! ## Event payloads -/

/-- A re-based entry with the implementation it freezes or promotes. -/
structure FallbackRebasedEntryV1 where
  entryKey : String
  implementationDigest : Hash
  valid : validEntryKey entryKey
deriving DecidableEq

def FallbackRebasedEntryV1.new (entryKey : String) (implementationDigest : Hash) :
    Except FallbackRecordErrorV1 FallbackRebasedEntryV1 :=
  if h : validEntryKey entryKey then .ok ⟨entryKey, implementationDigest, h⟩
  else .error (.invalidField .entryKey)

def validRebased (rebased : List FallbackRebasedEntryV1) : Bool :=
  decide (rebased.length ≤ 32) && strictlySorted (rebased.map FallbackRebasedEntryV1.entryKey)

structure FallbackDeclaredPayloadV1 where
  scope : String
  policyDigest : Hash
  previousPolicyDigest : Option Hash
  rebased : List FallbackRebasedEntryV1
  valid : textWithin scope 128 && validRebased rebased

def FallbackDeclaredPayloadV1.new (scope : String) (policyDigest : Hash) (previousPolicyDigest : Option Hash)
    (rebased : List FallbackRebasedEntryV1) : Except FallbackRecordErrorV1 FallbackDeclaredPayloadV1 :=
  if hscope : textWithin scope 128 then
    if hrebased : validRebased rebased then
      .ok ⟨scope, policyDigest, previousPolicyDigest, rebased, by rw [hscope, hrebased]; rfl⟩
    else .error (.invalidField .rebased)
  else .error (.invalidField .scope)

def FallbackDeclaredPayloadV1.forPolicy (policy : DomainFallbackPolicyV1) (rebased : List FallbackRebasedEntryV1) :
    Except FallbackRecordErrorV1 FallbackDeclaredPayloadV1 :=
  FallbackDeclaredPayloadV1.new policy.scope policy.policyDigest policy.previousPolicyDigest rebased

structure FallbackSkippedCandidateV1 where
  implementationDigest : Hash
  reason : FallbackSkipReasonV1

/-- The host's cause code and the origin of an activation. -/
structure FallbackTriggerBasisV1 where
  cause : Nat
  origin : FallbackActivationOriginV1

/-- The fields of an activation payload before their check. -/
structure FallbackActivatedInputV1 where
  scope : String
  policyDigest : Hash
  entryKey : String
  closingTenureOrdinal : Nat
  fromKey : ImplementationKeyV1
  toKey : ImplementationKeyV1
  skipped : List FallbackSkippedCandidateV1
  triggerCode : FallbackTriggerCodeV1
  triggerBasis : FallbackTriggerBasisV1
  activationOrdinal : Nat

/-- The payload of an activation Event. -/
structure FallbackActivatedPayloadV1 where
  asInput : FallbackActivatedInputV1
  valid : textWithin asInput.scope 128 && validEntryKey asInput.entryKey && decide (asInput.skipped.length ≤ 2) &&
    decide (asInput.fromKey.pluginId ≠ asInput.toKey.pluginId)

def FallbackActivatedPayloadV1.new (input : FallbackActivatedInputV1) :
    Except FallbackRecordErrorV1 FallbackActivatedPayloadV1 :=
  if hscope : textWithin input.scope 128 then
    if hkey : validEntryKey input.entryKey then
      if hskipped : input.skipped.length ≤ 2 then
        if hswitched : input.fromKey.pluginId ≠ input.toKey.pluginId then
          .ok ⟨input, by simp [hscope, hkey, hskipped, hswitched]⟩
        else .error (.invalidField .implementation)
      else .error (.invalidField .skipped)
    else .error (.invalidField .entryKey)
  else .error (.invalidField .scope)

/-! ## The codec -/

/-- The conformance sets a declaration freezes: Stable profile digests by entry key. -/
structure FallbackConformanceSetsV1 where
  sets : Table String (Finset Hash)

/-- The preferred CBOR forms and BLAKE3 digests of the records. -/
structure FallbackCodecV1 where
  blake3 : CanonicalBytes → Hash
  implementationDigest : ImplementationKeyV1 → Hash
  conformanceDigest : FallbackConformanceSetsV1 → Hash
  decodePolicy : CanonicalBytes → Except FallbackRecordErrorV1 DomainFallbackPolicyV1
  encodeDeclared : FallbackDeclaredPayloadV1 → CanonicalBytes
  decodeDeclared : CanonicalBytes → Except FallbackRecordErrorV1 FallbackDeclaredPayloadV1
  encodeActivated : FallbackActivatedPayloadV1 → CanonicalBytes
  decodeActivated : CanonicalBytes → Except FallbackRecordErrorV1 FallbackActivatedPayloadV1

end Piglor
