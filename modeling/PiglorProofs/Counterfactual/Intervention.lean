/-
INT1 Interventions: the record, its validation and digest, and the validation of a plan's ordered list.
-/
import PiglorProofs.Counterfactual.Codec

namespace Piglor.Counterfactual

inductive InterventionContractErrorV1 where
  | invalidEncoding
  | unsupportedVersion
  | fieldOutOfBounds
  | unknownEnum
  | nonCanonicalOrder
  | duplicateIdentity
  | nonContiguousOrdinal
deriving DecidableEq

inductive InterventionOperationV1 where
  | assignValue
  | assignArtifact
deriving DecidableEq

def InterventionOperationV1.code : InterventionOperationV1 → Nat
  | .assignValue => 0
  | .assignArtifact => 1

structure InterventionV1 where
  interventionId : Identifier
  targetSchemaId : Nat
  targetEntityId : String
  targetField : String
  operation : InterventionOperationV1
  valueDigest : Hash
  effectiveTick : Nat
  ordinal : Nat
  principalId : String
  capability : String
  consentEpoch : Nat
  consentDecisionDigest : Hash
  rationale : String
  provenanceDigest : Hash

def maxInterventionsPerPlan : Nat := 1024

namespace InterventionV1

def validate (intervention : InterventionV1) : Except InterventionContractErrorV1 Unit :=
  if nonzero intervention.interventionId && decide (intervention.targetSchemaId ≠ 0) &&
      [intervention.valueDigest, intervention.consentDecisionDigest, intervention.provenanceDigest].all nonzero &&
      ([intervention.targetEntityId, intervention.targetField, intervention.principalId, intervention.capability].all
        fun value => boundedText value 128) &&
      boundedText intervention.rationale 4096 then .ok ()
  else .error .fieldOutOfBounds

def encode (intervention : InterventionV1) : Value :=
  .array [.text "INT1", .integer 1, identifierValue intervention.interventionId,
    .integer intervention.targetSchemaId, .text intervention.targetEntityId, .text intervention.targetField,
    .integer intervention.operation.code, hashValue intervention.valueDigest, .integer intervention.effectiveTick,
    .integer intervention.ordinal, .text intervention.principalId, .text intervention.capability,
    .integer intervention.consentEpoch, hashValue intervention.consentDecisionDigest, .text intervention.rationale,
    hashValue intervention.provenanceDigest]

def toCanonicalCbor (intervention : InterventionV1) : Except InterventionContractErrorV1 (List UInt8) := do
  intervention.validate
  .ok (encodeValue intervention.encode)

/-- The INT1 record digest. -/
def digest (blake3 : ByteHash) (intervention : InterventionV1) : Except InterventionContractErrorV1 Hash := do
  let bytes ← intervention.toCanonicalCbor
  .ok (domainDigest blake3 "PiglorOS.Intervention.v1" bytes)

def orderKey (intervention : InterventionV1) : Nat ×ₗ Nat ×ₗ Identifier :=
  toLex (intervention.effectiveTick, toLex (intervention.ordinal, intervention.interventionId))

end InterventionV1

/-- Ordinals count from zero within each effective Tick. -/
def validateContiguousOrdinals : Option Nat → Nat → List InterventionV1 → Except InterventionContractErrorV1 Unit
  | _, _, [] => .ok ()
  | previousTick, expectedOrdinal, intervention :: rest =>
    let expected := if previousTick ≠ some intervention.effectiveTick then 0 else expectedOrdinal
    if intervention.ordinal ≠ expected then .error .nonContiguousOrdinal
    else validateContiguousOrdinals (some intervention.effectiveTick) (expected + 1) rest

def validateUniqueIds (interventions : List InterventionV1) : Except InterventionContractErrorV1 Unit :=
  if (interventions.map InterventionV1.interventionId).Nodup then .ok () else .error .duplicateIdentity

def validatePlanInterventionsV1 (interventions : List InterventionV1) : Except InterventionContractErrorV1 Unit :=
  if interventions.isEmpty || decide (interventions.length > maxInterventionsPerPlan) then .error .fieldOutOfBounds
  else do
    interventions.forM InterventionV1.validate
    if ¬ interventions.IsChain fun left right => left.orderKey < right.orderKey then .error .nonCanonicalOrder
    else do
      validateContiguousOrdinals none 0 interventions
      validateUniqueIds interventions

end Piglor.Counterfactual
