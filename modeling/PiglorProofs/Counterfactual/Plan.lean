/-
CFP1 plans: the record with every field its validation reads or its digest covers, and the validation
in the order of the source.
-/
import PiglorProofs.Counterfactual.Intervention
import PiglorProofs.Lib.Ascending

namespace Piglor.Counterfactual

/-- What a missing dependency edge does to the graph. -/
inductive UnknownEdgePolicyV1 where
  | reject
  | fullSuffixFromCut
deriving DecidableEq

def UnknownEdgePolicyV1.wireCode : UnknownEdgePolicyV1 → Nat
  | .reject => 0
  | .fullSuffixFromCut => 1

inductive ReplayClaimV1 where
  | exact
  | exactAuthoritativeWithRedactedViews
  | structuralOnly
  | unverifiableArtifactsMissing
  | incompatibleProfile
deriving DecidableEq

def ReplayClaimV1.code : ReplayClaimV1 → Nat
  | .exact => 0
  | .exactAuthoritativeWithRedactedViews => 1
  | .structuralOnly => 2
  | .unverifiableArtifactsMissing => 3
  | .incompatibleProfile => 4

inductive CounterfactualPlanContractErrorV1 where
  | invalidEncoding
  | unsupportedVersion
  | fieldOutOfBounds
  | unknownEnum
  | nonCanonicalOrder
  | duplicateIdentity
  | interventionBeforeCut
  | intervention (error : InterventionContractErrorV1)
  | digestMismatch
deriving DecidableEq

structure FrozenArtifactDescriptorV1 where
  schemaId : Nat
  artifactDigest : Hash
  authorizationDigest : Hash
  provenanceDigest : Hash

def FrozenArtifactDescriptorV1.key (descriptor : FrozenArtifactDescriptorV1) : Nat ×ₗ Hash :=
  toLex (descriptor.schemaId, descriptor.artifactDigest)

structure PlanExecutionProfileRefV1 where
  profileId : String
  semanticVersion : String
  profileDigest : Hash

structure PlanTrustPolicyRefV1 where
  policyId : String
  epoch : Nat
  snapshotDigest : Hash

structure CounterfactualPlanV1 where
  planId : Identifier
  roomId : String
  roomDigest : Hash
  parentTimelineId : Identifier
  parentCutSeq : Nat
  parentCutTick : Nat
  parentCutDigest : Hash
  firstTick : Nat
  horizonTick : Nat
  interventions : List InterventionV1
  exogenousDescriptors : List FrozenArtifactDescriptorV1
  fixedPolicyDescriptors : List FrozenArtifactDescriptorV1
  classificationBundleDigest : Hash
  unknownEdgePolicy : UnknownEdgePolicyV1
  executionProfile : PlanExecutionProfileRefV1
  trustPolicy : PlanTrustPolicyRefV1
  pluginCompositionDigest : Hash
  schedulerDigest : Hash
  numericProfileDigest : Hash
  budgetDigest : Hash
  failurePolicyDigest : Hash
  replayClaim : ReplayClaimV1
  previousPlanDigest : Option Hash
  planDigest : Hash

/-! ## Bounds -/

/-- Whether text starts with a drive letter. -/
def hasDriveLetterPrefix : List Char → Bool
  | letter :: colon :: _ => isAsciiAlphabetic letter && decide (colon = ':')
  | _ => false

/-- Bounded text that is not an operational path. -/
def planIdentifier (value : String) : Bool :=
  let text := value.toList
  boundedText value 128 && decide (text.head? ≠ some '/' ∧ text.head? ≠ some '~') && !hasDriveLetterPrefix text &&
    decide (Char.ofNat 92 ∉ text) && !(text.splitOn '/').any fun component => decide (component ∈ [['.'], ['.', '.']])

def FrozenArtifactDescriptorV1.isValid (descriptor : FrozenArtifactDescriptorV1) : Bool :=
  decide (descriptor.schemaId ≠ 0) && nonzero descriptor.artifactDigest && nonzero descriptor.authorizationDigest &&
    nonzero descriptor.provenanceDigest

namespace CounterfactualPlanV1

variable (plan : CounterfactualPlanV1)

def validIdentities : Bool :=
  planIdentifier plan.roomId && planIdentifier plan.executionProfile.profileId &&
    Counterfactual.semanticVersion plan.executionProfile.semanticVersion 64 none &&
    planIdentifier plan.trustPolicy.policyId && decide (plan.trustPolicy.epoch ≠ 0)

def nonzeroDigests : Bool :=
  nonzero plan.planId && nonzero plan.parentTimelineId &&
    [plan.roomDigest, plan.parentCutDigest, plan.classificationBundleDigest, plan.executionProfile.profileDigest,
      plan.trustPolicy.snapshotDigest, plan.pluginCompositionDigest, plan.schedulerDigest, plan.numericProfileDigest,
      plan.budgetDigest, plan.failurePolicyDigest].all nonzero &&
    plan.previousPlanDigest.all nonzero

/-- The first Tick follows the cut, as a 64-bit number, and does not pass the horizon. -/
def validTickRange : Bool :=
  decide (plan.parentCutTick + 1 < 2 ^ 64 ∧ plan.parentCutTick + 1 = plan.firstTick) &&
    decide (plan.firstTick ≤ plan.horizonTick)

def validDescriptorCounts : Bool :=
  decide (plan.exogenousDescriptors.length ≤ 65536) && decide (plan.fixedPolicyDescriptors.length ≤ 4096)

def validateBounds : Except CounterfactualPlanContractErrorV1 Unit :=
  if plan.validIdentities && plan.nonzeroDigests && plan.validTickRange && plan.validDescriptorCounts &&
      (plan.exogenousDescriptors ++ plan.fixedPolicyDescriptors).all FrozenArtifactDescriptorV1.isValid &&
      decide (plan.previousPlanDigest ≠ some plan.planDigest) then .ok ()
  else .error .fieldOutOfBounds

def validateInterventionWindow : Except CounterfactualPlanContractErrorV1 Unit :=
  if plan.interventions.any fun intervention => decide (intervention.effectiveTick < plan.firstTick) then
    .error .interventionBeforeCut
  else if plan.interventions.any fun intervention => decide (intervention.effectiveTick > plan.horizonTick) then
    .error .fieldOutOfBounds
  else .ok ()

def validateDescriptorOrder (descriptors : List FrozenArtifactDescriptorV1) :
    Except CounterfactualPlanContractErrorV1 Unit :=
  Ascending.check .duplicateIdentity .nonCanonicalOrder FrozenArtifactDescriptorV1.key descriptors

def validateDescriptors : Except CounterfactualPlanContractErrorV1 Unit := do
  validateDescriptorOrder plan.exogenousDescriptors
  validateDescriptorOrder plan.fixedPolicyDescriptors
  let exogenous := plan.exogenousDescriptors.map FrozenArtifactDescriptorV1.key
  if plan.fixedPolicyDescriptors.any fun descriptor => decide (descriptor.key ∈ exogenous) then
    .error .duplicateIdentity
  else .ok ()

/-! ## Digest -/

def encodeDescriptors (descriptors : List FrozenArtifactDescriptorV1) : Value :=
  .array (descriptors.map fun descriptor => .array [.integer descriptor.schemaId, hashValue descriptor.artifactDigest,
    hashValue descriptor.authorizationDigest, hashValue descriptor.provenanceDigest])

/-- Fields 0 through 24 of the record. -/
def bodyFields : Except CounterfactualPlanContractErrorV1 (List Value) := do
  let interventions ← (plan.interventions.mapM fun intervention : InterventionV1 =>
    intervention.toCanonicalCbor.map Value.bytes).mapError .intervention
  .ok [.text "CFP1", .integer 1, identifierValue plan.planId, .text plan.roomId, hashValue plan.roomDigest,
    identifierValue plan.parentTimelineId, .integer plan.parentCutSeq, .integer plan.parentCutTick,
    hashValue plan.parentCutDigest, .integer plan.firstTick, .integer plan.horizonTick, .array interventions,
    encodeDescriptors plan.exogenousDescriptors, encodeDescriptors plan.fixedPolicyDescriptors,
    hashValue plan.classificationBundleDigest, .integer plan.unknownEdgePolicy.wireCode,
    .array [.text plan.executionProfile.profileId, .text plan.executionProfile.semanticVersion,
      hashValue plan.executionProfile.profileDigest],
    .array [.text plan.trustPolicy.policyId, .integer plan.trustPolicy.epoch, hashValue plan.trustPolicy.snapshotDigest],
    hashValue plan.pluginCompositionDigest, hashValue plan.schedulerDigest, hashValue plan.numericProfileDigest,
    hashValue plan.budgetDigest, hashValue plan.failurePolicyDigest, .integer plan.replayClaim.code,
    plan.previousPlanDigest.elim .null hashValue]

def digest (blake3 : ByteHash) (plan : CounterfactualPlanV1) :
    Except CounterfactualPlanContractErrorV1 Hash := do
  let fields ← plan.bodyFields
  .ok (domainDigest blake3 "PiglorOS.CounterfactualPlan.v1" (encodeValue (.array fields)))

def validate (blake3 : ByteHash) (plan : CounterfactualPlanV1) :
    Except CounterfactualPlanContractErrorV1 Unit := do
  plan.validateBounds
  (validatePlanInterventionsV1 plan.interventions).mapError .intervention
  plan.validateInterventionWindow
  plan.validateDescriptors
  let digest ← plan.digest blake3
  if digest = plan.planDigest then .ok () else .error .digestMismatch

end CounterfactualPlanV1

end Piglor.Counterfactual
