/-
RCF1 frontiers: the record with its unknown-edge coordinates and owner frontiers, the validation of its
fields and the sealing that computes its digest under the size bound.
-/
import Mathlib.Order.WithBot
import PiglorProofs.Counterfactual.Dependency
import PiglorProofs.Counterfactual.Plan

namespace Piglor.Counterfactual

def maxRecomputationFrontierBytes : Nat := 64 * 1024 * 1024

def maxUnknownEdgeCoordinates : Nat := 65536

def maxCauseDigests : Nat := 4096

inductive FrontierArtifactErrorV1 where
  | invalidEncoding
  | unsupportedVersion
  | unknownEnum
  | fieldOutOfBounds
  | nonCanonicalOrder
  | duplicateIdentity
  | frontierOutOfRange
  | priorGenerationMismatch
  | digestMismatch
deriving DecidableEq

/-- A required edge that the graph does not have. -/
structure UnknownEdgeCoordinateV1 where
  consumer : DependencyNodeV1
  missingSourceDigest : Option Hash
deriving DecidableEq

namespace UnknownEdgeCoordinateV1

/-- The missing source in the order of the record, an unidentified one first. -/
def source (edge : UnknownEdgeCoordinateV1) : WithBot Hash := edge.missingSourceDigest

def fields (edge : UnknownEdgeCoordinateV1) : DependencyNodeV1 ×ₗ WithBot Hash := toLex (edge.consumer, edge.source)

theorem fields_injective : Function.Injective fields := by
  rintro ⟨consumer, source⟩ ⟨consumer', source'⟩ h
  obtain ⟨hconsumer, hsource⟩ := Prod.mk.inj (toLex.injective h)
  exact congrArg₂ mk hconsumer hsource

/-- Entries order by consumer and then by missing source. -/
instance : LinearOrder UnknownEdgeCoordinateV1 := LinearOrder.lift' fields fields_injective

theorem lt_iff {a b : UnknownEdgeCoordinateV1} :
    a < b ↔ a.consumer < b.consumer ∨ a.consumer = b.consumer ∧ a.source < b.source :=
  Prod.Lex.lt_iff

end UnknownEdgeCoordinateV1

structure OwnerFrontierV1 where
  ownerId : String
  earliestTick : Nat
  earliestSchedulerPosition : Nat
  earliestOutputOrdinal : Nat
  causeNodeDigests : List Hash

structure RecomputationFrontierV1 where
  frontierId : Identifier
  planDigest : Hash
  parentCutDigest : Hash
  dependencyGraphDigest : Hash
  interventionSeedNodes : List DependencyNodeV1
  affectedNodes : List DependencyNodeV1
  ownerFrontiers : List OwnerFrontierV1
  globalFrontierTick : Nat
  globalFrontierSchedulerPosition : Nat
  unknownEdgePolicy : UnknownEdgePolicyV1
  unknownEdgeCoordinates : List UnknownEdgeCoordinateV1
  endogenousSuffixEndTick : Nat
  classificationBundleDigest : Hash
  provenanceDigest : Hash
  frontierDigest : Hash

/-! ## Validation -/

/-- Between one and `maximum` items. -/
def counted (length maximum : Nat) : Bool := decide (length ≠ 0) && decide (length ≤ maximum)

/-- Accept only strictly ascending lists. -/
def ordered {α κ : Type} [LinearOrder κ] (key : α → κ) (values : List α) : Except FrontierArtifactErrorV1 Unit :=
  Ascending.check .duplicateIdentity .nonCanonicalOrder key values

def UnknownEdgeCoordinateV1.isValid (edge : UnknownEdgeCoordinateV1) : Bool :=
  edge.consumer.isValidCoordinate && edge.missingSourceDigest.all nonzero

namespace OwnerFrontierV1

def isValid (owner : OwnerFrontierV1) : Bool :=
  counted owner.ownerId.utf8ByteSize 128 && counted owner.causeNodeDigests.length maxCauseDigests &&
    owner.causeNodeDigests.all nonzero

/-- The key owner frontiers are compared by. -/
def coordinate (owner : OwnerFrontierV1) : Nat ×ₗ Nat ×ₗ String ×ₗ Nat :=
  toLex (owner.earliestTick, toLex (owner.earliestSchedulerPosition, toLex (owner.ownerId, owner.earliestOutputOrdinal)))

def position (owner : OwnerFrontierV1) : Nat ×ₗ Nat := toLex (owner.earliestTick, owner.earliestSchedulerPosition)

def value (owner : OwnerFrontierV1) : Value :=
  .array [.text owner.ownerId, .integer owner.earliestTick, .integer owner.earliestSchedulerPosition,
    .integer owner.earliestOutputOrdinal, .array (owner.causeNodeDigests.map hashValue)]

end OwnerFrontierV1

/-- Each owner once, with its causes ascending. -/
def validateOwners : List String → List OwnerFrontierV1 → Except FrontierArtifactErrorV1 Unit
  | _, [] => .ok ()
  | ownerIds, owner :: rest =>
    if owner.ownerId ∈ ownerIds then .error .duplicateIdentity
    else do
      ordered id owner.causeNodeDigests
      validateOwners (owner.ownerId :: ownerIds) rest

def validateOwnerFrontiers (owners : List OwnerFrontierV1) : Except FrontierArtifactErrorV1 Unit := do
  ordered OwnerFrontierV1.coordinate owners
  validateOwners [] owners

namespace RecomputationFrontierV1

variable (frontier : RecomputationFrontierV1)

def countsWithinBounds : Bool :=
  counted frontier.interventionSeedNodes.length 1024 && counted frontier.affectedNodes.length 1000000 &&
    counted frontier.ownerFrontiers.length 4096 &&
    decide (frontier.unknownEdgeCoordinates.length ≤ maxUnknownEdgeCoordinates)

def identifiersNonzero : Bool :=
  nonzero frontier.frontierId &&
    [frontier.planDigest, frontier.parentCutDigest, frontier.dependencyGraphDigest, frontier.classificationBundleDigest,
      frontier.provenanceDigest].all nonzero

def unknownEdgesContradictPolicy : Bool :=
  match frontier.unknownEdgePolicy with
  | .reject => !frontier.unknownEdgeCoordinates.isEmpty
  | .fullSuffixFromCut => frontier.unknownEdgeCoordinates.isEmpty

def validateRange : Except FrontierArtifactErrorV1 Unit :=
  let global := toLex (frontier.globalFrontierTick, frontier.globalFrontierSchedulerPosition)
  if frontier.endogenousSuffixEndTick < frontier.globalFrontierTick ∨
      frontier.ownerFrontiers.any fun owner => decide (owner.position < global) then .error .frontierOutOfRange
  else .ok ()

def validateFields : Except FrontierArtifactErrorV1 Unit :=
  if !frontier.countsWithinBounds || !frontier.identifiersNonzero ||
      !frontier.interventionSeedNodes.all DependencyNodeV1.isValidCoordinate ||
      !frontier.affectedNodes.all DependencyNodeV1.isValidCoordinate ||
      !frontier.ownerFrontiers.all OwnerFrontierV1.isValid ||
      !frontier.unknownEdgeCoordinates.all UnknownEdgeCoordinateV1.isValid ||
      frontier.unknownEdgesContradictPolicy then .error .fieldOutOfBounds
  else do
    ordered id frontier.interventionSeedNodes
    ordered id frontier.affectedNodes
    validateOwnerFrontiers frontier.ownerFrontiers
    ordered id frontier.unknownEdgeCoordinates
    frontier.validateRange

/-! ## Sealing -/

/-- Every field but the trailing digest. -/
def unsignedFields : List Value :=
  [.text "RCF1", .integer 1, identifierValue frontier.frontierId, hashValue frontier.planDigest,
    hashValue frontier.parentCutDigest, hashValue frontier.dependencyGraphDigest,
    .array (frontier.interventionSeedNodes.map DependencyNodeV1.value),
    .array (frontier.affectedNodes.map DependencyNodeV1.value),
    .array (frontier.ownerFrontiers.map OwnerFrontierV1.value), .integer frontier.globalFrontierTick,
    .integer frontier.globalFrontierSchedulerPosition, .integer frontier.unknownEdgePolicy.wireCode,
    .array (frontier.unknownEdgeCoordinates.map fun edge =>
      .array [edge.consumer.value, edge.missingSourceDigest.elim .null hashValue]),
    .integer frontier.endogenousSuffixEndTick, hashValue frontier.classificationBundleDigest,
    hashValue frontier.provenanceDigest]

/-- The size of the sealed record: the unsigned fields and a 34-byte digest field. -/
def signedLength : Nat := (encodeValue (.array frontier.unsignedFields)).length + 34

def sealRecord (blake3 : ByteHash) (frontier : RecomputationFrontierV1) :
    Except FrontierArtifactErrorV1 RecomputationFrontierV1 := do
  frontier.validateFields
  if frontier.signedLength > maxRecomputationFrontierBytes then .error .fieldOutOfBounds
  else .ok { frontier with
    frontierDigest := domainDigest blake3 "PiglorOS.RecomputationFrontier.v1"
      (encodeValue (.array frontier.unsignedFields)) }

end RecomputationFrontierV1

end Piglor.Counterfactual
