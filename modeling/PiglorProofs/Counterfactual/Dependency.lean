/-
IDP1 edges: the node coordinate with its two orders, the edge record and its validation, and the order
of an edge list.
-/
import Mathlib.Data.String.Basic
import PiglorProofs.Counterfactual.Codec
import PiglorProofs.Lib.Ascending

namespace Piglor.Counterfactual

inductive DependencyClassV1 where
  | exogenousFrozen
  | interventionAssigned
  | endogenousRecomputed
  | fixedPolicy
  | presentationOnly
deriving DecidableEq

def DependencyClassV1.wireCode : DependencyClassV1 → Nat
  | .exogenousFrozen => 0
  | .interventionAssigned => 1
  | .endogenousRecomputed => 2
  | .fixedPolicy => 3
  | .presentationOnly => 4

structure DependencyNodeV1 where
  tick : Nat
  schedulerPosition : Nat
  ownerId : String
  outputOrdinal : Nat
  schemaId : Nat
  artifactDigest : Hash
deriving DecidableEq

namespace DependencyNodeV1

/-- The coordinate without schema and digest. -/
def coordinateKey (node : DependencyNodeV1) : Nat ×ₗ Nat ×ₗ String ×ₗ Nat :=
  toLex (node.tick, toLex (node.schedulerPosition, toLex (node.ownerId, node.outputOrdinal)))

/-- All fields, in declaration order. -/
def fields (node : DependencyNodeV1) : (Nat ×ₗ Nat ×ₗ String ×ₗ Nat) ×ₗ Nat ×ₗ Hash :=
  toLex (node.coordinateKey, toLex (node.schemaId, node.artifactDigest))

theorem fields_injective : Function.Injective fields := by
  rintro ⟨⟩ ⟨⟩ h
  simpa [fields, coordinateKey, and_assoc] using h

/-- The derived order compares the fields one after the other. -/
instance : LinearOrder DependencyNodeV1 := LinearOrder.lift' fields fields_injective

variable {a b : DependencyNodeV1}

/-- A smaller coordinate makes a smaller node. -/
theorem lt_of_coordinateKey_lt (h : a.coordinateKey < b.coordinateKey) : a < b :=
  Prod.Lex.lt_iff.mpr (.inl h)

theorem coordinateKey_le (h : a ≤ b) : a.coordinateKey ≤ b.coordinateKey := by
  rcases Prod.Lex.le_iff.mp (show a.fields ≤ b.fields from h) with hlt | ⟨heq, -⟩
  · exact hlt.le
  · exact heq.le

def isValidCoordinate (node : DependencyNodeV1) : Bool :=
  !node.ownerId.isEmpty && decide (node.ownerId.utf8ByteSize ≤ 128) && decide (node.schemaId ≠ 0) &&
    nonzero node.artifactDigest

def value (node : DependencyNodeV1) : Value :=
  .array [.integer node.tick, .integer node.schedulerPosition, .text node.ownerId, .integer node.outputOrdinal,
    .integer node.schemaId, hashValue node.artifactDigest]

end DependencyNodeV1

inductive InputDependencyContractErrorV1 where
  | invalidEncoding
  | unsupportedVersion
  | fieldOutOfBounds
  | unknownEnum
  | nonCanonicalOrder
  | duplicateIdentity
deriving DecidableEq

structure DependencyTickRangeV1 where
  firstTick : Nat
  lastTick : Nat
deriving DecidableEq

def DependencyTickRangeV1.covers (range : DependencyTickRangeV1) (sourceTick consumerTick : Nat) : Bool :=
  decide (range.firstTick ≤ sourceTick) && decide (consumerTick ≤ range.lastTick)

structure DependencyClassificationRuleV1 where
  ruleId : String
  ruleVersion : Nat
deriving DecidableEq

def DependencyClassificationRuleV1.isValid (rule : DependencyClassificationRuleV1) : Bool :=
  identifier rule.ruleId 128 && decide (rule.ruleVersion ≠ 0)

structure InputDependencyV1 where
  consumer : DependencyNodeV1
  source : DependencyNodeV1
  dependencyClass : DependencyClassV1
  tickRange : DependencyTickRangeV1
  authorizationDigest : Hash
  classificationRule : DependencyClassificationRuleV1
  provenanceDigest : Hash
deriving DecidableEq

namespace InputDependencyV1

def validate (dependency : InputDependencyV1) : Except InputDependencyContractErrorV1 Unit :=
  if !dependency.consumer.isValidCoordinate || !dependency.source.isValidCoordinate ||
      !dependency.tickRange.covers dependency.source.tick dependency.consumer.tick ||
      !nonzero dependency.authorizationDigest || !dependency.classificationRule.isValid ||
      !nonzero dependency.provenanceDigest then .error .fieldOutOfBounds
  else if dependency.source.coordinateKey < dependency.consumer.coordinateKey then .ok ()
  else .error .nonCanonicalOrder

def encode (dependency : InputDependencyV1) : Value :=
  .array [.text "IDP1", .integer 1, dependency.consumer.value, dependency.source.value,
    .integer dependency.dependencyClass.wireCode,
    .array [.integer dependency.tickRange.firstTick, .integer dependency.tickRange.lastTick],
    hashValue dependency.authorizationDigest,
    .array [.text dependency.classificationRule.ruleId, .integer dependency.classificationRule.ruleVersion],
    hashValue dependency.provenanceDigest]

/-- The IDP1 record digest. -/
def digest (blake3 : ByteHash) (dependency : InputDependencyV1) :
    Except InputDependencyContractErrorV1 Hash := do
  dependency.validate
  .ok (domainDigest blake3 "PiglorOS.InputDependency.v1" (encodeValue dependency.encode))

def edgeOrderKey (dependency : InputDependencyV1) : (Nat ×ₗ Nat ×ₗ String ×ₗ Nat) ×ₗ Hash :=
  toLex (dependency.consumer.coordinateKey, dependency.source.artifactDigest)

end InputDependencyV1

def validateInputDependencyListOrderV1 (dependencies : List InputDependencyV1) :
    Except InputDependencyContractErrorV1 Unit :=
  Ascending.check .duplicateIdentity .nonCanonicalOrder InputDependencyV1.edgeOrderKey dependencies

def validateInputDependencyOrderV1 (dependencies : List InputDependencyV1) :
    Except InputDependencyContractErrorV1 Unit := do
  dependencies.forM InputDependencyV1.validate
  validateInputDependencyListOrderV1 dependencies

end Piglor.Counterfactual
