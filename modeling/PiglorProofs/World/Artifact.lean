/-
WAL1 leaves (`world_artifact.rs`): the closed artifact kinds, the fields a leaf registers, the checks its
constructor makes of them, its preferred encoding and its content address.
-/
import PiglorProofs.Core.Wire
import PiglorProofs.Keys.Registry
import PiglorProofs.Authority.Evaluation

namespace Piglor.World

/-- `WorldArtifactKindV1`. -/
inductive WorldArtifactKindV1 where
  | outputPolicy
  | executableBudgetPolicy
  | retentionPolicy
  | retentionLease
  | baseConfiguration
  | executionProfile
  | audiencePolicy
  | schema
  | reducerImplementation
  | runtimeIdentity
  | pluginImplementationIdentity
  | keyDependencyEvidence
  | timelinePayload
  | optionalView
  | outputPolicyClosure
deriving DecidableEq, Inhabited

inductive WorldArtifactErrorV1 where
  | unsupportedValue
  | fieldOutOfBounds
  | invalidDependencyOrder
deriving DecidableEq

namespace WorldArtifactKindV1

def kindsByCode : List WorldArtifactKindV1 :=
  [.outputPolicy, .executableBudgetPolicy, .retentionPolicy, .retentionLease, .baseConfiguration, .executionProfile,
    .audiencePolicy, .schema, .reducerImplementation, .runtimeIdentity, .pluginImplementationIdentity,
    .keyDependencyEvidence, .timelinePayload, .optionalView, .outputPolicyClosure]

def code (kind : WorldArtifactKindV1) : Nat := kind.ctorIdx

def fromCode (code : Nat) : Except WorldArtifactErrorV1 WorldArtifactKindV1 :=
  match kindsByCode[code]? with
  | some kind => .ok kind
  | none => .error .unsupportedValue

theorem fromCode_code (kind : WorldArtifactKindV1) : fromCode kind.code = .ok kind := by cases kind <;> rfl

theorem code_lt (kind : WorldArtifactKindV1) : kind.code < 15 := by cases kind <;> decide

theorem code_injective {a b : WorldArtifactKindV1} (h : a.code = b.code) : a = b := by
  have hcode := fromCode_code a
  rw [h, fromCode_code] at hcode
  exact (Except.ok.inj hcode).symm

theorem exists_code {code : Nat} (h : code < 15) : ∃ kind : WorldArtifactKindV1, kind.code = code := by
  have hall : ∀ code < 15, ∃ kind ∈ kindsByCode, kind.code = code := by decide
  obtain ⟨kind, -, hkind⟩ := hall code h
  exact ⟨kind, hkind⟩

end WorldArtifactKindV1

inductive ArtifactDataClassV1 where
  | privateSubjectData
  | consentedSharedData
  | publicRecord
  | aggregateData
  | structuralAuditMetadata
deriving DecidableEq

inductive ArtifactOptionalityV1 where
  | required
  | optional
deriving DecidableEq

inductive ArtifactTransitionRuleV1 where
  | preserveExact
  | redactViews
  | retainStructure
  | remove
deriving DecidableEq

def dataClassCode : ArtifactDataClassV1 → UInt8
  | .privateSubjectData => 0
  | .consentedSharedData => 1
  | .publicRecord => 2
  | .aggregateData => 3
  | .structuralAuditMetadata => 4

def optionalityCode : ArtifactOptionalityV1 → UInt8
  | .required => 0
  | .optional => 1

def transitionCode : ArtifactTransitionRuleV1 → UInt8
  | .preserveExact => 0
  | .redactViews => 1
  | .retainStructure => 2
  | .remove => 3

/-- `WorldArtifactKeyDependencyV1`; the owner is 32 raw bytes. -/
structure WorldArtifactKeyDependencyV1 where
  role : KeyRoleV1
  identityDigest : Hash
  owner : BitVec 256
deriving DecidableEq

namespace WorldArtifactKeyDependencyV1

/-- The derived order: role, then identity, then owner. -/
def Before (a b : WorldArtifactKeyDependencyV1) : Prop :=
  a.role.code < b.role.code ∨ a.role = b.role ∧ (a.identityDigest.toNat < b.identityDigest.toNat ∨
    a.identityDigest = b.identityDigest ∧ a.owner.toNat < b.owner.toNat)

instance (a b : WorldArtifactKeyDependencyV1) : Decidable (a.Before b) := by
  unfold Before
  infer_instance

end WorldArtifactKeyDependencyV1

structure WorldArtifactLeafInputV1 where
  scope : Hash
  kind : WorldArtifactKindV1
  nativeDigest : Hash
  nativeByteLength : Nat
  owner : BitVec 256
  dataClass : ArtifactDataClassV1
  optionality : ArtifactOptionalityV1
  transition : ArtifactTransitionRuleV1
  sourceLeaseHash : Hash
  keyDependencies : List WorldArtifactKeyDependencyV1
  childNodeHashes : List Hash
deriving DecidableEq

/-- The checks of `WorldArtifactLeafV1::new`. -/
def WorldArtifactLeafInputV1.check (input : WorldArtifactLeafInputV1) : Except WorldArtifactErrorV1 Unit :=
  if input.scope = 0 ∨ input.nativeDigest = 0 ∨ input.sourceLeaseHash = 0 ∨ 16 < input.keyDependencies.length ∨
      256 < input.childNodeHashes.length ∨ input.keyDependencies.any (fun key => key.identityDigest == 0) ∨
      input.childNodeHashes.contains 0 then
    .error .fieldOutOfBounds
  else if ¬ input.keyDependencies.IsChain (fun a b => a.Before b) ∨
      ¬ input.childNodeHashes.IsChain (fun a b => a.toNat < b.toNat) then
    .error .invalidDependencyOrder
  else .ok ()

/-- A leaf its constructor accepted. -/
structure WorldArtifactLeafV1 where
  input : WorldArtifactLeafInputV1
  checked : input.check = .ok ()
deriving DecidableEq

namespace WorldArtifactLeafV1

def toCanonicalCbor (leaf : WorldArtifactLeafV1) : CanonicalBytes :=
  [0x8d, 0x44] ++ Authority.textBytes "WAL1" ++ [1] ++ encodeHash leaf.input.scope ++ Cbor.head 0 leaf.input.kind.code ++
    encodeHash leaf.input.nativeDigest ++ Cbor.head 0 leaf.input.nativeByteLength ++ encodeHash leaf.input.owner ++
    [dataClassCode leaf.input.dataClass, optionalityCode leaf.input.optionality, transitionCode leaf.input.transition] ++
    encodeHash leaf.input.sourceLeaseHash ++ Cbor.head 4 leaf.input.keyDependencies.length ++
    (leaf.input.keyDependencies.flatMap fun key =>
      [0x83, key.role.code] ++ encodeHash key.identityDigest ++ encodeHash key.owner) ++
    Cbor.head 4 leaf.input.childNodeHashes.length ++ leaf.input.childNodeHashes.flatMap encodeHash

def digest (blake3 : ByteHash) (leaf : WorldArtifactLeafV1) : Hash :=
  Authority.underDomain blake3 "pigloros.world-evidence.artifact-leaf.v1" leaf.toCanonicalCbor

theorem nativeDigest_ne_zero (leaf : WorldArtifactLeafV1) : leaf.input.nativeDigest ≠ 0 := by
  intro hzero
  have hchecked := leaf.checked
  rw [WorldArtifactLeafInputV1.check, if_pos (.inr (.inl hzero))] at hchecked
  cases hchecked

end WorldArtifactLeafV1

end Piglor.World
