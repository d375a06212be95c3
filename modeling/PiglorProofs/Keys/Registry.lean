/-
The key registry (`pos-core` key_registry.rs): records, active identities, tombstones, high-water
epochs and pending destructions, the load-time validation of a snapshot, the check of a durable
replacement, registration, the two steps of a destruction, and the three authorizations. The read
guard of the ordinary validation never refuses, so its checkpoints are left out. Every fault of a
snapshot is the one error, so a loop over a map is a test of its rows in any order, and the set of
reserved digests refuses a repeat exactly when the collected digests have a duplicate.
-/
import Mathlib.Order.Lattice.Nat
import PiglorProofs.Core.Types
import PiglorProofs.Lib.Table
import PiglorProofs.Lib.Checked

namespace Piglor

/-! ## Roles and identities -/

namespace KeyRoleV1

def code : KeyRoleV1 → UInt8
  | .subjectDataEncryption => 0
  | .subjectAttributionSigning => 1
  | .timelineIntegritySigning => 2
  | .pluginReleaseSigning => 3
  | .exportRecipientEncryption => 4
  | .conformanceEvaluatorSigning => 5
  | .conformanceReportSigning => 6

def isSigning : KeyRoleV1 → Bool
  | .subjectAttributionSigning | .timelineIntegritySigning | .pluginReleaseSigning
  | .conformanceEvaluatorSigning | .conformanceReportSigning => true
  | _ => false

def isEncryption : KeyRoleV1 → Bool
  | .subjectDataEncryption | .exportRecipientEncryption => true
  | _ => false

end KeyRoleV1

/-- `OwnerIdV1::validate_text`. -/
def OwnerIdV1.validateText (value : String) : Bool :=
  decide (1 ≤ value.utf8ByteSize) && decide (value.utf8ByteSize ≤ 128)

/-- The owner and role an epoch counts within. -/
abbrev KeyScope := OwnerIdV1 × KeyRoleV1

def KeyIdentityV1.scope (identity : KeyIdentityV1) : KeyScope := (identity.ownerId, identity.role)

def KeyScope.identity (scope : KeyScope) (epoch : Nat) : KeyIdentityV1 := ⟨scope.1, scope.2, epoch⟩

inductive KeyRegistryErrorV1 where
  | invalidEpoch
  | staleEpoch (role : KeyRoleV1) (requested active : Nat)
  | identityConflict
  | materialReuse
  | missingPublicVerificationKey
  | unexpectedPublicVerificationKey
  | signingRoleRequired
  | encryptionRoleRequired
  | destroyed
  | notFound
  | inactiveKey
  | signingKeyMismatch
  | encryptionKeyMismatch
  | historicalDecryptionRoleRequired
  | registryUnavailable
  | invalidState
  | materialDigestMismatch
  | destructionAuthorizationMismatch
  | destructionPending
  | destructionNotPending
  | deletionReceiptMismatch
deriving DecidableEq

abbrev RegistryResult := Except KeyRegistryErrorV1

def KeyIdentityV1.validateHistoricalDecryption (identity : KeyIdentityV1) : RegistryResult Unit :=
  if identity.epoch = 0 then .error .invalidEpoch
  else match identity.role with
    | .subjectDataEncryption | .exportRecipientEncryption => .ok ()
    | _ => .error .historicalDecryptionRoleRequired

namespace KeyRegistry

/-! ## Rows -/

structure KeyRegistrationV1 where
  identity : KeyIdentityV1
  privateMaterialDigest : Hash
  publicVerificationKey : Option PublicKey

/-- The digest is absent after destruction. -/
structure KeyRecordV1 where
  identity : KeyIdentityV1
  privateMaterialDigest : Option Hash
  publicVerificationKey : Option PublicKey

structure KeyTombstoneV1 where
  identity : KeyIdentityV1
  destroyedMaterialDigest : Hash
  destructionDigest : Hash
  deletionReceipt : Hash
deriving DecidableEq

structure KeyDestructionRequestV1 where
  identity : KeyIdentityV1
  expectedMaterialDigest : Hash
  authorizationDigest : Hash
deriving DecidableEq

inductive KeyRegistrationOutcomeV1 where
  | registered
  | alreadyRegistered
deriving DecidableEq

inductive KeyDestructionBeginOutcomeV1 where
  | started
  | alreadyPending
  | alreadyDestroyed (tombstone : KeyTombstoneV1)
deriving DecidableEq

inductive KeyDestructionOutcomeV1 where
  | destroyed (tombstone : KeyTombstoneV1)
  | alreadyDestroyed (tombstone : KeyTombstoneV1)
deriving DecidableEq

structure KeyRegistryStateV1 where
  records : Table KeyIdentityV1 KeyRecordV1
  active : Table KeyScope KeyIdentityV1
  tombstones : Table KeyIdentityV1 KeyTombstoneV1
  highestEpoch : Table KeyScope Nat
  pendingDestructions : Table KeyIdentityV1 KeyDestructionRequestV1

/-! ## Digests -/

def deletionReceipt (blake3 : ByteHash) (request : KeyDestructionRequestV1) : Hash :=
  blake3 ("pigloros/key-deletion-receipt/v1".toUTF8.data.toList ++ request.identity.ownerId.text.toUTF8.data.toList ++
    [request.identity.role.code] ++ beBytes 8 request.identity.epoch ++ hashBytes request.expectedMaterialDigest ++
    hashBytes request.authorizationDigest)

def destructionDigest (blake3 : ByteHash) (request : KeyDestructionRequestV1) : Hash :=
  blake3 ("pigloros/key-destruction/v1".toUTF8.data.toList ++ beBytes 4 request.identity.ownerId.text.utf8ByteSize ++
    request.identity.ownerId.text.toUTF8.data.toList ++ [request.identity.role.code] ++
    beBytes 8 request.identity.epoch ++ hashBytes request.expectedMaterialDigest ++
    hashBytes request.authorizationDigest)

def validateRegistration (registration : KeyRegistrationV1) : RegistryResult Unit :=
  if registration.identity.epoch = 0 then .error .invalidEpoch
  else if registration.identity.role.isSigning && registration.publicVerificationKey.isNone then
    .error .missingPublicVerificationKey
  else if registration.identity.role.isEncryption && registration.publicVerificationKey.isSome then
    .error .unexpectedPublicVerificationKey
  else .ok ()

namespace KeyRegistryStateV1

variable (s : KeyRegistryStateV1)

def new : KeyRegistryStateV1 := ⟨∅, ∅, ∅, ∅, ∅⟩

/-! ## Validation -/

def validateRecords : Bool :=
  s.records.all fun identity record =>
    decide (record.identity = identity) &&
    (OwnerIdV1.validateText identity.ownerId.text && decide (identity.epoch ≠ 0)) &&
    identity.role.isSigning == record.publicVerificationKey.isSome &&
    (s.highestEpoch.lookup identity.scope).isSome &&
    (record.privateMaterialDigest.isSome || (s.tombstones.lookup identity).isSome)

def validatePendingDestructions : Bool :=
  s.pendingDestructions.all fun identity request => match s.records.lookup identity with
    | none => false
    | some record =>
      decide (request.identity = identity) &&
      decide (record.privateMaterialDigest = some request.expectedMaterialDigest) &&
      (s.tombstones.lookup identity).isNone &&
      decide (s.active.lookup identity.scope ≠ some identity)

/-- The greatest recorded epoch of a scope. -/
def maximumEpoch (scope : KeyScope) : WithBot Nat :=
  (s.records.rows (fun identity _ => decide (identity.scope = scope)) fun identity _ => WithBot.some identity.epoch).sup

def validateHighWaterMaxima : Bool :=
  s.highestEpoch.all fun scope (highestEpoch : Nat) => decide (s.maximumEpoch scope = WithBot.some highestEpoch)

def validateActive : Bool :=
  s.active.all fun scope identity =>
    OwnerIdV1.validateText scope.1.text &&
    decide (identity.role = scope.2) &&
    decide (identity.ownerId = scope.1) &&
    (s.tombstones.lookup identity).isNone &&
    (s.records.lookup identity).isSome &&
    decide (s.highestEpoch.lookup scope = some identity.epoch)

def validateLatestEpochs : Bool :=
  s.highestEpoch.all fun scope highestEpoch =>
    let identity := scope.identity highestEpoch
    if (s.tombstones.lookup identity).isNone && (s.pendingDestructions.lookup identity).isNone then
      decide (s.active.lookup scope = some identity)
    else true

def validateTombstones : Bool :=
  s.tombstones.all fun identity tombstone => match s.records.lookup identity with
    | none => false
    | some record => decide (tombstone.identity = identity) && record.privateMaterialDigest.isNone

/-- The digests the validation reserves: of the live records, then of the tombstones. -/
def reservedMaterial : Multiset Hash :=
  s.records.collect (fun _ record => record.privateMaterialDigest) +
    s.tombstones.collect fun _ tombstone => some tombstone.destroyedMaterialDigest

def validate : RegistryResult Unit :=
  if s.validateRecords && s.validatePendingDestructions && s.validateHighWaterMaxima && s.validateActive &&
      s.validateLatestEpochs && s.validateTombstones && decide s.reservedMaterial.Nodup then .ok ()
  else .error .invalidState

/-- A record of the next state that the previous one does not have. -/
def validateNewRecord (s next : KeyRegistryStateV1) (identity : KeyIdentityV1) : Bool :=
  (s.records.lookup identity).isSome ||
    ((next.tombstones.lookup identity).isNone && (next.pendingDestructions.lookup identity).isNone &&
      (s.highestEpoch.lookup identity.scope).all fun highest => decide (highest < identity.epoch))

/-- What the next state makes of a record. -/
def validateRetainedRecord (s next : KeyRegistryStateV1) (identity : KeyIdentityV1) (previous : KeyRecordV1) : Bool :=
  match next.records.lookup identity with
  | none => false
  | some current =>
    decide (current.identity = previous.identity) &&
    decide (current.publicVerificationKey = previous.publicVerificationKey) &&
    match previous.privateMaterialDigest, current.privateMaterialDigest with
    | some previousDigest, some currentDigest => decide (previousDigest = currentDigest)
    | none, some _ => false
    | some _, none => (s.pendingDestructions.lookup identity).isSome
    | none, none => decide (next.tombstones.lookup identity = s.tombstones.lookup identity)

/-- What the next state makes of a pending destruction: still pending, or finalized as requested. -/
def validatePendingRequest (blake3 : ByteHash) (next : KeyRegistryStateV1) (identity : KeyIdentityV1)
    (request : KeyDestructionRequestV1) : Bool :=
  decide (next.pendingDestructions.lookup identity = some request) ||
    match next.tombstones.lookup identity with
    | none => false
    | some tombstone =>
      decide (tombstone.destroyedMaterialDigest = request.expectedMaterialDigest) &&
      decide (tombstone.destructionDigest = KeyRegistry.destructionDigest blake3 request) &&
      decide (tombstone.deletionReceipt = KeyRegistry.deletionReceipt blake3 request)

def validateReplacement (blake3 : ByteHash) (next : KeyRegistryStateV1) : RegistryResult Unit := do
  s.validate
  next.validate
  if (next.records.all fun identity _ => s.validateNewRecord next identity) &&
      (s.records.all fun identity previous => s.validateRetainedRecord next identity previous) &&
      s.pendingDestructions.all (validatePendingRequest blake3 next) then .ok ()
  else .error .invalidState

/-! ## Operations -/

/-- The result of an operation and the registry it leaves. -/
abbrev Effect (α : Type) := RegistryResult α × KeyRegistryStateV1

/-- Run an effect when the checks pass; a refusal leaves the registry as it is. -/
def after {α β : Type} (s : KeyRegistryStateV1) (checks : RegistryResult β) (effect : β → Effect α) :
    Effect α :=
  match checks with
  | .error e => (.error e, s)
  | .ok b => effect b

def materialIsReserved (digest : Hash) : Bool :=
  (s.records.any fun _ record => decide (record.privateMaterialDigest = some digest)) ||
    s.tombstones.any fun _ tombstone => decide (tombstone.destroyedMaterialDigest = digest)

/-- An identity whose destruction has begun is refused. -/
def refuseDestroyed (identity : KeyIdentityV1) : RegistryResult Unit :=
  if (s.tombstones.lookup identity).isSome then .error .destroyed
  else if (s.pendingDestructions.lookup identity).isSome then .error .destructionPending
  else .ok ()

/-- An epoch below the scope's high-water mark is refused. -/
def refuseStale (identity : KeyIdentityV1) : RegistryResult Unit :=
  match s.highestEpoch.lookup identity.scope with
  | some highest =>
    if highest > identity.epoch then .error (.staleEpoch identity.role identity.epoch highest) else .ok ()
  | none => .ok ()

/-- The checks of a registration: whether there is already an exact record. -/
def checkRegistration (registration : KeyRegistrationV1) : RegistryResult KeyRegistrationOutcomeV1 := do
  s.validate
  validateRegistration registration
  s.refuseDestroyed registration.identity
  s.refuseStale registration.identity
  match s.records.lookup registration.identity with
  | some existing =>
    if existing.privateMaterialDigest = some registration.privateMaterialDigest ∧
        existing.publicVerificationKey = registration.publicVerificationKey then .ok .alreadyRegistered
    else .error .identityConflict
  | none =>
    if s.materialIsReserved registration.privateMaterialDigest then .error .materialReuse else .ok .registered

/-- The registry with a new record, active at a new high-water epoch. -/
def insertKey (registration : KeyRegistrationV1) : KeyRegistryStateV1 :=
  let identity := registration.identity
  { s with
    records := s.records.insert identity
      ⟨identity, some registration.privateMaterialDigest, registration.publicVerificationKey⟩
    active := s.active.insert identity.scope identity
    highestEpoch := s.highestEpoch.insert identity.scope identity.epoch }

def registerKey (registration : KeyRegistrationV1) : Effect KeyRegistrationOutcomeV1 :=
  s.after (s.checkRegistration registration) fun
    | .alreadyRegistered => (.ok .alreadyRegistered, s)
    | .registered => (.ok .registered, s.insertKey registration)

/-- Epoch zero is reserved. -/
def refuseReserved (identity : KeyIdentityV1) : RegistryResult Unit :=
  if identity.epoch = 0 then .error .invalidEpoch else .ok ()

/-- The checks of a destruction request: an answer when it was recorded before. -/
def checkDestruction (blake3 : ByteHash) (request : KeyDestructionRequestV1) :
    RegistryResult KeyDestructionBeginOutcomeV1 := do
  refuseReserved request.identity
  s.validate
  match s.tombstones.lookup request.identity with
  | some tombstone =>
    if tombstone.destroyedMaterialDigest ≠ request.expectedMaterialDigest then .error .materialDigestMismatch
    else if tombstone.destructionDigest ≠ KeyRegistry.destructionDigest blake3 request then
      .error .destructionAuthorizationMismatch
    else if tombstone.deletionReceipt ≠ KeyRegistry.deletionReceipt blake3 request then
      .error .deletionReceiptMismatch
    else .ok (.alreadyDestroyed tombstone)
  | none => match s.pendingDestructions.lookup request.identity with
    | some pending =>
      if pending ≠ request then .error .destructionAuthorizationMismatch else .ok .alreadyPending
    | none => match s.records.lookup request.identity with
      | none => .error .notFound
      | some record =>
        if record.privateMaterialDigest ≠ some request.expectedMaterialDigest then .error .materialDigestMismatch
        else .ok .started

/-- The registry with a pending request; an active identity is revoked. -/
def markPending (request : KeyDestructionRequestV1) : KeyRegistryStateV1 :=
  let identity := request.identity
  { s with
    pendingDestructions := s.pendingDestructions.insert identity request
    active := if s.active.lookup identity.scope = some identity then s.active.erase identity.scope else s.active }

def beginKeyDestruction (blake3 : ByteHash) (request : KeyDestructionRequestV1) :
    Effect KeyDestructionBeginOutcomeV1 :=
  s.after (s.checkDestruction blake3 request) fun
    | .started => (.ok .started, s.markPending request)
    | outcome => (.ok outcome, s)

/-- The checks of a finalization: the tombstone of an earlier one, or the record to destroy. -/
def checkCompletion (blake3 : ByteHash) (request : KeyDestructionRequestV1)
    (receipt : Hash) : RegistryResult (KeyTombstoneV1 ⊕ KeyRecordV1) := do
  refuseReserved request.identity
  s.validate
  match s.tombstones.lookup request.identity with
  | some tombstone =>
    if tombstone.destroyedMaterialDigest ≠ request.expectedMaterialDigest then .error .materialDigestMismatch
    else if tombstone.destructionDigest ≠ KeyRegistry.destructionDigest blake3 request ∨
        tombstone.deletionReceipt ≠ receipt then .error .destructionAuthorizationMismatch
    else .ok (.inl tombstone)
  | none =>
    if s.pendingDestructions.lookup request.identity ≠ some request then
      if (s.pendingDestructions.lookup request.identity).isSome then .error .destructionAuthorizationMismatch
      else .error .destructionNotPending
    else if receipt ≠ KeyRegistry.deletionReceipt blake3 request then .error .deletionReceiptMismatch
    else match s.records.lookup request.identity with
      | none => .error .invalidState
      | some record => .ok (.inr record)

def tombstoneOf (blake3 : ByteHash) (request : KeyDestructionRequestV1) (receipt : Hash) : KeyTombstoneV1 :=
  ⟨request.identity, request.expectedMaterialDigest, KeyRegistry.destructionDigest blake3 request, receipt⟩

def destroy (record : KeyRecordV1) (tombstone : KeyTombstoneV1) (identity : KeyIdentityV1) :
    KeyRegistryStateV1 :=
  { s with
    records := s.records.insert identity { record with privateMaterialDigest := none }
    pendingDestructions := s.pendingDestructions.erase identity
    tombstones := s.tombstones.insert identity tombstone }

def completeKeyDestruction (blake3 : ByteHash) (request : KeyDestructionRequestV1)
    (receipt : Hash) : Effect KeyDestructionOutcomeV1 :=
  s.after (s.checkCompletion blake3 request receipt) fun
    | .inl tombstone => (.ok (.alreadyDestroyed tombstone), s)
    | .inr record =>
      let tombstone := tombstoneOf blake3 request receipt
      (.ok (.destroyed tombstone), s.destroy record tombstone request.identity)

/-! ## Authorizations -/

def liveRecord (identity : KeyIdentityV1) : RegistryResult KeyRecordV1 := do
  s.validate.mapError fun _ => .registryUnavailable
  let some record := s.records.lookup identity | .error .notFound
  s.refuseDestroyed identity
  .ok record

def activeRecord (identity : KeyIdentityV1) : RegistryResult KeyRecordV1 := do
  let record ← s.liveRecord identity
  match s.active.lookup identity.scope with
  | none => .error .inactiveKey
  | some activeIdentity => if activeIdentity ≠ identity then .error .inactiveKey else .ok record

def withSigningAuthorization {α : Type} (s : KeyRegistryStateV1) (identity : KeyIdentityV1)
    (privateMaterialDigest : Hash) (publicVerificationKey : PublicKey) (operation : Unit → α) :
    RegistryResult α := do
  refuseReserved identity
  if !identity.role.isSigning then .error .signingRoleRequired
  else
    let record ← s.activeRecord identity
    if record.privateMaterialDigest ≠ some privateMaterialDigest ∨
        record.publicVerificationKey ≠ some publicVerificationKey then .error .signingKeyMismatch
    else .ok (operation ())

def withEncryptionAuthorization {α : Type} (s : KeyRegistryStateV1) (identity : KeyIdentityV1)
    (privateMaterialDigest : Hash) (operation : Unit → α) : RegistryResult α := do
  refuseReserved identity
  if !identity.role.isEncryption then .error .encryptionRoleRequired
  else
    let record ← s.activeRecord identity
    if record.privateMaterialDigest ≠ some privateMaterialDigest then .error .encryptionKeyMismatch
    else .ok (operation ())

def withDecryptionAuthorization {α : Type} (s : KeyRegistryStateV1) (identity : KeyIdentityV1)
    (privateMaterialDigest : Hash) (operation : Unit → α) : RegistryResult α := do
  identity.validateHistoricalDecryption
  let record ← s.liveRecord identity
  if record.privateMaterialDigest ≠ some privateMaterialDigest then .error .encryptionKeyMismatch
  else .ok (operation ())

end KeyRegistryStateV1

end KeyRegistry

end Piglor
