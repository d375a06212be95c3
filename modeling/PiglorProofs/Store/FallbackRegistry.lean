/-
The decisions of the composition fallback registry (pos-store composition_fallback_registry):
the state of one scope on one Timeline is the fold of its declaration and activation Events, a write
checks the stored row against that fold, returns the original ledger row of a repeated request, and
otherwise plans a new row with the Event and the ledger row that go with it.
-/
import PiglorProofs.Core.Fallback
import PiglorProofs.Store.Chain

namespace Piglor

/-! ## Values -/

inductive CompositionFallbackRegistryErrorV1 where
  | missingState
  | corruptState
  | invalidRecord (error : FallbackRecordErrorV1)
  | scopeMismatch
  | entityMismatch
  | conflict
  | staleState
  | staleHead
  | stalePolicy
  | emptyFirstPolicy
  | primaryNotEffective
  | unknownEntry
  | staleActivation
  | invalidTarget
  | triggerNotDeclared
  | manualEntry
  | invalidSkipped
  | timelineUnavailable
  | eventRejected
deriving DecidableEq

abbrev FallbackResult := Except CompositionFallbackRegistryErrorV1

/-- Where an operation's Event goes: the Timeline and the host entity on it. -/
structure CompositionFallbackTargetV1 where
  timeline : TimelineId
  entity : EntityId

structure FallbackDeclareRequestV1 where
  scope : String
  target : CompositionFallbackTargetV1
  expectedStateRevision : Nat
  expectedLogicalHead : Seq
  policyBytes : CanonicalBytes
  conformance : FallbackConformanceSetsV1

structure FallbackActivateRequestV1 where
  scope : String
  target : CompositionFallbackTargetV1
  expectedStateRevision : Nat
  expectedLogicalHead : Seq
  entryKey : String
  closingTenureOrdinal : Nat
  fromKey : ImplementationKeyV1
  toKey : ImplementationKeyV1
  triggerCode : FallbackTriggerCodeV1
  triggerBasis : FallbackTriggerBasisV1
  skipped : List FallbackSkippedCandidateV1
  tick : Nat

/-- One entry: its tenure, effective implementation and position in `[primary, candidates...]`. -/
structure FallbackEntryStateV1 where
  tenureOrdinal : Nat
  effectiveDigest : Hash
  chainPosition : Nat
deriving DecidableEq

/-- The folded state of one scope on one Timeline. -/
structure FallbackRegistryStateV1 where
  stateRevision : Nat
  policyDigest : Option Hash
  activationOrdinal : Nat
  entries : Table String FallbackEntryStateV1
deriving DecidableEq

def FallbackRegistryStateV1.default : FallbackRegistryStateV1 := ⟨0, none, 0, ∅⟩

structure FallbackRegistryRowV1 where
  entity : EntityId
  state : FallbackRegistryStateV1

structure FallbackEventIdentityV1 where
  eventId : EventId
  seq : Seq
  payloadDigest : Hash
deriving DecidableEq

inductive FallbackLedgerBodyV1 where
  | declaration (conformanceDigest : Hash)
  | activation (entryKey : String) (closingTenureOrdinal activationOrdinal tick : Nat)
deriving DecidableEq

/-- One committed operation. -/
structure FallbackLedgerRowV1 where
  rowSeq : Nat
  entity : EntityId
  stateRevision : Nat
  policyDigest : Hash
  requestDigest : Hash
  event : FallbackEventIdentityV1
  body : FallbackLedgerBodyV1
deriving DecidableEq

def FallbackLedgerRowV1.declares (row : FallbackLedgerRowV1) (policyDigest : Hash) : Bool :=
  match row.body with
  | .declaration _ => row.policyDigest == policyDigest
  | .activation .. => false

/-- The row is the activation that closed the tenure. -/
def FallbackLedgerRowV1.closes (row : FallbackLedgerRowV1) (key : String) (closing : Nat) : Bool :=
  match row.body with
  | .declaration _ => false
  | .activation entryKey closingTenureOrdinal _ _ => entryKey == key && closingTenureOrdinal == closing

inductive FallbackCommitOutcomeV1 where
  | committed
  | idempotentReplay
deriving DecidableEq

structure FallbackCommitReceiptV1 where
  row : FallbackLedgerRowV1
  outcome : FallbackCommitOutcomeV1
deriving DecidableEq

inductive FallbackProvisionOutcomeV1 where
  | created
  | unchanged
deriving DecidableEq

/-- The record codec with the digests that decide whether a request is a repeat. -/
structure FallbackPortsV1 extends FallbackCodecV1 where
  declareRequestDigest : EntityId → Hash → Hash
  activateRequestDigest : FallbackActivateRequestV1 → Hash

/-- An adapter's committed state. -/
structure FallbackReadsV1 where
  storedRow : String → TimelineId → FallbackResult (Option FallbackRegistryRowV1)
  storedPolicy : Hash → FallbackResult (Option CanonicalBytes)
  storedLedger : String → TimelineId → FallbackResult (List FallbackLedgerRowV1)
  timelineEvents : TimelineId → FallbackResult (List Event)
  timelineHead : TimelineId → FallbackResult Seq

namespace Fallback

def check (condition : Bool) (error : CompositionFallbackRegistryErrorV1) : FallbackResult Unit :=
  if condition then .ok () else .error error

/-- A record error as the registry reports it. -/
def ofRecord {α : Type} : Except FallbackRecordErrorV1 α → FallbackResult α
  | .ok a => .ok a
  | .error e => .error (.invalidRecord e)

/-! ## The fold -/

structure FallbackFoldV1 where
  state : FallbackRegistryStateV1
  policy : Option DomainFallbackPolicyV1

def FallbackFoldV1.default : FallbackFoldV1 := ⟨.default, none⟩

variable (codec : FallbackCodecV1)

def primaryDigest (entry : FallbackEntryV1) : Hash := codec.implementationDigest entry.primary.implementation

/-- The digests of `[primary, candidates...]`. -/
def implementations (entry : FallbackEntryV1) : List Hash :=
  (entry.primary :: entry.candidates).map fun pin => codec.implementationDigest pin.implementation

/-- The position of an implementation in the chain, as a `u8`. -/
def chainIndex (entry : FallbackEntryV1) (digest : Hash) : Option Nat :=
  ((implementations codec entry).findIdx? fun listed => listed == digest).filter fun index => decide (index ≤ 255)

def isCandidate (entry : FallbackEntryV1) (digest : Hash) : Bool :=
  ((implementations codec entry).drop 1).any fun listed => listed == digest

end Fallback

open Fallback

namespace FallbackRegistryStateV1

variable (codec : FallbackCodecV1)

/-- The entries in a candidate tenure, which a declaration re-bases, by key. -/
def rebasedEntries (state : FallbackRegistryStateV1) : List FallbackRebasedEntryV1 :=
  (Table.sorted state.entries.keys.val).filterMap fun key =>
    match state.entries.lookup key with
    | none => none
    | some entry =>
      if entry.chainPosition > 0 then (FallbackRebasedEntryV1.new key entry.effectiveDigest).toOption else none

/-- Some recorded entry of the policy runs another implementation than its primary. -/
def primaryMismatch (state : FallbackRegistryStateV1) (policy : DomainFallbackPolicyV1) : Bool :=
  policy.entries.any fun entry =>
    (state.entries.lookup entry.entryKey).any fun recorded => recorded.effectiveDigest != primaryDigest codec entry

/-- One declared entry: kept when it is recorded, otherwise opened in tenure 0 on its primary. -/
def openEntry (entries : Table String FallbackEntryStateV1) (entry : FallbackEntryV1) : Table String FallbackEntryStateV1 :=
  match entries.lookup entry.entryKey with
  | some _ => entries
  | none => entries.insert entry.entryKey ⟨0, primaryDigest codec entry, 0⟩

/-- Fold a declaration: every chain restarts and new entries open. -/
def declare (state : FallbackRegistryStateV1) (policy : DomainFallbackPolicyV1) : FallbackRegistryStateV1 where
  entries := policy.entries.foldl (openEntry codec)
    (state.entries.mapValues fun entry => { entry with chainPosition := 0 })
  stateRevision := saturatingAdd state.stateRevision 1
  policyDigest := some policy.policyDigest
  activationOrdinal := state.activationOrdinal

/-- Fold an activation. -/
def activate (state : FallbackRegistryStateV1) (input : FallbackActivatedInputV1) (next : FallbackEntryStateV1) :
    FallbackRegistryStateV1 :=
  { state with
    entries := state.entries.insert input.entryKey next
    activationOrdinal := input.activationOrdinal
    stateRevision := saturatingAdd state.stateRevision 1 }

end FallbackRegistryStateV1

namespace Fallback

variable (codec : FallbackCodecV1)

def payloadNamesPolicy (payload : FallbackDeclaredPayloadV1) (policy : DomainFallbackPolicyV1) : Bool :=
  payload.scope == policy.scope && payload.policyDigest == policy.policyDigest &&
    payload.previousPolicyDigest == policy.previousPolicyDigest

def declaredConsistent (state : FallbackRegistryStateV1) (payload : FallbackDeclaredPayloadV1)
    (policy : DomainFallbackPolicyV1) (rebased : List FallbackRebasedEntryV1) : Bool :=
  payloadNamesPolicy payload policy && payload.previousPolicyDigest == state.policyDigest &&
    payload.rebased == rebased && !state.primaryMismatch codec policy

def FallbackFoldV1.applyDeclared (fold : FallbackFoldV1) (payload : FallbackDeclaredPayloadV1)
    (policy : DomainFallbackPolicyV1) : FallbackResult FallbackFoldV1 := do
  check (declaredConsistent codec fold.state payload policy fold.state.rebasedEntries) .corruptState
  .ok ⟨fold.state.declare codec policy, some policy⟩

/-- An activation's entry, its state before and its state after. -/
structure TransitionV1 where
  entry : FallbackEntryV1
  current : FallbackEntryStateV1
  next : FallbackEntryStateV1

/-- The activation closes the entry's current tenure on its effective implementation. -/
def closesTenure (current : FallbackEntryStateV1) (input : FallbackActivatedInputV1) : Bool :=
  current.tenureOrdinal == input.closingTenureOrdinal &&
    current.effectiveDigest == codec.implementationDigest input.fromKey

def transition (policy : DomainFallbackPolicyV1) (state : FallbackRegistryStateV1) (input : FallbackActivatedInputV1) :
    FallbackResult TransitionV1 := do
  let some current := state.entries.lookup input.entryKey | .error .unknownEntry
  let some entry := policy.entries.find? fun entry => entry.entryKey == input.entryKey | .error .unknownEntry
  check (closesTenure codec current input) .staleActivation
  let target := codec.implementationDigest input.toKey
  let some chainPosition := chainIndex codec entry target | .error .invalidTarget
  .ok ⟨entry, current, ⟨saturatingAdd current.tenureOrdinal 1, target, chainPosition⟩⟩

def FallbackFoldV1.applyActivated (fold : FallbackFoldV1) (payload : FallbackActivatedPayloadV1) :
    FallbackResult FallbackFoldV1 := do
  let input := payload.asInput
  let some policy := fold.policy.filter fun policy => policy.policyDigest == input.policyDigest | .error .corruptState
  let change ← (transition codec policy fold.state input).mapError fun _ => .corruptState
  check (input.activationOrdinal == saturatingAdd fold.state.activationOrdinal 1) .corruptState
  .ok { fold with state := fold.state.activate input change.next }

/-- Automatic activations need automatic mode and only move forward along the chain. -/
def checkOrigin (change : TransitionV1) : FallbackActivationOriginV1 → FallbackResult Unit
  | .automatic => do
    check (change.entry.activationMode == .automatic) .manualEntry
    check (decide (change.next.chainPosition > change.current.chainPosition)) .invalidTarget
  | .owner => .ok ()

/-- The trigger, origin and skipped-candidate rules. -/
def checkRules (change : TransitionV1) (input : FallbackActivatedInputV1) : FallbackResult Unit := do
  checkOrigin change input.triggerBasis.origin
  -- a return to the primary needs no declared trigger
  check (change.next.chainPosition == 0 || change.entry.triggers.contains input.triggerCode) .triggerNotDeclared
  let target := codec.implementationDigest input.toKey
  check (input.skipped.all fun skipped =>
    skipped.implementationDigest != target && isCandidate codec change.entry skipped.implementationDigest) .invalidSkipped

def loadPolicy (reads : FallbackReadsV1) (digest : Hash) : FallbackResult DomainFallbackPolicyV1 := do
  let bytes ← reads.storedPolicy digest
  match (bytes.bind fun bytes => (codec.decodePolicy bytes).toOption).filter fun policy => policy.policyDigest == digest with
  | some policy => .ok policy
  | none => .error .corruptState

def foldDeclared (reads : FallbackReadsV1) (scope : String) (fold : FallbackFoldV1) (bytes : CanonicalBytes) :
    FallbackResult FallbackFoldV1 := do
  let payload ← (codec.decodeDeclared bytes).mapError fun _ => .corruptState
  if payload.scope ≠ scope then .ok fold
  else do
    let policy ← loadPolicy codec reads payload.policyDigest
    fold.applyDeclared codec payload policy

def foldActivated (scope : String) (fold : FallbackFoldV1) (bytes : CanonicalBytes) : FallbackResult FallbackFoldV1 := do
  let payload ← (codec.decodeActivated bytes).mapError fun _ => .corruptState
  if payload.asInput.scope ≠ scope then .ok fold else fold.applyActivated codec payload

def foldEvent (reads : FallbackReadsV1) (scope : String) (fold : FallbackFoldV1) (event : Event) :
    FallbackResult FallbackFoldV1 :=
  if event.eventType = compositionFallbackDeclaredEventTypeV1 then foldDeclared codec reads scope fold event.payload
  else if event.eventType = compositionFallbackActivatedEventTypeV1 then foldActivated codec scope fold event.payload
  else .ok fold

/-- Fold every declaration and activation Event of the scope on the Timeline. -/
def foldTimeline (reads : FallbackReadsV1) (scope : String) (timeline : TimelineId) : FallbackResult FallbackFoldV1 := do
  let events ← reads.timelineEvents timeline
  events.foldlM (foldEvent codec reads scope) .default

/-! ## The current state -/

/-- The row must equal the fold, an absent row has no ledger, and then the entity must match. -/
def checkRow (stored : Option FallbackRegistryRowV1) (ledger : List FallbackLedgerRowV1) (state : FallbackRegistryStateV1)
    (entity : EntityId) : FallbackResult Unit :=
  match stored with
  | none => check ledger.isEmpty .corruptState
  | some row => do
    check (row.state == state && ledger.getLast?.all fun last => last.stateRevision == state.stateRevision) .corruptState
    check (row.entity == entity) .entityMismatch

/-- The committed state of one scope on one Timeline, checked against its fold. -/
structure CurrentV1 where
  fold : FallbackFoldV1
  ledger : List FallbackLedgerRowV1

def current (reads : FallbackReadsV1) (scope : String) (target : CompositionFallbackTargetV1) :
    FallbackResult CurrentV1 := do
  let stored ← reads.storedRow scope target.timeline
  let ledger ← reads.storedLedger scope target.timeline
  let fold ← foldTimeline codec reads scope target.timeline
  checkRow stored ledger fold.state target.entity
  .ok ⟨fold, ledger⟩

/-! ## Planning a write -/

/-- The complete write of one operation. -/
structure FallbackCommitV1 where
  row : FallbackRegistryRowV1
  policy : Option (Hash × CanonicalBytes)
  draft : EventDraft
  rowSeq : Nat
  policyDigest : Hash
  requestDigest : Hash
  body : FallbackLedgerBodyV1

/-- The ledger row, once the Event's identity is known. -/
def FallbackCommitV1.ledgerRow (commit : FallbackCommitV1) (event : FallbackEventIdentityV1) : FallbackLedgerRowV1 :=
  ⟨commit.rowSeq, commit.row.entity, commit.row.state.stateRevision, commit.policyDigest, commit.requestDigest, event,
    commit.body⟩

/-- The original ledger row of a repeat, or a commit. -/
inductive FallbackPlanV1 where
  | replay (row : FallbackLedgerRowV1)
  | commit (commit : FallbackCommitV1)

/-- The arguments every write shares. -/
structure WriteV1 where
  scope : String
  target : CompositionFallbackTargetV1
  expectedStateRevision : Nat
  expectedLogicalHead : Seq
  requestDigest : Hash

/-- The state revision must be current, then the logical head. -/
def WriteV1.checkFresh (write : WriteV1) (reads : FallbackReadsV1) (stateRevision : Nat) : FallbackResult Unit := do
  check (write.expectedStateRevision == stateRevision) .staleState
  let head ← reads.timelineHead write.target.timeline
  check (head == write.expectedLogicalHead) .staleHead

/-- The original ledger row of a byte-identical repeat, or a conflict. -/
def replay (row : FallbackLedgerRowV1) (requestDigest : Hash) : FallbackResult FallbackPlanV1 := do
  check (row.requestDigest == requestDigest) .conflict
  .ok (.replay row)

/-- The common prelude of a write: the fold invariant, the repeat, staleness, then its own checks. -/
def WriteV1.plan (write : WriteV1) (reads : FallbackReadsV1) (occupies : FallbackLedgerRowV1 → Bool)
    (fresh : CurrentV1 → FallbackResult FallbackPlanV1) : FallbackResult FallbackPlanV1 := do
  let found ← current codec reads write.scope write.target
  match found.ledger.find? occupies with
  | some row => replay row write.requestDigest
  | none => do
    write.checkFresh reads found.fold.state.stateRevision
    fresh found

def nextRowSeq (ledger : List FallbackLedgerRowV1) : Nat := saturatingAdd ledger.length 1

def WriteV1.commit (write : WriteV1) (found : CurrentV1) (policyDigest : Hash) (fold : FallbackFoldV1)
    (draft : EventDraft) (body : FallbackLedgerBodyV1) (policy : Option (Hash × CanonicalBytes)) : FallbackPlanV1 :=
  .commit ⟨⟨write.target.entity, fold.state⟩, policy, draft, nextRowSeq found.ledger, policyDigest, write.requestDigest, body⟩

/-- The policy must follow the current one, withdraw something, and keep the recorded primaries. -/
def checkDeclaration (state : FallbackRegistryStateV1) (policy : DomainFallbackPolicyV1) : FallbackResult Unit := do
  check (policy.previousPolicyDigest == state.policyDigest) .stalePolicy
  check (!(policy.previousPolicyDigest.isNone && policy.isWithdrawal)) .emptyFirstPolicy
  check (!state.primaryMismatch codec policy) .primaryNotEffective

/-- The checks and commit of a declaration that is neither a repeat nor stale. -/
def declareFresh (write : WriteV1) (found : CurrentV1) (policy : DomainFallbackPolicyV1)
    (request : FallbackDeclareRequestV1) : FallbackResult FallbackPlanV1 := do
  checkDeclaration codec found.fold.state policy
  let payload ← ofRecord (FallbackDeclaredPayloadV1.forPolicy policy found.fold.state.rebasedEntries)
  let draft := EventDraft.new write.target.entity compositionFallbackDeclaredEventTypeV1 (codec.encodeDeclared payload)
  let fold ← found.fold.applyDeclared codec payload policy
  .ok (write.commit found policy.policyDigest fold draft (.declaration (codec.conformanceDigest request.conformance))
    (some (policy.policyDigest, request.policyBytes)))

def activationInput (request : FallbackActivateRequestV1) (policyDigest : Hash) (activationOrdinal : Nat) :
    FallbackActivatedInputV1 :=
  ⟨request.scope, policyDigest, request.entryKey, request.closingTenureOrdinal, request.fromKey, request.toKey,
    request.skipped, request.triggerCode, request.triggerBasis, saturatingAdd activationOrdinal 1⟩

/-- The checks and commit of an activation that is neither a repeat nor stale. -/
def activateFresh (write : WriteV1) (found : CurrentV1) (request : FallbackActivateRequestV1) :
    FallbackResult FallbackPlanV1 := do
  let some policy := found.fold.policy | .error .unknownEntry
  let payload ← ofRecord (FallbackActivatedPayloadV1.new
    (activationInput request policy.policyDigest found.fold.state.activationOrdinal))
  let input := payload.asInput
  let change ← transition codec policy found.fold.state input
  checkRules codec change input
  let draft := EventDraft.new write.target.entity compositionFallbackActivatedEventTypeV1 (codec.encodeActivated payload)
  let fold ← found.fold.applyActivated codec payload
  .ok (write.commit found input.policyDigest fold draft
    (.activation input.entryKey input.closingTenureOrdinal input.activationOrdinal request.tick) none)

end Fallback

open Fallback

variable (ports : FallbackPortsV1)

def planDeclare (reads : FallbackReadsV1) (request : FallbackDeclareRequestV1) : FallbackResult FallbackPlanV1 := do
  let policy ← ofRecord (ports.decodePolicy request.policyBytes)
  check (policy.scope == request.scope) .scopeMismatch
  let write : WriteV1 := ⟨request.scope, request.target, request.expectedStateRevision, request.expectedLogicalHead,
    ports.declareRequestDigest request.target.entity (ports.conformanceDigest request.conformance)⟩
  write.plan ports.toFallbackCodecV1 reads (fun row => row.declares policy.policyDigest)
    fun found => declareFresh ports.toFallbackCodecV1 write found policy request

def planActivate (reads : FallbackReadsV1) (request : FallbackActivateRequestV1) : FallbackResult FallbackPlanV1 := do
  let write : WriteV1 := ⟨request.scope, request.target, request.expectedStateRevision, request.expectedLogicalHead,
    ports.activateRequestDigest request⟩
  write.plan ports.toFallbackCodecV1 reads (fun row => row.closes request.entryKey request.closingTenureOrdinal)
    fun found => activateFresh ports.toFallbackCodecV1 write found request

end Piglor
