/-
The erasure records that containment reads (`pos-core`: erasure, erasure/evidence): the request, its
lifecycle state, the resolved scope with the Forks admitted to it later, and the host's proof of the
Timeline topology at one manifest.
-/
import PiglorProofs.Counterfactual.Codec
import PiglorProofs.Store.State

namespace Piglor

/-- Timelines are ordered as their id's bytes. -/
instance : LinearOrder TimelineId :=
  LinearOrder.lift' TimelineId.ulid fun a b h => by cases a; cases b; exact congrArg _ h

namespace Erasure

/-- A minimized digest reference. -/
abbrev ErasureReferenceV1 := Hash

inductive ErasureErrorV1 where
  | invalidEncoding
  | unsupportedVersion
  | unauthorized
  | scopeInvalid
  | policyConflict
  | accessFreezeFailed
  | keyRegistryUnavailable
  | keyDestructionFailed
  | artifactDeletionFailed
  | replicaTimeout
  | replicaNegativeAcknowledgement
  | backupInventoryIncomplete
  | backupDeletionPending
  | receiptCommitFailed
  | trustSnapshotInvalid
  | provenanceMissing
  | staleGeneration
deriving DecidableEq

abbrev ErasureResult := Except ErasureErrorV1

/-! ## Requests and their states -/

/-- The data class authorized for an erasure request. -/
inductive ErasureScopeV1 where
  | privateSubjectData
  | consentedSharedData
  | publicRecord
  | aggregate
  | structuralAuditMetadata
deriving DecidableEq

inductive ErasureLifecycleV1 where
  | submitted
  | authorized
  | accessFrozen
  | destructionDispatched
  | awaitingAcknowledgements
  | complete
  | partialFailure
  | rejected
deriving DecidableEq

/-- How far a lifecycle has closed access: 2 from the freeze on. -/
def containmentRank : ErasureLifecycleV1 → Nat
  | .submitted | .rejected => 0
  | .authorized => 1
  | .accessFrozen | .destructionDispatched | .awaitingAcknowledgements | .complete | .partialFailure => 2

/-- The replay claim supported by remaining evidence. -/
inductive ErasureReplayClaimV1 where
  | exact
  | exactAuthoritativeWithRedactedViews
  | structuralOnly
  | unverifiableArtifactsMissing
  | incompatibleProfile
deriving DecidableEq

/-- A validated ERQ1. -/
structure ErasureRequestV1 where
  request : ErasureReferenceV1
  subject : ErasureReferenceV1
  scope : ErasureScopeV1
  selectors : List ErasureReferenceV1
  requester : ErasureReferenceV1
  authorization : ErasureReferenceV1
  policy : ErasureReferenceV1
  requestPosition : Nat
  horizonPosition : Nat
  provenance : ErasureReferenceV1

/-- The request digest used by states and receipts. -/
def ErasureRequestV1.reference (request : ErasureRequestV1) : ErasureReferenceV1 := request.request

/-- An ERS1 state. -/
structure ErasureStateV1 where
  request : ErasureReferenceV1
  lifecycle : ErasureLifecycleV1
  freezePosition : Option Nat
  coordinator : ErasureReferenceV1
  pendingOwners : List ErasureReferenceV1
  failedOwners : List ErasureReferenceV1
  replayClaim : ErasureReplayClaimV1
  previousState : Option ErasureReferenceV1
  provenance : ErasureReferenceV1
  stateDigest : ErasureReferenceV1

/-- The resolved scope frozen before destructive work begins. -/
structure ErasureScopeCommitmentV1 where
  request : ErasureReferenceV1
  scopeMembers : List ErasureReferenceV1
  scopeTimelineIds : List TimelineId
  targetClosure : ErasureReferenceV1
  lineageRule : Option ErasureReferenceV1
  contentDigest : ErasureReferenceV1

/-- A Fork admitted to a scope after the freeze (ERSE1). -/
structure ErasureScopeExtensionV1 where
  request : ErasureReferenceV1
  scopeCommitment : ErasureReferenceV1
  fork : ErasureReferenceV1
  childTimeline : TimelineId
  lineageRule : ErasureReferenceV1
  predecessorExtension : Option ErasureReferenceV1
  admissionProvenance : ErasureReferenceV1
  contentDigest : ErasureReferenceV1

/-! ## Verified states -/

/-- One request as recovery verified it at one manifest. -/
structure ErasureVerifiedStateV1 where
  manifestDigest : ErasureReferenceV1
  request : ErasureRequestV1
  state : ErasureStateV1
  scope : Option ErasureScopeCommitmentV1
  scopeExtensions : List ErasureScopeExtensionV1

namespace ErasureVerifiedStateV1

def lifecycle (s : ErasureVerifiedStateV1) : ErasureLifecycleV1 := s.state.lifecycle

def freezePosition (s : ErasureVerifiedStateV1) : Option Nat := s.state.freezePosition

/-- The admitted Forks, in extension order. -/
def scopeForks (s : ErasureVerifiedStateV1) : List ErasureReferenceV1 :=
  s.scopeExtensions.map ErasureScopeExtensionV1.fork

/-- Whether a scope reference belongs to the effective scope. -/
def scopeContains (s : ErasureVerifiedStateV1) (scope : ErasureReferenceV1) : Bool :=
  s.scope.any (fun commitment => commitment.scopeMembers.contains scope) || s.scopeForks.contains scope

/-- No fence before the freeze; after it, a matching scope is refused for good. -/
def permitProtectedOperation (s : ErasureVerifiedStateV1) (scope : ErasureReferenceV1) :
    ContainmentResult Unit :=
  match s.lifecycle with
  | .rejected | .submitted | .authorized => .ok ()
  | _ =>
    if s.scope.isNone || s.freezePosition.isNone then .error .recoveryUnavailable
    else if s.scopeContains scope then .error .accessFrozen
    else .ok ()

/-- A state at or past the freeze refuses every scope it contains. -/
theorem permitProtectedOperation_ne_ok {s : ErasureVerifiedStateV1} {scope : ErasureReferenceV1}
    (hrank : 2 ≤ containmentRank s.lifecycle) (hscope : s.scopeContains scope = true) :
    s.permitProtectedOperation scope ≠ .ok () := by
  have hfrozen : (if s.scope.isNone || s.freezePosition.isNone then .error .recoveryUnavailable
      else if s.scopeContains scope then .error .accessFrozen
      else .ok () : ContainmentResult Unit) ≠ .ok () := by
    rw [if_pos hscope]
    split <;> simp
  unfold permitProtectedOperation
  cases hlifecycle : s.lifecycle with
  | submitted | rejected | authorized => simp [hlifecycle, containmentRank] at hrank
  | accessFrozen | destructionDispatched | awaitingAcknowledgements | complete | partialFailure => exact hfrozen

end ErasureVerifiedStateV1

/-- The host's proof of the complete topology at one manifest. -/
structure ErasureVerifiedTopologyProofV1 where
  manifestDigest : ErasureReferenceV1
  bindings : List (TimelineId × ErasureReferenceV1)
  unaffected : List TimelineId

def boundScope (bindings : List (TimelineId × ErasureReferenceV1)) (timeline : TimelineId) : Option ErasureReferenceV1 :=
  (bindings.find? fun binding => binding.1 == timeline).map Prod.snd

/-- The Timelines a verified state commits to: those of the initial freeze, then the admitted children. -/
def ErasureVerifiedStateV1.committedTimelines (s : ErasureVerifiedStateV1) : List TimelineId :=
  (s.scope.map ErasureScopeCommitmentV1.scopeTimelineIds).getD [] ++ s.scopeExtensions.map ErasureScopeExtensionV1.childTimeline

/-- The bindings name each committed Timeline once, under a scope of its own record, and no other. -/
def validateCommittedScopeTimelineBindings (s : ErasureVerifiedStateV1)
    (bindings : List (TimelineId × ErasureReferenceV1)) : ErasureResult Unit :=
  let observed := bindings.map Prod.fst
  let committed := s.committedTimelines
  if observed.Nodup ∧ committed.Nodup
      ∧ (s.scope.all fun scope => scope.scopeTimelineIds.all fun timeline =>
          (boundScope bindings timeline).any scope.scopeMembers.contains) = true
      ∧ (s.scopeExtensions.all fun extension =>
          boundScope bindings extension.childTimeline == some extension.fork) = true
      ∧ observed.length = committed.length
      ∧ observed.all committed.contains = true then .ok ()
  else .error .provenanceMissing

end Erasure

end Piglor
