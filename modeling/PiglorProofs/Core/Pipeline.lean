/-
The host-owned pipeline contracts (`pos-core` pipeline and pipeline_admission, and the comparison
the adapters share in `pos-store`): attempts, admission bases, fences, receipts and outcomes. The
validated types carry what their constructors check. The blake3 derivations enter as
`PipelineDigestsV1`, and the factual Tick declaration as its digest and Tick number: its check is
read-only, so an admission takes the check's verdict.
-/
import PiglorProofs.Authority.Records

namespace Piglor

open Checked

def maxPipelineDraftsPerBatch : Nat := 1024

def maxPipelineDraftBatchBytes : Nat := 16 * 1024 * 1024

/-- The contract failures a receipt can meet. -/
inductive PipelineContractErrorV1 where
  | committedBatchMismatch
  | committedTimelineMismatch
  | nonContiguousCommit
  | invalidCommittedIdentity
deriving DecidableEq

def PipelineContractErrorV1.display : PipelineContractErrorV1 → String
  | .committedBatchMismatch => "committed Event batch does not match the admitted draft batch"
  | .committedTimelineMismatch => "committed Timeline does not match the admitted observation Timeline"
  | .nonContiguousCommit => "committed Event batch is not in contiguous Timeline Order"
  | .invalidCommittedIdentity => "committed Event identities are invalid or duplicated"

/-! ## Attempts and bases -/

structure PipelineAttemptIdV1 where
  bytes : BitVec 128
  nonzero : bytes ≠ 0
deriving DecidableEq

inductive PipelineIngressV1 where
  | humanProposedAction
  | scheduledAiDriver
deriving DecidableEq

/-- The immutable world cut one attempt is authorized for. -/
structure PipelineObservationAnchorV1 where
  timelineId : TimelineId
  observedThrough : Seq
  snapshotDigest : Hash
  valid : timelineId.ulid ≠ 0 ∧ snapshotDigest ≠ 0
deriving DecidableEq

structure PipelineEvidenceRefV1 where
  digest : Hash
  nonzero : digest ≠ 0
deriving DecidableEq

inductive TentativePipelineResultV1 where
  | humanDomainApproval (evidence : PipelineEvidenceRefV1)
  | aiProviderValidation (evidence : PipelineEvidenceRefV1)
deriving DecidableEq

def TentativePipelineResultV1.ingress : TentativePipelineResultV1 → PipelineIngressV1
  | .humanDomainApproval _ => .humanProposedAction
  | .aiProviderValidation _ => .scheduledAiDriver

inductive PipelinePreconditionV1 where
  | expectedLogicalHead (head : Seq)
  | domainStateRevision (revision : Hash)
deriving DecidableEq

structure PipelineSecurityRevisionsV1 where
  authority : Hash
  consent : Hash
  capability : Hash
  delegation : Hash
  policy : Hash
  executionProfile : Hash
  erasure : Hash
  complete : (0 : Hash) ∉ [authority, consent, capability, delegation, policy, executionProfile, erasure]
deriving DecidableEq

def invalidDraft (draft : EventDraft) : Bool := draft.entity.ulid == 0 || draft.eventType == ""

def draftContentBytes (draft : EventDraft) : Nat :=
  16 + draft.eventType.utf8ByteSize + draft.payload.length + 16 + 16 + 4 + (if draft.wallTime.isSome then 8 else 0)

/-- One bounded, ordered, tentative batch. -/
structure PipelineDraftBatchV1 where
  drafts : List EventDraft
  nonempty : drafts ≠ []
  count_le : drafts.length ≤ maxPipelineDraftsPerBatch
  bytes_le : (drafts.map draftContentBytes).sum ≤ maxPipelineDraftBatchBytes
  valid : ∀ d ∈ drafts, invalidDraft d = false
deriving DecidableEq

structure PipelineAttemptV1 where
  attemptId : PipelineAttemptIdV1
  ingress : PipelineIngressV1
  observation : PipelineObservationAnchorV1
  idempotency : AppendIdentity
  nonzero : idempotency.dedupKey.bytes ≠ 0 ∧ idempotency.scope.bytes ≠ 0
deriving DecidableEq

/-- The factual Tick declaration a basis binds, by its digest. -/
structure FactualTickDependenciesV1 where
  digest : Hash
  tick : Nat
deriving DecidableEq

structure PipelineAdmissionBasisV1 where
  attempt : PipelineAttemptV1
  tentativeResult : TentativePipelineResultV1
  precondition : PipelinePreconditionV1
  securityRevisions : PipelineSecurityRevisionsV1
  batch : PipelineDraftBatchV1
  dependencies : FactualTickDependenciesV1
  ingress_eq : attempt.ingress = tentativeResult.ingress
deriving DecidableEq

/-! ## Authority and fences -/

structure CapabilityRevocationV1 where
  grantId : Hash
  authorityTimeline : TimelineId
  fencePosition : Seq
  revocationEpoch : Nat
  policyRevision : Hash
  authorityRegistryDigest : Hash

/-- A persisted root-to-leaf grant chain as `resolve` returns it. -/
structure PersistedAuthorityV1 where
  grants : List Authority.CapabilityGrantV1
  headPosition : Seq
  revocationEpoch : Nat
  revocations : List CapabilityRevocationV1

/-- The blake3 derivations of the pipeline contracts. -/
structure PipelineDigestsV1 where
  basis : PipelineAdmissionBasisV1 → Hash
  draftBatch : List EventDraft → Hash
  authorityRevision : PersistedAuthorityV1 → Hash
  delegationRevision : PersistedAuthorityV1 → Hash
  erasureRevision : Option Hash → Hash

/-- Constant digests, for evaluating what does not read them. -/
def PipelineDigestsV1.constant : PipelineDigestsV1 := ⟨fun _ => 1, fun _ => 1, fun _ => 1, fun _ => 1, fun _ => 1⟩

/-- The host-published admission state of one Timeline. -/
structure PipelineAdmissionFenceV1 where
  authorityGrant : Hash
  securityRevisions : PipelineSecurityRevisionsV1
  domainStateRevision : Option Hash
  remainingEventBudget : Nat
  valid : authorityGrant ≠ 0 ∧ domainStateRevision ≠ some 0

/-- The fence after one committed batch, or `none` when the batch exceeds its budget. -/
def PipelineAdmissionFenceV1.afterCommit (fence : PipelineAdmissionFenceV1) (events : Nat) :
    Option PipelineAdmissionFenceV1 :=
  (checkedSub fence.remainingEventBudget events).map fun r => { fence with remainingEventBudget := r }

/-! ## Receipts and outcomes -/

structure CommittedPipelineEventV1 where
  eventId : EventId
  seq : Seq
deriving DecidableEq

structure PipelineCommitReceiptV1 where
  attemptId : PipelineAttemptIdV1
  timelineId : TimelineId
  draftBatchDigest : Hash
  committedEvents : List CommittedPipelineEventV1
deriving DecidableEq

inductive PipelineOutcomeV1 where
  | rejected
  | invalidObservation
  | authorityRevoked
  | authorityExpired
  | policyIndeterminate
  | resourceExhausted
  | invalidPluginResult
  | invalidProviderResult
  | domainConflict
  | admissionConflict
  | committed (receipt : PipelineCommitReceiptV1)
  | recoveredDuplicate (receipt : PipelineCommitReceiptV1)
  | invalidDependencyDeclaration
  | dependencySetExhausted
deriving DecidableEq

inductive PipelineReceiptLookupV1 where
  | absent
  | retained (receipt : PipelineCommitReceiptV1)
  | conflict
deriving DecidableEq

/-- The generated Event fields are free; a draft's wall time binds when it has one. -/
def committedEventMatchesDraft (event : Event) (draft : EventDraft) : Bool :=
  event.entity == draft.entity && event.eventType == draft.eventType && event.payload == draft.payload &&
    event.causationId == draft.causationId && event.correlationId == draft.correlationId &&
    event.schemaVersion == draft.schemaVersion && draft.wallTime.all (fun expected => event.wallTime == expected)

/-- Every adjacent pair is consecutive, and no successor overflows. -/
def contiguousSeqs (seqs : List Seq) : Bool :=
  (seqs.zip seqs.tail).all fun pair => checkedAdd pair.1 1 == some pair.2

/-- Validate Timeline order and identity, then bind the committed range. -/
def PipelineCommitReceiptV1.tryFromOrderedEvents (attemptId : PipelineAttemptIdV1) (timelineId : TimelineId)
    (draftBatchDigest : Hash) (events : List Event) : Except PipelineContractErrorV1 PipelineCommitReceiptV1 :=
  if (events.head?.any (fun e => e.seq == 0)) || !contiguousSeqs (events.map (·.seq)) then
    .error .nonContiguousCommit
  else if events.any (fun e => e.id.ulid == 0) || !decide (events.map (·.id)).Nodup then
    .error .invalidCommittedIdentity
  else .ok ⟨attemptId, timelineId, draftBatchDigest, events.map fun e => ⟨e.id, e.seq⟩⟩

/-- Bind an admission basis to the Events the store committed for it. -/
def PipelineCommitReceiptV1.tryFromCommittedEvents (digests : PipelineDigestsV1) (basis : PipelineAdmissionBasisV1)
    (timeline : TimelineId) (events : List Event) : Except PipelineContractErrorV1 PipelineCommitReceiptV1 :=
  if timeline ≠ basis.attempt.observation.timelineId then .error .committedTimelineMismatch
  else if events.length ≠ basis.batch.drafts.length ||
      (events.zip basis.batch.drafts).any (fun p => !committedEventMatchesDraft p.1 p.2) then
    .error .committedBatchMismatch
  else tryFromOrderedEvents basis.attempt.attemptId timeline (digests.draftBatch basis.batch.drafts) events

/-- Rebuild a retained attempt's receipt without its basis. -/
def PipelineCommitReceiptV1.tryFromRetainedEvents (attemptId : PipelineAttemptIdV1) (timeline : TimelineId)
    (draftBatchDigest : Hash) (events : List Event) : Except PipelineContractErrorV1 PipelineCommitReceiptV1 :=
  if events.isEmpty then .error .committedBatchMismatch
  else tryFromOrderedEvents attemptId timeline draftBatchDigest events

def pipelineReceiptError (error : PipelineContractErrorV1) : CoreError :=
  .storage ("admitted pipeline batch receipt is invalid: " ++ error.display)

def committedPipelineReceipt (digests : PipelineDigestsV1) (basis : PipelineAdmissionBasisV1)
    (timeline : TimelineId) (events : List Event) : CoreResult PipelineCommitReceiptV1 :=
  (PipelineCommitReceiptV1.tryFromCommittedEvents digests basis timeline events).mapError pipelineReceiptError

/-! ## The admission comparison -/

/-- Why a persisted authority did not resolve; the comparison reads none of it. -/
inductive AuthorityPersistenceErrorV1 where
  | unresolved
deriving DecidableEq

/-- What an adapter has read inside its serialization point. -/
structure PipelinePersistedStateV1 where
  fence : Option PipelineAdmissionFenceV1
  logicalHead : Seq
  erasureInventoryGeneration : Option Hash

def bindsPersistedAuthority (digests : PipelineDigestsV1) (revisions : PipelineSecurityRevisionsV1)
    (authority : PersistedAuthorityV1) : Bool :=
  digests.authorityRevision authority == revisions.authority &&
    digests.delegationRevision authority == revisions.delegation

/-- Compose the persisted authority chain named by a fence. -/
def evaluatePipelineAuthority (digests : PipelineDigestsV1) (basis : PipelineAdmissionBasisV1)
    (authority : Except AuthorityPersistenceErrorV1 PersistedAuthorityV1) : Except PipelineOutcomeV1 Unit :=
  match authority with
  | .error _ => .error .policyIndeterminate
  | .ok authority =>
    if authority.grants.any (fun g => g.revocationFence.isSome) then .error .authorityRevoked
    else if authority.grants.any (fun g => decide (g.validUntilPosition ≤ authority.headPosition)) then
      .error .authorityExpired
    else if !bindsPersistedAuthority digests basis.securityRevisions authority then .error .admissionConflict
    else .ok ()

/-- The path-specific state fence of a basis. -/
def checkPrecondition (precondition : PipelinePreconditionV1) (fence : PipelineAdmissionFenceV1) (logicalHead : Seq) :
    Except PipelineOutcomeV1 Unit :=
  match precondition with
  | .expectedLogicalHead expected => if expected ≠ logicalHead then .error .admissionConflict else .ok ()
  | .domainStateRevision expected =>
    if fence.domainStateRevision ≠ some expected then .error .domainConflict else .ok ()

/-- Compare a basis with the persisted state: the fence after the batch, or the rejection. -/
def evaluatePipelineAdmission (digests : PipelineDigestsV1) (basis : PipelineAdmissionBasisV1)
    (persisted : PipelinePersistedStateV1)
    (resolveAuthority : Hash → Except AuthorityPersistenceErrorV1 PersistedAuthorityV1) :
    Except PipelineOutcomeV1 PipelineAdmissionFenceV1 := do
  let some fence := persisted.fence | .error .policyIndeterminate
  let revisions := basis.securityRevisions
  if fence.securityRevisions ≠ revisions ||
      digests.erasureRevision persisted.erasureInventoryGeneration ≠ revisions.erasure then
    .error .admissionConflict
  evaluatePipelineAuthority digests basis (resolveAuthority fence.authorityGrant)
  if persisted.logicalHead < basis.attempt.observation.observedThrough then .error .invalidObservation
  checkPrecondition basis.precondition fence persisted.logicalHead
  if basis.batch.drafts.any (fun d => isGeographicEventType d.eventType || isConsentEventType d.eventType) then
    .error (match basis.attempt.ingress with
      | .humanProposedAction => .invalidPluginResult
      | .scheduledAiDriver => .invalidProviderResult)
  match fence.afterCommit basis.batch.drafts.length with
  | some next => .ok next
  | none => .error .resourceExhausted

variable {next : PipelineAdmissionFenceV1}

theorem PipelineAdmissionFenceV1.afterCommit_budget {fence : PipelineAdmissionFenceV1} {events : Nat}
    (h : fence.afterCommit events = some next) : next.remainingEventBudget + events = fence.remainingEventBudget := by
  obtain ⟨r, hr, rfl⟩ := Option.map_eq_some_iff.mp h
  unfold checkedSub at hr
  split at hr
  · cases hr
    exact Nat.sub_add_cancel (by assumption)
  · cases hr

variable {digests : PipelineDigestsV1} {basis : PipelineAdmissionBasisV1} {persisted : PipelinePersistedStateV1}
  {resolve : Hash → Except AuthorityPersistenceErrorV1 PersistedAuthorityV1}

/-- An admission that passes leaves the persisted fence, less the batch. -/
theorem evaluatePipelineAdmission_ok (h : evaluatePipelineAdmission digests basis persisted resolve = .ok next) :
    ∃ fence, persisted.fence = some fence ∧
      next.remainingEventBudget + basis.batch.drafts.length = fence.remainingEventBudget := by
  unfold evaluatePipelineAdmission at h
  split at h
  · rename_i fence hfence
    refine ⟨fence, hfence, ?_⟩
    dsimp only at h
    split at h
    · cases h
    replace h := of_check h
    split at h
    · cases h
    replace h := of_check h
    split at h
    · cases h
    split at h
    · rename_i hafter
      cases h
      exact PipelineAdmissionFenceV1.afterCommit_budget hafter
    · cases h
  · cases h

/-- No rejection of the comparison reports a commit. -/
theorem evaluatePipelineAdmission_error (receipt : PipelineCommitReceiptV1) :
    evaluatePipelineAdmission digests basis persisted resolve ≠ .error (.committed receipt) := by
  have hauthority : ∀ authority, evaluatePipelineAuthority digests basis authority ≠ .error (.committed receipt) := by
    intro authority h
    unfold evaluatePipelineAuthority at h
    repeat' split at h
    all_goals cases h
  have hprecondition : ∀ fence, checkPrecondition basis.precondition fence persisted.logicalHead ≠
      .error (.committed receipt) := by
    intro fence h
    unfold checkPrecondition at h
    repeat' split at h
    all_goals cases h
  intro h
  unfold evaluatePipelineAdmission at h
  split at h
  · dsimp only at h
    split at h
    · cases h
    rcases bind_eq_error.mp h with h | ⟨⟨⟩, -, h⟩
    · exact hauthority _ h
    split at h
    · cases h
    rcases bind_eq_error.mp h with h | ⟨⟨⟩, -, h⟩
    · exact hprecondition _ h
    split at h
    · split at h <;> cases h
    split at h <;> cases h
  · cases h

/-! ## Factual Tick plans -/

inductive TickRefusalV1 where
  | invalidDeclaration
  | staleGrant
  | setExhausted
deriving DecidableEq

def TickRefusalV1.outcome : TickRefusalV1 → PipelineOutcomeV1
  | .invalidDeclaration => .invalidDependencyDeclaration
  | .staleGrant => .admissionConflict
  | .setExhausted => .dependencySetExhausted

/-- The rows a checked Tick installs with its Events. -/
structure FactualInstallV1 where
  firstSeq : Seq
  lastSeq : Seq
  eventNodes : List (Seq × Hash)
  foldHead : Option (Seq × Hash)

inductive PlannedTickV1 where
  | install (rows : FactualInstallV1)
  | refused (refusal : TickRefusalV1)

/-- A Timeline's recorded dependency set: the Ticks installed in it, oldest first. Its indexes
are derived from them. -/
abbrev DependencyRowsV1 := List (FactualTickDependenciesV1 × FactualInstallV1)

end Piglor
