/-
Admitted pipeline batches on the memory store (memory/pipeline_admission.rs): publish a fence,
admit a batch against it, look a receipt up, purge expired receipts. A batch is staged on a copy of
its Timeline and installed with its rows, fence and receipt only after every fallible step; the
factual Tick check reads the store and changes nothing, so its verdict is an argument.
-/
import PiglorProofs.Store.Append
import PiglorProofs.Store.Chain
import Mathlib.Data.PNat.Basic
import Mathlib.Data.Prod.Lex

namespace Piglor.MemoryStore

variable (s : MemoryStore) (timeline : TimelineId)

def setPipelineAdmissionFence (fence : PipelineAdmissionFenceV1) : Effect Unit :=
  s.after (do
    s.erasureFence timeline
    s.ensureGenericTimelineVisibility timeline) fun _ =>
  (.ok (), { s with pipelineAdmissionFences := s.pipelineAdmissionFences.insert timeline fence })

/-! ## Receipts -/

/-- The receipt record a retry meets: one that has not expired. -/
def liveReceipt (key : AppendDedupKey) (now : WallTime) : Option PipelineReceiptRecordV1 :=
  (s.pipelineAdmissionReceipts.lookup key).filter fun record => decide (record.expiresAt > now)

/-- The committed logical Events a retained receipt record names. -/
def retainedPipelineEvents (record : PipelineReceiptRecordV1) : CoreResult (List Event) := do
  let logicalPrefix ← s.logicalPrefix timeline
  (((s.ownEvents timeline).dropWhile fun e => decide (e.seq < record.firstLocalSeq)).take record.eventCount).mapM
    (logicalEvent logicalPrefix)

def recoverPipelineReceipt (basis : PipelineAdmissionBasisV1)
    (record : PipelineReceiptRecordV1) : CoreResult PipelineOutcomeV1 :=
  if record.timeline ≠ timeline ∨ record.basisDigest ≠ s.digests.basis basis then .ok .admissionConflict
  else do
    let events ← s.retainedPipelineEvents timeline record
    let receipt ← committedPipelineReceipt s.digests basis timeline events
    .ok (.recoveredDuplicate receipt)

def lookupVisiblePipelineReceipt (key : AppendDedupKey)
    (attemptId : PipelineAttemptIdV1) (now : WallTime) : CoreResult PipelineReceiptLookupV1 :=
  match s.liveReceipt key now with
  | none => .ok .absent
  | some record =>
    if record.timeline ≠ timeline ∨ record.attemptId ≠ attemptId then .ok .conflict
    else do
      let events ← s.retainedPipelineEvents timeline record
      let receipt ← (PipelineCommitReceiptV1.tryFromRetainedEvents attemptId timeline record.draftBatchDigest
        events).mapError pipelineReceiptError
      .ok (.retained receipt)

def lookupPipelineReceipt (key : AppendDedupKey)
    (attemptId : PipelineAttemptIdV1) (clock : CoreResult WallTime) : CoreResult PipelineReceiptLookupV1 := do
  let now ← clock
  s.erasureFence timeline
  s.ensureGenericTimelineVisibility timeline
  s.lookupVisiblePipelineReceipt timeline key attemptId now

def purgeExpiredPipelineReceiptsBounded (clock : CoreResult WallTime) (limit : ℕ+) : Effect PurgeOutcome :=
  s.after clock fun now =>
  let expired := (Table.sorted (Table.rows (fun _ r => decide (r.expiresAt ≤ now))
    (fun k r => toLex (r.expiresAt, k)) s.pipelineAdmissionReceipts)).take limit
  (.ok ⟨expired.length, decide (expired.length = limit)⟩,
    { s with
      pipelineAdmissionReceipts := Table.eraseAll (expired.map fun row => (ofLex row).2) s.pipelineAdmissionReceipts })

/-! ## Admission -/

/-- What a staged batch is made of: the grown Timeline, its Events, their receipt and its expiry. -/
structure StagedBatch where
  firstLocalSeq : Nat
  committed : List Event
  staged : TimelineState
  receipt : PipelineCommitReceiptV1
  expiresAt : WallTime

def stageBatch (basis : PipelineAdmissionBasisV1) (now : WallTime)
    (logicalPrefix : Nat) (draw : Nat → Draw) : CoreResult StagedBatch := do
  let state ← s.mutableState timeline
  -- the copy is dropped when any later step fails
  let appended := TimelineState.appendAllToState s.hasher s.keyRegistry state basis.batch.drafts draw
  let committed ← appended.1
  let events ← committed.mapM (logicalEvent logicalPrefix)
  let receipt ← committedPipelineReceipt s.digests basis timeline events
  let expiresAt ← checkedAppendIdentityExpiresAt now
  .ok ⟨state.timeline.head + 1, committed, appended.2, receipt, expiresAt⟩

/-- Install a staged batch with its dependency rows, fence and receipt record. -/
def installBatch (basis : PipelineAdmissionBasisV1)
    (nextFence : PipelineAdmissionFenceV1) (install : FactualInstallV1) (batch : StagedBatch) : MemoryStore :=
  { s.setTimeline timeline batch.staged with
    eventIds := s.eventIds ∪ (batch.committed.map Event.id).toFinset
    dependencyPrefixes := s.dependencyPrefixes.insert timeline
      ((s.dependencyPrefixes.lookup timeline).getD [] ++ [(basis.dependencies, install)])
    pipelineAdmissionFences := s.pipelineAdmissionFences.insert timeline nextFence
    pipelineAdmissionReceipts := s.pipelineAdmissionReceipts.insert basis.attempt.idempotency.dedupKey
      ⟨timeline, basis.attempt.idempotency.scope, batch.expiresAt, basis.attempt.attemptId, s.digests.basis basis,
        s.digests.draftBatch basis.batch.drafts, batch.firstLocalSeq, batch.committed.length⟩ }

/-- The persisted state a basis is compared with, and the prefix of the Timeline. -/
def pipelinePersistedState : CoreResult (Nat × PipelinePersistedStateV1) := do
  let logicalPrefix ← s.logicalPrefix timeline
  let logicalHead ← checkedLogicalHead logicalPrefix (s.localHead timeline)
  .ok (logicalPrefix, ⟨s.pipelineAdmissionFences.lookup timeline, logicalHead, s.erasureInventoryGeneration⟩)

/-- Compare, check the Tick, stage and install. -/
def commitPipelineBatch (basis : PipelineAdmissionBasisV1) (now : WallTime)
    (planned : CoreResult PlannedTickV1) (draw : Nat → Draw) : Effect PipelineOutcomeV1 :=
  s.after (s.pipelinePersistedState timeline) fun (logicalPrefix, persisted) =>
  match evaluatePipelineAdmission s.digests basis persisted s.authorityState with
  | .error outcome => (.ok outcome, s)
  | .ok nextFence =>
    s.after planned fun
    | .refused refusal => (.ok refusal.outcome, s)
    | .install install =>
      s.after (s.stageBatch timeline basis now logicalPrefix draw) fun batch =>
      (.ok (.committed batch.receipt), s.installBatch timeline basis nextFence install batch)

/-- The guards of an admission, in order: the clock, the fence, the Fork boundary, visibility. -/
def admissionGuards (clock : CoreResult WallTime) : CoreResult WallTime := do
  let now ← clock
  s.erasureFence timeline
  s.ensureGenericForkAppendIsRejected timeline
  s.ensureGenericTimelineVisibility timeline
  .ok now

def admitPipelineBatch (basis : PipelineAdmissionBasisV1) (clock : CoreResult WallTime)
    (planned : CoreResult PlannedTickV1) (draw : Nat → Draw) : Effect PipelineOutcomeV1 :=
  let timeline := basis.attempt.observation.timelineId
  s.after (s.admissionGuards timeline clock) fun now =>
  match s.liveReceipt basis.attempt.idempotency.dedupKey now with
  -- a live key never reaches the comparison, whatever its basis
  | some record => (s.recoverPipelineReceipt timeline basis record, s)
  | none => s.commitPipelineBatch timeline basis now planned draw

end Piglor.MemoryStore
