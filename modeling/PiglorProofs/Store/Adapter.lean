/-
The whole in-memory adapter: the store together with its composition fallback registry
(pos-store memory/composition_fallback_registry.rs) and the sidecars that only deletion concerns
here, the geographic tables, the enrollment and the counterfactual Fork states. A registry write
runs inside the erasure fence, plans from the committed state, and commits its rows after the
append of its Event. Deleting a Timeline cleans the tables one by one, in the source's order.
-/
import PiglorProofs.Store.FallbackRegistry
import PiglorProofs.Store.Transfer

namespace Piglor

open Fallback

/-! ## The fallback registry of a store -/

structure MemoryCompositionFallbackStateV1 where
  provisioned : Bool
  rows : Table (String × TimelineId) FallbackRegistryRowV1
  policies : Table Hash CanonicalBytes
  ledgers : Table (String × TimelineId) (List FallbackLedgerRowV1)

namespace MemoryCompositionFallbackStateV1

def default : MemoryCompositionFallbackStateV1 := ⟨false, ∅, ∅, ∅⟩

def requireProvisioned (state : MemoryCompositionFallbackStateV1) : FallbackResult Unit :=
  check state.provisioned .missingState

def ledger (state : MemoryCompositionFallbackStateV1) (scope : String) (timeline : TimelineId) :
    List FallbackLedgerRowV1 := (state.ledgers.lookup (scope, timeline)).getD []

def commit (state : MemoryCompositionFallbackStateV1) (scope : String) (timeline : TimelineId)
    (commit : FallbackCommitV1) (row : FallbackLedgerRowV1) : MemoryCompositionFallbackStateV1 :=
  { state with
    policies := match commit.policy with
      | some (digest, bytes) => state.policies.insert digest bytes
      | none => state.policies
    rows := state.rows.insert (scope, timeline) commit.row
    ledgers := state.ledgers.insert (scope, timeline) (state.ledger scope timeline ++ [row]) }

end MemoryCompositionFallbackStateV1

structure RegistryStore where
  store : MemoryStore
  compositionFallback : MemoryCompositionFallbackStateV1

namespace MemoryStore

/-- `append` inside a fence that its caller holds. -/
def guardedGenericAppend (s : MemoryStore) (timeline : TimelineId) (drafts : List EventDraft) (draw : Nat → Draw) :
    Effect (List Event) :=
  s.after (do
    ensureNonGeographicDrafts drafts timeline
    s.ensureGenericForkAppendIsRejected timeline
    s.ensureGenericTimelineVisibility timeline) fun _ =>
  s.appendVisible timeline drafts draw

/-- Inside the fence the guarded append is the append. -/
theorem guardedGenericAppend_eq {s : MemoryStore} {timeline : TimelineId} (hfence : s.Admits timeline)
    (drafts : List EventDraft) (draw : Nat → Draw) :
    s.guardedGenericAppend timeline drafts draw = s.append timeline drafts draw := by
  have hguards : s.genericAppendGuards timeline drafts = (do
      ensureNonGeographicDrafts drafts timeline
      s.ensureGenericForkAppendIsRejected timeline
      s.ensureGenericTimelineVisibility timeline) := by
    rw [genericAppendGuards, show s.erasureFence timeline = .ok () from hfence]
    rfl
  rw [guardedGenericAppend, append, hguards]

end MemoryStore

namespace RegistryStore

variable (ports : FallbackPortsV1) (x : RegistryStore) (scope : String) (timeline : TimelineId)

def fallbackView : FallbackReadsV1 where
  storedRow scope timeline := .ok (x.compositionFallback.rows.lookup (scope, timeline))
  storedPolicy digest := .ok (x.compositionFallback.policies.lookup digest)
  storedLedger scope timeline := .ok (x.compositionFallback.ledger scope timeline)
  timelineEvents timeline := (x.store.collectEventsInRange timeline .all).mapError fun _ => .timelineUnavailable
  timelineHead timeline := (x.store.logicalHeadUnchecked timeline).mapError fun _ => .timelineUnavailable

/-- BLAKE3 of the payload, which the store's own payload hash must equal. -/
def payloadDigest (hasher : Hasher) (draft : EventDraft) : FallbackResult Hash :=
  if hasher.hashPayload draft.payload = ports.blake3 draft.payload then .ok (ports.blake3 draft.payload)
  else .error .eventRejected

/-- The identity of the one Event an append of one draft returned. -/
def eventIdentity (appended : CoreResult (List Event)) (payloadDigest : Hash) :
    FallbackResult FallbackEventIdentityV1 :=
  match appended with
  | .ok (event :: _) => .ok ⟨event.id, event.seq, payloadDigest⟩
  | _ => .error .eventRejected

/-- Return a replay, or append the Event and then commit the rows. -/
def writeFallbackPlan (plan : FallbackPlanV1)
    (draw : Draw) : FallbackResult FallbackCommitReceiptV1 × RegistryStore :=
  match plan with
  | .replay row => (.ok ⟨row, .idempotentReplay⟩, x)
  | .commit commit =>
    match payloadDigest ports x.store.hasher commit.draft with
    | .error e => (.error e, x)
    | .ok digest =>
      let appended := x.store.guardedGenericAppend timeline [commit.draft] fun _ => draw
      match eventIdentity appended.1 digest with
      | .error e => (.error e, { x with store := appended.2 })
      | .ok event =>
        let row := commit.ledgerRow event
        (.ok ⟨row, .committed⟩, ⟨appended.2, x.compositionFallback.commit scope timeline commit row⟩)

/-- Plan and write one operation inside the erasure fence of its Timeline. -/
def fencedFallbackOperation (plan : FallbackReadsV1 → FallbackResult FallbackPlanV1) (draw : Draw) :
    FallbackResult FallbackCommitReceiptV1 × RegistryStore :=
  match x.compositionFallback.requireProvisioned with
  | .error e => (.error e, x)
  | .ok () => match x.store.erasureFence timeline with
    | .error _ => (.error .eventRejected, x)
    | .ok () => match plan x.fallbackView with
      | .error e => (.error e, x)
      | .ok planned => x.writeFallbackPlan ports scope timeline planned draw

def provisionFallbackRegistry : FallbackResult FallbackProvisionOutcomeV1 × RegistryStore :=
  (.ok (if x.compositionFallback.provisioned then .unchanged else .created),
    { x with compositionFallback := { x.compositionFallback with provisioned := true } })

def declare (request : FallbackDeclareRequestV1) (draw : Draw) :
    FallbackResult FallbackCommitReceiptV1 × RegistryStore :=
  x.fencedFallbackOperation ports request.scope request.target.timeline (planDeclare ports · request) draw

def activate (request : FallbackActivateRequestV1) (draw : Draw) :
    FallbackResult FallbackCommitReceiptV1 × RegistryStore :=
  x.fencedFallbackOperation ports request.scope request.target.timeline (planActivate ports · request) draw

def registryRow : FallbackResult (Option FallbackRegistryRowV1) := do
  x.compositionFallback.requireProvisioned
  x.fallbackView.storedRow scope timeline

def fallbackLedger : FallbackResult (List FallbackLedgerRowV1) := do
  x.compositionFallback.requireProvisioned
  .ok (x.compositionFallback.ledger scope timeline)

def lookupDeclaration (policyDigest : Hash) : FallbackResult (Option FallbackLedgerRowV1) := do
  let ledger ← x.fallbackLedger scope timeline
  .ok (ledger.find? fun row => row.declares policyDigest)

def lookupActivation (entryKey : String)
    (closingTenureOrdinal : Nat) : FallbackResult (Option FallbackLedgerRowV1) := do
  let ledger ← x.fallbackLedger scope timeline
  .ok (ledger.find? fun row => row.closes entryKey closingTenureOrdinal)

def retainedPolicy (policyDigest : Hash) : FallbackResult (Option CanonicalBytes) := do
  x.compositionFallback.requireProvisioned
  x.fallbackView.storedPolicy policyDigest

/-- A registry write leaves the store as it is, or as an append of one Event leaves it. -/
theorem fencedFallbackOperation_store (x : RegistryStore) (scope : String) (timeline : TimelineId)
    (plan : FallbackReadsV1 → FallbackResult FallbackPlanV1) (draw : Draw) :
    (x.fencedFallbackOperation ports scope timeline plan draw).2.store = x.store ∨
      ∃ draft, (x.fencedFallbackOperation ports scope timeline plan draw).2.store =
        (x.store.append timeline [draft] fun _ => draw).2 := by
  unfold fencedFallbackOperation
  split
  · exact .inl rfl
  split
  · exact .inl rfl
  rename_i hfence
  split
  · exact .inl rfl
  rename_i planned _
  cases planned with
  | replay row => exact .inl rfl
  | commit commit =>
    rw [writeFallbackPlan]
    split
    · exact .inl rfl
    · refine .inr ⟨commit.draft, ?_⟩
      rw [← MemoryStore.guardedGenericAppend_eq hfence]
      dsimp only
      split <;> rfl

end RegistryStore

/-! ## Operations and their replies -/

inductive Operation where
  | store (call : Call)
  | importTimelineWithId (exported : TimelineExport)
  | read (timeline : TimelineId) (range : SeqRange)
  | logicalHead (timeline : TimelineId)
  | chainHashAt (timeline : TimelineId) (atSeq : Seq)
  | readEventById (timeline : TimelineId) (eventId : EventId)
  | pipelineAdmissionFence (timeline : TimelineId)
  | lookupPipelineReceipt (timeline : TimelineId) (key : AppendDedupKey) (attemptId : PipelineAttemptIdV1)
      (clock : CoreResult WallTime)
  | provisionFallbackRegistry
  | declare (request : FallbackDeclareRequestV1) (draw : Draw)
  | activate (request : FallbackActivateRequestV1) (draw : Draw)
  | registryRow (scope : String) (timeline : TimelineId)
  | fallbackLedger (scope : String) (timeline : TimelineId)
  | lookupDeclaration (scope : String) (timeline : TimelineId) (policyDigest : Hash)
  | lookupActivation (scope : String) (timeline : TimelineId) (entryKey : String) (closingTenureOrdinal : Nat)
  | retainedPolicy (policyDigest : Hash)

/-- What an operation answers. -/
inductive Reply where
  | done (result : CoreResult Unit)
  | timeline (result : CoreResult Timeline)
  | events (result : CoreResult (List Event))
  | event (result : CoreResult (Option Event))
  | keyed (result : CoreResult AppendOrDuplicateOutcome)
  | removed (result : CoreResult Nat)
  | purged (result : CoreResult PurgeOutcome)
  | pipeline (result : CoreResult PipelineOutcomeV1)
  | receipt (result : CoreResult PipelineReceiptLookupV1)
  | fence (result : Option PipelineAdmissionFenceV1)
  | head (result : CoreResult Nat)
  | hash (result : CoreResult Hash)
  | provision (result : FallbackResult FallbackProvisionOutcomeV1)
  | committed (result : FallbackResult FallbackCommitReceiptV1)
  | row (result : FallbackResult (Option FallbackRegistryRowV1))
  | ledger (result : FallbackResult (List FallbackLedgerRowV1))
  | ledgerRow (result : FallbackResult (Option FallbackLedgerRowV1))
  | policy (result : FallbackResult (Option CanonicalBytes))

/-- What a call answers. -/
def MemoryStore.reply (s : MemoryStore) : Call → Reply
  | .createTimeline name id => .timeline (s.createTimeline name id).1
  | .append timeline drafts draw => .events (s.append timeline drafts draw).1
  | .appendOrDuplicate timeline identity admittedAt draft draw =>
    .keyed (s.appendOrDuplicate timeline identity admittedAt draft draw).1
  | .fork parent atSeq name id => .timeline (s.fork parent atSeq name id).1
  | .createTimelineWithMeta metadata => .timeline (s.createTimelineWithMeta metadata).1
  | .appendCommitted timeline events => .done (s.appendCommitted timeline events).1
  | .importCommitted metadata events => .timeline (s.importCommitted metadata events).1
  | .deleteTimeline timeline => .done (s.deleteTimeline timeline).1
  | .purgeExpiredAppendIdentities now => .removed (s.purgeExpiredAppendIdentities now).1
  | .purgeExpiredAppendIdentitiesBounded clock limit => .purged (s.purgeExpiredAppendIdentitiesBounded clock limit).1
  | .removeAppendIdentities scope => .removed (s.removeAppendIdentities scope).1
  | .removeAppendIdentitiesBounded scope limit => .purged (s.removeAppendIdentitiesBounded scope limit).1
  | .setPipelineAdmissionFence timeline fence => .done (s.setPipelineAdmissionFence timeline fence).1
  | .admitPipelineBatch basis clock planned draw => .pipeline (s.admitPipelineBatch basis clock planned draw).1
  | .purgeExpiredPipelineReceiptsBounded clock limit => .purged (s.purgeExpiredPipelineReceiptsBounded clock limit).1
  | .host _ => .done (.ok ())

namespace RegistryStore

variable (ports : FallbackPortsV1)

def perform (x : RegistryStore) : Operation → Reply × RegistryStore
  | .store call => (x.store.reply call, { x with store := x.store.exec call })
  | .importTimelineWithId exported =>
    let effect := x.store.importTimelineWithId exported
    (.timeline effect.1, { x with store := effect.2 })
  | .read timeline range => (.events (x.store.read timeline range), x)
  | .logicalHead timeline => (.head (x.store.logicalHead timeline), x)
  | .chainHashAt timeline atSeq => (.hash (x.store.chainHashAt timeline atSeq), x)
  | .readEventById timeline eventId => (.event (x.store.readEventById timeline eventId), x)
  | .pipelineAdmissionFence timeline => (.fence (x.store.pipelineAdmissionFences.lookup timeline), x)
  | .lookupPipelineReceipt timeline key attemptId clock =>
    (.receipt (x.store.lookupPipelineReceipt timeline key attemptId clock), x)
  | .provisionFallbackRegistry => (.provision x.provisionFallbackRegistry.1, x.provisionFallbackRegistry.2)
  | .declare request draw =>
    let effect := x.declare ports request draw
    (.committed effect.1, effect.2)
  | .activate request draw =>
    let effect := x.activate ports request draw
    (.committed effect.1, effect.2)
  | .registryRow scope timeline => (.row (x.registryRow scope timeline), x)
  | .fallbackLedger scope timeline => (.ledger (x.fallbackLedger scope timeline), x)
  | .lookupDeclaration scope timeline policyDigest => (.ledgerRow (x.lookupDeclaration scope timeline policyDigest), x)
  | .lookupActivation scope timeline entryKey closing => (.ledgerRow (x.lookupActivation scope timeline entryKey closing), x)
  | .retainedPolicy policyDigest => (.policy (x.retainedPolicy policyDigest), x)

/-- What a list of operations answers, one after the other. -/
def replies (x : RegistryStore) : List Operation → List Reply
  | [] => []
  | op :: ops => (x.perform ports op).1 :: replies (x.perform ports op).2 ops

/-- What a registry write draws for its one Event is new, and there is room for it. -/
def SaneWrite (x : RegistryStore) (target : CompositionFallbackTargetV1) (draw : Draw) : Prop :=
  x.store.Sane (.append target.timeline [EventDraft.new target.entity compositionFallbackDeclaredEventTypeV1 []] fun _ => draw)

/-- What the operation draws is new, and its batch has room. -/
def Sane (x : RegistryStore) : Operation → Prop
  | .store call => x.store.Sane call
  | .declare request draw => x.SaneWrite request.target draw
  | .activate request draw => x.SaneWrite request.target draw
  | _ => True

instance (x : RegistryStore) (target : CompositionFallbackTargetV1) (draw : Draw) : Decidable (x.SaneWrite target draw) :=
  inferInstanceAs (Decidable (x.store.Sane _))

/-- Every operation leaves a store that calls reach. -/
theorem perform_reachable {x : RegistryStore} {op : Operation} (hx : x.store.Reachable MemoryStore.Sane)
    (hop : x.Sane op) : (x.perform ports op).2.store.Reachable MemoryStore.Sane := by
  have hwrite : ∀ scope timeline plan draw,
      (∀ draft, x.store.Sane (.append timeline [draft] fun _ => draw)) →
      (x.fencedFallbackOperation ports scope timeline plan draw).2.store.Reachable MemoryStore.Sane := by
    intro scope timeline plan draw hsane
    rcases x.fencedFallbackOperation_store ports scope timeline plan draw with h | ⟨draft, h⟩
    · rw [h]; exact hx
    · rw [h]; exact .step hx (hsane draft)
  cases op with
  | store call => exact .step hx hop
  | importTimelineWithId exported =>
    show (x.store.importTimelineWithId exported).2.Reachable MemoryStore.Sane
    rcases MemoryStore.after_cases x.store _ _ with ⟨e, -, he⟩ | ⟨_, -, he⟩
    · rw [MemoryStore.importTimelineWithId, he]; exact hx
    · rw [MemoryStore.importTimelineWithId, he]
      exact .step (c := .importCommitted exported.timeline.metadata exported.events) hx ⟨trivial, trivial⟩
  -- whether one Event may be appended does not depend on its draft
  | declare request draw | activate request draw => exact hwrite _ _ _ _ fun _ => hop
  | _ => exact hx

end RegistryStore

/-! ## Sidecars and deletion -/

inductive OwnTracksEnrollmentStatusV1 where
  | absent
  | active
  | revoked
deriving DecidableEq

/-- The fence of an enrollment, of which revoking advances the consent's admission epoch. -/
structure GeoLocationAdmissionFenceV1 where
  bindingRevision : Nat
  consentIdentity : Hash
  consentRevision : Nat
  consentHash : Hash
  policyVersion : Nat
  withdrawn : Bool
  admissionEpoch : Nat

/-- The one local device enrollment. -/
structure OwnTracksEnrollmentStateV1 where
  status : OwnTracksEnrollmentStatusV1
  timeline : Option TimelineId
  entity : Option EntityId
  fence : Option GeoLocationAdmissionFenceV1
  verifier : Option Hash

namespace OwnTracksEnrollmentStateV1

def absent : OwnTracksEnrollmentStateV1 := ⟨.absent, none, none, none, none⟩

def permitsGeographicAdmissionTarget (state : OwnTracksEnrollmentStateV1) (timeline : TimelineId) : Bool :=
  state.status == .active && state.timeline == some timeline

def advanceEpoch (fence : GeoLocationAdmissionFenceV1) : CoreResult GeoLocationAdmissionFenceV1 :=
  match (checkedAdd fence.admissionEpoch 1).filter fun epoch => decide (epoch ≠ 0) with
  | some epoch => .ok { fence with admissionEpoch := epoch }
  | none => .error .geographicAdmissionValidationFailed

def revoke (state : OwnTracksEnrollmentStateV1) : CoreResult OwnTracksEnrollmentStateV1 := do
  if state.status ≠ .active then .error .geographicAdmissionValidationFailed
  else
    let some fence := state.fence | .error .geographicAdmissionValidationFailed
    let advanced ← advanceEpoch fence
    .ok { state with fence := some advanced, status := .revoked, verifier := none }

end OwnTracksEnrollmentStateV1

/-- A retained location admission: its Timeline and its Event. -/
structure GeographicAdmissionDedupRecord where
  timeline : TimelineId
  eventId : EventId
  expiresAt : WallTime

/-- The tables beside the store and the registry, with the columns that deletion reads. -/
structure Sidecars where
  owntracksEnrollment : OwnTracksEnrollmentStateV1
  geographicAdmissionDedup : Table Hash GeographicAdmissionDedupRecord
  geographicAdmissionSnapshots : Table EventId CanonicalBytes
  geographicAdmissionLinks : Table (TimelineId × EventId) CanonicalBytes
  geographicCellFences : Table (TimelineId × EntityId) CanonicalBytes
  geographicCellDedup : Table Hash GeographicAdmissionDedupRecord
  /-- A snapshot's Timeline and its canonical form, by snapshot id. -/
  geographicCellSnapshots : Table Hash (TimelineId × CanonicalBytes)
  geographicCellLinks : Table (TimelineId × EventId) CanonicalBytes
  /-- A Fork's generation, with its facts, artifacts and recorded rows. -/
  counterfactualForks : Table TimelineId (Nat × CanonicalBytes)
  counterfactualGenerationFloors : Table TimelineId Nat

namespace Sidecars

/-- Drop a deleted Fork's counterfactual rows, keeping its last generation as a floor. -/
def purgeCounterfactualState (y : Sidecars) (timeline : TimelineId) : Sidecars :=
  match y.counterfactualForks.lookup timeline with
  | none => y
  | some state => { y with
      counterfactualForks := y.counterfactualForks.erase timeline
      counterfactualGenerationFloors := y.counterfactualGenerationFloors.insert timeline state.1 }

/-- An active enrollment of the Timeline is revoked, or dropped when it cannot be. -/
def revokeEnrollment (enrollment : OwnTracksEnrollmentStateV1) (timeline : TimelineId) : OwnTracksEnrollmentStateV1 :=
  if enrollment.permitsGeographicAdmissionTarget timeline then
    match enrollment.revoke with
    | .ok revoked => revoked
    | .error _ => .absent
  else enrollment

/-- The sidecars' part of a deletion. -/
def forgetTimeline (y : Sidecars) (id : TimelineId) (eventIds : Finset EventId) : Sidecars :=
  let y := y.purgeCounterfactualState id
  { y with
    owntracksEnrollment := revokeEnrollment y.owntracksEnrollment id
    geographicAdmissionDedup := Table.retain (fun _ record => decide (record.timeline ≠ id)) y.geographicAdmissionDedup
    geographicAdmissionSnapshots := Table.retain (fun e _ => decide (e ∉ eventIds)) y.geographicAdmissionSnapshots
    geographicAdmissionLinks :=
      Table.retain (fun key _ => decide (key.1 ≠ id ∧ key.2 ∉ eventIds)) y.geographicAdmissionLinks
    geographicCellFences := Table.retain (fun key _ => decide (key.1 ≠ id)) y.geographicCellFences
    geographicCellDedup := Table.retain (fun _ record => decide (record.timeline ≠ id)) y.geographicCellDedup
    geographicCellSnapshots := Table.retain (fun _ snapshot => decide (snapshot.1 ≠ id)) y.geographicCellSnapshots
    geographicCellLinks := Table.retain (fun key _ => decide (key.1 ≠ id ∧ key.2 ∉ eventIds)) y.geographicCellLinks }

end Sidecars

structure MemoryAdapter extends RegistryStore where
  sidecars : Sidecars

namespace MemoryAdapter

/-- `delete_timeline`: the store's part and the sidecars' part. The registry has none. -/
def deleteTimeline (x : MemoryAdapter) (id : TimelineId) : CoreResult Unit × MemoryAdapter :=
  match x.store.deleteTimeline id with
  | (.error e, store) => (.error e, { x with store })
  | (.ok (), store) =>
    (.ok (), { x with
      store
      sidecars := x.sidecars.forgetTimeline id ((x.store.ownEvents id).map Event.id).toFinset })

/-- The adapters reached by operations and deletions. The sidecars' own operations are not modelled:
they may hold anything at any time. -/
inductive Reachable (ports : FallbackPortsV1) : MemoryAdapter → Prop where
  | blank {x : MemoryAdapter} : x.store.Blank → x.compositionFallback = .default → Reachable ports x
  | perform {x : MemoryAdapter} {op : Operation} : Reachable ports x → x.toRegistryStore.Sane op →
      Reachable ports { x with toRegistryStore := (x.toRegistryStore.perform ports op).2 }
  | deleteTimeline {x : MemoryAdapter} (id : TimelineId) : Reachable ports x → Reachable ports (x.deleteTimeline id).2
  | sidecars {x : MemoryAdapter} (sidecars : Sidecars) : Reachable ports x → Reachable ports { x with sidecars }

variable {ports : FallbackPortsV1}

theorem Reachable.run {registry : MemoryCompositionFallbackStateV1} {sidecars : Sidecars} :
    ∀ {calls : List Call} {s : MemoryStore}, Reachable ports ⟨⟨s, registry⟩, sidecars⟩ →
    MemoryStore.Admissible MemoryStore.Sane s calls → Reachable ports ⟨⟨s.run calls, registry⟩, sidecars⟩
  | [], _, hx, _ => hx
  | c :: calls, s, hx, hc => by
    have hstep : Reachable ports ⟨⟨s.exec c, registry⟩, sidecars⟩ := @Reachable.perform ports _ (.store c) hx hc.1
    exact hstep.run hc.2

theorem deleteTimeline_store (x : MemoryAdapter) (id : TimelineId) :
    (x.deleteTimeline id).2.store = (x.store.deleteTimeline id).2 := by
  unfold deleteTimeline
  split <;> rename_i h <;> rw [h]

theorem Reachable.store {x : MemoryAdapter} (hx : Reachable ports x) : x.store.Reachable MemoryStore.Sane := by
  induction hx with
  | blank hb _ => exact .blank hb
  | perform _ hop ih => exact RegistryStore.perform_reachable ports ih hop
  | @deleteTimeline x id _ ih =>
    rw [deleteTimeline_store]
    exact .step (c := .deleteTimeline id) ih ⟨trivial, trivial⟩
  | sidecars _ _ ih => exact ih

end MemoryAdapter

end Piglor
