/-
The in-memory store's state (`pos-store` memory.rs, lib.rs): Timelines with their own Events and
chain heads, the EventId index, the two retry tables, the pipeline fences and the host-owned guard
state, with the guards every operation runs first. The erasure gate's decision does not depend on
the operation, so a gate is its verdict per Timeline.
-/
import PiglorProofs.Core.Pipeline
import PiglorProofs.Keys.Registry

namespace Piglor

open KeyRegistry (KeyRegistryStateV1)

/-! ## State -/

/-- One Timeline's state: its handle, its own Events by local sequence, and its chain head. -/
structure TimelineState where
  timeline : Timeline
  events : List Event
  chainHead : Hash

def TimelineState.new (timeline : Timeline) (chainHead : Hash) : TimelineState := ⟨timeline, [], chainHead⟩

/-- The comparison material an append identity retains. -/
structure RetainedAppendContent where
  entity : EntityId
  eventType : Kind
  payload : CanonicalBytes
  causationId : Option EventId
  correlationId : Option CorrelationId
  schemaVersion : SchemaVersion
deriving DecidableEq

structure AppendIdentityRecord where
  timeline : TimelineId
  scope : AppendDedupScope
  eventId : EventId
  expiresAt : WallTime
  retainedContent : RetainedAppendContent
deriving DecidableEq

/-- Exact-retry state of one committed admitted batch. -/
structure PipelineReceiptRecordV1 where
  timeline : TimelineId
  scope : AppendDedupScope
  expiresAt : WallTime
  attemptId : PipelineAttemptIdV1
  basisDigest : Hash
  draftBatchDigest : Hash
  firstLocalSeq : Nat
  eventCount : Nat
deriving DecidableEq

inductive ErasureContainmentErrorV1 where
  | accessFrozen
  | recoveryUnavailable
deriving DecidableEq

abbrev ContainmentResult := Except ErasureContainmentErrorV1

/-- What a store reads of the host's containment gate: its installed inventory generation, whether it
is the open fixture, and its verdict on each Timeline. -/
structure ErasureGateView where
  inventoryGeneration : Option Hash
  permitsUnverifiedTestFixture : Bool
  authorize : TimelineId → ContainmentResult Unit

/-- The open test fixture. -/
def ErasureGateView.newTestOpen : ErasureGateView := ⟨none, true, fun _ => .ok ()⟩

structure MemoryStore where
  timelines : Table TimelineId TimelineState
  eventIds : Finset EventId
  appendIdentities : Table AppendDedupKey AppendIdentityRecord
  pendingAppendIdentityCleanup : List AppendDedupScope
  geographicTimelines : Finset TimelineId
  erasureGate : Option ErasureGateView
  erasureGateBound : Bool
  erasureInventoryGeneration : Option Hash
  erasureTopologyRequiresPermit : Bool
  keyRegistry : Option KeyRegistryStateV1
  authorityState : Hash → Except AuthorityPersistenceErrorV1 PersistedAuthorityV1
  pipelineAdmissionFences : Table TimelineId PipelineAdmissionFenceV1
  dependencyPrefixes : Table TimelineId DependencyRowsV1
  pipelineAdmissionReceipts : Table AppendDedupKey PipelineReceiptRecordV1
  forkAdmissions : Finset TimelineId
  importedForkAdmissions : Finset TimelineId
  hasher : Hasher
  digests : PipelineDigestsV1

/-- A store without Timelines, Events or records, under a gate. -/
def MemoryStore.empty (hasher : Hasher) (digests : PipelineDigestsV1) (gate : ErasureGateView) :
    MemoryStore where
  timelines := ∅
  eventIds := ∅
  appendIdentities := ∅
  pendingAppendIdentityCleanup := []
  geographicTimelines := ∅
  erasureGate := some gate
  erasureGateBound := false
  erasureInventoryGeneration := none
  erasureTopologyRequiresPermit := false
  keyRegistry := none
  authorityState := fun _ => .error .unresolved
  pipelineAdmissionFences := ∅
  dependencyPrefixes := ∅
  pipelineAdmissionReceipts := ∅
  forkAdmissions := ∅
  importedForkAdmissions := ∅
  hasher := hasher
  digests := digests

/-- A store with nothing in it, for evaluating the model. -/
def blankStore : MemoryStore := .empty Hasher.counting PipelineDigestsV1.constant .newTestOpen

/-- What one `prepare_one_for_state` draws from its environment: `EventId::new()` and `WallTime::now()`. -/
structure Draw where
  id : EventId
  now : WallTime

/-- Ids from a first one on, at one time. -/
def drawsFrom (first : Nat) (now : WallTime) (i : Nat) : Draw := ⟨⟨BitVec.ofNat 128 (i + first)⟩, now⟩

/-- The result of an operation and the store it leaves. -/
abbrev Effect (α : Type) := CoreResult α × MemoryStore

namespace MemoryStore

/-- Run an effect when the checks pass; a refusal leaves the store as it is. -/
def after {α β : Type} (s : MemoryStore) (checks : CoreResult β) (effect : β → Effect α) : Effect α :=
  match checks with
  | .error e => (.error e, s)
  | .ok b => effect b

variable {α β : Type}

@[simp] theorem after_ok (s : MemoryStore) (b : β) (effect : β → Effect α) :
    s.after (.ok b) effect = effect b := rfl

@[simp] theorem after_error (s : MemoryStore) (e : CoreError) (effect : β → Effect α) :
    s.after (.error e) effect = (.error e, s) := rfl

/-- Either a check refuses and nothing changes, or the effect runs. -/
theorem after_cases (s : MemoryStore) (checks : CoreResult β) (effect : β → Effect α) :
    (∃ e, checks = .error e ∧ s.after checks effect = (.error e, s)) ∨
      ∃ b, checks = .ok b ∧ s.after checks effect = effect b := by
  cases checks with
  | error e => exact .inl ⟨e, rfl, rfl⟩
  | ok b => exact .inr ⟨b, rfl, rfl⟩

theorem after_eq_ok {s s' : MemoryStore} {checks : CoreResult β} {effect : β → Effect α} {a : α}
    (h : s.after checks effect = (.ok a, s')) : ∃ b, checks = .ok b ∧ effect b = (.ok a, s') := by
  rcases after_cases s checks effect with ⟨e, -, he⟩ | ⟨b, hb, he⟩
  · rw [he] at h; cases h
  · exact ⟨b, hb, he ▸ h⟩

/-! ## Guards -/

def erasureContainmentError : ErasureContainmentErrorV1 → CoreError
  | .accessFrozen => .erasureAccessFrozen
  | .recoveryUnavailable => .erasureContainmentUnavailable

/-- A bound gate must hold the inventory generation the store captured, or be the open fixture. -/
def validateBoundErasureInventoryGeneration (gateBound : Bool) (gate : ErasureGateView)
    (generation : Option Hash) : CoreResult Unit :=
  if !gateBound then .ok ()
  else match gate.inventoryGeneration with
    | some g => if some g = generation then .ok () else .error .erasureContainmentUnavailable
    | none => if gate.permitsUnverifiedTestFixture then .ok () else .error .erasureContainmentUnavailable

variable (s : MemoryStore)

def validatedErasureGate : CoreResult ErasureGateView := do
  let some gate := s.erasureGate | .error .erasureContainmentUnavailable
  validateBoundErasureInventoryGeneration s.erasureGateBound gate s.erasureInventoryGeneration
  .ok gate

/-- The fence of a protected operation: the gate's decision on its Timeline. -/
def erasureFence (timeline : TimelineId) : CoreResult Unit := do
  let gate ← s.validatedErasureGate
  (gate.authorize timeline).mapError erasureContainmentError

/-- The gate admits protected operations on the Timeline. -/
def Admits (timeline : TimelineId) : Prop := s.erasureFence timeline = .ok ()

instance (s : MemoryStore) (timeline : TimelineId) : Decidable (s.Admits timeline) :=
  inferInstanceAs (Decidable (s.erasureFence timeline = .ok ()))

def ensureDirectTopologyMutationAllowed : CoreResult Unit :=
  if s.erasureTopologyRequiresPermit then .error .erasureContainmentUnavailable else .ok ()

def timeline (id : TimelineId) : CoreResult Timeline :=
  match s.timelines.lookup id with
  | some state => .ok state.timeline
  | none => .error (.timelineNotFound id)

def mutableState (id : TimelineId) : CoreResult TimelineState :=
  match s.timelines.lookup id with
  | some state => .ok state
  | none => .error (.timelineNotFound id)

/-- A Timeline with protected evidence is indistinguishable from a missing one. -/
def ensureGenericTimelineVisibility (timeline : TimelineId) : CoreResult Unit := do
  let _ ← s.timeline timeline
  if timeline ∈ s.geographicTimelines then .error (.timelineNotFound timeline) else .ok ()

def forkIsAdmitted (timeline : TimelineId) : Bool :=
  timeline ∈ s.forkAdmissions || timeline ∈ s.importedForkAdmissions

def ensureGenericForkAppendIsRejected (timeline : TimelineId) : CoreResult Unit :=
  if s.forkIsAdmitted timeline then
    .error (.storage "admitted Fork Events require classified append authority")
  else .ok ()

/-- An Event type reserved for a dedicated host seam. -/
def reservedKind (kind : Kind) : Bool := isGeographicEventType kind || isConsentEventType kind

def ensureNonGeographicDrafts (drafts : List EventDraft) (timeline : TimelineId) : CoreResult Unit :=
  if drafts.any (fun d => reservedKind d.eventType) then .error (.timelineNotFound timeline) else .ok ()

def ensureNonGeographicDraft (draft : EventDraft) (timeline : TimelineId) : CoreResult Unit :=
  if reservedKind draft.eventType then .error (.timelineNotFound timeline) else .ok ()

def ensureNonGeographicEvents (events : List Event) (timeline : TimelineId) : CoreResult Unit :=
  if events.any (fun e => reservedKind e.eventType) then .error (.timelineNotFound timeline) else .ok ()

/-- The registry owner of a subject: `subject:` and 32 hexadecimal digits. -/
def subjectOwner (entity : EntityId) : String :=
  "subject:" ++ String.ofList ((List.range 32).map fun i => Nat.digitChar (entity.ulid.toNat / 16 ^ (31 - i) % 16))

/-- The subject has been given a data encryption key. -/
def subjectHasKey (registry : Option KeyRegistryStateV1) (entity : EntityId) : Bool :=
  registry.any fun r => r.records.any fun _ record =>
    record.identity.role == .subjectDataEncryption && record.identity.ownerId.text == subjectOwner entity

def ensurePlaintextPreferenceAllowed (registry : Option KeyRegistryStateV1) (entity : EntityId) (kind : Kind) :
    CoreResult Unit :=
  if kind == "persona.preference" && subjectHasKey registry entity then .error .subjectPlaintextPreferenceRefused
  else .ok ()

/-- The logical head implied by an inherited prefix and a local head. -/
def checkedLogicalHead (logicalPrefix ownedHead : Nat) : CoreResult Nat :=
  match checkedAdd logicalPrefix ownedHead with
  | some n => .ok n
  | none => .error (.storage "logical Timeline sequence overflow")

theorem checkedLogicalHead_eq_ok {a b n : Nat} : checkedLogicalHead a b = .ok n ↔ a + b ≤ u64Max ∧ n = a + b := by
  unfold checkedLogicalHead checkedAdd
  by_cases h : a + b ≤ u64Max
  · simp [h, eq_comm]
  · simp [h]

def logicalPrefix (timeline : TimelineId) : CoreResult Nat := do
  let t ← s.timeline timeline
  .ok t.metadata.prefixLen

theorem logicalPrefix_eq {s : MemoryStore} {t : TimelineId} {st : TimelineState} (h : s.timelines.lookup t = some st) :
    s.logicalPrefix t = .ok st.timeline.metadata.prefixLen := by
  rw [logicalPrefix, MemoryStore.timeline, h]
  rfl

/-- An own Event as the logical Timeline shows it. -/
def logicalEvent (logicalPrefix : Nat) (event : Event) : CoreResult Event :=
  match checkedAdd logicalPrefix event.seq with
  | some seq => .ok { event with seq }
  | none => .error (.storage "logical Timeline sequence overflow")

end MemoryStore

end Piglor
