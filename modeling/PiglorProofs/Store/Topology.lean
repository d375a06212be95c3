/-
Creating, forking, importing and deleting Timelines (memory.rs, pos-core store.rs). A new root
starts from the genesis hash and a Fork from its parent's chain hash at the cut; deleting takes a
Timeline without Forks and everything recorded for it. An import that fails after it created its
Timeline deletes it again.
-/
import PiglorProofs.Store.Append
import PiglorProofs.Store.Chain

namespace Piglor.MemoryStore

variable (s : MemoryStore)

/-! ## Roots and Forks -/

/-- `create_timeline` with the id its metadata draws. -/
def createTimeline (name : String) (id : TimelineId) : Effect Timeline :=
  s.after s.ensureDirectTopologyMutationAllowed fun _ =>
  let timeline := Timeline.new (TimelineMeta.root id name)
  (.ok timeline, s.setTimeline id (TimelineState.new timeline s.hasher.genesisHash))

/-- The cut must not lie beyond the parent's logical head; the child starts from the chain hash there. -/
def forkHash (parent : TimelineId) (atSeq : Seq) : CoreResult Hash := do
  let parentHead ← s.logicalHeadUnchecked parent
  if atSeq > parentHead then .error (.forkBeyondHead atSeq parentHead)
  else s.computeChainHashAt parent atSeq

/-- A Fork keeps its parent's owner. -/
def forkMeta (parent : TimelineId) (atSeq : Seq) (name : String) (id : TimelineId) : TimelineMeta :=
  match (s.timelines.lookup parent).bind fun state => state.timeline.metadata.owner with
  | none => TimelineMeta.forkedFrom id parent atSeq name
  | some owner => TimelineMeta.forkedFromOwned id parent atSeq name owner

/-- `fork` with the id its metadata draws. -/
def fork (parent : TimelineId) (atSeq : Seq) (name : String) (id : TimelineId) : Effect Timeline :=
  s.after (do
    s.ensureDirectTopologyMutationAllowed
    s.erasureFence parent
    s.ensureGenericTimelineVisibility parent
    s.forkHash parent atSeq) fun hash =>
  let child := Timeline.new (s.forkMeta parent atSeq name id)
  (.ok child, s.setTimeline id (TimelineState.new child hash))

/-- The chain hash a Timeline with this metadata starts from. -/
def initialHash (metadata : TimelineMeta) : CoreResult Hash :=
  match metadata.forkPoint with
  | none => .ok s.hasher.genesisHash
  | some (parent, atSeq) => do
    s.erasureFence parent
    s.ensureGenericTimelineVisibility parent
    s.forkHash parent atSeq

def createTimelineWithMeta (metadata : TimelineMeta) : Effect Timeline :=
  s.after (do
    s.ensureDirectTopologyMutationAllowed
    let hash ← s.initialHash metadata
    if (s.timelines.lookup metadata.id).isSome then
      .error (.storage ("timeline already exists: " ++ metadata.id.display))
    else .ok hash) fun hash =>
  let timeline := Timeline.new metadata
  (.ok timeline, s.setTimeline metadata.id (TimelineState.new timeline hash))

/-! ## Deleting -/

def hasChildTimeline (parent : TimelineId) : Bool :=
  s.timelines.any fun _ state => state.timeline.metadata.forkPoint.any fun cut => decide (cut.1 = parent)

/-- A Timeline with protected evidence is hidden from administration too. -/
def ensureAdminVisibility (timeline : TimelineId) : CoreResult Unit :=
  s.ensureGenericTimelineVisibility timeline

def ensureTimelineDeletable (id : TimelineId) : CoreResult Unit :=
  if s.hasChildTimeline id then .error (.storage "cannot delete timeline that still has forks")
  else if (s.timelines.lookup id).isSome && s.forkIsAdmitted id then .error (.admittedForkNotDeletable id)
  else .ok ()

/-- Remove the Timeline's Events, their ids and retry records, its fence, receipts and dependency rows. -/
def forgetTimeline (id : TimelineId) (state : TimelineState) : MemoryStore :=
  let eventIds := (state.events.map Event.id).toFinset
  { s with
    timelines := s.timelines.erase id
    eventIds := s.eventIds \ eventIds
    appendIdentities := Table.retain (fun _ record => decide (record.eventId ∉ eventIds)) s.appendIdentities
    pipelineAdmissionFences := s.pipelineAdmissionFences.erase id
    pipelineAdmissionReceipts :=
      Table.retain (fun _ record => decide (record.timeline ≠ id)) s.pipelineAdmissionReceipts
    dependencyPrefixes := s.dependencyPrefixes.erase id
    geographicTimelines := s.geographicTimelines.erase id }

def deleteTimeline (id : TimelineId) : Effect Unit :=
  s.after (do
    s.ensureDirectTopologyMutationAllowed
    s.ensureAdminVisibility id
    s.ensureTimelineDeletable id
    s.mutableState id) fun state =>
  (.ok (), s.forgetTimeline id state)

/-! ## Importing -/

/-- Delete a partially imported Timeline; a failed delete is reported with the original error. -/
def rollbackImport {α : Type} (s : MemoryStore) (id : TimelineId) (err : CoreError) : Effect α :=
  match s.deleteTimeline id with
  | (.ok (), s) => (.error err, s)
  | (.error delErr, s) =>
    (.error (.storage ("import failed (" ++ err.display ++ "); rollback delete also failed (" ++
      delErr.display ++ ")")), s)

/-- The end of an import: the Timeline must be readable. -/
def finishImport (id : TimelineId) : Effect Timeline :=
  match s.getTimeline id with
  | .ok (some timeline) => (.ok timeline, s)
  | .ok none => s.rollbackImport id (.timelineNotFound id)
  | .error e => s.rollbackImport id e

def importCommitted (metadata : TimelineMeta) (events : List Event) : Effect Timeline :=
  s.after s.ensureDirectTopologyMutationAllowed fun _ =>
  match s.createTimelineWithMeta metadata with
  | (.error e, s) => (.error e, s)
  | (.ok created, s) =>
    -- never taken by this adapter, which keeps the requested id
    if created.id ≠ metadata.id then
      s.rollbackImport created.id (.storage "store did not honour requested TimelineId")
    else match s.appendCommitted metadata.id events with
      -- a refused batch takes its Timeline with it
      | (.error e, s) => s.rollbackImport metadata.id e
      | (.ok (), s) => s.finishImport metadata.id

end Piglor.MemoryStore
