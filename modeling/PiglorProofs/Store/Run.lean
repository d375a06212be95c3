/-
Runs of the store: every operation as a call, with what it draws from its environment, and the
stores that calls reach from an empty one. Host-owned state (the gate, the key registry, the
authority, protected markers and Fork admissions) may change between calls in any way.
-/
import PiglorProofs.Store.Invariant
import PiglorProofs.Store.Retry

namespace Piglor

open KeyRegistry (KeyRegistryStateV1)

/-- The state the host owns. -/
structure HostState where
  geographicTimelines : Finset TimelineId
  erasureGate : Option ErasureGateView
  erasureGateBound : Bool
  erasureInventoryGeneration : Option Hash
  erasureTopologyRequiresPermit : Bool
  keyRegistry : Option KeyRegistryStateV1
  authorityState : Hash → Except AuthorityPersistenceErrorV1 PersistedAuthorityV1
  forkAdmissions : Finset TimelineId
  importedForkAdmissions : Finset TimelineId

/-- One operation on the store, with the ids, clock readings and Tick verdict it draws. -/
inductive Call where
  | createTimeline (name : String) (id : TimelineId)
  | append (timeline : TimelineId) (drafts : List EventDraft) (draw : Nat → Draw)
  | appendOrDuplicate (timeline : TimelineId) (identity : AppendIdentity) (admittedAt : WallTime) (draft : EventDraft)
      (draw : Draw)
  | fork (parent : TimelineId) (atSeq : Seq) (name : String) (id : TimelineId)
  | createTimelineWithMeta (metadata : TimelineMeta)
  | appendCommitted (timeline : TimelineId) (events : List Event)
  | importCommitted (metadata : TimelineMeta) (events : List Event)
  | deleteTimeline (timeline : TimelineId)
  | purgeExpiredAppendIdentities (now : WallTime)
  | purgeExpiredAppendIdentitiesBounded (clock : CoreResult WallTime) (limit : ℕ+)
  | removeAppendIdentities (scope : AppendDedupScope)
  | removeAppendIdentitiesBounded (scope : AppendDedupScope) (limit : ℕ+)
  | setPipelineAdmissionFence (timeline : TimelineId) (fence : PipelineAdmissionFenceV1)
  | admitPipelineBatch (basis : PipelineAdmissionBasisV1) (clock : CoreResult WallTime)
      (planned : CoreResult PlannedTickV1) (draw : Nat → Draw)
  | purgeExpiredPipelineReceiptsBounded (clock : CoreResult WallTime) (limit : ℕ+)
  | host (state : HostState)

namespace MemoryStore

def withHost (s : MemoryStore) (h : HostState) : MemoryStore :=
  { s with
    geographicTimelines := h.geographicTimelines
    erasureGate := h.erasureGate
    erasureGateBound := h.erasureGateBound
    erasureInventoryGeneration := h.erasureInventoryGeneration
    erasureTopologyRequiresPermit := h.erasureTopologyRequiresPermit
    keyRegistry := h.keyRegistry
    authorityState := h.authorityState
    forkAdmissions := h.forkAdmissions
    importedForkAdmissions := h.importedForkAdmissions }

/-- The store a call leaves, whatever it returns. -/
def exec (s : MemoryStore) : Call → MemoryStore
  | .createTimeline name id => (s.createTimeline name id).2
  | .append timeline drafts draw => (s.append timeline drafts draw).2
  | .appendOrDuplicate timeline identity admittedAt draft draw =>
    (s.appendOrDuplicate timeline identity admittedAt draft draw).2
  | .fork parent atSeq name id => (s.fork parent atSeq name id).2
  | .createTimelineWithMeta metadata => (s.createTimelineWithMeta metadata).2
  | .appendCommitted timeline events => (s.appendCommitted timeline events).2
  | .importCommitted metadata events => (s.importCommitted metadata events).2
  | .deleteTimeline timeline => (s.deleteTimeline timeline).2
  | .purgeExpiredAppendIdentities now => (s.purgeExpiredAppendIdentities now).2
  | .purgeExpiredAppendIdentitiesBounded clock limit => (s.purgeExpiredAppendIdentitiesBounded clock limit).2
  | .removeAppendIdentities scope => (s.removeAppendIdentities scope).2
  | .removeAppendIdentitiesBounded scope limit => (s.removeAppendIdentitiesBounded scope limit).2
  | .setPipelineAdmissionFence timeline fence => (s.setPipelineAdmissionFence timeline fence).2
  | .admitPipelineBatch basis clock planned draw => (s.admitPipelineBatch basis clock planned draw).2
  | .purgeExpiredPipelineReceiptsBounded clock limit => (s.purgeExpiredPipelineReceiptsBounded clock limit).2
  | .host h => s.withHost h

/-- A drawn TimelineId is new: no Timeline, marker or admission has it. -/
def FreshTimeline (s : MemoryStore) (id : TimelineId) : Prop :=
  s.timelines.lookup id = none ∧ id ∉ s.geographicTimelines ∧ s.forkIsAdmitted id = false

/-- What a call draws is new: no TimelineId or EventId repeats. -/
def Fresh (s : MemoryStore) : Call → Prop
  | .createTimeline _ id => s.FreshTimeline id
  | .append _ drafts draw => s.FreshEvents drafts.length draw
  | .appendOrDuplicate _ _ _ _ draw => s.FreshEvents 1 fun _ => draw
  | .fork _ _ _ id => s.FreshTimeline id
  | .admitPipelineBatch basis _ _ draw => s.FreshEvents basis.batch.drafts.length draw
  | _ => True

instance (s : MemoryStore) (id : TimelineId) : Decidable (s.FreshTimeline id) :=
  inferInstanceAs (Decidable (_ ∧ _))

instance (s : MemoryStore) : (c : Call) → Decidable (s.Fresh c)
  | .createTimeline _ id => inferInstanceAs (Decidable (s.FreshTimeline id))
  | .append _ drafts draw => inferInstanceAs (Decidable (s.FreshEvents drafts.length draw))
  | .appendOrDuplicate _ _ _ _ draw => inferInstanceAs (Decidable (s.FreshEvents 1 fun _ => draw))
  | .fork _ _ _ id => inferInstanceAs (Decidable (s.FreshTimeline id))
  | .admitPipelineBatch basis _ _ draw => inferInstanceAs (Decidable (s.FreshEvents basis.batch.drafts.length draw))
  | .createTimelineWithMeta _ | .appendCommitted _ _ | .importCommitted _ _ | .deleteTimeline _
  | .purgeExpiredAppendIdentities _ | .purgeExpiredAppendIdentitiesBounded _ _ | .removeAppendIdentities _
  | .removeAppendIdentitiesBounded _ _ | .setPipelineAdmissionFence _ _ | .purgeExpiredPipelineReceiptsBounded _ _
  | .host _ => .isTrue trivial

/-- No batch runs past the last sequence number: a history of `u64::MAX` Events does not fit in memory. -/
def Room (s : MemoryStore) : Call → Prop
  | .append timeline drafts _ => s.HasRoom timeline drafts
  | _ => True

instance (s : MemoryStore) : (c : Call) → Decidable (s.Room c)
  | .append timeline drafts _ => inferInstanceAs (Decidable (s.HasRoom timeline drafts))
  | .createTimeline _ _ | .appendOrDuplicate _ _ _ _ _ | .fork _ _ _ _ | .createTimelineWithMeta _
  | .appendCommitted _ _ | .importCommitted _ _ | .deleteTimeline _ | .purgeExpiredAppendIdentities _
  | .purgeExpiredAppendIdentitiesBounded _ _ | .removeAppendIdentities _ | .removeAppendIdentitiesBounded _ _
  | .setPipelineAdmissionFence _ _ | .admitPipelineBatch _ _ _ _ | .purgeExpiredPipelineReceiptsBounded _ _
  | .host _ => .isTrue trivial

/-- A store without Timelines, Events or records, under any host-owned state. -/
structure Blank (s : MemoryStore) : Prop where
  timelines : s.timelines = ∅
  eventIds : s.eventIds = ∅
  appendIdentities : s.appendIdentities = ∅
  fences : s.pipelineAdmissionFences = ∅
  receipts : s.pipelineAdmissionReceipts = ∅
  dependencies : s.dependencyPrefixes = ∅

theorem Blank.empty {hasher : Hasher} {digests : PipelineDigestsV1} {gate : ErasureGateView} :
    (MemoryStore.empty hasher digests gate).Blank := ⟨rfl, rfl, rfl, rfl, rfl, rfl⟩

/-- The stores reached from an empty one by calls that satisfy `ok`. -/
inductive Reachable (ok : MemoryStore → Call → Prop) : MemoryStore → Prop where
  | blank {s : MemoryStore} : s.Blank → Reachable ok s
  | step {s : MemoryStore} {c : Call} : Reachable ok s → ok s c → Reachable ok (s.exec c)

variable {ok ok' : MemoryStore → Call → Prop} {s : MemoryStore}

theorem Reachable.mono (h : ∀ s c, ok s c → ok' s c) (hs : Reachable ok s) : Reachable ok' s := by
  induction hs with
  | blank hb => exact .blank hb
  | step _ hc ih => exact .step ih (h _ _ hc)

def run (s : MemoryStore) (calls : List Call) : MemoryStore := calls.foldl exec s

/-- Every call of a run satisfies `ok` in the store it meets. -/
def Admissible (ok : MemoryStore → Call → Prop) : MemoryStore → List Call → Prop
  | _, [] => True
  | s, c :: calls => ok s c ∧ Admissible ok (s.exec c) calls

instance decidableAdmissible (ok : MemoryStore → Call → Prop) [∀ s c, Decidable (ok s c)] :
    ∀ (calls : List Call) (s : MemoryStore), Decidable (Admissible ok s calls)
  | [], _ => .isTrue trivial
  | c :: calls, s =>
    have := decidableAdmissible ok calls (s.exec c)
    inferInstanceAs (Decidable (ok s c ∧ Admissible ok (s.exec c) calls))

theorem Admissible.mono : ∀ {calls : List Call} {s : MemoryStore},
    Admissible ok s calls → (∀ s c, ok s c → ok' s c) → Admissible ok' s calls
  | [], _, _, _ => trivial
  | _ :: _, _, hc, h => ⟨h _ _ hc.1, hc.2.mono h⟩

theorem Reachable.run : ∀ {calls : List Call} {s : MemoryStore},
    Reachable ok s → Admissible ok s calls → Reachable ok (s.run calls)
  | [], _, hs, _ => hs
  | c :: calls, s, hs, hc => by
    show Reachable ok ((s.exec c).run calls)
    exact Reachable.run (.step hs hc.1) hc.2

/-! ## The invariant along a run -/

variable {loose : Prop}

theorem createTimelineWithMeta_grown {metadata : TimelineMeta} : s.Grown loose (s.createTimelineWithMeta metadata).2 := by
  rcases s.createTimelineWithMeta_cases metadata with ⟨e, he⟩ | ⟨hash, hnone, hborn, he⟩
  · rw [he]
  · rw [he]
    exact .single (.insert rfl hnone rfl rfl hborn)

/-- A call that only touches records or host state keeps the Timelines. -/
theorem keep_of_frame {s' : MemoryStore} (h : s'.hasher = s.hasher ∧ s'.timelines = s.timelines ∧ s'.eventIds = s.eventIds) :
    s.Changes loose s' := .single (.grow (.keep h.1 h.2.1 h.2.2))

theorem keep_after {α β : Type} {checks : CoreResult β} {effect : β → Effect α}
    (h : ∀ b, (effect b).2.hasher = s.hasher ∧ (effect b).2.timelines = s.timelines ∧
      (effect b).2.eventIds = s.eventIds) : s.Changes loose (s.after checks effect).2 :=
  (grown_after fun b _ => .single (.keep (h b).1 (h b).2.1 (h b).2.2)).changes

/-- Every call is a chain of changes, that registers its Events unless it runs out of sequence numbers. -/
theorem exec_changes {F : CowForest TimelineId Event} (hr : s.Refines F) {c : Call} (hc : s.Fresh c)
    (hroom : loose ∨ s.Room c) : s.Changes loose (s.exec c) := by
  cases c with
  | createTimeline name id => exact (createTimeline_grown hc.1).changes
  | append timeline drafts draw => exact (append_grown hc hroom).changes
  | appendOrDuplicate timeline identity admittedAt draft draw =>
    exact (appendOrDuplicate_grown (hc.unregistered 0 Nat.one_pos)).changes
  | fork parent atSeq name id => exact (fork_grown hc.1).changes
  | createTimelineWithMeta metadata => exact createTimelineWithMeta_grown.changes
  | appendCommitted timeline events =>
    exact (appendCommitted_grown fun st hst => (hr.ledger hst).id_eq).changes
  | importCommitted metadata events => exact importCommitted_changes
  | deleteTimeline timeline => exact deleteTimeline_changes
  | purgeExpiredAppendIdentities now | removeAppendIdentities scope | host h => exact keep_of_frame ⟨rfl, rfl, rfl⟩
  | purgeExpiredAppendIdentitiesBounded clock limit | setPipelineAdmissionFence timeline fence =>
    exact keep_after fun _ => ⟨rfl, rfl, rfl⟩
  | removeAppendIdentitiesBounded scope limit => exact keep_of_frame ⟨rfl, rfl, rfl⟩
  | admitPipelineBatch basis clock planned draw => exact (admitPipelineBatch_grown hc).changes
  | purgeExpiredPipelineReceiptsBounded clock limit =>
    exact keep_after fun _ => ⟨rfl, rfl, rfl⟩

/-- An empty store refines the empty forest. -/
theorem Blank.wf (hb : s.Blank) : s.WF ⟨fun _ => none, by intro _ _ _ _ h; cases h⟩ where
  log_eq := by
    funext t
    simp [MemoryStore.log, hb.timelines]
  ledger := by
    intro t st h
    simp [hb.timelines] at h
  chain := by
    intro t st h hst
    simp [hb.timelines] at hst
  origins := by
    intro t st hst
    simp [hb.timelines] at hst

/-- Every reachable store satisfies the invariant. -/
theorem Reachable.wf (hs : Reachable Fresh s) : ∃ F, s.WF F := by
  induction hs with
  | blank hb => exact ⟨_, hb.wf⟩
  | step _ hc ih =>
    obtain ⟨F, hw⟩ := ih
    exact hw.changes (exec_changes hw.toRefines hc (.inl trivial))

end MemoryStore

end Piglor
