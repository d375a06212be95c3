/-
What deleting a Timeline leaves. Every other Timeline reads and hashes as before, and no row of the
store or of a sidecar is keyed by the Timeline or one of its Events. An adapter without any such row
answers every later operation, a re-import under the same id included, as one that never held the
Timeline. Deletion does not reach the fallback registry, so this holds exactly for the Timelines
that have no row and no ledger in it.
-/
import PiglorProofs.Store.Adapter
import PiglorProofs.Store.Records

namespace Piglor

open CowForest Checked Table MemoryStore List Finmap OwnTracksEnrollmentStateV1

/-! ## The other Timelines -/

namespace MemoryStore

variable {s s' : MemoryStore} {F : CowForest TimelineId Event} {t j : TimelineId} {st : TimelineState}
  {chain : ForkChain}

/-- The stores hold the same Timelines on a chain. -/
def SameStates (s s' : MemoryStore) (chain : ForkChain) : Prop :=
  ∀ i ∈ chain.timelines, s'.timelines.lookup i = s.timelines.lookup i

theorem SameStates.segmentLength (h : s.SameStates s' chain) {i : TimelineId} (hi : i ∈ chain.timelines) (index : Nat) :
    chain.segmentLength s' index i = chain.segmentLength s index i := by
  have hhead : s'.localHead i = s.localHead i := by simp only [localHead, h i hi]
  rw [ForkChain.segmentLength, ForkChain.segmentLength, hhead]

theorem SameStates.collect (h : s.SameStates s' chain) (all : List Event) :
    chain.timelines.zipIdx.foldlM (s'.collectSegment chain) all =
      chain.timelines.zipIdx.foldlM (s.collectSegment chain) all := by
  refine foldlM_congr _ _ fun segment hsegment acc => ?_
  have hi := fst_mem_of_mem_zipIdx hsegment
  simp only [collectSegment, timeline, ownEvents, h _ hi, h.segmentLength hi]

theorem SameStates.head (h : s.SameStates s' chain) (head : Nat) :
    chain.timelines.zipIdx.foldlM (s'.addSegmentLength chain) head =
      chain.timelines.zipIdx.foldlM (s.addSegmentLength chain) head := by
  refine foldlM_congr _ _ fun segment hsegment acc => ?_
  simp only [addSegmentLength, h.segmentLength (fst_mem_of_mem_zipIdx hsegment)]

theorem SameStates.chainHash (h : s.SameStates s' chain) (hasher : s'.hasher = s.hasher) (head atSeq : Nat) :
    ∀ (segments : List (TimelineId × Nat)) (hash : Hash) (offset : Nat), (∀ x ∈ segments, x.1 ∈ chain.timelines) →
    s'.chainHashLoop chain head atSeq segments hash offset = s.chainHashLoop chain head atSeq segments hash offset
  | [], _, _, _ => rfl
  | (i, index) :: rest, hash, offset, hmem => by
    have hown : s'.ownEvents i = s.ownEvents i := by
      simp only [ownEvents, h i (hmem _ mem_cons_self)]
    simp only [chainHashLoop, hown, hasher]
    rw [SameStates.chainHash h hasher head atSeq rest _ _ fun x hx => hmem x (mem_cons_of_mem _ hx)]

/-- The stores show the same ancestry of a Timeline, under the same gate and hasher. -/
structure SameLineage (s s' : MemoryStore) (j : TimelineId) : Prop where
  chain : s'.forkChain j = s.forkChain j
  states : ∀ {chain}, s.forkChain j = .ok chain → s.SameStates s' chain
  hasher : s'.hasher = s.hasher
  fence : s'.erasureFence = s.erasureFence
  gate : s'.validatedErasureGate = s.validatedErasureGate
  visibility : s'.ensureGenericTimelineVisibility j = s.ensureGenericTimelineVisibility j

namespace SameLineage

variable (h : s.SameLineage s' j)

include h

theorem collectEventsInRange (range : SeqRange) :
    s'.collectEventsInRange j range = s.collectEventsInRange j range := by
  unfold MemoryStore.collectEventsInRange
  rw [h.chain]
  rcases hchain : s.forkChain j with e | chain
  · rfl
  · rw [ok_bind, ok_bind, (h.states hchain).collect]

theorem logicalHeadUnchecked : s'.logicalHeadUnchecked j = s.logicalHeadUnchecked j := by
  unfold MemoryStore.logicalHeadUnchecked
  rw [h.chain]
  rcases hchain : s.forkChain j with e | chain
  · rfl
  · rw [ok_bind, ok_bind, (h.states hchain).head]

theorem computeChainHashAt (atSeq : Seq) :
    s'.computeChainHashAt j atSeq = s.computeChainHashAt j atSeq := by
  unfold MemoryStore.computeChainHashAt
  rw [h.chain, h.logicalHeadUnchecked, h.hasher]
  rcases hchain : s.forkChain j with e | chain
  · rfl
  · have hloop := fun head => (h.states hchain).chainHash h.hasher head atSeq chain.timelines.zipIdx s.hasher.genesisHash 0
      fun _ => fst_mem_of_mem_zipIdx
    simp only [ok_bind, hloop]

theorem authorizeInheritedScopes :
    s'.authorizeInheritedScopes j = s.authorizeInheritedScopes j := by
  unfold MemoryStore.authorizeInheritedScopes
  rw [h.gate, h.chain, h.fence]

/-- A Timeline with the same ancestry reads, ends and hashes alike. -/
theorem reads : (∀ range, s'.read j range = s.read j range) ∧
    s'.logicalHead j = s.logicalHead j ∧ ∀ atSeq, s'.chainHashAt j atSeq = s.chainHashAt j atSeq := by
  refine ⟨fun range => ?_, ?_, fun atSeq => ?_⟩
  · rw [read, read, h.fence, h.visibility, h.authorizeInheritedScopes,
      h.collectEventsInRange range]
  · rw [logicalHead, logicalHead, h.fence, h.visibility, h.logicalHeadUnchecked]
  · rw [chainHashAt, chainHashAt, h.fence, h.visibility, h.authorizeInheritedScopes,
      h.computeChainHashAt atSeq]

end SameLineage

theorem forkChain_of_absent (h : s.timelines.lookup j = none) : s.forkChain j = .error (.timelineNotFound j) := by
  unfold forkChain
  rcases s.timelines.keys.card with _ | fuel
  · rfl
  · simp [forkChainLoop, h]

/-- Removing a Timeline without Forks keeps the ancestry of every other one. -/
theorem WF.sameLineage_forget (hw : s.WF F) (hleaf : s.hasChildTimeline t = false) (st : TimelineState) (hj : j ≠ t) :
    s.SameLineage (s.forgetTimeline t st) j where
  chain := by
    rcases hst : s.timelines.lookup j with _ | sj
    · rw [forkChain_of_absent hst, forkChain_of_absent]
      rw [forgetTimeline, lookup_erase_ne hj, hst]
    · obtain ⟨L, hL⟩ := exists_spine (hw.log hst)
      have hw' := hw.remove (show (s.forgetTimeline t st).hasher = s.hasher from rfl) hleaf rfl
      have hL' := hL.remove (leaf_of_hasChildTimeline hw.toRefines hleaf) hj
      rw [forkChain_eq_of_spine (hw.spine hL), forkChain_eq_of_spine (hw'.spine hL')]
  states := by
    intro chain hchain i hi
    obtain ⟨sj, hst⟩ := lookup_of_forkChain hchain
    obtain ⟨L, hL⟩ := exists_spine (hw.log hst)
    have hw' := hw.remove (show (s.forgetTimeline t st).hasher = s.hasher from rfl) hleaf rfl
    have hL' := hL.remove (leaf_of_hasChildTimeline hw.toRefines hleaf) hj
    rw [forkChain_eq_of_spine (hw.spine hL)] at hchain
    cases hchain
    -- every Timeline of the spine is still stored, so none of them is the removed one
    obtain ⟨x, hx, rfl⟩ := mem_map.mp hi
    obtain ⟨l, -, hl, -⟩ := (hw'.spine hL').mem hx
    obtain ⟨si, hsi, -⟩ := lookup_of_log hl
    have hne : x.key ≠ t := (lookup_erase_eq_some.mp (show (s.timelines.erase t).lookup x.key = some si from hsi)).1
    rw [forgetTimeline, lookup_erase_ne hne]
  hasher := rfl
  fence := rfl
  gate := rfl
  visibility := by
    simp only [ensureGenericTimelineVisibility, timeline, forgetTimeline, lookup_erase_ne hj,
      Finset.mem_erase, ne_eq, hj, not_false_eq_true, true_and]

theorem childless_of_hasChildTimeline (hleaf : s.hasChildTimeline t = false) {n : Seq}
    (hst : s.timelines.lookup j = some st) : st.timeline.metadata.forkPoint ≠ some (t, n) := by
  intro hfork
  have hchild : s.hasChildTimeline t = true := by
    refine any_iff.mpr ⟨j, st, hst, ?_⟩
    rw [hfork]
    simp
  rw [hleaf] at hchild
  cases hchild

/-! ## Retry records -/

/-- Every retry record names a stored Event of its Timeline. -/
def NamesEvents (s : MemoryStore) : Prop := ∀ {k r}, s.appendIdentities.lookup k = some r →
  ∃ st, s.timelines.lookup r.timeline = some st ∧ ∃ e ∈ st.events, e.id = r.eventId

theorem NamesEvents.kept (h : s.NamesEvents) (kept : s.Kept s') {k : AppendDedupKey} {r : AppendIdentityRecord}
    (hr : s.appendIdentities.lookup k = some r) :
    ∃ st, s'.timelines.lookup r.timeline = some st ∧ ∃ e ∈ st.events, e.id = r.eventId := by
  obtain ⟨st, hst, e, he, hid⟩ := h hr
  obtain ⟨st', hst', hgrew⟩ := kept hst
  exact ⟨st', hst', e, hgrew.events.subset he, hid⟩

theorem NamesEvents.forget {s₀ : MemoryStore} (h : s.NamesEvents) (kept : s.Kept s₀) (frame : s.Frame s₀)
    (old : s₀.timelines.lookup t = some st) : (s₀.forgetTimeline t st).NamesEvents := by
  intro k r hr
  rw [forgetTimeline, lookup_retain, Option.filter_eq_some_iff, decide_eq_true_eq, frame] at hr
  obtain ⟨su, hsu, e, he, hid⟩ := h.kept kept hr.1
  have hne : r.timeline ≠ t := by
    rintro rfl
    rw [old] at hsu
    cases hsu
    exact hr.2 (mem_toFinset.mpr (hid ▸ mem_map_of_mem he))
  exact ⟨su, by rw [forgetTimeline, lookup_erase_ne hne]; exact hsu, e, he, hid⟩

theorem NamesEvents.keyed {identity : AppendIdentity} {own : Event} {expiresAt : WallTime} (h : s.NamesEvents)
    (old : s.timelines.lookup t = some st) : (s.keyedStore t identity st own expiresAt).NamesEvents := by
  intro k r hr
  by_cases hk : k = identity.dedupKey
  · subst hk
    rw [keyedStore, lookup_insert] at hr
    cases hr
    exact ⟨_, lookup_insert _, own, mem_append_right _ mem_cons_self, rfl⟩
  · rw [keyedStore, lookup_insert_of_ne _ hk] at hr
    have hkept : s.Kept (s.keyedStore t identity st own expiresAt) := @Kept.extend _ _ _ _ [own] old rfl
    exact h.kept hkept hr

theorem NamesEvents.step {c : Call} (h : s.NamesEvents) (hstep : Step c s s') : s'.NamesEvents := by
  cases hstep with
  | keep kept identities _ _ _ =>
    intro k r hr
    exact h.kept kept (identities hr)
  | publish _ _ eq =>
    rw [eq]
    exact h
  | forget kept frame old eq =>
    rw [eq]
    exact h.forget kept frame old
  | identify old eq =>
    rw [eq]
    exact h.keyed old
  | commit _ old staged eq =>
    rw [eq]
    intro k r hr
    exact h.kept (Kept.extend old (by rw [← staged]; rfl)) hr

theorem Reachable.namesEvents (hs : Reachable Sane s) : s.NamesEvents := by
  induction hs with
  | blank hb =>
    intro k r hr
    rw [hb.appendIdentities] at hr
    cases hr
  | step hs hc ih =>
    obtain ⟨F, hw⟩ := hs.fresh.wf
    exact ih.step (exec_step hw.toRefines hc.1)

end MemoryStore

/-! ## Rows of a Timeline -/

namespace RegistryStore

variable {x u : RegistryStore} {t : TimelineId} {ids : Finset EventId}

/-- The registry has no row and no ledger of the Timeline. -/
def Unregistered (x : RegistryStore) (t : TimelineId) : Prop := ∀ scope,
  x.compositionFallback.rows.lookup (scope, t) = none ∧ x.compositionFallback.ledgers.lookup (scope, t) = none

/-- No row of the store or its registry is keyed by the Timeline or one of the Events. -/
structure Traceless (x : RegistryStore) (t : TimelineId) (ids : Finset EventId) : Prop where
  timeline : x.store.timelines.lookup t = none
  eventIds : Disjoint x.store.eventIds ids
  identities : ∀ k r, x.store.appendIdentities.lookup k = some r → r.timeline ≠ t ∧ r.eventId ∉ ids
  fence : x.store.pipelineAdmissionFences.lookup t = none
  receipts : ∀ k r, x.store.pipelineAdmissionReceipts.lookup k = some r → r.timeline ≠ t
  dependencies : x.store.dependencyPrefixes.lookup t = none
  marker : t ∉ x.store.geographicTimelines
  registry : x.Unregistered t

/-- The rows that are not keyed by the Timeline or one of the Events. -/
def elsewhere (x : RegistryStore) (t : TimelineId) (ids : Finset EventId) : RegistryStore where
  store := { x.store with
    timelines := x.store.timelines.erase t
    eventIds := x.store.eventIds \ ids
    appendIdentities :=
      Table.retain (fun _ r => decide (r.timeline ≠ t ∧ r.eventId ∉ ids)) x.store.appendIdentities
    pipelineAdmissionFences := x.store.pipelineAdmissionFences.erase t
    pipelineAdmissionReceipts :=
      Table.retain (fun _ r => decide (r.timeline ≠ t)) x.store.pipelineAdmissionReceipts
    dependencyPrefixes := x.store.dependencyPrefixes.erase t
    geographicTimelines := x.store.geographicTimelines.erase t }
  compositionFallback := { x.compositionFallback with
    rows := Table.retain (fun key _ => decide (key.2 ≠ t)) x.compositionFallback.rows
    ledgers := Table.retain (fun key _ => decide (key.2 ≠ t)) x.compositionFallback.ledgers }

theorem Unregistered.retain {V : Type} {m : Table (String × TimelineId) V}
    (h : ∀ scope, m.lookup (scope, t) = none) : retain (fun key _ => decide (key.2 ≠ t)) m = m := by
  refine retain_eq_self fun key v hv => decide_eq_true ?_
  rintro rfl
  rw [h key.1] at hv
  cases hv

/-- A store without rows of the Timeline is all elsewhere. -/
theorem Traceless.elsewhere_eq (h : x.Traceless t ids) : x.elsewhere t ids = x := by
  have hids : x.store.eventIds \ ids = x.store.eventIds := Finset.sdiff_eq_self_of_disjoint h.eventIds
  have hidentities : retain (fun _ r => decide (r.timeline ≠ t ∧ r.eventId ∉ ids)) x.store.appendIdentities =
      x.store.appendIdentities := retain_eq_self fun k r hr => decide_eq_true (h.identities k r hr)
  have hreceipts : retain (fun _ r => decide (r.timeline ≠ t)) x.store.pipelineAdmissionReceipts =
      x.store.pipelineAdmissionReceipts := retain_eq_self fun k r hr => decide_eq_true (h.receipts k r hr)
  rw [elsewhere, hids, hidentities, hreceipts, erase_eq_self h.timeline, erase_eq_self h.fence,
    erase_eq_self h.dependencies, Finset.erase_eq_of_notMem h.marker, Unregistered.retain fun scope => (h.registry scope).1,
    Unregistered.retain fun scope => (h.registry scope).2]

end RegistryStore

namespace Sidecars

variable {y : Sidecars} {t : TimelineId} {ids : Finset EventId}

/-- No row of the sidecars is keyed by the Timeline or one of the Events, and no device is enrolled
for it. The generation floor stays. -/
structure Traceless (y : Sidecars) (t : TimelineId) (ids : Finset EventId) : Prop where
  enrollment : y.owntracksEnrollment.permitsGeographicAdmissionTarget t = false
  admissionDedup : ∀ k r, y.geographicAdmissionDedup.lookup k = some r → r.timeline ≠ t
  admissionSnapshots : ∀ e ∈ ids, y.geographicAdmissionSnapshots.lookup e = none
  admissionLinks : ∀ key v, y.geographicAdmissionLinks.lookup key = some v → key.1 ≠ t ∧ key.2 ∉ ids
  cellFences : ∀ key v, y.geographicCellFences.lookup key = some v → key.1 ≠ t
  cellDedup : ∀ k r, y.geographicCellDedup.lookup k = some r → r.timeline ≠ t
  cellSnapshots : ∀ k v, y.geographicCellSnapshots.lookup k = some v → v.1 ≠ t
  cellLinks : ∀ key v, y.geographicCellLinks.lookup key = some v → key.1 ≠ t ∧ key.2 ∉ ids
  counterfactual : y.counterfactualForks.lookup t = none

theorem revoke_eq_ok {enrollment revoked : OwnTracksEnrollmentStateV1} (h : enrollment.revoke = .ok revoked) :
    revoked.timeline = enrollment.timeline ∧ revoked.status = .revoked := by
  unfold revoke at h
  split_ifs at h
  split at h
  · obtain ⟨_, -, h⟩ := bind_eq_ok.mp h
    cases h
    exact ⟨rfl, rfl⟩
  · cases h

theorem revokeEnrollment_permits (enrollment : OwnTracksEnrollmentStateV1) (t : TimelineId) :
    (revokeEnrollment enrollment t).permitsGeographicAdmissionTarget t = false := by
  unfold revokeEnrollment
  split
  · split
    · rename_i revoked hrevoked
      simp [permitsGeographicAdmissionTarget, (revoke_eq_ok hrevoked).2]
    · rfl
  · rename_i h
    exact Bool.eq_false_iff.mpr h

/-- The rows that are not keyed by the Timeline or one of the Events. -/
def elsewhere (y : Sidecars) (t : TimelineId) (ids : Finset EventId) : Sidecars where
  owntracksEnrollment := if y.owntracksEnrollment.timeline = some t then .absent else y.owntracksEnrollment
  geographicAdmissionDedup := Table.retain (fun _ r => decide (r.timeline ≠ t)) y.geographicAdmissionDedup
  geographicAdmissionSnapshots := Table.retain (fun e _ => decide (e ∉ ids)) y.geographicAdmissionSnapshots
  geographicAdmissionLinks := Table.retain (fun key _ => decide (key.1 ≠ t ∧ key.2 ∉ ids)) y.geographicAdmissionLinks
  geographicCellFences := Table.retain (fun key _ => decide (key.1 ≠ t)) y.geographicCellFences
  geographicCellDedup := Table.retain (fun _ r => decide (r.timeline ≠ t)) y.geographicCellDedup
  geographicCellSnapshots := Table.retain (fun _ snapshot => decide (snapshot.1 ≠ t)) y.geographicCellSnapshots
  geographicCellLinks := Table.retain (fun key _ => decide (key.1 ≠ t ∧ key.2 ∉ ids)) y.geographicCellLinks
  counterfactualForks := y.counterfactualForks.erase t
  counterfactualGenerationFloors := y.counterfactualGenerationFloors.erase t

theorem purgeCounterfactualState_lookup (y : Sidecars) (t : TimelineId) :
    (y.purgeCounterfactualState t).counterfactualForks.lookup t = none := by
  unfold purgeCounterfactualState
  split
  · assumption
  · exact lookup_erase _ _

/-- The deletion leaves the sidecars without rows of the Timeline. -/
theorem traceless_forgetTimeline (y : Sidecars) (t : TimelineId) (ids : Finset EventId) :
    (y.forgetTimeline t ids).Traceless t ids where
  enrollment := revokeEnrollment_permits _ t
  admissionDedup _ _ h := of_decide_eq_true (of_lookup_retain h :)
  admissionSnapshots e he := by
    rw [forgetTimeline, lookup_retain, Option.filter_eq_none_iff]
    intro _ _
    simp [he]
  admissionLinks _ _ h := of_decide_eq_true (of_lookup_retain h :)
  cellFences _ _ h := of_decide_eq_true (of_lookup_retain h :)
  cellDedup _ _ h := of_decide_eq_true (of_lookup_retain h :)
  cellSnapshots _ _ h := of_decide_eq_true (of_lookup_retain h :)
  cellLinks _ _ h := of_decide_eq_true (of_lookup_retain h :)
  counterfactual := purgeCounterfactualState_lookup y t

theorem revokeEnrollment_elsewhere (enrollment : OwnTracksEnrollmentStateV1) (t : TimelineId) :
    (if (revokeEnrollment enrollment t).timeline = some t then absent
      else revokeEnrollment enrollment t) =
    if enrollment.timeline = some t then absent else enrollment := by
  unfold revokeEnrollment
  split
  · rename_i hpermits
    have htarget : enrollment.timeline = some t := by
      simpa using (Bool.and_eq_true_iff.mp hpermits).2
    rw [if_pos htarget]
    split
    · rename_i revoked hrevoked
      rw [if_pos (by rw [(revoke_eq_ok hrevoked).1, htarget])]
    · exact ite_self _
  · rfl

/-- The deletion keeps every other row of the sidecars. -/
theorem elsewhere_forgetTimeline (y : Sidecars) (t : TimelineId) (ids : Finset EventId) :
    (y.forgetTimeline t ids).elsewhere t ids = y.elsewhere t ids := by
  have hforks : (y.purgeCounterfactualState t).counterfactualForks.erase t = y.counterfactualForks.erase t := by
    unfold purgeCounterfactualState
    split
    · rfl
    · exact erase_eq_self (lookup_erase _ _)
  have hfloors : (y.purgeCounterfactualState t).counterfactualGenerationFloors.erase t =
      y.counterfactualGenerationFloors.erase t := by
    unfold purgeCounterfactualState
    split
    · rfl
    · exact erase_insert ..
  have hrest : y.purgeCounterfactualState t = { y with
      counterfactualForks := (y.purgeCounterfactualState t).counterfactualForks
      counterfactualGenerationFloors := (y.purgeCounterfactualState t).counterfactualGenerationFloors } := by
    unfold purgeCounterfactualState
    split <;> rfl
  rw [elsewhere, elsewhere, forgetTimeline, hrest]
  simp only [hforks, hfloors, retain_self, revokeEnrollment_elsewhere]

end Sidecars

/-! ## Deletion -/

namespace MemoryAdapter

variable {ports : FallbackPortsV1} {x x' : MemoryAdapter} {t : TimelineId}

def ownIds (x : MemoryAdapter) (t : TimelineId) : Finset EventId := ((x.store.ownEvents t).map Event.id).toFinset

/-- From `x` to `x'` the Timeline is forgotten and nothing else is touched. -/
structure Forgets (ports : FallbackPortsV1) (x x' : MemoryAdapter) (t : TimelineId) : Prop where
  /-- Every other Timeline reads and hashes as before. -/
  others : ∀ j, j ≠ t → (∀ range, x'.store.read j range = x.store.read j range) ∧
    x'.store.logicalHead j = x.store.logicalHead j ∧ ∀ atSeq, x'.store.chainHashAt j atSeq = x.store.chainHashAt j atSeq
  /-- No remaining Timeline is a Fork of it. -/
  childless : ∀ j st n, x'.store.timelines.lookup j = some st → st.timeline.metadata.forkPoint ≠ some (t, n)
  /-- Every other row is kept. -/
  elsewhere : x'.toRegistryStore.elsewhere t (x.ownIds t) = x.toRegistryStore.elsewhere t (x.ownIds t) ∧
    x'.sidecars.elsewhere t (x.ownIds t) = x.sidecars.elsewhere t (x.ownIds t)
  /-- No row of it is left. -/
  traceless : x'.toRegistryStore.Traceless t (x.ownIds t) ∧ x'.sidecars.Traceless t (x.ownIds t)
  /-- Whatever follows is answered as by a store with the same other rows that never held it. -/
  fresh : ∀ u : RegistryStore, u.Traceless t (x.ownIds t) →
    u.elsewhere t (x.ownIds t) = x.toRegistryStore.elsewhere t (x.ownIds t) →
    ∀ ops, x'.toRegistryStore.replies ports ops = u.replies ports ops

theorem deleteTimeline_ok (h : x.deleteTimeline t = (.ok (), x')) : ∃ st, x.store.timelines.lookup t = some st ∧
    x.store.hasChildTimeline t = false ∧ x' = { x with
      store := x.store.forgetTimeline t st
      sidecars := x.sidecars.forgetTimeline t (x.ownIds t) } := by
  unfold deleteTimeline at h
  rcases x.store.deleteTimeline_cases t with ⟨e, he⟩ | ⟨st, hst, hleaf, he⟩
  · rw [he] at h
    cases h
  · rw [he] at h
    cases h
    exact ⟨st, hst, hleaf, rfl⟩

variable {st : TimelineState}

theorem ownIds_of_lookup (hst : x.store.timelines.lookup t = some st) :
    x.ownIds t = (st.events.map Event.id).toFinset := by
  rw [ownIds, ownEvents, hst]

/-- The store keeps the rows of the other Timelines. -/
theorem elsewhere_forget (hst : x.store.timelines.lookup t = some st) :
    RegistryStore.elsewhere ⟨x.store.forgetTimeline t st, x.compositionFallback⟩ t (x.ownIds t) =
      x.toRegistryStore.elsewhere t (x.ownIds t) := by
  have hidentities := retain_retain (p := fun _ r => decide (r.timeline ≠ t ∧ r.eventId ∉ x.ownIds t))
    (q := fun _ r => decide (r.eventId ∉ x.ownIds t))
    (fun _ _ h => decide_eq_true (of_decide_eq_true h).2) x.store.appendIdentities
  simp only [RegistryStore.elsewhere, forgetTimeline, ← ownIds_of_lookup hst, hidentities,
    erase_eq_self (lookup_erase _ _), retain_self, Finset.sdiff_idem, Finset.erase_idem]

/-- The store keeps no row of the Timeline; what the registry holds of it stays. -/
theorem traceless_forget (hx : Reachable ports x) (hst : x.store.timelines.lookup t = some st) :
    RegistryStore.Traceless ⟨x.store.forgetTimeline t st, x.compositionFallback⟩ t (x.ownIds t) ↔
      x.toRegistryStore.Unregistered t := by
  constructor
  · exact fun h => h.registry
  intro h
  rw [ownIds_of_lookup hst]
  have hforgot := forgot_forgetTimeline x.store t st
  refine ⟨lookup_erase _ _, Finset.sdiff_disjoint, ?_, lookup_erase _ _, ?_, lookup_erase _ _,
    Finset.notMem_erase _ _, h⟩
  · intro k r hr
    have hevent : r.eventId ∉ (st.events.map Event.id).toFinset := of_decide_eq_true (of_lookup_retain hr :)
    refine ⟨?_, hevent⟩
    -- a record of the Timeline names one of its Events, and those records are gone
    rintro rfl
    obtain ⟨su, hsu, e, he, hid⟩ := hx.store.namesEvents (Within.retain _ _ hr)
    rw [hst] at hsu
    cases hsu
    exact hevent (mem_toFinset.mpr (hid ▸ mem_map_of_mem he))
  · exact fun k r hr => hforgot.receipts hr

/-- A deletion forgets its Timeline and touches nothing else exactly when the Timeline has no row
and no ledger in the fallback registry. -/
theorem deleteTimeline_forgets_iff (hx : Reachable ports x) (hdelete : x.deleteTimeline t = (.ok (), x')) :
    Forgets ports x x' t ↔ x.toRegistryStore.Unregistered t := by
  obtain ⟨st, hst, hleaf, rfl⟩ := deleteTimeline_ok hdelete
  obtain ⟨F, hw⟩ := hx.store.fresh.wf
  constructor
  · intro h
    exact (traceless_forget hx hst).mp h.traceless.1
  intro hunregistered
  have htraceless := (traceless_forget hx hst).mpr hunregistered
  have helsewhere := elsewhere_forget hst
  refine ⟨fun j hj => (hw.sameLineage_forget hleaf st hj).reads, ?_, ⟨helsewhere, Sidecars.elsewhere_forgetTimeline ..⟩,
    ⟨htraceless, Sidecars.traceless_forgetTimeline ..⟩, ?_⟩
  · intro j sj n hj
    exact childless_of_hasChildTimeline hleaf (lookup_erase_eq_some.mp hj).2
  · intro u hu heq ops
    -- both stores are their rows elsewhere
    have hsame : u = ⟨x.store.forgetTimeline t st, x.compositionFallback⟩ := by
      rw [← hu.elsewhere_eq, heq, ← helsewhere, htraceless.elsewhere_eq]
    rw [hsame]

end MemoryAdapter

/-! ## Timelines with and without registry rows -/

/-- A policy with one entry. -/
def notePolicy : DomainFallbackPolicyV1 where
  scope := "notes"
  entries := [⟨"entry", ⟨⟨"acme.primary", "1", 1, by decide⟩, ["role"], by decide⟩,
    [⟨⟨"acme.candidate", "1", 2, by decide⟩, ["role"], by decide⟩], [.resourceLimit], .automatic, by decide⟩]
  previousPolicyDigest := none
  policyDigest := 7
  valid := by decide

/-- A codec that knows this policy and its declaration. -/
def notePorts : FallbackPortsV1 where
  blake3 := Hasher.counting.hashPayload
  implementationDigest key := key.releaseDigest
  conformanceDigest _ := 0
  decodePolicy bytes := if bytes = [1] then .ok notePolicy else .error .invalidEncoding
  encodeDeclared _ := [2]
  decodeDeclared bytes := if bytes = [2] then FallbackDeclaredPayloadV1.forPolicy notePolicy [] else .error .invalidEncoding
  encodeActivated _ := [3]
  decodeActivated _ := .error .invalidEncoding
  declareRequestDigest _ _ := 0
  activateRequestDigest _ := 0

/-- The first declaration of the policy on Timeline 1. -/
def noteDeclaration : FallbackDeclareRequestV1 := ⟨"notes", ⟨⟨1⟩, ⟨1⟩⟩, 0, 0, [1], ⟨∅⟩⟩

namespace MemoryAdapter

/-- No sidecar row. -/
def noSidecars : Sidecars := ⟨.absent, ∅, ∅, ∅, ∅, ∅, ∅, ∅, ∅, ∅⟩

/-- The root with one Event and its Fork, without registry rows. -/
def forkedAdapter : MemoryAdapter := ⟨⟨MemoryStore.forkedOnce, .default⟩, noSidecars⟩

theorem forkedAdapter_reachable : Reachable notePorts forkedAdapter :=
  .run (.blank .empty rfl) (by decide)

/-- The Fork has no registry row: its deletion forgets it. -/
theorem forkedAdapter_forgets : ∃ x', forkedAdapter.deleteTimeline ⟨2⟩ = (.ok (), x') ∧
    Forgets notePorts forkedAdapter x' ⟨2⟩ :=
  ⟨_, rfl, (deleteTimeline_forgets_iff (forkedAdapter_reachable) rfl).mpr fun _ => ⟨rfl, rfl⟩⟩

/-- An adapter with a provisioned registry and nothing else. -/
def provisioned : MemoryAdapter :=
  ⟨⟨blankStore, ⟨true, ∅, ∅, ∅⟩⟩, noSidecars⟩

theorem provisioned_reachable : Reachable notePorts provisioned :=
  @Reachable.perform notePorts
    ⟨⟨blankStore, .default⟩, noSidecars⟩
    .provisionFallbackRegistry (.blank .empty rfl) trivial

/-- An empty root on it. -/
def provisionedRoot : MemoryAdapter :=
  { provisioned with store := provisioned.store.run [.createTimeline "root" ⟨1⟩] }

theorem provisionedRoot_reachable : Reachable notePorts provisionedRoot := provisioned_reachable.run (by decide)

def declaredRoot : MemoryAdapter :=
  { provisionedRoot with toRegistryStore := (provisionedRoot.declare notePorts noteDeclaration ⟨⟨1⟩, 5⟩).2 }

theorem declaredRoot_reachable : Reachable notePorts declaredRoot :=
  @Reachable.perform notePorts _ (.declare noteDeclaration ⟨⟨1⟩, 5⟩) provisionedRoot_reachable
    (show provisionedRoot.SaneWrite ⟨⟨1⟩, ⟨1⟩⟩ ⟨⟨1⟩, 5⟩ by decide)

/-- Import an empty root under the id, and declare the policy on it. -/
def declareAgain : List Operation :=
  [.importTimelineWithId ⟨Timeline.new (TimelineMeta.root ⟨1⟩ "root"), [], none⟩, .declare noteDeclaration ⟨⟨2⟩, 6⟩]

/-- The deleted root's registry row stays, and refuses the declaration on a root imported under its
id, which an adapter that never held the id commits. -/
theorem declaredRoot_not_forgotten : Reachable notePorts declaredRoot ∧
    ∃ x', declaredRoot.deleteTimeline ⟨1⟩ = (.ok (), x') ∧ ¬ Forgets notePorts declaredRoot x' ⟨1⟩ ∧
      (x'.compositionFallback.rows.lookup ("notes", ⟨1⟩)).isSome ∧
      (x'.compositionFallback.ledgers.lookup ("notes", ⟨1⟩)).isSome ∧
      (x'.replies notePorts declareAgain)[1]? = some (.committed (.error .corruptState)) ∧
      ∃ receipt, (provisioned.replies notePorts declareAgain)[1]? = some (.committed (.ok receipt)) := by
  have hrow : (declaredRoot.compositionFallback.rows.lookup ("notes", ⟨1⟩)).isSome := by decide
  refine ⟨declaredRoot_reachable, _, rfl, ?_, hrow, by decide, rfl, _, rfl⟩
  intro h
  have hnone := (h.traceless.1.registry "notes").1
  rw [show declaredRoot.compositionFallback.rows.lookup ("notes", ⟨1⟩) = none from hnone] at hrow
  cases hrow

end MemoryAdapter

end Piglor
