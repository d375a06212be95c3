/-
An admitted batch commits at most once, and within the budget its fence was published with. While
its receipt is retained, the batch's Events stay in their slice of the Timeline, so the receipt is
rebuilt as it was; and every commit pays for its Events out of the fence it leaves.
-/
import PiglorProofs.Store.Records

namespace Piglor.MemoryStore

open Checked Finmap

variable {s s₁ : MemoryStore} {F : CowForest TimelineId Event} {t : TimelineId} {st : TimelineState}
  {basis : PipelineAdmissionBasisV1}

/-! ## Recovered receipts -/

variable {now : WallTime}

theorem admissionGuards_eq_ok {now' : WallTime} :
    s.admissionGuards t (.ok now) = .ok now' ↔ s.TakesAppends t ∧ now = now' := by
  unfold admissionGuards
  rw [ok_bind]
  constructor
  · intro h
    obtain ⟨⟨⟩, hfence, h⟩ := bind_eq_ok.mp h
    obtain ⟨⟨⟩, hfork, h⟩ := bind_eq_ok.mp h
    obtain ⟨⟨⟩, hvisible, h⟩ := bind_eq_ok.mp h
    exact ⟨⟨hfence, ensureGenericForkAppendIsRejected_eq_ok.mp hfork, visibility_eq_ok.mp hvisible⟩, Except.ok.inj h⟩
  · rintro ⟨h, rfl⟩
    rw [h.admits, ok_bind, ensureGenericForkAppendIsRejected_eq_ok.mpr h.unadmitted, ok_bind,
      visibility_eq_ok.mpr h.visible, ok_bind]

variable {record : PipelineReceiptRecordV1}

/-- A batch's slice of a Timeline that has grown since is the batch. -/
theorem WF.retainedPipelineEvents_eq (hw : s.WF F) {st' : TimelineState} (hst' : s.timelines.lookup t = some st')
    {hasher : Hasher} {committed : List Event} (hgrew : (st.extend hasher committed).GrewTo st')
    (hhead : st.timeline.head = st.events.length)
    (hfirst : record.firstLocalSeq = st.timeline.head + 1) (hcount : record.eventCount = committed.length) :
    s.retainedPipelineEvents t record = committed.mapM (logicalEvent st.timeline.metadata.prefixLen) := by
  have hpre : s.logicalPrefix t = .ok st.timeline.metadata.prefixLen := by
    rw [logicalPrefix_eq hst', hgrew.metadata]
    rfl
  obtain ⟨rest, hevents⟩ := hgrew.events
  have hseqs := (hw.ledger hst').seqs
  rw [← hevents] at hseqs
  have hslice := hseqs.dropWhile_lt st.events.length
  have hown : s.ownEvents t = (st.events ++ committed) ++ rest := by
    rw [ownEvents, hst']
    exact hevents.symm
  rw [retainedPipelineEvents, hpre, ok_bind, hfirst, hcount, hown, hhead]
  rw [Nat.zero_add] at hslice
  rw [show (st.extend hasher committed).events = st.events ++ committed from rfl] at hslice
  rw [hslice, List.append_assoc, List.drop_left, List.take_left]

/-- The store answers a repeated key from the receipt record: nothing changes, a call the guards
refuse fails, the same basis recovers the receipt, and any other one conflicts. -/
def AnswersAdmissions (s : MemoryStore) (now : WallTime) (basis : PipelineAdmissionBasisV1)
    (receipt : PipelineCommitReceiptV1) : Prop :=
  ∀ (basis' : PipelineAdmissionBasisV1) (planned : CoreResult PlannedTickV1) (draw : Nat → Draw),
    basis'.attempt.idempotency.dedupKey = basis.attempt.idempotency.dedupKey →
    (s.digests.basis basis' = s.digests.basis basis → basis' = basis) →
    (s.TakesAppends basis'.attempt.observation.timelineId → s.admitPipelineBatch basis' (.ok now) planned draw =
      (.ok (if basis' = basis then .recoveredDuplicate receipt else .admissionConflict), s)) ∧
    (¬ s.TakesAppends basis'.attempt.observation.timelineId →
      ∃ err, s.admitPipelineBatch basis' (.ok now) planned draw = (.error err, s))

/-- A receipt record and what it stands for: the batch's Events are still in the store, and give the receipt. -/
structure HoldsReceipt (s : MemoryStore) (basis : PipelineAdmissionBasisV1) (record : PipelineReceiptRecordV1)
    (receipt : PipelineCommitReceiptV1) : Prop where
  retained : s.pipelineAdmissionReceipts.lookup basis.attempt.idempotency.dedupKey = some record
  timeline : record.timeline = basis.attempt.observation.timelineId
  attempt : record.attemptId = basis.attempt.attemptId
  basisDigest : record.basisDigest = s.digests.basis basis
  batchDigest : record.draftBatchDigest = s.digests.draftBatch basis.batch.drafts
  events : ∃ events, s.retainedPipelineEvents basis.attempt.observation.timelineId record = .ok events ∧
    committedPipelineReceipt s.digests basis basis.attempt.observation.timelineId events = .ok receipt

variable {receipt : PipelineCommitReceiptV1}

theorem HoldsReceipt.live (h : s.HoldsReceipt basis record receipt) (hlive : now < record.expiresAt) :
    s.liveReceipt basis.attempt.idempotency.dedupKey now = some record := by
  rw [liveReceipt, h.retained, Option.filter_some, if_pos (decide_eq_true hlive)]

theorem HoldsReceipt.answersAdmissions (h : s.HoldsReceipt basis record receipt) (hlive : now < record.expiresAt) :
    s.AnswersAdmissions now basis receipt := by
  intro basis' planned draw hkey hcollision
  unfold admitPipelineBatch
  dsimp only
  constructor
  · intro htakes
    rw [admissionGuards_eq_ok.mpr ⟨htakes, rfl⟩, after_ok, hkey, h.live hlive]
    dsimp only
    by_cases hbasis : basis' = basis
    · subst hbasis
      obtain ⟨events, hevents, hreceipt⟩ := h.events
      rw [recoverPipelineReceipt, if_neg (by simp [h.timeline, h.basisDigest]), hevents, ok_bind, hreceipt, ok_bind,
        if_pos rfl]
    · have hother : record.timeline ≠ basis'.attempt.observation.timelineId ∨
          record.basisDigest ≠ s.digests.basis basis' :=
        .inr fun heq => hbasis (hcollision (heq.symm.trans h.basisDigest))
      rw [recoverPipelineReceipt, if_pos hother, if_neg hbasis]
  · intro hrefused
    rcases after_cases s (s.admissionGuards basis'.attempt.observation.timelineId (.ok now)) _
      with ⟨err, -, he⟩ | ⟨now', hguards, -⟩
    · exact ⟨err, he⟩
    · exact absurd (admissionGuards_eq_ok.mp hguards).1 hrefused

theorem pipelinePersistedState_ok {n : Nat} {persisted : PipelinePersistedStateV1}
    (hst : s.timelines.lookup t = some st) (h : s.pipelinePersistedState t = .ok (n, persisted)) :
    n = st.timeline.metadata.prefixLen ∧ persisted.fence = s.pipelineAdmissionFences.lookup t := by
  rw [pipelinePersistedState, logicalPrefix_eq hst, ok_bind] at h
  obtain ⟨head, -, h⟩ := bind_eq_ok.mp h
  cases h
  exact ⟨rfl, rfl⟩

/-- A committed batch's record holds its receipt for as long as it is retained. -/
theorem committed_holdsReceipt (hs : Reachable Sane s) {clock : CoreResult WallTime}
    {planned : CoreResult PlannedTickV1} {draw : Nat → Draw}
    (hc : s.Sane (.admitPipelineBatch basis clock planned draw))
    (h : s.admitPipelineBatch basis clock planned draw = (.ok (.committed receipt), s₁)) :
    ∃ record, s₁.pipelineAdmissionReceipts.lookup basis.attempt.idempotency.dedupKey = some record ∧
      ∀ calls, Admissible (Retaining fun s' =>
          s'.pipelineAdmissionReceipts.lookup basis.attempt.idempotency.dedupKey = some record) s₁ calls →
        (s₁.run calls).HoldsReceipt basis record receipt := by
  obtain ⟨F, hw⟩ := hs.fresh.wf
  have hs₁ : Reachable Sane s₁ := by
    have := hs.step hc
    rwa [exec, h] at this
  rcases s.admitPipelineBatch_cases basis clock planned draw with
    ⟨outcome, hother, he⟩ | ⟨now, n, persisted, nextFence, install, batch, -, -, hpersisted, -, hbatch, he⟩
  · rw [h] at he
    cases he
    exact absurd rfl (hother receipt)
  rw [h] at he
  cases he
  obtain ⟨st, hst, -, -, -, -, hstaged, hfirst, events, hevents, hreceipt⟩ := stageBatch_ok hbatch
  obtain ⟨rfl, -⟩ := pipelinePersistedState_ok hst hpersisted
  refine ⟨_, lookup_insert _, fun calls hcalls => ?_⟩
  -- the record names the Timeline, so a call that forgets it would drop the record
  obtain ⟨st', hst', hgrew⟩ := grows_run hs₁ hcalls (lookup_insert _) fun s' u _ hgone hkept =>
    hgone.receipts hkept rfl
  rw [hstaged] at hgrew
  have hdigests := digests_run hs₁ hcalls.sane
  obtain ⟨F', hw'⟩ := (hs₁.run hcalls.sane).fresh.wf
  refine ⟨hcalls.kept (lookup_insert _), rfl, rfl, by rw [hdigests]; rfl, by rw [hdigests]; rfl, events, ?_,
    by rw [hdigests]; exact hreceipt⟩
  rw [hw'.retainedPipelineEvents_eq hst' hgrew (hw.ledger hst).head_eq hfirst rfl]
  exact hevents

/-! ## The budget -/

/-- What is left of a Timeline's published Event budget. -/
def remainingBudget (s : MemoryStore) (t : TimelineId) : Nat :=
  ((s.pipelineAdmissionFences.lookup t).map PipelineAdmissionFenceV1.remainingEventBudget).getD 0

def Publishes (s : MemoryStore) (t : TimelineId) (c : Call) : Prop :=
  ∃ fence s', c = .setPipelineAdmissionFence t fence ∧ s.setPipelineAdmissionFence t fence = (.ok (), s')

def admittedEvents (s : MemoryStore) (t : TimelineId) : Call → Nat
  | .admitPipelineBatch basis clock planned draw =>
    ((s.admitPipelineBatch basis clock planned draw).2.ownEvents t).length - (s.ownEvents t).length
  | _ => 0

/-- The Events a run adds to the Timeline by admitting batches. -/
def admittedThrough (t : TimelineId) : MemoryStore → List Call → Nat
  | _, [] => 0
  | s, c :: calls => s.admittedEvents t c + admittedThrough t (s.exec c) calls

variable {s' : MemoryStore}

theorem remainingBudget_of_lookup (h : s'.pipelineAdmissionFences.lookup t = s.pipelineAdmissionFences.lookup t) :
    s'.remainingBudget t = s.remainingBudget t := by
  rw [remainingBudget, h, remainingBudget]

section Install

variable {nextFence : PipelineAdmissionFenceV1} {install : FactualInstallV1} {batch : StagedBatch}

theorem ownEvents_installBatch (hstaged : batch.staged = st.extend s.hasher batch.committed) :
    (s.installBatch t basis nextFence install batch).ownEvents t = st.events ++ batch.committed := by
  rw [ownEvents, installBatch, setTimeline, lookup_insert, hstaged]
  rfl

variable {u : TimelineId}

theorem ownEvents_installBatch_of_ne (h : u ≠ t) :
    (s.installBatch t basis nextFence install batch).ownEvents u = s.ownEvents u := by
  rw [ownEvents, installBatch, setTimeline, lookup_insert_of_ne _ h, ownEvents]

theorem remainingBudget_installBatch :
    (s.installBatch t basis nextFence install batch).remainingBudget t = nextFence.remainingEventBudget := by
  rw [remainingBudget, installBatch, lookup_insert]
  rfl

theorem remainingBudget_installBatch_of_ne (h : u ≠ t) :
    (s.installBatch t basis nextFence install batch).remainingBudget u = s.remainingBudget u :=
  remainingBudget_of_lookup (lookup_insert_of_ne _ h)

end Install

/-- An admission pays for the Events it adds. -/
theorem admitPipelineBatch_budget (clock : CoreResult WallTime) (planned : CoreResult PlannedTickV1)
    (draw : Nat → Draw) : s.admittedEvents t (.admitPipelineBatch basis clock planned draw) +
      (s.admitPipelineBatch basis clock planned draw).2.remainingBudget t ≤ s.remainingBudget t := by
  dsimp only [admittedEvents]
  rcases s.admitPipelineBatch_cases basis clock planned draw with
    ⟨_, -, he⟩ | ⟨now, n, persisted, nextFence, install, batch, -, -, hpersisted, hfence, hbatch, he⟩
  · rw [he]
    simp
  rw [he]
  obtain ⟨st, hst, -, -, -, hlen, hstaged, -⟩ := stageBatch_ok hbatch
  obtain ⟨-, hpublished⟩ := pipelinePersistedState_ok hst hpersisted
  obtain ⟨fence, hsome, hpays⟩ := evaluatePipelineAdmission_ok hfence
  rw [hpublished] at hsome
  -- a batch pays on its own Timeline and on no other
  by_cases ht : t = basis.attempt.observation.timelineId
  · subst ht
    have hold : s.ownEvents basis.attempt.observation.timelineId = st.events := by rw [ownEvents, hst]
    have hleft : s.remainingBudget basis.attempt.observation.timelineId = fence.remainingEventBudget := by
      rw [remainingBudget, hsome]
      rfl
    rw [ownEvents_installBatch hstaged, remainingBudget_installBatch, hold, hleft, List.length_append, hlen]
    omega
  · rw [ownEvents_installBatch_of_ne ht, remainingBudget_installBatch_of_ne ht]
    simp

variable {c : Call}

/-- No other call adds to the budget, unless it publishes a fence. -/
theorem Step.remainingBudget_le (h : Step c s s') (hpublish : ¬ s.Publishes t c)
    (hother : ∀ basis clock planned draw, c ≠ .admitPipelineBatch basis clock planned draw) :
    s'.remainingBudget t ≤ s.remainingBudget t := by
  cases h with
  | keep _ _ _ fences _ => exact Nat.le_of_eq (remainingBudget_of_lookup (by rw [fences]))
  | @publish u fence call done eq =>
    have hne : t ≠ u := by
      rintro rfl
      exact hpublish ⟨fence, s', call, done⟩
    rw [eq]
    exact Nat.le_of_eq (remainingBudget_of_lookup (lookup_insert_of_ne _ hne))
  | @forget s₀ u su _ frame _ eq =>
    have hfences : s'.pipelineAdmissionFences = s.pipelineAdmissionFences.erase u := by
      rw [eq, frame]
      rfl
    by_cases ht : t = u
    · subst ht
      rw [remainingBudget, hfences, lookup_erase]
      exact Nat.zero_le _
    · exact Nat.le_of_eq (remainingBudget_of_lookup (by rw [hfences, lookup_erase_ne ht]))
  | identify _ eq =>
    rw [eq]
    exact Nat.le_refl _
  | commit call _ _ _ => exact absurd call (hother _ _ _ _)

/-- One call: what it admits and what it leaves of the budget were there before. -/
theorem exec_budget (hr : s.Refines F) (hc : s.Fresh c) (hpublish : ¬ s.Publishes t c) :
    s.admittedEvents t c + (s.exec c).remainingBudget t ≤ s.remainingBudget t := by
  by_cases hother : ∃ basis clock planned draw, c = .admitPipelineBatch basis clock planned draw
  · obtain ⟨basis, clock, planned, draw, rfl⟩ := hother
    exact admitPipelineBatch_budget clock planned draw
  · push Not at hother
    have hzero : s.admittedEvents t c = 0 := by
      unfold admittedEvents
      split
      · exact absurd rfl (hother _ _ _ _)
      · rfl
    rw [hzero, Nat.zero_add]
    exact (exec_step hr hc).remainingBudget_le hpublish hother

/-- A run: the budget covers every Event it admits. -/
theorem admittedThrough_le : ∀ {calls : List Call} {s : MemoryStore}, Reachable Sane s →
    Admissible (fun s c => s.Sane c ∧ ¬ s.Publishes t c) s calls →
    admittedThrough t s calls ≤ s.remainingBudget t
  | [], _, _, _ => Nat.zero_le _
  | c :: calls, s, hs, ⟨⟨hsane, hpublish⟩, hcalls⟩ => by
    obtain ⟨F, hw⟩ := hs.fresh.wf
    have hstep := exec_budget hw.toRefines hsane.1 hpublish
    have hrest := admittedThrough_le (hs.step hsane) hcalls
    calc admittedThrough t s (c :: calls)
        ≤ s.admittedEvents t c + (s.exec c).remainingBudget t := Nat.add_le_add_left hrest _
      _ ≤ s.remainingBudget t := hstep

/-- Admitted batches commit at most once and within budget: (a) while the receipt record of a
committed batch is retained and unexpired, every admission under its key leaves the store as it is,
the same basis recovers the receipt and any other one conflicts; (b) an admission that does not
commit changes nothing; (c) between two publications of a fence on a Timeline, the Events admitted
on it are at most the published budget. -/
theorem admission_once_within_budget (hs : Reachable Sane s) :
    (∀ basis clock planned draw receipt s₁, s.Sane (.admitPipelineBatch basis clock planned draw) →
      s.admitPipelineBatch basis clock planned draw = (.ok (.committed receipt), s₁) →
      ∃ record, s₁.pipelineAdmissionReceipts.lookup basis.attempt.idempotency.dedupKey = some record ∧
        ∀ calls, Admissible (Retaining fun s' =>
            s'.pipelineAdmissionReceipts.lookup basis.attempt.idempotency.dedupKey = some record) s₁ calls →
          ∀ now < record.expiresAt, (s₁.run calls).AnswersAdmissions now basis receipt) ∧
    (∀ basis clock planned draw result s', s.admitPipelineBatch basis clock planned draw = (result, s') →
      (∀ receipt, result ≠ .ok (.committed receipt)) → s' = s) ∧
    (∀ t fence s₁, s.setPipelineAdmissionFence t fence = (.ok (), s₁) →
      ∀ calls, Admissible (fun s c => s.Sane c ∧ ¬ s.Publishes t c) s₁ calls →
        admittedThrough t s₁ calls ≤ fence.remainingEventBudget) := by
  refine ⟨?_, ?_, ?_⟩
  · intro basis clock planned draw receipt s₁ hc h
    obtain ⟨record, hrecord, hholds⟩ := committed_holdsReceipt hs hc h
    exact ⟨record, hrecord, fun calls hcalls now hlive => (hholds calls hcalls).answersAdmissions hlive⟩
  · intro basis clock planned draw result s' h hother
    rcases s.admitPipelineBatch_cases basis clock planned draw with
      ⟨_, -, he⟩ | ⟨_, _, _, _, _, batch, -, -, -, -, -, he⟩
    · rw [h] at he
      exact congrArg Prod.snd he
    · rw [h] at he
      exact absurd (congrArg Prod.fst he) (hother _)
  · intro t fence s₁ h calls hcalls
    have hs₁ : Reachable Sane s₁ := by
      have := hs.step (c := .setPipelineAdmissionFence t fence) ⟨trivial, trivial⟩
      rwa [exec, h] at this
    have hbudget : s₁.remainingBudget t = fence.remainingEventBudget := by
      rcases s.setPipelineAdmissionFence_cases t fence with ⟨e, he⟩ | he
      · rw [h] at he
        cases he
      · rw [h] at he
        cases he
        rw [remainingBudget, lookup_insert]
        rfl
    exact hbudget ▸ admittedThrough_le hs₁ hcalls

def noteRevisions : PipelineSecurityRevisionsV1 := ⟨1, 1, 1, 1, 1, 1, 1, by decide⟩

def noteBasis (observation : PipelineObservationAnchorV1) (tick : Nat) : PipelineAdmissionBasisV1 where
  attempt := ⟨⟨2, by decide⟩, .humanProposedAction, observation, ⟨⟨7⟩, ⟨9⟩⟩, by decide⟩
  tentativeResult := .humanDomainApproval ⟨1, by decide⟩
  precondition := .domainStateRevision 1
  securityRevisions := noteRevisions
  batch := ⟨[EventDraft.new ⟨1⟩ "note" []], by decide, by decide, by decide, by decide⟩
  dependencies := ⟨1, tick⟩
  ingress_eq := rfl

/-- A fence with a budget of three Events. -/
def noteFence : PipelineAdmissionFenceV1 := ⟨1, noteRevisions, some 1, 3, by decide⟩

/-- A root under the fence, with a resolved authority; a basis is digested by its Tick. -/
def fencedRoot : MemoryStore :=
  run (MemoryStore.empty Hasher.counting
      { PipelineDigestsV1.constant with basis := fun b => BitVec.ofNat 256 b.dependencies.tick } .newTestOpen)
    [.createTimeline "root" ⟨1⟩,
      .host ⟨∅, some .newTestOpen, false, none, false, none, fun _ => .ok ⟨[], 0, 0, []⟩, ∅, ∅⟩,
      .setPipelineAdmissionFence ⟨1⟩ noteFence]

/-- The Tick check's verdict on the note. -/
def notePlan : CoreResult PlannedTickV1 := .ok (.install ⟨1, 1, [], none⟩)

def rootObservation : PipelineObservationAnchorV1 := ⟨⟨1⟩, 0, 1, by decide⟩

/-- An observation of a Timeline the store does not have. -/
def lostObservation : PipelineObservationAnchorV1 := ⟨⟨5⟩, 0, 1, by decide⟩

/-- The root after one admitted note and an append. -/
def notedRoot : MemoryStore :=
  (fencedRoot.admitPipelineBatch (noteBasis rootObservation 1) (.ok 100) notePlan (drawsFrom 20 5)).2.run
    [.append ⟨1⟩ [EventDraft.new ⟨1⟩ "note" []] (drawsFrom 30 5)]

theorem fencedRoot_sane : Reachable Sane fencedRoot :=
  Reachable.run (.blank .empty) (by decide)

/-- The note commits; later its basis recovers the receipt and another Tick's basis conflicts; and
two admissions of it spend at most the published budget. -/
theorem fencedRoot_admission : ∃ receipt,
    (fencedRoot.admitPipelineBatch (noteBasis rootObservation 1) (.ok 100) notePlan (drawsFrom 20 5)).1 =
      .ok (.committed receipt) ∧
    notedRoot.admitPipelineBatch (noteBasis rootObservation 1) (.ok 101) notePlan (drawsFrom 40 5) =
      (.ok (.recoveredDuplicate receipt), notedRoot) ∧
    notedRoot.admitPipelineBatch (noteBasis rootObservation 2) (.ok 101) notePlan (drawsFrom 40 5) =
      (.ok .admissionConflict, notedRoot) ∧
    (fencedRoot.admitPipelineBatch (noteBasis lostObservation 1) (.ok 101) notePlan (drawsFrom 40 5)).2 =
      fencedRoot ∧
    admittedThrough ⟨1⟩ (fencedRoot.setPipelineAdmissionFence ⟨1⟩ noteFence).2
      [.admitPipelineBatch (noteBasis rootObservation 1) (.ok 100) notePlan (drawsFrom 20 5),
        .admitPipelineBatch (noteBasis rootObservation 1) (.ok 101) notePlan (drawsFrom 40 5)] ≤ 3 := by
  obtain ⟨hretries, hunchanged, hbudget⟩ := admission_once_within_budget fencedRoot_sane
  obtain ⟨receipt, hcommit⟩ : ∃ receipt,
      fencedRoot.admitPipelineBatch (noteBasis rootObservation 1) (.ok 100) notePlan (drawsFrom 20 5) =
        (.ok (.committed receipt), (fencedRoot.admitPipelineBatch (noteBasis rootObservation 1) (.ok 100) notePlan
          (drawsFrom 20 5)).2) := ⟨_, rfl⟩
  obtain ⟨record, hrecord, hlater⟩ := hretries _ _ _ _ _ _ (by decide) hcommit
  cases (show some _ = some record from hrecord)
  have hanswers := hlater [.append ⟨1⟩ [EventDraft.new ⟨1⟩ "note" []] (drawsFrom 30 5)] (by decide) 101 (by decide)
  have htakes : notedRoot.TakesAppends ⟨1⟩ := ⟨rfl, rfl, ⟨_, rfl⟩, by decide⟩
  refine ⟨receipt, congrArg Prod.fst hcommit, ?_, ?_, ?_, ?_⟩
  · exact (hanswers (noteBasis rootObservation 1) notePlan (drawsFrom 40 5) rfl (fun _ => rfl)).1 htakes
  · exact (hanswers (noteBasis rootObservation 2) notePlan (drawsFrom 40 5) rfl (fun h => absurd h (by decide))).1 htakes
  · have hmissing : fencedRoot.admitPipelineBatch (noteBasis lostObservation 1) (.ok 101) notePlan (drawsFrom 40 5) =
        (.error (.timelineNotFound ⟨5⟩), (fencedRoot.admitPipelineBatch (noteBasis lostObservation 1) (.ok 101) notePlan
          (drawsFrom 40 5)).2) := rfl
    exact hunchanged _ _ _ _ _ _ hmissing fun _ h => by cases h
  · refine hbudget ⟨1⟩ noteFence _ rfl _ ⟨⟨by decide, ?_⟩, ⟨by decide, ?_⟩, trivial⟩
    · rintro ⟨fence, s', h, -⟩
      cases h
    · rintro ⟨fence, s', h, -⟩
      cases h

/-- Another basis under the key that names a Timeline the store does not have is refused, not answered. -/
theorem notedRoot_refused : Reachable Sane fencedRoot ∧
    (∃ receipt, (fencedRoot.admitPipelineBatch (noteBasis rootObservation 1) (.ok 100) notePlan (drawsFrom 20 5)).1 =
      .ok (.committed receipt)) ∧
    (notedRoot.liveReceipt ⟨7⟩ 101).isSome ∧
    (notedRoot.admitPipelineBatch (noteBasis lostObservation 2) (.ok 101) notePlan (drawsFrom 40 5)).1 =
      .error (.timelineNotFound ⟨5⟩) :=
  ⟨fencedRoot_sane, ⟨_, rfl⟩, by decide, by decide⟩

end Piglor.MemoryStore
