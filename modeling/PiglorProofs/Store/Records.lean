/-
What a call can do to the retry tables and the fences beside the Timelines, said once: keep every
Timeline and add no record, publish a fence, forget a Timeline with its records, leave the record
of one keyed Event, or install an admitted batch. A Timeline therefore keeps its Events for as long
as a record that names it is retained.
-/
import PiglorProofs.Store.AppendSpec
import PiglorProofs.Store.EventIds

namespace Piglor

structure TimelineState.GrewTo (st st' : TimelineState) : Prop where
  metadata : st'.timeline.metadata = st.timeline.metadata
  events : st.events <+: st'.events

theorem TimelineState.GrewTo.refl (st : TimelineState) : st.GrewTo st := ⟨rfl, List.prefix_refl _⟩

theorem TimelineState.GrewTo.trans {st st' st'' : TimelineState} (h : st.GrewTo st') (h' : st'.GrewTo st'') :
    st.GrewTo st'' := ⟨h'.metadata.trans h.metadata, h.events.trans h'.events⟩

theorem TimelineState.GrewTo.extend (st : TimelineState) (hasher : Hasher) (es : List Event) :
    st.GrewTo (st.extend hasher es) := ⟨rfl, List.prefix_append _ _⟩

namespace MemoryStore

variable {s s' : MemoryStore} {t : TimelineId} {st : TimelineState}

/-- Every Timeline is still stored, with the Events it had. -/
def Kept (s s' : MemoryStore) : Prop :=
  ∀ ⦃t st⦄, s.timelines.lookup t = some st → ∃ st', s'.timelines.lookup t = some st' ∧ st.GrewTo st'

theorem Kept.of_eq (h : s'.timelines = s.timelines) : s.Kept s' := by
  intro t st hst
  exact ⟨st, h ▸ hst, .refl st⟩

theorem Kept.trans {s'' : MemoryStore} (h : s.Kept s') (h' : s'.Kept s'') : s.Kept s'' := by
  intro t st hst
  obtain ⟨st', hst', hgrew⟩ := h hst
  obtain ⟨st'', hst'', hgrew'⟩ := h' hst'
  exact ⟨st'', hst'', hgrew.trans hgrew'⟩

theorem Kept.extend {es : List Event} (old : s.timelines.lookup t = some st)
    (timelines : s'.timelines = s.timelines.insert t (st.extend s.hasher es)) : s.Kept s' := by
  intro u su hu
  rw [timelines]
  by_cases hut : u = t
  · subst hut
    rw [old] at hu
    cases hu
    exact ⟨_, Finmap.lookup_insert _, .extend st s.hasher es⟩
  · exact ⟨su, by rw [Finmap.lookup_insert_of_ne _ hut]; exact hu, .refl su⟩

variable {loose : Prop}

theorem Growth.kept (h : s.Growth loose s') : s.Kept s' := by
  cases h with
  | keep _ timelines _ => exact .of_eq timelines
  | insert _ fresh timelines _ _ =>
    intro u su hu
    refine ⟨su, ?_, .refl su⟩
    rw [timelines, Finmap.lookup_insert_of_ne _ (by rintro rfl; rw [fresh] at hu; cases hu)]
    exact hu
  | extend _ old timelines _ _ _ _ _ => exact .extend old timelines

theorem Grown.kept (h : s.Grown loose s') : s.Kept s' := by
  induction h with
  | refl => exact .of_eq rfl
  | tail _ hstep ih => exact ih.trans hstep.kept

/-! ## One call -/

/-- What a call does to the Timelines, the retry tables and the fences together. -/
inductive Step (c : Call) (s s' : MemoryStore) : Prop where
  | keep (kept : s.Kept s') (identities : Table.Within s'.appendIdentities s.appendIdentities)
      (receipts : Table.Within s'.pipelineAdmissionReceipts s.pipelineAdmissionReceipts)
      (fences : s'.pipelineAdmissionFences = s.pipelineAdmissionFences) (digests : s'.digests = s.digests)
  | publish {t : TimelineId} {fence : PipelineAdmissionFenceV1} (call : c = .setPipelineAdmissionFence t fence)
      (done : s.setPipelineAdmissionFence t fence = (.ok (), s'))
      (eq : s' = { s with pipelineAdmissionFences := s.pipelineAdmissionFences.insert t fence })
  | forget {s₀ : MemoryStore} {t : TimelineId} {st : TimelineState} (kept : s.Kept s₀) (frame : s.Frame s₀)
      (old : s₀.timelines.lookup t = some st) (eq : s' = s₀.forgetTimeline t st)
  | identify {t : TimelineId} {identity : AppendIdentity} {st : TimelineState} {own : Event} {expiresAt : WallTime}
      (old : s.timelines.lookup t = some st) (eq : s' = s.keyedStore t identity st own expiresAt)
  | commit {basis : PipelineAdmissionBasisV1} {clock : CoreResult WallTime}
      {planned : CoreResult PlannedTickV1} {draw : Nat → Draw} {nextFence : PipelineAdmissionFenceV1}
      {install : FactualInstallV1} {st : TimelineState} {batch : StagedBatch}
      (call : c = .admitPipelineBatch basis clock planned draw)
      (old : s.timelines.lookup basis.attempt.observation.timelineId = some st)
      (staged : batch.staged = st.extend s.hasher batch.committed)
      (eq : s' = s.installBatch basis.attempt.observation.timelineId basis nextFence install batch)

variable {c : Call}

theorem Step.of_eq (h : s' = s) : Step c s s' := by
  subst h
  exact .keep (.of_eq rfl) (.refl _) (.refl _) rfl rfl

theorem Step.of_frame (kept : s.Kept s') (frame : s.Frame s') : Step c s s' := by
  rw [frame]
  exact .keep (frame ▸ kept) (.refl _) (.refl _) rfl rfl

/-- A growth of the Timelines that touches nothing else. -/
theorem Step.of_grown (grown : s.Grown True s') (frame : s.Frame s') : Step c s s' :=
  .of_frame grown.kept frame

theorem appendOrDuplicate_step {identity : AppendIdentity} {admittedAt : WallTime} {draft : EventDraft}
    {draw : Draw} : Step c s (s.appendOrDuplicate t identity admittedAt draft draw).2 := by
  rcases appendOrDuplicate_cases t identity admittedAt draft draw with
    ⟨e, -, he⟩ | ⟨st, hst, -, ⟨record, -, he⟩ | ⟨e, -, he⟩ | ⟨own, expiresAt, -, -, -, -, he⟩⟩
  · exact .of_eq (by rw [he])
  · exact .of_eq (by rw [he])
  · exact .of_eq (by rw [he])
  · rw [he]
    exact .identify hst rfl

theorem deleteTimeline_step {s₀ : MemoryStore} (kept : s.Kept s₀) (frame : s.Frame s₀) :
    Step c s (s₀.deleteTimeline t).2 := by
  rcases s₀.deleteTimeline_cases t with ⟨e, he⟩ | ⟨st, hst, -, he⟩
  · rw [he]
    exact .of_frame kept frame
  · rw [he]
    exact .forget kept frame hst rfl

theorem importCommitted_step {metadata : TimelineMeta} {events : List Event} :
    Step c s (s.importCommitted metadata events).2 := by
  obtain ⟨s₀, hgrown, hframe, h | ⟨t, h⟩⟩ := s.importCommitted_cases True metadata events
  · rw [h]
    exact .of_grown hgrown hframe
  · rw [h]
    exact deleteTimeline_step hgrown.kept hframe

theorem admitPipelineBatch_step {basis : PipelineAdmissionBasisV1} {clock : CoreResult WallTime}
    {planned : CoreResult PlannedTickV1} {draw : Nat → Draw} :
    Step (.admitPipelineBatch basis clock planned draw) s (s.admitPipelineBatch basis clock planned draw).2 := by
  rcases s.admitPipelineBatch_cases basis clock planned draw with
    ⟨_, -, he⟩ | ⟨_, _, _, _, _, batch, -, -, -, -, hbatch, he⟩
  · exact .of_eq (by rw [he])
  · rw [he]
    obtain ⟨st, hst, -, -, -, -, hstaged, -⟩ := stageBatch_ok hbatch
    exact .commit rfl hst hstaged rfl

/-- Every call is one such step. -/
theorem exec_step {F : CowForest TimelineId Event} (hr : s.Refines F) (hc : s.Fresh c) :
    Step c s (s.exec c) := by
  cases c with
  | createTimeline name id =>
    exact .of_grown (createTimeline_grown hc.1) (createTimeline_frame name id)
  | append timeline drafts draw =>
    exact .of_grown (append_grown hc (.inl trivial)) (append_frame timeline drafts draw)
  | appendOrDuplicate timeline identity admittedAt draft draw => exact appendOrDuplicate_step
  | fork parent atSeq name id =>
    exact .of_grown (fork_grown hc.1) (fork_frame parent atSeq name id)
  | createTimelineWithMeta metadata =>
    exact .of_grown createTimelineWithMeta_grown (createTimelineWithMeta_frame metadata)
  | appendCommitted timeline events =>
    exact .of_grown (appendCommitted_grown fun st hst => (hr.ledger hst).id_eq) (appendCommitted_frame timeline events)
  | importCommitted metadata events => exact importCommitted_step
  | deleteTimeline timeline => exact deleteTimeline_step (.of_eq rfl) rfl
  | purgeExpiredAppendIdentities now => exact .keep (.of_eq rfl) (.retain _ _) (.refl _) rfl rfl
  | purgeExpiredAppendIdentitiesBounded clock limit =>
    cases clock with
    | error e => exact .of_eq rfl
    | ok now => exact .keep (.of_eq rfl) (.eraseAll _ _) (.refl _) rfl rfl
  | removeAppendIdentities scope => exact .keep (.of_eq rfl) (.retain _ _) (.refl _) rfl rfl
  | removeAppendIdentitiesBounded scope limit =>
    exact .keep (.of_eq rfl) (.eraseAll _ _) (.eraseAll _ _) rfl rfl
  | setPipelineAdmissionFence timeline fence =>
    rcases s.setPipelineAdmissionFence_cases timeline fence with ⟨e, he⟩ | he
    · exact .of_eq (congrArg Prod.snd he)
    · refine .publish rfl ?_ (congrArg Prod.snd he)
      rw [exec, he]
  | admitPipelineBatch basis clock planned draw => exact admitPipelineBatch_step
  | purgeExpiredPipelineReceiptsBounded clock limit =>
    cases clock with
    | error e => exact .of_eq rfl
    | ok now => exact .keep (.of_eq rfl) (.refl _) (.eraseAll _ _) rfl rfl
  | host h => exact .keep (.of_eq rfl) (.refl _) (.refl _) rfl rfl

theorem Step.digests (h : Step c s s') : s'.digests = s.digests := by
  cases h with
  | keep _ _ _ _ digests => exact digests
  | publish _ _ eq => rw [eq]
  | forget _ frame _ eq => rw [eq, frame]; rfl
  | identify _ eq => rw [eq]; rfl
  | commit _ _ _ eq => rw [eq]; rfl

/-! ## A Timeline with a retained record -/

/-- No record of the Timeline is left. -/
structure Forgot (s : MemoryStore) (t : TimelineId) (st : TimelineState) : Prop where
  identities : ∀ {k r}, s.appendIdentities.lookup k = some r → ∀ e ∈ st.events, e.id ≠ r.eventId
  receipts : ∀ {k r}, s.pipelineAdmissionReceipts.lookup k = some r → r.timeline ≠ t

theorem forgot_forgetTimeline (s : MemoryStore) (t : TimelineId) (st : TimelineState) :
    (s.forgetTimeline t st).Forgot t st where
  identities := by
    intro k r hr e he heq
    rw [forgetTimeline, Table.lookup_retain, Option.filter_eq_some_iff, decide_eq_true_eq] at hr
    exact hr.2 (List.mem_toFinset.mpr (heq ▸ List.mem_map_of_mem he))
  receipts := by
    intro k r hr
    rw [forgetTimeline, Table.lookup_retain, Option.filter_eq_some_iff, decide_eq_true_eq] at hr
    exact hr.2

/-- A call keeps a Timeline, or forgets it with every record of it. -/
theorem Step.grows (h : Step c s s') (hst : s.timelines.lookup t = some st) :
    (∃ st', s'.timelines.lookup t = some st' ∧ st.GrewTo st') ∨
      s'.timelines.lookup t = none ∧ ∃ st', st.GrewTo st' ∧ s'.Forgot t st' := by
  cases h with
  | keep kept _ _ _ _ => exact .inl (kept hst)
  | publish _ _ eq => exact .inl ⟨st, by rw [eq]; exact hst, .refl st⟩
  | @forget s₀ u su kept _ old eq =>
    obtain ⟨st', hst', hgrew⟩ := kept hst
    by_cases htu : t = u
    · subst htu
      rw [old] at hst'
      cases hst'
      exact .inr ⟨by rw [eq]; exact Finmap.lookup_erase _ _, _, hgrew, eq ▸ forgot_forgetTimeline ..⟩
    · refine .inl ⟨st', ?_, hgrew⟩
      rw [eq, forgetTimeline, Finmap.lookup_erase_ne htu]
      exact hst'
  | identify old eq => exact .inl (Kept.extend old (by rw [eq]; rfl) hst)
  | commit _ old staged eq => exact .inl (Kept.extend old (by rw [eq, ← staged]; rfl) hst)

/-- A sane call after which the store satisfies `kept`. -/
def Retaining (kept : MemoryStore → Prop) (s : MemoryStore) (c : Call) : Prop := s.Sane c ∧ kept (s.exec c)

instance (kept : MemoryStore → Prop) [DecidablePred kept] (s : MemoryStore) (c : Call) : Decidable (Retaining kept s c) :=
  inferInstanceAs (Decidable (_ ∧ _))

/-- A Timeline keeps its Events through a run that retains a record of it. -/
theorem grows_run {kept : MemoryStore → Prop} : ∀ {calls : List Call} {s : MemoryStore} {st : TimelineState},
    Reachable Sane s → Admissible (Retaining kept) s calls → s.timelines.lookup t = some st →
    (∀ s' st', st.GrewTo st' → s'.Forgot t st' → ¬ kept s') →
    ∃ st', (s.run calls).timelines.lookup t = some st' ∧ st.GrewTo st'
  | [], _, st, _, _, hst, _ => ⟨st, hst, .refl st⟩
  | c :: calls, s, st, hs, ⟨⟨hsane, hkept⟩, hcalls⟩, hst, hforgot => by
    obtain ⟨F, hw⟩ := hs.fresh.wf
    rcases (exec_step hw.toRefines hsane.1).grows hst with ⟨st', hst', hgrew⟩ | ⟨-, st', hgrew, hgone⟩
    · obtain ⟨st'', hst'', hgrew'⟩ := grows_run (hs.step hsane) hcalls hst'
        fun s' u hu => hforgot s' u (hgrew.trans hu)
      exact ⟨st'', hst'', hgrew.trans hgrew'⟩
    · exact absurd hkept (hforgot _ st' hgrew hgone)

theorem Admissible.sane {kept : MemoryStore → Prop} {calls : List Call} (h : Admissible (Retaining kept) s calls) :
    Admissible Sane s calls := h.mono fun _ _ hc => hc.1

theorem Admissible.kept {kept : MemoryStore → Prop} : ∀ {calls : List Call} {s : MemoryStore},
    Admissible (Retaining kept) s calls → kept s → kept (s.run calls)
  | [], _, _, hs => hs
  | c :: calls, s, hc, _ => by
    show kept ((s.exec c).run calls)
    exact Admissible.kept hc.2 hc.1.2

theorem digests_run : ∀ {calls : List Call} {s : MemoryStore}, Reachable Sane s → Admissible Sane s calls →
    (s.run calls).digests = s.digests
  | [], _, _, _ => rfl
  | c :: calls, s, hs, hc => by
    obtain ⟨F, hw⟩ := hs.fresh.wf
    exact (digests_run (hs.step hc.1) hc.2).trans (exec_step hw.toRefines hc.1.1).digests

/-! ## Histories -/

open CowForest List

theorem prefix_run : ∀ {calls : List Call} {s : MemoryStore} {L L' : List (Segment TimelineId Event)},
    Reachable Sane s → Admissible (Retaining fun s => t ∈ s.timelines) s calls → Spine s.log t L →
    Spine (s.run calls).log t L' → unroll L <+: unroll L'
  | [], _, _, _, _, _, hL, hL' => by rw [hL.functional hL']
  | c :: calls, s, L, L', hs, ⟨⟨hsane, hmem⟩, hcalls⟩, hL, hL' => by
    obtain ⟨F, hw⟩ := hs.fresh.wf
    obtain ⟨F', hw'⟩ := (hs.step hsane).fresh.wf
    obtain ⟨st, hst⟩ := Finmap.mem_iff.mp hmem
    obtain ⟨M, hM⟩ := exists_spine (hw'.log hst)
    refine (Spine.unroll_grows (fun hl hl' => ?_) (hw.log_eq ▸ hL) hM).trans
      (prefix_run (hs.step hsane) hcalls (hw'.log_eq ▸ hM) hL')
    obtain ⟨su, hsu, rfl, -⟩ := hw.lookup hl
    obtain ⟨sv, hsv, rfl, -⟩ := hw'.lookup hl'
    rcases (exec_step hw.toRefines hsane.1).grows hsu with ⟨_, h, hgrew⟩ | ⟨h, -⟩
    · rw [hsv] at h
      cases h
      exact ⟨congrArg TimelineMeta.forkPoint hgrew.metadata, hgrew.events⟩
    · rw [hsv] at h
      cases h

/-- Timelines are append-only: through every run that keeps the Timeline stored, whatever it, its
ancestors and its Forks append, a read starts with what an earlier read showed. -/
theorem read_append_only (calls : List Call) {events later : List Event} (hs : Reachable Sane s)
    (hcalls : Admissible (Retaining fun s => t ∈ s.timelines) s calls) (hread : s.read t .all = .ok events)
    (hlater : (s.run calls).read t .all = .ok later) : events <+: later := by
  obtain ⟨F, hw⟩ := hs.fresh.wf
  obtain ⟨F', hw'⟩ := (hs.run hcalls.sane).fresh.wf
  obtain ⟨-, -, -, -, _, ⟨L, hL, rfl⟩, rfl⟩ := hw.read_all hread
  obtain ⟨-, -, -, -, _, ⟨L', hL', rfl⟩, rfl⟩ := hw'.read_all hlater
  rw [prefix_iff_eq_take.mp (prefix_run hs hcalls (hw.log_eq ▸ hL) (hw'.log_eq ▸ hL')), ← take_logicalEvents]
  exact take_prefix _ _

/-- The Fork keeps the root's Event in front when it grows. -/
theorem forkedOnce_append_only : ∃ events later, forkedOnce.read ⟨2⟩ .all = .ok events ∧ events <+: later ∧
    later.length = 2 :=
  ⟨_, _, rfl, read_append_only (t := ⟨2⟩) [.append ⟨2⟩ [.new ⟨1⟩ "note" []] fun _ => ⟨⟨2⟩, 6⟩] forkedOnce_sane
    (by decide) rfl rfl, rfl⟩

end MemoryStore

end Piglor
