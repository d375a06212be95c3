/-
Copy-on-write export and import (pos-core store.rs, erasure/artifact.rs). An export carries a
Timeline's own Events, its metadata and, for a Fork, the parent's chain hash at the cut; an import
checks all of it again and recreates the Timeline under its own id. What the destination then shows
is what the source showed, given a parent that shows the same first Events and can be cut there.
-/
import PiglorProofs.Erasure.Records
import PiglorProofs.Store.EventIds
import PiglorProofs.Store.Import

namespace Piglor

open Table CowForest Checked List TimelineState
open Erasure (ErasureReplayClaimV1 ErasureResult)

/-! ## The evaluated export closure -/

inductive ErasureArtifactClassV1 where
  | timelineReplay
  | reproManifest
  | causalTrace
  | calibrationReport
  | exported
  | forkOrSnapshot
  | conformanceReport
deriving DecidableEq

structure EvaluatedArtifactClaimV1 where
  artifactClass : ErasureArtifactClassV1
  artifactDigest : Hash
  authoritativeUsePermitted : Bool

/-- An aggregate replay claim with its per-artifact results. -/
structure ReplayClaimEvaluationV1 where
  replayClaim : ErasureReplayClaimV1
  artifacts : List EvaluatedArtifactClaimV1

/-- A registered artifact must still be eligible as authoritative input. -/
def ReplayClaimEvaluationV1.requireAuthoritativeUse (evaluation : ReplayClaimEvaluationV1)
    (artifactClass : ErasureArtifactClassV1) (artifactDigest : Hash) : ErasureResult Unit :=
  if evaluation.replayClaim = .structuralOnly ∨ evaluation.replayClaim = .unverifiableArtifactsMissing then
    .error .policyConflict
  else
    match (evaluation.artifacts.find? fun a =>
      decide (a.artifactClass = artifactClass ∧ a.artifactDigest = artifactDigest)).filter
        EvaluatedArtifactClaimV1.authoritativeUsePermitted with
    | some _ => .ok ()
    | none => .error .policyConflict

structure TimelineExport where
  timeline : Timeline
  events : List Event
  parentForkHash : Option Hash

/-- Protected evidence is refused before a generic import creates anything. -/
def ensureImportEventsAreNonGeographic (events : List Event) : CoreResult Unit :=
  if events.any fun e => isGeographicEventType e.eventType then
    .error (.storage "generic import of geographic evidence is disabled")
  else .ok ()

def exportTimelineUsing (timelineResult : CoreResult (Option Timeline))
    (readEvents : CoreResult (List Event)) (id : TimelineId) : CoreResult TimelineExport := do
  let some timeline ← timelineResult | .error (.timelineNotFound id)
  let events ← readEvents
  .ok ⟨timeline, events, none⟩

namespace MemoryStore

/-- The Events stored on the Timeline itself, by local sequence. -/
def readOwn (s : MemoryStore) (timeline : TimelineId) (range : SeqRange) : CoreResult (List Event) := do
  s.erasureFence timeline
  s.ensureGenericTimelineVisibility timeline
  .ok ((s.ownEvents timeline).filter fun e => range.contains e.seq)

def exportTimelineRaw (s : MemoryStore) (id : TimelineId) (artifactDigest : Hash)
    (evaluation : ReplayClaimEvaluationV1) : CoreResult TimelineExport := do
  (evaluation.requireAuthoritativeUse .exported artifactDigest).mapError fun _ => CoreError.artifactUnavailable
  let exported ← exportTimelineUsing (s.getTimeline id) (s.readOwn id .all) id
  match exported.timeline.metadata.forkPoint with
  | some (parent, atSeq) => do
    let parentHash ← s.chainHashAt parent atSeq
    .ok { exported with parentForkHash := some parentHash }
  | none => .ok exported

def exportTimelineOwn (s : MemoryStore) (id : TimelineId) (artifactDigest : Hash)
    (evaluation : ReplayClaimEvaluationV1) : CoreResult TimelineExport :=
  s.exportTimelineRaw id artifactDigest evaluation

/-- The parent's chain hash at the cut must be the exported one. -/
def validateParentForkHash (s : MemoryStore) (exported : TimelineExport) : CoreResult Unit :=
  match exported.timeline.metadata.forkPoint with
  | none => .ok ()
  | some (parent, atSeq) => do
    let some expected := exported.parentForkHash
      | .error (.storage "forked import requires parent_fork_hash (use export_timeline_own)")
    let actual ← s.chainHashAt parent atSeq
    if actual ≠ expected then .error (.storage "fork parent chain hash mismatch") else .ok ()

def importTimelineWithId (s : MemoryStore) (exported : TimelineExport) : Effect Timeline :=
  s.after (do
    ensureImportEventsAreNonGeographic exported.events
    s.validateParentForkHash exported) fun _ =>
  s.importCommitted exported.timeline.metadata exported.events

variable {s s' : MemoryStore} {F : CowForest TimelineId Event} {t p : TimelineId} {n : Seq} {st : TimelineState}

/-! ## Every stored Event is sealed -/

/-- The stored Events' signature fields and payload hashes agree with them. -/
def AllSealed (s : MemoryStore) : Prop := ∀ {t st}, s.timelines.lookup t = some st → ∀ e ∈ st.events, e.Sealed s.hasher

variable {loose : Prop}

theorem AllSealed.change (h : s.AllSealed) (hc : s.Change loose s') : s'.AllSealed := by
  intro j sj hj e he
  cases hc with
  | grow growth =>
    cases growth with
    | keep hasher timelines ids =>
      rw [timelines] at hj
      rw [hasher]
      exact h hj e he
    | insert hasher fresh timelines ids born =>
      rw [timelines] at hj
      rw [hasher]
      rcases lookup_insert_eq_some.mp hj with ⟨rfl, rfl⟩ | ⟨-, hj⟩
      · rw [born.empty] at he; cases he
      · exact h hj e he
    | extend hasher old timelines ids accepts nodup new sealed =>
      rw [timelines] at hj
      rw [hasher]
      rcases lookup_insert_eq_some.mp hj with ⟨rfl, rfl⟩ | ⟨-, hj⟩
      · rcases mem_append.mp he with he | he
        · exact h old e he
        · exact sealed e he
      · exact h hj e he
  | remove hasher old leaf timelines ids =>
    rw [timelines] at hj
    rw [hasher]
    exact h (lookup_erase_eq_some.mp hj).2 e he

theorem AllSealed.changes (h : s.AllSealed) (hc : s.Changes loose s') : s'.AllSealed := by
  induction hc with
  | refl => exact h
  | tail _ hstep ih => exact ih.change hstep

theorem Reachable.allSealed (hs : Reachable Fresh s) : s.AllSealed := by
  induction hs with
  | blank hb =>
    intro t st hst
    rw [hb.timelines, Finmap.lookup_empty] at hst
    cases hst
  | @step s c hs hc ih =>
    obtain ⟨F, hw⟩ := hs.wf
    have hchanges : s.Changes True (s.exec c) := exec_changes hw.toRefines hc (.inl trivial)
    intro t st hst
    exact ih.changes hchanges hst

/-- Every Event a read shows carries the hash of its payload and signature fields that agree. -/
theorem read_sealed (hs : Reachable Fresh s) (range : SeqRange) {events : List Event}
    (hread : s.read t range = .ok events) : ∀ e ∈ events, e.Sealed s.hasher := by
  intro e he
  obtain ⟨F, hw⟩ := hs.wf
  obtain ⟨-, _, ⟨L, hL, rfl⟩, rfl⟩ := hw.sound_of_collect (read_eq_ok.mp hread).2.2.2
  -- the Event is one of a segment's own, under its logical sequence
  obtain ⟨⟨own, i⟩, hown, rfl⟩ := mem_map.mp (mem_of_mem_filter he)
  obtain ⟨x, hx, hown⟩ := mem_unroll (fst_mem_of_mem_zipIdx hown)
  obtain ⟨st, hst, -, hevents⟩ := lookup_of_spine (hw.spine hL) hx
  have hsealed := hs.allSealed hst own (hevents ▸ hown)
  exact ⟨hsealed.signature, hsealed.payloadHash⟩

theorem forkedOnce_read_sealed : ∃ e, forkedOnce.read ⟨2⟩ .all = .ok [e] ∧ e.Sealed forkedOnce.hasher :=
  ⟨_, rfl, read_sealed (t := ⟨2⟩) forkedOnce_reachable .all rfl _ mem_cons_self⟩

/-! ## What an export and an import ask for -/

variable {digest : Hash} {evaluation : ReplayClaimEvaluationV1} {exported : TimelineExport}

theorem readOwn_all (hadmits : s.Admits t) (hvisible : s.Visible t) : s.readOwn t .all = .ok (s.ownEvents t) := by
  rw [readOwn, hadmits, ok_bind, visibility_eq_ok.mpr hvisible, ok_bind, filter_all]

def ParentHashAt (s : MemoryStore) (exported : TimelineExport) : Prop :=
  ∀ p n, exported.timeline.metadata.forkPoint = some (p, n) →
    ∃ hash, s.chainHashAt p n = .ok hash ∧ exported.parentForkHash = some hash

/-- The source lets the Timeline be exported. -/
structure Exports (s : MemoryStore) (t : TimelineId) (digest : Hash) (evaluation : ReplayClaimEvaluationV1) : Prop where
  authoritative : evaluation.requireAuthoritativeUse .exported digest = .ok ()
  admits : s.Admits t
  unmarked : t ∉ s.geographicTimelines

theorem exportTimelineOwn_ok (hst : s.timelines.lookup t = some st)
    (h : s.exportTimelineOwn t digest evaluation = .ok exported) :
    s.Exports t digest evaluation ∧ exported.timeline = st.timeline ∧ exported.events = st.events ∧
      s.ParentHashAt exported := by
  obtain ⟨⟨⟩, hauth, h⟩ := bind_eq_ok.mp h
  obtain ⟨raw, hraw, h⟩ := bind_eq_ok.mp h
  obtain ⟨found, hget, hraw⟩ := bind_eq_ok.mp hraw
  obtain ⟨⟨⟩, hadmits, hget⟩ := bind_eq_ok.mp hget
  rw [hst] at hget
  cases hget
  by_cases hmark : t ∈ s.geographicTimelines
  · simp only [if_pos hmark] at hraw
    cases hraw
  simp only [if_neg hmark] at hraw
  rw [readOwn_all hadmits ⟨⟨st, hst⟩, hmark⟩, ownEvents, hst, ok_bind] at hraw
  cases hraw
  have hauth : evaluation.requireAuthoritativeUse .exported digest = .ok () := by
    rcases unit_ok_or_error (evaluation.requireAuthoritativeUse .exported digest) with hok | ⟨e, he⟩
    · exact hok
    · rw [he] at hauth
      cases hauth
  have hexports : s.Exports t digest evaluation := ⟨hauth, hadmits, hmark⟩
  split at h
  · rename_i p n hfp
    obtain ⟨hash, hhash, h⟩ := bind_eq_ok.mp h
    cases h
    refine ⟨hexports, rfl, rfl, fun q k hq => ?_⟩
    rw [show st.timeline.metadata.forkPoint = some (q, k) from hq] at hfp
    cases hfp
    exact ⟨hash, hhash, rfl⟩
  · rename_i hfp
    cases h
    refine ⟨hexports, rfl, rfl, fun q k hq => ?_⟩
    rw [show st.timeline.metadata.forkPoint = some (q, k) from hq] at hfp
    cases hfp

theorem Exports.exportTimelineOwn (h : s.Exports t digest evaluation) (hst : s.timelines.lookup t = some st)
    (hparent : ∀ p n, st.timeline.metadata.forkPoint = some (p, n) → ∃ hash, s.chainHashAt p n = .ok hash) :
    ∃ exported, s.exportTimelineOwn t digest evaluation = .ok exported := by
  have hraw : exportTimelineUsing (s.getTimeline t) (s.readOwn t .all) t = .ok ⟨st.timeline, s.ownEvents t, none⟩ := by
    rw [exportTimelineUsing, getTimeline_of_visible h.admits hst h.unmarked, readOwn_all h.admits ⟨⟨st, hst⟩, h.unmarked⟩]
    rfl
  have hauth : (evaluation.requireAuthoritativeUse .exported digest).mapError (fun _ => CoreError.artifactUnavailable) =
      .ok () := by rw [h.authoritative]; rfl
  rw [MemoryStore.exportTimelineOwn, exportTimelineRaw, hauth, ok_bind, hraw, ok_bind]
  rcases hfp : st.timeline.metadata.forkPoint with _ | ⟨p, n⟩
  · exact ⟨_, rfl⟩
  · obtain ⟨hash, hhash⟩ := hparent p n hfp
    dsimp only
    rw [hhash]
    exact ⟨_, rfl⟩

theorem validateParentForkHash_eq_ok : s.validateParentForkHash exported = .ok () ↔ s.ParentHashAt exported := by
  unfold validateParentForkHash ParentHashAt
  rcases exported.timeline.metadata.forkPoint with _ | ⟨p, n⟩
  · simp
  rcases exported.parentForkHash with _ | expected
  · simp
  rcases hactual : s.chainHashAt p n with e | actual
  · simp [hactual]
  · by_cases hne : actual = expected
    · simp [hactual, hne]
    · simp [hactual, hne]

variable {timeline : Timeline}

theorem importTimelineWithId_eq_ok :
    s.importTimelineWithId exported = (.ok timeline, s') ↔
      ensureImportEventsAreNonGeographic exported.events = .ok () ∧ s.ParentHashAt exported ∧
        s.importCommitted exported.timeline.metadata exported.events = (.ok timeline, s') := by
  unfold importTimelineWithId
  constructor
  · intro h
    obtain ⟨⟨⟩, hchecks, h⟩ := after_eq_ok h
    obtain ⟨⟨⟩, hkinds, hparent⟩ := bind_eq_ok.mp hchecks
    exact ⟨hkinds, validateParentForkHash_eq_ok.mp hparent, h⟩
  · rintro ⟨hkinds, hparent, h⟩
    rw [hkinds, ok_bind, validateParentForkHash_eq_ok.mpr hparent, after_ok, h]

variable {events : List Event}

theorem ensureImportEventsAreNonGeographic_of
    (h : ∀ e ∈ events, reservedKind e.eventType = false) : ensureImportEventsAreNonGeographic events = .ok () := by
  unfold ensureImportEventsAreNonGeographic
  rw [if_neg]
  intro hany
  obtain ⟨e, he, hgeo⟩ := any_eq_true.mp hany
  have := h e he
  rw [reservedKind, hgeo] at this
  cases this

/-! ## Two stores that show the same Timeline -/

structure SameView (s s' : MemoryStore) (t : TimelineId) : Prop where
  read : s'.read t .all = s.read t .all
  readOwn : s'.readOwn t .all = s.readOwn t .all
  logicalHead : s'.logicalHead t = s.logicalHead t
  chainHashAt : ∀ k, s'.chainHashAt t k = s.chainHashAt t k

/-- Reachable stores with one hasher that read a Timeline alike show it alike. -/
theorem SameView.of_read (hs : Reachable Fresh s) (hs' : Reachable Fresh s') (hasher : s'.hasher = s.hasher)
    (hread : s.read t .all = .ok events) (hread' : s'.read t .all = .ok events)
    (hown : s'.ownEvents t = s.ownEvents t) : s.SameView s' t := by
  obtain ⟨-, hhead, hat, hbeyond⟩ := chainHash_fold hs hread
  obtain ⟨-, hhead', hat', hbeyond'⟩ := chainHash_fold hs' hread'
  obtain ⟨hadmits, hvisible, -⟩ := read_eq_ok.mp hread
  obtain ⟨hadmits', hvisible', -⟩ := read_eq_ok.mp hread'
  refine ⟨hread'.trans hread.symm, ?_, hhead'.trans hhead.symm, fun k => ?_⟩
  · rw [readOwn_all hadmits hvisible, readOwn_all hadmits' hvisible', hown]
  · rcases Nat.lt_or_ge events.length k with hk | hk
    · rw [hbeyond k hk, hbeyond' k hk]
    · rw [hat k hk, hat' k hk, hasher]

/-- The guards of every read of the Timeline let it through. -/
structure Opens (s : MemoryStore) (t : TimelineId) : Prop where
  admits : s.Admits t
  visible : s.Visible t
  lineage : s.LineageAdmitted t

/-- The reads of an unsound Timeline that its guards let through all fail at its parent. -/
theorem Refines.unsound_view (hr : s.Refines F) (hst : s.timelines.lookup t = some st) (hopen : s.Opens t)
    (hs : ¬ F.Sound t) (hp : st.timeline.metadata.forkPoint = some (p, n)) :
    s.read t .all = .error (ForkChain.precedesError p) ∧ s.logicalHead t = .error (ForkChain.precedesError p) ∧
      ∀ k, s.chainHashAt t k = .error (ForkChain.precedesError p) := by
  have hl := hr.log hst
  obtain ⟨_, _, A, x, y, -, -, -, -, hchain, -⟩ := hr.unsound_spine hl hs
  have hscopes := (authorizeInheritedScopes_eq_ok hopen.admits hchain).mpr hopen.lineage
  have hparent : ∀ q k, st.log.parent = some (q, k) → q = p := by
    intro q k hq
    rw [show st.timeline.metadata.forkPoint = some (q, k) from hq] at hp
    cases hp
    rfl
  refine ⟨?_, ?_, fun k => ?_⟩
  · obtain ⟨q, k, hq, hcollect⟩ := hr.collect_unsound hl hs .all
    rw [MemoryStore.read, hopen.admits, ok_bind, visibility_eq_ok.mpr hopen.visible, ok_bind, hscopes, ok_bind, hcollect,
      hparent q k hq]
  · obtain ⟨q, k, hq, hhead⟩ := hr.head_unsound hl hs
    rw [MemoryStore.logicalHead, hopen.admits, ok_bind, visibility_eq_ok.mpr hopen.visible, ok_bind, hhead, hparent q k hq]
  · obtain ⟨q, j, hq, hhash⟩ := hr.chainHash_unsound hl hs k
    rw [chainHashAt_eq hopen.admits hopen.visible hchain hopen.lineage, hhash, hparent q j hq]

/-! ## The inherited part -/

/-- A statement about the fork point at hand. -/
theorem forall_fork_point {P : TimelineId → Seq → Prop} : (∀ q k, some (p, n) = some (q, k) → P q k) ↔ P p n := by
  constructor
  · intro h
    exact h p n rfl
  · rintro h q k ⟨⟩
    exact h

/-- A Fork of `p` at `n` can be stitched: `p` is a root or was itself forked at or before `n`. -/
def CutsAt (s : MemoryStore) (p : TimelineId) (n : Seq) : Prop := ∀ q k, s.forkPoint p = some (q, k) → k ≤ n

theorem forkPoint_eq_log : s.forkPoint p = (s.log p).bind Log.parent := by
  rw [forkPoint, log]
  cases s.timelines.lookup p <;> rfl

theorem cutsAt_iff {l : Log TimelineId Event} (hl : s.log p = some l) : s.CutsAt p n ↔ l.start ≤ n := by
  rw [CutsAt, forkPoint_eq_log, hl, Option.bind_some, Log.start]
  rcases l.parent with _ | ⟨q, k⟩
  · simp
  · simp

/-- A Timeline is sound when its own cut can be stitched. -/
theorem Refines.sound_iff_cutsAt (hr : s.Refines F) (hst : s.timelines.lookup t = some st) :
    F.Sound t ↔ ∀ p n, st.timeline.metadata.forkPoint = some (p, n) → s.CutsAt p n := by
  have hl := hr.log hst
  rcases hfp : st.timeline.metadata.forkPoint with _ | ⟨p, n⟩
  · rw [show st.log = ⟨none, st.events⟩ by rw [TimelineState.log, hfp]] at hl
    simp [Sound.root hl]
  · rw [show st.log = ⟨some (p, n), st.events⟩ by rw [TimelineState.log, hfp]] at hl
    obtain ⟨L, hL, -⟩ := F.cut hl rfl
    obtain ⟨-, lp, hlp, -⟩ := hL.concat
    rw [sound_fork_iff hl hlp]
    rw [hr.log_eq] at hlp
    rw [forall_fork_point, cutsAt_iff hlp]

/-- The Timeline inherits `events`: nothing for a root, and for a Fork the first Events its parent shows. -/
def InheritsEvents (s : MemoryStore) (st : TimelineState) (events : List Event) : Prop :=
  match st.timeline.metadata.forkPoint with
  | none => events = []
  | some (p, n) => ∃ all, s.read p .all = .ok all ∧ events = all.take n

/-- A Timeline whose parent can be read opens with its own guards, and its history shows what it
inherits and then its own Events. -/
theorem Refines.inherited (hr : s.Refines F) (hst : s.timelines.lookup t = some st)
    (h : s.InheritsEvents st events) (hadmits : s.Admits t) (hmark : t ∉ s.geographicTimelines) :
    s.Opens t ∧ ∃ hist, F.History t hist ∧
      logicalEvents hist = events ++ logicalEventsFrom st.timeline.metadata.prefixLen st.events := by
  have hl := hr.log hst
  unfold InheritsEvents at h
  rcases hfp : st.timeline.metadata.forkPoint with _ | ⟨p, n⟩
  · rw [hfp] at h
    subst h
    rw [show st.log = ⟨none, st.events⟩ by rw [TimelineState.log, hfp]] at hl
    refine ⟨⟨hadmits, ⟨⟨st, hst⟩, hmark⟩, ?_⟩, _, .root hl, ?_⟩
    · rw [lineageAdmitted_iff (hr.spine (.root hl))]
      intro x hx
      rw [mem_singleton] at hx
      subst hx
      exact hadmits
    · simp [TimelineMeta.prefixLen, hfp, logicalEvents]
  · rw [hfp] at h
    obtain ⟨all, hread, rfl⟩ := h
    obtain ⟨-, -, hlineage, ⟨L, hL, ho⟩, hist, hh, rfl⟩ := hr.read_all hread
    rw [show st.log = ⟨some (p, n), st.events⟩ by rw [TimelineState.log, hfp]] at hl
    refine ⟨⟨hadmits, ⟨⟨st, hst⟩, hmark⟩, ?_⟩, _, .fork hl hh, ?_⟩
    · rw [lineageAdmitted_iff (hr.spine (.fork hl hL))]
      intro x hx
      -- the spine of the Fork is its parent's and the Fork itself
      rcases mem_append.mp hx with hx | hx
      · exact (lineageAdmitted_iff (hr.spine hL)).mp hlineage x hx
      · rw [mem_singleton] at hx
        subst hx
        exact hadmits
    · obtain ⟨M, hM, -, hn⟩ := F.cut hl rfl
      rw [← hh.functional ⟨M, hM, rfl⟩] at hn
      rw [logicalEvents, logicalEventsFrom_append, ← logicalEvents, ← take_logicalEvents, length_take,
        Nat.min_eq_left hn]
      simp [TimelineMeta.prefixLen, hfp]

/-- Two reachable stores with one hasher that hold the same Timeline over the same inherited Events,
and let it be read, show it alike exactly when both or neither can stitch its cut. -/
theorem sameView_iff {st' : TimelineState} (hs : Reachable Fresh s) (hs' : Reachable Fresh s')
    (hasher : s'.hasher = s.hasher) (hst : s.timelines.lookup t = some st) (hst' : s'.timelines.lookup t = some st')
    (hlog : st'.log = st.log) (h : s.InheritsEvents st events) (h' : s'.InheritsEvents st' events)
    (hadmits : s.Admits t) (hmark : t ∉ s.geographicTimelines) (hadmits' : s'.Admits t)
    (hmark' : t ∉ s'.geographicTimelines) :
    s.SameView s' t ↔
      ∀ p n, st.timeline.metadata.forkPoint = some (p, n) → (s.CutsAt p n ↔ s'.CutsAt p n) := by
  obtain ⟨F, hw⟩ := hs.wf
  obtain ⟨F', hw'⟩ := hs'.wf
  obtain ⟨hopen, hist, hh, hshown⟩ := hw.inherited hst h hadmits hmark
  obtain ⟨hopen', hist', hh', hshown'⟩ := hw'.inherited hst' h' hadmits' hmark'
  have hpoint : st'.timeline.metadata.forkPoint = st.timeline.metadata.forkPoint := congrArg Log.parent hlog
  have hevents : st'.events = st.events := congrArg Log.own hlog
  have hown : s'.ownEvents t = s.ownEvents t := by
    simp only [ownEvents, hst, hst', hevents]
  have hsame : logicalEvents hist' = logicalEvents hist := by
    rw [hshown, hshown', TimelineMeta.prefixLen, TimelineMeta.prefixLen, hpoint, hevents]
  have hsound := hw.sound_iff_cutsAt hst
  have hsound' := hw'.sound_iff_cutsAt hst'
  rw [hpoint] at hsound'
  rcases hfp : st.timeline.metadata.forkPoint with _ | ⟨p, n⟩
  · -- a root is always sound
    rw [hfp] at hsound hsound'
    simp only [reduceCtorEq, false_implies, implies_true, iff_true] at hsound hsound' ⊢
    have hread := hw.read_all_of_sound hsound hh hopen.admits hopen.visible hopen.lineage
    have hread' := hw'.read_all_of_sound hsound' hh' hopen'.admits hopen'.visible hopen'.lineage
    exact .of_read hs hs' hasher hread (hsame ▸ hread') hown
  · rw [hfp] at hsound hsound'
    simp only [forall_fork_point] at hsound hsound' ⊢
    rw [← hsound, ← hsound']
    constructor
    · intro hview
      constructor
      · intro hso
        have hread := hw.read_all_of_sound hso hh hopen.admits hopen.visible hopen.lineage
        exact (hw'.read_all (hview.read.trans hread)).2.2.2.1
      · intro hso
        have hread := hw'.read_all_of_sound hso hh' hopen'.admits hopen'.visible hopen'.lineage
        exact (hw.read_all (hview.read.symm.trans hread)).2.2.2.1
    · intro hiff
      by_cases hso : F.Sound t
      · have hread := hw.read_all_of_sound hso hh hopen.admits hopen.visible hopen.lineage
        have hread' := hw'.read_all_of_sound (hiff.mp hso) hh' hopen'.admits hopen'.visible hopen'.lineage
        exact .of_read hs hs' hasher hread (hsame ▸ hread') hown
      · obtain ⟨hread, hhead, hhash⟩ := hw.unsound_view hst hopen hso hfp
        obtain ⟨hread', hhead', hhash'⟩ := hw'.unsound_view hst' hopen' (mt hiff.mpr hso) (hpoint.trans hfp)
        refine ⟨hread'.trans hread.symm, ?_, hhead'.trans hhead.symm, fun k => (hhash' k).trans (hhash k).symm⟩
        rw [readOwn_all hopen.admits hopen.visible, readOwn_all hopen'.admits hopen'.visible, hown]

/-! ## The destination -/

/-- The destination's host lets the Timeline be imported. -/
structure Imports (d : MemoryStore) (t : TimelineId) : Prop where
  topology : d.erasureTopologyRequiresPermit = false
  admits : d.Admits t
  unmarked : t ∉ d.geographicTimelines
  unadmitted : d.forkIsAdmitted t = false

/-- The store `d'` is `d` with the Timeline added, its log that of `st`. -/
structure Received (d d' : MemoryStore) (t : TimelineId) (st : TimelineState) : Prop where
  hasher : d'.hasher = d.hasher
  log : d'.log = Function.update d.log t (some st.log)
  admits : ∀ j, d'.Admits j ↔ d.Admits j
  marks : d'.geographicTimelines = d.geographicTimelines

section Destination

variable {d d' : MemoryStore}

/-- An own Event is already stamped with the origin an import gives it. -/
theorem map_ownedBy {k : Nat} (h : ∀ e ∈ events, e.origin = some ⟨t, k + e.seq⟩) :
    events.map (Event.ownedBy t k) = events := by
  refine (map_congr_left fun e he => ?_).trans (map_id _)
  rw [Event.ownedBy, ← h e he]
  rfl

theorem importCommitted_received (hled : st.Ledger t)
    (horigin : ∀ e ∈ st.events, e.origin = some ⟨t, st.timeline.metadata.prefixLen + e.seq⟩)
    (h : d.importCommitted st.timeline.metadata st.events = (.ok timeline, d')) :
    d.Imports t ∧ d.Received d' t st := by
  obtain ⟨hash, -, hcreate, happend, -⟩ := importCommitted_eq_ok h
  obtain ⟨⟨⟩, htop, -⟩ := bind_eq_ok.mp (after_eq_ok hcreate).choose_spec.1
  obtain ⟨st₀, ordered, hst₀, haccepts, rfl⟩ := appendCommitted_eq_ok.mp happend
  rw [hled.id_eq] at haccepts ⊢
  rw [lookup_created] at hst₀
  cases hst₀
  obtain rfl : ordered = st.events := by
    rw [← hled.seqs.insertionSort_eq haccepts.perm, haccepts.seqs.insertionSort_eq (.refl _)]
  refine ⟨⟨topology_eq_ok.mp htop, haccepts.takes.admits, haccepts.takes.visible.2, haccepts.takes.unadmitted⟩,
    rfl, ?_, fun _ => Iff.rfl, rfl⟩
  have hown : st.events.map (Event.ownedBy t
      (new (Timeline.new st.timeline.metadata) hash).timeline.metadata.prefixLen) =
      st.events := map_ownedBy horigin
  rw [hown]
  funext j
  by_cases hj : j = t
  · subst hj
    rw [Function.update_self]
    have hlookup : ((d.created st.timeline.metadata hash).committedStore j
        (new (Timeline.new st.timeline.metadata) hash) st.events).timelines.lookup j =
          some ((new (Timeline.new st.timeline.metadata) hash).extend d.hasher st.events) :=
      Finmap.lookup_insert _
    rw [log_of_lookup hlookup]
    rfl
  · rw [Function.update_of_ne hj, MemoryStore.log, MemoryStore.log, created, committedStore, setTimeline, setTimeline,
      Finmap.lookup_insert_of_ne _ hj, hled.id_eq, Finmap.lookup_insert_of_ne _ hj]

/-- A new Timeline changes no read of another. -/
theorem Received.read (hrec : d.Received d' t st) (hd : Reachable Fresh d) (hd' : Reachable Fresh d')
    (hnone : d.timelines.lookup t = none) (hread : d.read p .all = .ok events) :
    d'.read p .all = .ok events := by
  obtain ⟨F, hw⟩ := hd.wf
  obtain ⟨F', hw'⟩ := hd'.wf
  obtain ⟨hadmits, hvisible, hlineage, ⟨L, hL, ho⟩, hist, hh, rfl⟩ := hw.read_all hread
  have hfresh : d.log t = none := by rw [MemoryStore.log, hnone]; rfl
  have hL' : Spine d'.log p L := by
    rw [hrec.log]
    exact (hw.spine hL).insert hfresh st.log
  have hFL' : Spine F'.log p L := by rwa [hw'.log_eq]
  have hvisible' : d'.Visible p := by
    obtain ⟨-, l, hl, -⟩ := hL'.concat
    obtain ⟨sp, hsp, -⟩ := lookup_of_log hl
    exact ⟨⟨sp, hsp⟩, by rw [hrec.marks]; exact hvisible.2⟩
  refine hw'.read_all_of_sound ⟨L, hFL', ho⟩ ?_ ((hrec.admits p).mpr hadmits) hvisible' ?_
  · rw [hh.functional ⟨L, hL, rfl⟩]
    exact ⟨L, hFL', rfl⟩
  · rw [lineageAdmitted_iff hL']
    intro x hx
    exact (hrec.admits _).mpr ((lineageAdmitted_iff (hw.spine hL)).mp hlineage x hx)

theorem Received.cutsAt (hrec : d.Received d' t st) (hne : p ≠ t) : d'.CutsAt p n ↔ d.CutsAt p n := by
  rw [CutsAt, CutsAt, forkPoint_eq_log, forkPoint_eq_log, hrec.log, Function.update_of_ne hne]

/-- A destination for the Timeline: it has the source's hasher, no such Timeline and none of its
EventIds, and for a Fork a parent that shows the same Events up to the cut. -/
structure Destination (s d : MemoryStore) (t : TimelineId) (st : TimelineState) : Prop where
  hasher : d.hasher = s.hasher
  absent : d.timelines.lookup t = none
  unused : ∀ e ∈ st.events, e.id ∉ d.eventIds
  parent : ∀ p n, st.timeline.metadata.forkPoint = some (p, n) → ∃ events events', s.read p .all = .ok events ∧
    d.read p .all = .ok events' ∧ events'.take n = events.take n

theorem Destination.inherits (h : Destination s d t st) : ∃ events, s.InheritsEvents st events ∧
    d.InheritsEvents st events := by
  unfold InheritsEvents
  rcases hfp : st.timeline.metadata.forkPoint with _ | ⟨p, n⟩
  · exact ⟨[], rfl, rfl⟩
  · obtain ⟨events, events', hread, hread', htake⟩ := h.parent p n hfp
    exact ⟨_, ⟨events, hread, rfl⟩, events', hread', htake.symm⟩

/-- The cut of a stored Fork lies within what its parent shows. -/
theorem Refines.cut_le (hr : s.Refines F) (hst : s.timelines.lookup t = some st)
    (hfp : st.timeline.metadata.forkPoint = some (p, n)) (hread : s.read p .all = .ok events) :
    n ≤ events.length := by
  obtain ⟨-, -, -, -, hist, hh, rfl⟩ := hr.read_all hread
  obtain ⟨M, hM, -, hn⟩ := F.cut (hr.log hst) hfp
  rw [← hh.functional ⟨M, hM, rfl⟩] at hn
  rwa [logicalEvents, length_logicalEventsFrom]

/-- Source and destination agree on the chain hash of the parent at the cut. -/
theorem Destination.parent_hash (h : Destination s d t st) (hs : Reachable Fresh s) (hd : Reachable Fresh d)
    (hst : s.timelines.lookup t = some st) (hfp : st.timeline.metadata.forkPoint = some (p, n)) :
    ∃ hash, s.chainHashAt p n = .ok hash ∧ d.chainHashAt p n = .ok hash ∧ d.initialHash st.timeline.metadata = .ok hash := by
  obtain ⟨F, hw⟩ := hs.wf
  obtain ⟨G, hwd⟩ := hd.wf
  obtain ⟨events, events', hread, hread', htake⟩ := h.parent p n hfp
  have hn := hw.cut_le hst hfp hread
  have hn' : n ≤ events'.length := by
    have hlen := congrArg length htake
    rw [length_take, length_take, Nat.min_eq_left hn] at hlen
    exact min_eq_left_iff.mp hlen
  have hhash := (chainHash_fold hs hread).2.2.1 n hn
  have hhash' := (chainHash_fold hd hread').2.2.1 n hn'
  rw [htake, h.hasher] at hhash'
  refine ⟨_, hhash, hhash', ?_⟩
  obtain ⟨hadmits, hvisible, hlineage, hsound, hist, hh, rfl⟩ := hwd.read_all hread'
  obtain ⟨L, hchain, -⟩ := hwd.sound_spine hsound hh
  rw [logicalEvents, length_logicalEventsFrom] at hn'
  rw [chainHashAt_eq hadmits hvisible hchain hlineage] at hhash'
  rw [initialHash, hfp]
  dsimp only
  rw [hadmits, ok_bind, visibility_eq_ok.mpr hvisible, ok_bind, forkHash, hwd.head hsound hh, ok_bind,
    if_neg (Nat.not_lt.mpr hn'), hhash']

/-- A destination whose host lets the Timeline in takes its Events as they are. -/
theorem Destination.importCommitted (h : Destination s d t st) (hs : Reachable Sane s) (hd : Reachable Fresh d)
    (hst : s.timelines.lookup t = some st) (hkinds : ∀ e ∈ st.events, reservedKind e.eventType = false)
    (hhost : d.Imports t) : ∃ timeline d', d.importCommitted st.timeline.metadata st.events = (.ok timeline, d') := by
  obtain ⟨F, hw⟩ := hs.fresh.wf
  have hled := hw.ledger hst
  obtain ⟨hash, hhash⟩ : ∃ hash, d.initialHash st.timeline.metadata = .ok hash := by
    rcases hfp : st.timeline.metadata.forkPoint with _ | ⟨p, n⟩
    · exact ⟨_, by rw [initialHash, hfp]⟩
    · obtain ⟨hash, -, -, hhash⟩ := h.parent_hash hs.fresh hd hst hfp
      exact ⟨hash, hhash⟩
  have hcreate : d.createTimelineWithMeta st.timeline.metadata =
      (.ok (Timeline.new st.timeline.metadata), d.created st.timeline.metadata hash) := by
    rw [createTimelineWithMeta, topology_eq_ok.mpr hhost.topology, ok_bind, hhash, ok_bind, hled.id_eq, h.absent]
    rw [if_neg (by simp), after_ok, created, hled.id_eq]
  have haccepts : (d.created st.timeline.metadata hash).CommittedAccepts t
      (new (Timeline.new st.timeline.metadata) hash) st.events st.events := by
    refine ⟨⟨.refl _, hled.seqs, hs.uniqueIds.nodup hst, fun e he => ⟨?_, ?_⟩, fun e he => ⟨?_, ?_⟩⟩, ?_, hkinds⟩
    · have hsealed := hs.fresh.allSealed hst e he
      rw [← h.hasher] at hsealed
      exact hsealed
    · exact decide_eq_false (h.unused e he)
    · have := (hled.seqs.bounds he).2
      have := hled.fits
      simp only [new, Timeline.new]
      omega
    · intro origin horigin
      rw [hw.origins hst e he] at horigin
      cases horigin
      rfl
    · have hlookup : (d.created st.timeline.metadata hash).timelines.lookup st.timeline.metadata.id = _ := lookup_created
      rw [hled.id_eq] at hlookup
      exact ⟨hhost.admits, hhost.unadmitted, ⟨_, hlookup⟩, hhost.unmarked⟩
  have happend := appendCommitted_eq_ok.mpr ⟨_, _, by rw [← hled.id_eq]; exact lookup_created, haccepts, rfl⟩
  rw [← hled.id_eq] at happend
  obtain ⟨st', -, himport⟩ := importCommitted_of_append hcreate happend
  exact ⟨_, _, himport⟩

/-- The Timeline makes the trip: its export is imported, and the destination then shows it as the source does. -/
def RoundTrips (s d : MemoryStore) (t : TimelineId) (digest : Hash) (evaluation : ReplayClaimEvaluationV1) : Prop :=
  ∃ exported timeline d', s.exportTimelineOwn t digest evaluation = .ok exported ∧
    d.importTimelineWithId exported = (.ok timeline, d') ∧ s.SameView d' t

/-- For every Timeline of a reachable source, without reserved Events, and every destination for it:
the Timeline makes the trip exactly when both hosts permit it and, for a Fork, source and destination
agree on whether its cut can be stitched to the parent. -/
theorem roundTrips_iff (hs : Reachable Sane s) (hd : Reachable Fresh d) (hst : s.timelines.lookup t = some st)
    (hkinds : ∀ e ∈ st.events, reservedKind e.eventType = false) (hdest : Destination s d t st) :
    RoundTrips s d t digest evaluation ↔
      (s.Exports t digest evaluation ∧ d.Imports t) ∧
      ∀ p n, st.timeline.metadata.forkPoint = some (p, n) → (s.CutsAt p n ↔ d.CutsAt p n) := by
  obtain ⟨F, hw⟩ := hs.fresh.wf
  obtain ⟨events, hinherits, hinherits'⟩ := hdest.inherits
  -- what the destination shows after an import of the Timeline
  have hview : ∀ {timeline d'}, s.Exports t digest evaluation →
      d.importCommitted st.timeline.metadata st.events = (.ok timeline, d') →
      d.Imports t ∧ (s.SameView d' t ↔
        ∀ p n, st.timeline.metadata.forkPoint = some (p, n) → (s.CutsAt p n ↔ d.CutsAt p n)) := by
    intro timeline d' hexports himport
    obtain ⟨hhost, hrec⟩ := importCommitted_received (hw.ledger hst) (fun e he => hw.origins hst e he) himport
    have hd' : Reachable Fresh d' := by
      have hstep : Reachable Fresh (d.exec (.importCommitted st.timeline.metadata st.events)) := .step hd trivial
      rwa [exec, himport] at hstep
    have hlog : d'.log t = some st.log := by rw [hrec.log, Function.update_self]
    obtain ⟨st', hst', hlog'⟩ := lookup_of_log hlog
    have hpoint : st'.timeline.metadata.forkPoint = st.timeline.metadata.forkPoint := congrArg Log.parent hlog'
    have hinherited : d'.InheritsEvents st' events := by
      unfold InheritsEvents at hinherits' ⊢
      rw [hpoint]
      rcases hfp : st.timeline.metadata.forkPoint with _ | ⟨p, n⟩
      · rwa [hfp] at hinherits'
      · rw [hfp] at hinherits'
        obtain ⟨all, hread, htake⟩ := hinherits'
        exact ⟨all, hrec.read hd hd' hdest.absent hread, htake⟩
    refine ⟨hhost, (sameView_iff hs.fresh hd' (hrec.hasher.trans hdest.hasher) hst hst' hlog' hinherits hinherited
      hexports.admits hexports.unmarked ((hrec.admits t).mpr hhost.admits) (hrec.marks ▸ hhost.unmarked)).trans ?_⟩
    refine forall₃_congr fun p n hfp => iff_congr Iff.rfl (hrec.cutsAt ?_)
    rintro rfl
    obtain ⟨_, _, -, hread, -⟩ := hdest.parent p n hfp
    obtain ⟨sp, hsp⟩ := (read_eq_ok.mp hread).2.1.1
    rw [hdest.absent] at hsp
    cases hsp
  constructor
  · rintro ⟨exported, timeline, d', hexport, himport, hsame⟩
    obtain ⟨hexports, htimeline, hevents, -⟩ := exportTimelineOwn_ok hst hexport
    obtain ⟨-, -, himport⟩ := importTimelineWithId_eq_ok.mp himport
    rw [htimeline, hevents] at himport
    obtain ⟨hhost, hiff⟩ := hview hexports himport
    exact ⟨⟨hexports, hhost⟩, hiff.mp hsame⟩
  · rintro ⟨⟨hexports, hhost⟩, hcuts⟩
    obtain ⟨timeline, d', himport⟩ := hdest.importCommitted hs hd hst hkinds hhost
    obtain ⟨exported, hexport⟩ := hexports.exportTimelineOwn hst fun p n hfp => by
      obtain ⟨hash, hhash, -⟩ := hdest.parent_hash hs.fresh hd hst hfp
      exact ⟨hash, hhash⟩
    obtain ⟨-, htimeline, hevents, hparent⟩ := exportTimelineOwn_ok hst hexport
    refine ⟨exported, timeline, d', hexport, importTimelineWithId_eq_ok.mpr ⟨?_, ?_, ?_⟩, (hview hexports himport).2.mpr hcuts⟩
    · rw [hevents]
      exact ensureImportEventsAreNonGeographic_of hkinds
    · -- the destination's parent has the exported hash
      intro p n hfp
      obtain ⟨hash, hhash, hexported⟩ := hparent p n hfp
      rw [htimeline] at hfp
      obtain ⟨hash', hsource, hdestination, -⟩ := hdest.parent_hash hs.fresh hd hst hfp
      rw [hsource] at hhash
      cases hhash
      exact ⟨_, hdestination, hexported⟩
    · rw [htimeline, hevents, himport]

end Destination

def releasedExport : ReplayClaimEvaluationV1 := ⟨.exact, [⟨.exported, 0, true⟩]⟩

/-- A root with one Event and a Fork of it with one more. -/
def grownFork : MemoryStore :=
  run forkedOnce [.append ⟨2⟩ [EventDraft.new ⟨1⟩ "note" []] (drawsFrom 2 6)]

theorem grownFork_sane : Reachable Sane grownFork := forkedOnce_sane.run (by decide)

/-- Another store that holds the root alone. -/
def rootCopy : MemoryStore :=
  run blankStore
    [.importCommitted (TimelineMeta.root ⟨1⟩ "root") (grownFork.ownEvents ⟨1⟩)]

theorem rootCopy_reachable : Reachable Fresh rootCopy :=
  Reachable.run (.blank .empty) ⟨trivial, trivial⟩

/-- The Fork makes the trip to a store that holds its parent. -/
theorem grownFork_roundTrips : RoundTrips grownFork rootCopy ⟨2⟩ 0 releasedExport := by
  obtain ⟨st, hst⟩ : ∃ st, grownFork.timelines.lookup ⟨2⟩ = some st := ⟨_, rfl⟩
  have hdest : Destination grownFork rootCopy ⟨2⟩ st := by
    cases hst
    refine ⟨rfl, rfl, by decide, ?_⟩
    rintro p n ⟨⟩
    exact ⟨_, _, rfl, rfl, by decide⟩
  refine (roundTrips_iff grownFork_sane rootCopy_reachable hst ?_ hdest).mpr ⟨⟨⟨rfl, rfl, by decide⟩, rfl, rfl, by decide,
    rfl⟩, ?_⟩
  · cases hst
    decide
  · cases hst
    rintro p n ⟨⟩
    have hroot : ∀ q k, (none : Option (TimelineId × Seq)) = some (q, k) → k ≤ 1 := by simp
    exact ⟨fun _ => hroot, fun _ => hroot⟩

/-- An empty root and a Fork of it at its start. -/
def forkedEmpty : MemoryStore := run emptyRoot [.fork ⟨1⟩ 0 "branch" ⟨2⟩]

/-- A store in which Timeline 1 is not a root but a Fork, made after one Event of another root. -/
def forkedElsewhere : MemoryStore :=
  run blankStore
    [.createTimeline "other" ⟨9⟩,
      .append ⟨9⟩ [EventDraft.new ⟨1⟩ "note" []] (drawsFrom 1 5),
      .createTimelineWithMeta ⟨⟨1⟩, .historical, none, none, some (⟨9⟩, 1)⟩]

theorem forkedEmpty_sane : Reachable Sane forkedEmpty :=
  Reachable.run (Reachable.run (.blank .empty) (by decide)) (by decide)

theorem forkedElsewhere_reachable : Reachable Fresh forkedElsewhere :=
  Reachable.run (.blank .empty) (by decide)

/-- The Fork is exported and imported, but its cut precedes the destination parent's own fork point:
the source reads it, and the destination does not. -/
theorem forkedElsewhere_not_roundTrips : Reachable Sane forkedEmpty ∧ Reachable Fresh forkedElsewhere ∧
    ∃ st exported, forkedEmpty.timelines.lookup ⟨2⟩ = some st ∧ st.events = [] ∧
      Destination forkedEmpty forkedElsewhere ⟨2⟩ st ∧
      forkedEmpty.exportTimelineOwn ⟨2⟩ 0 releasedExport = .ok exported ∧
      (forkedElsewhere.importTimelineWithId exported).1.isOk ∧ forkedEmpty.read ⟨2⟩ .all = .ok [] ∧
      (forkedElsewhere.importTimelineWithId exported).2.read ⟨2⟩ .all = .error (ForkChain.precedesError ⟨1⟩) ∧
      ¬ RoundTrips forkedEmpty forkedElsewhere ⟨2⟩ 0 releasedExport := by
  obtain ⟨exported, hexport⟩ : ∃ exported, forkedEmpty.exportTimelineOwn ⟨2⟩ 0 releasedExport = .ok exported := ⟨_, rfl⟩
  have hread : forkedEmpty.read ⟨2⟩ .all = .ok [] := by decide
  have hread' : (forkedElsewhere.importTimelineWithId exported).2.read ⟨2⟩ .all =
      .error (ForkChain.precedesError ⟨1⟩) := by
    cases hexport
    decide
  refine ⟨forkedEmpty_sane, forkedElsewhere_reachable, _, exported, rfl, rfl, ?_, hexport, ?_, hread, hread', ?_⟩
  · refine ⟨rfl, rfl, by decide, ?_⟩
    rintro p n ⟨⟩
    exact ⟨_, _, rfl, rfl, by decide⟩
  · cases hexport
    decide
  · rintro ⟨exported', timeline, d', hexport', himport, hview⟩
    rw [hexport] at hexport'
    cases hexport'
    have := hview.read
    rw [hread, show d' = (forkedElsewhere.importTimelineWithId exported).2 by rw [himport], hread'] at this
    cases this

end MemoryStore

end Piglor
