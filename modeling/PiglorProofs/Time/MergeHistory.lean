/-
What a merged Timeline shows. A merge forks the fork parent of arm A (A itself for a root) at the
caller's cut and appends both arms' survivors in order of wall time. So before the cut it shows the
base, which is either arm's history only when that arm inherits it; after the cut each entity's
Events are those of the arm that keeps it, sorted by wall time.
-/
import PiglorProofs.Time.Merge
import PiglorProofs.Lib.StableSort

namespace Piglor

open CowForest MergeStrategy List Event

/-! ## One entity -/

def ofEntity (entity : EntityId) (events : List Event) : List Event :=
  events.filter fun e => decide (e.entity = entity)

/-- The arm whose Events of the entity survive: the preferred one when it has any. -/
def MergeStrategy.survivingArm (strategy : MergeStrategy) (eventsA eventsB : List Event) (entity : EntityId) :
    List Event :=
  match strategy with
  | .preferB => if ∃ e ∈ eventsB, e.entity = entity then eventsB else eventsA
  | _ => if ∃ e ∈ eventsA, e.entity = entity then eventsA else eventsB

theorem ofEntity_append (entity : EntityId) (es fs : List Event) :
    ofEntity entity (es ++ fs) = ofEntity entity es ++ ofEntity entity fs := filter_append ..

theorem ofEntity_eq_nil {entity : EntityId} {events : List Event} (h : ¬ ∃ e ∈ events, e.entity = entity) :
    ofEntity entity events = [] := by
  rw [ofEntity, filter_eq_nil_iff]
  intro e he
  simpa using fun heq => h ⟨e, he, heq⟩

theorem ofEntity_filter (entity : EntityId) (keep : EntityId → Bool) (events : List Event) :
    ofEntity entity (events.filter fun e => keep e.entity) = if keep entity then ofEntity entity events else [] := by
  unfold ofEntity
  rw [filter_filter]
  by_cases hk : keep entity
  · rw [if_pos hk]
    refine filter_congr fun e _ => ?_
    by_cases he : e.entity = entity
    · simp [he, hk]
    · simp [he]
  · rw [if_neg hk, filter_eq_nil_iff]
    intro e _
    by_cases he : e.entity = entity
    · simpa [he] using hk
    · simp [he]

theorem ofEntity_mergeSurvivors {strategy : MergeStrategy} {eventsA eventsB : List Event}
    (hdisjoint : strategy = .disjointCrdt → ArmsDisjoint eventsA eventsB) (entity : EntityId) :
    ofEntity entity (mergeSurvivors strategy eventsA eventsB) =
      ofEntity entity (strategy.survivingArm eventsA eventsB entity) := by
  unfold mergeSurvivors
  rw [ofEntity_append, ofEntity_filter entity (strategy.keepsA eventsB), ofEntity_filter entity (strategy.keepsB eventsA)]
  cases strategy with
  | disjointCrdt =>
    have hkeep : keepsA .disjointCrdt eventsB entity = true ∧
        keepsB .disjointCrdt eventsA entity = true := by
      simp [keepsA, keepsB]
    simp only [hkeep.1, hkeep.2, if_true, survivingArm]
    by_cases hA : ∃ e ∈ eventsA, e.entity = entity
    · have hB : ¬ ∃ e ∈ eventsB, e.entity = entity := by
        rintro ⟨b, hb, rfl⟩
        obtain ⟨a, ha, hab⟩ := hA
        exact hdisjoint rfl a ha b hb hab
      -- the arms are disjoint, so the other one has nothing of the entity
      rw [if_pos hA, ofEntity_eq_nil hB, append_nil]
    · rw [if_neg hA, ofEntity_eq_nil hA, nil_append]
  | preferA =>
    have hkeepA : keepsA .preferA eventsB entity = true := by simp [keepsA]
    have hkeepB : keepsB .preferA eventsA entity = true ↔ ¬ ∃ e ∈ eventsA, e.entity = entity := by
      simp [keepsB]
    simp only [hkeepA, if_true, hkeepB, survivingArm]
    by_cases hA : ∃ e ∈ eventsA, e.entity = entity
    · rw [if_neg (not_not_intro hA), if_pos hA, append_nil]
    · rw [if_pos hA, if_neg hA, ofEntity_eq_nil hA, nil_append]
  | preferB =>
    have hkeepB : keepsB .preferB eventsA entity = true := by simp [keepsB]
    have hkeepA : keepsA .preferB eventsB entity = true ↔ ¬ ∃ e ∈ eventsB, e.entity = entity := by
      simp [keepsA]
    simp only [hkeepB, if_true, hkeepA, survivingArm]
    by_cases hB : ∃ e ∈ eventsB, e.entity = entity
    · rw [if_neg (not_not_intro hB), if_pos hB, nil_append]
    · rw [if_pos hB, if_neg hB, ofEntity_eq_nil hB, append_nil]

/-- Selecting an entity reads nothing but the draft. -/
theorem map_draft_ofEntity (entity : EntityId) (events : List Event) :
    (ofEntity entity events).map draft =
      (events.map draft).filter fun d => decide (d.entity = entity) := by
  rw [ofEntity, filter_map]
  rfl

instance : IsTrans Event fun e f => e.wallTime ≤ f.wallTime := ⟨fun _ _ _ => Nat.le_trans⟩

instance : Std.Total fun e f : Event => e.wallTime ≤ f.wallTime := ⟨fun _ _ => Nat.le_total _ _⟩

theorem ofEntity_sortByWallTime (entity : EntityId) (events : List Event) :
    ofEntity entity (sortByWallTime events) = sortByWallTime (ofEntity entity events) := by
  exact filter_insertionSort _ _

/-- Sorting keeps a list's drafts in place exactly when its wall times do not decrease. -/
theorem map_draft_sortByWallTime_eq_iff {events : List Event} :
    (sortByWallTime events).map draft = events.map draft ↔
      events.Pairwise fun e f => e.wallTime ≤ f.wallTime := by
  constructor
  · intro h
    have hwall := congrArg (map EventDraft.wallTime) h
    rw [map_map, map_map] at hwall
    have hsorted : (sortByWallTime events).Pairwise fun e f => e.wallTime ≤ f.wallTime :=
      pairwise_insertionSort _ _
    have hsome : ∀ {l : List Event}, l.Pairwise (fun e f => e.wallTime ≤ f.wallTime) ↔
        (l.map (EventDraft.wallTime ∘ draft)).Pairwise fun v w => v.getD 0 ≤ w.getD 0 := by
      intro l
      rw [pairwise_map]
      rfl
    -- equal drafts have equal wall times, and the sorted ones do not decrease
    rw [hsome, ← hwall, ← hsome]
    exact hsorted
  · intro h
    rw [sortByWallTime, Pairwise.insertionSort_eq h]

namespace MemoryStore

variable {s s' : MemoryStore} {F : CowForest TimelineId Event} {timelineA timelineB id : TimelineId} {forkSeq : Seq}
  {targetName : String} {strategy : MergeStrategy} {draw : Nat → Draw} {m : Timeline}

/-! ## The merged Timeline -/

variable {t : TimelineId} {n : Nat}

/-- Reading after a cut is reading all, without the first Events. -/
theorem Refines.read_fromSeq (hr : s.Refines F) {events : List Event}
    (h : s.read t (.fromSeq (n + 1)) = .ok events) : ∃ all, s.read t .all = .ok all ∧ events = all.drop n := by
  obtain ⟨hadmits, hvisible, hlineage, hcollect⟩ := read_eq_ok.mp h
  obtain ⟨hs, hist, hh, rfl⟩ := hr.sound_of_collect hcollect
  refine ⟨_, hr.read_all_of_sound hs hh hadmits hvisible hlineage, ?_⟩
  have hge := (numbered_logicalEventsFrom 0 hist).filter_ge n
  rw [Nat.zero_add] at hge
  refine Eq.trans (filter_congr fun e _ => ?_) hge
  simp only [SeqRange.fromSeq, SeqRange.contains, Option.all_none, Bool.and_true]
  rfl

/-- Everything a completed merge leaves: the Fork of the base at the cut, with the survivors after it. -/
structure Merged (s s' : MemoryStore) (F F' : CowForest TimelineId Event) (base id : TimelineId) (forkSeq : Seq)
    (survivors hist es : List Event) : Prop where
  wf : s'.WF F'
  frame : s.Frame s'
  sound : F.Sound base
  history : F.History base hist
  cut : forkSeq ≤ hist.length
  merged : F'.History id (hist.take forkSeq ++ es)
  drafts : es.map Event.draft = (sortByWallTime survivors).map Event.draft
  sound_iff : ∀ {st}, s.timelines.lookup base = some st → (F'.Sound id ↔ st.timeline.metadata.prefixLen ≤ forkSeq)
  lineage : ∀ {L}, Spine F.log base L → ∃ L', Spine F'.log id L' ∧ L'.map Segment.key = L.map Segment.key ++ [id]

variable {base : TimelineId} {survivors es : List Event}

theorem MergedInto.merged (hw : s.WF F) (fresh : s.FreshTimeline id) {hash : Hash} (hhash : s.forkHash base forkSeq = .ok hash)
    (h : MergedInto s s' base forkSeq targetName id hash survivors es) :
    ∃ F' hist, Merged s s' F F' base id forkSeq survivors hist es := by
  obtain ⟨⟨head, hhead, hle⟩, -⟩ := forkHash_ok hhash
  obtain ⟨hsound, hist, hh, rfl⟩ := hw.sound_of_head hhead
  obtain ⟨F₁, hw₁, hhist, hspine, -, -, -⟩ := hw.forked targetName fresh.1 hhash
  have hasher : s'.hasher = (s.forked base forkSeq targetName id hash).hasher := by rw [h.frame]; rfl
  have hw' : s'.WF (F₁.extend id es) := by
    refine hw₁.extend hasher (lookup_forked (s := s)) ?_ h.accepts
    rw [h.timelines]
    exact (Finmap.insert_insert _).symm
  have hmerged := (hhist hh).extend id es
  rw [if_pos rfl] at hmerged
  refine ⟨F₁.extend id es, hist, hw', h.frame, hsound, hh, hle, hmerged, h.drafts, ?_, ?_⟩
  · intro st hst
    have hne : base ≠ id := by
      rintro rfl
      rw [fresh.1] at hst; cases hst
    have hid := hw'.log (t := id) (by rw [h.timelines]; exact Finmap.lookup_insert _)
    have hbase := hw'.log (t := base) (by rw [h.timelines, Finmap.lookup_insert_of_ne _ hne]; exact hst)
    have hfork : ((s.forkState base forkSeq targetName id hash).extend s.hasher es).log =
        ⟨some (base, forkSeq), es⟩ :=
      congrArg (Log.mk · es) (forkMeta_forkPoint ..)
    exact sound_fork_iff (hid.trans (congrArg some hfork)) hbase
  · intro L hL
    refine ⟨_, (hspine hL).extend id es, ?_⟩
    rw [map_map, show Segment.key ∘ Segment.extend id es = Segment.key from rfl, map_append]
    rfl

theorem WF.merge_ok (hw : s.WF F) (fresh : s.FreshTimeline id)
    (h : s.mergeWithStrategy timelineA timelineB forkSeq targetName strategy id draw = (.ok m, s')) :
    m.id = id ∧ s.Admits id ∧ ∃ eventsA eventsB F' hist es,
      s.MergeForks timelineA timelineB forkSeq strategy eventsA eventsB ∧
      Merged s s' F F' (s.mergeBase timelineA) id forkSeq (mergeSurvivors strategy eventsA eventsB) hist es := by
  rcases mergeWithStrategy_cases (s := s) fresh with ⟨e, -, hmerge⟩ | ⟨eventsA, eventsB, hforks, hcases⟩
  · rw [h] at hmerge; cases hmerge
  rcases hcases with ⟨m', s'', hash, es, haccepts, hhash, hinto, hm, hmerge⟩ | ⟨e, s'', -, -, hmerge⟩
  · rw [h] at hmerge
    cases hmerge
    obtain ⟨F', hist, hmerged⟩ := hinto.merged hw fresh hhash
    exact ⟨hm, haccepts.admits, eventsA, eventsB, F', hist, es, hforks, hmerged⟩
  · rw [h] at hmerge; cases hmerge

theorem Frame.admits_iff (h : s.Frame s') : s'.Admits t ↔ s.Admits t := by
  rw [h]
  exact Iff.rfl

theorem Frame.geographic (h : s.Frame s') : s'.geographicTimelines = s.geographicTimelines := by rw [h]

variable {hist : List Event} {F' : CowForest TimelineId Event}

/-- The merged Timeline is readable when its cut is not before the base's own, under an admitted lineage. -/
theorem Merged.read
    (hm : Merged s s' F F' base id forkSeq survivors hist es) (fresh : s.FreshTimeline id) (hadmits : s.Admits id)
    (hsound : F'.Sound id) (hlineage : ∀ L, Spine F.log base L → ∀ x ∈ L, s.Admits x.key) :
    s'.read id .all = .ok (logicalEvents (hist.take forkSeq ++ es)) := by
  obtain ⟨st, hst⟩ := history_lookup hm.wf.toRefines hm.merged
  refine hm.wf.read_all_of_sound hsound hm.merged (hm.frame.admits_iff.mpr hadmits)
    ⟨⟨st, hst⟩, hm.frame.geographic ▸ fresh.2.1⟩ ?_
  obtain ⟨L, hL, -⟩ := hm.sound
  obtain ⟨L', hL', hkeys⟩ := hm.lineage hL
  rw [lineageAdmitted_iff (hm.wf.spine hL')]
  intro x hx
  have hkey : x.key ∈ L.map Segment.key ++ [id] := hkeys ▸ mem_map_of_mem hx
  rw [hm.frame.admits_iff]
  rcases mem_append.mp hkey with hkey | hkey
  · obtain ⟨y, hy, hxy⟩ := mem_map.mp hkey
    exact hxy ▸ hlineage L hL y hy
  · rw [mem_singleton] at hkey
    exact hkey ▸ hadmits

/-- What the merged Timeline shows before and after the cut. -/
theorem Merged.shows (hm : Merged s s' F F' base id forkSeq survivors hist es) :
    (logicalEvents (hist.take forkSeq ++ es)).take forkSeq = (logicalEvents hist).take forkSeq ∧
      ((logicalEvents (hist.take forkSeq ++ es)).drop forkSeq).map draft =
        (sortByWallTime survivors).map draft := by
  have hlen : (hist.take forkSeq).length = forkSeq := by rw [length_take, Nat.min_eq_left hm.cut]
  have hsplit : logicalEvents (hist.take forkSeq ++ es) =
      logicalEvents (hist.take forkSeq) ++ logicalEventsFrom forkSeq es := by
    rw [logicalEvents, logicalEventsFrom_append, hlen, Nat.zero_add]
    rfl
  have hpre : (logicalEvents (hist.take forkSeq)).length = forkSeq :=
    (length_logicalEventsFrom 0 _).trans hlen
  rw [hsplit]
  constructor
  · rw [take_append_of_le_length (Nat.le_of_eq hpre.symm), take_of_length_le (Nat.le_of_eq hpre),
      take_logicalEvents]
  · rw [drop_append_of_le_length (Nat.le_of_eq hpre.symm), drop_eq_nil_of_le (Nat.le_of_eq hpre),
      nil_append, map_logicalEventsFrom (fun _ _ => rfl), hm.drafts]

/-- The base of a merge is readable whenever arm A is. -/
theorem WF.read_mergeBase (hw : s.WF F) {eventsA eventsB : List Event}
    (h : s.MergeForks timelineA timelineB forkSeq strategy eventsA eventsB)
    (hsound : F.Sound (s.mergeBase timelineA)) (hh : F.History (s.mergeBase timelineA) hist) :
    s.read (s.mergeBase timelineA) .all = .ok (logicalEvents hist) ∧
      ∀ L, Spine F.log (s.mergeBase timelineA) L → ∀ x ∈ L, s.Admits x.key := by
  obtain ⟨hadmitsA, hvisibleA, hlineageA, hcollect⟩ := read_eq_ok.mp h.readA
  obtain ⟨-, hadmits, hvisible, -⟩ := h.forkable
  obtain ⟨⟨LA, hLA, -⟩, -⟩ := hw.sound_of_collect hcollect
  have hadmitted := (lineageAdmitted_iff (hw.spine hLA)).mp hlineageA
  have hlineage : ∀ L, Spine F.log (s.mergeBase timelineA) L → ∀ x ∈ L, s.Admits x.key := by
    intro L hL x hx
    -- the base's spine is A's, or A's without its last segment
    cases hLA with
    | root hA =>
      obtain ⟨st, hst, hlog, -⟩ := hw.lookup hA
      have hbase : s.mergeBase timelineA = timelineA := by
        rw [mergeBase, forkPoint, hst, Option.bind_some,
          show st.timeline.metadata.forkPoint = none from congrArg Log.parent hlog]
        rfl
      rw [hbase] at hL
      rw [hL.functional (.root hA)] at hx
      exact hadmitted x hx
    | @fork _ p n own LP hA hP =>
      obtain ⟨st, hst, hlog, -⟩ := hw.lookup hA
      have hbase : s.mergeBase timelineA = p := by
        rw [mergeBase, forkPoint, hst, Option.bind_some,
          show st.timeline.metadata.forkPoint = some (p, n) from congrArg Log.parent hlog]
        rfl
      rw [hbase] at hL
      rw [hL.functional hP] at hx
      exact hadmitted x (mem_append_left _ hx)
  refine ⟨hw.read_all_of_sound hsound hh hadmits hvisible ?_, hlineage⟩
  obtain ⟨L, hL, -⟩ := hsound
  exact (lineageAdmitted_iff (hw.spine hL)).mpr (hlineage L hL)

/-! ## Each entity's own history -/

/-- A merge at the cut its arm A was forked at (whatever arm B is: in particular another Fork there)
shows the parent up to the cut, and then, of each entity, the Events of the arm that keeps it, stably
sorted by wall time: the arm's own order exactly when the entity's wall times do not decrease along
the arm. -/
theorem merge_preserves_entities (hs : Reachable Fresh s) (fresh : s.FreshTimeline id) {parent : TimelineId}
    (hA : s.forkPoint timelineA = some (parent, forkSeq))
    (hmerge : s.mergeWithStrategy timelineA timelineB forkSeq targetName strategy id draw = (.ok m, s')) :
    ∃ ofParent ofA ofB merged, s.read parent .all = .ok ofParent ∧ s.read timelineA .all = .ok ofA ∧
      s.read timelineB .all = .ok ofB ∧ s'.read m.id .all = .ok merged ∧
      merged.take forkSeq = ofParent.take forkSeq ∧
      ∀ entity, let own := ofEntity entity (strategy.survivingArm (ofA.drop forkSeq) (ofB.drop forkSeq) entity)
        (ofEntity entity (merged.drop forkSeq)).map draft = (sortByWallTime own).map draft ∧
        ((ofEntity entity (merged.drop forkSeq)).map draft = own.map draft ↔
          own.Pairwise fun e f => e.wallTime ≤ f.wallTime) := by
  obtain ⟨F, hw⟩ := hs.wf
  obtain ⟨hm, hadmits, eventsA, eventsB, F', hist, es, hforks, hmerged⟩ := hw.merge_ok fresh hmerge
  have hbase : s.mergeBase timelineA = parent := by
    rw [mergeBase, hA]
    rfl
  obtain ⟨hreadP, hlineage⟩ := hw.read_mergeBase hforks hmerged.sound hmerged.history
  obtain ⟨ofA, hreadA, rfl⟩ := hw.read_fromSeq hforks.readA
  obtain ⟨ofB, hreadB, rfl⟩ := hw.read_fromSeq hforks.readB
  -- arm A can be read, so the parent's own cut is not after this one
  have hsound : F'.Sound id := by
    obtain ⟨-, -, -, hsoundA, -⟩ := hw.read_all hreadA
    obtain ⟨stA, hstA, hfpA⟩ := Option.bind_eq_some_iff.mp hA
    obtain ⟨stP, hstP⟩ := hforks.forkable.2.2.1.1
    rw [hmerged.sound_iff hstP]
    have hlogA : stA.log = ⟨some (parent, forkSeq), stA.events⟩ := congrArg (Log.mk · stA.events) hfpA
    rw [hbase] at hstP
    exact (sound_fork_iff ((hw.log hstA).trans (congrArg some hlogA)) (hw.log hstP)).mp hsoundA
  obtain ⟨hbefore, hafter⟩ := hmerged.shows
  rw [hbase] at hreadP
  refine ⟨_, ofA, ofB, _, hreadP, hreadA, hreadB, hm ▸ hmerged.read fresh hadmits hsound hlineage, hbefore,
    fun entity => ?_⟩
  have hentity : (ofEntity entity ((logicalEvents (hist.take forkSeq ++ es)).drop forkSeq)).map draft =
      (sortByWallTime (ofEntity entity (strategy.survivingArm (ofA.drop forkSeq) (ofB.drop forkSeq) entity))).map
        draft := by
    rw [map_draft_ofEntity, hafter, ← map_draft_ofEntity, ofEntity_sortByWallTime,
      ofEntity_mergeSurvivors hforks.disjoint]
  rw [hentity]
  exact ⟨rfl, map_draft_sortByWallTime_eq_iff⟩

/-- In the merge of the two arms, the first entity's Events are sorted by wall time. -/
theorem divergedArms_merge_sorted : ∃ m s' ofA ofB merged,
    divergedArms.mergeWithStrategy ⟨2⟩ ⟨3⟩ 0 "merged" .disjointCrdt ⟨4⟩ (drawsFrom 10 0) = (.ok m, s') ∧
    divergedArms.read ⟨2⟩ .all = .ok ofA ∧ divergedArms.read ⟨3⟩ .all = .ok ofB ∧ s'.read m.id .all = .ok merged ∧
    (ofEntity ⟨1⟩ merged).map Event.draft = (sortByWallTime (ofEntity ⟨1⟩ ofA)).map Event.draft := by
  obtain ⟨m, s', hmerge⟩ : ∃ m s', divergedArms.mergeWithStrategy ⟨2⟩ ⟨3⟩ 0 "merged" .disjointCrdt ⟨4⟩ (drawsFrom 10 0) =
    (.ok m, s') := ⟨_, _, rfl⟩
  obtain ⟨ofParent, ofA, ofB, merged, -, hA, hB, hread, -, hentity⟩ :=
    merge_preserves_entities divergedArms_reachable (by decide) rfl hmerge
  refine ⟨m, s', ofA, ofB, merged, hmerge, hA, hB, hread, ?_⟩
  have hsort := (hentity ⟨1⟩).1
  cases hA
  exact hsort

/-- Wall times that decrease along an arm are put in order: the entity's Events change places. -/
theorem divergedArms_merge_reorders : Reachable Fresh divergedArms ∧
    divergedArms.forkPoint ⟨2⟩ = some (⟨1⟩, 0) ∧ divergedArms.forkPoint ⟨3⟩ = some (⟨1⟩, 0) ∧
    ∃ m s' ofA merged, divergedArms.mergeWithStrategy ⟨2⟩ ⟨3⟩ 0 "merged" .disjointCrdt ⟨4⟩ (drawsFrom 10 0) = (.ok m, s') ∧
      divergedArms.read ⟨2⟩ .all = .ok ofA ∧ s'.read m.id .all = .ok merged ∧
      (ofEntity ⟨1⟩ ofA).map Event.payload = [[1], [2]] ∧ (ofEntity ⟨1⟩ merged).map Event.payload = [[2], [1]] :=
  ⟨divergedArms_reachable, rfl, rfl, _, _, _, _, rfl, rfl, rfl, by decide, by decide⟩

/-! ## The merge base -/

def originTimeline (e : Event) : Option TimelineId := e.origin.map EventOriginV1.originTimelineId

theorem WF.exists_originTimeline (hw : s.WF F) {L : List (Segment TimelineId Event)}
    (hL : Spine F.log t L) (hn : n < (unroll L).length) :
    ∃ c, Inherits F.log (n + 1) t c ∧ ((unroll L)[n]?).map originTimeline = some (some c) := by
  obtain ⟨c, l, hc, hl, hstart, hstop, hget⟩ := exists_holder hL hn
  obtain ⟨st, hst, rfl, -⟩ := hw.lookup hl
  have hi : n - st.log.start < st.events.length := by
    rw [show st.log.own = st.events from rfl] at hstop
    omega
  refine ⟨c, hc, ?_⟩
  rw [hget, show st.log.own = st.events from rfl, getElem?_eq_getElem hi, Option.map_some, originTimeline,
    hw.origins hst _ (getElem_mem hi)]
  rfl

theorem originTimeline_logicalEvents (hist : List Event) (n : Nat) :
    ((logicalEvents hist)[n]?).map originTimeline = (hist[n]?).map originTimeline := by
  rw [logicalEvents, logicalEventsFrom, getElem?_map, getElem?_zipIdx, Option.map_map, Option.map_map]
  rfl

/-- Two Timelines show the same first `n` Events exactly when they inherit them from one Timeline. -/
theorem WF.take_eq_iff (hw : s.WF F) {u : TimelineId} {h h' : List Event} (ht : F.History t h)
    (hu : F.History u h') (hn : n ≤ h'.length) :
    (logicalEvents h).take n = (logicalEvents h').take n ↔
      n = 0 ∨ ∃ c, Inherits s.log n t c ∧ Inherits s.log n u c := by
  rw [← hw.log_eq]
  constructor
  · intro heq
    cases n with
    | zero => exact .inl rfl
    | succ n =>
      have hlen := congrArg length heq
      rw [length_take, length_take, logicalEvents, logicalEvents, length_logicalEventsFrom,
        length_logicalEventsFrom] at hlen
      -- the Event at position `n + 1` names the Timeline both inherit it from
      have hget := congrArg (fun l => (l[n]?).map originTimeline) heq
      simp only [getElem?_take_of_lt (Nat.lt_succ_self n), originTimeline_logicalEvents] at hget
      obtain ⟨L, hL, rfl⟩ := ht
      obtain ⟨M, hM, rfl⟩ := hu
      obtain ⟨c, hc, hcn⟩ := hw.exists_originTimeline hL (show n < (unroll L).length by omega)
      obtain ⟨d, hd, hdn⟩ := hw.exists_originTimeline hM (show n < (unroll M).length by omega)
      rw [hcn, hdn] at hget
      cases hget
      exact .inr ⟨c, hc, hd⟩
  · rintro (rfl | ⟨c, htc, huc⟩)
    · simp
    · have hstored : ∃ hc, F.History c hc := by
        obtain ⟨L, hL, -⟩ := ht
        obtain ⟨x, hx, rfl⟩ := mem_map.mp (htc.mem hL)
        obtain ⟨-, M, -, -, -, hM, -⟩ := hL.mem hx
        exact ⟨_, M, hM, rfl⟩
      obtain ⟨hist, hc⟩ := hstored
      rw [take_logicalEvents, take_logicalEvents, htc.history ht hc, huc.history hu hc]

/-- Arm A inherits the cut from its base exactly when it is a root or was not forked before it. -/
theorem WF.inherits_mergeBase_iff (hw : s.WF F) {st : TimelineState} (hst : s.timelines.lookup timelineA = some st) :
    (n = 0 ∨ ∃ c, Inherits s.log n timelineA c ∧ Inherits s.log n (s.mergeBase timelineA) c) ↔
      ∀ parent cut, s.forkPoint timelineA = some (parent, cut) → n ≤ cut := by
  have hpoint : s.forkPoint timelineA = st.timeline.metadata.forkPoint := by
    rw [forkPoint, hst, Option.bind_some]
  rw [mergeBase, hpoint]
  rcases hfp : st.timeline.metadata.forkPoint with _ | ⟨p, k⟩
  · exact ⟨fun _ _ _ h => (by cases h), fun _ => .inr ⟨timelineA, .refl, .refl⟩⟩
  · have hlog : s.log timelineA = some ⟨some (p, k), st.events⟩ := by
      rw [log_of_lookup hst, TimelineState.log, hfp]
    constructor
    · rintro h parent cut ⟨⟩
      rcases h with rfl | ⟨c, hAc, hpc⟩
      · exact Nat.zero_le k
      cases hAc with
      | refl =>
        -- A would be an ancestor of its own parent
        obtain ⟨L, hL, -⟩ := F.cut (hw.log_eq ▸ hlog) rfl
        have hmem := hpc.mem (hw.spine hL)
        have hnodup := (Spine.fork hlog (hw.spine hL)).nodup_keys
        rw [map_append, nodup_append'] at hnodup
        exact absurd hmem fun h => hnodup.2.2 h (by simp)
      | up hlog' hle _ =>
        rw [hlog] at hlog'
        cases hlog'
        exact hle
    · intro h
      exact .inr ⟨p, .up hlog (h p k rfl) .refl, .refl⟩

/-- A merge that succeeds, and whose Timeline can be read, shows its base up to the caller's cut, and
after it exactly the survivors of what the arms show after it. The base shows what arm A shows up to
the cut exactly when A is a root or was not forked before the cut; and what arm B shows exactly when
both inherit that much from one Timeline. -/
theorem merge_base_shown (hs : Reachable Fresh s) (fresh : s.FreshTimeline id)
    (hmerge : s.mergeWithStrategy timelineA timelineB forkSeq targetName strategy id draw = (.ok m, s'))
    {merged : List Event} (hread : s'.read m.id .all = .ok merged) :
    ∃ ofBase ofA ofB, s.read (s.mergeBase timelineA) .all = .ok ofBase ∧ s.read timelineA .all = .ok ofA ∧
      s.read timelineB .all = .ok ofB ∧ merged.take forkSeq = ofBase.take forkSeq ∧
      (merged.drop forkSeq).map Event.draft =
        (sortByWallTime (mergeSurvivors strategy (ofA.drop forkSeq) (ofB.drop forkSeq))).map Event.draft ∧
      (ofA.take forkSeq = merged.take forkSeq ↔
        ∀ parent cut, s.forkPoint timelineA = some (parent, cut) → forkSeq ≤ cut) ∧
      (ofB.take forkSeq = merged.take forkSeq ↔
        forkSeq = 0 ∨ ∃ c, Inherits s.log forkSeq timelineB c ∧ Inherits s.log forkSeq (s.mergeBase timelineA) c) := by
  obtain ⟨F, hw⟩ := hs.wf
  obtain ⟨hm, -, eventsA, eventsB, F', hist, es, hforks, hmerged⟩ := hw.merge_ok fresh hmerge
  obtain ⟨hreadBase, -⟩ := hw.read_mergeBase hforks hmerged.sound hmerged.history
  obtain ⟨ofA, hreadA, rfl⟩ := hw.read_fromSeq hforks.readA
  obtain ⟨ofB, hreadB, rfl⟩ := hw.read_fromSeq hforks.readB
  obtain ⟨-, ⟨⟨stA, hstA⟩, -⟩, -, -, histA, hhA, rfl⟩ := hw.read_all hreadA
  obtain ⟨-, -, -, -, histB, hhB, rfl⟩ := hw.read_all hreadB
  obtain ⟨-, -, -, -, histM, hhM, rfl⟩ := hmerged.wf.read_all (hm ▸ hread)
  rw [hhM.functional hmerged.merged]
  obtain ⟨hbefore, hafter⟩ := hmerged.shows
  refine ⟨_, _, _, hreadBase, hreadA, hreadB, hbefore, hafter, ?_, ?_⟩
  · rw [hbefore, hw.take_eq_iff hhA hmerged.history hmerged.cut]
    exact hw.inherits_mergeBase_iff hstA
  · rw [hbefore]
    exact hw.take_eq_iff hhB hmerged.history hmerged.cut

/-- Two Forks of a root after its Event, each with an Event of its own. -/
def sharedStart : MemoryStore :=
  forkedOnce.run [.fork ⟨1⟩ 1 "b" ⟨3⟩, .append ⟨2⟩ [EventDraft.new ⟨1⟩ "note" []] (drawsFrom 2 6),
    .append ⟨3⟩ [EventDraft.new ⟨2⟩ "note" []] (drawsFrom 3 7)]

/-- The merge at the cut shows arm B's inherited Event, and then the Events of both arms. -/
theorem sharedStart_merge_base : ∃ m s' merged ofB,
    sharedStart.mergeWithStrategy ⟨2⟩ ⟨3⟩ 1 "merged" .disjointCrdt ⟨4⟩ (drawsFrom 10 0) = (.ok m, s') ∧
    s'.read m.id .all = .ok merged ∧ sharedStart.read ⟨3⟩ .all = .ok ofB ∧ merged.length = 3 ∧
      ofB.take 1 = merged.take 1 := by
  obtain ⟨m, s', hmerge, merged, hread, hlength⟩ : ∃ m s', sharedStart.mergeWithStrategy ⟨2⟩ ⟨3⟩ 1 "merged"
    .disjointCrdt ⟨4⟩ (drawsFrom 10 0) = (.ok m, s') ∧ ∃ merged, s'.read m.id .all = .ok merged ∧ merged.length = 3 :=
    ⟨_, _, rfl, _, rfl, by decide⟩
  have hreachable : Reachable Fresh sharedStart := forkedOnce_reachable.run (by decide)
  obtain ⟨-, -, ofB, -, -, hB, -, -, -, hsame⟩ := merge_base_shown hreachable (by decide) hmerge hread
  refine ⟨m, s', merged, ofB, hmerge, hread, hB, hlength, hsame.mpr (.inr ⟨⟨1⟩, ?_, .refl⟩)⟩
  exact .up rfl le_rfl .refl

/-- Two roots with one Event each. -/
def unrelatedRoots : MemoryStore :=
  run blankStore
    [.createTimeline "a" ⟨1⟩, .createTimeline "b" ⟨2⟩,
      .append ⟨1⟩ [EventDraft.new ⟨1⟩ "note" []] (drawsFrom 1 5),
      .append ⟨2⟩ [EventDraft.new ⟨2⟩ "note" []] (drawsFrom 2 5)]

/-- Merging unrelated roots after their first Events succeeds, and drops the first Event of arm B. -/
theorem unrelatedRoots_merge_base : Reachable Fresh unrelatedRoots ∧
    ∃ m s' ofA ofB merged, unrelatedRoots.mergeWithStrategy ⟨1⟩ ⟨2⟩ 1 "merged" .disjointCrdt ⟨3⟩ (drawsFrom 10 0) =
        (.ok m, s') ∧
      unrelatedRoots.read ⟨1⟩ .all = .ok ofA ∧ unrelatedRoots.read ⟨2⟩ .all = .ok ofB ∧
      s'.read m.id .all = .ok merged ∧ merged.take 1 = ofA.take 1 ∧ merged.take 1 ≠ ofB.take 1 ∧
      ∀ e ∈ ofB, e.id ∉ merged.map Event.id :=
  ⟨Reachable.run (.blank .empty) (by decide), _, _, _, _, _, rfl, rfl, rfl, rfl, by decide,
    by decide, by decide⟩

end MemoryStore

end Piglor
