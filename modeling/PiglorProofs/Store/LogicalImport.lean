/-
Logical import (pos-core store.rs): an exported Timeline is appended, Event by Event, to a new root under ids
drawn afresh. The Timeline is created before its Events are appended and nothing takes it back, and the drafts
carry the causation ids of the exported Events, which name no Event of the clone.
-/
import PiglorProofs.Store.Transfer

namespace Piglor.MemoryStore

open CowForest Checked List

/-- Create, then append the exported Events as drafts. -/
def importTimelineUsing (createResult : Effect Timeline) (events : List Event)
    (append : MemoryStore → TimelineId → List EventDraft → Effect (List Event)) : Effect Timeline :=
  match createResult with
  | (.error e, s) => (.error e, s)
  | (.ok timeline, s) =>
    let appended := append s timeline.id (events.map Event.draft)
    (appended.1.map fun _ => timeline, appended.2)

/-- `import_timeline` with the TimelineId and the Events' draws. -/
def importTimeline (s : MemoryStore) (exported : TimelineExport) (id : TimelineId) (draw : Nat → Draw) : Effect Timeline :=
  s.after (ensureImportEventsAreNonGeographic exported.events) fun _ =>
  importTimelineUsing (s.createTimeline (exported.timeline.metadata.name.getD "") id) exported.events
    fun s timeline drafts => s.append timeline drafts draw

variable {s s' : MemoryStore} {t id : TimelineId} {st : TimelineState} {exported : TimelineExport} {draw : Nat → Draw}

def importedRoot (s : MemoryStore) (exported : TimelineExport) (id : TimelineId) : TimelineState :=
  TimelineState.new (Timeline.new (TimelineMeta.root id (exported.timeline.metadata.name.getD ""))) s.hasher.genesisHash

/-- The import is refused before it creates anything. -/
def RefusedBefore (s : MemoryStore) (exported : TimelineExport) : Prop :=
  (∃ e ∈ exported.events, isGeographicEventType e.eventType = true) ∨ s.ensureDirectTopologyMutationAllowed ≠ .ok ()

/-- What an import did once its root was there: appended every Event, or failed with the root left behind. -/
inductive Imported (s : MemoryStore) (exported : TimelineExport) (id : TimelineId) (draw : Nat → Draw) :
    Effect Timeline → Prop where
  | cloned {es : List Event} (accepts : (s.setTimeline id (s.importedRoot exported id)).AppendAccepts id
        (s.importedRoot exported id) (exported.events.map Event.draft))
      (continues : (s.importedRoot exported id).Accepts es)
      (drawn : TimelineState.Drawn es (exported.events.map Event.draft) draw) (length : es.length = exported.events.length) :
      Imported s exported id draw (.ok (s.importedRoot exported id).timeline,
        { s.setTimeline id ((s.importedRoot exported id).extend s.hasher es) with
          eventIds := s.eventIds ∪ (es.map Event.id).toFinset })
  | left {e : CoreError} {s' : MemoryStore} {st : TimelineState} (timelines : s'.timelines = s.timelines.insert id st) :
      Imported s exported id draw (.error e, s')

theorem setTimeline_setTimeline (s : MemoryStore) (t : TimelineId) (st st' : TimelineState) :
    (s.setTimeline t st).setTimeline t st' = s.setTimeline t st' := by
  have hinsert : (s.timelines.insert t st).insert t st' = s.timelines.insert t st' := Finmap.insert_insert _
  rw [setTimeline, setTimeline, setTimeline, hinsert]

theorem importTimeline_cases (s : MemoryStore) (exported : TimelineExport) (id : TimelineId) (draw : Nat → Draw) :
    (∃ e, s.RefusedBefore exported ∧ s.importTimeline exported id draw = (.error e, s)) ∨
      ¬ s.RefusedBefore exported ∧ Imported s exported id draw (s.importTimeline exported id draw) := by
  have hgeographic : ensureImportEventsAreNonGeographic exported.events = .ok () ↔
      ¬ ∃ e ∈ exported.events, isGeographicEventType e.eventType = true := by
    simp [ensureImportEventsAreNonGeographic]
  unfold importTimeline
  rcases after_cases s (ensureImportEventsAreNonGeographic exported.events) _ with ⟨e, hchecks, he⟩ | ⟨⟨⟩, hchecks, he⟩
  · refine .inl ⟨e, .inl ?_, he⟩
    by_contra hnone
    rw [hgeographic.mpr hnone] at hchecks
    cases hchecks
  rw [he]
  unfold createTimeline
  rcases after_cases s s.ensureDirectTopologyMutationAllowed _ with ⟨e, htopology, he⟩ | ⟨⟨⟩, htopology, he⟩
  · rw [he]
    exact .inl ⟨e, .inr (by simp [htopology]), rfl⟩
  rw [he]
  refine .inr ⟨?_, ?_⟩
  · rintro (hsome | hrefused)
    · exact hgeographic.mp hchecks hsome
    · exact hrefused htopology
  have hst : (s.setTimeline id (s.importedRoot exported id)).timelines.lookup id = some (s.importedRoot exported id) :=
    Finmap.lookup_insert _
  show Imported s exported id draw (importTimelineUsing (.ok (s.importedRoot exported id).timeline,
    s.setTimeline id (s.importedRoot exported id)) exported.events fun s timeline drafts => s.append timeline drafts draw)
  dsimp only [importTimelineUsing]
  rw [show (s.importedRoot exported id).timeline.id = id from rfl]
  rcases append_cases hst (exported.events.map Event.draft) draw with
    ⟨es, shown, haccepts, hcontinues, hdrawn, hlength, happend⟩ | ⟨e, s', -, happend, es, hs'⟩
  · rw [happend]
    rw [setTimeline_setTimeline]
    exact .cloned haccepts hcontinues hdrawn (by simpa using hlength)
  · rw [happend]
    rcases hs' with rfl | rfl
    · exact .left rfl
    · rw [setTimeline_setTimeline]
      exact .left rfl

/-! ## A refused import -/

/-- A refused import leaves the Timelines as they were exactly when it was refused before it created one. -/
theorem refused_import_leaves_nothing_iff (s : MemoryStore) (exported : TimelineExport) (id : TimelineId) (draw : Nat → Draw)
    (fresh : s.timelines.lookup id = none) (e : CoreError) (s' : MemoryStore)
    (h : s.importTimeline exported id draw = (.error e, s')) :
    s'.timelines.keys = s.timelines.keys ↔
      (∃ event ∈ exported.events, isGeographicEventType event.eventType = true) ∨
        s.ensureDirectTopologyMutationAllowed ≠ .ok () := by
  rcases importTimeline_cases s exported id draw with ⟨e', hrefused, he⟩ | ⟨hnot, himported⟩
  · rw [he] at h
    cases h
    exact iff_of_true rfl hrefused
  · rw [h] at himported
    refine iff_of_false (fun hkeys => ?_) hnot
    cases himported with
    | left timelines =>
      have hmem : id ∈ s.timelines.keys := by
        rw [← hkeys, timelines]
        exact Finmap.mem_keys.mpr (Finmap.mem_insert.mpr (.inl rfl))
      rw [Finmap.mem_keys, Finmap.mem_iff, fresh] at hmem
      obtain ⟨_, hnone⟩ := hmem
      cases hnone

def exportedEvent (kind : Kind) (id : EventId) (cause : Option EventId) : Event :=
  ⟨id, ⟨1⟩, kind, [], 5, 1, cause, none, .v1, none, none, none, 0⟩

def exportedRoot (events : List Event) : TimelineExport :=
  ⟨{ Timeline.new (TimelineMeta.root ⟨7⟩ "root") with head := events.length }, events, none⟩

/-- An Event of consent passes the check and fails the append: the call is refused and its root stays. -/
theorem consent_import_leaves_root :
    ∃ e s', blankStore.importTimeline (exportedRoot [exportedEvent "consent.granted" ⟨1⟩ none]) ⟨2⟩ (drawsFrom 11 6) =
        (.error e, s') ∧
      blankStore.timelines.keys = ∅ ∧ s'.timelines.keys = {⟨2⟩} :=
  ⟨_, _, rfl, by decide, by decide⟩

/-- A geographic Event is refused while nothing is there. -/
theorem geographic_import_leaves_nothing :
    ∃ e s', blankStore.importTimeline (exportedRoot [exportedEvent "geo.location" ⟨1⟩ none]) ⟨2⟩ (drawsFrom 11 6) =
        (.error e, s') ∧
      s'.timelines.keys = blankStore.timelines.keys := by
  obtain ⟨e, s', h⟩ : ∃ e s', blankStore.importTimeline (exportedRoot [exportedEvent "geo.location" ⟨1⟩ none]) ⟨2⟩
      (drawsFrom 11 6) = (.error e, s') := ⟨_, _, rfl⟩
  refine ⟨e, s', h, (refused_import_leaves_nothing_iff blankStore _ ⟨2⟩ (drawsFrom 11 6) rfl e s' h).mpr (.inl ?_)⟩
  exact ⟨_, mem_singleton_self _, by decide⟩

/-! ## The clone's causes -/

/-- The clone has the exported causes: an Event has one exactly when its original has, and it is the Event at
the position of the original's cause. -/
def KeepsCauses (exported clone : List Event) : Prop :=
  exported.length = clone.length ∧ ∀ (i : Nat) (e f : Event), exported[i]? = some e → clone[i]? = some f →
    (f.causationId.isSome = true ↔ e.causationId.isSome = true) ∧
    ∀ (j : Nat) (cause cause' : Event), exported[j]? = some cause → clone[j]? = some cause' →
      e.causationId = some cause.id → f.causationId = some cause'.id

/-- Every cause is an earlier Event of the export. -/
def ClosedCauses (events : List Event) : Prop :=
  ∀ (i : Nat) (e : Event) (c : EventId), events[i]? = some e → e.causationId = some c →
    ∃ j cause, j < i ∧ events[j]? = some cause ∧ cause.id = c

/-- A root shows its own Events. -/
theorem read_root (hst : s.timelines.lookup t = some st) (hroot : st.timeline.metadata.forkPoint = none)
    (hledger : st.Ledger t) (hadmits : s.Admits t) (hunmarked : t ∉ s.geographicTimelines) :
    s.read t .all = .ok (logicalEvents st.events) := by
  have hspine : Spine s.log t [⟨t, 0, st.events⟩] := by
    refine .root ?_
    rw [log_of_lookup hst, TimelineState.log, hroot]
  have hholds : s.Holds ⟨t, 0, st.events⟩ := by
    have := holds_of_lookup hst hledger
    rwa [TimelineState.log_start, TimelineMeta.prefixLen, hroot] at this
  rw [read_eq_ok]
  refine ⟨hadmits, ⟨⟨st, hst⟩, hunmarked⟩, (lineageAdmitted_iff hspine).mpr ?_, ?_⟩
  · intro x hx
    rw [mem_singleton.mp hx]
    exact hadmits
  · have hcollect := collect_from (s := s) [⟨t, 0, st.events⟩] [] [] (by simp) (by simp [Ordered]) (by simpa using hholds)
    rw [length_nil, nil_append, nil_append] at hcollect
    rw [collectEventsInRange, forkChain_eq_of_spine hspine, ok_bind]
    dsimp only
    rw [show (⟨_, _⟩ : ForkChain) = chainOf [⟨t, 0, st.events⟩] from rfl, hcollect, ok_bind, renumberAndFilter_eq, filter_all]
    simp [stitch]

/-- What an import that succeeds shows: Events under the drawn ids, with the causes of the export. -/
theorem importTimeline_read {timeline : Timeline} (h : s.importTimeline exported id draw = (.ok timeline, s')) :
    ∃ clone, s'.read timeline.id .all = .ok clone ∧ clone.length = exported.events.length ∧
      ∀ (i : Nat) (e f : Event), exported.events[i]? = some e → clone[i]? = some f →
        f.id = (draw i).id ∧ f.causationId = e.causationId := by
  rcases importTimeline_cases s exported id draw with ⟨e', -, he⟩ | ⟨-, himported⟩
  · rw [he] at h
    cases h
  rw [h] at himported
  generalize hr : ((.ok timeline, s') : Effect Timeline) = result at himported
  cases himported with
  | left => cases hr
  | @cloned es haccepts hcontinues hdrawn hlength =>
    cases hr
    refine ⟨logicalEvents es, ?_, by rw [logicalEvents, length_logicalEventsFrom, hlength], fun i e f he hf => ⟨?_, ?_⟩⟩
    · refine read_root (t := id) (s := { s.setTimeline id _ with eventIds := _ }) (Finmap.lookup_insert _) rfl ?_
        haccepts.admits haccepts.unmarked
      have hbase : (s.importedRoot exported id).timeline.metadata.prefixLen + 0 ≤ u64Max := Nat.zero_le _
      refine ⟨rfl, Nat.zero_add es.length, hcontinues.seqs, ?_⟩
      rcases es with _ | ⟨e, es⟩
      · exact hbase
      · exact hcontinues.fits (cons_ne_nil e es)
    · have hids : (logicalEvents es).map Event.id = (range es.length).map fun i => (draw i).id :=
        (map_logicalEventsFrom (fun _ _ => rfl) 0 es).trans hdrawn.ids.1
      have hi := congrArg (·[i]?) hids
      have hlt : i < es.length := hlength ▸ (List.getElem?_eq_some_iff.mp he).1
      simpa [hf, hlt] using hi
    · have hcauses : (logicalEvents es).map Event.causationId = exported.events.map Event.causationId := by
        have hdrafts := congrArg (map EventDraft.causationId)
          (hdrawn.drafts (by simp [Event.draft]) (by simpa using hlength))
        rw [map_map, map_map] at hdrafts
        exact (map_logicalEventsFrom (fun _ _ => rfl) 0 es).trans hdrafts
      have hi := congrArg (·[i]?) hcauses
      simpa [he, hf] using hi

/-- A clone keeps its causes exactly when the export has none. -/
theorem clone_keeps_causes_iff (s : MemoryStore) (exported : TimelineExport) (id : TimelineId) (draw : Nat → Draw)
    (hclosed : ClosedCauses exported.events)
    (fresh : ∀ i < exported.events.length, (draw i).id ∉ exported.events.map Event.id) (timeline : Timeline) (s' : MemoryStore)
    (h : s.importTimeline exported id draw = (.ok timeline, s')) :
    ∃ clone, s'.read timeline.id .all = .ok clone ∧
      (KeepsCauses exported.events clone ↔ ∀ e ∈ exported.events, e.causationId = none) := by
  obtain ⟨clone, hread, hlength, hclone⟩ := importTimeline_read h
  refine ⟨clone, hread, fun hkeeps e he => ?_, fun hnone => ⟨hlength.symm, fun i e f he hf => ?_⟩⟩
  · by_contra hsome
    obtain ⟨c, hc⟩ := Option.ne_none_iff_exists'.mp hsome
    obtain ⟨i, hi⟩ := mem_iff_getElem?.mp he
    obtain ⟨j, cause, -, hj, rfl⟩ := hclosed i e c hi hc
    have hpos {k : Nat} {a : Event} (hk : exported.events[k]? = some a) : ∃ b, clone[k]? = some b := by
      have hlt := (List.getElem?_eq_some_iff.mp hk).1
      exact ⟨clone[k], getElem?_eq_getElem (hlength ▸ hlt)⟩
    obtain ⟨f, hf⟩ := hpos hi
    obtain ⟨cause', hcause'⟩ := hpos hj
    -- the clone's Event still names the exported cause, and its own cause has a drawn id
    have hnamed := (hkeeps.2 i e f hi hf).2 j cause cause' hj hcause' hc
    rw [(hclone i e f hi hf).2, hc, (hclone j cause cause' hj hcause').1] at hnamed
    refine fresh j (List.getElem?_eq_some_iff.mp hj).1 ?_
    rw [← Option.some.inj hnamed]
    exact mem_map_of_mem (mem_of_getElem? hj)
  · have hcause : e.causationId = none := hnone e (mem_of_getElem? he)
    rw [(hclone i e f he hf).2, hcause]
    exact ⟨Iff.rfl, fun _ _ _ _ _ hc => by cases hc⟩

/-- Two Events, the second caused by the first: the clone's second Event names an Event the clone does not have. -/
theorem clone_loses_cause :
    ClosedCauses [exportedEvent "note" ⟨1⟩ none, exportedEvent "note" ⟨2⟩ (some ⟨1⟩)] ∧
    ∃ timeline s' clone, blankStore.importTimeline
        (exportedRoot [exportedEvent "note" ⟨1⟩ none, exportedEvent "note" ⟨2⟩ (some ⟨1⟩)]) ⟨2⟩ (drawsFrom 11 6) =
        (.ok timeline, s') ∧
      s'.read timeline.id .all = .ok clone ∧
      clone.map Event.id = [⟨11⟩, ⟨12⟩] ∧ clone.map Event.causationId = [none, some ⟨1⟩] ∧
      ¬ KeepsCauses [exportedEvent "note" ⟨1⟩ none, exportedEvent "note" ⟨2⟩ (some ⟨1⟩)] clone := by
  refine ⟨?_, _, _, _, rfl, rfl, by decide, by decide, fun hkeeps => ?_⟩
  · rintro (_ | _ | i) e c he hc
    · cases he
      cases hc
    · cases he
      cases hc
      exact ⟨0, _, Nat.zero_lt_one, rfl, rfl⟩
    · cases he
  · have hcause := (hkeeps.2 1 _ _ rfl rfl).2 0 _ _ rfl rfl rfl
    revert hcause
    decide

/-- Two Events without causes make a clone without causes. -/
theorem clone_without_causes :
    ∃ timeline s' clone, blankStore.importTimeline
        (exportedRoot [exportedEvent "note" ⟨1⟩ none, exportedEvent "note" ⟨2⟩ none]) ⟨2⟩ (drawsFrom 11 6) =
        (.ok timeline, s') ∧
      s'.read timeline.id .all = .ok clone ∧
      KeepsCauses [exportedEvent "note" ⟨1⟩ none, exportedEvent "note" ⟨2⟩ none] clone := by
  obtain ⟨timeline, s', h⟩ : ∃ timeline s', blankStore.importTimeline
      (exportedRoot [exportedEvent "note" ⟨1⟩ none, exportedEvent "note" ⟨2⟩ none]) ⟨2⟩ (drawsFrom 11 6) =
      (.ok timeline, s') := ⟨_, _, rfl⟩
  have hnone : ∀ e ∈ [exportedEvent "note" ⟨1⟩ none, exportedEvent "note" ⟨2⟩ none], e.causationId = none := by decide
  have hclosed : ClosedCauses [exportedEvent "note" ⟨1⟩ none, exportedEvent "note" ⟨2⟩ none] := by
    intro i e c he hc
    rw [hnone e (mem_of_getElem? he)] at hc
    cases hc
  obtain ⟨clone, hread, hkeeps⟩ := clone_keeps_causes_iff blankStore _ ⟨2⟩ (drawsFrom 11 6) hclosed (by decide) timeline s' h
  exact ⟨timeline, s', clone, h, hread, hkeeps.mpr hnone⟩

end Piglor.MemoryStore
