/-
Committed appends and imports as whole operations. A committed append checks its complete batch
before it changes anything; an import creates its Timeline, appends and deletes the Timeline again
when the append is refused. Both are all-or-nothing, and since the batch is sorted by sequence
first, the order it is given in does not matter.
-/
import PiglorProofs.Store.AppendSpec

namespace Piglor.MemoryStore

open Checked Finmap TimelineState

variable {s s' : MemoryStore} {t : TimelineId} {events : List Event}

/-! ## The committed append -/

theorem committedAppendGuards_eq_ok : s.committedAppendGuards t events = .ok () ↔
    s.TakesAppends t ∧ ∀ e ∈ events, reservedKind e.eventType = false := by
  have hreserved : ensureNonGeographicEvents events t = .ok () ↔ ∀ e ∈ events, reservedKind e.eventType = false := by
    unfold ensureNonGeographicEvents
    split
    · rename_i h
      obtain ⟨e, he, hkind⟩ := List.any_eq_true.mp h
      simp only [reduceCtorEq, false_iff]
      intro hall
      rw [hall e he] at hkind
      cases hkind
    · rename_i h
      simp only [true_iff]
      intro e he
      rw [← Bool.not_eq_true]
      exact fun hkind => h (List.any_eq_true.mpr ⟨e, he, hkind⟩)
  constructor
  · intro h
    obtain ⟨⟨⟩, hadmits, h⟩ := bind_eq_ok.mp h
    obtain ⟨⟨⟩, hkinds, h⟩ := bind_eq_ok.mp h
    obtain ⟨⟨⟩, hfork, hvisible⟩ := bind_eq_ok.mp h
    exact ⟨⟨hadmits, ensureGenericForkAppendIsRejected_eq_ok.mp hfork, visibility_eq_ok.mp hvisible⟩,
      hreserved.mp hkinds⟩
  · rintro ⟨htakes, hkinds⟩
    exact bind_eq_ok.mpr ⟨⟨⟩, htakes.admits, bind_eq_ok.mpr ⟨⟨⟩, hreserved.mpr hkinds, bind_eq_ok.mpr
      ⟨⟨⟩, ensureGenericForkAppendIsRejected_eq_ok.mpr htakes.unadmitted, visibility_eq_ok.mpr htakes.visible⟩⟩⟩

/-- A committed batch a Timeline takes: it is open to appends, no type is reserved, and the batch
continues its sequence. -/
structure CommittedAccepts (s : MemoryStore) (t : TimelineId) (st : TimelineState) (events ordered : List Event) :
    Prop extends s.BatchContinues t st events ordered where
  takes : s.TakesAppends t
  unreserved : ∀ e ∈ events, reservedKind e.eventType = false

variable {st : TimelineState} {ordered : List Event} {e : CoreError}

/-- The order a batch is given in does not matter. -/
theorem CommittedAccepts.of_perm {events' : List Event}
    (h : s.CommittedAccepts t st events ordered) (hperm : events'.Perm events) :
    s.CommittedAccepts t st events' ordered where
  perm := h.perm.trans hperm.symm
  seqs := h.seqs
  ids := (hperm.map Event.id).nodup_iff.mpr h.ids
  committable := fun e he => h.committable e (hperm.mem_iff.mp he)
  ownable := fun e he => h.ownable e (hperm.mem_iff.mp he)
  takes := h.takes
  unreserved := fun e he => h.unreserved e (hperm.mem_iff.mp he)

/-- The store after a committed batch. -/
def committedStore (s : MemoryStore) (t : TimelineId) (st : TimelineState) (es : List Event) : MemoryStore :=
  { s.setTimeline t (st.extend s.hasher es) with eventIds := s.eventIds ∪ (es.map Event.id).toFinset }

theorem committedStore_nil (hst : s.timelines.lookup t = some st) : s.committedStore t st [] = s := by
  simp [committedStore, setTimeline, extend_nil, Table.insert_eq_self hst]

/-- A committed append takes a batch that continues the Timeline, in the order of its sequences. -/
theorem appendCommitted_eq_ok : s.appendCommitted t events = (.ok (), s') ↔
    ∃ st ordered, s.timelines.lookup t = some st ∧ s.CommittedAccepts t st events ordered ∧
      s' = s.committedStore t st (ordered.map (Event.ownedBy t st.timeline.metadata.prefixLen)) := by
  unfold appendCommitted
  constructor
  · intro h
    obtain ⟨⟨⟩, hguards, h⟩ := after_eq_ok h
    obtain ⟨htakes, hkinds⟩ := committedAppendGuards_eq_ok.mp hguards
    split at h
    · rename_i hempty
      cases h
      obtain ⟨st, hst⟩ := htakes.visible.1
      rw [List.isEmpty_iff] at hempty
      subst hempty
      exact ⟨st, [], hst, ⟨⟨.nil, trivial, .nil, by simp, by simp⟩, htakes, hkinds⟩, (committedStore_nil hst).symm⟩
    · obtain ⟨⟨st, es⟩, hbatch, h⟩ := after_eq_ok h
      obtain ⟨hst, ordered, hb, rfl⟩ := committedBatch_eq_ok.mp hbatch
      cases h
      refine ⟨st, ordered, hst, ⟨hb, htakes, hkinds⟩, ?_⟩
      simp only [committedStore, extend, (hb.seqs_owned _).foldl_last]
  · rintro ⟨st, ordered, hst, h, rfl⟩
    rw [committedAppendGuards_eq_ok.mpr ⟨h.takes, h.unreserved⟩, after_ok]
    split
    · rename_i hempty
      rw [List.isEmpty_iff] at hempty
      obtain rfl : ordered = [] := by simpa [hempty] using h.perm
      rw [List.map_nil, committedStore_nil hst]
    · rw [committedBatch_eq_ok.mpr ⟨hst, ordered, h.toBatchContinues, rfl⟩, after_ok]
      simp only [committedStore, extend, (h.seqs_owned _).foldl_last]

theorem appendCommitted_error (h : s.appendCommitted t events = (.error e, s')) : s' = s := by
  unfold appendCommitted at h
  rcases after_cases s (s.committedAppendGuards t events) _ with ⟨_, -, he⟩ | ⟨⟨⟩, -, he⟩
  · rw [he] at h
    exact (congrArg Prod.snd h).symm
  rw [he] at h
  split at h
  · cases h
  rcases after_cases s (s.committedBatch t events) _ with ⟨_, -, he⟩ | ⟨_, -, he⟩
  · rw [he] at h
    exact (congrArg Prod.snd h).symm
  · rw [he] at h
    cases h

/-! ## The import -/

/-- The store an import creates its Timeline in. -/
def created (s : MemoryStore) (metadata : TimelineMeta) (hash : Hash) : MemoryStore :=
  s.setTimeline metadata.id (TimelineState.new (Timeline.new metadata) hash)

/-- The store an import rolls back from, when it comes to that. -/
def importRollback (s : MemoryStore) (metadata : TimelineMeta) (events : List Event) : Option MemoryStore :=
  match s.createTimelineWithMeta metadata with
  | (.error _, _) => none
  | (.ok created, s) =>
    if created.id ≠ metadata.id then some s
    else match s.appendCommitted metadata.id events with
      | (.error _, s) => some s
      | (.ok (), s) => match s.getTimeline metadata.id with
        | .ok (some _) => none
        | _ => some s

variable {metadata : TimelineMeta} {hash : Hash}

theorem lookup_created :
    (s.created metadata hash).timelines.lookup metadata.id = some (new (Timeline.new metadata) hash) :=
  lookup_insert _

/-- An import that gets as far as its Timeline ends with its batch: refused, it is rolled back;
taken, the Timeline is returned. -/
theorem importCommitted_spec (metadata : TimelineMeta) (events : List Event) :
    (∃ e, s.createTimelineWithMeta metadata = (.error e, s) ∧ s.importCommitted metadata events = (.error e, s)) ∨
    ∃ hash, s.timelines.lookup metadata.id = none ∧
      s.createTimelineWithMeta metadata = (.ok (Timeline.new metadata), s.created metadata hash) ∧
      ((∃ e, (s.created metadata hash).appendCommitted metadata.id events = (.error e, s.created metadata hash) ∧
        s.importRollback metadata events = some (s.created metadata hash) ∧
        s.importCommitted metadata events = (s.created metadata hash).rollbackImport metadata.id e) ∨
      ∃ s' st, (s.created metadata hash).appendCommitted metadata.id events = (.ok (), s') ∧
        s'.timelines.lookup metadata.id = some st ∧ s.importCommitted metadata events = (.ok st.timeline, s')) := by
  unfold importCommitted importRollback
  rcases after_cases s s.ensureDirectTopologyMutationAllowed _ with ⟨e, htop, he⟩ | ⟨⟨⟩, -, he⟩
  · refine .inl ⟨e, ?_, he⟩
    rw [createTimelineWithMeta, htop, error_bind, after_error]
  rw [he]
  rcases s.createTimelineWithMeta_cases metadata with ⟨e, hcreate⟩ | ⟨hash, hnone, -, hcreate⟩
  · exact .inl ⟨e, hcreate, by rw [hcreate]⟩
  refine .inr ⟨hash, hnone, hcreate, ?_⟩
  rw [hcreate]
  have hid : ¬ (Timeline.new metadata).id ≠ metadata.id := not_not_intro rfl
  have hcreated : s.setTimeline metadata.id (new (Timeline.new metadata) hash) =
      s.created metadata hash := rfl
  simp only [if_neg hid, hcreated]
  rcases happend : (s.created metadata hash).appendCommitted metadata.id events with ⟨e | ⟨⟩, s'⟩
  · obtain rfl := appendCommitted_error happend
    exact .inl ⟨e, rfl, rfl, rfl⟩
  · -- the batch was taken, so the Timeline is open to the final read
    obtain ⟨st, ordered, hst, haccepts, rfl⟩ := appendCommitted_eq_ok.mp happend
    generalize hes : ordered.map (Event.ownedBy metadata.id st.timeline.metadata.prefixLen) = es
    have hlookup : ((s.created metadata hash).committedStore metadata.id st es).timelines.lookup metadata.id =
        some (st.extend s.hasher es) := lookup_insert _
    have hget : ((s.created metadata hash).committedStore metadata.id st es).getTimeline metadata.id = _ :=
      getTimeline_of_visible haccepts.takes.admits hlookup haccepts.takes.visible.2
    refine .inr ⟨_, _, rfl, hlookup, ?_⟩
    dsimp only
    unfold finishImport
    rw [hget]

theorem rollbackImport_fst {α : Type} (t : TimelineId) (e : CoreError) :
    ∃ e', (s.rollbackImport t e : Effect α).1 = .error e' := by
  unfold rollbackImport
  split
  · exact ⟨_, rfl⟩
  · exact ⟨_, rfl⟩

theorem importCommitted_eq_ok {timeline : Timeline} (h : s.importCommitted metadata events = (.ok timeline, s')) :
    ∃ hash, s.timelines.lookup metadata.id = none ∧
      s.createTimelineWithMeta metadata = (.ok (Timeline.new metadata), s.created metadata hash) ∧
      (s.created metadata hash).appendCommitted metadata.id events = (.ok (), s') ∧
      (s'.timelines.lookup metadata.id).map TimelineState.timeline = some timeline := by
  rcases s.importCommitted_spec metadata events with
    ⟨_, -, he⟩ | ⟨hash, hnone, hcreate, ⟨err, -, -, he⟩ | ⟨s₂, st, happend, hst, he⟩⟩
  · rw [h] at he
    cases he
  · obtain ⟨e', he'⟩ := rollbackImport_fst (α := Timeline) (s := s.created metadata hash) metadata.id err
    rw [← he, h] at he'
    cases he'
  · rw [h] at he
    cases he
    exact ⟨hash, hnone, hcreate, happend, by rw [hst]; rfl⟩

/-- An import whose Timeline is created and takes the batch succeeds. -/
theorem importCommitted_of_append
    (hcreate : s.createTimelineWithMeta metadata = (.ok (Timeline.new metadata), s.created metadata hash))
    (happend : (s.created metadata hash).appendCommitted metadata.id events = (.ok (), s')) :
    ∃ st, s'.timelines.lookup metadata.id = some st ∧ s.importCommitted metadata events = (.ok st.timeline, s') := by
  rcases s.importCommitted_spec metadata events with
    ⟨_, hrefused, -⟩ | ⟨hash', -, hcreate', ⟨_, herr, -, -⟩ | ⟨s₂, st, hok, hst, he⟩⟩
  · rw [hcreate] at hrefused
    cases hrefused
  · rw [← (Prod.mk.inj (hcreate.symm.trans hcreate')).2, happend] at herr
    cases herr
  · rw [← (Prod.mk.inj (hcreate.symm.trans hcreate')).2, happend] at hok
    cases hok
    exact ⟨st, hst, he⟩

/-- The Timelines with their Events and chain heads, the EventId index and the append identities are
as before. -/
structure Untouched (s s' : MemoryStore) : Prop where
  timelines : s'.timelines = s.timelines
  eventIds : s'.eventIds = s.eventIds
  appendIdentities : s'.appendIdentities = s.appendIdentities

theorem Untouched.refl (s : MemoryStore) : s.Untouched s := ⟨rfl, rfl, rfl⟩

/-- Deleting a Timeline that was just created leaves no trace of it. -/
theorem untouched_rollback {α : Type} (hnone : s.timelines.lookup metadata.id = none)
    (hdelete : ((s.created metadata hash).deleteTimeline metadata.id).1 = .ok ()) :
    s.Untouched ((s.created metadata hash).rollbackImport metadata.id e : Effect α).2 := by
  rw [rollbackImport_snd]
  rcases (s.created metadata hash).deleteTimeline_cases metadata.id with ⟨e, he⟩ | ⟨st, hst, -, he⟩
  · rw [he] at hdelete
    cases hdelete
  rw [lookup_created] at hst
  cases hst
  rw [he]
  refine ⟨?_, ?_, ?_⟩
  · exact (Table.erase_insert _ _ _).trans (Table.erase_eq_self hnone)
  · exact Finset.sdiff_empty
  · refine ext_lookup fun key => ?_
    refine (Table.lookup_retain _ _ key).trans ?_
    change Option.filter _ (s.appendIdentities.lookup key) = s.appendIdentities.lookup key
    rcases s.appendIdentities.lookup key with _ | record
    · rfl
    · simp [new]

/-- What a committed batch leaves on its Timeline: its own Events continued by the batch, in the order
of its sequences and under the Timeline's own origin, with ids that were not in use. -/
structure Continued (s s' : MemoryStore) (t : TimelineId) (events : List Event) : Prop where
  own : ∃ st es, s'.timelines.lookup t = some st ∧ st.events = s.ownEvents t ++ es ∧
    NumberedFrom Event.seq (s.localHead t) es ∧ es.Perm (events.map (Event.ownedBy t st.timeline.metadata.prefixLen))
  unused : ∀ e ∈ events, e.id ∉ s.eventIds
  distinct : (events.map Event.id).Nodup

theorem CommittedAccepts.continued (h : s.CommittedAccepts t st events ordered) (hst : s.timelines.lookup t = some st) :
    s.Continued (s.committedStore t st (ordered.map (Event.ownedBy t st.timeline.metadata.prefixLen))) t events where
  own := by
    refine ⟨_, _, lookup_insert _, ?_, ?_, h.perm.map _⟩
    · rw [ownEvents, hst]
      rfl
    · rw [localHead, hst]
      exact h.seqs_owned _
  unused := fun e he => of_decide_eq_false (h.committable e he).unused
  distinct := h.ids

/-- Committed appends and imports are all-or-nothing and do not depend on the order of the batch:
a refused append changes nothing, a refused import (whose rollback is not refused itself) leaves no
trace in Timelines, ids or append identities, and a batch that is taken is taken in every order with
the same store left, in which the Timeline continues with exactly that batch. -/
theorem committed_atomic (s : MemoryStore) :
    (∀ t events e s', s.appendCommitted t events = (.error e, s') → s' = s) ∧
    (∀ metadata events e s', s.importCommitted metadata events = (.error e, s') →
      (∀ s₁ ∈ s.importRollback metadata events, (s₁.deleteTimeline metadata.id).1 = .ok ()) → s.Untouched s') ∧
    (∀ t events s', s.appendCommitted t events = (.ok (), s') →
      (∀ events', events'.Perm events → s.appendCommitted t events' = (.ok (), s')) ∧ s.Continued s' t events) ∧
    ∀ metadata events timeline s', s.importCommitted metadata events = (.ok timeline, s') →
      (∀ events', events'.Perm events → s.importCommitted metadata events' = (.ok timeline, s')) ∧
        s.timelines.lookup metadata.id = none ∧ s.Continued s' metadata.id events := by
  refine ⟨fun t events e s' h => appendCommitted_error h, ?_, ?_, ?_⟩
  · intro metadata events e s' h hrollback
    rcases s.importCommitted_spec metadata events with
      ⟨_, -, he⟩ | ⟨hash, hnone, -, ⟨err, -, hfrom, he⟩ | ⟨_, _, -, -, he⟩⟩
    · rw [h] at he
      cases he
      exact .refl s
    · have huntouched : s.Untouched ((s.created metadata hash).rollbackImport metadata.id err : Effect Timeline).2 :=
        untouched_rollback hnone (hrollback _ hfrom)
      rwa [← he, h] at huntouched
    · rw [h] at he
      cases he
  · intro t events s' h
    obtain ⟨st, ordered, hst, haccepts, rfl⟩ := appendCommitted_eq_ok.mp h
    refine ⟨fun events' hperm => ?_, haccepts.continued hst⟩
    exact appendCommitted_eq_ok.mpr ⟨st, ordered, hst, haccepts.of_perm hperm, rfl⟩
  · intro metadata events timeline s' h
    obtain ⟨hash, hnone, hcreate, happend, htimeline⟩ := importCommitted_eq_ok h
    obtain ⟨st, ordered, hst, haccepts, rfl⟩ := appendCommitted_eq_ok.mp happend
    refine ⟨fun events' hperm => ?_, hnone, ?_⟩
    · have happend' := appendCommitted_eq_ok.mpr ⟨st, ordered, hst, haccepts.of_perm hperm, rfl⟩
      obtain ⟨st', hst', he⟩ := importCommitted_of_append hcreate happend'
      rw [hst', Option.map_some, Option.some.injEq] at htimeline
      rw [he, htimeline]
    · -- the Timeline starts empty, so its own Events are the batch
      obtain ⟨⟨st', es, hst', hown, hnum, hperm⟩, hunused, hdistinct⟩ := haccepts.continued hst
      refine ⟨⟨st', es, hst', ?_, ?_, hperm⟩, hunused, hdistinct⟩
      · rw [hown, ownEvents, lookup_created, ownEvents, hnone]
        rfl
      · rw [localHead, hnone]
        rwa [localHead, lookup_created] at hnum

/-- A root without Events. -/
def emptyRoot : MemoryStore :=
  run blankStore [.createTimeline "root" ⟨1⟩]

/-- A committed note at a local sequence, without an origin. -/
def committedNote (seq : Seq) : Event :=
  ⟨⟨BitVec.ofNat 128 seq⟩, ⟨1⟩, "note", [], 5, seq, none, none, .v1, none, none, none, 0⟩

/-- Two notes are taken in either order, with one result. -/
theorem emptyRoot_takes_any_order : ∃ s', emptyRoot.appendCommitted ⟨1⟩ [committedNote 2, committedNote 1] = (.ok (), s') ∧
    emptyRoot.appendCommitted ⟨1⟩ [committedNote 1, committedNote 2] = (.ok (), s') ∧
    emptyRoot.Continued s' ⟨1⟩ [committedNote 2, committedNote 1] := by
  obtain ⟨s', h⟩ : ∃ s', emptyRoot.appendCommitted ⟨1⟩ [committedNote 2, committedNote 1] = (.ok (), s') := ⟨_, rfl⟩
  obtain ⟨hany, hcontinued⟩ := (committed_atomic emptyRoot).2.2.1 _ _ _ h
  exact ⟨s', h, hany _ (.swap _ _ _), hcontinued⟩

/-- A note without an origin is stored with one, so the new own Event is not the input itself. -/
theorem emptyRoot_stamps_origin : ∃ s', emptyRoot.appendCommitted ⟨1⟩ [committedNote 1] = (.ok (), s') ∧
    ∃ e, s'.ownEvents ⟨1⟩ = emptyRoot.ownEvents ⟨1⟩ ++ [e] ∧ e.origin = some ⟨⟨1⟩, 1⟩ ∧ e ≠ committedNote 1 := by
  refine ⟨_, rfl, _, rfl, rfl, ?_⟩
  decide

end Piglor.MemoryStore
