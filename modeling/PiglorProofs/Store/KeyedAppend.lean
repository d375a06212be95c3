/-
A keyed append takes effect at most once. For as long as the record of its Event is retained and
unexpired, every later call with the key is answered from the record and changes nothing, and the
Event stays where the record says; an append that did take effect added one Event after the head.
-/
import PiglorProofs.Store.Records

namespace Piglor

open Checked List

/-- The drafts agree in what a retry record retains: all but the wall time. -/
def EventDraft.SameContent (d d' : EventDraft) : Prop :=
  d.entity = d'.entity ∧ d.eventType = d'.eventType ∧ d.payload = d'.payload ∧ d.causationId = d'.causationId ∧
    d.correlationId = d'.correlationId ∧ d.schemaVersion = d'.schemaVersion

instance (d d' : EventDraft) : Decidable (d.SameContent d') := inferInstanceAs (Decidable (_ ∧ _))

theorem retainedContentMatches_iff {e : Event} {d d' : EventDraft} {now : WallTime} (h : e.draft = d.stamped now) :
    retainedContentMatches (retainedContent e) d' = true ↔ d.SameContent d' := by
  obtain ⟨hentity, htype, hpayload, hcause, hcorrelation, hschema, -⟩ := (EventDraft.mk.injEq ..).mp h
  simp only [retainedContentMatches, retainedContent, Bool.and_eq_true, beq_iff_eq, EventDraft.SameContent, hentity,
    htype, hpayload, hcause, hcorrelation, hschema, and_assoc]

namespace MemoryStore

variable {s s₁ : MemoryStore} {F : CowForest TimelineId Event} {t : TimelineId} {st : TimelineState} {own e : Event}
  {identity : AppendIdentity} {admittedAt : WallTime} {draft : EventDraft} {draw : Draw} {record : AppendIdentityRecord}

/-! ## Retries -/

/-- The guards let a keyed append through to the retry table. -/
structure KeyedAdmits (s : MemoryStore) (t : TimelineId) (draft : EventDraft) : Prop extends s.TakesAppends t where
  unreserved : reservedKind draft.eventType = false

theorem KeyedAdmits.of_guards {n : Nat} (h : s.identifiedAppendGuards t draft = .ok n) : s.KeyedAdmits t draft := by
  obtain ⟨⟨⟩, hfence, h⟩ := bind_eq_ok.mp h
  obtain ⟨⟨⟩, hkind, h⟩ := bind_eq_ok.mp h
  obtain ⟨⟨⟩, hfork, h⟩ := bind_eq_ok.mp h
  obtain ⟨⟨⟩, hvisible, -⟩ := bind_eq_ok.mp h
  refine ⟨⟨hfence, ensureGenericForkAppendIsRejected_eq_ok.mp hfork, visibility_eq_ok.mp hvisible⟩, ?_⟩
  simpa [ensureNonGeographicDraft] using hkind

theorem KeyedAdmits.guards (h : s.KeyedAdmits t draft) : ∃ n, s.identifiedAppendGuards t draft = .ok n := by
  obtain ⟨st, hst⟩ := h.visible.1
  have hkind : ensureNonGeographicDraft draft t = .ok () := by simp [ensureNonGeographicDraft, h.unreserved]
  refine ⟨st.timeline.metadata.prefixLen, ?_⟩
  rw [identifiedAppendGuards, h.admits, ok_bind, hkind, ok_bind, ensureGenericForkAppendIsRejected_eq_ok.mpr h.unadmitted,
    ok_bind, visibility_eq_ok.mpr h.visible, ok_bind, logicalPrefix_eq hst]

/-- A live record answers every call with its key, unless a guard refuses the call. -/
theorem appendOrDuplicate_retry (t : TimelineId) (draft : EventDraft) (draw : Draw)
    (hrecord : s.appendIdentities.lookup identity.dedupKey = some record) (hlive : admittedAt < record.expiresAt) :
    (s.KeyedAdmits t draft →
      s.appendOrDuplicate t identity admittedAt draft draw = (.ok (retryOutcome record t draft), s)) ∧
    (¬ s.KeyedAdmits t draft → ∃ err, s.appendOrDuplicate t identity admittedAt draft draw = (.error err, s)) := by
  have hsome : s.liveIdentity identity.dedupKey admittedAt = some record := by
    rw [liveIdentity, hrecord, Option.filter_some, if_pos (decide_eq_true hlive)]
  have hrefused : ∀ {err}, s.identifiedAppendGuards t draft = .error err → ¬ s.KeyedAdmits t draft := by
    intro err hguards h
    obtain ⟨n, hn⟩ := h.guards
    rw [hguards] at hn
    cases hn
  rcases appendOrDuplicate_cases t identity admittedAt draft draw with
    ⟨err, hguards, he⟩ | ⟨st, -, hguards, hcases⟩
  · exact ⟨fun h => absurd h (hrefused hguards), fun _ => ⟨err, he⟩⟩
  refine ⟨fun _ => ?_, fun h => absurd (.of_guards hguards) h⟩
  unfold appendOrDuplicate appendOrDuplicateWithLimit
  rw [hguards, after_ok, hsome]
  rfl

/-- The store answers a repeated key from the record: nothing changes, a call the guards refuse
fails, and the others name the original Event exactly for its Timeline and content. -/
def AnswersRetries (s : MemoryStore) (key : AppendDedupKey) (now : WallTime) (t : TimelineId) (draft : EventDraft)
    (eventId : EventId) : Prop :=
  ∀ (t' : TimelineId) (scope : AppendDedupScope) (draft' : EventDraft) (draw : Draw),
    (s.KeyedAdmits t' draft' → s.appendOrDuplicate t' ⟨key, scope⟩ now draft' draw =
      (.ok (if t' = t ∧ draft.SameContent draft' then .duplicate eventId else .conflict), s)) ∧
    (¬ s.KeyedAdmits t' draft' → ∃ err, s.appendOrDuplicate t' ⟨key, scope⟩ now draft' draw = (.error err, s))

theorem answersRetries {key : AppendDedupKey} {now stamp : WallTime}
    (hrecord : s.appendIdentities.lookup key = some record) (hlive : now < record.expiresAt)
    (hcontent : record.retainedContent = retainedContent own) (hdraft : own.draft = draft.stamped stamp) :
    s.AnswersRetries key now record.timeline draft record.eventId := by
  intro t' scope draft' draw
  have hrecord' : s.appendIdentities.lookup (AppendIdentity.mk key scope).dedupKey = some record := hrecord
  obtain ⟨hadmitted, hrefused⟩ := appendOrDuplicate_retry t' draft' draw hrecord' hlive
  refine ⟨fun h => ?_, hrefused⟩
  rw [hadmitted h, retryOutcome, hcontent]
  by_cases ht : t' = record.timeline
  · simp only [ht, ne_eq, not_true_eq_false, if_false, true_and, retainedContentMatches_iff hdraft]
  · rw [if_pos (Ne.symm ht), if_neg (fun h => ht h.1)]

/-! ## The appended Event -/

/-- The store has one Event more: at the end of its Timeline, and of what a read of it shows. -/
structure AddsOne (s s₁ : MemoryStore) (t : TimelineId) (e : Event) : Prop where
  timelines : ∃ st own, s.timelines.lookup t = some st ∧ own.seq = st.timeline.head + 1 ∧ e = shownEvent st own ∧
    s₁.timelines = s.timelines.insert t (st.extend s.hasher [own])
  head : ∀ h, s.logicalHead t = .ok h → e.seq = h + 1
  read : ∀ events, s.read t .all = .ok events → s₁.read t .all = .ok (events ++ [e])

theorem WF.seq_shownEvent (hw : s.WF F) (hst : s.timelines.lookup t = some st) (hseq : own.seq = st.timeline.head + 1)
    {hist : List Event} (hh : F.History t hist) : (shownEvent st own).seq = hist.length + 1 := by
  have hlen := (hw.length_history hst hh).1
  show st.timeline.metadata.prefixLen + own.seq = hist.length + 1
  rw [hseq, (hw.ledger hst).head_eq, hlen]
  rfl

theorem WF.addsOne (hw : s.WF F) {expiresAt : WallTime} (hst : s.timelines.lookup t = some st)
    (hacc : st.Accepts [own]) : s.AddsOne (s.keyedStore t identity st own expiresAt) t (shownEvent st own) where
  timelines := ⟨st, own, hst, hacc.seqs.1, rfl, rfl⟩
  head := by
    intro h hhead
    obtain ⟨-, -, hhead⟩ := logicalHead_eq_ok.mp hhead
    obtain ⟨-, hist, hh, rfl⟩ := hw.sound_of_head hhead
    exact hw.seq_shownEvent hst hacc.seqs.1 hh
  read := by
    intro events hread
    obtain ⟨hadmits, hvisible, hlineage, hsound, hist, hh, rfl⟩ := hw.read_all hread
    have hw' : (s.keyedStore t identity st own expiresAt).WF (F.extend t [own]) := hw.extend rfl hst rfl hacc
    have hh' := hh.extend t [own]
    rw [if_pos rfl] at hh'
    -- the gate is unchanged, and so are the keys of the spine
    have hlineage' : (s.keyedStore t identity st own expiresAt).LineageAdmitted t := by
      obtain ⟨L, hL, -⟩ := hsound
      rw [lineageAdmitted_iff (hw'.spine (hL.extend t [own]))]
      intro x hx
      obtain ⟨y, hy, rfl⟩ := mem_map.mp hx
      exact (lineageAdmitted_iff (hw.spine hL)).mp hlineage y hy
    rw [hw'.read_all_of_sound (hsound.extend t [own]) hh' hadmits ⟨⟨_, Finmap.lookup_insert _⟩, hvisible.2⟩ hlineage',
      logicalEvents, logicalEventsFrom_append, Nat.zero_add]
    have hseq := hw.seq_shownEvent hst hacc.seqs.1 hh
    rw [logicalEventsFrom_cons, ← hseq]
    rfl

theorem WF.readEventById_own (hw : s.WF F) (hu : s.UniqueIds) (hst : s.timelines.lookup t = some st)
    (hown : own ∈ st.events) {events : List Event} (hread : s.read t .all = .ok events) :
    s.readEventById t own.id = .ok (some (shownEvent st own)) := by
  obtain ⟨hadmits, hvisible, hlineage, hsound, hist, hh, -⟩ := hw.read_all hread
  have hmem : shownEvent st own ∈ logicalEvents hist := hw.mem_logicalEvents hst hh hown
  have hnodup : ((logicalEvents hist).map Event.id).Nodup := by
    rw [logicalEvents, map_logicalEventsFrom (fun _ _ => rfl)]
    exact hu.history hw.toRefines hh
  rw [hw.readEventById hsound hh hadmits hvisible hlineage]
  rcases hfind : (logicalEvents hist).find? fun e => decide (e.id = own.id) with _ | found
  · exact absurd (decide_eq_true rfl) (find?_eq_none.mp hfind (shownEvent st own) hmem)
  · have hid : found.id = own.id := by simpa using find?_some hfind
    rw [hfind, inj_on_of_nodup_map hnodup (mem_of_find?_eq_some hfind) hmem hid]

/-- A keyed append that returns `Appended` adds one Event, and its key is used up while its record
is retained and unexpired: later calls with the key change nothing, name the Event exactly for its
Timeline and content, and conflict otherwise, and the Event is still found by its id. -/
theorem keyed_append_once (hs : Reachable Sane s) (hc : s.Sane (.appendOrDuplicate t identity admittedAt draft draw))
    (h : s.appendOrDuplicate t identity admittedAt draft draw = (.ok (.appended e), s₁)) :
    s.AddsOne s₁ t e ∧ e.draft = draft.stamped draw.now ∧
    ∃ record, s₁.appendIdentities.lookup identity.dedupKey = some record ∧
      ∀ calls, Admissible (Retaining fun s' => s'.appendIdentities.lookup identity.dedupKey = some record) s₁ calls →
        (∀ now < record.expiresAt, (s₁.run calls).AnswersRetries identity.dedupKey now t draft e.id) ∧
        ∀ events, (s₁.run calls).read t .all = .ok events →
          (s₁.run calls).readEventById t e.id = .ok (some e) := by
  obtain ⟨F, hw⟩ := hs.fresh.wf
  have hs₁ : Reachable Sane s₁ := by
    have := hs.step hc
    rwa [exec, h] at this
  rcases appendOrDuplicate_cases t identity admittedAt draft draw with
    ⟨err, -, he⟩ | ⟨st, hst, -, ⟨record, -, he⟩ | ⟨err, -, he⟩ | ⟨own, expiresAt, hacc, hid, hdraft, -, he⟩⟩
  · rw [h] at he; cases he
  · rw [h, retryOutcome] at he
    split at he <;> [skip; split at he] <;> cases he
  · rw [h] at he; cases he
  rw [h] at he
  cases he
  refine ⟨hw.addsOne hst hacc, hdraft, ⟨t, identity.scope, own.id, expiresAt, retainedContent own⟩,
    Finmap.lookup_insert _, fun calls hcalls => ?_⟩
  have hrecord := hcalls.kept (Finmap.lookup_insert _)
  refine ⟨fun now hlive => answersRetries hrecord hlive rfl hdraft, fun events hread => ?_⟩
  -- the record names the Event, so the Timeline is not forgotten while it is retained
  obtain ⟨st', hst', hgrew⟩ := grows_run hs₁ hcalls (Finmap.lookup_insert _) fun s' u hu hgone hkept =>
    hgone.identities hkept own (hu.events.subset (mem_append_right _ mem_cons_self)) rfl
  have hown : own ∈ st'.events := hgrew.events.subset (mem_append_right _ mem_cons_self)
  have hs₂ := hs₁.run hcalls.sane
  obtain ⟨F', hw'⟩ := hs₂.fresh.wf
  have hfound := hw'.readEventById_own hs₂.uniqueIds hst' hown hread
  rw [shownEvent, hgrew.metadata] at hfound
  exact hfound

/-- The Fork of `forkedOnce` after its first keyed append. -/
def keyedOnce : MemoryStore :=
  (forkedOnce.appendOrDuplicate ⟨2⟩ ⟨⟨7⟩, ⟨9⟩⟩ 100 (EventDraft.new ⟨1⟩ "note" [4]) ⟨⟨20⟩, 6⟩).2

/-- The same after the root has grown and the Fork was forked again. -/
def keyedLater : MemoryStore :=
  keyedOnce.run [.append ⟨1⟩ [EventDraft.new ⟨1⟩ "note" []] (drawsFrom 30 7),
    .fork ⟨2⟩ 2 "leaf" ⟨3⟩]

theorem keyedOnce_once : ∃ e, forkedOnce.appendOrDuplicate ⟨2⟩ ⟨⟨7⟩, ⟨9⟩⟩ 100 (EventDraft.new ⟨1⟩ "note" [4]) ⟨⟨20⟩, 6⟩ =
      (.ok (.appended e), keyedOnce) ∧ e.seq = 2 ∧
    keyedLater.AnswersRetries ⟨7⟩ 101 ⟨2⟩ (EventDraft.new ⟨1⟩ "note" [4]) ⟨20⟩ ∧
    keyedLater.readEventById ⟨2⟩ ⟨20⟩ = .ok (some e) := by
  obtain ⟨e, hfirst⟩ : ∃ e, forkedOnce.appendOrDuplicate ⟨2⟩ ⟨⟨7⟩, ⟨9⟩⟩ 100 (EventDraft.new ⟨1⟩ "note" [4]) ⟨⟨20⟩, 6⟩ =
    (.ok (.appended e), keyedOnce) := ⟨_, rfl⟩
  obtain ⟨hadds, -, record, hrecord, hlater⟩ := keyed_append_once forkedOnce_sane (by decide) hfirst
  have hid : e.id = ⟨20⟩ := by cases hfirst; rfl
  obtain ⟨events, hread⟩ : ∃ events, keyedLater.read ⟨2⟩ .all = .ok events := ⟨_, rfl⟩
  cases (show some _ = some record from hrecord)
  obtain ⟨hanswers, hfound⟩ := hlater [.append ⟨1⟩ [EventDraft.new ⟨1⟩ "note" []]
    (drawsFrom 30 7), .fork ⟨2⟩ 2 "leaf" ⟨3⟩] (by decide)
  rw [hid] at hanswers hfound
  exact ⟨e, hfirst, hadds.head 1 (by decide), hanswers 101 (by decide), hfound events hread⟩

/-- A retry that names a Timeline the store does not have is refused before the table is read. -/
theorem keyedOnce_refused : Reachable Sane forkedOnce ∧
    (∃ e, forkedOnce.appendOrDuplicate ⟨2⟩ ⟨⟨7⟩, ⟨9⟩⟩ 100 (EventDraft.new ⟨1⟩ "note" [4]) ⟨⟨20⟩, 6⟩ =
      (.ok (.appended e), keyedOnce)) ∧
    (keyedOnce.liveIdentity ⟨7⟩ 101).isSome ∧
    (keyedOnce.appendOrDuplicate ⟨5⟩ ⟨⟨7⟩, ⟨9⟩⟩ 101 (EventDraft.new ⟨1⟩ "note" [4]) ⟨⟨21⟩, 6⟩).1 =
      .error (.timelineNotFound ⟨5⟩) :=
  ⟨forkedOnce_sane, ⟨_, rfl⟩, by decide, by decide⟩

end MemoryStore

end Piglor
