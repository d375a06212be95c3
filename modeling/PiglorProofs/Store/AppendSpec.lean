/-
What the appends take: one specification per entry point, against the guards, the retry table and
the sequence numbers left. A generic append takes the whole batch exactly when `AppendAccepts`.
-/
import PiglorProofs.Store.CopyOnWrite

namespace Piglor.MemoryStore

open Checked

variable {s s' : MemoryStore}

/-! ## The guards -/

/-- The Timeline is open to appends: admitted by the gate, visible, and no admitted Fork. -/
structure TakesAppends (s : MemoryStore) (t : TimelineId) : Prop where
  admits : s.Admits t
  unadmitted : s.forkIsAdmitted t = false
  visible : s.Visible t

variable {t : TimelineId}

theorem ensureGenericForkAppendIsRejected_eq_ok :
    s.ensureGenericForkAppendIsRejected t = .ok () ↔ s.forkIsAdmitted t = false := by
  unfold ensureGenericForkAppendIsRejected
  by_cases h : s.forkIsAdmitted t <;> simp [h]

/-! ## The generic append -/

/-- A batch the generic append takes on a Timeline. -/
structure AppendAccepts (s : MemoryStore) (t : TimelineId) (st : TimelineState) (drafts : List EventDraft) : Prop where
  admits : s.Admits t
  unreserved : ∀ d ∈ drafts, reservedKind d.eventType = false
  unadmitted : s.forkIsAdmitted t = false
  unmarked : t ∉ s.geographicTimelines
  plaintext : ∀ d ∈ drafts, ensurePlaintextPreferenceAllowed s.keyRegistry d.entity d.eventType = .ok ()
  room : drafts ≠ [] → st.timeline.metadata.prefixLen + st.timeline.head + drafts.length ≤ u64Max

variable {st : TimelineState}

theorem genericAppendGuards_eq_ok (hst : s.timelines.lookup t = some st)
    {drafts : List EventDraft} : s.genericAppendGuards t drafts = .ok () ↔
      s.Admits t ∧ (∀ d ∈ drafts, reservedKind d.eventType = false) ∧ s.forkIsAdmitted t = false ∧
        t ∉ s.geographicTimelines := by
  have hreserved : ensureNonGeographicDrafts drafts t = .ok () ↔ ∀ d ∈ drafts, reservedKind d.eventType = false := by
    have hany : drafts.any (fun d => reservedKind d.eventType) = false ↔
        ∀ d ∈ drafts, reservedKind d.eventType = false := by simp
    rw [← hany]
    unfold ensureNonGeographicDrafts
    cases drafts.any fun d => reservedKind d.eventType <;> simp
  have hvis : s.ensureGenericTimelineVisibility t = .ok () ↔ t ∉ s.geographicTimelines :=
    visibility_eq_ok.trans ⟨fun h => h.2, fun h => ⟨⟨st, hst⟩, h⟩⟩
  rw [← hreserved, ← ensureGenericForkAppendIsRejected_eq_ok, ← hvis]
  unfold genericAppendGuards
  constructor
  · intro h
    obtain ⟨⟨⟩, h1, h⟩ := bind_eq_ok.mp h
    obtain ⟨⟨⟩, h2, h⟩ := bind_eq_ok.mp h
    obtain ⟨⟨⟩, h3, h4⟩ := bind_eq_ok.mp h
    exact ⟨h1, h2, h3, h4⟩
  · rintro ⟨h1, h2, h3, h4⟩
    rw [h1, ok_bind, h2, ok_bind, h3, ok_bind, h4]

theorem mapM_logicalEvent_ok {n : Nat} : ∀ {es : List Event}, (∀ e ∈ es, n + e.seq ≤ u64Max) →
    ∃ shown, es.mapM (logicalEvent n) = .ok shown
  | [], _ => ⟨[], rfl⟩
  | e :: es, h => by
    obtain ⟨shown, hshown⟩ := mapM_logicalEvent_ok fun f hf => h f (List.mem_cons_of_mem _ hf)
    have hadd : checkedAdd n e.seq = some (n + e.seq) := by
      unfold checkedAdd
      rw [if_pos (h e List.mem_cons_self)]
    refine ⟨{ e with seq := n + e.seq } :: shown, ?_⟩
    rw [List.mapM_cons, hshown]
    simp only [logicalEvent, hadd]
    rfl

/-- What a generic append does: it takes the whole batch, or returns an error. -/
theorem append_cases (hst : s.timelines.lookup t = some st) (drafts : List EventDraft) (draw : Nat → Draw) :
    (∃ es shown, s.AppendAccepts t st drafts ∧ st.Accepts es ∧ TimelineState.Drawn es drafts draw ∧
      es.length = drafts.length ∧ s.append t drafts draw = (.ok shown,
        { s.setTimeline t (st.extend s.hasher es) with eventIds := s.eventIds ∪ (es.map Event.id).toFinset })) ∨
    ∃ e s', ¬ s.AppendAccepts t st drafts ∧ s.append t drafts draw = (.error e, s') ∧
      ∃ es, s' = s ∨ s' = s.setTimeline t (st.extend s.hasher es) := by
  unfold append
  rcases after_cases s (s.genericAppendGuards t drafts) _ with ⟨e, hguards, he⟩ | ⟨⟨⟩, hguards, he⟩
  · refine .inr ⟨e, s, fun h => ?_, he, [], .inl rfl⟩
    have hok := (genericAppendGuards_eq_ok hst).mpr ⟨h.admits, h.unreserved, h.unadmitted, h.unmarked⟩
    rw [hok] at hguards
    cases hguards
  rw [he]
  obtain ⟨hadmits, hunreserved, hunadmitted, hunmarked⟩ := (genericAppendGuards_eq_ok hst).mp hguards
  have hstate : s.mutableState t = .ok st := by rw [mutableState, hst]
  unfold appendVisible
  rw [logicalPrefix_eq hst, ok_bind]
  rcases unit_ok_or_error (drafts.forM fun d => ensurePlaintextPreferenceAllowed s.keyRegistry d.entity d.eventType)
    with hplain | ⟨e, hplain⟩
  · rw [hplain, ok_bind, hstate, ok_bind, after_ok]
    have hplain := forM_eq_ok.mp hplain
    obtain ⟨es, hext, hacc, hdrawn, -, hres⟩ :=
      TimelineState.appendAllToState_spec s.hasher s.keyRegistry drafts st draw
    dsimp only
    -- the batch is complete, or stops at a refused draft or at the end of `u64`
    rcases hres with ⟨hok, hlen⟩ | ⟨e, herr, hwhy⟩
    · have hroom : drafts ≠ [] → st.timeline.metadata.prefixLen + st.timeline.head + drafts.length ≤ u64Max := by
        intro hne
        rw [← hlen]
        refine hacc.fits ?_
        rintro rfl
        exact hne (List.eq_nil_of_length_eq_zero hlen.symm)
      have hfits : ∀ e ∈ es, st.timeline.metadata.prefixLen + e.seq ≤ u64Max := by
        intro e he
        have hle := (hacc.seqs.bounds he).2
        have := hacc.fits (List.ne_nil_of_mem he)
        omega
      obtain ⟨shown, hshown⟩ := mapM_logicalEvent_ok hfits
      rw [hok, hext]
      dsimp only
      rw [hshown]
      exact .inl ⟨es, shown, ⟨hadmits, hunreserved, hunadmitted, hunmarked, hplain, hroom⟩, hacc, hdrawn, hlen, rfl⟩
    · rw [herr, hext]
      refine .inr ⟨e, _, fun h => ?_, rfl, es, .inr rfl⟩
      rcases hwhy with ⟨d, hd, hrefused⟩ | ⟨hlt, hover⟩
      · exact hrefused (hplain d hd)
      · have := h.room (by rintro rfl; simp at hlt)
        omega
  · rw [hplain, error_bind, after_error]
    refine .inr ⟨e, s, fun h => ?_, rfl, [], .inl rfl⟩
    rw [forM_eq_ok.mpr h.plaintext] at hplain
    cases hplain

/-! ## The keyed append -/

def keyedStore (s : MemoryStore) (t : TimelineId) (identity : AppendIdentity) (st : TimelineState) (own : Event)
    (expiresAt : WallTime) : MemoryStore :=
  { s.setTimeline t (st.extend s.hasher [own]) with
    eventIds := insert own.id s.eventIds
    appendIdentities := s.appendIdentities.insert identity.dedupKey
      ⟨t, identity.scope, own.id, expiresAt, retainedContent own⟩ }

def shownEvent (st : TimelineState) (own : Event) : Event :=
  { own with seq := st.timeline.metadata.prefixLen + own.seq }

/-- What a keyed append that is neither refused nor a retry does. -/
theorem appendIdentified_cases (hst : s.timelines.lookup t = some st)
    (identity : AppendIdentity) (admittedAt : WallTime) (draft : EventDraft) (draw : Draw) :
    (∃ e, s.appendIdentified t identity admittedAt draft st.timeline.metadata.prefixLen draw = (.error e, s)) ∨
    ∃ own expiresAt, st.Accepts [own] ∧ own.id = draw.id ∧ own.draft = draft.stamped draw.now ∧
      checkedAppendIdentityExpiresAt admittedAt = .ok expiresAt ∧
      s.appendIdentified t identity admittedAt draft st.timeline.metadata.prefixLen draw =
        (.ok (some (.appended (shownEvent st own))), s.keyedStore t identity st own expiresAt) := by
  have hstate : s.mutableState t = .ok st := by rw [mutableState, hst]
  unfold appendIdentified
  rcases after_cases s _ _ with ⟨e, -, he⟩ | ⟨checked, hchecks, he⟩
  · exact .inl ⟨e, he⟩
  · obtain ⟨expiresAt, own, st'⟩ := checked
    obtain ⟨expires, hexpires, hchecks⟩ := bind_eq_ok.mp hchecks
    rw [hstate, ok_bind] at hchecks
    obtain ⟨⟨own', st''⟩, hone, hchecks⟩ := bind_eq_ok.mp hchecks
    cases hchecks
    obtain ⟨rfl, hacc, hid, hdraft, -⟩ := TimelineState.appendOneToState_eq_ok hone
    have hfit : st.timeline.metadata.prefixLen + own.seq ≤ u64Max := by
      rw [show own.seq = st.timeline.head + 1 from hacc.seqs.1]
      exact hacc.fits (by simp)
    have hshown : logicalEvent st.timeline.metadata.prefixLen own = .ok (shownEvent st own) := by
      have hadd : checkedAdd st.timeline.metadata.prefixLen own.seq = some (st.timeline.metadata.prefixLen + own.seq) := by
        unfold checkedAdd
        rw [if_pos hfit]
      simp only [logicalEvent, hadd, shownEvent]
    refine .inr ⟨own, expiresAt, hacc, hid, hdraft, hexpires, ?_⟩
    rw [he]
    simp only [hshown, Except.map]
    rfl

/-- What a keyed append does: a guard refuses it, it meets a live record, it fails without a change,
or it appends one Event and leaves its record. -/
theorem appendOrDuplicate_cases (t : TimelineId) (identity : AppendIdentity) (admittedAt : WallTime)
    (draft : EventDraft) (draw : Draw) :
    (∃ e, s.identifiedAppendGuards t draft = .error e ∧
      s.appendOrDuplicate t identity admittedAt draft draw = (.error e, s)) ∨
    ∃ st, s.timelines.lookup t = some st ∧
      s.identifiedAppendGuards t draft = .ok st.timeline.metadata.prefixLen ∧
      ((∃ record, s.liveIdentity identity.dedupKey admittedAt = some record ∧
        s.appendOrDuplicate t identity admittedAt draft draw = (.ok (retryOutcome record t draft), s)) ∨
      (∃ e, s.liveIdentity identity.dedupKey admittedAt = none ∧
        s.appendOrDuplicate t identity admittedAt draft draw = (.error e, s)) ∨
      ∃ own expiresAt, st.Accepts [own] ∧ own.id = draw.id ∧ own.draft = draft.stamped draw.now ∧
        checkedAppendIdentityExpiresAt admittedAt = .ok expiresAt ∧
        s.appendOrDuplicate t identity admittedAt draft draw =
          (.ok (.appended (shownEvent st own)), s.keyedStore t identity st own expiresAt)) := by
  unfold appendOrDuplicate appendOrDuplicateWithLimit
  rcases after_cases s (s.identifiedAppendGuards t draft) _ with ⟨e, hguards, he⟩ | ⟨n, hguards, he⟩
  · refine .inl ⟨e, hguards, ?_⟩
    rw [he]
    rfl
  rw [he]
  -- the prefix is the last of the guards
  have hpre : s.logicalPrefix t = .ok n := by
    have h := of_check hguards
    replace h := of_check h
    replace h := of_check h
    replace h := of_check h
    exact h
  obtain ⟨st, hst, rfl⟩ : ∃ st, s.timelines.lookup t = some st ∧ st.timeline.metadata.prefixLen = n := by
    rcases hst : s.timelines.lookup t with _ | st
    · simp [logicalPrefix, MemoryStore.timeline, hst] at hpre
    · exact ⟨st, rfl, Except.ok.inj ((logicalPrefix_eq hst).symm.trans hpre)⟩
  refine .inr ⟨st, hst, hguards, ?_⟩
  rcases hlive : s.liveIdentity identity.dedupKey admittedAt with _ | record
  · simp only [Option.any_none, Bool.false_eq_true, if_false]
    rcases appendIdentified_cases hst identity admittedAt draft draw with ⟨e, h⟩ | ⟨own, expiresAt, h1, h2, h3, h4, h⟩
    · refine .inr (.inl ⟨e, trivial, ?_⟩)
      rw [h]
      rfl
    · refine .inr (.inr ⟨own, expiresAt, h1, h2, h3, h4, ?_⟩)
      rw [h]
      rfl
  · exact .inl ⟨record, rfl, rfl⟩

end Piglor.MemoryStore
