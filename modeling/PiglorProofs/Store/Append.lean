/-
Appending Events (memory.rs, pos-core store.rs): the generic append, the keyed append with its
retry table, and the append of committed Events. Whatever the entry point, a Timeline only ever
grows by Events numbered after its head, with their origin, each linked into the chain; a refused
call leaves the store as it was, except that a generic append that runs out of sequence numbers
keeps the Events it had already committed, without their ids.
-/
import PiglorProofs.Store.Committed

namespace Piglor

open Checked List
open KeyRegistry (KeyRegistryStateV1)

/-! ## One Event -/

/-- The draft an Event was built from, with the wall time it was given. -/
def Event.draft (e : Event) : EventDraft :=
  ⟨e.entity, e.eventType, e.payload, e.causationId, e.correlationId, e.schemaVersion, some e.wallTime⟩

/-- The draft with its wall time fixed: its own, or the clock's. -/
def EventDraft.stamped (d : EventDraft) (now : WallTime) : EventDraft :=
  { d with wallTime := some (d.wallTime.getD now) }

namespace TimelineState

/-- Build the next Event and chain head without changing the state. -/
def prepareOneForState (st : TimelineState) (draft : EventDraft) (hasher : Hasher)
    (registry : Option KeyRegistryStateV1) (draw : Draw) : CoreResult (Event × Hash) := do
  MemoryStore.ensurePlaintextPreferenceAllowed registry draft.entity draft.eventType
  let seq := st.timeline.head + 1
  let originLogicalSeq ← MemoryStore.checkedLogicalHead st.timeline.metadata.prefixLen seq
  .ok ({ id := draw.id
         entity := draft.entity
         eventType := draft.eventType
         payload := draft.payload
         wallTime := draft.wallTime.getD draw.now
         seq := seq
         causationId := draft.causationId
         correlationId := draft.correlationId
         schemaVersion := draft.schemaVersion
         signature := none
         signatureIdentity := none
         origin := some ⟨st.timeline.id, originLogicalSeq⟩
         payloadHash := hasher.hashPayload draft.payload },
       hasher.hashEvent st.chainHead draw.id draft.payload)

def commitPreparedToState (st : TimelineState) (event : Event) (chainHead : Hash) : TimelineState :=
  ⟨{ st.timeline with head := event.seq }, st.events ++ [event], chainHead⟩

def appendOneToState (st : TimelineState) (draft : EventDraft) (hasher : Hasher)
    (registry : Option KeyRegistryStateV1) (draw : Draw) : CoreResult (Event × TimelineState) := do
  let (event, chainHead) ← st.prepareOneForState draft hasher registry draw
  .ok (event, st.commitPreparedToState event chainHead)

/-- Append draft after draft, keeping what was appended when one is refused. -/
def appendAllToState (hasher : Hasher) (registry : Option KeyRegistryStateV1) :
    TimelineState → List EventDraft → (Nat → Draw) → CoreResult (List Event) × TimelineState
  | st, [], _ => (.ok [], st)
  | st, draft :: drafts, draw =>
    match st.appendOneToState draft hasher registry (draw 0) with
    | .error e => (.error e, st)
    | .ok (event, st') =>
      let rest := appendAllToState hasher registry st' drafts fun i => draw (i + 1)
      (rest.1.map (event :: ·), rest.2)

/-- The state after Events that continue its chain. -/
def extend (st : TimelineState) (hasher : Hasher) (es : List Event) : TimelineState :=
  ⟨{ st.timeline with head := st.timeline.head + es.length }, st.events ++ es, hasher.chain st.chainHead es⟩

/-- Events a Timeline can grow by: numbered after its head, of its own origin, within `u64`. -/
structure Accepts (st : TimelineState) (es : List Event) : Prop where
  seqs : NumberedFrom Event.seq st.timeline.head es
  origins : ∀ e ∈ es, e.origin = some ⟨st.timeline.metadata.id, st.timeline.metadata.prefixLen + e.seq⟩
  fits : es ≠ [] → st.timeline.metadata.prefixLen + st.timeline.head + es.length ≤ u64Max

@[simp] theorem extend_nil (st : TimelineState) (hasher : Hasher) : st.extend hasher [] = st := by
  simp [extend, Hasher.chain]

theorem extend_append (st : TimelineState) (hasher : Hasher) (es fs : List Event) :
    (st.extend hasher es).extend hasher fs = st.extend hasher (es ++ fs) := by
  simp [extend, Hasher.chain_append, Nat.add_assoc]

theorem Accepts.nil (st : TimelineState) : st.Accepts [] := ⟨trivial, by simp, by simp⟩

variable {st : TimelineState} {hasher : Hasher} {e : Event} {es : List Event} {draft : EventDraft}
  {registry : Option KeyRegistryStateV1} {draw : Draw}

theorem Accepts.cons (h : st.Accepts [e]) (h' : (st.extend hasher [e]).Accepts es) : st.Accepts (e :: es) where
  seqs := ⟨h.seqs.1, h'.seqs⟩
  origins := by
    intro f hf
    rcases mem_cons.mp hf with rfl | hf
    · exact h.origins f mem_cons_self
    · exact h'.origins f hf
  fits := by
    intro _
    have h1 := h.fits (by simp)
    by_cases hes : es = []
    · simpa [hes] using h1
    · have h2 := h'.fits hes
      simp only [extend, length_singleton] at h2
      simp only [length_cons]
      omega

/-- What one appended Event is. -/
theorem appendOneToState_eq_ok {st' : TimelineState}
    (h : st.appendOneToState draft hasher registry draw = .ok (e, st')) :
    st' = st.extend hasher [e] ∧ st.Accepts [e] ∧ e.id = draw.id ∧ e.draft = draft.stamped draw.now ∧
      e.Sealed hasher := by
  obtain ⟨⟨e', c⟩, hprep, hcommit⟩ := bind_eq_ok.mp h
  obtain ⟨-, -, hprep⟩ := bind_eq_ok.mp hprep
  obtain ⟨n, hn, hprep⟩ := bind_eq_ok.mp hprep
  obtain ⟨hfit, rfl⟩ := MemoryStore.checkedLogicalHead_eq_ok.mp hn
  cases hprep; cases hcommit
  refine ⟨rfl, ⟨⟨rfl, trivial⟩, ?_, ?_⟩, rfl, rfl, rfl, rfl⟩
  · intro f hf
    rw [mem_singleton] at hf; subst hf
    rfl
  · intro _
    omega

theorem appendOneToState_ok_iff : (∃ r, st.appendOneToState draft hasher registry draw = .ok r) ↔
      MemoryStore.ensurePlaintextPreferenceAllowed registry draft.entity draft.eventType = .ok () ∧
        st.timeline.metadata.prefixLen + st.timeline.head + 1 ≤ u64Max := by
  unfold appendOneToState prepareOneForState MemoryStore.checkedLogicalHead checkedAdd
  rcases unit_ok_or_error (MemoryStore.ensurePlaintextPreferenceAllowed registry draft.entity draft.eventType)
    with h | ⟨e, h⟩
  · by_cases hfit : st.timeline.metadata.prefixLen + (st.timeline.head + 1) ≤ u64Max
    · simp [h, hfit, Nat.add_assoc]
    · simp [h, hfit, Nat.add_assoc]
  · simp [h]

/-! ## A batch -/

/-- The Events were built from the first drafts, each with its own draw. -/
def Drawn : List Event → List EventDraft → (Nat → Draw) → Prop
  | [], _, _ => True
  | _ :: _, [], _ => False
  | e :: es, d :: ds, draw =>
    e.id = (draw 0).id ∧ e.draft = d.stamped (draw 0).now ∧ Drawn es ds fun i => draw (i + 1)

theorem Drawn.ids : ∀ {es : List Event} {ds : List EventDraft} {draw : Nat → Draw}, Drawn es ds draw →
    es.map Event.id = (range es.length).map (fun i => (draw i).id) ∧ es.length ≤ ds.length
  | [], ds, draw, _ => by simp
  | e :: es, d :: ds, draw, h => by
    obtain ⟨hid, -, hrest⟩ := h
    obtain ⟨hids, hlen⟩ := hrest.ids
    rw [map_cons, hid, hids, length_cons, range_succ_eq_map, map_cons, map_map]
    exact ⟨rfl, by simpa using hlen⟩

theorem Drawn.drafts : ∀ {es : List Event} {ds : List EventDraft} {draw : Nat → Draw}, Drawn es ds draw →
    (∀ d ∈ ds, d.wallTime.isSome) → es.length = ds.length → es.map Event.draft = ds
  | [], ds, _, _, _, hlen => by
    rw [length_nil] at hlen
    rw [map_nil, eq_nil_of_length_eq_zero hlen.symm]
  | e :: es, d :: ds, draw, h, hsome, hlen => by
    obtain ⟨-, hd, hrest⟩ := h
    have ih := hrest.drafts (fun d hd => hsome d (mem_cons_of_mem _ hd)) (by simpa using hlen)
    obtain ⟨w, hw⟩ := Option.isSome_iff_exists.mp (hsome d mem_cons_self)
    have hstamp : d.stamped (draw 0).now = d := by
      unfold EventDraft.stamped
      rw [hw, Option.getD_some, ← hw]
    rw [map_cons, hd, hstamp, ih]

theorem Drawn.mem_draft {ds : List EventDraft} {draw : Nat → Draw} (h : Drawn es ds draw)
    (he : e ∈ es) : ∃ d ∈ ds, e.eventType = d.eventType := by
  induction es generalizing ds draw with
  | nil => cases he
  | cons e₀ es ih =>
    cases ds with
    | nil => cases h
    | cons d ds =>
      obtain ⟨-, hdraft, hrest⟩ := h
      rcases mem_cons.mp he with rfl | he
      · exact ⟨d, mem_cons_self, congrArg EventDraft.eventType hdraft⟩
      · obtain ⟨d', hd', htype⟩ := ih hrest he
        exact ⟨d', mem_cons_of_mem _ hd', htype⟩

/-- What a batch appends: a prefix of the drafts, and all of them unless one is refused. -/
theorem appendAllToState_spec (hasher : Hasher) (registry : Option KeyRegistryStateV1) :
    ∀ (drafts : List EventDraft) (st : TimelineState) (draw : Nat → Draw),
    ∃ es, (appendAllToState hasher registry st drafts draw).2 = st.extend hasher es ∧ st.Accepts es ∧
      Drawn es drafts draw ∧ (∀ e ∈ es, e.Sealed hasher) ∧
      ((appendAllToState hasher registry st drafts draw).1 = .ok es ∧ es.length = drafts.length ∨
        ∃ e, (appendAllToState hasher registry st drafts draw).1 = .error e ∧
          ((∃ d ∈ drafts, MemoryStore.ensurePlaintextPreferenceAllowed registry d.entity d.eventType ≠ .ok ()) ∨
            es.length < drafts.length ∧ u64Max < st.timeline.metadata.prefixLen + st.timeline.head + es.length + 1))
  | [], st, draw => ⟨[], by simp [appendAllToState], .nil st, trivial, by simp, .inl ⟨rfl, rfl⟩⟩
  | d :: drafts, st, draw => by
    unfold appendAllToState
    split
    · rename_i e he
      refine ⟨[], by simp, .nil st, trivial, by simp, .inr ⟨e, rfl, ?_⟩⟩
      -- the first draft is refused: by the key registry, or for want of a sequence
      have hnot : ¬ ∃ r, st.appendOneToState d hasher registry (draw 0) = .ok r := by simp [he]
      rw [appendOneToState_ok_iff, not_and_or] at hnot
      rcases hnot with h | h
      · exact .inl ⟨d, mem_cons_self, h⟩
      · exact .inr ⟨by simp, by simp only [length_nil]; omega⟩
    · rename_i event st' he
      obtain ⟨rfl, hacc, hid, hdraft, hsealed⟩ := appendOneToState_eq_ok he
      obtain ⟨es, hst, haccs, hdrawn, hrest, hres⟩ :=
        appendAllToState_spec hasher registry drafts (st.extend hasher [event]) fun i => draw (i + 1)
      refine ⟨event :: es, ?_, hacc.cons haccs, ⟨hid, hdraft, hdrawn⟩, forall_mem_cons.mpr ⟨hsealed, hrest⟩, ?_⟩
      · rw [hst, extend_append, singleton_append]
      rcases hres with ⟨hok, hlen⟩ | ⟨e, herr, hwhy⟩
      · exact .inl ⟨by simp only [hok, Except.map], by simp [hlen]⟩
      · refine .inr ⟨e, by simp only [herr, Except.map], hwhy.imp ?_ ?_⟩
        · rintro ⟨d', hd', h⟩
          exact ⟨d', mem_cons_of_mem _ hd', h⟩
        · rintro ⟨hlt, hover⟩
          simp only [extend, length_singleton] at hover
          simp only [length_cons]
          omega

end TimelineState

/-! ## The generic append -/

namespace MemoryStore

variable (s : MemoryStore) (timeline : TimelineId)

def setTimeline (state : TimelineState) : MemoryStore :=
  { s with timelines := s.timelines.insert timeline state }

def appendVisible (drafts : List EventDraft) (draw : Nat → Draw) : Effect (List Event) :=
  s.after (do
    let logicalPrefix ← s.logicalPrefix timeline
    -- the complete batch is checked before the first change
    drafts.forM fun d => ensurePlaintextPreferenceAllowed s.keyRegistry d.entity d.eventType
    let state ← s.mutableState timeline
    .ok (logicalPrefix, state)) fun (logicalPrefix, state) =>
  let appended := TimelineState.appendAllToState s.hasher s.keyRegistry state drafts draw
  let s := s.setTimeline timeline appended.2
  match appended.1 with
  -- what was appended before the refused draft stays, and its ids are not registered
  | .error e => (.error e, s)
  | .ok events =>
    (events.mapM (logicalEvent logicalPrefix), { s with eventIds := s.eventIds ∪ (events.map Event.id).toFinset })

/-- The generic append guards, in order, inside the erasure fence. -/
def genericAppendGuards (drafts : List EventDraft) : CoreResult Unit := do
  s.erasureFence timeline
  ensureNonGeographicDrafts drafts timeline
  s.ensureGenericForkAppendIsRejected timeline
  s.ensureGenericTimelineVisibility timeline

def append (drafts : List EventDraft) (draw : Nat → Draw) : Effect (List Event) :=
  s.after (s.genericAppendGuards timeline drafts) fun _ => s.appendVisible timeline drafts draw

/-! ## The keyed append -/

end MemoryStore

inductive AppendOrDuplicateOutcome where
  | appended (event : Event)
  | duplicate (eventId : EventId)
  | conflict
deriving DecidableEq

def retainedContent (event : Event) : RetainedAppendContent :=
  ⟨event.entity, event.eventType, event.payload, event.causationId, event.correlationId, event.schemaVersion⟩

def retainedContentMatches (content : RetainedAppendContent) (draft : EventDraft) : Bool :=
  content.entity == draft.entity && content.eventType == draft.eventType && content.payload == draft.payload &&
    content.causationId == draft.causationId && content.correlationId == draft.correlationId &&
    content.schemaVersion == draft.schemaVersion

namespace MemoryStore

variable (s : MemoryStore) (timeline : TimelineId)

/-- The retry record a keyed append meets: one that has not expired when it is admitted. -/
def liveIdentity (key : AppendDedupKey) (admittedAt : WallTime) : Option AppendIdentityRecord :=
  (s.appendIdentities.lookup key).filter fun record => decide (record.expiresAt > admittedAt)

/-- The answer to a retry: the original Event for the same Timeline and content, else a conflict. -/
def retryOutcome (record : AppendIdentityRecord) (timeline : TimelineId) (draft : EventDraft) :
    AppendOrDuplicateOutcome :=
  if record.timeline ≠ timeline then .conflict
  else if retainedContentMatches record.retainedContent draft then .duplicate record.eventId
  else .conflict

/-- Append the draft and leave its retry record. -/
def appendIdentified (identity : AppendIdentity) (admittedAt : WallTime)
    (draft : EventDraft) (logicalPrefix : Nat) (draw : Draw) : Effect (Option AppendOrDuplicateOutcome) :=
  s.after (do
    let expiresAt ← checkedAppendIdentityExpiresAt admittedAt
    let state ← s.mutableState timeline
    let (event, state) ← state.appendOneToState draft s.hasher s.keyRegistry draw
    .ok (expiresAt, event, state)) fun (expiresAt, event, state) =>
  ((logicalEvent logicalPrefix event).map fun event => some (.appended event),
    { s.setTimeline timeline state with
      eventIds := insert event.id s.eventIds
      appendIdentities := s.appendIdentities.insert identity.dedupKey
        ⟨timeline, identity.scope, event.id, expiresAt, retainedContent event⟩ })

/-- The guards of a keyed append, in order, and the Timeline's inherited prefix. -/
def identifiedAppendGuards (draft : EventDraft) : CoreResult Nat := do
  s.erasureFence timeline
  ensureNonGeographicDraft draft timeline
  s.ensureGenericForkAppendIsRejected timeline
  s.ensureGenericTimelineVisibility timeline
  s.logicalPrefix timeline

/-- `none` when the Timeline already owns `maxOwnedEvents` Events. -/
def appendOrDuplicateWithLimit (identity : AppendIdentity)
    (admittedAt : WallTime) (draft : EventDraft) (maxOwnedEvents : Option Nat) (draw : Draw) :
    Effect (Option AppendOrDuplicateOutcome) :=
  s.after (s.identifiedAppendGuards timeline draft) fun logicalPrefix =>
  match s.liveIdentity identity.dedupKey admittedAt with
  | some record => (.ok (some (retryOutcome record timeline draft)), s)
  | none =>
    if maxOwnedEvents.any fun maximum => (s.timelines.lookup timeline).any fun st => decide (st.timeline.head ≥ maximum)
    then (.ok none, s)
    else s.appendIdentified timeline identity admittedAt draft logicalPrefix draw

def unboundedAppendOutcome : Option AppendOrDuplicateOutcome → CoreResult AppendOrDuplicateOutcome
  | some outcome => .ok outcome
  | none => .error (.storage "unbounded append unexpectedly hit an event limit")

def appendOrDuplicate (identity : AppendIdentity) (admittedAt : WallTime)
    (draft : EventDraft) (draw : Draw) : Effect AppendOrDuplicateOutcome :=
  let effect := s.appendOrDuplicateWithLimit timeline identity admittedAt draft none draw
  (effect.1 >>= unboundedAppendOutcome, effect.2)

/-! ## Committed Events -/

def committedAppendGuards (events : List Event) : CoreResult Unit := do
  s.erasureFence timeline
  ensureNonGeographicEvents events timeline
  s.ensureGenericForkAppendIsRejected timeline
  s.ensureGenericTimelineVisibility timeline

/-- The checked batch, ready to apply, and the state it is applied to. -/
def committedBatch (events : List Event) : CoreResult (TimelineState × List Event) := do
  let state ← s.mutableState timeline
  let ordered ← validateCommittedBatch state.timeline.head events (fun id => decide (id ∈ s.eventIds)) s.hasher
  let ordered ← finalizeCommittedOrigins timeline state.timeline.metadata.prefixLen ordered
  .ok (state, ordered)

def appendCommitted (events : List Event) : Effect Unit :=
  s.after (s.committedAppendGuards timeline events) fun _ =>
  if events.isEmpty then (.ok (), s)
  else s.after (s.committedBatch timeline events) fun (state, ordered) =>
    let head := ordered.foldl (fun _ event => event.seq) state.timeline.head
    let state' : TimelineState :=
      ⟨{ state.timeline with head }, state.events ++ ordered, s.hasher.chain state.chainHead ordered⟩
    (.ok (), { s.setTimeline timeline state' with eventIds := s.eventIds ∪ (ordered.map Event.id).toFinset })

end MemoryStore

end Piglor
