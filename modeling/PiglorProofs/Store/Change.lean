/-
What an operation can do to the Timelines and the EventId index, said once: nothing, add an empty
Timeline, grow one by Events it accepts, or remove one without Forks. Every operation of the store
is a chain of such changes, so an invariant of the Timelines is proved for the four kinds only.
-/
import PiglorProofs.Store.Topology
import PiglorProofs.Store.Admission

namespace Piglor.MemoryStore

open Checked List TimelineState

/-- A new Timeline starts empty: a root from the genesis hash, a Fork from its parent's hash at a
cut within the parent's logical head. -/
structure Born (s : MemoryStore) (t : TimelineId) (st : TimelineState) : Prop where
  id_eq : st.timeline.metadata.id = t
  empty : st.events = []
  head_eq : st.timeline.head = 0
  root : st.timeline.metadata.forkPoint = none → st.chainHead = s.hasher.genesisHash
  fork : ∀ p n, st.timeline.metadata.forkPoint = some (p, n) →
    (∃ h, s.logicalHeadUnchecked p = .ok h ∧ n ≤ h) ∧ s.computeChainHashAt p n = .ok st.chainHead

/-- A change that takes nothing away from the Timelines and the EventId index. A `loose` one may leave
new Events out of the index, as a generic append does that runs out of sequence numbers. -/
inductive Growth (loose : Prop) (s s' : MemoryStore) : Prop where
  | keep (hasher : s'.hasher = s.hasher) (timelines : s'.timelines = s.timelines) (ids : s'.eventIds = s.eventIds)
  | insert {t : TimelineId} {st : TimelineState} (hasher : s'.hasher = s.hasher)
      (fresh : s.timelines.lookup t = none) (timelines : s'.timelines = s.timelines.insert t st)
      (ids : s'.eventIds = s.eventIds) (born : s.Born t st)
  | extend {t : TimelineId} {st : TimelineState} {es : List Event} (hasher : s'.hasher = s.hasher)
      (old : s.timelines.lookup t = some st) (timelines : s'.timelines = s.timelines.insert t (st.extend s.hasher es))
      (ids : s'.eventIds = s.eventIds ∪ (es.map Event.id).toFinset ∨ loose ∧ s'.eventIds = s.eventIds)
      (accepts : st.Accepts es) (nodup : (es.map Event.id).Nodup) (new : ∀ e ∈ es, e.id ∉ s.eventIds)
      (sealed : ∀ e ∈ es, e.Sealed s.hasher)

/-- One change of the Timelines and the EventId index. -/
inductive Change (loose : Prop) (s s' : MemoryStore) : Prop where
  | grow (growth : s.Growth loose s')
  | remove {t : TimelineId} {st : TimelineState} (hasher : s'.hasher = s.hasher)
      (old : s.timelines.lookup t = some st) (leaf : s.hasChildTimeline t = false)
      (timelines : s'.timelines = s.timelines.erase t)
      (ids : s'.eventIds = s.eventIds \ (st.events.map Event.id).toFinset)

/-- Several growths in a row. -/
abbrev Grown (loose : Prop) : MemoryStore → MemoryStore → Prop := Relation.ReflTransGen (Growth loose)

/-- Several changes in a row. -/
abbrev Changes (loose : Prop) : MemoryStore → MemoryStore → Prop := Relation.ReflTransGen (Change loose)

variable {loose : Prop} {s : MemoryStore} {s' : MemoryStore}

theorem Growth.grown (h : s.Growth loose s') : s.Grown loose s' := .single h

theorem Grown.changes (h : s.Grown loose s') : s.Changes loose s' :=
  Relation.ReflTransGen.mono (fun _ _ h => Change.grow h) s s' h

variable {α : Type}

/-- A guarded effect grows the store when the effect does. -/
theorem grown_after {β : Type} {checks : CoreResult β} {effect : β → Effect α}
    (h : ∀ b, checks = .ok b → s.Grown loose (effect b).2) : s.Grown loose (s.after checks effect).2 := by
  rcases after_cases s checks effect with ⟨e, -, he⟩ | ⟨b, hb, he⟩
  · rw [he]
  · rw [he]
    exact h b hb

/-! ## Fresh draws -/

def holdsEvent (s : MemoryStore) (id : EventId) : Bool :=
  s.timelines.any fun _ st => st.events.any fun e => decide (e.id = id)

/-- The drawn EventIds are distinct and not in use. -/
structure FreshEvents (s : MemoryStore) (n : Nat) (draw : Nat → Draw) : Prop where
  unregistered : ∀ i < n, (draw i).id ∉ s.eventIds
  unused : ∀ i < n, s.holdsEvent (draw i).id = false
  distinct : ∀ i < n, ∀ j < n, (draw i).id = (draw j).id → i = j

instance (s : MemoryStore) (n : Nat) (draw : Nat → Draw) : Decidable (s.FreshEvents n draw) :=
  decidable_of_iff ((∀ i < n, (draw i).id ∉ s.eventIds) ∧ (∀ i < n, s.holdsEvent (draw i).id = false) ∧
    ∀ i < n, ∀ j < n, (draw i).id = (draw j).id → i = j)
    ⟨fun h => ⟨h.1, h.2.1, h.2.2⟩, fun h => ⟨h.unregistered, h.unused, h.distinct⟩⟩

variable {draw : Nat → Draw} {t : TimelineId} {st : TimelineState} {events ordered : List Event}
  {n : Nat} {es : List Event} {drafts : List EventDraft}

theorem FreshEvents.nodup (h : s.FreshEvents n draw) {ds : List EventDraft} (hn : ds.length ≤ n)
    (hd : Drawn es ds draw) : (es.map Event.id).Nodup ∧ ∀ e ∈ es, ∃ i < n, e.id = (draw i).id := by
  obtain ⟨hids, hlen⟩ := hd.ids
  constructor
  · rw [hids]
    refine Nodup.map_on ?_ nodup_range
    intro i hi j hj hij
    rw [mem_range] at hi hj
    exact h.distinct i (by omega) j (by omega) hij
  · intro e he
    have hmem : e.id ∈ es.map Event.id := mem_map_of_mem he
    rw [hids] at hmem
    obtain ⟨i, hi, hie⟩ := mem_map.mp hmem
    rw [mem_range] at hi
    exact ⟨i, by omega, hie.symm⟩

/-! ## Appends -/

theorem mutableState_eq_ok (h : s.mutableState t = .ok st) : s.timelines.lookup t = some st := by
  unfold mutableState at h
  split at h
  · cases h; assumption
  · cases h

/-- The sequence numbers suffice for the batch. -/
def HasRoom (s : MemoryStore) (t : TimelineId) (drafts : List EventDraft) : Prop :=
  ∀ st, s.timelines.lookup t = some st → st.timeline.metadata.prefixLen + st.timeline.head + drafts.length ≤ u64Max

instance (s : MemoryStore) (t : TimelineId) (drafts : List EventDraft) : Decidable (s.HasRoom t drafts) :=
  decidable_of_iff ((s.timelines.lookup t).all fun st =>
    decide (st.timeline.metadata.prefixLen + st.timeline.head + drafts.length ≤ u64Max))
    (by unfold HasRoom; cases s.timelines.lookup t <;> simp)

theorem appendVisible_grown (hfresh : s.FreshEvents drafts.length draw)
    (hroom : loose ∨ s.HasRoom t drafts) : s.Grown loose (s.appendVisible t drafts draw).2 := by
  refine grown_after fun ⟨logicalPrefix, st⟩ hchecks => ?_
  obtain ⟨n, -, hchecks⟩ := bind_eq_ok.mp hchecks
  obtain ⟨⟨⟩, hpref, hchecks⟩ := bind_eq_ok.mp hchecks
  obtain ⟨st', hst, hchecks⟩ := bind_eq_ok.mp hchecks
  cases hchecks
  have hold := mutableState_eq_ok hst
  have hpref := forM_eq_ok.mp hpref
  obtain ⟨es, hstate, hacc, hdrawn, hsealed, hres⟩ :=
    appendAllToState_spec s.hasher s.keyRegistry drafts st draw
  obtain ⟨hnodup, hnew⟩ := hfresh.nodup le_rfl hdrawn
  have hnew : ∀ e ∈ es, e.id ∉ s.eventIds := by
    intro e he
    obtain ⟨i, hi, hid⟩ := hnew e he
    exact hid ▸ hfresh.unregistered i hi
  apply Growth.grown
  dsimp only
  rcases hres with ⟨hok, -⟩ | ⟨e, herr, hwhy⟩
  · rw [hok]
    exact .extend rfl hold (by rw [← hstate]; rfl) (.inl rfl) hacc hnodup hnew hsealed
  · rw [herr]
    rcases hwhy with ⟨d, hd, hrefused⟩ | ⟨hlt, hover⟩
    · exact absurd (hpref d hd) hrefused
    rcases hroom with hloose | hroom
    · exact .extend rfl hold (by rw [← hstate]; rfl) (.inr ⟨hloose, rfl⟩) hacc hnodup hnew hsealed
    · have := hroom st hold
      omega

theorem append_grown (hfresh : s.FreshEvents drafts.length draw)
    (hroom : loose ∨ s.HasRoom t drafts) : s.Grown loose (s.append t drafts draw).2 :=
  grown_after fun _ _ => appendVisible_grown hfresh hroom

variable {identity : AppendIdentity} {admittedAt : WallTime} {draft : EventDraft} {logicalPrefix : Nat}

/-- One keyed Event grows its Timeline. -/
theorem appendIdentified_grown {draw : Draw} (hfresh : draw.id ∉ s.eventIds) :
    s.Grown loose (s.appendIdentified t identity admittedAt draft logicalPrefix draw).2 := by
  refine grown_after fun ⟨expiresAt, event, st'⟩ hchecks => ?_
  obtain ⟨n, -, hchecks⟩ := bind_eq_ok.mp hchecks
  obtain ⟨st, hst, hchecks⟩ := bind_eq_ok.mp hchecks
  obtain ⟨⟨event', st''⟩, hone, hchecks⟩ := bind_eq_ok.mp hchecks
  cases hchecks
  obtain ⟨rfl, hacc, hid, -, hsealed⟩ := appendOneToState_eq_ok hone
  refine Growth.grown (.extend rfl (mutableState_eq_ok hst) rfl (.inl ?_) hacc (by simp) ?_ (by simpa using hsealed))
  · rw [map_cons, map_nil, toFinset_cons, toFinset_nil, Finset.union_insert, Finset.union_empty]
  · intro e he
    rw [mem_singleton] at he; subst he
    rwa [hid]

theorem appendOrDuplicateWithLimit_grown {maxOwnedEvents : Option Nat} {draw : Draw} (hfresh : draw.id ∉ s.eventIds) :
    s.Grown loose (s.appendOrDuplicateWithLimit t identity admittedAt draft maxOwnedEvents draw).2 := by
  refine grown_after fun logicalPrefix _ => ?_
  split
  · exact .refl
  · split
    · exact .refl
    · exact appendIdentified_grown hfresh

theorem appendOrDuplicate_grown {draw : Draw}
    (hfresh : draw.id ∉ s.eventIds) : s.Grown loose (s.appendOrDuplicate t identity admittedAt draft draw).2 :=
  appendOrDuplicateWithLimit_grown hfresh

/-- A batch that continues a Timeline in the order `ordered`, as the store checks it. -/
structure BatchContinues (s : MemoryStore) (t : TimelineId) (st : TimelineState) (events ordered : List Event) :
    Prop where
  perm : ordered.Perm events
  seqs : NumberedFrom Event.seq st.timeline.head ordered
  ids : (events.map Event.id).Nodup
  committable : ∀ e ∈ events, Committable (fun id => decide (id ∈ s.eventIds)) s.hasher e
  ownable : ∀ e ∈ events, e.OwnableBy t st.timeline.metadata.prefixLen

theorem mutableState_of_lookup (h : s.timelines.lookup t = some st) : s.mutableState t = .ok st := by
  rw [mutableState, h]

theorem committedBatch_eq_ok : s.committedBatch t events = .ok (st, es) ↔ s.timelines.lookup t = some st ∧
      ∃ ordered, s.BatchContinues t st events ordered ∧
        es = ordered.map (Event.ownedBy t st.timeline.metadata.prefixLen) := by
  constructor
  · intro h
    obtain ⟨st', hst, h⟩ := bind_eq_ok.mp h
    obtain ⟨ordered, hvalid, h⟩ := bind_eq_ok.mp h
    obtain ⟨es', hfinal, h⟩ := bind_eq_ok.mp h
    cases h
    obtain ⟨hperm, hnum, hnodup, hall⟩ := validateCommittedBatch_eq_ok.mp hvalid
    obtain ⟨rfl, hown⟩ := finalizeCommittedOrigins_eq_ok.mp hfinal
    exact ⟨mutableState_eq_ok hst, ordered, ⟨hperm, hnum, hnodup, hall, fun e he => hown e (hperm.mem_iff.mpr he)⟩, rfl⟩
  · rintro ⟨hst, ordered, hb, rfl⟩
    refine bind_eq_ok.mpr ⟨st, mutableState_of_lookup hst, bind_eq_ok.mpr ⟨ordered, ?_, bind_eq_ok.mpr ⟨_, ?_, rfl⟩⟩⟩
    · exact validateCommittedBatch_eq_ok.mpr ⟨hb.perm, hb.seqs, hb.ids, hb.committable⟩
    · exact finalizeCommittedOrigins_eq_ok.mpr ⟨rfl, fun e he => hb.ownable e (hb.perm.mem_iff.mp he)⟩

/-- Events numbered after the head that all fit, fit as a batch. -/
theorem accepts_of_numbered (hnum : NumberedFrom Event.seq st.timeline.head es)
    (hor : ∀ e ∈ es, e.origin = some ⟨st.timeline.metadata.id, st.timeline.metadata.prefixLen + e.seq⟩)
    (hfits : ∀ e ∈ es, st.timeline.metadata.prefixLen + e.seq ≤ u64Max) : st.Accepts es where
  seqs := hnum
  origins := hor
  fits := by
    intro hne
    have hpos := length_pos_of_ne_nil hne
    have hlast := hfits _ (getElem_mem (show es.length - 1 < es.length by omega))
    rw [hnum.apply (es.length - 1) (by omega)] at hlast
    omega

theorem BatchContinues.seqs_owned (n : Nat) (hb : s.BatchContinues t st events ordered) :
    NumberedFrom Event.seq st.timeline.head (ordered.map (Event.ownedBy t n)) :=
  NumberedFrom.map_iff.mpr hb.seqs

section

variable (hb : s.BatchContinues t st events ordered)

include hb

/-- A checked committed batch is one its Timeline accepts, under ids of its own. -/
theorem BatchContinues.accepts (hid : st.timeline.metadata.id = t) :
    st.Accepts (ordered.map (Event.ownedBy t st.timeline.metadata.prefixLen)) := by
  refine accepts_of_numbered (hb.seqs_owned _) ?_ ?_
  · intro e he
    obtain ⟨f, -, rfl⟩ := mem_map.mp he
    rw [hid]
    rfl
  · intro e he
    obtain ⟨f, hf, rfl⟩ := mem_map.mp he
    exact (hb.ownable f (hb.perm.mem_iff.mp hf)).1

theorem BatchContinues.nodup :
    ((ordered.map (Event.ownedBy t n)).map Event.id).Nodup := by
  rw [map_map]
  exact (hb.perm.map Event.id).nodup_iff.mpr hb.ids

theorem BatchContinues.new :
    ∀ e ∈ ordered.map (Event.ownedBy t n), e.id ∉ s.eventIds := by
  intro e he
  obtain ⟨f, hf, rfl⟩ := mem_map.mp he
  exact of_decide_eq_false (hb.committable f (hb.perm.mem_iff.mp hf)).unused

theorem BatchContinues.sealed :
    ∀ e ∈ ordered.map (Event.ownedBy t n), e.Sealed s.hasher := by
  intro e he
  obtain ⟨f, hf, rfl⟩ := mem_map.mp he
  have hsealed := (hb.committable f (hb.perm.mem_iff.mp hf)).toSealed
  exact ⟨hsealed.signature, hsealed.payloadHash⟩

end

theorem appendCommitted_grown (hid : ∀ st, s.timelines.lookup t = some st → st.timeline.metadata.id = t) :
    s.Grown loose (s.appendCommitted t events).2 := by
  refine grown_after fun _ _ => ?_
  split
  · exact .refl
  refine grown_after fun ⟨st, es⟩ hbatch => ?_
  obtain ⟨hold, ordered, hb, rfl⟩ := committedBatch_eq_ok.mp hbatch
  have hacc := hb.accepts (hid st hold)
  refine Growth.grown (.extend rfl hold ?_ (.inl rfl) hacc hb.nodup hb.new hb.sealed)
  simp only [setTimeline, extend, hacc.seqs.foldl_last]

/-! ## Topology -/

variable {name : String}

theorem createTimeline_grown (hfresh : s.timelines.lookup t = none) : s.Grown loose (s.createTimeline name t).2 :=
  grown_after fun _ _ => Growth.grown
    (.insert rfl hfresh rfl rfl ⟨rfl, rfl, rfl, fun _ => rfl, fun _ _ h => by cases h⟩)

variable {p : TimelineId} {hash : Hash} {metadata : TimelineMeta} {n : Seq}

theorem forkHash_ok (h : s.forkHash p n = .ok hash) :
    (∃ head, s.logicalHeadUnchecked p = .ok head ∧ n ≤ head) ∧ s.computeChainHashAt p n = .ok hash := by
  obtain ⟨head, hhead, h⟩ := bind_eq_ok.mp h
  split_ifs at h
  rename_i hle
  exact ⟨⟨head, hhead, Nat.not_lt.mp hle⟩, h⟩

@[simp] theorem forkMeta_id (p : TimelineId) (n : Seq) (name : String) (t : TimelineId) :
    (s.forkMeta p n name t).id = t := by
  unfold forkMeta
  split <;> rfl

@[simp] theorem forkMeta_forkPoint (p : TimelineId) (n : Seq) (name : String) (t : TimelineId) :
    (s.forkMeta p n name t).forkPoint = some (p, n) := by
  unfold forkMeta
  split <;> rfl

theorem born_forked (h : s.forkHash p n = .ok hash) :
    s.Born t (new (Timeline.new (s.forkMeta p n name t)) hash) := by
  have hfp : (s.forkMeta p n name t).forkPoint = some (p, n) := forkMeta_forkPoint ..
  refine ⟨forkMeta_id .., rfl, rfl, fun hnone => ?_, fun q m hsome => ?_⟩
  · rw [show (s.forkMeta p n name t).forkPoint = none from hnone] at hfp
    cases hfp
  · rw [show (s.forkMeta p n name t).forkPoint = some (q, m) from hsome] at hfp
    cases hfp
    exact forkHash_ok h

theorem fork_grown (hfresh : s.timelines.lookup t = none) : s.Grown loose (s.fork p n name t).2 := by
  refine grown_after fun hash hchecks => ?_
  replace hchecks := of_check hchecks
  replace hchecks := of_check hchecks
  have hhash := of_check hchecks
  exact Growth.grown (.insert rfl hfresh rfl rfl (born_forked hhash))

theorem initialHash_ok (h : s.initialHash metadata = .ok hash) :
    s.Born metadata.id (new (Timeline.new metadata) hash) := by
  obtain ⟨id, mode, name, owner, forkPoint⟩ := metadata
  cases forkPoint with
  | none =>
    cases h
    exact ⟨rfl, rfl, rfl, fun _ => rfl, fun _ _ h => by cases h⟩
  | some cut =>
    replace h := of_check h
    replace h := of_check h
    refine ⟨rfl, rfl, rfl, fun h => (by cases h), fun q m hq => ?_⟩
    cases hq
    exact forkHash_ok h

theorem createTimelineWithMeta_cases (metadata : TimelineMeta) :
    (∃ e, s.createTimelineWithMeta metadata = (.error e, s)) ∨
    ∃ hash, s.timelines.lookup metadata.id = none ∧
      s.Born metadata.id (new (Timeline.new metadata) hash) ∧
      s.createTimelineWithMeta metadata = (.ok (Timeline.new metadata),
        s.setTimeline metadata.id (new (Timeline.new metadata) hash)) := by
  rcases after_cases s _ _ with ⟨e, -, he⟩ | ⟨hash, hchecks, he⟩
  · exact .inl ⟨e, he⟩
  · replace hchecks := of_check hchecks
    obtain ⟨hash', hhash, hchecks⟩ := bind_eq_ok.mp hchecks
    split_ifs at hchecks
    rename_i hnone
    cases hchecks
    exact .inr ⟨hash, by simpa using hnone, initialHash_ok hhash, he⟩

/-- Deleting refuses, or removes a stored Timeline without Forks. -/
theorem deleteTimeline_cases (t : TimelineId) : (∃ e, s.deleteTimeline t = (.error e, s)) ∨
    ∃ st, s.timelines.lookup t = some st ∧ s.hasChildTimeline t = false ∧
      s.deleteTimeline t = (.ok (), s.forgetTimeline t st) := by
  rcases after_cases s _ _ with ⟨e, -, he⟩ | ⟨st, hchecks, he⟩
  · exact .inl ⟨e, he⟩
  · replace hchecks := of_check hchecks
    replace hchecks := of_check hchecks
    obtain ⟨⟨⟩, hdel, hst⟩ := bind_eq_ok.mp hchecks
    unfold ensureTimelineDeletable at hdel
    split at hdel
    · cases hdel
    · rename_i hleaf
      exact .inr ⟨st, mutableState_eq_ok hst, by simpa using hleaf, he⟩

theorem deleteTimeline_changes : s.Changes loose (s.deleteTimeline t).2 := by
  rcases s.deleteTimeline_cases t with ⟨e, he⟩ | ⟨st, hst, hleaf, he⟩
  · rw [he]
  · rw [he]
    exact .single (.remove rfl hst hleaf rfl rfl)

/-- A rolled back import leaves what deleting its Timeline leaves. -/
theorem rollbackImport_snd (t : TimelineId) (e : CoreError) :
    (s.rollbackImport t e : Effect α).2 = (s.deleteTimeline t).2 := by
  unfold rollbackImport
  split <;> rename_i heq <;> rw [heq]

theorem finishImport_snd (t : TimelineId) :
    (s.finishImport t).2 = s ∨ (s.finishImport t).2 = (s.deleteTimeline t).2 := by
  unfold finishImport
  split
  · exact .inl rfl
  · exact .inr (rollbackImport_snd _ _)
  · exact .inr (rollbackImport_snd _ _)

/-- Only the Timelines and the EventId index differ. -/
def Frame (s s' : MemoryStore) : Prop := s' = { s with timelines := s'.timelines, eventIds := s'.eventIds }

theorem Frame.trans {s'' : MemoryStore} (h : s.Frame s') (h' : s'.Frame s'') : s.Frame s'' := by
  unfold Frame at *
  rw [h', h]

theorem frame_after {β : Type} {checks : CoreResult β} {effect : β → Effect α}
    (h : ∀ b, s.Frame (effect b).2) : s.Frame (s.after checks effect).2 := by
  rcases after_cases s checks effect with ⟨e, -, he⟩ | ⟨b, -, he⟩
  · rw [he]
    rfl
  · rw [he]
    exact h b

theorem append_frame (t : TimelineId) (drafts : List EventDraft) (draw : Nat → Draw) :
    s.Frame (s.append t drafts draw).2 := by
  refine frame_after fun _ => frame_after fun _ => ?_
  dsimp only
  split <;> rfl

theorem appendCommitted_frame (t : TimelineId) (events : List Event) : s.Frame (s.appendCommitted t events).2 := by
  refine frame_after fun _ => ?_
  split
  · rfl
  · exact frame_after fun _ => rfl

theorem createTimeline_frame (name : String) (t : TimelineId) : s.Frame (s.createTimeline name t).2 :=
  frame_after fun _ => rfl

theorem fork_frame (p : TimelineId) (n : Seq) (name : String) (t : TimelineId) : s.Frame (s.fork p n name t).2 :=
  frame_after fun _ => rfl

theorem createTimelineWithMeta_frame (metadata : TimelineMeta) : s.Frame (s.createTimelineWithMeta metadata).2 :=
  frame_after fun _ => rfl

/-- An import grows the store by its Timeline, and may delete it again. -/
theorem importCommitted_cases (loose : Prop) (metadata : TimelineMeta) (events : List Event) :
    ∃ s', s.Grown loose s' ∧ s.Frame s' ∧ ((s.importCommitted metadata events).2 = s' ∨
      ∃ t, (s.importCommitted metadata events).2 = (s'.deleteTimeline t).2) := by
  unfold importCommitted
  rcases after_cases s _ _ with ⟨e, -, he⟩ | ⟨_, -, he⟩
  · exact ⟨s, .refl, rfl, .inl (by rw [he])⟩
  rw [he]
  rcases s.createTimelineWithMeta_cases metadata with ⟨e, he⟩ | ⟨hash, hnone, hborn, he⟩
  · exact ⟨s, .refl, rfl, .inl (by rw [he])⟩
  rw [he]
  dsimp only
  generalize hcreated : s.setTimeline metadata.id (new (Timeline.new metadata) hash) = created
  have hcreate : s.Grown loose created := by
    subst hcreated
    exact .single (.insert rfl hnone rfl rfl hborn)
  have hframe : s.Frame created := by
    subst hcreated
    rfl
  split
  · exact ⟨created, hcreate, hframe, .inr ⟨_, rollbackImport_snd _ _⟩⟩
  · have happend : created.Grown loose (created.appendCommitted metadata.id events).2 := by
      subst hcreated
      refine appendCommitted_grown fun st hst => ?_
      rw [setTimeline, Finmap.lookup_insert] at hst
      cases hst
      rfl
    have happendFrame := hframe.trans (created.appendCommitted_frame metadata.id events)
    split
    · rename_i s' heq
      rw [heq] at happend happendFrame
      exact ⟨s', hcreate.trans happend, happendFrame, .inr ⟨_, rollbackImport_snd _ _⟩⟩
    · rename_i s' heq
      rw [heq] at happend happendFrame
      rcases s'.finishImport_snd metadata.id with h | h
      · exact ⟨s', hcreate.trans happend, happendFrame, .inl h⟩
      · exact ⟨s', hcreate.trans happend, happendFrame, .inr ⟨_, h⟩⟩

theorem importCommitted_changes : s.Changes loose (s.importCommitted metadata events).2 := by
  obtain ⟨s', hgrown, -, h | ⟨t, h⟩⟩ := s.importCommitted_cases loose metadata events
  · rw [h]
    exact hgrown.changes
  · rw [h]
    exact hgrown.changes.trans deleteTimeline_changes

/-! ## Admitted batches -/

/-- Publishing a fence is refused, or records it. -/
theorem setPipelineAdmissionFence_cases (t : TimelineId) (fence : PipelineAdmissionFenceV1) :
    (∃ e, s.setPipelineAdmissionFence t fence = (.error e, s)) ∨
    s.setPipelineAdmissionFence t fence =
      (.ok (), { s with pipelineAdmissionFences := s.pipelineAdmissionFences.insert t fence }) := by
  rcases after_cases s _ _ with ⟨e, -, he⟩ | ⟨_, -, he⟩
  · exact .inl ⟨e, he⟩
  · exact .inr he

variable {basis : PipelineAdmissionBasisV1}

/-- What a staged batch is. -/
theorem stageBatch_ok {now : WallTime} {batch : StagedBatch}
    (h : s.stageBatch t basis now logicalPrefix draw = .ok batch) :
    ∃ st, s.timelines.lookup t = some st ∧ st.Accepts batch.committed ∧
      Drawn batch.committed basis.batch.drafts draw ∧ (∀ e ∈ batch.committed, e.Sealed s.hasher) ∧
      batch.committed.length = basis.batch.drafts.length ∧ batch.staged = st.extend s.hasher batch.committed ∧
      batch.firstLocalSeq = st.timeline.head + 1 ∧
      ∃ events, batch.committed.mapM (logicalEvent logicalPrefix) = .ok events ∧
        committedPipelineReceipt s.digests basis t events = .ok batch.receipt := by
  obtain ⟨st, hst, h⟩ := bind_eq_ok.mp h
  obtain ⟨committed, hcommitted, h⟩ := bind_eq_ok.mp h
  obtain ⟨events, hevents, h⟩ := bind_eq_ok.mp h
  obtain ⟨receipt, hreceipt, h⟩ := bind_eq_ok.mp h
  obtain ⟨expiresAt, -, h⟩ := bind_eq_ok.mp h
  cases h
  obtain ⟨es, hstate, hacc, hdrawn, hsealed, ⟨hok, hlen⟩ | ⟨e, herr, -⟩⟩ :=
    appendAllToState_spec s.hasher s.keyRegistry basis.batch.drafts st draw
  · rw [hok] at hcommitted
    cases hcommitted
    exact ⟨st, mutableState_eq_ok hst, hacc, hdrawn, hsealed, hlen, hstate, rfl, events, hevents, hreceipt⟩
  · rw [herr] at hcommitted
    cases hcommitted

theorem recoverPipelineReceipt_ne_committed (t : TimelineId) (basis : PipelineAdmissionBasisV1)
    (record : PipelineReceiptRecordV1) (receipt : PipelineCommitReceiptV1) :
    s.recoverPipelineReceipt t basis record ≠ .ok (.committed receipt) := by
  intro h
  unfold recoverPipelineReceipt at h
  split at h
  · cases h
  · obtain ⟨_, -, h⟩ := bind_eq_ok.mp h
    obtain ⟨_, -, h⟩ := bind_eq_ok.mp h
    cases h

theorem admitPipelineBatch_cases (basis : PipelineAdmissionBasisV1) (clock : CoreResult WallTime)
    (planned : CoreResult PlannedTickV1) (draw : Nat → Draw) :
    (∃ result, (∀ receipt, result ≠ .ok (.committed receipt)) ∧
      s.admitPipelineBatch basis clock planned draw = (result, s)) ∨
    ∃ now logicalPrefix persisted nextFence install batch,
      s.admissionGuards basis.attempt.observation.timelineId clock = .ok now ∧
      s.liveReceipt basis.attempt.idempotency.dedupKey now = none ∧
      s.pipelinePersistedState basis.attempt.observation.timelineId = .ok (logicalPrefix, persisted) ∧
      evaluatePipelineAdmission s.digests basis persisted s.authorityState = .ok nextFence ∧
      s.stageBatch basis.attempt.observation.timelineId basis now logicalPrefix draw = .ok batch ∧
      s.admitPipelineBatch basis clock planned draw = (.ok (.committed batch.receipt),
        s.installBatch basis.attempt.observation.timelineId basis nextFence install batch) := by
  unfold admitPipelineBatch
  rcases after_cases s _ _ with ⟨e, -, he⟩ | ⟨now, hnow, he⟩
  · exact .inl ⟨_, by simp, he⟩
  rw [he]
  split
  · exact .inl ⟨_, recoverPipelineReceipt_ne_committed _ _ _, rfl⟩
  rename_i hlive
  unfold commitPipelineBatch
  rcases after_cases s (s.pipelinePersistedState basis.attempt.observation.timelineId) _
    with ⟨e, -, he⟩ | ⟨⟨logicalPrefix, persisted⟩, hpersisted, he⟩
  · exact .inl ⟨_, by simp, he⟩
  rw [he]
  dsimp only
  split
  · rename_i outcome hrejected
    refine .inl ⟨_, fun receipt h => ?_, rfl⟩
    rw [Except.ok.inj h] at hrejected
    exact evaluatePipelineAdmission_error receipt hrejected
  rename_i nextFence hfence
  rcases after_cases s _ _ with ⟨e, -, he⟩ | ⟨plan, -, he⟩
  · exact .inl ⟨_, by simp, he⟩
  rw [he]
  cases plan with
  | refused refusal => exact .inl ⟨_, by cases refusal <;> simp [TickRefusalV1.outcome], rfl⟩
  | install install =>
    rcases after_cases s _ _ with ⟨e, -, he⟩ | ⟨batch, hbatch, he⟩
    · exact .inl ⟨_, by simp, he⟩
    · exact .inr ⟨now, logicalPrefix, persisted, nextFence, install, batch, hnow, hlive, hpersisted, hfence, hbatch, he⟩

theorem admitPipelineBatch_grown {clock : CoreResult WallTime}
    {planned : CoreResult PlannedTickV1} (hfresh : s.FreshEvents basis.batch.drafts.length draw) :
    s.Grown loose (s.admitPipelineBatch basis clock planned draw).2 := by
  rcases s.admitPipelineBatch_cases basis clock planned draw with
    ⟨_, -, he⟩ | ⟨_, _, _, _, _, batch, -, -, -, -, hbatch, he⟩
  · rw [he]
  · rw [he]
    obtain ⟨st, hst, hacc, hdrawn, hsealed, -, hstaged, -⟩ := stageBatch_ok hbatch
    obtain ⟨hnodup, hnew⟩ := hfresh.nodup le_rfl hdrawn
    refine Growth.grown (.extend rfl hst (by rw [← hstaged]; rfl) (.inl rfl) hacc hnodup ?_ hsealed)
    intro e hmem
    obtain ⟨i, hi, hid⟩ := hnew e hmem
    exact hid ▸ hfresh.unregistered i hi

end Piglor.MemoryStore
