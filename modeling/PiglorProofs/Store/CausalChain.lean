/-
The causal chain of an Event (`causal_chain` of pos-query `traversal.rs`): the walk back along the causes of
the Events of a Timeline. It keeps no set of visited Events, and no import checks causes, so it ends exactly
where no Event among the causes is its own; a run whose calls add Events that name only earlier ones keeps it so.
-/
import PiglorProofs.Store.LogicalImport

namespace Piglor

open Checked List Relation

/-- `HashMap::collect` by id: of Events with one id the last stays. -/
def eventIndex (all : List Event) (id : EventId) : Option Event := all.reverse.find? fun e => decide (e.id = id)

/-- The loop over the causes, `none` while it is still walking. -/
def causalWalk (index : EventId → Option Event) : Nat → Option EventId → List Event → Option (List Event)
  | _, none, chain => some chain
  | 0, some _, _ => none
  | fuel + 1, some id, chain => match index id with
    | some event => causalWalk index fuel event.causationId (chain ++ [event])
    -- the cause is not on this Timeline
    | none => some chain

def MemoryStore.causalChain (s : MemoryStore) (fuel : Nat) (timeline : TimelineId) (eventId : EventId) :
    CoreResult (Option (List Event)) := do
  let all ← s.read timeline .all
  if (eventIndex all eventId).isNone then .ok (some [])
  else .ok ((causalWalk (eventIndex all) fuel (some eventId) []).map reverse)

/-- An Event of the index and the cause it names. -/
def Causes (index : EventId → Option Event) (id cause : EventId) : Prop :=
  ∃ event, index id = some event ∧ event.causationId = some cause

/-- A chain from a root cause on the Timeline to an Event. -/
structure CausalChain (all : List Event) (eventId : EventId) (chain : List Event) : Prop where
  onTimeline : ∀ event ∈ chain, event ∈ all
  distinct : (chain.map Event.id).Nodup
  causes : chain.IsChain fun cause event => event.causationId = some cause.id
  last : chain.getLast?.map Event.id = some eventId
  root : ∀ event ∈ chain.head?, ∀ cause ∈ event.causationId, ∀ other ∈ all, other.id ≠ cause

variable {all : List Event} {index : EventId → Option Event} {id : EventId} {event : Event}

theorem mem_of_eventIndex (h : eventIndex all id = some event) : event ∈ all ∧ event.id = id :=
  ⟨mem_reverse.mp (mem_of_find?_eq_some h), by simpa using find?_some h⟩

theorem eventIndex_eq_none : eventIndex all id = none ↔ ∀ event ∈ all, event.id ≠ id := by
  simp [eventIndex, find?_eq_none]

theorem exists_eventIndex (h : ∃ event ∈ all, event.id = id) : ∃ event, eventIndex all id = some event := by
  rw [← Option.ne_none_iff_exists', Ne, eventIndex_eq_none]
  simpa using h

/-- A walk from where a cycle can be reached never ends. -/
theorem walking_of_cycle {x : EventId} (hcycle : TransGen (Causes index) x x) :
    ∀ (fuel : Nat) {id : EventId} (chain : List Event), ReflTransGen (Causes index) id x →
      causalWalk index fuel (some id) chain = none
  | 0, _, _, _ => rfl
  | fuel + 1, id, chain, hid => by
    obtain ⟨cause, ⟨event, hevent, hcause⟩, hx⟩ : ∃ cause, Causes index id cause ∧ ReflTransGen (Causes index) cause x := by
      rcases hid.cases_head with rfl | hstep
      · exact TransGen.head'_iff.mp hcycle
      · exact hstep
    rw [causalWalk, hevent]
    dsimp only
    rw [hcause]
    exact walking_of_cycle hcycle fuel _ hx

/-- What a walk goes through: to the end, or as many Events as it had fuel. -/
theorem causalWalk_spec : ∀ (fuel : Nat) (id : EventId) (chain : List Event), ∃ events,
    (∀ event ∈ events, eventIndex all event.id = some event) ∧
      events.IsChain (fun event cause => event.causationId = some cause.id) ∧
      events.head? = (if fuel = 0 then none else eventIndex all id) ∧
      (causalWalk (eventIndex all) fuel (some id) chain = some (chain ++ events) ∧
          (∀ event ∈ events.getLast?, ∀ cause ∈ event.causationId, eventIndex all cause = none) ∨
        causalWalk (eventIndex all) fuel (some id) chain = none ∧ events.length = fuel)
  | 0, _, _ => ⟨[], by simp, .nil, rfl, .inr ⟨rfl, rfl⟩⟩
  | fuel + 1, id, chain => by
    cases hevent : eventIndex all id with
    | none => exact ⟨[], by simp, .nil, rfl, .inl ⟨by simp [causalWalk, hevent], by simp⟩⟩
    | some event =>
      obtain ⟨-, rfl⟩ := mem_of_eventIndex hevent
      have hwalk : causalWalk (eventIndex all) (fuel + 1) (some event.id) chain =
          causalWalk (eventIndex all) fuel event.causationId (chain ++ [event]) := by rw [causalWalk, hevent]
      rw [hwalk]
      cases hcause : event.causationId with
      | none => exact ⟨[event], by simpa, .singleton event, rfl, .inl ⟨by simp [causalWalk], by simp [hcause]⟩⟩
      | some cause =>
        obtain ⟨events, hindex, hchain, hhead, hends⟩ := causalWalk_spec fuel cause (chain ++ [event])
        rw [append_assoc] at hends
        refine ⟨event :: events, forall_mem_cons.mpr ⟨hevent, hindex⟩, ?_, rfl, ?_⟩
        · refine isChain_cons.mpr ⟨fun first hfirst => ?_, hchain⟩
          rw [hhead] at hfirst
          split_ifs at hfirst
          · cases hfirst
          · rw [hcause, (mem_of_eventIndex hfirst).2]
        · refine hends.imp (fun hends => ⟨hends.1, ?_⟩) fun hwalking => ⟨hwalking.1, congrArg (· + 1) hwalking.2⟩
          cases events with
          | nil =>
            cases fuel with
            | zero => cases hends.1
            | succ fuel => simpa [hcause] using hhead.symm
          | cons first rest => simpa using hends.2

/-- Events along causes that do not return to themselves are different. -/
theorem nodup_of_causes {events : List Event}
    (hacyclic : ∀ x, ReflTransGen (Causes (eventIndex all)) id x → ¬ TransGen (Causes (eventIndex all)) x x)
    (hindex : ∀ event ∈ events, eventIndex all event.id = some event)
    (hchain : events.IsChain fun event cause => event.causationId = some cause.id)
    (hhead : events.head? = eventIndex all id) : (events.map Event.id).Nodup := by
  have hids : (events.map Event.id).Pairwise (TransGen (Causes (eventIndex all))) := by
    refine ((isChain_map _).mpr ?_).pairwise
    exact hchain.imp_of_mem_imp fun event cause hevent _ hcause => .single ⟨event, hindex event hevent, hcause⟩
  refine hids.imp_of_mem fun {a b} ha _ hab heq => ?_
  subst heq
  refine hacyclic a ?_ hab
  cases events with
  | nil => cases ha
  | cons first rest =>
    obtain ⟨-, rfl⟩ := mem_of_eventIndex hhead.symm
    rcases mem_cons.mp ha with rfl | ha
    · exact .refl
    · exact (rel_of_pairwise_cons hids ha).to_reflTransGen

namespace MemoryStore

variable {s : MemoryStore} {timeline : TimelineId}

theorem causalChain_eq (hread : s.read timeline .all = .ok all)
    (hstart : eventIndex all id = some event) (fuel : Nat) :
    s.causalChain fuel timeline id = .ok ((causalWalk (eventIndex all) fuel (some id) []).map reverse) := by
  rw [causalChain, hread, ok_bind, hstart]
  rfl

/-- A walk along causes none of which is its own ends with their chain. -/
theorem causalChain_of_acyclic (hread : s.read timeline .all = .ok all) (hstart : eventIndex all id = some event)
    (hacyclic : ∀ x, ReflTransGen (Causes (eventIndex all)) id x → ¬ TransGen (Causes (eventIndex all)) x x) :
    ∃ fuel chain, s.causalChain fuel timeline id = .ok (some chain) ∧ CausalChain all id chain := by
  obtain ⟨events, hindex, hcauses, hhead, hends⟩ := causalWalk_spec (all.length + 1) id []
  rw [if_neg (Nat.succ_ne_zero _)] at hhead
  have hnodup := nodup_of_causes hacyclic hindex hcauses hhead
  have hmem {event : Event} (hevent : event ∈ events) : event ∈ all := (mem_of_eventIndex (hindex event hevent)).1
  obtain ⟨hends, hlast⟩ : _ ∧ _ := hends.resolve_right fun hwalking => by
    have hle := (hnodup.subperm (map_subset Event.id fun event => hmem)).length_le
    rw [length_map, length_map] at hle
    omega
  refine ⟨all.length + 1, events.reverse, by rw [causalChain_eq hread hstart, hends]; rfl, ?_⟩
  constructor
  · exact fun event hevent => hmem (mem_reverse.mp hevent)
  · rw [map_reverse, nodup_reverse]
    exact hnodup
  · rw [isChain_reverse]
    exact hcauses
  · rw [getLast?_reverse, hhead, hstart]
    exact congrArg some (mem_of_eventIndex hstart).2
  · rw [head?_reverse]
    intro event hevent cause hcause
    exact eventIndex_eq_none.mp (hlast event hevent cause hcause)

/-- The Event at a position names, if any, an Event before it as its cause. -/
def NamesBefore (events : List Event) (i : Nat) : Prop :=
  ∀ cause, (events.map Event.causationId)[i]? = some (some cause) → cause ∈ (events.map Event.id).take i

/-- Along causes that come first, positions go down. -/
theorem acyclic_of_namesBefore (hnodup : (all.map Event.id).Nodup) (hfirst : ∀ i, NamesBefore all i) (x : EventId) :
    ¬ TransGen (Causes (eventIndex all)) x x := by
  let position (id : EventId) : Nat := (all.map Event.id).idxOf id
  have hstep {x y : EventId} (h : Causes (eventIndex all) x y) : position y < position x := by
    obtain ⟨event, hevent, hcause⟩ := h
    obtain ⟨hmem, rfl⟩ := mem_of_eventIndex hevent
    obtain ⟨i, hi, rfl⟩ := getElem_of_mem hmem
    obtain ⟨j, hj, rfl⟩ := mem_take_iff_getElem.mp (hfirst i y (by simp [hi, hcause]))
    have hx := hnodup.idxOf_getElem i (by rwa [length_map])
    rw [getElem_map] at hx
    dsimp only [position]
    rw [hnodup.idxOf_getElem, hx]
    exact lt_of_lt_of_le hj (Nat.min_le_left _ _)
  have hlt {y : EventId} (h : TransGen (Causes (eventIndex all)) x y) : position y < position x := by
    induction h with
    | single h => exact hstep h
    | tail _ h ih => exact (hstep h).trans ih
  exact fun hcycle => (hlt hcycle).false

/-- The chain of an Event of a readable Timeline ends, in the order of its causes, exactly when no Event among its
causes is a cause of its own. -/
theorem causal_chain_ends_iff (s : MemoryStore) (timeline : TimelineId) (all : List Event) (eventId : EventId)
    (readable : s.read timeline .all = .ok all) (onTimeline : ∃ event ∈ all, event.id = eventId) :
    (∃ fuel chain, s.causalChain fuel timeline eventId = .ok (some chain) ∧ CausalChain all eventId chain) ↔
      ∀ x, ReflTransGen (Causes (eventIndex all)) eventId x → ¬ TransGen (Causes (eventIndex all)) x x := by
  obtain ⟨start, hstart⟩ := exists_eventIndex onTimeline
  refine ⟨?_, causalChain_of_acyclic readable hstart⟩
  rintro ⟨fuel, chain, hends, -⟩ x hx hcycle
  rw [causalChain_eq readable hstart, walking_of_cycle hcycle fuel [] hx] at hends
  cases hends

/-- A Timeline whose one Event, imported, names itself as its cause. -/
def selfCaused : MemoryStore :=
  (blankStore.exec (.createTimeline "note" ⟨1⟩)).exec (.appendCommitted ⟨1⟩ [exportedEvent "note" ⟨2⟩ (some ⟨2⟩)])

theorem selfCaused_walks_for_ever : Reachable Fresh selfCaused ∧
    ∀ fuel, selfCaused.causalChain fuel ⟨1⟩ ⟨2⟩ = .ok none := by
  refine ⟨.step (.step (.blank .empty) (by decide)) trivial, fun fuel => ?_⟩
  obtain ⟨all, hread, event, hevent, hcause⟩ : ∃ all, selfCaused.read ⟨1⟩ .all = .ok all ∧
      ∃ event, eventIndex all ⟨2⟩ = some event ∧ event.causationId = some ⟨2⟩ := ⟨_, rfl, _, rfl, rfl⟩
  rw [causalChain_eq hread hevent, walking_of_cycle (.single ⟨event, hevent, hcause⟩) fuel [] .refl]
  rfl

/-- A Timeline with an imported Event and one that names it as its cause. -/
def answered : MemoryStore :=
  blankStore.run [.createTimeline "note" ⟨1⟩, .appendCommitted ⟨1⟩ [exportedEvent "note" ⟨2⟩ none,
    { exportedEvent "note" ⟨3⟩ (some ⟨2⟩) with seq := 2 }]]

theorem namesBefore_pair (hids : all.map Event.id = [⟨2⟩, ⟨3⟩]) (hcauses : all.map Event.causationId = [none, some ⟨2⟩])
    (i : Nat) : NamesBefore all i := by
  rw [NamesBefore, hids, hcauses]
  rcases i with _ | _ | i <;> rintro cause h
  · cases h
  · cases h
    exact mem_cons_self
  · cases h

theorem answered_has_chain :
    (∃ all, answered.read ⟨1⟩ .all = .ok all ∧ ∃ fuel chain, answered.causalChain fuel ⟨1⟩ ⟨3⟩ = .ok (some chain) ∧
      CausalChain all ⟨3⟩ chain) ∧
    (∃ chain, answered.causalChain 2 ⟨1⟩ ⟨3⟩ = .ok (some chain) ∧ chain.map Event.id = [⟨2⟩, ⟨3⟩]) ∧
    ∃ all, selfCaused.read ⟨1⟩ .all = .ok all ∧
      ¬ ∃ fuel chain, selfCaused.causalChain fuel ⟨1⟩ ⟨2⟩ = .ok (some chain) ∧ CausalChain all ⟨2⟩ chain := by
  refine ⟨⟨_, rfl, ?_⟩, ⟨_, rfl, rfl⟩, _, rfl, fun h => ?_⟩
  · refine (causal_chain_ends_iff answered ⟨1⟩ _ ⟨3⟩ rfl ⟨_, mem_cons_of_mem _ mem_cons_self, rfl⟩).mpr fun x _ => ?_
    exact acyclic_of_namesBefore (by decide) (namesBefore_pair rfl rfl) x
  · have hacyclic := (causal_chain_ends_iff selfCaused ⟨1⟩ _ ⟨2⟩ rfl ⟨_, mem_cons_self, rfl⟩).mp h
    exact hacyclic ⟨2⟩ .refl (.single ⟨_, rfl, rfl⟩)

/-! ## Runs -/

open CowForest

/-- A sane call that adds only Events which name, as causes, Events before them on their Timeline. -/
def NamesEarlier (s : MemoryStore) (c : Call) : Prop :=
  s.Sane c ∧ ∀ t L i, Spine (s.exec c).log t L → NamesBefore (unroll L) i ∨
    -- or the Event stood there before the call
    ∃ u L₀, Spine s.log u L₀ ∧ (unroll L₀).take (i + 1) = (unroll L).take (i + 1)

theorem NamesBefore.of_take {events events' : List Event} {i : Nat} (h : NamesBefore events i)
    (hsame : events.take (i + 1) = events'.take (i + 1)) : NamesBefore events' i := by
  have hmap {β : Type} (f : Event → β) : (events.map f).take (i + 1) = (events'.map f).take (i + 1) := by
    rw [← map_take, ← map_take, hsame]
  have hids := congrArg (take i) (hmap Event.id)
  have hcause := congrArg (·[i]?) (hmap Event.causationId)
  simp only [take_take, getElem?_take_of_lt (Nat.lt_succ_self i), Nat.min_eq_left (Nat.le_succ i)] at hids hcause
  rwa [NamesBefore, ← hids, ← hcause]

theorem Reachable.namesBefore (hs : Reachable NamesEarlier s) :
    ∀ {t L}, Spine s.log t L → ∀ i, NamesBefore (unroll L) i := by
  induction hs with
  | blank hb =>
    intro t L hL
    obtain ⟨_, l, hl, -⟩ := hL.concat
    simp [log, hb.timelines] at hl
  | step _ hc ih =>
    intro t L hL i
    rcases hc.2 t L i hL with h | ⟨u, L₀, hL₀, hsame⟩
    · exact h
    · exact (ih hL₀ i).of_take hsame

/-- After every run whose calls add only Events that name earlier ones, every chain ends. -/
theorem causalChain_ends_of_run (hs : Reachable NamesEarlier s) (hread : s.read timeline .all = .ok all)
    (onTimeline : ∃ event ∈ all, event.id = id) :
    ∃ fuel chain, s.causalChain fuel timeline id = .ok (some chain) ∧ CausalChain all id chain := by
  have hsane : Reachable Sane s := hs.mono fun _ _ h => h.1
  obtain ⟨F, hw⟩ := hsane.fresh.wf
  obtain ⟨-, -, -, -, hist, hh, rfl⟩ := hw.read_all hread
  obtain ⟨start, hstart⟩ := exists_eventIndex onTimeline
  refine causalChain_of_acyclic hread hstart fun x _ => acyclic_of_namesBefore ?_ (fun i => ?_) x
  · rw [logicalEvents, map_logicalEventsFrom (fun _ _ => rfl)]
    exact hsane.uniqueIds.history hw.toRefines hh
  · obtain ⟨L, hL, rfl⟩ := hh
    rw [NamesBefore, logicalEvents, map_logicalEventsFrom (fun _ _ => rfl), map_logicalEventsFrom (fun _ _ => rfl)]
    exact hs.namesBefore (hw.spine hL) i

/-- Growth by a batch each Event of which names, if any, an Event before it. -/
theorem namesEarlier_of_grows {F F' : CowForest TimelineId Event} {c : Call} {es : List Event} (hr : s.Refines F)
    (hr' : (s.exec c).Refines F') (hsane : s.Sane c) (hgrows : F.Grows F' timeline es)
    (hbatch : ∀ hist, F.History timeline hist → ∀ i, hist.length ≤ i → NamesBefore (hist ++ es) i) :
    s.NamesEarlier c := by
  refine ⟨hsane, fun t L i hL => ?_⟩
  rcases hgrows.back ⟨L, hr'.log_eq ▸ hL, rfl⟩ with
    ⟨_, ⟨L₀, hL₀, rfl⟩, hsame⟩ | hnil | ⟨u, _, n, ⟨L₀, hL₀, rfl⟩, hsame⟩
  · rcases Nat.lt_or_ge i (unroll L₀).length with hi | hi
    · exact .inr ⟨t, L₀, hr.spine hL₀, by rw [hsame, take_append_of_le_length hi]⟩
    · split_ifs at hsame with ht
      · subst ht
        exact .inl (hsame ▸ hbatch _ ⟨L₀, hL₀, rfl⟩ i hi)
      · exact .inr ⟨t, L₀, hr.spine hL₀, by rw [hsame, append_nil]⟩
  · rw [hnil]
    exact .inl fun cause h => by cases h
  · rcases Nat.lt_or_ge i n with hi | hi
    · exact .inr ⟨u, L₀, hr.spine hL₀, by rw [hsame, take_take, Nat.min_eq_left hi]⟩
    · refine .inl fun cause h => ?_
      rw [hsame, getElem?_eq_none (by rw [length_map, length_take]; omega)] at h
      cases h

/-- A committed batch that continues its Timeline with Events that name only earlier ones. -/
theorem namesEarlier_appendCommitted (hs : Reachable Sane s) {events : List Event}
    (hbatch : ∀ L st ordered, Spine s.log timeline L → s.BatchContinues timeline st events ordered →
      ∀ i, (unroll L).length ≤ i → NamesBefore (unroll L ++ ordered) i) :
    s.NamesEarlier (.appendCommitted timeline events) := by
  obtain ⟨F, hw⟩ := hs.fresh.wf
  rcases hresult : s.appendCommitted timeline events with ⟨_ | ⟨⟩, s'⟩
  · have hsame : s.exec (.appendCommitted timeline events) = s := by
      rw [exec, hresult]
      exact appendCommitted_error hresult
    exact ⟨⟨trivial, trivial⟩, fun t L i hL => .inr ⟨t, L, hsame ▸ hL, rfl⟩⟩
  · obtain ⟨st, ordered, hst, haccepts, rfl⟩ := appendCommitted_eq_ok.mp hresult
    have hb := haccepts.toBatchContinues
    refine namesEarlier_of_grows hw.toRefines (hw.toRefines.extend hst ?_ (hb.accepts (hw.ledger hst).id_eq))
      ⟨trivial, trivial⟩ (.extend F timeline _) ?_
    · rw [exec, hresult]
      rfl
    · rintro _ ⟨L, hL, rfl⟩ i hi
      have hnames := hbatch L st ordered (hw.spine hL) hb i hi
      rw [NamesBefore, map_append, map_append] at hnames ⊢
      rwa [List.map_map, List.map_map]

end MemoryStore

end Piglor
