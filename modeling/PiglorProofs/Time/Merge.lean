/-
Merging two divergent Timelines (`pos-time` merge.rs): read both arms after the cut, drop what the
strategy drops, sort by wall time, fork the parent at the cut and append what survives. The Fork is
created before the append is checked and is not removed when the append is refused, so a merge is
all-or-nothing exactly when nothing can be refused after its Fork.
-/
import PiglorProofs.Store.AppendSpec

namespace Piglor

open Checked List

/-- How overlapping entities are resolved. -/
inductive MergeStrategy where
  | disjointCrdt
  | preferA
  | preferB
deriving DecidableEq

/-- An entity as `{:?}` prints it. -/
def EntityId.debug (entity : EntityId) : Message := [.inl "EntityId(", .inr entity.ulid, .inl ")"]

/-! ## The arms -/

/-- The entities of both arms. The source keeps them in a hash set: which one a conflict names first
is left open there, and is the first of arm A here. -/
def mergeOverlap (eventsA eventsB : List Event) : List EntityId :=
  (eventsA.map Event.entity).filter fun entity => decide (entity ∈ eventsB.map Event.entity)

/-- What the strategy keeps of the two arms, before sorting. -/
def mergeArms (strategy : MergeStrategy) (eventsA eventsB : List Event) : CoreResult (List Event) :=
  let overlap := mergeOverlap eventsA eventsB
  match strategy with
  | .disjointCrdt => match overlap with
    | entity :: _ => .error (.storage ("merge conflict: overlapping entity " ++ entity.debug))
    | [] => .ok (eventsA ++ eventsB)
  | .preferA => .ok (eventsA ++ eventsB.filter fun e => decide (e.entity ∉ overlap))
  | .preferB => .ok ((eventsA.filter fun e => decide (e.entity ∉ overlap)) ++ eventsB)

/-- The stable `sort_by_key(|e| e.wall_time)`. -/
def sortByWallTime (events : List Event) : List Event := events.insertionSort fun e f => e.wallTime ≤ f.wallTime

namespace MemoryStore

def mergePostForkEvents (s : MemoryStore) (timelineA timelineB : TimelineId) (nextSeq : Seq) :
    CoreResult (List Event × List Event) := do
  let eventsA ← s.read timelineA (.fromSeq nextSeq)
  let eventsB ← s.read timelineB (.fromSeq nextSeq)
  .ok (eventsA, eventsB)

/-- Everything a merge settles before it changes the store: the Events to append, and the parent to fork.
The source's `fork_seq + 1` overflows only for a cut at `u64::MAX`: a debug build stops there, and a release
build wraps to zero and takes both arms from their start. The Fork at that cut is refused unless the parent's
head is `u64::MAX` too, which no `Vec` of Events reaches. -/
def mergePlan (s : MemoryStore) (timelineA timelineB : TimelineId) (forkSeq : Seq) (strategy : MergeStrategy) :
    CoreResult (List Event × TimelineId) := do
  let (eventsA, eventsB) ← s.mergePostForkEvents timelineA timelineB (forkSeq + 1)
  let merged ← mergeArms strategy eventsA eventsB
  let found ← s.getTimeline timelineA
  match found with
  | none => .error (.timelineNotFound timelineA)
  | some base => .ok (sortByWallTime merged, (base.metadata.forkPoint.map Prod.fst).getD timelineA)

def mergeAppendMerged (s : MemoryStore) (timeline : TimelineId) (merged : List Event) (draw : Nat → Draw) :
    Effect (List Event) :=
  s.append timeline (merged.map Event.draft) draw

def mergeResultTimeline (s : MemoryStore) (id : TimelineId) : CoreResult Timeline := do
  let found ← s.getTimeline id
  match found with
  | some timeline => .ok timeline
  | none => .error (.timelineNotFound id)

/-- The rest of a merge, once its Fork exists. -/
def mergeInto (s : MemoryStore) (result : TimelineId) (merged : List Event) (draw : Nat → Draw) : Effect Timeline :=
  if merged.isEmpty then (s.mergeResultTimeline result, s)
  else match s.mergeAppendMerged result merged draw with
    -- the Fork is left behind
    | (.error e, s) => (.error e, s)
    | (.ok _, s) => (s.mergeResultTimeline result, s)

/-- `merge_with_strategy` with the ids and clock readings its Fork and its append draw. -/
def mergeWithStrategy (s : MemoryStore) (timelineA timelineB : TimelineId) (forkSeq : Seq) (targetName : String)
    (strategy : MergeStrategy) (id : TimelineId) (draw : Nat → Draw) : Effect Timeline :=
  s.after (s.mergePlan timelineA timelineB forkSeq strategy) fun (merged, parent) =>
  match s.fork parent forkSeq targetName id with
  | (.error e, s) => (.error e, s)
  | (.ok result, s) => s.mergeInto result.id merged draw

end MemoryStore

/-! ## What survives -/

def MergeStrategy.keepsA (strategy : MergeStrategy) (eventsB : List Event) (entity : EntityId) : Bool :=
  decide (strategy = .preferB → ∀ e ∈ eventsB, e.entity ≠ entity)

def MergeStrategy.keepsB (strategy : MergeStrategy) (eventsA : List Event) (entity : EntityId) : Bool :=
  decide (strategy = .preferA → ∀ e ∈ eventsA, e.entity ≠ entity)

/-- The Events of both arms that a merge appends. -/
def mergeSurvivors (strategy : MergeStrategy) (eventsA eventsB : List Event) : List Event :=
  eventsA.filter (fun e => strategy.keepsA eventsB e.entity) ++
    eventsB.filter (fun e => strategy.keepsB eventsA e.entity)

/-- No entity has Events in both arms. -/
def ArmsDisjoint (eventsA eventsB : List Event) : Prop := ∀ a ∈ eventsA, ∀ b ∈ eventsB, a.entity ≠ b.entity

theorem mem_mergeOverlap {eventsA eventsB : List Event} {entity : EntityId} :
    entity ∈ mergeOverlap eventsA eventsB ↔
      (∃ a ∈ eventsA, a.entity = entity) ∧ ∃ b ∈ eventsB, b.entity = entity := by
  simp [mergeOverlap]

open MergeStrategy

theorem filter_notMem_overlapA (eventsA eventsB : List Event) :
    (eventsA.filter fun e => decide (e.entity ∉ mergeOverlap eventsA eventsB)) =
      eventsA.filter fun e => keepsA .preferB eventsB e.entity := by
  refine filter_congr fun e he => ?_
  have hmem : (∃ a ∈ eventsA, a.entity = e.entity) := ⟨e, he, rfl⟩
  simp only [keepsA, mem_mergeOverlap, hmem, true_and, decide_eq_decide]
  simp

theorem filter_notMem_overlapB (eventsA eventsB : List Event) :
    (eventsB.filter fun e => decide (e.entity ∉ mergeOverlap eventsA eventsB)) =
      eventsB.filter fun e => keepsB .preferA eventsA e.entity := by
  refine filter_congr fun e he => ?_
  have hmem : (∃ b ∈ eventsB, b.entity = e.entity) := ⟨e, he, rfl⟩
  simp only [keepsB, mem_mergeOverlap, hmem, and_true, decide_eq_decide]
  simp

/-- The strategy's answer: the survivors, unless arms that must be disjoint overlap. -/
theorem mergeArms_eq_ok {strategy : MergeStrategy} {eventsA eventsB merged : List Event} :
    mergeArms strategy eventsA eventsB = .ok merged ↔
      (strategy = .disjointCrdt → ArmsDisjoint eventsA eventsB) ∧
        merged = mergeSurvivors strategy eventsA eventsB := by
  have hkeepA : strategy ≠ .preferB → eventsA.filter (fun e => strategy.keepsA eventsB e.entity) = eventsA := by
    intro h
    simp [keepsA, h]
  have hkeepB : strategy ≠ .preferA → eventsB.filter (fun e => strategy.keepsB eventsA e.entity) = eventsB := by
    intro h
    simp [keepsB, h]
  unfold mergeArms mergeSurvivors
  cases strategy with
  | disjointCrdt =>
    rw [hkeepA (by decide), hkeepB (by decide)]
    have hdisjoint : ArmsDisjoint eventsA eventsB ↔ mergeOverlap eventsA eventsB = [] := by
      rw [eq_nil_iff_forall_not_mem]
      constructor
      · intro h entity hmem
        obtain ⟨⟨a, ha, rfl⟩, b, hb, hab⟩ := mem_mergeOverlap.mp hmem
        exact h a ha b hb hab.symm
      · intro h a ha b hb hab
        exact h a.entity (mem_mergeOverlap.mpr ⟨⟨a, ha, rfl⟩, b, hb, hab.symm⟩)
    rcases hov : mergeOverlap eventsA eventsB with _ | ⟨entity, rest⟩
    · simp [hdisjoint, hov, eq_comm]
    · simp [hdisjoint, hov]
  | preferA =>
    dsimp only
    rw [hkeepA (by decide), filter_notMem_overlapB]
    simp [eq_comm]
  | preferB =>
    dsimp only
    rw [hkeepB (by decide), filter_notMem_overlapA]
    simp [eq_comm]

namespace MemoryStore

variable {s s' : MemoryStore}

/-- The Timeline a merge forks: A's fork parent, or A itself. -/
def mergeBase (s : MemoryStore) (timelineA : TimelineId) : TimelineId :=
  ((s.forkPoint timelineA).map Prod.fst).getD timelineA

variable {parent : TimelineId}

/-- A merge gets as far as its Fork exactly when both arms can be read and the strategy keeps them. -/
theorem mergePlan_eq_ok {timelineA timelineB : TimelineId} {forkSeq : Seq} {strategy : MergeStrategy}
    {merged : List Event} : s.mergePlan timelineA timelineB forkSeq strategy = .ok (merged, parent) ↔
      ∃ eventsA eventsB, s.read timelineA (.fromSeq (forkSeq + 1)) = .ok eventsA ∧
        s.read timelineB (.fromSeq (forkSeq + 1)) = .ok eventsB ∧
        (strategy = .disjointCrdt → ArmsDisjoint eventsA eventsB) ∧
        merged = sortByWallTime (mergeSurvivors strategy eventsA eventsB) ∧ parent = s.mergeBase timelineA := by
  have hbase : ∀ {eventsA}, s.read timelineA (.fromSeq (forkSeq + 1)) = .ok eventsA → ∃ st,
      s.timelines.lookup timelineA = some st ∧ s.getTimeline timelineA = .ok (some st.timeline) := by
    intro eventsA hread
    obtain ⟨hadmits, ⟨⟨st, hst⟩, hmark⟩, -⟩ := read_eq_ok.mp hread
    exact ⟨st, hst, getTimeline_of_visible hadmits hst hmark⟩
  have hparent : ∀ {st}, s.timelines.lookup timelineA = some st →
      (st.timeline.metadata.forkPoint.map Prod.fst).getD timelineA = s.mergeBase timelineA := by
    intro st hst
    rw [mergeBase, forkPoint, hst, Option.bind_some]
  constructor
  · intro h
    obtain ⟨⟨eventsA, eventsB⟩, harms, h⟩ := bind_eq_ok.mp h
    obtain ⟨eventsA', hA, harms⟩ := bind_eq_ok.mp harms
    obtain ⟨eventsB', hB, harms⟩ := bind_eq_ok.mp harms
    cases harms
    obtain ⟨survivors, hmerged, h⟩ := bind_eq_ok.mp h
    obtain ⟨found, hfound, h⟩ := bind_eq_ok.mp h
    obtain ⟨hdisjoint, rfl⟩ := mergeArms_eq_ok.mp hmerged
    obtain ⟨st, hst, hget⟩ := hbase hA
    rw [hget] at hfound
    cases hfound
    cases h
    exact ⟨eventsA, eventsB, hA, hB, hdisjoint, rfl, hparent hst⟩
  · rintro ⟨eventsA, eventsB, hA, hB, hdisjoint, rfl, rfl⟩
    obtain ⟨st, hst, hget⟩ := hbase hA
    rw [mergePlan, mergePostForkEvents, hA, ok_bind, hB, ok_bind, ok_bind]
    dsimp only
    rw [mergeArms_eq_ok.mpr ⟨hdisjoint, rfl⟩, ok_bind, hget, ok_bind]
    exact congrArg (fun parent => Except.ok (_, parent)) (hparent hst)

/-- The Fork a merge creates is one the store allows. -/
def Forkable (s : MemoryStore) (parent : TimelineId) (atSeq : Seq) : Prop :=
  s.erasureTopologyRequiresPermit = false ∧ s.Admits parent ∧ s.Visible parent ∧
    ∃ hash, s.forkHash parent atSeq = .ok hash

variable {name : String} {atSeq : Seq}

/-- The fork of a merge, refused or created. -/
theorem fork_cases {id : TimelineId} : (∃ e, ¬ s.Forkable parent atSeq ∧ s.fork parent atSeq name id = (.error e, s)) ∨
    ∃ hash, s.Forkable parent atSeq ∧ s.forkHash parent atSeq = .ok hash ∧
      s.fork parent atSeq name id =
        (.ok (Timeline.new (s.forkMeta parent atSeq name id)), s.forked parent atSeq name id hash) := by
  by_cases h : s.Forkable parent atSeq
  · obtain ⟨htop, hadmits, hvisible, hash, hhash⟩ := h
    exact .inr ⟨hash, ⟨htop, hadmits, hvisible, hash, hhash⟩, hhash, fork_eq htop hadmits hvisible hhash⟩
  · rcases hfork : s.fork parent atSeq name id with ⟨_ | child, s'⟩
    · rename_i e
      unfold fork at hfork
      rcases after_cases s _ _ with ⟨e', -, he⟩ | ⟨hash, -, he⟩
      · rw [he] at hfork
        cases hfork
        exact .inl ⟨e, h, rfl⟩
      · rw [he] at hfork
        cases hfork
    · obtain ⟨htop, hadmits, hvisible, -, hash, hhash, -⟩ := fork_of_ok hfork
      exact absurd ⟨htop, hadmits, hvisible, hash, hhash⟩ h

/-! ## All or nothing -/

variable {timelineA timelineB id : TimelineId} {forkSeq : Seq} {targetName : String} {strategy : MergeStrategy}
  {draw : Nat → Draw} {hash : Hash}

/-- A merge that returns an error leaves every Timeline, its Events and its chain head as they were. -/
def MergeAtomic (s : MemoryStore) (timelineA timelineB : TimelineId) (forkSeq : Seq) (targetName : String)
    (strategy : MergeStrategy) (id : TimelineId) (draw : Nat → Draw) : Prop :=
  ∀ e s', s.mergeWithStrategy timelineA timelineB forkSeq targetName strategy id draw = (.error e, s') →
    s'.timelines = s.timelines

/-- The store will take the survivors on the Fork: the gate admits it, no survivor is of a reserved
type or a preference of a keyed subject, and the sequence numbers suffice. -/
structure MergeAccepts (s : MemoryStore) (id : TimelineId) (forkSeq : Seq) (survivors : List Event) : Prop where
  admits : s.Admits id
  unreserved : ∀ e ∈ survivors, reservedKind e.eventType = false
  plaintext : ∀ e ∈ survivors, ensurePlaintextPreferenceAllowed s.keyRegistry e.entity e.eventType = .ok ()
  room : survivors ≠ [] → forkSeq + survivors.length ≤ u64Max

def forkState (s : MemoryStore) (parent : TimelineId) (atSeq : Seq) (name : String) (id : TimelineId) (hash : Hash) :
    TimelineState := TimelineState.new (Timeline.new (s.forkMeta parent atSeq name id)) hash

theorem prefixLen_forkState : (s.forkState parent atSeq name id hash).timeline.metadata.prefixLen = atSeq := by
  show (s.forkMeta parent atSeq name id).prefixLen = atSeq
  rw [TimelineMeta.prefixLen, forkMeta_forkPoint]
  rfl

theorem mergeAccepts_iff (fresh : s.FreshTimeline id) {survivors : List Event} : s.MergeAccepts id forkSeq survivors ↔
      (s.forked parent forkSeq name id hash).AppendAccepts id (s.forkState parent forkSeq name id hash)
        ((sortByWallTime survivors).map Event.draft) := by
  have hlen : ((sortByWallTime survivors).map Event.draft).length = survivors.length := by
    rw [length_map, sortByWallTime, length_insertionSort]
  have hne : (sortByWallTime survivors).map Event.draft ≠ [] ↔ survivors ≠ [] := by
    rw [ne_eq, ne_eq, ← length_eq_zero_iff, hlen, length_eq_zero_iff]
  have hall : ∀ {P : EventDraft → Prop}, (∀ d ∈ (sortByWallTime survivors).map Event.draft, P d) ↔
      ∀ e ∈ survivors, P e.draft := by
    intro P
    rw [forall_mem_map]
    refine forall_congr' fun e => ?_
    rw [sortByWallTime, mem_insertionSort]
  constructor
  · intro h
    refine ⟨h.admits, hall.mpr h.unreserved, fresh.2.2, fresh.2.1, hall.mpr h.plaintext, fun hdrafts => ?_⟩
    rw [prefixLen_forkState, hlen]
    exact h.room (hne.mp hdrafts)
  · intro h
    refine ⟨h.admits, hall.mp h.unreserved, hall.mp h.plaintext, fun hsurv => ?_⟩
    have := h.room (hne.mpr hsurv)
    rwa [prefixLen_forkState, hlen] at this

theorem mergeResultTimeline_eq_ok {t : TimelineId} {m : Timeline} : s.mergeResultTimeline t = .ok m ↔
    s.Admits t ∧ t ∉ s.geographicTimelines ∧ ∃ st, s.timelines.lookup t = some st ∧ m = st.timeline := by
  unfold mergeResultTimeline getTimeline
  rcases unit_ok_or_error (s.erasureFence t) with hf | ⟨e, hf⟩
  · have hadmits : s.Admits t := hf
    rw [hf, ok_bind]
    rcases s.timelines.lookup t with _ | st
    · simp
    · by_cases hm : t ∈ s.geographicTimelines
      · simp [hm]
      · simp [hm, hadmits, eq_comm]
  · have hnot : ¬ s.Admits t := by
      rw [Admits, hf]
      intro h; cases h
    simp [hf, hnot]

theorem sortByWallTime_eq_nil {events : List Event} : sortByWallTime events = [] ↔ events = [] := by
  rw [← length_eq_zero_iff, sortByWallTime, length_insertionSort, length_eq_zero_iff]

/-- A merged Timeline: the Fork, with the survivors appended in order of wall time. -/
structure MergedInto (s s' : MemoryStore) (parent : TimelineId) (forkSeq : Seq) (name : String) (id : TimelineId)
    (hash : Hash) (survivors es : List Event) : Prop where
  frame : s.Frame s'
  timelines : s'.timelines = s.timelines.insert id ((s.forkState parent forkSeq name id hash).extend s.hasher es)
  accepts : (s.forkState parent forkSeq name id hash).Accepts es
  drafts : es.map Event.draft = (sortByWallTime survivors).map Event.draft

/-- After its Fork, a merge completes exactly when the store accepts the survivors. -/
theorem mergeInto_cases (fresh : s.FreshTimeline id) (parent : TimelineId) (name : String) (hash : Hash)
    (survivors : List Event) (draw : Nat → Draw) :
    (∃ m s' es, s.MergeAccepts id forkSeq survivors ∧ MergedInto s s' parent forkSeq name id hash survivors es ∧
      (s.forked parent forkSeq name id hash).mergeInto id (sortByWallTime survivors) draw = (.ok m, s') ∧
      m.id = id) ∨
    ∃ e s', ¬ s.MergeAccepts id forkSeq survivors ∧ s'.timelines.lookup id ≠ none ∧
      (s.forked parent forkSeq name id hash).mergeInto id (sortByWallTime survivors) draw = (.error e, s') := by
  have hid : (s.forkState parent forkSeq name id hash).timeline.id = id := forkMeta_id ..
  have hlookup : (s.forked parent forkSeq name id hash).timelines.lookup id =
      some (s.forkState parent forkSeq name id hash) := lookup_forked
  unfold mergeInto
  -- with nothing to append, only the final read can fail
  by_cases hempty : survivors = []
  · rw [hempty, show sortByWallTime [] = [] from rfl, isEmpty_nil, if_pos rfl]
    by_cases hadmits : s.Admits id
    · refine .inl ⟨_, s.forked parent forkSeq name id hash, [], ⟨hadmits, by simp, by simp, by simp⟩,
        ⟨rfl, ?_, .nil _, rfl⟩,
        Prod.ext (mergeResultTimeline_eq_ok.mpr ⟨hadmits, fresh.2.1, _, hlookup, rfl⟩) rfl, hid⟩
      rw [TimelineState.extend_nil]
      rfl
    · rcases hres : (s.forked parent forkSeq name id hash).mergeResultTimeline id with e | m
      · exact .inr ⟨e, _, fun h => hadmits h.admits, by rw [hlookup]; simp, rfl⟩
      · exact absurd (mergeResultTimeline_eq_ok.mp hres).1 hadmits
  · rw [if_neg (by simpa [sortByWallTime_eq_nil] using hempty), mergeAppendMerged]
    rcases append_cases hlookup ((sortByWallTime survivors).map Event.draft) draw with
      ⟨es, shown, haccepts, hacc, hdrawn, hlen, happend⟩ | ⟨e, s', hrefuses, happend, es, hs'⟩
    · rw [happend]
      have hm : s.MergeAccepts id forkSeq survivors := (mergeAccepts_iff fresh).mpr haccepts
      refine .inl ⟨_, _, es, hm, ⟨?_, Finmap.insert_insert _, hacc, ?_⟩,
        Prod.ext (mergeResultTimeline_eq_ok.mpr ⟨hm.admits, fresh.2.1, _, Finmap.lookup_insert _, rfl⟩) rfl, hid⟩
      · rfl
      · refine hdrawn.drafts (fun d hd => ?_) hlen
        obtain ⟨e, -, rfl⟩ := mem_map.mp hd
        rfl
    · rw [happend]
      refine .inr ⟨e, s', fun h => hrefuses ((mergeAccepts_iff fresh).mp h), ?_, rfl⟩
      rcases hs' with rfl | rfl
      · rw [hlookup]; simp
      · rw [setTimeline, Finmap.lookup_insert]; simp

/-- What a merge gets as far as its Fork with: both arms read, kept by the strategy, and the base forkable. -/
structure MergeForks (s : MemoryStore) (timelineA timelineB : TimelineId) (forkSeq : Seq) (strategy : MergeStrategy)
    (eventsA eventsB : List Event) : Prop where
  readA : s.read timelineA (.fromSeq (forkSeq + 1)) = .ok eventsA
  readB : s.read timelineB (.fromSeq (forkSeq + 1)) = .ok eventsB
  disjoint : strategy = .disjointCrdt → ArmsDisjoint eventsA eventsB
  forkable : s.Forkable (s.mergeBase timelineA) forkSeq

/-- A merge is refused before its Fork, or completes, or fails with its Fork left behind. -/
theorem mergeWithStrategy_cases (fresh : s.FreshTimeline id) :
    (∃ e, (∀ eventsA eventsB, ¬ s.MergeForks timelineA timelineB forkSeq strategy eventsA eventsB) ∧
      s.mergeWithStrategy timelineA timelineB forkSeq targetName strategy id draw = (.error e, s)) ∨
    ∃ eventsA eventsB, s.MergeForks timelineA timelineB forkSeq strategy eventsA eventsB ∧
      ((∃ m s' hash es, s.MergeAccepts id forkSeq (mergeSurvivors strategy eventsA eventsB) ∧
        s.forkHash (s.mergeBase timelineA) forkSeq = .ok hash ∧
        MergedInto s s' (s.mergeBase timelineA) forkSeq targetName id hash
          (mergeSurvivors strategy eventsA eventsB) es ∧ m.id = id ∧
        s.mergeWithStrategy timelineA timelineB forkSeq targetName strategy id draw = (.ok m, s')) ∨
      ∃ e s', ¬ s.MergeAccepts id forkSeq (mergeSurvivors strategy eventsA eventsB) ∧
        s'.timelines.lookup id ≠ none ∧
        s.mergeWithStrategy timelineA timelineB forkSeq targetName strategy id draw = (.error e, s')) := by
  unfold mergeWithStrategy
  rcases after_cases s (s.mergePlan timelineA timelineB forkSeq strategy) _
    with ⟨e, hplan, he⟩ | ⟨⟨merged, parent⟩, hplan, he⟩
  · refine .inl ⟨e, fun eventsA eventsB h => ?_, he⟩
    have hok := mergePlan_eq_ok.mpr ⟨eventsA, eventsB, h.readA, h.readB, h.disjoint, rfl, rfl⟩
    rw [hok] at hplan
    cases hplan
  rw [he]
  obtain ⟨eventsA, eventsB, hA, hB, hdisjoint, rfl, rfl⟩ := mergePlan_eq_ok.mp hplan
  dsimp only
  rcases fork_cases (s := s) with ⟨e, hnot, hfork⟩ | ⟨hash, hforkable, hhash, hfork⟩
  · rw [hfork]
    exact .inl ⟨e, fun _ _ h => hnot h.forkable, rfl⟩
  · rw [hfork]
    dsimp only
    rw [show (Timeline.new (s.forkMeta (s.mergeBase timelineA) forkSeq targetName id)).id = id from forkMeta_id ..]
    refine .inr ⟨eventsA, eventsB, ⟨hA, hB, hdisjoint, hforkable⟩, ?_⟩
    rcases mergeInto_cases fresh (s.mergeBase timelineA) targetName hash (mergeSurvivors strategy eventsA eventsB) draw
      with ⟨m, s', es, haccepts, hinto, hmerge, hm⟩ | ⟨e, s', hrefuses, hleft, hmerge⟩
    · exact .inl ⟨m, s', hash, es, haccepts, hhash, hinto, hm, hmerge⟩
    · exact .inr ⟨e, s', hrefuses, hleft, hmerge⟩

/-- A merge is all-or-nothing exactly when, if it gets as far as creating its Fork, the store accepts
every Event that survives. -/
theorem mergeAtomic_iff (fresh : s.FreshTimeline id) :
    s.MergeAtomic timelineA timelineB forkSeq targetName strategy id draw ↔
      ∀ eventsA eventsB, s.MergeForks timelineA timelineB forkSeq strategy eventsA eventsB →
        s.MergeAccepts id forkSeq (mergeSurvivors strategy eventsA eventsB) := by
  unfold MergeAtomic
  rcases mergeWithStrategy_cases (s := s) fresh with ⟨e, hnot, hmerge⟩ | ⟨eventsA, eventsB, hforks, h⟩
  · rw [hmerge]
    refine ⟨fun _ a b h => absurd h (hnot a b), fun _ e' s' h => ?_⟩
    cases h
    rfl
  · have hsame : ∀ {a b}, s.MergeForks timelineA timelineB forkSeq strategy a b → a = eventsA ∧ b = eventsB := by
      intro a b h
      have ha := h.readA.symm.trans hforks.readA
      have hb := h.readB.symm.trans hforks.readB
      cases ha
      cases hb
      exact ⟨rfl, rfl⟩
    rcases h with ⟨m, s', hash, es, haccepts, -, -, -, hmerge⟩ | ⟨e, s', hrefuses, hleft, hmerge⟩
    · rw [hmerge]
      refine ⟨fun _ a b h => ?_, fun _ e s'' h => by cases h⟩
      obtain ⟨rfl, rfl⟩ := hsame h
      exact haccepts
    · rw [hmerge]
      refine ⟨fun h => ?_, fun h => absurd (h eventsA eventsB hforks) hrefuses⟩
      -- an unchanged store does not have the new Timeline
      rw [h e s' rfl, fresh.1] at hleft
      exact absurd rfl hleft

/-- Two Forks of an empty root: one whose wall times decrease, and one with another entity. -/
def divergedArms : MemoryStore :=
  run blankStore
    [.createTimeline "root" ⟨1⟩, .fork ⟨1⟩ 0 "a" ⟨2⟩, .fork ⟨1⟩ 0 "b" ⟨3⟩,
      .append ⟨2⟩ [⟨⟨1⟩, "note", [1], none, none, .v1, some 9⟩, ⟨⟨1⟩, "note", [2], none, none, .v1, some 5⟩]
        (drawsFrom 1 0),
      .append ⟨3⟩ [⟨⟨2⟩, "note", [3], none, none, .v1, some 7⟩] (drawsFrom 3 0)]

theorem divergedArms_reachable : Reachable Fresh divergedArms :=
  Reachable.run (.blank .empty) (by decide)

theorem divergedArms_mergeAtomic :
    divergedArms.MergeAtomic ⟨2⟩ ⟨3⟩ 0 "merged" .disjointCrdt ⟨4⟩ (drawsFrom 10 0) := by
  refine (mergeAtomic_iff (by decide)).mpr fun eventsA eventsB h => ?_
  cases h.readA
  cases h.readB
  exact ⟨by decide, by decide, by decide, fun _ => by decide⟩

/-- An arm with a preference whose subject was given an encryption key afterwards. -/
def keyedArm : MemoryStore :=
  run blankStore
    [.createTimeline "root" ⟨1⟩, .fork ⟨1⟩ 0 "a" ⟨2⟩, .fork ⟨1⟩ 0 "b" ⟨3⟩,
      .append ⟨2⟩ [EventDraft.new ⟨1⟩ "persona.preference" []] (drawsFrom 1 5),
      .host ⟨∅, some .newTestOpen, false, none, false,
        some (KeyRegistry.KeyRegistryStateV1.new.registerKey ⟨⟨⟨subjectOwner ⟨1⟩, by decide⟩, .subjectDataEncryption, 1⟩,
          5, none⟩).2, fun _ => .error .unresolved, ∅, ∅⟩]

/-- The merge fails on the preference, and its Fork stays. -/
theorem keyedArm_not_mergeAtomic : Reachable Fresh keyedArm ∧ keyedArm.FreshTimeline ⟨4⟩ ∧
    (keyedArm.mergeWithStrategy ⟨2⟩ ⟨3⟩ 0 "merged" .disjointCrdt ⟨4⟩ (drawsFrom 10 0)).1 =
      .error .subjectPlaintextPreferenceRefused ∧
    ((keyedArm.mergeWithStrategy ⟨2⟩ ⟨3⟩ 0 "merged" .disjointCrdt ⟨4⟩ (drawsFrom 10 0)).2.timelines.lookup ⟨4⟩).isSome ∧
    ¬ keyedArm.MergeAtomic ⟨2⟩ ⟨3⟩ 0 "merged" .disjointCrdt ⟨4⟩ (drawsFrom 10 0) := by
  have herror : (keyedArm.mergeWithStrategy ⟨2⟩ ⟨3⟩ 0 "merged" .disjointCrdt ⟨4⟩ (drawsFrom 10 0)).1 =
      .error .subjectPlaintextPreferenceRefused := by decide
  have hleft : ((keyedArm.mergeWithStrategy ⟨2⟩ ⟨3⟩ 0 "merged" .disjointCrdt ⟨4⟩ (drawsFrom 10 0)).2.timelines.lookup
      ⟨4⟩).isSome := by decide
  refine ⟨Reachable.run (.blank .empty) (by decide), by decide, herror, hleft, fun h => ?_⟩
  rw [h _ (keyedArm.mergeWithStrategy ⟨2⟩ ⟨3⟩ 0 "merged" .disjointCrdt ⟨4⟩ (drawsFrom 10 0)).2 (Prod.ext herror rfl)] at hleft
  exact absurd hleft (by decide)

end MemoryStore

end Piglor
