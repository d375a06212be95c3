/-
The bounded page read (memory.rs, stitch.rs): walk the chain within a depth, plan one page per
segment while checking sizes, then materialize the planned slices, with the clock checked along the
way. The clock readings are an argument. An index out of range is a fault of its own, so that its
absence is a theorem; within the bounds the page is a prefix of the plain stitched read.
-/
import PiglorProofs.Store.CopyOnWrite

namespace Piglor

open Checked List

/-- A failed bounded read: an error of the store, or a Rust panic on an index. -/
inductive Fault where
  | core (error : CoreError)
  | panic
deriving DecidableEq

structure EventReadBounds where
  payloadBytes : Nat
  eventTypeBytes : Nat
  forkDepth : Nat
  events : Nat
  totalBytes : Nat
  maxElapsedMicros : Nat

/-- The points at which the read looks at the clock. -/
inductive Checkpoint where
  | chain (depth : Nat)
  | segment (index : Nat)
  | event (index offset : Nat)
  | page (index : Nat)
  | clone (page offset : Nat)
  | done
deriving DecidableEq

/-- The clock at each checkpoint, in microseconds since the read started. -/
abbrev Clock := Checkpoint → Nat

def checkElapsed (elapsed maximumMicros : Nat) : Except Fault Unit :=
  if elapsed > maximumMicros then .error (.core (.readTimeTooLarge elapsed)) else .ok ()

/-- A Rust slice `events[start..stop]`. -/
def slice (events : List Event) (start stop : Nat) : Except Fault (List Event) :=
  if start ≤ stop ∧ stop ≤ events.length then .ok ((events.take stop).drop start) else .error .panic

/-! ## Planning one page -/

structure PagePlan where
  rawStart : Nat
  take : Nat

def planPage (logicalOffset segmentLen lo hi remaining : Nat) : Option PagePlan :=
  let segmentStart := saturatingAdd logicalOffset 1
  let segmentEnd := saturatingAdd logicalOffset segmentLen
  let selectedStart := max lo segmentStart
  let selectedEnd := min hi segmentEnd
  if remaining = 0 ∨ selectedStart > selectedEnd then none
  else
    let available := selectedEnd - selectedStart + 1
    some ⟨selectedStart - logicalOffset, min available remaining⟩

structure BoundedSegmentPage where
  timeline : TimelineId
  rawStart : Nat
  take : Nat
  logicalOffset : Nat

def contiguityError (timeline : TimelineId) : CoreError :=
  .storage ("timeline " ++ timeline.display ++ " violates the contiguous Event sequence invariant")

def eventBytes (event : Event) : Nat := event.payload.length + event.eventType.utf8ByteSize

/-- The checks of one Event of a planned slice; the running total of bytes. -/
def examineEvent (bounds : EventReadBounds) (timeline : TimelineId) (rawSeq total : Nat) (event : Event) :
    Except Fault Nat :=
  if event.seq ≠ rawSeq then .error (.core (contiguityError timeline))
  else if event.payload.length > bounds.payloadBytes then .error (.core (.payloadTooLarge event.payload.length))
  else if event.eventType.utf8ByteSize > bounds.eventTypeBytes then
    .error (.core (.eventMetadataTooLarge "event_type" event.eventType.utf8ByteSize))
  else
    let total := saturatingAdd total (saturatingAdd event.payload.length event.eventType.utf8ByteSize)
    if total > bounds.totalBytes then .error (.core (.readBytesTooLarge total)) else .ok total

def examineEvents (bounds : EventReadBounds) (clock : Clock) (timeline : TimelineId) (index rawStart : Nat) :
    Nat → Nat → List Event → Except Fault Nat
  | _, total, [] => .ok total
  | offset, total, event :: rest => do
    checkElapsed (clock (.event index offset)) bounds.maxElapsedMicros
    let total ← examineEvent bounds timeline (saturatingAdd rawStart offset) total event
    examineEvents bounds clock timeline index rawStart (offset + 1) total rest

def pageSlice (events : List Event) (rawStart take : Nat) : Except Fault (List Event) :=
  match checkedSub rawStart 1 with
  -- `raw_start - 1` underflows
  | none => .error .panic
  | some startIndex => slice events startIndex (saturatingAdd startIndex take)

namespace MemoryStore

variable (s : MemoryStore) (bounds : EventReadBounds) (clock : Clock)

/-- Borrow a Timeline's state by index: a missing key is a panic. -/
def stateOf (id : TimelineId) : Except Fault TimelineState :=
  match s.timelines.lookup id with
  | some state => .ok state
  | none => .error .panic

/-- The cut of the next Timeline on the chain. -/
def forkCap (chain : List TimelineId) (index : Nat) : Except Fault (Option Seq) :=
  match chain[index + 1]? with
  | none => .ok none
  | some child => do
    let state ← s.stateOf child
    .ok (state.timeline.metadata.forkPoint.map Prod.snd)

/-- What is left of a segment before the next cut. -/
def cappedLength (timeline : TimelineId) (eventCount logicalOffset : Nat) : Option Seq → Except Fault Nat
  | none => .ok eventCount
  | some cap => match checkedSub cap logicalOffset with
    | some n => .ok n
    | none => .error (.core (ForkChain.precedesError timeline))

def boundedSegmentLength (chain : List TimelineId) (index : Nat) (timeline : TimelineId)
    (logicalOffset : Nat) : Except Fault Nat := do
  let state ← s.stateOf timeline
  let cap ← s.forkCap chain index
  let segmentLen ← cappedLength timeline state.events.length logicalOffset cap
  if segmentLen > state.events.length then .error (.core (ForkChain.exceedsError timeline)) else .ok segmentLen

/-- The head and the outer sequences of a Timeline's Events fit a contiguous segment. -/
def boundaryIsValid (state : TimelineState) : Bool :=
  match state.events.head?, state.events.getLast? with
  | some first, some last =>
    decide (state.timeline.head = state.events.length) && decide (first.seq = 1) &&
      decide (last.seq = state.events.length)
  -- no Events
  | _, _ => decide (state.timeline.head = 0)

def planBoundedSegment (chain : List TimelineId) (index : Nat) (timeline : TimelineId)
    (logicalOffset lo hi remaining total : Nat) : Except Fault (Option BoundedSegmentPage × Nat) := do
  checkElapsed (clock (.segment index)) bounds.maxElapsedMicros
  let state ← s.stateOf timeline
  if !boundaryIsValid state then .error (.core (contiguityError timeline))
  else
    let segmentLen ← s.boundedSegmentLength chain index timeline logicalOffset
    match planPage logicalOffset segmentLen lo hi remaining with
    | none => .ok (none, total)
    | some page => do
      let events ← pageSlice state.events page.rawStart page.take
      let total ← examineEvents bounds clock timeline index page.rawStart 0 total events
      .ok (some ⟨timeline, page.rawStart, page.take, logicalOffset⟩, total)

/-- Plan segment after segment, until the page is full or the range ends. -/
def planBoundedLoop (chain : List TimelineId) (lo hi : Nat) :
    List (TimelineId × Nat) → Nat → Nat → Nat → Except Fault (List BoundedSegmentPage)
  | [], _, _, _ => .ok []
  | (timeline, index) :: rest, logicalOffset, remaining, total => do
    let (planned, total) ← s.planBoundedSegment bounds clock chain index timeline logicalOffset lo hi remaining total
    let remaining := remaining - (planned.map BoundedSegmentPage.take).getD 0
    let segmentLen ← s.boundedSegmentLength chain index timeline logicalOffset
    if remaining = 0 ∨ saturatingAdd logicalOffset segmentLen ≥ hi then .ok planned.toList
    else do
      let plans ← planBoundedLoop chain lo hi rest (saturatingAdd logicalOffset segmentLen) remaining total
      .ok (planned.toList ++ plans)

def planBoundedEvents (chain : List TimelineId) (range : SeqRange) : Except Fault (List BoundedSegmentPage) :=
  s.planBoundedLoop bounds clock chain (max range.lo 1) (range.hi.getD u64Max) chain.zipIdx 0 bounds.events 0

/-! ## Materializing -/

/-- Show each Event of a slice at its logical sequence. -/
def cloneEvents (page logicalOffset : Nat) :
    Nat → List Event → Except Fault (List Event)
  | _, [] => .ok []
  | offset, event :: rest => do
    checkElapsed (clock (.clone page offset)) bounds.maxElapsedMicros
    let rest ← cloneEvents page logicalOffset (offset + 1) rest
    .ok ({ event with seq := saturatingAdd logicalOffset event.seq } :: rest)

def materializeLoop : Nat → List BoundedSegmentPage → Except Fault (List Event)
  | _, [] => do
    checkElapsed (clock .done) bounds.maxElapsedMicros
    .ok []
  | index, plan :: plans => do
    checkElapsed (clock (.page index)) bounds.maxElapsedMicros
    let state ← s.stateOf plan.timeline
    let events ← pageSlice state.events plan.rawStart plan.take
    let shown ← cloneEvents bounds clock index plan.logicalOffset 0 events
    let rest ← materializeLoop (index + 1) plans
    .ok (shown ++ rest)

/-- Walk at most `forkDepth` parent links. As in `forkChainLoop`, the fuel covers every stored Timeline. -/
def forkChainBoundedLoop :
    Nat → List TimelineId → Nat → TimelineId → Except Fault (List TimelineId)
  | 0, chain, depth, current => do
    checkElapsed (clock (.chain depth)) bounds.maxElapsedMicros
    if current ∈ chain then .error (.core (cycleError current)) else .error (.core (.timelineNotFound current))
  | fuel + 1, chain, depth, current => do
    checkElapsed (clock (.chain depth)) bounds.maxElapsedMicros
    if current ∈ chain then .error (.core (cycleError current))
    else match s.timelines.lookup current with
      | none => .error (.core (.timelineNotFound current))
      | some state => match state.timeline.metadata.forkPoint with
        | some (parent, _) =>
          if depth + 1 > bounds.forkDepth then .error (.core (.forkDepthTooLarge (depth + 1)))
          else forkChainBoundedLoop fuel (current :: chain) (depth + 1) parent
        | none => .ok (current :: chain)

def forkChainBounded (timeline : TimelineId) : Except Fault (List TimelineId) :=
  s.forkChainBoundedLoop bounds clock s.timelines.keys.card [] 0 timeline

def collectEventsInRangeBounded (s : MemoryStore) (timeline : TimelineId) (range : SeqRange)
    (bounds : EventReadBounds) (clock : Clock) : Except Fault (List Event) := do
  if bounds.maxElapsedMicros = 0 then .error (.core (.readTimeTooLarge 0))
  else
    let chain ← s.forkChainBounded bounds clock timeline
    let plans ← s.planBoundedEvents bounds clock chain range
    s.materializeLoop bounds clock 0 plans

end MemoryStore

/-! ## No index is out of range -/

/-- The computation does not panic. -/
def Safe {α : Type} (x : Except Fault α) : Prop := x ≠ .error .panic

variable {α : Type} {x : Except Fault α}

theorem Safe.bind {β : Type} {f : α → Except Fault β} (hx : Safe x) (hf : ∀ a, x = .ok a → Safe (f a)) :
    Safe (x >>= f) := by
  rcases ok_or_error x with ⟨a, ha⟩ | ⟨e, he⟩
  · rw [ha, ok_bind]
    exact hf a ha
  · rw [he, error_bind]
    intro h
    cases h
    exact hx he

theorem safe_ok (a : α) : Safe (.ok a) := by intro h; cases h

theorem safe_core (e : CoreError) : Safe (.error (.core e) : Except Fault α) := by intro h; cases h

/-- The computation does not panic, and what it returns satisfies `P`. -/
def Yields {α : Type} (x : Except Fault α) (P : α → Prop) : Prop := Safe x ∧ ∀ a, x = .ok a → P a

variable {P : α → Prop} {offset remaining : Nat} {page : PagePlan}

theorem Yields.bind {β : Type} {f : α → Except Fault β} {Q : β → Prop} (hx : Yields x P)
    (hf : ∀ a, x = .ok a → P a → Yields (f a) Q) : Yields (x >>= f) Q := by
  refine ⟨hx.1.bind fun a ha => (hf a ha (hx.2 a ha)).1, fun b hb => ?_⟩
  obtain ⟨a, ha, hb⟩ := bind_eq_ok.mp hb
  exact (hf a ha (hx.2 a ha)).2 b hb

theorem Safe.yields (h : Safe x) : Yields x fun _ => True := ⟨h, fun _ _ => trivial⟩

theorem yields_ok {a : α} (h : P a) : Yields (.ok a) P :=
  ⟨safe_ok a, fun _ ha => Except.ok.inj ha ▸ h⟩

theorem yields_core (e : CoreError) : Yields (.error (.core e)) P :=
  ⟨safe_core e, fun _ h => by cases h⟩

theorem checkElapsed_safe (elapsed maximum : Nat) : Safe (checkElapsed elapsed maximum) := by
  unfold checkElapsed
  split
  · exact safe_core _
  · exact safe_ok _

/-- A planned page lies within its segment. -/
theorem planPage_bounds {len lo hi : Nat}
    (h : planPage offset len lo hi remaining = some page) (hoff : offset < u64Max) :
    1 ≤ page.rawStart ∧ page.rawStart - 1 + page.take ≤ len ∧ page.rawStart - 1 + page.take ≤ u64Max := by
  unfold planPage saturatingAdd at h
  generalize u64Max = top at h hoff ⊢
  dsimp only at h
  split_ifs at h
  cases h
  dsimp only
  omega

theorem planPage_take_pos {len lo hi : Nat} (h : planPage offset len lo hi remaining = some page) : 0 < page.take := by
  unfold planPage at h
  dsimp only at h
  split_ifs at h
  cases h
  dsimp only
  omega

theorem pageSlice_eq {events : List Event} {rawStart take : Nat} (h1 : 1 ≤ rawStart)
    (h2 : rawStart - 1 + take ≤ events.length) (h3 : rawStart - 1 + take ≤ u64Max) :
    pageSlice events rawStart take = .ok ((events.drop (rawStart - 1)).take take) := by
  have hsub : checkedSub rawStart 1 = some (rawStart - 1) := by
    unfold checkedSub
    rw [if_pos h1]
  have hsat : saturatingAdd (rawStart - 1) take = rawStart - 1 + take := Nat.min_eq_left h3
  simp only [pageSlice, hsub, hsat]
  unfold slice
  rw [if_pos ⟨by omega, h2⟩, drop_take, Nat.add_sub_cancel_left]

theorem examineEvent_safe (bounds : EventReadBounds) (t : TimelineId) (rawSeq total : Nat) (e : Event) :
    Safe (examineEvent bounds t rawSeq total e) := by
  unfold examineEvent
  split
  · exact safe_core _
  split
  · exact safe_core _
  split
  · exact safe_core _
  dsimp only
  split
  · exact safe_core _
  · exact safe_ok _

theorem examineEvents_safe (bounds : EventReadBounds) (clock : Clock) (t : TimelineId) (index rawStart : Nat) :
    ∀ (es : List Event) (offset total : Nat), Safe (examineEvents bounds clock t index rawStart offset total es)
  | [], _, _ => safe_ok _
  | e :: es, offset, total => (checkElapsed_safe _ _).bind fun _ _ =>
    (examineEvent_safe bounds t _ total e).bind fun total' _ =>
      examineEvents_safe bounds clock t index rawStart es (offset + 1) total'

namespace MemoryStore

theorem cloneEvents_safe (bounds : EventReadBounds) (clock : Clock) (page logicalOffset : Nat) :
    ∀ (es : List Event) (offset : Nat), Safe (cloneEvents bounds clock page logicalOffset offset es)
  | [], _ => safe_ok _
  | _ :: es, offset => (checkElapsed_safe _ _).bind fun _ _ =>
    (cloneEvents_safe bounds clock page logicalOffset es (offset + 1)).bind fun _ _ => safe_ok _

variable {s : MemoryStore} {bounds : EventReadBounds} {clock : Clock}

def Stored (s : MemoryStore) (chain : List TimelineId) : Prop := ∀ t ∈ chain, ∃ st, s.timelines.lookup t = some st

theorem forkChainBoundedLoop_yields (s : MemoryStore) (bounds : EventReadBounds) (clock : Clock) :
    ∀ (fuel : Nat) (chain : List TimelineId) (depth : Nat) (t : TimelineId), s.Stored chain →
      Yields (s.forkChainBoundedLoop bounds clock fuel chain depth t) s.Stored
  | 0, chain, depth, t, _ => by
    refine (checkElapsed_safe _ _).yields.bind fun _ _ _ => ?_
    split
    · exact yields_core _
    · exact yields_core _
  | fuel + 1, chain, depth, t, hchain => by
    refine (checkElapsed_safe _ _).yields.bind fun _ _ _ => ?_
    split
    · exact yields_core _
    rcases hst : s.timelines.lookup t with _ | st
    · exact yields_core _
    have hstored : s.Stored (t :: chain) := by
      intro x hx
      rcases mem_cons.mp hx with rfl | hx
      · exact ⟨st, hst⟩
      · exact hchain x hx
    dsimp only
    split
    · split
      · exact yields_core _
      · exact forkChainBoundedLoop_yields s bounds clock fuel (t :: chain) (depth + 1) _ hstored
    · exact yields_ok hstored

variable {t : TimelineId} {st : TimelineState}

theorem stateOf_eq (h : s.timelines.lookup t = some st) : s.stateOf t = .ok st := by
  simp [stateOf, h]

variable {chain : List TimelineId}

theorem forkCap_safe (hc : s.Stored chain) (index : Nat) : Safe (s.forkCap chain index) := by
  unfold forkCap
  split
  · exact safe_ok _
  · rename_i child hchild
    obtain ⟨st, hst⟩ := hc child (mem_of_getElem? hchild)
    rw [stateOf_eq hst, ok_bind]
    exact safe_ok _

theorem cappedLength_safe (t : TimelineId) (count offset : Nat) (cap : Option Seq) :
    Safe (cappedLength t count offset cap) := by
  unfold cappedLength
  split
  · exact safe_ok _
  split
  · exact safe_ok _
  · exact safe_core _

/-- A segment is no longer than the Timeline that owns it. -/
theorem boundedSegmentLength_yields (hc : s.Stored chain) (hst : s.timelines.lookup t = some st) (index offset : Nat) :
    Yields (s.boundedSegmentLength chain index t offset) fun n => n ≤ st.events.length := by
  unfold boundedSegmentLength
  rw [stateOf_eq hst, ok_bind]
  refine (forkCap_safe hc index).yields.bind fun cap _ _ => (cappedLength_safe _ _ _ cap).yields.bind fun n _ _ => ?_
  split
  · exact yields_core _
  · rename_i hle
    exact yields_ok (Nat.not_lt.mp hle)

/-- The plan names a slice that its Timeline owns. -/
def Fits (s : MemoryStore) (plan : BoundedSegmentPage) : Prop :=
  ∃ st, s.timelines.lookup plan.timeline = some st ∧ 1 ≤ plan.rawStart ∧
    plan.rawStart - 1 + plan.take ≤ st.events.length ∧ plan.rawStart - 1 + plan.take ≤ u64Max

theorem planBoundedSegment_yields (hc : s.Stored chain) (ht : t ∈ chain)
    (hoff : offset < u64Max) (index lo hi remaining total : Nat) :
    Yields (s.planBoundedSegment bounds clock chain index t offset lo hi remaining total) fun r =>
      ∀ plan ∈ r.1, s.Fits plan := by
  obtain ⟨st, hst⟩ := hc t ht
  refine (checkElapsed_safe _ _).yields.bind fun _ _ _ => ?_
  rw [stateOf_eq hst, ok_bind]
  split
  · exact yields_core _
  refine (boundedSegmentLength_yields hc hst index offset).bind fun n _ hlen => ?_
  split
  · exact yields_ok (by simp)
  · rename_i page hpage
    obtain ⟨h1, h2, h3⟩ := planPage_bounds hpage hoff
    have hslice := h2.trans hlen
    rw [pageSlice_eq h1 hslice h3, ok_bind]
    refine (examineEvents_safe bounds clock t index page.rawStart _ 0 total).yields.bind fun total' _ _ => yields_ok ?_
    rintro plan ⟨rfl⟩
    exact ⟨st, hst, h1, hslice, h3⟩

theorem planBoundedLoop_yields (bounds : EventReadBounds) (clock : Clock) (hc : s.Stored chain) (lo : Nat) {hi : Nat}
    (hhi : hi ≤ u64Max) : ∀ (rest : List (TimelineId × Nat)) (offset remaining total : Nat), (∀ p ∈ rest, p.1 ∈ chain) →
      offset < u64Max → Yields (s.planBoundedLoop bounds clock chain lo hi rest offset remaining total) fun plans =>
        ∀ plan ∈ plans, s.Fits plan
  | [], offset, remaining, total, _, _ => yields_ok (by simp)
  | (t, index) :: rest, offset, remaining, total, hmem, hoff => by
    have ht : t ∈ chain := hmem (t, index) mem_cons_self
    obtain ⟨st, hst⟩ := hc t ht
    refine (planBoundedSegment_yields hc ht hoff index lo hi remaining total).bind fun ⟨planned, total'⟩ _ hplanned => ?_
    have hfit : ∀ plan ∈ planned.toList, s.Fits plan := by
      intro plan hplan
      exact hplanned plan (Option.mem_toList.mp hplan)
    refine (boundedSegmentLength_yields hc hst index offset).bind fun n _ _ => ?_
    split
    · exact yields_ok hfit
    · refine (planBoundedLoop_yields bounds clock hc lo hhi rest _ _ _
        (fun p hp => hmem p (mem_cons_of_mem _ hp)) (by omega)).bind fun plans _ hplans => yields_ok ?_
      intro plan hplan
      rcases mem_append.mp hplan with hplan | hplan
      · exact hfit plan hplan
      · exact hplans plan hplan

theorem materializeLoop_safe : ∀ (plans : List BoundedSegmentPage) (index : Nat), (∀ plan ∈ plans, s.Fits plan) →
    Safe (s.materializeLoop bounds clock index plans)
  | [], index, _ => (checkElapsed_safe _ _).bind fun _ _ => safe_ok _
  | plan :: plans, index, hfit => by
    obtain ⟨st, hst, h1, h2, h3⟩ := hfit plan mem_cons_self
    refine (checkElapsed_safe _ _).bind fun _ _ => ?_
    rw [stateOf_eq hst, ok_bind, pageSlice_eq h1 h2 h3, ok_bind]
    refine (cloneEvents_safe bounds clock index _ _ 0).bind fun _ _ => ?_
    exact (materializeLoop_safe plans (index + 1) fun p hp => hfit p (mem_cons_of_mem _ hp)).bind
      fun _ _ => safe_ok _

/-- In every store, no bounded read indexes a slice or a Timeline that is not there. -/
theorem collectEventsInRangeBounded_safe (s : MemoryStore) (t : TimelineId) {range : SeqRange}
    (hrange : ∀ hi ∈ range.hi, hi ≤ u64Max) (bounds : EventReadBounds) (clock : Clock) :
    Safe (s.collectEventsInRangeBounded t range bounds clock) := by
  have hhi : range.hi.getD u64Max ≤ u64Max := by
    rcases hr : range.hi with _ | hi
    · exact Nat.le_refl _
    · exact hrange hi (by rw [hr]; rfl)
  unfold collectEventsInRangeBounded
  split
  · exact safe_core _
  obtain ⟨hwalk, hstored⟩ := forkChainBoundedLoop_yields s bounds clock
    s.timelines.keys.card [] 0 t (by simp [Stored])
  refine Safe.bind hwalk fun chain hchain => ?_
  obtain ⟨hplan, hfits⟩ := planBoundedLoop_yields bounds clock (hstored chain hchain) _
    hhi chain.zipIdx 0 bounds.events 0 (fun p hp => (mem_zipIdx' hp).2 ▸ getElem_mem _) (by decide)
  exact Safe.bind hplan fun plans hplans => materializeLoop_safe plans 0 (hfits plans hplans)

end MemoryStore

end Piglor
