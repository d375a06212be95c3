/-
The SQLite adapter's stitched reads (sqlite.rs): the decoded `timelines` row of each Fork, the two
walks to the root, the plain stitched read and the logical head, and the bounded page with its
metadata query. Integer columns hold an `i64`. The gate and visibility checks in front of the reads
and the failures of a SQL statement itself are not part of it.
-/
import PiglorProofs.Store.BoundedRead

namespace Piglor

/-! ## Rows -/

/-- An INTEGER column. -/
abbrev I64 := { n : Int // -2 ^ 63 ≤ n ∧ n < 2 ^ 63 }

/-- `u64::try_from`. -/
def I64.toU64 (n : I64) : Option Nat := if 0 ≤ n.val then some n.val.toNat else none

/-- A sequence as a query parameter: saturates at `i64::MAX`. -/
def seqAsI64 (seq : Seq) : Nat := min seq i64Max

/-- The columns of `timelines` the walk reads; a parent text that is not a ULID is an error. -/
structure ForkChainRow where
  parentId : Option (Except String TimelineId)
  forkSeq : Option I64
  headSeq : I64

inductive DecodedForkChainRow where
  | root (head : Nat)
  | fork (parent : TimelineId) (fork : Seq) (head : Nat)
deriving DecidableEq

inductive ForkChainRowError where
  | negativeHead
  | rootForkSequence
  | invalidParent (parent : String)
  | negativeForkSequence
  | missingForkSequence
deriving DecidableEq

def ForkChainRowError.intoCore (current : TimelineId) : ForkChainRowError → CoreError
  | .negativeHead => .storage ("timeline " ++ current.display ++ " has a negative Event head")
  | .rootForkSequence => .storage ("root timeline " ++ current.display ++ " has Fork sequence metadata")
  | .invalidParent parent => .serialization ("invalid ULID: " ++ parent)
  | .negativeForkSequence => .storage ("Fork timeline " ++ current.display ++ " has a negative Fork sequence")
  | .missingForkSequence => .storage ("Fork timeline " ++ current.display ++ " is missing its Fork sequence")

def ForkChainRow.decodeFields (row : ForkChainRow) : Except ForkChainRowError DecodedForkChainRow :=
  match row.headSeq.toU64 with
  | none => .error .negativeHead
  | some head => match row.parentId, row.forkSeq with
    | none, none => .ok (.root head)
    | none, some _ => .error .rootForkSequence
    | some (.error parent), some _ => .error (.invalidParent parent)
    | some (.ok parent), some forkSeq => match forkSeq.toU64 with
      | none => .error .negativeForkSequence
      | some fork => .ok (.fork parent fork head)
    | some _, none => .error .missingForkSequence

inductive StorageClass where
  | null
  | integer
  | real
  | text
  | blob
deriving DecidableEq

/-- What `typeof` answers. -/
def StorageClass.name : StorageClass → String
  | .null => "null"
  | .integer => "integer"
  | .real => "real"
  | .text => "text"
  | .blob => "blob"

/-- A row of `events`: the Event its columns decode to, and the storage class of its payload. -/
structure EventRow where
  event : Event
  payloadType : StorageClass

/-- The tables a stitched read queries. The rows of a Timeline stand in ascending sequence. -/
structure SqliteStore where
  timelines : Table TimelineId ForkChainRow
  events : TimelineId → List EventRow

/-- The points at which a bounded read looks at the clock. -/
inductive SqliteCheckpoint where
  | chain (depth : Nat)
  | segment (index : Nat)
  | metadataRow (index turn : Nat)
  | fieldSizes (index offset : Nat)
  | page (index : Nat)
  | eventRow (page turn : Nat)
  | materialized (page : Nat)
  | done
deriving DecidableEq

abbrev SqliteClock := SqliteCheckpoint → Nat

def ensureReadTimeBound (elapsedMicros maxElapsedMicros : Nat) : CoreResult Unit :=
  if elapsedMicros > maxElapsedMicros then .error (.readTimeTooLarge elapsedMicros) else .ok ()

/-! ## Segment lengths -/

inductive ForkSegmentError where
  | beforeInheritedHistory
  | beyondParentHead
deriving DecidableEq

def ForkSegmentError.intoCore (timeline : TimelineId) : ForkSegmentError → CoreError
  | .beforeInheritedHistory => ForkChain.precedesError timeline
  | .beyondParentHead => ForkChain.exceedsError timeline

def forkSegmentLength (pre localHead : Nat) (nextCut : Option Nat) : Except ForkSegmentError Nat := do
  let length ← match nextCut with
    | none => Except.ok localHead
    | some cut => match checkedSub cut pre with
      | some length => .ok length
      | none => .error .beforeInheritedHistory
  if length > localHead then .error .beyondParentHead else .ok length

/-- A stitched ancestry: each Timeline with its cut, zero for the root. -/
abbrev SqliteForkChain := List (TimelineId × Seq)

structure BoundedForkSegment where
  id : TimelineId
  fork : Option Seq
  head : Nat

structure SqliteSegmentPage where
  id : TimelineId
  rawFrom : Nat
  rawTo : Nat
  take : Nat
  logicalOffset : Nat
  bounds : EventReadBounds

namespace SqliteStore

variable (q : SqliteStore) (timeline : TimelineId)

/-- The text of `QueryReturnedNoRows`. -/
def noRows : CoreError := .storage "Query returned no rows"

def forkChainRow (current : TimelineId) : CoreResult DecodedForkChainRow :=
  match q.timelines.lookup current with
  | none => .error (.timelineNotFound current)
  | some row => row.decodeFields.mapError (ForkChainRowError.intoCore current)

def getHeadSeqOn : CoreResult Nat :=
  match q.timelines.lookup timeline with
  | none => .error noRows
  | some row => .ok (row.headSeq.toU64.getD 0)

def sqliteForkPrefix : Option I64 → CoreResult Nat
  | none => .ok 0
  | some value => match value.toU64 with
    | some n => .ok n
    | none => .error (.storage "invalid Fork prefix sequence")

def readOriginPrefix : CoreResult Nat :=
  match q.timelines.lookup timeline with
  | none => .error noRows
  | some row => sqliteForkPrefix row.forkSeq

/-! ## The walks to the root -/

/-- The plain walk and the leaf's head. As in the in-memory walk, the fuel covers every stored Timeline. -/
def forkChainLoop : Nat → SqliteForkChain → Nat → TimelineId → CoreResult (SqliteForkChain × Nat)
  | 0, chain, _, current =>
    if current ∈ chain.map Prod.fst then .error (MemoryStore.cycleError current)
    else .error (.timelineNotFound current)
  | fuel + 1, chain, leafHead, current =>
    if current ∈ chain.map Prod.fst then .error (MemoryStore.cycleError current)
    else do
      match ← q.forkChainRow current with
      | .root head => .ok ((current, 0) :: chain, if chain.isEmpty then head else leafHead)
      | .fork parent fork head =>
        forkChainLoop fuel ((current, fork) :: chain) (if chain.isEmpty then head else leafHead) parent

def forkChainWithLeafHeadOn : CoreResult (SqliteForkChain × Nat) :=
  q.forkChainLoop q.timelines.keys.card [] 0 timeline

def forkChainOn : CoreResult SqliteForkChain :=
  (q.forkChainWithLeafHeadOn timeline).map Prod.fst

/-- The bounded walk keeps no visited set: it ends at the depth. `left` parent links are allowed still. -/
def forkChainBoundedLoop (maxElapsedMicros : Nat) (clock : SqliteClock) :
    Nat → List BoundedForkSegment → TimelineId → CoreResult (List BoundedForkSegment)
  | left, chain, current => do
    ensureReadTimeBound (clock (.chain chain.length)) maxElapsedMicros
    match ← q.forkChainRow current with
    | .root head => .ok (⟨current, none, head⟩ :: chain)
    | .fork parent fork head => match left with
      | 0 => .error (.forkDepthTooLarge (chain.length + 1))
      | left + 1 => forkChainBoundedLoop maxElapsedMicros clock left (⟨current, some fork, head⟩ :: chain) parent

def forkChainBoundedOn (bounds : EventReadBounds) (clock : SqliteClock) (timeline : TimelineId) :
    CoreResult (List BoundedForkSegment) :=
  q.forkChainBoundedLoop bounds.maxElapsedMicros clock bounds.forkDepth [] timeline

/-! ## The logical head -/

def logicalSegmentLengthOn (chain : SqliteForkChain) (index : Nat) (timeline : TimelineId) :
    CoreResult Nat := do
  let pre := (chain[index]?.map Prod.snd).getD 0
  let localHead ← q.getHeadSeqOn timeline
  (forkSegmentLength pre localHead (chain[index + 1]?.map Prod.snd)).mapError (ForkSegmentError.intoCore timeline)

def addLogicalSegment (logicalHead segment : Nat) : CoreResult Nat :=
  match checkedAdd logicalHead segment with
  | some n => .ok n
  | none => .error (.storage "logical Timeline head overflow")

def addSegment (chain : SqliteForkChain) (logicalHead : Nat) (member : (TimelineId × Seq) × Nat) :
    CoreResult Nat := do
  let segment ← q.logicalSegmentLengthOn chain member.2 member.1.1
  addLogicalSegment logicalHead segment

def logicalHeadUncheckedOn (id : TimelineId) : CoreResult Nat := do
  let chain ← q.forkChainOn id
  chain.zipIdx.foldlM (q.addSegment chain) 0

/-! ## Own Events -/

/-- The `WHERE`, `ORDER BY` and `LIMIT` of both Event queries. -/
def queryRows (lo : Seq) (hi : Option Seq) (limit : Nat) : List EventRow :=
  ((q.events timeline).filter fun row =>
    decide (seqAsI64 lo ≤ row.event.seq) && hi.all fun hi => decide (row.event.seq ≤ seqAsI64 hi)).take
      (min limit i64Max)

/-- A row's Event with its committed origin. -/
def decodeOwnEvent (row : EventRow) (timeline : TimelineId) (inheritedPrefix : Nat) : CoreResult Event :=
  finalizeCommittedOrigin timeline inheritedPrefix row.event

/-- Step through the rows; a bounded read looks at the clock before each and twice at the end. -/
def stepRows (elapsed : Option (Nat → Nat)) (maxElapsedMicros : Nat) (timeline : TimelineId) (inheritedPrefix : Nat) :
    Nat → List EventRow → CoreResult (List Event)
  | turn, [] => do
    (elapsed.elim (.ok ()) fun reading => ensureReadTimeBound (reading turn) maxElapsedMicros)
    (elapsed.elim (.ok ()) fun reading => ensureReadTimeBound (reading (turn + 1)) maxElapsedMicros)
    .ok []
  | turn, row :: rows => do
    (elapsed.elim (.ok ()) fun reading => ensureReadTimeBound (reading turn) maxElapsedMicros)
    let event ← decodeOwnEvent row timeline inheritedPrefix
    let events ← stepRows elapsed maxElapsedMicros timeline inheritedPrefix (turn + 1) rows
    .ok (event :: events)

def readOwnEventsLimitedOn (lo : Seq) (hi : Option Seq) (limit : Option Nat)
    (elapsed : Option (Nat → Nat)) (maxElapsedMicros : Nat) : CoreResult (List Event) := do
  let inheritedPrefix ← q.readOriginPrefix timeline
  stepRows elapsed maxElapsedMicros timeline inheritedPrefix 0 (q.queryRows timeline lo hi (limit.getD i64Max))

def readOwnEventsOn (lo : Seq) (hi : Option Seq) : CoreResult (List Event) :=
  q.readOwnEventsLimitedOn timeline lo hi none none u64Max

/-! ## The plain read -/

/-- One turn of the stitched read: a segment before the last is cut, the last is read whole. -/
def extendSegment (chain : SqliteForkChain) (all : List Event) (entry : (TimelineId × Seq) × Nat) :
    CoreResult (List Event) := do
  let ((member, logicalPrefix), index) := entry
  match chain[index + 1]? with
  | some (_, logicalFork) => match checkedSub logicalFork logicalPrefix with
    | none => .error (ForkChain.precedesError member)
    | some localLimit => do
      let localHead ← q.getHeadSeqOn member
      if localLimit > localHead then
        .error (ForkChain.exceedsError member)
      else
        let events ← q.readOwnEventsOn member 0 (some localLimit)
        .ok (all ++ events)
  | none => do
    let events ← q.readOwnEventsOn member 0 none
    .ok (all ++ events)

def readUncheckedOn (range : SeqRange) : CoreResult (List Event) := do
  let chain ← q.forkChainOn timeline
  let all ← chain.zipIdx.foldlM (q.extendSegment chain) []
  .ok (renumberAndFilter all range)

/-! ## The bounded read -/

variable (bounds : EventReadBounds) (clock : SqliteClock)

/-- The size checks of the selected rows, in sequence; the segment's bytes. -/
def validateBoundedEventMetadata (index : Nat) :
    Nat → Nat → List EventRow → CoreResult Nat
  | _, total, [] => .ok total
  | offset, total, row :: rows => do
    ensureReadTimeBound (clock (.fieldSizes index offset)) bounds.maxElapsedMicros
    if row.payloadType ≠ .blob then
      .error (.storage ("event payload has SQLite storage class " ++ row.payloadType.name ++
        "; BLOB is required for bounded reads"))
    else if row.event.payload.length > bounds.payloadBytes then .error (.payloadTooLarge row.event.payload.length)
    else if row.event.eventType.utf8ByteSize > bounds.eventTypeBytes then
      .error (.eventMetadataTooLarge "event_type" row.event.eventType.utf8ByteSize)
    else
      let total := saturatingAdd total (saturatingAdd row.event.payload.length row.event.eventType.utf8ByteSize)
      if total > bounds.totalBytes then .error (.readBytesTooLarge total)
      else validateBoundedEventMetadata index (offset + 1) total rows

def validateOwnEventsBounded (index : Nat) (timeline : TimelineId) (lo hi : Seq) (maxEvents : Nat) :
    CoreResult Nat := do
  let rows := q.queryRows timeline lo (some hi) maxEvents
  -- once before each row, once at the end of the rows, and once after the loop
  (List.range (rows.length + 2)).forM fun turn =>
    ensureReadTimeBound (clock (.metadataRow index turn)) bounds.maxElapsedMicros
  if rows.length ≠ maxEvents then .error (contiguityError timeline)
  else validateBoundedEventMetadata bounds clock index 0 0 rows

/-- The segment's bytes against what is left of the total; a refusal reports the whole read's size. -/
def segmentBytes (index total : Nat) (page : SqliteSegmentPage) : CoreResult Nat :=
  match q.validateOwnEventsBounded page.bounds clock index page.id page.rawFrom page.rawTo page.take with
  | .error (.readBytesTooLarge size) => .error (.readBytesTooLarge (saturatingAdd total size))
  | result => result

/-- What a bounded segment contributes before the next one's cut. -/
def boundedSegmentLength (segment : BoundedForkSegment) (next : Option Seq) : CoreResult Nat := do
  let segmentPrefix := segment.fork.getD 0
  let segmentLen ← match next with
    | none => Except.ok segment.head
    | some cap => match checkedSub cap segmentPrefix with
      | some n => .ok n
      | none => .error (ForkChain.precedesError segment.id)
  if segmentLen > segment.head then
    .error (ForkChain.exceedsError segment.id)
  else .ok segmentLen

/-- Plan segment after segment, until the page is full or the range ends. -/
def planBoundedLoop (lo hi : Nat) :
    List BoundedForkSegment → Nat → Nat → Nat → Nat → CoreResult (List SqliteSegmentPage)
  | [], _, _, _, _ => .ok []
  | segment :: rest, index, logicalOffset, remaining, total => do
    ensureReadTimeBound (clock (.segment index)) bounds.maxElapsedMicros
    let segmentLen ← boundedSegmentLength segment (rest.head?.bind BoundedForkSegment.fork)
    let planned : Option SqliteSegmentPage :=
      (planPage logicalOffset segmentLen lo hi remaining).map fun plan =>
        { id := segment.id
          rawFrom := plan.rawStart
          rawTo := saturatingAdd plan.rawStart (plan.take - 1)
          take := plan.take
          logicalOffset := logicalOffset
          bounds := { bounds with totalBytes := bounds.totalBytes - total } }
    let bytes ← planned.elim (.ok 0) (q.segmentBytes clock index total)
    let remaining := remaining - (planned.map SqliteSegmentPage.take).getD 0
    if remaining = 0 ∨ saturatingAdd logicalOffset segmentLen ≥ hi then .ok planned.toList
    else do
      let plans ← planBoundedLoop lo hi rest (index + 1) (saturatingAdd logicalOffset segmentLen)
        remaining (saturatingAdd total bytes)
      .ok (planned.toList ++ plans)

def planBoundedPages (chain : List BoundedForkSegment) (lo hi : Nat) : CoreResult (List SqliteSegmentPage) :=
  q.planBoundedLoop bounds clock lo hi chain 0 0 bounds.events 0

def materializeBoundedPage (index : Nat) (plan : SqliteSegmentPage) : CoreResult (List Event) := do
  ensureReadTimeBound (clock (.page index)) bounds.maxElapsedMicros
  let events ← q.readOwnEventsLimitedOn plan.id plan.rawFrom (some plan.rawTo) (some plan.take)
    (some fun turn => clock (.eventRow index turn)) plan.bounds.maxElapsedMicros
  .ok (events.map fun event => { event with seq := saturatingAdd plan.logicalOffset event.seq })

def materializeBoundedPages : Nat → List SqliteSegmentPage → CoreResult (List Event)
  | _, [] => do
    ensureReadTimeBound (clock .done) bounds.maxElapsedMicros
    .ok []
  | index, plan :: plans => do
    let events ← q.materializeBoundedPage bounds clock index plan
    ensureReadTimeBound (clock (.materialized index)) bounds.maxElapsedMicros
    let rest ← materializeBoundedPages (index + 1) plans
    .ok (events ++ rest)

def readLogicalBounded (range : SeqRange) (bounds : EventReadBounds)
    (clock : SqliteClock) : CoreResult (List Event) := do
  let chain ← q.forkChainBoundedOn bounds clock timeline
  let plans ← q.planBoundedPages bounds clock chain (max range.lo 1) (range.hi.getD u64Max)
  q.materializeBoundedPages bounds clock 0 plans

end SqliteStore

end Piglor
