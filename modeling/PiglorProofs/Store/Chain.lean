/-
Fork chains and the reads over them (memory.rs, stitch.rs): the walk to the root, each segment's
prefix and length, the stitched read, the logical head, the chain hash at a cut, and the lookup of
one Event. The Rust loop of the walk keeps a visited set; here it runs on as much fuel as there are
Timelines, since the visited ids are distinct and stored (`forkChain_eq_of_spine` shows the fuel is
enough for every chain that ends).
-/
import PiglorProofs.Store.State
import PiglorProofs.Lib.CowForest

namespace Piglor

/-- The Timelines from the root to the read one, and the cuts between them. -/
structure ForkChain where
  timelines : List TimelineId
  forkSeqs : List Seq

namespace MemoryStore

/-- The own Events of a Timeline whose id the caller has validated. -/
def ownEvents (s : MemoryStore) (id : TimelineId) : List Event :=
  match s.timelines.lookup id with
  | some state => state.events
  | none => []

/-- The local head of a Timeline whose id the caller has validated. -/
def localHead (s : MemoryStore) (id : TimelineId) : Nat :=
  match s.timelines.lookup id with
  | some state => state.timeline.head
  | none => 0

/-- The stored chain head of a Timeline whose id the caller has validated. -/
def chainHead (s : MemoryStore) (id : TimelineId) : Hash :=
  match s.timelines.lookup id with
  | some state => state.chainHead
  | none => 0

def cycleError (current : TimelineId) : CoreError :=
  .storage ("fork ancestry contains a cycle at timeline " ++ current.display)

/-- The walk to the root. The source pushes and reverses at the end; pushing at the front does both. -/
def forkChainLoop (s : MemoryStore) : Nat → List TimelineId → List Seq → TimelineId → CoreResult ForkChain
  | 0, chain, _, current =>
    -- every stored Timeline is on the chain already
    if current ∈ chain then .error (cycleError current) else .error (.timelineNotFound current)
  | fuel + 1, chain, forkSeqs, current =>
    if current ∈ chain then .error (cycleError current)
    else match s.timelines.lookup current with
      | none => .error (.timelineNotFound current)
      | some state => match state.timeline.metadata.forkPoint with
        | some (parent, forkSeq) => forkChainLoop s fuel (current :: chain) (forkSeq :: forkSeqs) parent
        | none => .ok ⟨current :: chain, forkSeqs⟩

def forkChain (s : MemoryStore) (timeline : TimelineId) : CoreResult ForkChain :=
  s.forkChainLoop s.timelines.keys.card [] [] timeline

end MemoryStore

namespace ForkChain

def segmentPrefix (chain : ForkChain) (index : Nat) : CoreResult Nat :=
  if index = 0 then .ok 0
  else match chain.forkSeqs[index - 1]? with
    | some fork => .ok fork
    | none => .error (.storage "Fork chain is missing a logical prefix")

def precedesError (timeline : TimelineId) : CoreError :=
  .storage ("Fork point precedes inherited history for timeline " ++ timeline.display)

def exceedsError (timeline : TimelineId) : CoreError :=
  .storage ("Fork point exceeds parent logical Event head for timeline " ++ timeline.display)

/-- How many own Events a segment contributes: up to the next cut, or all of them for the last. -/
def segmentLength (chain : ForkChain) (s : MemoryStore) (index : Nat) (timeline : TimelineId) :
    CoreResult Nat := do
  let pre ← chain.segmentPrefix index
  let localHead := s.localHead timeline
  let length ← match chain.forkSeqs[index]? with
    | some fork => match checkedSub fork pre with
      | some n => Except.ok n
      | none => .error (precedesError timeline)
    | none => .ok localHead
  if length > localHead then .error (exceedsError timeline) else .ok length

end ForkChain

/-- Assign logical sequences `1..n` in chain order and apply the range. -/
def renumberAndFilter (segments : List Event) (range : SeqRange) : List Event :=
  (segments.zipIdx.map fun (e, i) => { e with seq := i + 1 }).filter fun e => range.contains e.seq

namespace MemoryStore

variable (s : MemoryStore) (timeline : TimelineId)

/-- One turn of the stitched read: add what the segment contributes. -/
def collectSegment (chain : ForkChain) (all : List Event) (segment : TimelineId × Nat) :
    CoreResult (List Event) := do
  let _ ← s.timeline segment.1
  let length ← chain.segmentLength s segment.2 segment.1
  .ok (all ++ (s.ownEvents segment.1).filter fun e => decide (e.seq ≤ length))

def collectEventsInRange (range : SeqRange) : CoreResult (List Event) := do
  let chain ← s.forkChain timeline
  let all ← chain.timelines.zipIdx.foldlM (s.collectSegment chain) []
  .ok (renumberAndFilter all range)

/-- One turn of the logical head: add the segment's length. -/
def addSegmentLength (chain : ForkChain) (head : Nat) (segment : TimelineId × Nat) : CoreResult Nat := do
  let length ← chain.segmentLength s segment.2 segment.1
  match checkedAdd head length with
  | some n => .ok n
  | none => .error (.storage "logical Timeline head overflow")

def logicalHeadUnchecked : CoreResult Nat := do
  let chain ← s.forkChain timeline
  chain.timelines.zipIdx.foldlM (s.addSegmentLength chain) 0

/-- The second pass of the chain hash: fold each segment up to the cut, and stop there. -/
def chainHashLoop (s : MemoryStore) (chain : ForkChain) (logicalHead atSeq : Nat) :
    List (TimelineId × Nat) → Hash → Nat → Hash
  | [], hash, _ => hash
  | (tid, i) :: rest, hash, offset =>
    let logicalEnd := chain.forkSeqs[i]?.getD logicalHead
    let stop := min logicalEnd atSeq - offset
    let hash := s.hasher.chain hash ((s.ownEvents tid).takeWhile fun e => decide (e.seq ≤ stop))
    if offset + stop = atSeq then hash else chainHashLoop s chain logicalHead atSeq rest hash (offset + stop)

def computeChainHashAt (atSeq : Seq) : CoreResult Hash := do
  let chain ← s.forkChain timeline
  let logicalHead ← s.logicalHeadUnchecked timeline
  if atSeq > logicalHead then .error (.forkBeyondHead atSeq logicalHead)
  else if atSeq = 0 then .ok s.hasher.genesisHash
  else .ok (s.chainHashLoop chain logicalHead atSeq chain.timelines.zipIdx s.hasher.genesisHash 0)

/-- Apply each stitched segment's own erasure decision. -/
def authorizeInheritedScopes : CoreResult Unit := do
  let _ ← s.validatedErasureGate
  let chain ← s.forkChain timeline
  chain.timelines.forM s.erasureFence

/-! ## The read operations -/

def read (range : SeqRange) : CoreResult (List Event) := do
  s.erasureFence timeline
  s.ensureGenericTimelineVisibility timeline
  s.authorizeInheritedScopes timeline
  s.collectEventsInRange timeline range

def logicalHead : CoreResult Nat := do
  s.erasureFence timeline
  s.ensureGenericTimelineVisibility timeline
  s.logicalHeadUnchecked timeline

def chainHashAt (atSeq : Seq) : CoreResult Hash := do
  s.erasureFence timeline
  s.ensureGenericTimelineVisibility timeline
  s.authorizeInheritedScopes timeline
  s.computeChainHashAt timeline atSeq

def getTimeline (id : TimelineId) : CoreResult (Option Timeline) := do
  s.erasureFence id
  match s.timelines.lookup id with
  | none => .ok none
  | some state => .ok (if id ∈ s.geographicTimelines then none else some state.timeline)

/-- Scan the segments in order for an Event id; the first hit is shown at its logical sequence. -/
def findInSegments (s : MemoryStore) (chain : ForkChain) (eventId : EventId) :
    List (TimelineId × Nat) → CoreResult (Option Event)
  | [] => .ok none
  | (tid, i) :: rest => do
    let pre ← chain.segmentPrefix i
    let limit ← chain.segmentLength s i tid
    match (s.ownEvents tid).find? fun e => decide (e.seq ≤ limit) && decide (e.id = eventId) with
    | some event => (logicalEvent pre event).map some
    | none => findInSegments s chain eventId rest

def readEventById (eventId : EventId) : CoreResult (Option Event) := do
  s.erasureFence timeline
  s.authorizeInheritedScopes timeline
  s.ensureGenericTimelineVisibility timeline
  let chain ← s.forkChain timeline
  s.findInSegments chain eventId chain.timelines.zipIdx

end MemoryStore

end Piglor
