/-
The two adapters stitch alike. Over one chain of segments, whatever its cuts, both measure every
segment the same, refuse at the same segment with the same error, and compute the same logical head,
the same stitched read, the same local windows and the same bounded page.
-/
import PiglorProofs.Sqlite.Chain
import PiglorProofs.Store.BoundedPage

namespace Piglor

open CowForest Checked Segment SqliteStore List SqliteSegmentPage EventRow

/-- A result of the store as a result of a read that could also panic. -/
def lift {α : Type} (x : CoreResult α) : Except Fault α := x.mapError Fault.core

variable {α : Type}

theorem lift_ok (a : α) : lift (.ok a) = .ok a := by
  rw [lift, Except.mapError]

theorem lift_bind {β : Type} (x : CoreResult α) (f : α → CoreResult β) :
    lift (x >>= f) = lift x >>= fun a => lift (f a) := by
  cases x <;> rfl

/-! ## The stored segments -/

theorem I64.toU64_eq_some {n : I64} {k : Nat} (h : n.toU64 = some k) : n.val = k ∧ k ≤ i64Max := by
  unfold I64.toU64 at h
  split at h
  · cases h
    unfold i64Max
    omega
  · cases h

/-- The row a Timeline of the chain is stored as. -/
def EventRow.stored (event : Event) : EventRow := ⟨event, .blob⟩

def DecodedForkChainRow.log (own : List Event) : DecodedForkChainRow → Log TimelineId Event
  | .root _ => ⟨none, own⟩
  | .fork parent cut _ => ⟨some (parent, cut), own⟩

def DecodedForkChainRow.head : DecodedForkChainRow → Nat
  | .root head => head
  | .fork _ _ head => head

variable {bounds : EventReadBounds} {x : Segment TimelineId Event} {q : SqliteStore} {t : TimelineId}
  {L : List (Segment TimelineId Event)} {head : Nat}

namespace SqliteStore

def log (q : SqliteStore) (t : TimelineId) : Option (Log TimelineId Event) :=
  (q.forkChainRow t).toOption.map (DecodedForkChainRow.log ((q.events t).map EventRow.event))

theorem row_of_log {l : Log TimelineId Event} (h : q.log t = some l) :
    ∃ row, q.forkChainRow t = .ok row ∧ row.log ((q.events t).map event) = l := by
  unfold log at h
  rcases hrow : q.forkChainRow t with e | row
  · rw [hrow] at h; cases h
  · rw [hrow] at h; cases h
    exact ⟨row, rfl, rfl⟩

theorem queries_of_row {row : DecodedForkChainRow} (h : q.forkChainRow t = .ok row) (own : List Event) :
    q.getHeadSeqOn t = .ok row.head ∧ q.readOriginPrefix t = .ok (row.log own).start ∧
      (row.log own).start ≤ i64Max ∧ row.head ≤ i64Max ∧ t ∈ q.timelines.keys := by
  unfold forkChainRow at h
  split at h
  · cases h
  rename_i raw hraw
  have hmem : t ∈ q.timelines.keys := by
    rw [Finmap.mem_keys, ← Finmap.lookup_isSome, hraw]
    rfl
  unfold ForkChainRow.decodeFields at h
  unfold getHeadSeqOn readOriginPrefix
  rw [hraw]
  rcases hhead : raw.headSeq.toU64 with _ | head
  · rw [hhead] at h; cases h
  have hle := (I64.toU64_eq_some hhead).2
  rw [hhead] at h
  dsimp only at h ⊢
  split at h
  · rename_i hfork
    cases h
    rw [hhead, hfork]
    exact ⟨rfl, rfl, Nat.zero_le _, hle, hmem⟩
  · cases h
  · cases h
  · rename_i parent forkSeq _ hfork
    split at h
    · cases h
    · rename_i fork hcut
      cases h
      rw [hhead, hfork]
      refine ⟨rfl, ?_, (I64.toU64_eq_some hcut).2, hle, hmem⟩
      simp only [sqliteForkPrefix, hcut]
      rfl
  · cases h

/-- A segment of the chain as its rows hold it. -/
structure Holds (q : SqliteStore) (head : Nat) (x : Segment TimelineId Event) : Prop where
  headSeq : q.getHeadSeqOn x.key = .ok head
  originPrefix : q.readOriginPrefix x.key = .ok x.start
  start_le : x.start ≤ i64Max
  head_le : head ≤ i64Max

theorem holds_of_spine (h : Spine q.log t L) (hx : x ∈ L)
    (hhead : q.getHeadSeqOn x.key = .ok head) : q.Holds head x := by
  obtain ⟨l, -, hl, hstart, -, -⟩ := h.mem hx
  obtain ⟨row, hrow, rfl⟩ := row_of_log hl
  obtain ⟨hseq, hpre, hle, hhle, -⟩ := queries_of_row hrow ((q.events x.key).map event)
  cases hseq.symm.trans hhead
  exact ⟨hhead, hstart ▸ hpre, hstart ▸ hle, hhle⟩

/-! ## The walks -/

/-- The chain the plain walk finds for a spine. -/
def chainOf (L : List (Segment TimelineId Event)) : SqliteForkChain := L.map fun x => (x.key, x.start)

theorem forkChainLoop_of_spine (h : Spine q.log t L) :
    ∀ (fuel : Nat) (chain : SqliteForkChain) (leafHead : Nat), L.length ≤ fuel →
      (∀ k ∈ L.map key, k ∉ chain.map Prod.fst) →
      (q.forkChainLoop fuel chain leafHead t).map Prod.fst = .ok (chainOf L ++ chain) := by
  induction h with
  | @root k own hk =>
    intro fuel chain leafHead hfuel hnew
    obtain ⟨row, hrow, hlog⟩ := row_of_log hk
    have hk' : k ∉ chain.map Prod.fst := hnew k (by simp)
    cases fuel with
    | zero => simp at hfuel
    | succ fuel =>
      cases row with
      | root head =>
        rw [forkChainLoop, if_neg hk', hrow]
        rfl
      | fork parent cut head => cases hlog
  | @fork k p n own L hk hp ih =>
    intro fuel chain leafHead hfuel hnew
    obtain ⟨row, hrow, hlog⟩ := row_of_log hk
    have hk' : k ∉ chain.map Prod.fst := hnew k (by simp)
    cases fuel with
    | zero => simp at hfuel
    | succ fuel =>
      cases row with
      | root head => cases hlog
      | fork parent cut head =>
        cases hlog
        rw [forkChainLoop, if_neg hk', hrow, ok_bind]
        rw [ih fuel ((k, n) :: chain) _ (by simpa using hfuel) (Spine.fork_unseen hk hp hnew)]
        simp [chainOf]

theorem length_spine_le (h : Spine q.log t L) : L.length ≤ q.timelines.keys.card := by
  have hsub : (L.map key).toFinset ⊆ q.timelines.keys := by
    intro k hk
    obtain ⟨x, hx, rfl⟩ := mem_map.mp (mem_toFinset.mp hk)
    obtain ⟨l, -, hl, -⟩ := h.mem hx
    obtain ⟨row, hrow, -⟩ := row_of_log hl
    exact (queries_of_row hrow []).2.2.2.2
  have hcard := Finset.card_le_card hsub
  rwa [toFinset_card_of_nodup h.nodup_keys, length_map] at hcard

theorem forkChainOn_eq_of_spine (h : Spine q.log t L) : q.forkChainOn t = .ok (chainOf L) := by
  rw [forkChainOn, forkChainWithLeafHeadOn, forkChainLoop_of_spine h _ _ _ (length_spine_le h) (by simp),
    append_nil]

/-- A segment below the root as the bounded walk finds it. -/
def forked (heads : TimelineId → Nat) (x : Segment TimelineId Event) : BoundedForkSegment :=
  ⟨x.key, some x.start, heads x.key⟩

/-- The chain the bounded walk finds for a spine. -/
def boundedChainOf (heads : TimelineId → Nat) : List (Segment TimelineId Event) → List BoundedForkSegment
  | [] => []
  | x :: L => ⟨x.key, none, heads x.key⟩ :: L.map (forked heads)

theorem boundedChainOf_concat (heads : TimelineId → Nat) (hne : L ≠ []) (x : Segment TimelineId Event) :
    boundedChainOf heads (L ++ [x]) = boundedChainOf heads L ++ [forked heads x] := by
  obtain ⟨y, L, rfl⟩ := exists_cons_of_ne_nil hne
  simp [boundedChainOf]

/-- The clock stays within the limit at every checkpoint. -/
def TimeWithin (bounds : EventReadBounds) (clock : SqliteClock) : Prop :=
  ∀ point, clock point ≤ bounds.maxElapsedMicros

theorem TimeWithin.check {clock : SqliteClock} (h : TimeWithin bounds clock)
    (point : SqliteCheckpoint) : ensureReadTimeBound (clock point) bounds.maxElapsedMicros = .ok () := by
  unfold ensureReadTimeBound
  rw [if_neg (Nat.not_lt.mpr (h point))]

/-- The bounded walk finds the spine within the allowed links, and refuses at the first link beyond. -/
theorem forkChainBoundedLoop_of_spine {clock : SqliteClock} (htime : TimeWithin bounds clock)
    {heads : TimelineId → Nat} (h : Spine q.log t L) :
    (∀ x ∈ L, q.getHeadSeqOn x.key = .ok (heads x.key)) → ∀ (left : Nat) (chain : List BoundedForkSegment),
      q.forkChainBoundedLoop bounds.maxElapsedMicros clock left chain t =
        if L.length ≤ left + 1 then .ok (boundedChainOf heads L ++ chain)
        else .error (.forkDepthTooLarge (chain.length + left + 1)) := by
  induction h with
  | @root k own hk =>
    intro hheads left chain
    obtain ⟨row, hrow, hlog⟩ := row_of_log hk
    have hhead : row.head = heads k :=
      Except.ok.inj ((queries_of_row hrow []).1.symm.trans (hheads ⟨k, 0, own⟩ mem_cons_self))
    cases row with
    | root head =>
      rw [forkChainBoundedLoop, htime.check, ok_bind, hrow, ok_bind, if_pos (by simp)]
      rw [show head = heads k from hhead]
      rfl
    | fork parent cut head => cases hlog
  | @fork k p n own L hk hp ih =>
    intro hheads left chain
    obtain ⟨row, hrow, hlog⟩ := row_of_log hk
    have hhead : row.head = heads k :=
      Except.ok.inj ((queries_of_row hrow []).1.symm.trans (hheads ⟨k, n, own⟩ (by simp)))
    have hpos : 0 < L.length := length_pos_of_ne_nil hp.ne_nil
    cases row with
    | root head => cases hlog
    | fork parent cut head =>
      cases hlog
      rw [forkChainBoundedLoop, htime.check, ok_bind, hrow, ok_bind]
      cases left with
      | zero =>
        rw [if_neg (by rw [length_append, length_singleton]; omega)]
      | succ left =>
        have hstep := ih (fun x hx => hheads x (mem_append_left _ hx)) left (⟨k, some n, head⟩ :: chain)
        dsimp only
        rw [hstep, length_append, length_singleton, boundedChainOf_concat heads hp.ne_nil]
        by_cases hdeep : L.length ≤ left + 1
        · rw [if_pos hdeep, if_pos (by omega), show head = heads k from hhead]
          simp [forked]
        · rw [if_neg hdeep, if_neg (by omega), length_cons]
          congr 2
          omega

end SqliteStore

variable {s : MemoryStore} {clock : Clock}

namespace MemoryStore

/-- A spine beyond the depth is refused at the first link beyond it. -/
theorem forkChainBoundedLoop_too_deep (htime : TimeWithin bounds clock) (h : Spine s.log t L) :
    ∀ (fuel : Nat) (chain : List TimelineId) (depth : Nat), L.length ≤ fuel →
      (∀ k ∈ L.map key, k ∉ chain) → depth ≤ bounds.forkDepth → bounds.forkDepth + 1 < depth + L.length →
      s.forkChainBoundedLoop bounds clock fuel chain depth t =
        .error (.core (.forkDepthTooLarge (bounds.forkDepth + 1))) := by
  induction h with
  | root _ =>
    intro fuel chain depth _ _ hdepth hdeep
    rw [length_singleton] at hdeep
    omega
  | @fork k p n own L hk hp ih =>
    intro fuel chain depth hfuel hnew hdepth hdeep
    obtain ⟨st, hst, hlog⟩ := lookup_of_log hk
    have hfp : st.timeline.metadata.forkPoint = some (p, n) := congrArg Log.parent hlog
    rw [length_append, length_singleton] at hdeep hfuel
    cases fuel with
    | zero => omega
    | succ fuel =>
      have hk' : k ∉ chain := hnew k (by simp)
      rw [forkChainBoundedLoop, htime.check, ok_bind, if_neg hk', hst]
      simp only [hfp]
      by_cases hlast : depth = bounds.forkDepth
      · rw [if_pos (by omega), hlast]
      · rw [if_neg (by omega)]
        exact ih fuel (k :: chain) (depth + 1) (by omega) (Spine.fork_unseen hk hp hnew) (by omega) (by omega)

theorem forkChainBounded_of_spine (htime : TimeWithin bounds clock) (h : Spine s.log t L) :
    s.forkChainBounded bounds clock t =
      if L.length ≤ bounds.forkDepth + 1 then .ok (L.map key)
      else .error (.core (.forkDepthTooLarge (bounds.forkDepth + 1))) := by
  unfold forkChainBounded
  split
  · rw [forkChainBoundedLoop_of_spine htime h _ _ _ (length_spine_le h) (by simp) (by omega), append_nil]
  · exact forkChainBoundedLoop_too_deep htime h _ _ _ (length_spine_le h) (by simp) (Nat.zero_le _) (by omega)

end MemoryStore

/-! ## Segment lengths -/

section Lengths

variable {A B : List (Segment TimelineId Event)}

/-- What a segment with a local head contributes before the next cut. -/
def cutLength (head : Nat) (x : Segment TimelineId Event) (B : List (Segment TimelineId Event)) :
    CoreResult Nat :=
  (forkSegmentLength x.start head (B.head?.map Segment.start)).mapError (ForkSegmentError.intoCore x.key)

open Option

theorem cutLength_eq_ok {n : Nat} (h : cutLength head x B = .ok n) :
    n ≤ head ∧ (B = [] → n = head) ∧ ∀ y ∈ B.head?, x.start + n = y.start := by
  unfold cutLength forkSegmentLength at h
  cases B with
  | nil =>
    simp only [head?_nil, map_none, ok_bind] at h
    rw [if_neg (Nat.lt_irrefl head)] at h
    cases h
    simp
  | cons y B =>
    simp only [head?_cons, map_some] at h
    unfold checkedSub at h
    by_cases hle : x.start ≤ y.start
    · rw [if_pos hle] at h
      simp only [ok_bind] at h
      split at h
      · cases h
      · cases h
        refine ⟨by omega, by simp, ?_⟩
        rintro z ⟨rfl⟩
        omega
    · rw [if_neg hle] at h
      cases h

theorem MemoryStore.segmentLength_eq_cut (h0 : ∀ a ∈ (A ++ x :: B).head?, a.start = 0) :
    (chainOf (A ++ x :: B)).segmentLength s A.length x.key = cutLength (s.localHead x.key) x B := by
  unfold ForkChain.segmentLength cutLength forkSegmentLength
  rw [segmentPrefix_at h0, ok_bind, forkSeqs_at]
  cases B with
  | nil =>
    simp only [head?_nil, map_none, ok_bind]
    rw [if_neg (Nat.lt_irrefl _), if_neg (Nat.lt_irrefl _)]
    rfl
  | cons y B =>
    simp only [head?_cons, map_some]
    rcases checkedSub y.start x.start with _ | n
    · rfl
    · simp only [ok_bind]
      split
      · rfl
      · rfl

theorem SqliteStore.chainOf_at : (chainOf (A ++ x :: B))[A.length]? = some (x.key, x.start) := by
  rw [chainOf, map_append, map_cons, getElem?_append_right (by simp)]
  simp

theorem SqliteStore.chainOf_next :
    (chainOf (A ++ x :: B))[A.length + 1]? = B.head?.map fun y => (y.key, y.start) := by
  rw [chainOf, map_append, map_cons, getElem?_append_right (by simp)]
  cases B <;> simp

theorem SqliteStore.logicalSegmentLengthOn_eq_cut (hhead : q.getHeadSeqOn x.key = .ok head) :
    q.logicalSegmentLengthOn (chainOf (A ++ x :: B)) A.length x.key = cutLength head x B := by
  unfold logicalSegmentLengthOn cutLength
  rw [chainOf_at, chainOf_next, hhead, ok_bind]
  simp [Option.map_map, Function.comp_def]

theorem SqliteStore.boundedSegmentLength_eq_cut {fork : Option Seq} (hfork : fork.getD 0 = x.start) :
    boundedSegmentLength ⟨x.key, fork, head⟩ (B.head?.map start) = cutLength head x B := by
  unfold boundedSegmentLength cutLength forkSegmentLength
  rw [hfork]
  cases B with
  | nil =>
    simp only [head?_nil, map_none, ok_bind]
    rw [if_neg (Nat.lt_irrefl _), if_neg (Nat.lt_irrefl _)]
    rfl
  | cons y B =>
    simp only [head?_cons, map_some]
    rcases checkedSub y.start x.start with _ | n
    · rfl
    · simp only [ok_bind]
      split
      · rfl
      · rfl

theorem MemoryStore.boundedSegmentLength_eq_cut (hL : Spine s.log t (A ++ x :: B)) :
    s.boundedSegmentLength ((A ++ x :: B).map key) A.length x.key x.start =
      lift (cutLength x.own.length x B) := by
  obtain ⟨st, hst, -, hown⟩ := lookup_of_spine hL (x := x) (by simp)
  unfold boundedSegmentLength cutLength forkSegmentLength
  rw [stateOf_eq hst, ok_bind, forkCap_at hL, ok_bind, hown]
  cases B with
  | nil =>
    simp only [head?_nil, map_none, cappedLength, ok_bind]
    rw [if_neg (Nat.lt_irrefl _), if_neg (Nat.lt_irrefl _)]
    rfl
  | cons y B =>
    simp only [head?_cons, map_some, cappedLength]
    rcases checkedSub y.start x.start with _ | n
    · rfl
    · simp only [ok_bind]
      split
      · rfl
      · rfl

end Lengths

/-! ## Own Events -/

/-- A segment as both adapters store it: own Events numbered up to the local head, each with the origin
of its Timeline, and the same Events as SQLite rows. -/
structure StoredAlike (s : MemoryStore) (q : SqliteStore) (x : Segment TimelineId Event) : Prop where
  head : s.localHead x.key = x.own.length
  seqs : NumberedFrom Event.seq 0 x.own
  origins : ∀ e ∈ x.own, e.origin = some ⟨x.key, x.start + e.seq⟩
  rows : q.events x.key = x.own.map EventRow.stored

namespace SqliteStore

variable {elapsed : Option (Nat → Nat)} {maxElapsedMicros : Nat}

theorem seqAsI64_eq {n : Nat} (h : n ≤ i64Max) : seqAsI64 n = n := Nat.min_eq_left h

/-- A query from `lo` to `hi` selects a contiguous piece of the rows. -/
theorem queryRows_range (hx : StoredAlike s q x) (hfit : x.own.length ≤ i64Max) {lo hi limit : Nat}
    (hlo : lo ≤ i64Max) (hhi : hi ≤ x.own.length) (hlimit : hi ≤ lo - 1 + limit) (hmax : limit ≤ i64Max) :
    q.queryRows x.key lo (some hi) limit = (((x.own.take hi).drop (lo - 1))).map stored := by
  have hrange : x.own.filter (fun e => decide (lo ≤ e.seq) && decide (e.seq ≤ hi)) =
      (x.own.take hi).drop (lo - 1) := hx.seqs.filter_range
  have hfilter : (q.events x.key).filter (fun row => decide (seqAsI64 lo ≤ row.event.seq) &&
      (some hi).all fun hi => decide (row.event.seq ≤ seqAsI64 hi)) =
        (((x.own.take hi).drop (lo - 1))).map stored := by
    rw [hx.rows, filter_map, ← hrange, seqAsI64_eq hlo]
    congr 1
    refine filter_congr fun e _ => ?_
    simp only [Function.comp_apply, stored, Option.all_some, seqAsI64_eq (hhi.trans hfit)]
    rfl
  unfold queryRows
  rw [hfilter, Nat.min_eq_left hmax, take_of_length_le]
  rw [length_map, length_drop, length_take, Nat.min_eq_left hhi]
  omega

/-- An unbounded query selects every row. -/
theorem queryRows_all (hx : StoredAlike s q x) (hfit : x.own.length ≤ i64Max) :
    q.queryRows x.key 0 none i64Max = x.own.map stored := by
  unfold queryRows
  rw [hx.rows, filter_eq_self.mpr, take_of_length_le]
  · simpa using hfit
  · intro row _
    simp [seqAsI64_eq]

theorem stepRows_eq
    (htime : ∀ reading ∈ elapsed, ∀ turn, reading turn ≤ maxElapsedMicros) (timeline : TimelineId) (pre : Nat)
    (es : List Event) (turn : Nat) (horigin : ∀ e ∈ es, e.origin = some ⟨timeline, pre + e.seq⟩ ∧ pre + e.seq ≤ u64Max) :
    stepRows elapsed maxElapsedMicros timeline pre turn (es.map stored) = .ok es := by
  have hcheck : ∀ turn, (elapsed.elim (.ok ()) fun reading =>
      ensureReadTimeBound (reading turn) maxElapsedMicros) = .ok () := by
    intro turn
    rcases elapsed with _ | reading
    · rfl
    · simp only [Option.elim_some, ensureReadTimeBound]
      rw [if_neg (Nat.not_lt.mpr (htime reading rfl turn))]
  induction es generalizing turn with
  | nil => rw [map_nil, stepRows, hcheck, ok_bind, hcheck, ok_bind]
  | cons e es ih =>
    obtain ⟨horig, hfit⟩ := horigin e mem_cons_self
    have howned : e.ownedBy timeline pre = e := by
      unfold Event.ownedBy
      rw [← horig]
    have hdecode : decodeOwnEvent (stored e) timeline pre = .ok e :=
      finalizeCommittedOrigin_eq_ok.mpr ⟨howned.symm, hfit, fun _ ho => Option.some.inj (Eq.trans (Eq.symm ho) horig)⟩
    rw [map_cons, stepRows, hcheck, ok_bind, hdecode, ok_bind,
      ih (turn + 1) fun f hf => horigin f (mem_cons_of_mem _ hf), ok_bind]

/-- A read of rows within a segment returns their Events. -/
theorem readOwnEventsLimitedOn_eq (hx : StoredAlike s q x) (hq : q.Holds x.own.length x) {lo : Nat} {hi limit : Option Nat}
    (htime : ∀ reading ∈ elapsed, ∀ turn, reading turn ≤ maxElapsedMicros) {es : List Event} (hes : es ⊆ x.own)
    (hrows : q.queryRows x.key lo hi (limit.getD i64Max) = es.map stored) :
    q.readOwnEventsLimitedOn x.key lo hi limit elapsed maxElapsedMicros = .ok es := by
  have hstart := hq.start_le
  have hhead := hq.head_le
  rw [readOwnEventsLimitedOn, hq.originPrefix, ok_bind, hrows]
  refine stepRows_eq htime x.key x.start es 0 fun e he => ⟨hx.origins e (hes he), ?_⟩
  have hbound := (hx.seqs.bounds (hes he)).2
  have htop : i64Max + i64Max ≤ u64Max := by decide
  calc x.start + e.seq ≤ i64Max + i64Max := Nat.add_le_add hstart (by omega)
    _ ≤ u64Max := htop

end SqliteStore

/-! ## The plain read -/

section Plain

variable {A B : List (Segment TimelineId Event)}

theorem MemoryStore.collectSegment_eq_cut (hL : Spine s.log t (A ++ x :: B)) (hx : StoredAlike s q x)
    (all : List Event) :
    s.collectSegment (chainOf (A ++ x :: B)) all (x.key, A.length) =
      (cutLength x.own.length x B).map fun n => all ++ x.own.take n := by
  obtain ⟨st, hst, -, hown⟩ := lookup_of_spine hL (x := x) (by simp)
  have htl : s.timeline x.key = .ok st.timeline := by simp [timeline, hst]
  have hevents : s.ownEvents x.key = x.own := by
    rw [ownEvents, hst]
    exact hown
  unfold collectSegment
  rw [htl, ok_bind, segmentLength_eq_cut hL.head_start, hx.head, hevents]
  rcases cutLength x.own.length x B with e | n
  · rfl
  · have hfilter := hx.seqs.filter_le n
    rw [Nat.zero_add] at hfilter
    rw [ok_bind, hfilter]
    rfl

theorem SqliteStore.extendSegment_eq_cut (hx : StoredAlike s q x) (hq : q.Holds x.own.length x) (all : List Event) :
    q.extendSegment (chainOf (A ++ x :: B)) all ((x.key, x.start), A.length) =
      (cutLength x.own.length x B).map fun n => all ++ x.own.take n := by
  have hnone : ∀ reading ∈ (none : Option (Nat → Nat)), ∀ turn, reading turn ≤ u64Max := by simp
  unfold extendSegment cutLength forkSegmentLength
  dsimp only
  rw [chainOf_next]
  cases B with
  | nil =>
    have hread : q.readOwnEventsOn x.key 0 none = .ok x.own :=
      readOwnEventsLimitedOn_eq hx hq hnone (Subset.refl _) (queryRows_all hx hq.head_le)
    simp only [head?_nil, Option.map_none, hread, ok_bind]
    rw [if_neg (Nat.lt_irrefl _)]
    simp [Except.mapError, Except.map]
  | cons y B =>
    simp only [head?_cons, Option.map_some]
    rcases checkedSub y.start x.start with _ | n
    · rfl
    simp only [hq.headSeq, ok_bind]
    by_cases hle : n > x.own.length
    · rw [if_pos hle, if_pos hle]
      rfl
    · have hn : n ≤ x.own.length := Nat.not_lt.mp hle
      have hread : q.readOwnEventsOn x.key 0 (some n) = .ok (x.own.take n) := by
        refine readOwnEventsLimitedOn_eq hx hq hnone (take_subset _ _) ?_
        have hmax := hn.trans hq.head_le
        simpa using queryRows_range hx hq.head_le (Nat.zero_le _) hn (by simpa using hmax) (Nat.le_refl i64Max)
      rw [if_neg hle, if_neg hle, hread]
      rfl

end Plain

/-! ## The size checks -/

/-- The size checks of a piece of a segment, with the running total of bytes. -/
def measure (bounds : EventReadBounds) : Nat → List Event → CoreResult Nat
  | total, [] => .ok total
  | total, e :: es =>
    if e.payload.length > bounds.payloadBytes then .error (.payloadTooLarge e.payload.length)
    else if e.eventType.utf8ByteSize > bounds.eventTypeBytes then
      .error (.eventMetadataTooLarge "event_type" e.eventType.utf8ByteSize)
    else
      let total := saturatingAdd total (saturatingAdd e.payload.length e.eventType.utf8ByteSize)
      if total > bounds.totalBytes then .error (.readBytesTooLarge total) else measure bounds total es

/-- A passed total is within the limit and counts no more than the bytes. -/
theorem measure_le : ∀ {es : List Event} {total total' : Nat},
    total ≤ bounds.totalBytes → measure bounds total es = .ok total' →
      total' ≤ bounds.totalBytes ∧ total' ≤ total + pageBytes es
  | [], total, total', hle, h => by
    cases h
    exact ⟨hle, Nat.le_add_right _ _⟩
  | e :: es, total, total', hle, h => by
    have hcons : pageBytes (e :: es) = eventBytes e + pageBytes es := by simp [pageBytes]
    have hadd : saturatingAdd total (saturatingAdd e.payload.length e.eventType.utf8ByteSize) ≤
        total + eventBytes e := (Nat.min_le_left _ _).trans (Nat.add_le_add_left (Nat.min_le_left _ _) _)
    unfold measure at h
    split at h
    · cases h
    split_ifs at h
    dsimp only at h
    split_ifs at h
    rename_i hnext
    have ih := measure_le (Nat.not_lt.mp hnext) h
    exact ⟨ih.1, by omega⟩

theorem MemoryStore.examineEvents_eq_measure
    (htime : TimeWithin bounds clock) (t : TimelineId) (index rawStart : Nat) : ∀ (es : List Event) (offset total : Nat),
    NumberedFrom Event.seq (rawStart + offset) es → rawStart + offset + es.length ≤ u64Max →
    examineEvents bounds clock t index (rawStart + 1) offset total es = lift (measure bounds total es)
  | [], _, _, _, _ => rfl
  | e :: es, offset, total, hnum, hfit => by
    rw [length_cons] at hfit
    have hseq : e.seq = saturatingAdd (rawStart + 1) offset := by
      rw [hnum.1]
      exact (Nat.add_right_comm rawStart offset 1).trans (Nat.min_eq_left (by omega)).symm
    have ih := fun total => examineEvents_eq_measure htime t index rawStart es (offset + 1) total hnum.2 (by omega)
    unfold examineEvents measure examineEvent
    rw [htime.check, ok_bind, if_neg (not_not_intro hseq)]
    split
    · rfl
    split
    · rfl
    dsimp only
    split
    · rfl
    · rw [ok_bind, ih]

theorem SqliteStore.validateBoundedEventMetadata_eq_measure {clock : SqliteClock}
    (htime : TimeWithin bounds clock) (index : Nat) : ∀ (es : List Event) (offset total : Nat),
    validateBoundedEventMetadata bounds clock index offset total (es.map stored) =
      measure bounds total es
  | [], _, _ => rfl
  | e :: es, offset, total => by
    have ih := validateBoundedEventMetadata_eq_measure htime index es (offset + 1)
    have hblob : (stored e).payloadType = .blob := rfl
    rw [map_cons, validateBoundedEventMetadata, measure, htime.check, ok_bind,
      if_neg (not_not_intro hblob)]
    simp only [ih]
    rfl

/-- A segment's size refusal reported for the whole read, and its bytes added to the read's. -/
def shiftTotal (total : Nat) : CoreResult Nat → CoreResult Nat
  | .error (.readBytesTooLarge size) => .error (.readBytesTooLarge (saturatingAdd total size))
  | .error e => .error e
  | .ok bytes => .ok (saturatingAdd total bytes)

/-- Measuring a segment against what is left of the total is measuring on from the total. Only a limit
of `usize::MAX` that the bytes themselves exceed could tell the two apart. -/
theorem shiftTotal_measure (bounds : EventReadBounds) (total : Nat) : ∀ (es : List Event) (bytes : Nat),
    total + bytes ≤ bounds.totalBytes →
    (bounds.totalBytes < u64Max ∨ total + bytes + pageBytes es ≤ u64Max) →
    shiftTotal total (measure { bounds with totalBytes := bounds.totalBytes - total } bytes es) =
      measure bounds (total + bytes) es
  | [], bytes, hle, hfit => by
    have hsum : total + bytes ≤ u64Max := by
      rcases hfit with hfit | hfit
      · omega
      · exact (Nat.le_add_right _ _).trans hfit
    exact congrArg Except.ok (Nat.min_eq_left hsum)
  | e :: es, bytes, hle, hfit => by
    have hcons : pageBytes (e :: es) = e.payload.length + e.eventType.utf8ByteSize + pageBytes es := by
      simp [pageBytes, eventBytes]
    have ih := shiftTotal_measure bounds total es
    unfold measure
    dsimp only
    generalize e.payload.length = p at *
    generalize e.eventType.utf8ByteSize = k at *
    split
    · rfl
    split
    · rfl
    -- saturation is reached on both sides at once, or on neither
    have hstep : saturatingAdd total (saturatingAdd bytes (saturatingAdd p k)) =
        saturatingAdd (total + bytes) (saturatingAdd p k) := by
      unfold saturatingAdd
      omega
    by_cases hover : saturatingAdd (total + bytes) (saturatingAdd p k) > bounds.totalBytes
    · rw [if_pos hover, if_pos (by unfold saturatingAdd at *; omega), shiftTotal, hstep]
    · have hnext : total + saturatingAdd bytes (saturatingAdd p k) = saturatingAdd (total + bytes) (saturatingAdd p k) := by
        unfold saturatingAdd at *
        omega
      rw [if_neg hover, if_neg (by omega), ih _ (by omega) (by unfold saturatingAdd at *; omega), hnext]

/-! ## The local windows -/

/-- The local window a planned page names. -/
def SqliteSegmentPage.window (page : SqliteSegmentPage) : BoundedSegmentPage :=
  ⟨page.id, page.rawFrom, page.take, page.logicalOffset⟩

def piece (x : Segment TimelineId Event) (rawStart take : Nat) : List Event := (x.own.drop (rawStart - 1)).take take

theorem pageBytes_piece_le (x : Segment TimelineId Event) (rawStart take : Nat) :
    pageBytes (piece x rawStart take) ≤ pageBytes x.own := by
  have hdrop : pageBytes (x.own.take (rawStart - 1)) + pageBytes (x.own.drop (rawStart - 1)) = pageBytes x.own := by
    rw [← pageBytes_append, take_append_drop]
  have htake := pageBytes_append ((x.own.drop (rawStart - 1)).take take) ((x.own.drop (rawStart - 1)).drop take)
  rw [take_append_drop] at htake
  unfold piece
  omega

/-- A page as the planner builds it from a segment. -/
structure Planned (bounds : EventReadBounds) (x : Segment TimelineId Event) (page : SqliteSegmentPage) : Prop where
  id : page.id = x.key
  pos : 1 ≤ page.rawFrom
  fits : page.rawFrom - 1 + page.take ≤ x.own.length
  take_pos : 0 < page.take
  rawTo : page.rawTo = page.rawFrom - 1 + page.take
  elapsed : page.bounds.maxElapsedMicros = bounds.maxElapsedMicros

variable {sqliteClock : SqliteClock}

section Windows

variable {A B : List (Segment TimelineId Event)} {page : SqliteSegmentPage}

theorem Planned.queryRows (hp : Planned bounds x page) (hx : StoredAlike s q x) (hq : q.Holds x.own.length x) :
    q.queryRows x.key page.rawFrom (some page.rawTo) page.take =
      (piece x page.rawFrom page.take).map stored := by
  obtain ⟨-, hpos, hfits, htake, hto, -⟩ := hp
  have hmax := hq.head_le
  rw [hto, queryRows_range hx hmax (by omega) hfits (Nat.le_refl _) (by omega), piece, drop_take,
    Nat.add_sub_cancel_left]

/-- The metadata query measures the piece from the total on. -/
theorem Planned.segmentBytes (hp : Planned bounds x page) (hx : StoredAlike s q x) (hq : q.Holds x.own.length x)
    (htime : SqliteStore.TimeWithin bounds sqliteClock) (index : Nat) {total : Nat}
    (hbounds : page.bounds = { bounds with totalBytes := bounds.totalBytes - total }) (hle : total ≤ bounds.totalBytes)
    (hfit : bounds.totalBytes < u64Max ∨ total + pageBytes x.own ≤ u64Max) :
    (q.segmentBytes sqliteClock index total page).map (saturatingAdd total) =
      measure bounds total (piece x page.rawFrom page.take) := by
  have hpage : SqliteStore.TimeWithin page.bounds sqliteClock := by
    intro point
    rw [hp.elapsed]
    exact htime point
  have hlength : (piece x page.rawFrom page.take).length = page.take := by
    have := hp.fits
    unfold piece
    rw [length_take, length_drop]
    omega
  have hvalidate : q.validateOwnEventsBounded page.bounds sqliteClock index page.id page.rawFrom page.rawTo page.take =
      measure page.bounds 0 (piece x page.rawFrom page.take) := by
    unfold validateOwnEventsBounded
    dsimp only
    rw [hp.id, hp.queryRows hx hq, forM_eq_ok.mpr fun turn _ => hpage.check (.metadataRow index turn), ok_bind,
      if_neg (not_not_intro ((length_map ..).trans hlength)),
      validateBoundedEventMetadata_eq_measure hpage]
  have hshift := shiftTotal_measure bounds total (piece x page.rawFrom page.take) 0 hle
    (hfit.imp_right fun h => by have := pageBytes_piece_le x page.rawFrom page.take; omega)
  rw [Nat.add_zero, ← hbounds] at hshift
  rw [← hshift, SqliteStore.segmentBytes, hvalidate]
  rcases measure page.bounds 0 (piece x page.rawFrom page.take) with e | bytes
  · cases e <;> rfl
  · rfl

def pageOfPlan (bounds : EventReadBounds) (x : Segment TimelineId Event) (total : Nat) (plan : PagePlan) :
    SqliteSegmentPage where
  id := x.key
  rawFrom := plan.rawStart
  rawTo := saturatingAdd plan.rawStart (plan.take - 1)
  take := plan.take
  logicalOffset := x.start
  bounds := { bounds with totalBytes := bounds.totalBytes - total }

theorem planned_of_planPage (bounds : EventReadBounds) (hq : q.Holds x.own.length x) {len lo hi remaining : Nat}
    {plan : PagePlan}
    (hlen : len ≤ x.own.length) (hplan : planPage x.start len lo hi remaining = some plan) (total : Nat) :
    Planned bounds x (pageOfPlan bounds x total plan) := by
  have hstart := hq.start_le
  have htop : i64Max < u64Max := by decide
  obtain ⟨hpos, hle, htoo⟩ := planPage_bounds hplan (by omega)
  have htake := planPage_take_pos hplan
  have hto : saturatingAdd plan.rawStart (plan.take - 1) = plan.rawStart - 1 + plan.take :=
    (Nat.min_eq_left (by omega)).trans (by omega)
  exact ⟨rfl, hpos, hle.trans hlen, htake, hto, rfl⟩

/-- The in-memory planner finds the same piece and measures it the same. -/
theorem Planned.examineEvents (hp : Planned bounds x page) (hx : StoredAlike s q x) (hq : q.Holds x.own.length x)
    (htime : TimeWithin bounds clock) (index total : Nat) :
    pageSlice x.own page.rawFrom page.take = .ok (piece x page.rawFrom page.take) ∧
      examineEvents bounds clock x.key index page.rawFrom 0 total (piece x page.rawFrom page.take) =
        lift (measure bounds total (piece x page.rawFrom page.take)) := by
  have hmax := hq.head_le
  have hfits := hp.fits
  have htop : i64Max < u64Max := by decide
  refine ⟨pageSlice_eq hp.pos hfits (by omega), ?_⟩
  obtain ⟨k, hk⟩ := Nat.exists_eq_add_of_le' hp.pos
  rw [hk, Nat.add_sub_cancel] at hfits
  rw [hk]
  have hnum := (hx.seqs.drop (show k ≤ x.own.length by omega)).take page.take
  have hlength : (piece x (k + 1) page.take).length ≤ page.take := length_take_le _ _
  exact MemoryStore.examineEvents_eq_measure htime x.key index k _ 0 total (by simpa [piece] using hnum) (by omega)

theorem MemoryStore.planBoundedSegment_eq (htime : TimeWithin bounds clock)
    (hL : Spine s.log t (A ++ x :: B)) (hx : StoredAlike s q x) (hq : q.Holds x.own.length x) (lo hi remaining total : Nat) :
    s.planBoundedSegment bounds clock ((A ++ x :: B).map key) A.length x.key x.start lo hi remaining total =
      lift (cutLength x.own.length x B >>= fun len => match planPage x.start len lo hi remaining with
        | none => .ok (none, total)
        | some plan => (measure bounds total (piece x plan.rawStart plan.take)).map fun total' =>
            (some ⟨x.key, plan.rawStart, plan.take, x.start⟩, total')) := by
  obtain ⟨st, hst, -, hevents⟩ := lookup_of_spine hL (x := x) (by simp)
  have hhead : st.timeline.head = st.events.length := by
    have := hx.head
    rw [localHead, hst] at this
    rw [hevents]
    exact this
  unfold planBoundedSegment
  rw [htime.check, ok_bind, stateOf_eq hst, ok_bind,
    boundaryIsValid_of_numbered hhead (hevents ▸ hx.seqs), boundedSegmentLength_eq_cut hL, lift_bind]
  rcases hcut : cutLength x.own.length x B with e | len
  · rfl
  simp only [Bool.not_true, Bool.false_eq_true, if_false, lift_ok, ok_bind]
  rcases hplan : planPage x.start len lo hi remaining with _ | plan
  · rfl
  have hp := planned_of_planPage bounds hq (cutLength_eq_ok hcut).1 hplan total
  obtain ⟨hslice, hexamine⟩ := hp.examineEvents hx hq htime A.length total
  dsimp only [pageOfPlan] at hslice hexamine ⊢
  rw [hevents, hslice, ok_bind, hexamine]
  rcases measure bounds total (piece x plan.rawStart plan.take) with e | total'
  · rfl
  · rfl

/-- What a planner does after a segment: stop with its page, or go on with the rest of the chain. -/
def goOn {ε α : Type} (stop : Prop) [Decidable stop] (page : Option α) (rest : Except ε (List α)) :
    Except ε (List α) :=
  if stop then .ok page.toList
  else do
    let plans ← rest
    .ok (page.toList ++ plans)

theorem goOn_agrees {stop : Prop} [Decidable stop] (page : Option SqliteSegmentPage)
    {rest : CoreResult (List SqliteSegmentPage)} {rest' : Except Fault (List BoundedSegmentPage)}
    (h : rest' = lift (rest.map (map window))) :
    goOn stop (page.map window) rest' =
      lift ((goOn stop page rest).map (map window)) := by
  have hpage : (page.map window).toList = page.toList.map window := by
    cases page <;> rfl
  unfold goOn
  rw [hpage, h]
  split
  · rfl
  rcases rest with e | plans
  · rfl
  · exact congrArg Except.ok map_append.symm

def ownBytes (L : List (Segment TimelineId Event)) : Nat := (L.map fun x => pageBytes x.own).sum

/-- From any segment on, both planners refuse alike or plan the same windows. -/
theorem planBoundedLoop_agrees (htime : TimeWithin bounds clock) (hsqlite : SqliteStore.TimeWithin bounds sqliteClock)
    (lo hi : Nat) : ∀ (B A : List (Segment TimelineId Event)) (x : Segment TimelineId Event)
      (fork : Option Seq) (remaining total : Nat), Spine s.log t (A ++ x :: B) →
    (∀ y ∈ x :: B, StoredAlike s q y ∧ q.Holds y.own.length y) → fork.getD 0 = x.start → total ≤ bounds.totalBytes →
    (bounds.totalBytes < u64Max ∨ total + ownBytes (x :: B) ≤ u64Max) →
    s.planBoundedLoop bounds clock ((A ++ x :: B).map key) lo hi (((x :: B).map key).zipIdx A.length)
        x.start remaining total =
      lift ((q.planBoundedLoop bounds sqliteClock lo hi
        (⟨x.key, fork, s.localHead x.key⟩ :: B.map (forked s.localHead)) A.length x.start remaining total).map
          (List.map window))
  | B, A, x, fork, remaining, total, hL, hh, hfork, hle, hfit => by
    obtain ⟨hx, hq⟩ := hh x mem_cons_self
    have hstart := hq.start_le
    have hmax := hq.head_le
    have htop : i64Max + i64Max ≤ u64Max := by decide
    have hnext : (B.map (forked s.localHead)).head?.bind BoundedForkSegment.fork =
        B.head?.map start := by
      cases B <;> rfl
    have hsum : ownBytes (x :: B) = pageBytes x.own + ownBytes B := by simp [ownBytes]
    rw [map_cons, zipIdx_cons, MemoryStore.planBoundedLoop, planBoundedLoop, hsqlite.check,
      ok_bind, hnext, boundedSegmentLength_eq_cut hfork, hx.head,
      MemoryStore.planBoundedSegment_eq htime hL hx hq, MemoryStore.boundedSegmentLength_eq_cut hL]
    rcases hcut : cutLength x.own.length x B with e | len
    · rfl
    obtain ⟨hlen, -, hcuts⟩ := cutLength_eq_ok hcut
    have hoffset : saturatingAdd x.start len = x.start + len := Nat.min_eq_left (by omega)
    simp only [ok_bind, lift_ok, hoffset]
    -- the rest of the chain, from any total on
    have hrest : ∀ remaining total' : Nat, total' ≤ bounds.totalBytes →
        (bounds.totalBytes < u64Max ∨ total' + ownBytes B ≤ u64Max) →
        s.planBoundedLoop bounds clock ((A ++ x :: B).map key) lo hi ((B.map key).zipIdx (A.length + 1))
            (x.start + len) remaining total' =
          lift ((q.planBoundedLoop bounds sqliteClock lo hi (B.map (forked s.localHead)) (A.length + 1)
            (x.start + len) remaining total').map (map window)) := by
      intro remaining total' hle' hfit'
      cases B with
      | nil => rfl
      | cons y B =>
        have hcons : A ++ x :: y :: B = (A ++ [x]) ++ y :: B := by simp
        have ih := planBoundedLoop_agrees htime hsqlite lo hi B (A ++ [x]) y (some y.start) remaining total'
          (hcons ▸ hL) (fun z hz => hh z (mem_cons_of_mem _ hz)) rfl hle' hfit'
        rw [← hcons, length_append, length_singleton] at ih
        rw [hcuts y rfl]
        exact ih
    rcases hplan : planPage x.start len lo hi remaining with _ | plan
    · have hsame : saturatingAdd total 0 = total := Nat.min_eq_left (by omega)
      simp only [Option.map_none, Option.elim_none, ok_bind, hsame, lift_ok]
      exact goOn_agrees none (hrest _ total hle (hfit.imp_right fun h => by omega))
    have hp := planned_of_planPage bounds hq hlen hplan total
    have hbytes := hp.segmentBytes hx hq hsqlite A.length rfl hle (hfit.imp_right fun h => by omega)
    have hmeasure := @measure_le bounds (piece x plan.rawStart plan.take) total
    have hpiece := pageBytes_piece_le x plan.rawStart plan.take
    simp only [Option.map_some, Option.elim_some]
    change (Except.map _ (q.segmentBytes sqliteClock A.length total (pageOfPlan bounds x total plan))) =
      measure bounds total (piece x plan.rawStart plan.take) at hbytes
    change _ = lift (Except.map _ (q.segmentBytes sqliteClock A.length total (pageOfPlan bounds x total plan) >>= _))
    rw [← hbytes] at hmeasure ⊢
    generalize q.segmentBytes sqliteClock A.length total (pageOfPlan bounds x total plan) = result at hmeasure ⊢
    rcases result with e | bytes
    · rfl
    obtain ⟨hle', hadd⟩ := hmeasure hle rfl
    have hfit' : bounds.totalBytes < u64Max ∨ saturatingAdd total bytes + ownBytes B ≤ u64Max :=
      hfit.imp_right fun h => by omega
    exact goOn_agrees (some (pageOfPlan bounds x total plan)) (hrest _ _ hle' hfit')

/-- Every page the SQLite planner returns is planned from a segment of the chain. -/
theorem SqliteStore.planBoundedLoop_planned {lo hi : Nat} : ∀ {B : List (Segment TimelineId Event)}
    {x : Segment TimelineId Event} {fork : Option Seq} {index remaining total : Nat} {plans : List SqliteSegmentPage},
    (∀ y ∈ x :: B, StoredAlike s q y ∧ q.Holds y.own.length y) → fork.getD 0 = x.start →
    q.planBoundedLoop bounds sqliteClock lo hi (⟨x.key, fork, s.localHead x.key⟩ :: B.map (forked s.localHead)) index
      x.start remaining total = .ok plans →
    ∀ page ∈ plans, ∃ y ∈ x :: B, Planned bounds y page
  | B, x, fork, index, remaining, total, plans, hh, hfork, h => by
    obtain ⟨hx, hq⟩ := hh x mem_cons_self
    have hnext : (B.map (forked s.localHead)).head?.bind BoundedForkSegment.fork = B.head?.map start := by
      cases B <;> rfl
    have hstart := hq.start_le
    have hmax := hq.head_le
    have htop : i64Max + i64Max ≤ u64Max := by decide
    rw [planBoundedLoop] at h
    replace h := of_check h
    obtain ⟨len, hcut, h⟩ := bind_eq_ok.mp h
    rw [hnext, boundedSegmentLength_eq_cut hfork, hx.head] at hcut
    obtain ⟨hlen, -, hcuts⟩ := cutLength_eq_ok hcut
    obtain ⟨bytes, -, h⟩ := bind_eq_ok.mp h
    have hoffset : saturatingAdd x.start len = x.start + len := Nat.min_eq_left (by omega)
    have hpages : ∀ page ∈ ((planPage x.start len lo hi remaining).map (pageOfPlan bounds x total)).toList,
        ∃ y ∈ x :: B, Planned bounds y page := by
      intro page hpage
      obtain ⟨plan, hplan, rfl⟩ := Option.map_eq_some_iff.mp (Option.mem_toList.mp hpage)
      exact ⟨x, mem_cons_self, planned_of_planPage bounds hq hlen hplan total⟩
    dsimp only at h
    rw [hoffset] at h
    split at h
    · cases h
      exact hpages
    obtain ⟨rest, hrest, h⟩ := bind_eq_ok.mp h
    cases h
    intro page hpage
    rcases mem_append.mp hpage with hpage | hpage
    · exact hpages page hpage
    cases B with
    | nil => cases hrest; cases hpage
    | cons y B =>
      rw [hcuts y rfl] at hrest
      obtain ⟨z, hz, hplanned⟩ := planBoundedLoop_planned (fun z hz => hh z (mem_cons_of_mem _ hz)) rfl hrest page hpage
      exact ⟨z, mem_cons_of_mem _ hz, hplanned⟩

/-! ## Materializing -/

theorem Planned.shown (hp : Planned bounds x page) (hown : s.ownEvents x.key = x.own) :
    s.shown page.window = (piece x page.rawFrom page.take).map (shifted page.logicalOffset) := by
  unfold MemoryStore.shown window piece
  rw [hp.id, hown]

theorem SqliteStore.materializeBoundedPages_eq (htime : TimeWithin bounds sqliteClock) :
    ∀ (plans : List SqliteSegmentPage) (index : Nat),
      (∀ page ∈ plans, ∃ x, StoredAlike s q x ∧ q.Holds x.own.length x ∧ s.ownEvents x.key = x.own ∧
        Planned bounds x page) →
      q.materializeBoundedPages bounds sqliteClock index plans = .ok ((plans.map window).flatMap s.shown)
  | [], index, _ => by
    rw [materializeBoundedPages, htime.check, ok_bind]
    rfl
  | page :: plans, index, h => by
    obtain ⟨x, hx, hq, hown, hp⟩ := h page mem_cons_self
    have ih := materializeBoundedPages_eq htime plans (index + 1) fun p hmem => h p (mem_cons_of_mem _ hmem)
    have hread : q.readOwnEventsLimitedOn page.id page.rawFrom (some page.rawTo) (some page.take)
        (some fun turn => sqliteClock (.eventRow index turn)) page.bounds.maxElapsedMicros =
          .ok (piece x page.rawFrom page.take) := by
      rw [hp.id, hp.elapsed]
      refine readOwnEventsLimitedOn_eq hx hq ?_ ?_ (hp.queryRows hx hq)
      · rintro reading ⟨rfl⟩ turn
        exact htime _
      · exact fun e he => mem_of_mem_drop (mem_of_mem_take he)
    rw [materializeBoundedPages, materializeBoundedPage, htime.check, ok_bind, hread, ok_bind, ok_bind, htime.check,
      ok_bind, ih, ok_bind, map_cons, flatMap_cons, hp.shown hown]
    rfl

end Windows

/-! ## The adapters agree -/

section Agreement

variable (hL : Spine s.log t L)

include hL

theorem segmentLength_agrees (hheads : ∀ x ∈ L, q.getHeadSeqOn x.key = .ok (s.localHead x.key))
    {A B : List (Segment TimelineId Event)} (hsplit : L = A ++ x :: B) :
    (MemoryStore.chainOf L).segmentLength s A.length x.key =
      q.logicalSegmentLengthOn (chainOf L) A.length x.key := by
  subst hsplit
  rw [MemoryStore.segmentLength_eq_cut hL.head_start,
    logicalSegmentLengthOn_eq_cut (hheads x (by simp))]

theorem logicalHead_agrees (hL' : Spine q.log t L)
    (hheads : ∀ x ∈ L, q.getHeadSeqOn x.key = .ok (s.localHead x.key)) :
    s.logicalHeadUnchecked t = q.logicalHeadUncheckedOn t := by
  rw [MemoryStore.logicalHeadUnchecked, MemoryStore.forkChain_eq_of_spine hL, logicalHeadUncheckedOn,
    forkChainOn_eq_of_spine hL', ok_bind, ok_bind]
  refine foldlM_zipIdx_congr (fun A x B hsplit head => ?_) L [] 0 rfl
  change ((MemoryStore.chainOf L).segmentLength s A.length x.key >>= _) =
    q.logicalSegmentLengthOn (chainOf L) A.length x.key >>= _
  rw [segmentLength_agrees hL hheads hsplit]
  rfl

theorem read_agrees (hL' : Spine q.log t L)
    (hh : ∀ x ∈ L, StoredAlike s q x ∧ q.Holds x.own.length x) (range : SeqRange) :
    s.collectEventsInRange t range = q.readUncheckedOn t range := by
  rw [MemoryStore.collectEventsInRange, MemoryStore.forkChain_eq_of_spine hL, readUncheckedOn,
    forkChainOn_eq_of_spine hL', ok_bind, ok_bind]
  refine congrArg (· >>= _) (foldlM_zipIdx_congr (fun A x B hsplit all => ?_) L [] [] rfl)
  subst hsplit
  obtain ⟨hx, hq⟩ := hh x (by simp)
  exact (MemoryStore.collectSegment_eq_cut hL hx all).trans (extendSegment_eq_cut hx hq all).symm

theorem windows_agree (hh : ∀ x ∈ L, StoredAlike s q x ∧ q.Holds x.own.length x)
    (range : SeqRange) (htime : TimeWithin bounds clock) (hsqlite : SqliteStore.TimeWithin bounds sqliteClock)
    (hbytes : bounds.totalBytes < u64Max ∨ ownBytes L ≤ u64Max) :
    s.planBoundedEvents bounds clock (L.map key) range =
      lift ((q.planBoundedPages bounds sqliteClock (boundedChainOf s.localHead L) (max range.lo 1)
        (range.hi.getD u64Max)).map (List.map window)) := by
  obtain ⟨x, B, rfl⟩ := exists_cons_of_ne_nil hL.ne_nil
  have hroot : x.start = 0 := hL.head_start x rfl
  have hloop := planBoundedLoop_agrees htime hsqlite (max range.lo 1) (range.hi.getD u64Max) B [] x none bounds.events 0
    hL hh hroot.symm (Nat.zero_le _) (by simpa using hbytes)
  rw [hroot] at hloop
  exact hloop

theorem readBounded_agrees (hL' : Spine q.log t L)
    (hheads : ∀ x ∈ L, q.getHeadSeqOn x.key = .ok (s.localHead x.key))
    (hh : ∀ x ∈ L, StoredAlike s q x ∧ q.Holds x.own.length x) (range : SeqRange) (htime : TimeWithin bounds clock)
    (hsqlite : SqliteStore.TimeWithin bounds sqliteClock)
    (hbytes : bounds.totalBytes < u64Max ∨ ownBytes L ≤ u64Max) :
    s.collectEventsInRangeBounded t range bounds clock = lift (q.readLogicalBounded t range bounds sqliteClock) := by
  have hpos : bounds.maxElapsedMicros ≠ 0 := Nat.ne_of_gt htime.1
  rw [MemoryStore.collectEventsInRangeBounded, if_neg hpos, MemoryStore.forkChainBounded_of_spine htime hL,
    readLogicalBounded, forkChainBoundedOn,
    forkChainBoundedLoop_of_spine hsqlite hL' hheads, append_nil]
  by_cases hdeep : L.length ≤ bounds.forkDepth + 1
  swap
  · rw [if_neg hdeep, if_neg hdeep, length_nil, Nat.zero_add]
    rfl
  rw [if_pos hdeep, if_pos hdeep, ok_bind, ok_bind, windows_agree hL hh range htime hsqlite hbytes]
  rcases hplans : q.planBoundedPages bounds sqliteClock (boundedChainOf s.localHead L) (max range.lo 1)
    (range.hi.getD u64Max) with e | plans
  · rfl
  obtain ⟨x, B, rfl⟩ := exists_cons_of_ne_nil hL.ne_nil
  have hroot : x.start = 0 := hL.head_start x rfl
  have hloop : q.planBoundedLoop bounds sqliteClock (max range.lo 1) (range.hi.getD u64Max)
      (⟨x.key, none, s.localHead x.key⟩ :: B.map (forked s.localHead)) 0 x.start bounds.events 0 =
        .ok plans := by
    rw [hroot]
    exact hplans
  have hfork : (none : Option Seq).getD 0 = x.start := hroot.symm
  have hplanned := planBoundedLoop_planned hh hfork hloop
  have hpages : ∀ page ∈ plans, ∃ y, StoredAlike s q y ∧ q.Holds y.own.length y ∧ s.ownEvents y.key = y.own ∧
      (∃ st, s.timelines.lookup y.key = some st ∧ st.events = y.own) ∧ Planned bounds y page := by
    intro page hpage
    obtain ⟨y, hy, hp⟩ := hplanned page hpage
    obtain ⟨st, hst, -, hown⟩ := MemoryStore.lookup_of_spine hL hy
    refine ⟨y, (hh y hy).1, (hh y hy).2, ?_, ⟨st, hst, hown⟩, hp⟩
    rw [MemoryStore.ownEvents, hst]
    exact hown
  have hfits : ∀ plan ∈ plans.map window, s.Fits plan := by
    intro plan hplan
    obtain ⟨page, hpage, rfl⟩ := mem_map.mp hplan
    obtain ⟨y, -, hq, -, ⟨st, hst, hown⟩, hp⟩ := hpages page hpage
    have hle := hp.fits
    have hmax := hq.head_le
    have htop : i64Max < u64Max := by decide
    refine ⟨st, ?_, hp.pos, ?_, ?_⟩
    · rw [← hst, ← hp.id]
      rfl
    · rw [hown]
      exact hle
    · exact hle.trans (by omega)
  change MemoryStore.materializeLoop s bounds clock 0 (plans.map window) =
    lift (q.materializeBoundedPages bounds sqliteClock 0 plans)
  rw [MemoryStore.materializeLoop_eq htime _ 0 hfits, materializeBoundedPages_eq hsqlite plans 0]
  · rfl
  · intro page hpage
    obtain ⟨y, hx, hq, hown, -, hp⟩ := hpages page hpage
    exact ⟨y, hx, hq, hown, hp⟩

end Agreement

/-- Over one chain of segments both adapters stitch alike, whatever its heads and cuts: each segment has
the same length or is refused with the same error, and so is the logical head. Where the own Events of
every segment are numbered up to its head, the plain read, the local windows of every bounded page and
the bounded read are the same too, refusals included. -/
theorem stitching_agrees {s : MemoryStore} {q : SqliteStore} {t : TimelineId} {L : List (Segment TimelineId Event)}
    (hL : Spine s.log t L) (hL' : Spine q.log t L) (hheads : ∀ x ∈ L, q.getHeadSeqOn x.key = .ok (s.localHead x.key)) :
    (∀ i x, L[i]? = some x → (MemoryStore.chainOf L).segmentLength s i x.key =
      q.logicalSegmentLengthOn (SqliteStore.chainOf L) i x.key) ∧
    s.logicalHeadUnchecked t = q.logicalHeadUncheckedOn t ∧
    ((∀ x ∈ L, StoredAlike s q x) → ∀ range : SeqRange,
      s.collectEventsInRange t range = q.readUncheckedOn t range ∧
      ∀ (bounds : EventReadBounds) (clock : Clock) (sqliteClock : SqliteClock), TimeWithin bounds clock →
        SqliteStore.TimeWithin bounds sqliteClock → (bounds.totalBytes < u64Max ∨ ownBytes L ≤ u64Max) →
        s.planBoundedEvents bounds clock (L.map Segment.key) range =
          lift ((q.planBoundedPages bounds sqliteClock (SqliteStore.boundedChainOf s.localHead L) (max range.lo 1)
            (range.hi.getD u64Max)).map (List.map SqliteSegmentPage.window)) ∧
        s.collectEventsInRangeBounded t range bounds clock = lift (q.readLogicalBounded t range bounds sqliteClock)) := by
  refine ⟨fun i x hi => ?_, logicalHead_agrees hL hL' hheads, fun hh range => ?_⟩
  · obtain ⟨hlt, rfl⟩ := List.getElem?_eq_some_iff.mp hi
    have hsplit : L = L.take i ++ L[i] :: L.drop (i + 1) := by
      rw [← drop_eq_getElem_cons hlt, take_append_drop]
    have hlength := segmentLength_agrees hL hheads hsplit
    rwa [length_take, Nat.min_eq_left hlt.le] at hlength
  have hstored : ∀ x ∈ L, StoredAlike s q x ∧ q.Holds x.own.length x := by
    intro x hx
    have hhead := hheads x hx
    rw [(hh x hx).head] at hhead
    exact ⟨hh x hx, holds_of_spine hL' hx hhead⟩
  refine ⟨read_agrees hL hL' hstored range, fun bounds clock sqliteClock htime hsqlite hbytes => ?_⟩
  exact ⟨windows_agree hL hstored range htime hsqlite hbytes,
    readBounded_agrees hL hL' hheads hstored range htime hsqlite hbytes⟩

/-- The root of `forkedOnce` and its branch as SQLite rows. -/
def forkedRows : SqliteStore where
  timelines := Finmap.insert ⟨2⟩ ⟨some (.ok ⟨1⟩), some ⟨1, by decide⟩, ⟨0, by decide⟩⟩
    (Finmap.singleton ⟨1⟩ ⟨none, none, ⟨1, by decide⟩⟩)
  events t := (MemoryStore.forkedOnce.ownEvents t).map EventRow.stored

/-- The branch has one logical Event in both adapters, and the bounded page of one Event is the same. -/
theorem forkedRows_agree : MemoryStore.forkedOnce.logicalHeadUnchecked ⟨2⟩ = forkedRows.logicalHeadUncheckedOn ⟨2⟩ ∧
    forkedRows.logicalHeadUncheckedOn ⟨2⟩ = .ok 1 ∧
    MemoryStore.forkedOnce.collectEventsInRangeBounded ⟨2⟩ .all ⟨8, 8, 1, 2, 64, 5⟩ (fun _ => 1) =
      lift (forkedRows.readLogicalBounded ⟨2⟩ .all ⟨8, 8, 1, 2, 64, 5⟩ fun _ => 1) := by
  have hL : ∀ {log : TimelineId → Option (Log TimelineId Event)} {own : List Event}, log ⟨2⟩ = some ⟨some (⟨1⟩, 1), []⟩ →
      log ⟨1⟩ = some ⟨none, own⟩ → Spine log ⟨2⟩ [⟨⟨1⟩, 0, own⟩, ⟨⟨2⟩, 1, []⟩] :=
    fun hbranch hroot => .fork hbranch (.root hroot)
  obtain ⟨-, hhead, hreads⟩ := stitching_agrees (s := MemoryStore.forkedOnce) (q := forkedRows) (hL rfl rfl) (hL rfl rfl)
    (by decide)
  refine ⟨hhead, by decide, ((hreads ?_ .all).2 _ _ _ ⟨by decide, fun _ => show 1 ≤ 5 by decide⟩
    (fun _ => show 1 ≤ 5 by decide) (.inl (by decide))).2⟩
  intro x hx
  rcases mem_cons.mp hx with rfl | hx
  · exact ⟨rfl, by decide, by decide, rfl⟩
  · rw [mem_singleton] at hx
    subst hx
    exact ⟨rfl, by decide, by decide, rfl⟩

end Piglor
