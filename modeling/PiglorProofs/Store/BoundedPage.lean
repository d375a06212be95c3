/-
The bounded page against the plain stitched read. Each planned slice is the part of its segment that
the range selects, cut at what is left of the page, so that within the bounds the planned slices,
shown one after the other, are the first Events of the plain read.
-/
import PiglorProofs.Store.BoundedRead

namespace Piglor

open CowForest Checked List Segment

/-- The first `n` Events of a range. -/
def pageOf (lo hi n : Nat) (events : List Event) : List Event :=
  (events.filter fun e => decide (lo ≤ e.seq) && decide (e.seq ≤ hi)).take n

/-- The first segment's page, then what the page still holds of the rest. -/
theorem pageOf_append (lo hi n : Nat) (es fs : List Event) :
    pageOf lo hi n (es ++ fs) = pageOf lo hi n es ++ pageOf lo hi (n - (pageOf lo hi n es).length) fs := by
  unfold pageOf
  rw [filter_append, take_append, length_take]
  congr 2
  omega

structure SizesWithin (bounds : EventReadBounds) (page : List Event) : Prop where
  payload : ∀ e ∈ page, e.payload.length ≤ bounds.payloadBytes
  eventType : ∀ e ∈ page, e.eventType.utf8ByteSize ≤ bounds.eventTypeBytes

def pageBytes (page : List Event) : Nat := (page.map eventBytes).sum

variable {bounds : EventReadBounds} {clock : Clock}

theorem SizesWithin.append {p q : List Event} (h : SizesWithin bounds (p ++ q)) :
    SizesWithin bounds p ∧ SizesWithin bounds q :=
  ⟨⟨fun e he => h.payload e (mem_append_left q he), fun e he => h.eventType e (mem_append_left q he)⟩,
    ⟨fun e he => h.payload e (mem_append_right p he), fun e he => h.eventType e (mem_append_right p he)⟩⟩

theorem pageBytes_append (p q : List Event) : pageBytes (p ++ q) = pageBytes p + pageBytes q := by
  simp [pageBytes]

/-- The clock stays within the limit at every checkpoint. -/
def TimeWithin (bounds : EventReadBounds) (clock : Clock) : Prop :=
  0 < bounds.maxElapsedMicros ∧ ∀ point, clock point ≤ bounds.maxElapsedMicros

theorem TimeWithin.check (h : TimeWithin bounds clock) (point : Checkpoint) :
    checkElapsed (clock point) bounds.maxElapsedMicros = .ok () := by
  unfold checkElapsed
  rw [if_neg (Nat.not_lt.mpr (h.2 point))]

/-! ## One segment -/

/-- How many Events of a segment a page takes. -/
def pageTake (offset len lo hi remaining : Nat) : Nat := min remaining (min (hi - offset) len - (lo - (offset + 1)))

variable {offset len : Nat} {own : List Event}

theorem planPage_eq (lo hi remaining : Nat) (hoff : offset < u64Max) (hfit : offset + len ≤ u64Max) :
    planPage offset len lo hi remaining =
      if pageTake offset len lo hi remaining = 0 then none
      else some ⟨lo - (offset + 1) + 1, pageTake offset len lo hi remaining⟩ := by
  have hstart : saturatingAdd offset 1 = offset + 1 := Nat.min_eq_left hoff
  have hend : saturatingAdd offset len = offset + len := Nat.min_eq_left hfit
  unfold planPage pageTake
  rw [hstart, hend]
  dsimp only
  by_cases hnone : remaining = 0 ∨ max lo (offset + 1) > min hi (offset + len)
  · rw [if_pos hnone, if_pos (by omega)]
  · rw [if_neg hnone, if_neg (by omega)]
    congr 2
    · omega
    · omega

/-- An own Event as the Timeline shows it after `offset` inherited ones. -/
def shifted (offset : Nat) (e : Event) : Event := { e with seq := saturatingAdd offset e.seq }

/-- The page of a segment is the slice its plan names, shifted. -/
theorem pageOf_segment (hown : NumberedFrom Event.seq 0 own)
    (hfit : offset + own.length ≤ u64Max) (len lo hi remaining : Nat) :
    pageOf lo hi remaining (logicalEventsFrom offset (own.take len)) =
      ((own.drop (lo - (offset + 1))).take (pageTake offset len lo hi remaining)).map (shifted offset) := by
  have hshift : logicalEventsFrom offset (own.take len) = (own.take len).map (shifted offset) := by
    have hnum := logicalEventsFrom_of_numbered offset (hown.take len)
    rw [Nat.add_zero] at hnum
    rw [hnum]
    refine map_congr_left fun e he => ?_
    have hle := (hown.bounds (mem_of_mem_take he)).2
    rw [shifted, show saturatingAdd offset e.seq = offset + e.seq from Nat.min_eq_left (by omega)]
  unfold pageOf
  rw [(numbered_logicalEventsFrom offset (own.take len)).filter_range, hshift, ← map_take, ← map_drop,
    ← map_take, take_take, drop_take, take_take]
  rfl

theorem length_pageOf_segment (hown : NumberedFrom Event.seq 0 own) (hlen : len ≤ own.length)
    (hfit : offset + own.length ≤ u64Max) (lo hi remaining : Nat) :
    (pageOf lo hi remaining (logicalEventsFrom offset (own.take len))).length =
      pageTake offset len lo hi remaining := by
  rw [pageOf_segment hown hfit, length_map, length_take, length_drop]
  unfold pageTake
  omega

theorem SizesWithin.of_shifted {es : List Event} (h : SizesWithin bounds (es.map (shifted offset))) :
    SizesWithin bounds es :=
  ⟨fun e he => h.payload (shifted offset e) (mem_map_of_mem he),
    fun e he => h.eventType (shifted offset e) (mem_map_of_mem he)⟩

theorem pageBytes_shifted (offset : Nat) (es : List Event) : pageBytes (es.map (shifted offset)) = pageBytes es := by
  unfold pageBytes
  rw [map_map]
  rfl

/-- A contiguous slice within the bounds passes the checks, and its bytes are counted. -/
theorem examineEvents_eq (htime : TimeWithin bounds clock) (t : TimelineId) (index rawStart : Nat) :
    ∀ (es : List Event) (offset total : Nat),
    NumberedFrom Event.seq (rawStart + offset) es → rawStart + offset + es.length ≤ u64Max → SizesWithin bounds es →
    total + pageBytes es ≤ bounds.totalBytes →
    ∃ total', examineEvents bounds clock t index (rawStart + 1) offset total es = .ok total' ∧
      total' ≤ total + pageBytes es
  | [], offset, total, _, _, _, _ => ⟨total, rfl, Nat.le_add_right _ _⟩
  | e :: es, offset, total, hnum, hfit, hsizes, hbytes => by
    have hcons : pageBytes (e :: es) = eventBytes e + pageBytes es := by simp [pageBytes]
    obtain ⟨hfirst, hrest⟩ := SizesWithin.append (p := [e]) hsizes
    rw [length_cons] at hfit
    have hseq : e.seq = saturatingAdd (rawStart + 1) offset := by
      rw [hnum.1]
      exact (Nat.add_right_comm rawStart offset 1).trans (Nat.min_eq_left (by omega)).symm
    -- saturation only ever lowers the running total
    have htotal : saturatingAdd total (saturatingAdd e.payload.length e.eventType.utf8ByteSize) ≤
        total + eventBytes e := (Nat.min_le_left _ _).trans (Nat.add_le_add_left (Nat.min_le_left _ _) _)
    have hexamine : examineEvent bounds t (saturatingAdd (rawStart + 1) offset) total e =
        .ok (saturatingAdd total (saturatingAdd e.payload.length e.eventType.utf8ByteSize)) := by
      unfold examineEvent
      rw [if_neg (not_not_intro hseq), if_neg (Nat.not_lt.mpr (hfirst.payload e mem_cons_self)),
        if_neg (Nat.not_lt.mpr (hfirst.eventType e mem_cons_self))]
      rw [if_neg (by omega)]
    obtain ⟨total', htotal', hle⟩ := examineEvents_eq htime t index rawStart es (offset + 1)
      (saturatingAdd total (saturatingAdd e.payload.length e.eventType.utf8ByteSize)) hnum.2 (by omega) hrest
      (by omega)
    refine ⟨total', ?_, by omega⟩
    rw [examineEvents, htime.check, ok_bind, hexamine, ok_bind, htotal']

namespace MemoryStore

variable {s : MemoryStore}

/-! ## Materializing -/

def shown (s : MemoryStore) (plan : BoundedSegmentPage) : List Event :=
  (((s.ownEvents plan.timeline).drop (plan.rawStart - 1)).take plan.take).map (shifted plan.logicalOffset)

theorem cloneEvents_eq (htime : TimeWithin bounds clock) (page offset : Nat) : ∀ (es : List Event) (k : Nat),
    cloneEvents bounds clock page offset k es = .ok (es.map (shifted offset))
  | [], _ => rfl
  | e :: es, k => by
    rw [cloneEvents, htime.check, ok_bind, cloneEvents_eq htime page offset es (k + 1), ok_bind]
    rfl

theorem materializeLoop_eq (htime : TimeWithin bounds clock) : ∀ (plans : List BoundedSegmentPage) (index : Nat),
    (∀ plan ∈ plans, s.Fits plan) → s.materializeLoop bounds clock index plans = .ok (plans.flatMap s.shown)
  | [], _, _ => by rw [materializeLoop, htime.check, ok_bind]; rfl
  | plan :: plans, index, hfit => by
    obtain ⟨st, hst, h1, h2, h3⟩ := hfit plan mem_cons_self
    have ih := materializeLoop_eq htime plans (index + 1) fun p hp => hfit p (mem_cons_of_mem _ hp)
    have hown : s.ownEvents plan.timeline = st.events := by simp [ownEvents, hst]
    rw [materializeLoop, htime.check, ok_bind, stateOf_eq hst, ok_bind, pageSlice_eq h1 h2 h3, ok_bind,
      cloneEvents_eq htime, ok_bind, ih, ok_bind, flatMap_cons, shown, hown]

/-! ## The chain -/

variable {t : TimelineId} {L : List (Segment TimelineId Event)}

theorem forkChainBoundedLoop_of_spine (htime : TimeWithin bounds clock) (h : Spine s.log t L) :
    ∀ (fuel : Nat) (chain : List TimelineId) (depth : Nat), L.length ≤ fuel →
      (∀ k ∈ L.map key, k ∉ chain) → depth + L.length ≤ bounds.forkDepth + 1 →
      s.forkChainBoundedLoop bounds clock fuel chain depth t = .ok (L.map key ++ chain) := by
  induction h with
  | @root k own hk =>
    intro fuel chain depth hfuel hnew _
    obtain ⟨st, hst, hlog⟩ := lookup_of_log hk
    have hfp : st.timeline.metadata.forkPoint = none := congrArg Log.parent hlog
    cases fuel with
    | zero => simp at hfuel
    | succ fuel =>
      have hk' : k ∉ chain := hnew k (by simp)
      rw [forkChainBoundedLoop, htime.check, ok_bind, if_neg hk', hst]
      simp [hfp]
  | @fork k p n own L hk hp ih =>
    intro fuel chain depth hfuel hnew hdepth
    obtain ⟨st, hst, hlog⟩ := lookup_of_log hk
    have hfp : st.timeline.metadata.forkPoint = some (p, n) := congrArg Log.parent hlog
    rw [length_append, length_singleton] at hdepth
    have hpos : 0 < L.length := length_pos_of_ne_nil hp.ne_nil
    cases fuel with
    | zero => simp at hfuel
    | succ fuel =>
      have hk' : k ∉ chain := hnew k (by simp)
      have hstep := ih fuel (k :: chain) (depth + 1) (by simpa using hfuel) (Spine.fork_unseen hk hp hnew) (by omega)
      rw [forkChainBoundedLoop, htime.check, ok_bind, if_neg hk', hst]
      simp only [hfp]
      rw [if_neg (by omega), hstep]
      simp

/-- A segment of a spine as the bounded read meets it: the ledger of its Timeline. -/
structure Segmented (s : MemoryStore) (x : Segment TimelineId Event) (st : TimelineState) : Prop where
  lookup : s.timelines.lookup x.key = some st
  start : st.timeline.metadata.prefixLen = x.start
  own : st.events = x.own
  ledger : st.Ledger x.key

variable {F : CowForest TimelineId Event} {x : Segment TimelineId Event}

theorem Refines.segmented (hr : s.Refines F) (h : Spine s.log t L) (hx : x ∈ L) : ∃ st, s.Segmented x st := by
  obtain ⟨st, hst, hstart, hown⟩ := lookup_of_spine h hx
  exact ⟨st, hst, hstart, hown, hr.ledger hst⟩

variable {st : TimelineState}

theorem Segmented.fits (h : s.Segmented x st) : x.start + x.own.length ≤ u64Max := by
  rw [← h.start, ← h.own]
  exact h.ledger.fits

theorem Segmented.seqs (h : s.Segmented x st) : NumberedFrom Event.seq 0 x.own := h.own ▸ h.ledger.seqs

theorem boundaryIsValid_of_numbered (hhead : st.timeline.head = st.events.length)
    (hseqs : NumberedFrom Event.seq 0 st.events) : boundaryIsValid st = true := by
  unfold boundaryIsValid
  rcases hes : st.events with _ | ⟨e, es⟩
  · rw [hes] at hhead
    simpa using hhead
  · rw [hes] at hhead hseqs
    have hlast := hseqs.apply es.length (by simp)
    simp only [head?_cons, getLast?_eq_getElem?, length_cons, Nat.add_sub_cancel]
    rw [getElem?_eq_getElem (by simp)]
    simp only [hhead, length_cons, hseqs.1, hlast]
    simp

variable {lo hi : Nat}

section Spine

variable {A B : List (Segment TimelineId Event)}

theorem forkCap_at (hL : Spine s.log t (A ++ x :: B)) :
    s.forkCap ((A ++ x :: B).map key) A.length = .ok (B.head?.map start) := by
  have hnext : ((A ++ x :: B).map key)[A.length + 1]? = B.head?.map key := by
    rw [map_append, map_cons, getElem?_append_right (by simp)]
    cases B <;> simp
  unfold forkCap
  rw [hnext]
  cases B with
  | nil => rfl
  | cons y B =>
    obtain ⟨own, hy⟩ := hL.adjacent rfl
    obtain ⟨st, hst, hlog⟩ := lookup_of_log hy
    have hfp : st.timeline.metadata.forkPoint = some (x.key, y.start) := congrArg Log.parent hlog
    simp only [head?_cons, Option.map_some, stateOf_eq hst, ok_bind, hfp]

/-- The bounded read measures a segment as the plain read does. -/
theorem boundedSegmentLength_at (hL : Spine s.log t (A ++ x :: B)) (ho : Ordered (A ++ x :: B))
    (hx : s.Segmented x st) :
    s.boundedSegmentLength ((A ++ x :: B).map key) A.length x.key x.start = .ok (x.span B) := by
  obtain ⟨hle, hnext⟩ := ho.span
  have hcap : cappedLength x.key st.events.length x.start (B.head?.map start) = .ok (x.span B) := by
    cases B with
    | nil => simp [cappedLength, Segment.span, hx.own]
    | cons y B =>
      have hy : x.start + x.span (y :: B) = y.start := hnext y (by simp)
      have hsub : checkedSub y.start x.start = some (x.span (y :: B)) := by
        unfold checkedSub
        rw [if_pos (by omega), ← hy, Nat.add_sub_cancel_left]
      simp only [cappedLength, head?_cons, Option.map_some, hsub]
  unfold boundedSegmentLength
  rw [stateOf_eq hx.lookup, ok_bind, forkCap_at hL, ok_bind, hcap, ok_bind, hx.own, if_neg (Nat.not_lt.mpr hle)]

theorem planBoundedSegment_at (htime : TimeWithin bounds clock) (hL : Spine s.log t (A ++ x :: B))
    (ho : Ordered (A ++ x :: B)) (hx : s.Segmented x st) {remaining total : Nat}
    (hoff : x.start < u64Max) {page : List Event}
    (hpage : pageOf lo hi remaining (logicalEventsFrom x.start (x.own.take (x.span B))) = page)
    (hsizes : SizesWithin bounds page) (hbytes : total + pageBytes page ≤ bounds.totalBytes) :
    ∃ planned total', s.planBoundedSegment bounds clock ((A ++ x :: B).map key) A.length x.key x.start
        lo hi remaining total = .ok (planned, total') ∧
      planned.toList.flatMap s.shown = page ∧ (planned.map BoundedSegmentPage.take).getD 0 = page.length ∧
      total' ≤ total + pageBytes page := by
  obtain ⟨hspan, -⟩ := ho.span
  have hfits := hx.fits
  have hplan := planPage_eq lo hi remaining hoff (show x.start + x.span B ≤ u64Max by omega)
  have hslice := pageOf_segment hx.seqs hfits (x.span B) lo hi remaining
  have hlength := length_pageOf_segment hx.seqs hspan hfits lo hi remaining
  rw [hpage] at hslice hlength
  unfold planBoundedSegment
  rw [htime.check, ok_bind, stateOf_eq hx.lookup, ok_bind, boundaryIsValid_of_numbered hx.ledger.head_eq hx.ledger.seqs,
    boundedSegmentLength_at hL ho hx, ok_bind, hplan, ← hlength]
  by_cases hzero : page.length = 0
  · refine ⟨none, total, ?_, ?_, hzero.symm, Nat.le_add_right _ _⟩
    · simp [hzero]
    · exact (eq_nil_of_length_eq_zero hzero).symm
  · -- the page is not empty, so its slice starts within the segment
    have hend : lo - (x.start + 1) + page.length ≤ x.own.length := by
      unfold pageTake at hlength
      omega
    have hnum := (hx.seqs.drop (show lo - (x.start + 1) ≤ x.own.length by omega)).take page.length
    rw [← hlength] at hslice
    generalize hes : (x.own.drop (lo - (x.start + 1))).take page.length = es at hslice hnum
    have hlen : es.length = page.length := by
      have := congrArg length hslice
      rw [length_map] at this
      exact this.symm
    have hbytes' : pageBytes page = pageBytes es := by rw [hslice, pageBytes_shifted]
    rw [hbytes'] at hbytes ⊢
    obtain ⟨total', hexamine, hle⟩ := examineEvents_eq htime x.key A.length (lo - (x.start + 1)) es 0 total
      (by simpa using hnum) (by omega) (SizesWithin.of_shifted (hslice ▸ hsizes)) hbytes
    have hpart : pageSlice st.events (lo - (x.start + 1) + 1) page.length = .ok es := by
      rw [hx.own, pageSlice_eq (by omega) (by omega) (by omega), Nat.add_sub_cancel, hes]
    refine ⟨some ⟨x.key, lo - (x.start + 1) + 1, page.length, x.start⟩, total', ?_, ?_, rfl, hle⟩
    · simp only [hzero, if_false, hpart, ok_bind, hexamine]
      rfl
    · have hown : s.ownEvents x.key = x.own := by simp [ownEvents, hx.lookup, hx.own]
      simp only [Option.toList_some, flatMap_cons, flatMap_nil, append_nil, shown, hown,
        Nat.add_sub_cancel, hes]
      exact hslice.symm

end Spine

/-- Nothing of a segment that starts at the end of the range is selected. -/
theorem pageOf_beyond {n k : Nat} (es : List Event) (h : hi ≤ k) :
    pageOf lo hi n (logicalEventsFrom k es) = [] := by
  unfold pageOf
  rw [(numbered_logicalEventsFrom k es).filter_range, Nat.sub_eq_zero_of_le h]
  simp

/-- The plans from a segment on show the page of what is left. -/
theorem planBoundedLoop_from (htime : TimeWithin bounds clock) (hr : s.Refines F)
    (hhi : hi ≤ u64Max) : ∀ (B A : List (Segment TimelineId Event)) (offset remaining
      total : Nat), Spine s.log t (A ++ B) → Ordered (A ++ B) → (∀ x ∈ B.head?, x.start = offset) → offset < u64Max →
    SizesWithin bounds (pageOf lo hi remaining (logicalEventsFrom offset (stitch B))) →
    total + pageBytes (pageOf lo hi remaining (logicalEventsFrom offset (stitch B))) ≤ bounds.totalBytes →
    ∃ plans, s.planBoundedLoop bounds clock ((A ++ B).map key) lo hi ((B.map key).zipIdx A.length)
        offset remaining total = .ok plans ∧
      plans.flatMap s.shown = pageOf lo hi remaining (logicalEventsFrom offset (stitch B))
  | [], A, offset, remaining, total, _, _, _, _, _, _ => ⟨[], rfl, by simp [stitch, logicalEventsFrom, pageOf]⟩
  | x :: B, A, offset, remaining, total, hL, ho, hstart, hoff, hsizes, hbytes => by
    obtain rfl := hstart x (by simp)
    obtain ⟨hspan, hnext⟩ := ho.span
    obtain ⟨st, hx⟩ := hr.segmented hL (x := x) (by simp)
    have hfits := hx.fits
    have hcut : A ++ x :: B = (A ++ [x]) ++ B := by simp
    have hstitch : logicalEventsFrom x.start (stitch (x :: B)) =
        logicalEventsFrom x.start (x.own.take (x.span B)) ++ logicalEventsFrom (x.start + x.span B) (stitch B) := by
      rw [stitch_cons, logicalEventsFrom_append, length_take, Nat.min_eq_left hspan]
    -- the page of the rest is this segment's page and the page of what follows
    rw [hstitch, pageOf_append] at hsizes hbytes ⊢
    generalize hpage : pageOf lo hi remaining (logicalEventsFrom x.start (x.own.take (x.span B))) = page
      at hsizes hbytes ⊢
    rw [pageBytes_append] at hbytes
    obtain ⟨planned, total', hplanned, hshown, htake, htotal⟩ := planBoundedSegment_at htime hL ho hx hoff hpage
      hsizes.append.1 (show total + pageBytes page ≤ bounds.totalBytes by omega)
    have hoffset : saturatingAdd x.start (x.span B) = x.start + x.span B := Nat.min_eq_left (by omega)
    rw [map_cons, zipIdx_cons, planBoundedLoop, hplanned, ok_bind]
    dsimp only
    rw [htake, boundedSegmentLength_at hL ho hx, ok_bind, hoffset]
    -- the loop stops where nothing of the rest is selected
    by_cases hstop : remaining - page.length = 0 ∨ x.start + x.span B ≥ hi
    · have hrest : pageOf lo hi (remaining - page.length) (logicalEventsFrom (x.start + x.span B) (stitch B)) = [] := by
        rcases hstop with hfull | hpast
        · rw [hfull, pageOf, take_zero]
        · exact pageOf_beyond _ hpast
      rw [if_pos hstop, hrest, append_nil]
      exact ⟨planned.toList, rfl, hshown⟩
    · obtain ⟨plans, hplans, hrest⟩ := planBoundedLoop_from htime hr hhi B (A ++ [x]) (x.start + x.span B)
        (remaining - page.length) total' (hcut ▸ hL) (hcut ▸ ho) (fun z hz => (hnext z hz).symm) (by omega)
        hsizes.append.2 (by omega)
      rw [← hcut, length_append, length_singleton] at hplans
      rw [if_neg hstop, hplans, ok_bind]
      exact ⟨planned.toList ++ plans, rfl, by rw [flatMap_append, hshown, hrest]⟩

/-! ## The page -/

structure WithinBounds (s : MemoryStore) (t : TimelineId) (bounds : EventReadBounds) (clock : Clock)
    (page : List Event) : Prop where
  depth : ∀ chain, s.forkChain t = .ok chain → chain.timelines.length ≤ bounds.forkDepth + 1
  sizes : SizesWithin bounds page
  total : pageBytes page ≤ bounds.totalBytes
  time : TimeWithin bounds clock

/-- A range on logical sequences is the planner's range. -/
theorem filter_contains (range : SeqRange) {events : List Event} (hseqs : NumberedFrom Event.seq 0 events)
    (hfit : events.length ≤ u64Max) :
    events.filter (fun e => range.contains e.seq) =
      events.filter fun e => decide (max range.lo 1 ≤ e.seq) && decide (e.seq ≤ range.hi.getD u64Max) := by
  refine filter_congr fun e he => ?_
  have hbounds := hseqs.bounds he
  have hlo : range.lo ≤ e.seq ↔ max range.lo 1 ≤ e.seq :=
    ⟨fun h => Nat.max_le.mpr ⟨h, hbounds.1⟩, fun h => (Nat.max_le.mp h).1⟩
  have htop : e.seq ≤ u64Max := hbounds.2.trans (by omega)
  unfold SeqRange.contains
  rcases range.hi with _ | hi
  · simp only [Option.all_none, Option.getD_none, Bool.and_true, htop, decide_true, hlo]
  · simp only [Option.all_some, Option.getD_some, hlo]

/-- Within its bounds the bounded read of a sound Timeline returns the page of its history. -/
theorem Refines.collectBounded (hr : s.Refines F) (hs : F.Sound t) {hist : List Event}
    (hh : F.History t hist) {range : SeqRange} (hrange : ∀ hi ∈ range.hi, hi ≤ u64Max)
    (hw : s.WithinBounds t bounds clock (((logicalEvents hist).filter fun e => range.contains e.seq).take bounds.events)) :
    s.collectEventsInRangeBounded t range bounds clock =
      .ok (((logicalEvents hist).filter fun e => range.contains e.seq).take bounds.events) := by
  obtain ⟨st, hst⟩ := history_lookup hr hh
  have hfit := (hr.length_history hst hh).2
  obtain ⟨hdepth, hsizes, htotal, htime⟩ := hw
  have hfilter := filter_contains range (numbered_logicalEventsFrom 0 hist) (by simpa using hfit)
  rw [logicalEvents, hfilter] at hsizes htotal ⊢
  obtain ⟨L, hL, ho⟩ := hs
  have hL' := hr.spine hL
  have hstitch : stitch L = hist := by
    rw [hL.stitch ho]
    exact History.functional ⟨L, hL, rfl⟩ hh
  have hlen := hdepth _ (forkChain_eq_of_spine hL')
  rw [length_map] at hlen
  have hhi : range.hi.getD u64Max ≤ u64Max := by
    rcases hhi : range.hi with _ | hi
    · exact Nat.le_refl _
    · exact hrange hi (by rw [hhi]; rfl)
  have hchain : s.forkChainBounded bounds clock t = .ok (L.map key) := by
    rw [forkChainBounded, forkChainBoundedLoop_of_spine htime hL' _ _ _ (length_spine_le hL') (by simp) (by omega),
      append_nil]
  obtain ⟨plans, hplans, hshown⟩ := planBoundedLoop_from htime hr hhi L [] 0 bounds.events 0 hL' ho hL.head_start
    (by decide) (hstitch ▸ hsizes) (by rw [Nat.zero_add, hstitch]; exact htotal)
  rw [nil_append, length_nil] at hplans
  have hstored := (forkChainBoundedLoop_yields s bounds clock s.timelines.keys.card [] 0 t (by simp [Stored])).2 _ hchain
  have hfits := (planBoundedLoop_yields bounds clock hstored _ hhi _ 0 bounds.events 0
    (fun p hp => (mem_zipIdx' hp).2 ▸ getElem_mem _) (by decide)).2 plans hplans
  have hpos : bounds.maxElapsedMicros ≠ 0 := Nat.ne_of_gt htime.1
  rw [collectEventsInRangeBounded, if_neg hpos, hchain, ok_bind, planBoundedEvents, hplans, ok_bind,
    materializeLoop_eq htime plans 0 hfits, hshown, hstitch]
  rfl

/-- Bounded paging agrees with the plain stitched read: within the bounds a page of `m` Events is the
first `m` Events of the plain read of the range, and no read ever indexes out of range. -/
theorem boundedPage_eq_plain (hs : Reachable Fresh s) {t : TimelineId} {events : List Event}
    (hread : s.read t .all = .ok events) (range : SeqRange) (hrange : ∀ hi ∈ range.hi, hi ≤ u64Max)
    (bounds : EventReadBounds) (clock : Clock) :
    ∃ plain, s.collectEventsInRange t range = .ok plain ∧
      (s.WithinBounds t bounds clock (plain.take bounds.events) →
        s.collectEventsInRangeBounded t range bounds clock = .ok (plain.take bounds.events)) ∧
      s.collectEventsInRangeBounded t range bounds clock ≠ .error .panic := by
  obtain ⟨F, hw⟩ := hs.wf
  obtain ⟨-, -, -, hsound, hist, hh, -⟩ := hw.toRefines.read_all hread
  exact ⟨_, hw.toRefines.collect hsound hh range, hw.toRefines.collectBounded hsound hh hrange,
    collectEventsInRangeBounded_safe s t hrange bounds clock⟩

/-- A branch with two Events of its own after the inherited one. -/
def grownBranch : MemoryStore :=
  forkedOnce.run [.append ⟨2⟩ [EventDraft.new ⟨1⟩ "note" [], EventDraft.new ⟨1⟩ "note" [7]] (drawsFrom 2 6)]

/-- A page of two Events of the branch, which crosses the cut and leaves its last Event out. -/
theorem grownBranch_boundedPage : ∃ plain, grownBranch.collectEventsInRange ⟨2⟩ ⟨0, none⟩ = .ok plain ∧
    plain.length = 3 ∧
    grownBranch.collectEventsInRangeBounded ⟨2⟩ ⟨0, none⟩ ⟨8, 8, 1, 2, 64, 5⟩ (fun _ => 1) = .ok (plain.take 2) := by
  obtain ⟨plain, hplain, hpage, -⟩ := boundedPage_eq_plain (forkedOnce_reachable.run (by decide) : Reachable Fresh grownBranch)
    (t := ⟨2⟩) rfl ⟨0, none⟩ (by decide) ⟨8, 8, 1, 2, 64, 5⟩ fun _ => 1
  refine ⟨plain, hplain, ?_, hpage ⟨?_, ⟨?_, ?_⟩, ?_, by decide, fun _ => show 1 ≤ 5 by decide⟩⟩
  · cases hplain
    decide
  · rintro chain ⟨rfl⟩
    decide
  all_goals
    cases hplain
    decide

end MemoryStore

end Piglor
