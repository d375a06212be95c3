/-
The reads of a store that refines a copy-on-write forest. On a Timeline whose spine is ordered the
walk finds the spine, every segment's prefix and length are its cut and the next cut, and the
stitched read, the logical head and the chain hash are those of the forest's history. On a Timeline
whose own cut precedes its parent's, every one of them fails.
-/
import PiglorProofs.Store.Chain
import PiglorProofs.Lib.Numbered

namespace Piglor

open CowForest Checked List Segment ForkChain

def TimelineState.log (st : TimelineState) : Log TimelineId Event := ⟨st.timeline.metadata.forkPoint, st.events⟩

/-- What the store keeps of every Timeline: its key, its Events numbered from one, and room for
every logical sequence. -/
structure TimelineState.Ledger (id : TimelineId) (st : TimelineState) : Prop where
  id_eq : st.timeline.metadata.id = id
  head_eq : st.timeline.head = st.events.length
  seqs : NumberedFrom Event.seq 0 st.events
  fits : st.timeline.metadata.prefixLen + st.events.length ≤ u64Max

theorem TimelineState.log_start (st : TimelineState) : st.log.start = st.timeline.metadata.prefixLen := rfl

/-- The Events as a logical Timeline shows them after `k` others. -/
def logicalEventsFrom (k : Nat) (events : List Event) : List Event :=
  (events.zipIdx k).map fun (e, i) => { e with seq := i + 1 }

/-- The Events as a logical Timeline shows them: numbered from one. -/
def logicalEvents (events : List Event) : List Event := logicalEventsFrom 0 events

theorem renumberAndFilter_eq (events : List Event) (range : SeqRange) :
    renumberAndFilter events range = (logicalEvents events).filter fun e => range.contains e.seq := rfl

theorem logicalEventsFrom_cons (k : Nat) (e : Event) (es : List Event) :
    logicalEventsFrom k (e :: es) = { e with seq := k + 1 } :: logicalEventsFrom (k + 1) es := rfl

theorem logicalEventsFrom_append (k : Nat) (es fs : List Event) :
    logicalEventsFrom k (es ++ fs) = logicalEventsFrom k es ++ logicalEventsFrom (k + es.length) fs := by
  simp [logicalEventsFrom, zipIdx_append]

@[simp] theorem length_logicalEventsFrom (k : Nat) (es : List Event) :
    (logicalEventsFrom k es).length = es.length := by
  simp [logicalEventsFrom]

theorem numbered_logicalEventsFrom : ∀ (k : Nat) (es : List Event), NumberedFrom Event.seq k (logicalEventsFrom k es)
  | _, [] => trivial
  | k, _ :: es => ⟨rfl, numbered_logicalEventsFrom (k + 1) es⟩

/-- Renumbering changes nothing that does not read the sequence. -/
theorem map_logicalEventsFrom {β : Type} {f : Event → β} (hf : ∀ (e : Event) (n : Seq), f { e with seq := n } = f e) :
    ∀ (k : Nat) (es : List Event), (logicalEventsFrom k es).map f = es.map f
  | _, [] => rfl
  | k, e :: es => by
    rw [logicalEventsFrom_cons, map_cons, map_cons, hf, map_logicalEventsFrom hf (k + 1) es]

theorem take_logicalEventsFrom (k n : Nat) (es : List Event) :
    (logicalEventsFrom k es).take n = logicalEventsFrom k (es.take n) := by
  rw [← take_append_drop n es, logicalEventsFrom_append, take_append_drop]
  rcases Nat.le_total n es.length with h | h
  · rw [take_append_of_le_length (by simp [h]), take_of_length_le (by simp)]
  · rw [take_of_length_le h, drop_eq_nil_of_le h, take_of_length_le (by simp [logicalEventsFrom, h])]
    simp [logicalEventsFrom]

/-- Own Events are shown after the inherited ones by shifting their sequences. -/
theorem logicalEventsFrom_of_numbered (k : Nat) : ∀ {j : Nat} {es : List Event}, NumberedFrom Event.seq j es →
    logicalEventsFrom (k + j) es = es.map fun e => { e with seq := k + e.seq }
  | _, [], _ => rfl
  | j, e :: es, h => by
    have ih := logicalEventsFrom_of_numbered k h.2
    rw [logicalEventsFrom_cons, map_cons, h.1, Nat.add_assoc k j 1, ih]

namespace MemoryStore

/-- The store as a table of logs. -/
def log (s : MemoryStore) (t : TimelineId) : Option (Log TimelineId Event) :=
  (s.timelines.lookup t).map TimelineState.log

/-- The store's Timelines are the logs of a copy-on-write forest, and each is a ledger. -/
structure Refines (s : MemoryStore) (F : CowForest TimelineId Event) : Prop where
  log_eq : F.log = s.log
  ledger : ∀ {t st}, s.timelines.lookup t = some st → st.Ledger t

variable {s : MemoryStore} {t : TimelineId} {L : List (Segment TimelineId Event)} {l : Log TimelineId Event}

theorem lookup_of_log (h : s.log t = some l) :
    ∃ st, s.timelines.lookup t = some st ∧ st.log = l := by
  simpa [log] using h

variable {st : TimelineState} {x : Segment TimelineId Event}

/-- Every segment of a spine is stored. -/
theorem lookup_of_spine (h : Spine s.log t L) (hx : x ∈ L) :
    ∃ st, s.timelines.lookup x.key = some st ∧ st.log.start = x.start ∧ st.events = x.own := by
  obtain ⟨l, -, hl, hstart, hown, -⟩ := h.mem hx
  obtain ⟨st, hst, rfl⟩ := lookup_of_log hl
  exact ⟨st, hst, hstart.symm, hown.symm⟩

theorem log_of_lookup (h : s.timelines.lookup t = some st) : s.log t = some st.log := by
  simp [log, h]

/-! ## The walk to the root -/

theorem mem_keys_of_lookup (h : s.timelines.lookup t = some st) : t ∈ s.timelines.keys := by
  rw [Finmap.mem_keys, ← Finmap.lookup_isSome, h]
  rfl

theorem forkChainLoop_of_spine (h : Spine s.log t L) :
    ∀ (fuel : Nat) (chain : List TimelineId) (forkSeqs : List Seq), L.length ≤ fuel →
      (∀ k ∈ L.map key, k ∉ chain) →
      s.forkChainLoop fuel chain forkSeqs t =
        .ok ⟨L.map key ++ chain, (L.map start).tail ++ forkSeqs⟩ := by
  induction h with
  | @root k own hk =>
    intro fuel chain forkSeqs hfuel hnew
    obtain ⟨st, hst, hlog⟩ := lookup_of_log hk
    have hfp : st.timeline.metadata.forkPoint = none := congrArg Log.parent hlog
    cases fuel with
    | zero => simp at hfuel
    | succ fuel =>
      -- no key of the spine has been seen, so no turn reports a cycle
      have hk' : k ∉ chain := hnew k (by simp)
      simp [forkChainLoop, hst, hfp, hk']
  | @fork k p n own L hk hp ih =>
    intro fuel chain forkSeqs hfuel hnew
    obtain ⟨st, hst, hlog⟩ := lookup_of_log hk
    have hfp : st.timeline.metadata.forkPoint = some (p, n) := congrArg Log.parent hlog
    cases fuel with
    | zero => simp at hfuel
    | succ fuel =>
      have hk' : k ∉ chain := hnew k (by simp)
      have hstep := ih fuel (k :: chain) (n :: forkSeqs) (by simpa using hfuel) (Spine.fork_unseen hk hp hnew)
      have hne : L.map start ≠ [] := by simpa using hp.ne_nil
      simp only [forkChainLoop, hk', if_false, hst, hfp, hstep]
      simp [tail_append_of_ne_nil hne]

/-- A spine has no more segments than the store has Timelines. -/
theorem length_spine_le (h : Spine s.log t L) : L.length ≤ s.timelines.keys.card := by
  have hsub : (L.map key).toFinset ⊆ s.timelines.keys := by
    intro k hk
    obtain ⟨seg, hseg, rfl⟩ := mem_map.mp (mem_toFinset.mp hk)
    obtain ⟨st, hst, -⟩ := lookup_of_spine h hseg
    exact mem_keys_of_lookup hst
  have hcard := Finset.card_le_card hsub
  rwa [toFinset_card_of_nodup h.nodup_keys, length_map] at hcard

/-- The walk finds the spine, with one cut between any two of its Timelines. -/
theorem forkChain_eq_of_spine (h : Spine s.log t L) :
    s.forkChain t = .ok ⟨L.map key, (L.map start).tail⟩ := by
  rw [forkChain, forkChainLoop_of_spine h _ _ _ (length_spine_le h) (by simp)]
  simp

/-! ## Segments -/

/-- The chain the walk finds for a spine. -/
def chainOf (L : List (Segment TimelineId Event)) : ForkChain := ⟨L.map Segment.key, (L.map Segment.start).tail⟩

structure Holds (s : MemoryStore) (x : Segment TimelineId Event) : Prop where
  timeline : ∃ tl, s.timeline x.key = .ok tl
  own : s.ownEvents x.key = x.own
  head : s.localHead x.key = x.own.length
  seqs : NumberedFrom Event.seq 0 x.own
  fits : x.stop ≤ u64Max

theorem holds_of_lookup (h : s.timelines.lookup t = some st) (hl : st.Ledger t) :
    s.Holds ⟨t, st.log.start, st.events⟩ where
  timeline := ⟨st.timeline, by simp [MemoryStore.timeline, h]⟩
  own := by simp [ownEvents, h]
  head := by simp [localHead, h, hl.head_eq]
  seqs := hl.seqs
  fits := hl.fits

variable {F : CowForest TimelineId Event}

theorem Refines.holds (hr : s.Refines F) (h : Spine s.log t L) : ∀ x ∈ L, s.Holds x := by
  intro x hx
  obtain ⟨st, hst, hstart, hown⟩ := lookup_of_spine h hx
  obtain ⟨key, start, own⟩ := x
  cases hstart; cases hown
  exact holds_of_lookup hst (hr.ledger hst)

variable {A B : List (Segment TimelineId Event)} {y : Segment TimelineId Event}

theorem forkSeqs_at : (chainOf (A ++ x :: B)).forkSeqs[A.length]? = B.head?.map start := by
  cases A with
  | nil => cases B <;> simp [chainOf]
  | cons a A =>
    simp only [chainOf, cons_append, map_cons, tail_cons, map_append, length_cons]
    rw [getElem?_append_right (by simp)]
    cases B <;> simp

theorem segmentPrefix_at (h0 : ∀ a ∈ (A ++ x :: B).head?, a.start = 0) :
    (chainOf (A ++ x :: B)).segmentPrefix A.length = .ok x.start := by
  unfold segmentPrefix
  cases A with
  | nil =>
    have : x.start = 0 := h0 x (by simp)
    simp [this]
  | cons a A =>
    simp only [chainOf, cons_append, map_cons, tail_cons, map_append, length_cons]
    rw [if_neg (by omega), Nat.add_sub_cancel, getElem?_append_right (by simp)]
    simp

/-- Each segment of an ordered chain contributes what lies before the next cut. -/
theorem segmentLength_at (h0 : ∀ a ∈ (A ++ x :: B).head?, a.start = 0) (ho : Ordered (A ++ x :: B))
    (hx : s.Holds x) : (chainOf (A ++ x :: B)).segmentLength s A.length x.key = .ok (x.span B) := by
  obtain ⟨hle, hnext⟩ := ho.span
  unfold segmentLength
  rw [segmentPrefix_at h0, ok_bind, forkSeqs_at, hx.head]
  cases B with
  | nil => simp [Segment.span]
  | cons y B =>
    have hy := hnext y (by simp)
    have hspan : x.span (y :: B) = y.start - x.start := rfl
    have hsub : checkedSub y.start x.start = some (x.span (y :: B)) := by
      unfold checkedSub
      rw [if_pos (by omega), hspan]
    simp only [head?_cons, Option.map_some, hsub, ok_bind]
    rw [if_neg (by omega)]

/-- A cut before its parent's own cut is refused at the parent. -/
theorem segmentLength_precedes (h0 : ∀ a ∈ (A ++ x :: y :: B).head?, a.start = 0) (hlt : y.start < x.start) :
    (chainOf (A ++ x :: y :: B)).segmentLength s A.length x.key = .error (precedesError x.key) := by
  have hsub : checkedSub y.start x.start = none := by
    unfold checkedSub
    rw [if_neg (by omega)]
  unfold segmentLength
  rw [segmentPrefix_at h0, ok_bind, forkSeqs_at]
  simp [hsub]

/-! ## The traversals, from any segment on -/

theorem collectSegment_at (h0 : ∀ a ∈ (A ++ x :: B).head?, a.start = 0) (ho : Ordered (A ++ x :: B))
    (hx : s.Holds x) (all : List Event) :
    s.collectSegment (chainOf (A ++ x :: B)) all (x.key, A.length) = .ok (all ++ x.own.take (x.span B)) := by
  obtain ⟨tl, htl⟩ := hx.timeline
  have hfilter := hx.seqs.filter_le (x.span B)
  rw [Nat.zero_add] at hfilter
  simp only [collectSegment, htl, ok_bind, segmentLength_at h0 ho hx, hx.own, hfilter]

theorem collect_from : ∀ (B A : List (Segment TimelineId Event)) (all : List Event),
    (∀ a ∈ (A ++ B).head?, a.start = 0) → Ordered (A ++ B) → (∀ x ∈ B, s.Holds x) →
    ((B.map key).zipIdx A.length).foldlM (s.collectSegment (chainOf (A ++ B))) all =
      .ok (all ++ stitch B)
  | [], A, all, _, _, _ => by simp [stitch, pure, Except.pure]
  | x :: B, A, all, h0, ho, hh => by
    have hcut : A ++ x :: B = (A ++ [x]) ++ B := by simp
    have ih := collect_from B (A ++ [x]) (all ++ x.own.take (x.span B)) (hcut ▸ h0) (hcut ▸ ho)
      fun z hz => hh z (mem_cons_of_mem _ hz)
    rw [← hcut, length_append, length_singleton] at ih
    rw [map_cons, zipIdx_cons, foldlM_cons, collectSegment_at h0 ho (hh x mem_cons_self),
      ok_bind, ih, stitch_cons, append_assoc]

theorem head_from : ∀ (B A : List (Segment TimelineId Event)) (head : Nat),
    (∀ a ∈ (A ++ B).head?, a.start = 0) → Ordered (A ++ B) → (∀ x ∈ B, s.Holds x) →
    head + (stitch B).length ≤ u64Max →
    ((B.map key).zipIdx A.length).foldlM (s.addSegmentLength (chainOf (A ++ B))) head =
      .ok (head + (stitch B).length)
  | [], A, head, _, _, _, _ => by simp [stitch, pure, Except.pure]
  | x :: B, A, head, h0, ho, hh, hfit => by
    have hcut : A ++ x :: B = (A ++ [x]) ++ B := by simp
    have hlen : (stitch (x :: B)).length = x.span B + (stitch B).length := by
      rw [stitch_cons, length_append, length_take, Nat.min_eq_left ho.span.1]
    have ih := head_from B (A ++ [x]) (head + x.span B) (hcut ▸ h0) (hcut ▸ ho)
      (fun z hz => hh z (mem_cons_of_mem _ hz)) (by omega)
    rw [← hcut, length_append, length_singleton] at ih
    have hadd : checkedAdd head (x.span B) = some (head + x.span B) := by
      unfold checkedAdd
      rw [if_pos (by omega)]
    rw [map_cons, zipIdx_cons, foldlM_cons, addSegmentLength,
      segmentLength_at h0 ho (hh x mem_cons_self), ok_bind, hadd, ok_bind, ih, hlen, Nat.add_assoc]

/-- One turn of the chain hash, on a segment that ends at `stop`. -/
theorem chainHashLoop_at (hx : s.Holds x) {head atSeq stop : Nat} {rest : List (TimelineId × Nat)} {hash : Hash}
    (hstop : min ((B.head?.map start).getD head) atSeq - x.start = stop) :
    s.chainHashLoop (chainOf (A ++ x :: B)) head atSeq ((x.key, A.length) :: rest) hash x.start =
      if x.start + stop = atSeq then s.hasher.chain hash (x.own.take stop)
      else s.chainHashLoop (chainOf (A ++ x :: B)) head atSeq rest (s.hasher.chain hash (x.own.take stop))
        (x.start + stop) := by
  have htake := hx.seqs.takeWhile_le stop
  rw [Nat.zero_add] at htake
  rw [chainHashLoop, forkSeqs_at, hx.own]
  subst hstop
  rw [htake]

/-- The chain hash from a segment that starts before the cut: the fold over what is left of the cut. -/
theorem chainHash_from (head atSeq : Nat) : ∀ (B A : List (Segment TimelineId Event)) (x : Segment TimelineId Event)
    (hash : Hash), Ordered (A ++ x :: B) → (∀ z ∈ x :: B, s.Holds z) →
    x.start + (stitch (x :: B)).length = head → x.start < atSeq → atSeq ≤ head →
    s.chainHashLoop (chainOf (A ++ x :: B)) head atSeq (((x :: B).map key).zipIdx A.length) hash x.start =
      s.hasher.chain hash ((stitch (x :: B)).take (atSeq - x.start))
  | [], A, x, hash, ho, hh, hhead, hlt, hle => by
    have hstop : min ((([] : List (Segment TimelineId Event)).head?.map start).getD head) atSeq - x.start =
        atSeq - x.start := by simp only [head?_nil, Option.map_none, Option.getD_none]; omega
    rw [map_cons, zipIdx_cons, chainHashLoop_at (hh x mem_cons_self) hstop, if_pos (by omega), stitch]
  | y :: B, A, x, hash, ho, hh, hhead, hlt, hle => by
    obtain ⟨hspan, hnext⟩ := ho.span
    have hy : x.start + x.span (y :: B) = y.start := hnext y (by simp)
    have hcut : A ++ x :: y :: B = (A ++ [x]) ++ y :: B := by simp
    have hlen : (stitch (x :: y :: B)).length = x.span (y :: B) + (stitch (y :: B)).length := by
      rw [stitch_cons, length_append, length_take, Nat.min_eq_left hspan]
    -- the fold of a segment stops at the next cut or at `atSeq`, whichever comes first
    have hstop : min (((y :: B).head?.map start).getD head) atSeq - x.start =
        min (atSeq - x.start) (x.span (y :: B)) := by
      simp only [head?_cons, Option.map_some, Option.getD_some]
      omega
    rw [map_cons, zipIdx_cons, chainHashLoop_at (hh x mem_cons_self) hstop, stitch_cons,
      take_append, length_take, Nat.min_eq_left hspan, take_take]
    by_cases hdone : atSeq ≤ y.start
    · rw [if_pos (by omega), show atSeq - x.start - x.span (y :: B) = 0 by omega, take_zero, append_nil]
    · -- the whole contribution is folded, and the loop goes on at the next cut
      have ih := chainHash_from head atSeq B (A ++ [x]) y (s.hasher.chain hash (x.own.take (x.span (y :: B))))
        (hcut ▸ ho) (fun z hz => hh z (mem_cons_of_mem _ hz)) (by omega) (by omega) hle
      rw [← hcut, length_append, length_singleton] at ih
      rw [show min (atSeq - x.start) (x.span (y :: B)) = x.span (y :: B) by omega, if_neg (by omega), hy, ih,
        ← Hasher.chain_append, show atSeq - x.start - x.span (y :: B) = atSeq - y.start by omega]

/-- The scan of one segment finds what the logical Timeline shows of it. -/
theorem find_at (hx : s.Holds x) (n : Nat) (eventId : EventId) :
    let hit := (s.ownEvents x.key).find? fun e => decide (e.seq ≤ n) && decide (e.id = eventId)
    let shown := (logicalEventsFrom x.start (x.own.take n)).find? fun e => decide (e.id = eventId)
    (hit = none ∧ shown = none) ∨ ∃ event e, hit = some event ∧ logicalEvent x.start event = .ok e ∧ shown = some e := by
  intro hit shown
  have hfilter := hx.seqs.filter_le n
  have hshift := logicalEventsFrom_of_numbered x.start (hx.seqs.take n)
  rw [Nat.zero_add] at hfilter
  rw [Nat.add_zero] at hshift
  have hshown : shown = hit.map fun e => { e with seq := x.start + e.seq } := by
    simp only [shown, hit]
    rw [hshift, find?_map, ← hfilter, find?_filter, hx.own]
    simp only [Function.comp_def, Bool.decide_and, Bool.decide_eq_true]
  rcases hhit : hit with _ | event
  · exact .inl ⟨rfl, by rw [hshown, hhit]; rfl⟩
  · have hmem : event ∈ x.own := hx.own ▸ mem_of_find?_eq_some hhit
    have hle := hx.seqs.bounds hmem
    have hfits := hx.fits
    have hadd : checkedAdd x.start event.seq = some (x.start + event.seq) := by
      unfold checkedAdd
      simp only [stop] at hfits
      rw [if_pos (by omega)]
    exact .inr ⟨event, { event with seq := x.start + event.seq }, rfl, by simp [logicalEvent, hadd],
      by rw [hshown, hhit]; rfl⟩

theorem find_from (eventId : EventId) : ∀ (B A : List (Segment TimelineId Event)) (start : Nat),
    (∀ a ∈ (A ++ B).head?, a.start = 0) → Ordered (A ++ B) → (∀ x ∈ B, s.Holds x) →
    (∀ x ∈ B.head?, x.start = start) →
    s.findInSegments (chainOf (A ++ B)) eventId ((B.map key).zipIdx A.length) =
      .ok ((logicalEventsFrom start (stitch B)).find? fun e => decide (e.id = eventId))
  | [], A, start, _, _, _, _ => by simp [findInSegments, stitch, logicalEventsFrom]
  | x :: B, A, start, h0, ho, hh, hstart => by
    obtain rfl := hstart x (by simp)
    have hx := hh x mem_cons_self
    have hcut : A ++ x :: B = (A ++ [x]) ++ B := by simp
    obtain ⟨hspan, hnext⟩ := ho.span
    have ih := find_from eventId B (A ++ [x]) (x.start + x.span B) (hcut ▸ h0) (hcut ▸ ho)
      (fun z hz => hh z (mem_cons_of_mem _ hz)) (fun z hz => (hnext z hz).symm)
    rw [← hcut, length_append, length_singleton] at ih
    rw [map_cons, zipIdx_cons, findInSegments, segmentPrefix_at h0, ok_bind, segmentLength_at h0 ho hx,
      ok_bind, stitch_cons, logicalEventsFrom_append, find?_append, length_take, Nat.min_eq_left hspan]
    rcases find_at hx (x.span B) eventId with ⟨hhit, hshown⟩ | ⟨event, e, hhit, he, hshown⟩
    · rw [hhit, hshown, Option.none_or]
      exact ih
    · rw [hhit, hshown, Option.some_or]
      simp only [he, Except.map]

/-! ## The reads of a sound Timeline -/

section Sound

variable {h : List Event} (hr : s.Refines F)

include hr

theorem Refines.spine (hL : Spine F.log t L) :
    Spine s.log t L := hr.log_eq ▸ hL

theorem Refines.lookup (hl : F.log t = some l) :
    ∃ st, s.timelines.lookup t = some st ∧ st.log = l ∧ st.Ledger t := by
  rw [hr.log_eq] at hl
  obtain ⟨st, hst, hlog⟩ := lookup_of_log hl
  exact ⟨st, hst, hlog, hr.ledger hst⟩

theorem Refines.log (h : s.timelines.lookup t = some st) : F.log t = some st.log := by
  rw [hr.log_eq]
  exact log_of_lookup h

/-- A history is as long as the Timeline's inherited prefix and own Events, and fits in `u64`. -/
theorem Refines.length_history (hst : s.timelines.lookup t = some st)
    (hh : F.History t h) : h.length = st.timeline.metadata.prefixLen + st.events.length ∧ h.length ≤ u64Max := by
  have hlen := hh.length (hr.log hst)
  have hfits := (hr.ledger hst).fits
  rw [TimelineState.log_start] at hlen
  exact ⟨hlen, hlen.trans_le hfits⟩

/-- An own Event is shown at its shifted sequence. -/
theorem Refines.mem_logicalEvents (hst : s.timelines.lookup t = some st)
    (hh : F.History t h) {own : Event} (hown : own ∈ st.events) :
    { own with seq := st.timeline.metadata.prefixLen + own.seq } ∈ logicalEvents h := by
  have hdrop := hh.drop (hr.log hst)
  have hlen := (hr.length_history hst hh).1
  rw [TimelineState.log_start] at hdrop
  rw [logicalEvents, ← take_append_drop st.timeline.metadata.prefixLen h, hdrop, logicalEventsFrom_append,
    length_take_of_le (by omega), Nat.zero_add]
  refine mem_append_right _ ?_
  rw [show st.log.own = st.events from rfl, ← Nat.add_zero st.timeline.metadata.prefixLen,
    logicalEventsFrom_of_numbered _ (hr.ledger hst).seqs]
  exact mem_map.mpr ⟨own, hown, rfl⟩

theorem history_lookup (hh : F.History t h) : ∃ st, s.timelines.lookup t = some st := by
  obtain ⟨L, hL, -⟩ := hh
  obtain ⟨-, l, hl, -⟩ := hL.concat
  obtain ⟨st, hst, -⟩ := hr.lookup hl
  exact ⟨st, hst⟩

variable (hs : F.Sound t)

include hs

variable (hh : F.History t h)

include hh

/-- The spine of a sound Timeline, with everything a traversal needs of it. -/
theorem Refines.sound_spine :
    ∃ L, s.forkChain t = .ok (chainOf L) ∧ (∀ a ∈ L.head?, a.start = 0) ∧ Ordered L ∧ (∀ x ∈ L, s.Holds x) ∧
      stitch L = h ∧ L ≠ [] := by
  obtain ⟨L, hL, ho⟩ := hs
  have hL' := hr.spine hL
  refine ⟨L, forkChain_eq_of_spine hL', hL.head_start, ho, hr.holds hL', ?_, hL.ne_nil⟩
  rw [hL.stitch ho]
  exact History.functional ⟨L, hL, rfl⟩ hh

theorem Refines.collect (range : SeqRange) :
    s.collectEventsInRange t range = .ok ((logicalEvents h).filter fun e => range.contains e.seq) := by
  obtain ⟨L, hchain, h0, ho, hx, rfl, -⟩ := hr.sound_spine hs hh
  have hfold := collect_from L [] [] h0 ho hx
  rw [length_nil, nil_append, nil_append] at hfold
  rw [collectEventsInRange, hchain, ok_bind, show (chainOf L).timelines = L.map key from rfl, hfold,
    ok_bind, renumberAndFilter_eq]

theorem Refines.head :
    s.logicalHeadUnchecked t = .ok h.length := by
  obtain ⟨st, hst⟩ := history_lookup hr hh
  have hfits := (hr.length_history hst hh).2
  obtain ⟨L, hchain, h0, ho, hx, rfl, -⟩ := hr.sound_spine hs hh
  have hfold := head_from L [] 0 h0 ho hx (by omega)
  rw [length_nil, nil_append, Nat.zero_add] at hfold
  rw [logicalHeadUnchecked, hchain, ok_bind]
  exact hfold

variable {n : Nat}

theorem Refines.chainHash (hn : n ≤ h.length) :
    s.computeChainHashAt t n = .ok (s.hasher.chain s.hasher.genesisHash (h.take n)) := by
  have hhead := hr.head hs hh
  obtain ⟨L, hchain, h0, ho, hx, rfl, hne⟩ := hr.sound_spine hs hh
  rw [computeChainHashAt, hchain, ok_bind, hhead, ok_bind, if_neg (Nat.not_lt.mpr hn)]
  by_cases hzero : n = 0
  · subst hzero
    simp [Hasher.chain]
  · obtain ⟨x, B, rfl⟩ := exists_cons_of_ne_nil hne
    have hstart : x.start = 0 := h0 x (by simp)
    have hloop := chainHash_from (stitch (x :: B)).length n B [] x s.hasher.genesisHash ho hx (by omega) (by omega) hn
    rw [hstart, Nat.sub_zero] at hloop
    rw [if_neg hzero]
    exact congrArg Except.ok hloop

theorem Refines.chainHash_beyond
    (hn : h.length < n) : s.computeChainHashAt t n = .error (.forkBeyondHead n h.length) := by
  have hhead := hr.head hs hh
  obtain ⟨L, hchain, -⟩ := hr.sound_spine hs hh
  rw [computeChainHashAt, hchain, ok_bind, hhead, ok_bind, if_pos hn]

theorem Refines.find (eventId : EventId) :
    (do let chain ← s.forkChain t
        s.findInSegments chain eventId chain.timelines.zipIdx) =
      .ok ((logicalEvents h).find? fun e => decide (e.id = eventId)) := by
  obtain ⟨L, hchain, h0, ho, hx, rfl, -⟩ := hr.sound_spine hs hh
  rw [hchain, ok_bind]
  exact find_from eventId L [] 0 h0 ho hx h0

end Sound

/-! ## The reads of an unsound Timeline -/

/-- What a segment contributes does not depend on what follows the next one. -/
theorem segmentLength_left {i : Nat} {k : TimelineId} (hi : i < A.length) :
    (chainOf (A ++ x :: B)).segmentLength s i k = (chainOf (A ++ [x])).segmentLength s i k := by
  have hcut : ∀ j < A.length, (chainOf (A ++ x :: B)).forkSeqs[j]? = (chainOf (A ++ [x])).forkSeqs[j]? := by
    intro j hj
    rw [append_cons, chainOf, chainOf, getElem?_tail, getElem?_tail, map_append,
      getElem?_append_left (by simpa using hj)]
  unfold segmentLength segmentPrefix
  rw [hcut i hi, hcut (i - 1) (by omega)]

/-- A traversal that adds up segments stops at the parent of a cut that precedes it, when it reaches
the parent's own end. -/
theorem foldlM_precedes {β : Type} {step : ForkChain → β → TimelineId × Nat → CoreResult β} {b b' : β}
    (h0 : ∀ a ∈ (A ++ [x, y]).head?, a.start = 0) (hlt : y.start < x.start)
    (hsame : ∀ chain chain' seg b, chain.segmentLength s seg.2 seg.1 = chain'.segmentLength s seg.2 seg.1 →
      step chain b seg = step chain' b seg)
    (herr : ∀ chain b e, chain.segmentLength s A.length x.key = .error e → step chain b (x.key, A.length) = .error e)
    (hparent : (chainOf (A ++ [x])).timelines.zipIdx.foldlM (step (chainOf (A ++ [x]))) b = .ok b') :
    (chainOf (A ++ [x, y])).timelines.zipIdx.foldlM (step (chainOf (A ++ [x, y]))) b =
      .error (precedesError x.key) := by
  have hkeys : ∀ B, (chainOf (A ++ x :: B)).timelines.zipIdx =
      (A.map key).zipIdx ++ (x.key, A.length) :: (B.map key).zipIdx (A.length + 1) := by
    intro B
    simp [chainOf, zipIdx_append]
  rw [hkeys, foldlM_append] at hparent ⊢
  obtain ⟨b₁, hleft, -⟩ := bind_eq_ok.mp hparent
  -- before the parent both walks meet the same segments
  have hleft' : (A.map key).zipIdx.foldlM (step (chainOf (A ++ [x, y]))) b = .ok b₁ := by
    rw [← hleft]
    refine foldlM_congr _ b fun seg hseg b => hsame _ _ seg b (segmentLength_left ?_)
    simpa using (mem_zipIdx' (i := seg.2) (x := seg.1) hseg).1
  rw [hleft', ok_bind, foldlM_cons, herr _ _ _ (segmentLength_precedes h0 hlt), error_bind]

section

variable (hr : s.Refines F) (hl : F.log t = some l) (hs : ¬ F.Sound t)

include hr hl hs

/-- An unsound Timeline is a Fork of a sound parent at a cut before the parent's own. -/
theorem Refines.unsound_spine :
    ∃ p n A x y, l.parent = some (p, n) ∧ x.key = p ∧ y.start < x.start ∧
      (∀ a ∈ (A ++ [x, y]).head?, a.start = 0) ∧ s.forkChain t = .ok (chainOf (A ++ [x, y])) ∧
      s.forkChain p = .ok (chainOf (A ++ [x])) ∧ F.Sound p ∧ F.History p (unroll (A ++ [x])) ∧
      ∃ tl, s.timeline p = .ok tl := by
  obtain ⟨_ | ⟨p, n⟩, own⟩ := l
  · exact absurd (Sound.root hl) hs
  obtain ⟨M, hM, hMo, -⟩ := F.cut hl rfl
  obtain ⟨A, lp, hlp, rfl⟩ := hM.concat
  have hlt : n < lp.start := by
    rw [sound_fork_iff hl hlp] at hs
    omega
  have hL := Spine.fork hl hM
  rw [append_assoc, singleton_append] at hL
  exact ⟨p, n, A, _, _, rfl, rfl, hlt, hL.head_start, forkChain_eq_of_spine (hr.spine hL),
    forkChain_eq_of_spine (hr.spine hM), ⟨_, hM, hMo⟩, ⟨_, hM, rfl⟩,
    (hr.holds (hr.spine hM) ⟨p, lp.start, lp.own⟩ (by simp)).timeline⟩

theorem Refines.head_unsound : ∃ p n, l.parent = some (p, n) ∧
    s.logicalHeadUnchecked t = .error (precedesError p) := by
  obtain ⟨p, n, A, x, y, hp, rfl, hlt, h0, hchain, hparent, hsp, hhp, -⟩ := hr.unsound_spine hl hs
  refine ⟨_, n, hp, ?_⟩
  have hhead := hr.head hsp hhp
  rw [logicalHeadUnchecked, hparent, ok_bind] at hhead
  rw [logicalHeadUnchecked, hchain, ok_bind]
  refine foldlM_precedes (s := s) h0 hlt ?_ ?_ hhead
  · intro chain chain' seg b hsame
    rw [addSegmentLength, addSegmentLength, hsame]
  · intro chain b e herr
    rw [addSegmentLength, herr, error_bind]

theorem Refines.collect_unsound (range : SeqRange) : ∃ p n, l.parent = some (p, n) ∧
    s.collectEventsInRange t range = .error (precedesError p) := by
  obtain ⟨p, n, A, x, y, hp, rfl, hlt, h0, hchain, hparent, hsp, hhp, tl, htl⟩ := hr.unsound_spine hl hs
  refine ⟨_, n, hp, ?_⟩
  have hread := hr.collect hsp hhp range
  rw [collectEventsInRange, hparent, ok_bind] at hread
  obtain ⟨all, hall, -⟩ := bind_eq_ok.mp hread
  rw [collectEventsInRange, hchain, ok_bind, foldlM_precedes (s := s) h0 hlt ?_ ?_ hall, error_bind]
  · intro chain chain' seg b hsame
    rw [collectSegment, collectSegment, hsame]
  · intro chain b e herr
    rw [collectSegment, htl, ok_bind, herr, error_bind]

theorem Refines.chainHash_unsound (atSeq : Seq) : ∃ p n, l.parent = some (p, n) ∧
    s.computeChainHashAt t atSeq = .error (precedesError p) := by
  obtain ⟨p, n, hp, hhead⟩ := hr.head_unsound hl hs
  obtain ⟨_, _, A, x, y, -, -, -, -, hchain, -⟩ := hr.unsound_spine hl hs
  exact ⟨p, n, hp, by rw [computeChainHashAt, hchain, ok_bind, hhead, error_bind]⟩

end

end MemoryStore

end Piglor
