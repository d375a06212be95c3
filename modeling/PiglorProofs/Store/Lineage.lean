/-
Origins against the lineage (timeline_range.rs). A verifier walks a Timeline's metadata up to the
root and accepts an Event when it names, as its origin, the first Timeline whose own segment can
hold its sequence. Every Event a read returns names that Timeline and its own position there.
-/
import PiglorProofs.Store.EventIds

namespace Piglor

open CowForest Checked List

namespace MemoryStore

/-! ## The trusted lineage -/

/-- Walk from a Timeline to its root, collecting metadata. As in `forkChainLoop`, the fuel covers every
stored Timeline. -/
def trustedLineageLoop (s : MemoryStore) :
    Nat → List TimelineId → List TimelineMeta → TimelineId → CoreResult (Option (List TimelineMeta))
  | 0, seen, _, current =>
    if current ∈ seen then .ok none
    else do
      s.erasureFence current
      .ok none
  | fuel + 1, seen, lineage, current =>
    if current ∈ seen then .ok none
    else do
      let found ← s.getTimeline current
      match found with
      | none => .ok none
      | some found =>
        if found.id ≠ current then .ok none
        else match found.metadata.forkPoint with
          | none => .ok (some (lineage ++ [found.metadata]))
          | some (parent, cut) => do
            let head ← s.logicalHead parent
            if head < cut then .ok none
            else s.trustedLineageLoop fuel (current :: seen) (lineage ++ [found.metadata]) parent

def trustedLineage (s : MemoryStore) (timeline : TimelineId) : CoreResult (Option (List TimelineMeta)) :=
  s.trustedLineageLoop s.timelines.keys.card [] [] timeline

end MemoryStore

/-- The metadata whose own segment can hold the sequence. -/
def TimelineMeta.ownsSeq (seq : Seq) (m : TimelineMeta) : Bool := m.forkPoint.all fun cut => decide (seq > cut.2)

def originMatchesLineage (event : Event) (lineage : List TimelineMeta) : Bool :=
  match event.origin with
  | none => false
  | some origin =>
    decide (origin.originLogicalSeq = event.seq) &&
      (lineage.find? (TimelineMeta.ownsSeq event.seq)).any fun m => decide (origin = ⟨m.id, event.seq⟩)

namespace MemoryStore

variable {s : MemoryStore} {F : CowForest TimelineId Event} {t : TimelineId}

/-- The metadata of a spine, from the leaf up. -/
def lineageOf (s : MemoryStore) (L : List (Segment TimelineId Event)) : List TimelineMeta :=
  L.reverse.filterMap fun x => (s.timelines.lookup x.key).map fun st => st.timeline.metadata

variable {L : List (Segment TimelineId Event)} {st : TimelineState} {seen : List TimelineId}
  {acc lineage : List TimelineMeta} {c : TimelineId}

theorem lineageOf_concat {x : Segment TimelineId Event} (hst : s.timelines.lookup x.key = some st) :
    s.lineageOf (L ++ [x]) = st.timeline.metadata :: s.lineageOf L := by
  rw [lineageOf, reverse_append, reverse_singleton, singleton_append, filterMap_cons, hst]
  rfl

theorem getTimeline_some {found : Timeline} (h : s.getTimeline t = .ok (some found)) :
    ∃ st, s.timelines.lookup t = some st ∧ found = st.timeline ∧ t ∉ s.geographicTimelines := by
  replace h := of_check h
  split at h
  · cases h
  · rename_i st hst
    split at h
    · cases h
    · rename_i hmark
      cases h
      exact ⟨st, hst, rfl, hmark⟩

theorem trustedLineageLoop_zero : s.trustedLineageLoop 0 seen acc t ≠ .ok (some lineage) := by
  intro h
  unfold trustedLineageLoop at h
  split at h
  · cases h
  · obtain ⟨-, -, h⟩ := bind_eq_ok.mp h
    cases h

/-- One turn that trusts a lineage: the Timeline is stored and unmarked, and its metadata is collected. -/
theorem trustedLineageLoop_turn {fuel : Nat} (h : s.trustedLineageLoop (fuel + 1) seen acc t = .ok (some lineage)) :
    ∃ st, s.timelines.lookup t = some st ∧ t ∉ s.geographicTimelines ∧
      ((st.timeline.metadata.forkPoint = none ∧ lineage = acc ++ [st.timeline.metadata]) ∨
        ∃ p n, st.timeline.metadata.forkPoint = some (p, n) ∧
          s.trustedLineageLoop fuel (t :: seen) (acc ++ [st.timeline.metadata]) p = .ok (some lineage)) := by
  unfold trustedLineageLoop at h
  split at h
  · cases h
  obtain ⟨found, hfound, h⟩ := bind_eq_ok.mp h
  split at h
  · cases h
  rename_i timeline
  obtain ⟨st, hst, rfl, hmark⟩ := getTimeline_some hfound
  split at h
  · cases h
  refine ⟨st, hst, hmark, ?_⟩
  split at h
  · rename_i hfp
    cases h
    exact .inl ⟨hfp, rfl⟩
  · rename_i p n hfp
    obtain ⟨head, -, h⟩ := bind_eq_ok.mp h
    split at h
    · cases h
    · exact .inr ⟨p, n, hfp, h⟩

/-- Whatever lineage the walk trusts is the spine's metadata, and none of it is marked. -/
theorem trustedLineageLoop_some (hL : Spine s.log t L) :
    ∀ (fuel : Nat) (seen : List TimelineId) (acc lineage : List TimelineMeta),
      s.trustedLineageLoop fuel seen acc t = .ok (some lineage) →
      lineage = acc ++ s.lineageOf L ∧ ∀ x ∈ L, x.key ∉ s.geographicTimelines := by
  induction hL with
  | @root k own hk =>
    intro fuel seen acc lineage h
    cases fuel with
    | zero => exact absurd h trustedLineageLoop_zero
    | succ fuel =>
      obtain ⟨st, hst, hmark, ⟨-, rfl⟩ | ⟨p, n, hfp, -⟩⟩ := trustedLineageLoop_turn h
      · rw [show [(⟨k, 0, own⟩ : Segment TimelineId Event)] = [] ++ [⟨k, 0, own⟩] from rfl, lineageOf_concat hst]
        exact ⟨rfl, by simpa using hmark⟩
      · rw [log_of_lookup hst, TimelineState.log, hfp] at hk
        cases hk
  | @fork k p n own L hk hp ih =>
    intro fuel seen acc lineage h
    cases fuel with
    | zero => exact absurd h trustedLineageLoop_zero
    | succ fuel =>
      obtain ⟨st, hst, hmark, ⟨hfp, -⟩ | ⟨p', n', hfp, hrest⟩⟩ := trustedLineageLoop_turn h
      · rw [log_of_lookup hst, TimelineState.log, hfp] at hk
        cases hk
      · rw [log_of_lookup hst, TimelineState.log, hfp] at hk
        cases hk
        obtain ⟨hlineage, hmarks⟩ := ih _ _ _ _ hrest
        rw [hlineage, lineageOf_concat hst, append_assoc]
        refine ⟨rfl, fun x hx => ?_⟩
        rcases mem_append.mp hx with hx | hx
        · exact hmarks x hx
        · rw [mem_singleton.mp hx]
          exact hmark

/-- Under an admitted lineage without protected markers the walk trusts the spine's metadata. -/
theorem trustedLineageLoop_eq (hr : s.Refines F) (hL : Spine F.log t L)
    (hopen : ∀ x ∈ L, s.Admits x.key ∧ x.key ∉ s.geographicTimelines) :
    ∀ (fuel : Nat) (seen : List TimelineId) (acc : List TimelineMeta), L.length ≤ fuel →
      (∀ k ∈ L.map Segment.key, k ∉ seen) →
      s.trustedLineageLoop fuel seen acc t = .ok (some (acc ++ s.lineageOf L)) := by
  induction hL with
  | @root k own hk =>
    intro fuel seen acc hfuel hnew
    obtain ⟨st, hst, hlog, hledger⟩ := hr.lookup hk
    have hfp : st.timeline.metadata.forkPoint = none := congrArg Log.parent hlog
    have hid : ¬ st.timeline.id ≠ k := not_not_intro hledger.id_eq
    obtain ⟨hadmits, hmark⟩ := hopen _ mem_cons_self
    cases fuel with
    | zero => simp at hfuel
    | succ fuel =>
      rw [trustedLineageLoop, if_neg (hnew k (by simp)), getTimeline_of_visible hadmits hst hmark, ok_bind]
      simp only [if_neg hid, hfp]
      rw [show [(⟨k, 0, own⟩ : Segment TimelineId Event)] = [] ++ [⟨k, 0, own⟩] from rfl, lineageOf_concat hst]
      rfl
  | @fork k p n own L hk hp ih =>
    intro fuel seen acc hfuel hnew
    obtain ⟨st, hst, hlog, hledger⟩ := hr.lookup hk
    have hfp : st.timeline.metadata.forkPoint = some (p, n) := congrArg Log.parent hlog
    have hid : ¬ st.timeline.id ≠ k := not_not_intro hledger.id_eq
    obtain ⟨hadmits, hmark⟩ := hopen ⟨k, n, own⟩ (by simp)
    -- the parent is sound and the cut lies within it, so its head passes the check
    obtain ⟨M, hM, ho, hn⟩ := F.cut hk rfl
    obtain ⟨L', lp, hlp, hconcat⟩ := hp.concat
    obtain ⟨stp, hstp, -, -⟩ := hr.lookup hlp
    obtain ⟨hadmitsp, hmarkp⟩ := hopen ⟨p, lp.start, lp.own⟩ (by simp [hconcat])
    have hhead : s.logicalHead p = .ok (unroll M).length :=
      logicalHead_eq_ok.mpr ⟨hadmitsp, ⟨⟨stp, hstp⟩, hmarkp⟩, hr.head ⟨M, hM, ho⟩ ⟨M, hM, rfl⟩⟩
    cases fuel with
    | zero => simp at hfuel
    | succ fuel =>
      have hstep := ih (fun x hx => hopen x (mem_append_left _ hx)) fuel (k :: seen)
        (acc ++ [st.timeline.metadata]) (by simpa using hfuel) (Spine.fork_unseen hk hp hnew)
      rw [trustedLineageLoop, if_neg (hnew k (by simp)), getTimeline_of_visible hadmits hst hmark, ok_bind]
      simp only [if_neg hid, hfp, hhead, ok_bind]
      rw [if_neg (Nat.not_lt.mpr hn), hstep, lineageOf_concat hst, append_assoc]
      rfl

/-! ## Owners -/

/-- The first Timeline up the lineage that can own a sequence is the one it is inherited from. -/
theorem find_lineageOf {n : Nat} (hc : Inherits s.log n t c)
    (hst : s.timelines.lookup c = some st) (howns : st.timeline.metadata.ownsSeq n = true) :
    ∀ {L : List (Segment TimelineId Event)}, Spine s.log t L →
      (s.lineageOf L).find? (TimelineMeta.ownsSeq n) = some st.timeline.metadata := by
  induction hc with
  | refl =>
    intro L hL
    obtain ⟨L', l, -, rfl⟩ := hL.concat
    rw [lineageOf_concat hst, find?_cons_of_pos howns]
  | @up k p j cut own hk hn _ ih =>
    intro L hL
    cases hL with
    | root hk' => rw [hk] at hk'; cases hk'
    | fork hk' hp =>
      rw [hk] at hk'; cases hk'
      obtain ⟨stk, hstk, hlog⟩ := lookup_of_log hk
      have hfp : stk.timeline.metadata.forkPoint = some (p, cut) := congrArg Log.parent hlog
      have hnot : ¬ stk.timeline.metadata.ownsSeq n = true := by
        simp only [TimelineMeta.ownsSeq, hfp, Option.all_some, decide_eq_true_eq]
        exact Nat.not_lt.mpr hn
      rw [lineageOf_concat hstk, find?_cons_of_neg hnot]
      exact ih hst hp

/-- The Timeline that holds a position of `t`: reached through cuts at or after it, and owning it. -/
structure HoldsPosition (s : MemoryStore) (t c : TimelineId) (i : Nat) : Prop where
  inherits : Inherits s.log i t c
  owns : ∃ st, s.timelines.lookup c = some st ∧ st.timeline.metadata.prefixLen < i ∧
    i ≤ st.timeline.metadata.prefixLen + st.events.length

variable {hist : List Event}

/-- The Event at a position of a history, and the Timeline that holds it. -/
theorem WF.origin_at (hw : s.WF F) (hh : F.History t hist) {i : Nat} (hi : i < hist.length) :
    ∃ c e, s.HoldsPosition t c (i + 1) ∧ hist[i]? = some e ∧ e.origin = some ⟨c, i + 1⟩ := by
  obtain ⟨L, hL, rfl⟩ := hh
  obtain ⟨c, l, hc, hl, hstart, hstop, hget⟩ := exists_holder hL hi
  obtain ⟨st, hst, rfl, hledger⟩ := hw.lookup hl
  rw [TimelineState.log_start] at hstart hstop hget
  rw [show st.log.own = st.events from rfl] at hstop hget
  have hj : i - st.timeline.metadata.prefixLen < st.events.length := by omega
  rw [getElem?_eq_getElem hj] at hget
  refine ⟨c, _, ⟨hw.log_eq ▸ hc, st, hst, Nat.lt_succ_of_le hstart, hstop⟩, hget, ?_⟩
  have hseq : st.timeline.metadata.prefixLen + (0 + (i - st.timeline.metadata.prefixLen) + 1) = i + 1 := by omega
  rw [hw.origins hst _ (getElem_mem hj), hledger.seqs.apply _ hj, hseq]

variable {e : Event}

theorem HoldsPosition.matches (h : s.HoldsPosition t c e.seq)
    (hledger : ∀ st, s.timelines.lookup c = some st → st.timeline.metadata.id = c) (horigin : e.origin = some ⟨c, e.seq⟩)
    (hL : Spine s.log t L) : originMatchesLineage e (s.lineageOf L) = true := by
  obtain ⟨st, hst, hlt, -⟩ := h.owns
  have howns : st.timeline.metadata.ownsSeq e.seq = true := by
    rw [TimelineMeta.prefixLen] at hlt
    unfold TimelineMeta.ownsSeq
    rcases hfp : st.timeline.metadata.forkPoint with _ | cut
    · rfl
    · rw [hfp] at hlt
      exact decide_eq_true hlt
  rw [originMatchesLineage, horigin]
  simp [find_lineageOf h.inherits hst howns hL, hledger st hst]

/-- The Event a read shows at a position stands at its sequence and names the Timeline that holds it. -/
theorem WF.position_logicalEvents (hw : s.WF F) (hh : F.History t hist) (i : Nat)
    (hi : i < (logicalEvents hist).length) : (logicalEvents hist)[i].seq = i + 1 ∧
      ∃ c, s.HoldsPosition t c (i + 1) ∧ (logicalEvents hist)[i].origin = some ⟨c, i + 1⟩ := by
  have hseq := (numbered_logicalEventsFrom 0 hist).apply i hi
  rw [Nat.zero_add] at hseq
  -- the stored Event names its origin, and reading changes its sequence only
  obtain ⟨c, e, hc, he, horigin⟩ := hw.origin_at hh (length_logicalEventsFrom 0 hist ▸ hi)
  have hget : (logicalEvents hist)[i]? = some { e with seq := i + 1 } := by
    rw [logicalEvents, logicalEventsFrom, getElem?_map, getElem?_zipIdx, he]
    simp
  rw [getElem?_eq_getElem hi, Option.some.injEq] at hget
  exact ⟨hseq, c, hc, by rw [hget]; exact horigin⟩

theorem WF.matches_lineageOf (hw : s.WF F) (hh : F.History t hist) (hL : Spine F.log t L)
    (he : e ∈ logicalEvents hist) : originMatchesLineage e (s.lineageOf L) = true := by
  obtain ⟨i, hi, rfl⟩ := getElem_of_mem he
  obtain ⟨hseq, c, hc, horigin⟩ := hw.position_logicalEvents hh i hi
  exact HoldsPosition.matches (hseq ▸ hc) (fun st hst => (hw.ledger hst).id_eq) (hseq ▸ horigin) (hw.spine hL)

/-- No Timeline of the lineage has a protected marker. -/
def Unmarked (s : MemoryStore) (t : TimelineId) : Prop := ∀ c, Inherits s.log 0 t c → c ∉ s.geographicTimelines

theorem Refines.trustedLineage_eq (hr : s.Refines F) (hL : Spine F.log t L) (hlineage : s.LineageAdmitted t)
    (hmarks : s.Unmarked t) : s.trustedLineage t = .ok (some (s.lineageOf L)) := by
  have hL' := hr.spine hL
  have hopen : ∀ x ∈ L, s.Admits x.key ∧ x.key ∉ s.geographicTimelines := by
    intro x hx
    exact ⟨(lineageAdmitted_iff hL').mp hlineage x hx, hmarks x.key (hL'.inherits hx)⟩
  exact trustedLineageLoop_eq hr hL hopen _ _ _ (length_spine_le hL') (by simp)

/-- Every Event a read returns carries its true origin: it stands at its own logical sequence and
names the Timeline of the lineage whose own segment holds that position; EventIds do not repeat; and
each Event matches the lineage a verifier trusts, which exists unless a marker hides a Timeline of it. -/
theorem read_origins (hs : Reachable Sane s) {events : List Event} (hread : s.read t .all = .ok events) :
    (∀ (i : Nat) (hi : i < events.length), events[i].seq = i + 1 ∧
      ∃ c, s.HoldsPosition t c (i + 1) ∧ events[i].origin = some ⟨c, i + 1⟩) ∧
    (events.map Event.id).Nodup ∧
    (∀ lineage, s.trustedLineage t = .ok (some lineage) → ∀ e ∈ events, originMatchesLineage e lineage = true) ∧
    ((∀ c, Inherits s.log 0 t c → c ∉ s.geographicTimelines) →
      ∃ lineage, s.trustedLineage t = .ok (some lineage)) := by
  obtain ⟨F, hw⟩ := hs.fresh.wf
  obtain ⟨-, -, hlineage, hsound, hist, hh, rfl⟩ := hw.read_all hread
  obtain ⟨L, hL, -⟩ := hsound
  refine ⟨hw.position_logicalEvents hh, ?_, ?_, ?_⟩
  · rw [logicalEvents, map_logicalEventsFrom (fun _ _ => rfl)]
    exact hs.uniqueIds.history hw.toRefines hh
  · intro lineage htrusted e he
    rw [(trustedLineageLoop_some (hw.spine hL) _ _ _ _ htrusted).1, nil_append]
    exact hw.matches_lineageOf hh hL he
  · intro hmarks
    exact ⟨_, hw.trustedLineage_eq hL hlineage hmarks⟩

/-- The branch shows the root's Event, with the root as its origin, and the lineage is trusted. -/
theorem forkedOnce_origins : ∃ e lineage, forkedOnce.read ⟨2⟩ .all = .ok [e] ∧ e.origin = some ⟨⟨1⟩, 1⟩ ∧
    forkedOnce.trustedLineage ⟨2⟩ = .ok (some lineage) ∧ originMatchesLineage e lineage = true := by
  obtain ⟨e, hread⟩ : ∃ e, forkedOnce.read ⟨2⟩ .all = .ok [e] := ⟨_, rfl⟩
  obtain ⟨-, -, hmatch, hexists⟩ := read_origins forkedOnce_sane hread
  have hmarks : forkedOnce.geographicTimelines = ∅ := by decide
  obtain ⟨lineage, hlineage⟩ := hexists fun c _ => by rw [hmarks]; exact Finset.notMem_empty c
  refine ⟨e, lineage, hread, ?_, hlineage, hmatch lineage hlineage e mem_cons_self⟩
  cases hread
  rfl

end MemoryStore

end Piglor
