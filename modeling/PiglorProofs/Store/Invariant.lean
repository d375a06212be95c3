/-
The invariant of the Timelines: the store refines a copy-on-write forest, every stored chain head
is the hash fold of the Timeline's history, and every Event's origin is the Timeline that owns it
at its logical sequence. Each change keeps it, and does to the forest what it does to the store.
-/
import PiglorProofs.Store.Change
import PiglorProofs.Store.Stitch

namespace Piglor.MemoryStore

open Table CowForest Checked

variable {s s' : MemoryStore} {F : CowForest TimelineId Event} {t : TimelineId} {st : TimelineState}

/-- The invariant, against the forest the store stands for. -/
structure WF (s : MemoryStore) (F : CowForest TimelineId Event) : Prop extends s.Refines F where
  chain : ∀ {t st h}, s.timelines.lookup t = some st → F.History t h →
    st.chainHead = s.hasher.chain s.hasher.genesisHash h
  origins : ∀ {t st}, s.timelines.lookup t = some st → ∀ e ∈ st.events,
    e.origin = some ⟨t, st.timeline.metadata.prefixLen + e.seq⟩

/-! ## What a successful read says -/

theorem lookup_of_forkChain {chain : ForkChain} (h : s.forkChain t = .ok chain) :
    ∃ st, s.timelines.lookup t = some st := by
  unfold forkChain at h
  rcases hfuel : s.timelines.keys.card with _ | fuel
  · rw [hfuel] at h
    simp [forkChainLoop] at h
  · rw [hfuel] at h
    rcases hst : s.timelines.lookup t with _ | st
    · simp [forkChainLoop, hst] at h
    · exact ⟨st, rfl⟩

section

variable (hr : s.Refines F)

include hr

theorem Refines.exists_history (hst : s.timelines.lookup t = some st) : ∃ h, F.History t h := by
  obtain ⟨L, hL⟩ := exists_spine (hr.log hst)
  exact ⟨_, L, hL, rfl⟩

/-- Only a sound Timeline has a logical head: the length of its history. -/
theorem Refines.sound_of_head {n : Nat} (h : s.logicalHeadUnchecked t = .ok n) :
    F.Sound t ∧ ∃ hist, F.History t hist ∧ hist.length = n := by
  obtain ⟨chain, hchain, -⟩ := bind_eq_ok.mp h
  obtain ⟨st, hst⟩ := lookup_of_forkChain hchain
  have hs : F.Sound t := by
    by_contra hs
    obtain ⟨_, _, -, he⟩ := hr.head_unsound (hr.log hst) hs
    rw [he] at h; cases h
  obtain ⟨hist, hh⟩ := hr.exists_history hst
  rw [hr.head hs hh] at h
  cases h
  exact ⟨hs, hist, hh, rfl⟩

/-- Only a sound Timeline can be read: the read is its history. -/
theorem Refines.sound_of_collect {range : SeqRange} {events : List Event}
    (h : s.collectEventsInRange t range = .ok events) :
    F.Sound t ∧ ∃ hist, F.History t hist ∧ events = (logicalEvents hist).filter fun e => range.contains e.seq := by
  obtain ⟨chain, hchain, -⟩ := bind_eq_ok.mp h
  obtain ⟨st, hst⟩ := lookup_of_forkChain hchain
  have hs : F.Sound t := by
    by_contra hs
    obtain ⟨_, _, -, he⟩ := hr.collect_unsound (hr.log hst) hs range
    rw [he] at h; cases h
  obtain ⟨hist, hh⟩ := hr.exists_history hst
  rw [hr.collect hs hh] at h
  cases h
  exact ⟨hs, hist, hh, rfl⟩

/-! ## Adding a Timeline -/

/-- The cut of a new Timeline lies within a sound parent's history. -/
theorem Refines.born_cut (hborn : s.Born t st) : ∀ p n, st.log.parent = some (p, n) →
    ∃ L, Spine F.log p L ∧ Ordered L ∧ n ≤ (unroll L).length := by
  intro p n hp
  obtain ⟨⟨head, hhead, hle⟩, -⟩ := hborn.fork p n hp
  obtain ⟨⟨L, hL, ho⟩, hist, hh, rfl⟩ := hr.sound_of_head hhead
  rw [hh.functional ⟨L, hL, rfl⟩] at hle
  exact ⟨L, hL, ho, hle⟩

theorem lookup_none_of_log (fresh : s.timelines.lookup t = none) : F.log t = none := by
  rw [hr.log_eq, log, fresh]
  rfl

end

variable {j : TimelineId} {m : Log TimelineId Event} {h : List Event}

/-- Other Timelines keep their histories when one is added. -/
theorem history_insert {l : Log TimelineId Event} {fresh cut} (hj : F.log j = some m)
    (hh : (F.insert t l fresh cut).History j h) : F.History j h := by
  obtain ⟨L, hL⟩ := exists_spine hj
  have h0 : F.History j (unroll L) := ⟨L, hL, rfl⟩
  rw [hh.functional (h0.insert fresh cut)]
  exact h0

theorem Refines.ledger_born (hr : s.Refines F) (hborn : s.Born t st) : st.Ledger t where
  id_eq := hborn.id_eq
  head_eq := by rw [hborn.head_eq, hborn.empty]; rfl
  seqs := by rw [hborn.empty]; trivial
  fits := by
    rw [hborn.empty, List.length_nil, Nat.add_zero]
    rcases hfp : st.timeline.metadata.forkPoint with _ | ⟨p, n⟩
    · simp [TimelineMeta.prefixLen, hfp]
    · obtain ⟨⟨head, hhead, hle⟩, -⟩ := hborn.fork p n hfp
      obtain ⟨-, hist, hh, rfl⟩ := hr.sound_of_head hhead
      obtain ⟨stp, hstp⟩ := history_lookup hr hh
      have := (hr.length_history hstp hh).2
      simp only [TimelineMeta.prefixLen, hfp, Option.map_some, Option.getD_some]
      exact hle.trans this

theorem Refines.insert (hr : s.Refines F) (fresh : s.timelines.lookup t = none)
    (timelines : s'.timelines = s.timelines.insert t st) (hborn : s.Born t st) :
    s'.Refines (F.insert t st.log (lookup_none_of_log hr fresh) (hr.born_cut hborn)) where
  log_eq := by
    funext j
    by_cases hj : j = t
    · subst hj
      simp [CowForest.insert, MemoryStore.log, timelines]
    · simp [CowForest.insert, MemoryStore.log, timelines, hj, hr.log_eq]
  ledger := by
    intro j st' hst'
    rw [timelines] at hst'
    rcases lookup_insert_eq_some.mp hst' with ⟨rfl, rfl⟩ | ⟨-, hst'⟩
    · exact hr.ledger_born hborn
    · exact hr.ledger hst'

/-- A new Timeline's chain head is the fold of what it inherits. -/
theorem WF.chain_born (hw : s.WF F) (fresh : s.timelines.lookup t = none) (hborn : s.Born t st)
    (hh : (F.insert t st.log (lookup_none_of_log hw.toRefines fresh) (hw.born_cut hborn)).History t h) :
    st.chainHead = s.hasher.chain s.hasher.genesisHash h := by
  have hlog : (F.insert t st.log (lookup_none_of_log hw.toRefines fresh) (hw.born_cut hborn)).log t =
      some st.log := by simp [CowForest.insert]
  rcases hfp : st.timeline.metadata.forkPoint with _ | ⟨p, n⟩
  · have hroot : st.log = ⟨none, []⟩ := by rw [TimelineState.log, hfp, hborn.empty]
    rw [hh.functional (History.root (hlog.trans (congrArg some hroot))), hborn.root hfp]
    rfl
  · obtain ⟨⟨head, hhead, hle⟩, hhash⟩ := hborn.fork p n hfp
    obtain ⟨hsp, hist, hhp, rfl⟩ := hw.sound_of_head hhead
    have hfork : st.log = ⟨some (p, n), []⟩ := by rw [TimelineState.log, hfp, hborn.empty]
    have hchild := History.fork (hlog.trans (congrArg some hfork))
      (hhp.insert (lookup_none_of_log hw.toRefines fresh) (hw.born_cut hborn))
    rw [hw.chainHash hsp hhp hle, Except.ok.injEq] at hhash
    rw [hh.functional hchild, List.append_nil, hhash]

theorem WF.insert (hw : s.WF F) (hasher : s'.hasher = s.hasher) (fresh : s.timelines.lookup t = none)
    (timelines : s'.timelines = s.timelines.insert t st) (hborn : s.Born t st) :
    s'.WF (F.insert t st.log (lookup_none_of_log hw.toRefines fresh) (hw.born_cut hborn)) where
  toRefines := hw.toRefines.insert fresh timelines hborn
  chain := by
    intro j st' h hst' hh
    rw [timelines] at hst'
    rw [hasher]
    rcases lookup_insert_eq_some.mp hst' with ⟨rfl, rfl⟩ | ⟨-, hst'⟩
    · exact hw.chain_born fresh hborn hh
    · exact hw.chain hst' (history_insert (hw.log hst') hh)
  origins := by
    intro j st' hst' e he
    rw [timelines] at hst'
    rcases lookup_insert_eq_some.mp hst' with ⟨rfl, rfl⟩ | ⟨-, hst'⟩
    · rw [hborn.empty] at he; cases he
    · exact hw.origins hst' e he

/-! ## Growing a Timeline -/

variable {es : List Event}

theorem Refines.extend (hr : s.Refines F) (old : s.timelines.lookup t = some st)
    (timelines : s'.timelines = s.timelines.insert t (st.extend s.hasher es)) (hacc : st.Accepts es) :
    s'.Refines (F.extend t es) where
  log_eq := by
    funext j
    by_cases hj : j = t
    · subst hj
      simp [extend, extendLog, MemoryStore.log, timelines, hr.log_eq, old, TimelineState.extend,
        TimelineState.log]
    · simp [CowForest.extend, extendLog, MemoryStore.log, timelines, hj, hr.log_eq]
  ledger := by
    intro j st' hst'
    rw [timelines] at hst'
    rcases lookup_insert_eq_some.mp hst' with ⟨rfl, rfl⟩ | ⟨-, hst'⟩
    · have hl := hr.ledger old
      refine ⟨hl.id_eq, ?_, ?_, ?_⟩
      · simp [TimelineState.extend, hl.head_eq]
      · refine NumberedFrom.append_iff.mpr ⟨hl.seqs, ?_⟩
        rw [Nat.zero_add, ← hl.head_eq]
        exact hacc.seqs
      · have hfits := hl.fits
        by_cases hes : es = []
        · simpa [hes] using hfits
        · have := hacc.fits hes
          rw [hl.head_eq] at this
          simp only [TimelineState.extend, List.length_append]
          omega
    · exact hr.ledger hst'

/-- Growing a Timeline extends its history and no other. -/
theorem history_extend (hj : F.log j = some m) (hh : (F.extend t es).History j h) :
    ∃ h₀, F.History j h₀ ∧ h = h₀ ++ if j = t then es else [] := by
  obtain ⟨L, hL⟩ := exists_spine hj
  have h₀ : F.History j (unroll L) := ⟨L, hL, rfl⟩
  exact ⟨_, h₀, hh.functional (h₀.extend t es)⟩

theorem WF.extend (hw : s.WF F) (hasher : s'.hasher = s.hasher) (old : s.timelines.lookup t = some st)
    (timelines : s'.timelines = s.timelines.insert t (st.extend s.hasher es)) (hacc : st.Accepts es) :
    s'.WF (F.extend t es) where
  toRefines := hw.toRefines.extend old timelines hacc
  chain := by
    intro j st' h hst' hh
    rw [timelines] at hst'
    rw [hasher]
    rcases lookup_insert_eq_some.mp hst' with ⟨rfl, rfl⟩ | ⟨hj, hst'⟩
    · obtain ⟨h₀, hh₀, rfl⟩ := history_extend (hw.log old) hh
      -- the stored head is the old fold, continued by the new Events
      rw [if_pos rfl, Hasher.chain_append, ← hw.chain old hh₀]
      rfl
    · obtain ⟨h₀, hh₀, rfl⟩ := history_extend (hw.log hst') hh
      rw [if_neg hj, List.append_nil]
      exact hw.chain hst' hh₀
  origins := by
    intro j st' hst' e he
    rw [timelines] at hst'
    rcases lookup_insert_eq_some.mp hst' with ⟨rfl, rfl⟩ | ⟨-, hst'⟩
    · rcases List.mem_append.mp he with he | he
      · exact hw.origins old e he
      · rw [hacc.origins e he, (hw.ledger old).id_eq]
        rfl
    · exact hw.origins hst' e he

/-! ## Removing a Timeline -/

theorem leaf_of_hasChildTimeline (hr : s.Refines F) (h : s.hasChildTimeline t = false) :
    ∀ j l n, F.log j = some l → l.parent ≠ some (t, n) := by
  intro j l n hj hp
  obtain ⟨st, hst, rfl, -⟩ := hr.lookup hj
  have hchild : s.hasChildTimeline t = true := by
    refine Table.any_iff.mpr ⟨j, st, hst, ?_⟩
    rw [show st.timeline.metadata.forkPoint = some (t, n) from hp]
    simp
  rw [h] at hchild
  cases hchild

/-- Other Timelines keep their histories when one without Forks is removed. -/
theorem history_remove {leaf} (hj : F.log j = some m)
    (hne : j ≠ t) (hh : (F.remove t leaf).History j h) : F.History j h := by
  obtain ⟨L, hL⟩ := exists_spine hj
  have h₀ : F.History j (unroll L) := ⟨L, hL, rfl⟩
  rw [hh.functional (h₀.remove leaf hne)]
  exact h₀

theorem WF.remove (hw : s.WF F) (hasher : s'.hasher = s.hasher) (leaf : s.hasChildTimeline t = false)
    (timelines : s'.timelines = s.timelines.erase t) :
    s'.WF (F.remove t (leaf_of_hasChildTimeline hw.toRefines leaf)) where
  log_eq := by
    funext j
    by_cases hj : j = t
    · subst hj
      simp [remove, log, timelines]
    · simp [CowForest.remove, log, timelines, hj, hw.log_eq]
  ledger := by
    intro j st' hst'
    rw [timelines] at hst'
    exact hw.ledger (lookup_erase_eq_some.mp hst').2
  chain := by
    intro j st' h hst' hh
    rw [timelines] at hst'
    obtain ⟨hj, hst'⟩ := lookup_erase_eq_some.mp hst'
    rw [hasher]
    exact hw.chain hst' (history_remove (hw.log hst') hj hh)
  origins := by
    intro j st' hst'
    rw [timelines] at hst'
    exact hw.origins (lookup_erase_eq_some.mp hst').2

/-! ## Every change -/

variable {loose : Prop}

theorem WF.growth (hw : s.WF F) (h : s.Growth loose s') : ∃ F', s'.WF F' := by
  cases h with
  | keep hasher timelines ids =>
    have hlog : s'.log = s.log := by
      funext j
      rw [log, log, timelines]
    exact ⟨F, ⟨by rw [hlog]; exact hw.log_eq, by rw [timelines]; exact hw.ledger⟩,
      by rw [timelines, hasher]; exact hw.chain, by rw [timelines]; exact hw.origins⟩
  | insert hasher fresh timelines ids born => exact ⟨_, hw.insert hasher fresh timelines born⟩
  | extend hasher old timelines ids accepts nodup new _ => exact ⟨_, hw.extend hasher old timelines accepts⟩

theorem WF.change (hw : s.WF F) (h : s.Change loose s') : ∃ F', s'.WF F' := by
  cases h with
  | grow growth => exact hw.growth growth
  | remove hasher old leaf timelines ids => exact ⟨_, hw.remove hasher leaf timelines⟩

theorem WF.changes (hw : s.WF F) (h : s.Changes loose s') : ∃ F', s'.WF F' := by
  induction h with
  | refl => exact ⟨F, hw⟩
  | tail _ hstep ih =>
    obtain ⟨F', hw'⟩ := ih
    exact hw'.change hstep

end Piglor.MemoryStore
