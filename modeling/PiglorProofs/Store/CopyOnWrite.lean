/-
Forks share history. A Fork at a cut reads as the first Events of its parent, whatever either of
them appends later, and a Timeline's chain hashes are the folds of what it reads. The one exception
is a cut before the parent's own fork point: `fork` accepts it, and no read accepts the child.
-/
import PiglorProofs.Store.Run

namespace Piglor.MemoryStore

open CowForest Checked

variable {s s' : MemoryStore} {F : CowForest TimelineId Event} {t p c : TimelineId} {chain : ForkChain}
  {events : List Event}

/-! ## The guards of the reads -/

/-- The Timeline exists and carries no protected evidence. -/
def Visible (s : MemoryStore) (t : TimelineId) : Prop :=
  (∃ st, s.timelines.lookup t = some st) ∧ t ∉ s.geographicTimelines

/-- The gate admits every Timeline a read of `t` stitches. -/
def LineageAdmitted (s : MemoryStore) (t : TimelineId) : Prop :=
  ∀ chain, s.forkChain t = .ok chain → ∀ x ∈ chain.timelines, s.Admits x

theorem visibility_eq_ok : s.ensureGenericTimelineVisibility t = .ok () ↔ s.Visible t := by
  unfold ensureGenericTimelineVisibility MemoryStore.timeline Visible
  rcases hst : s.timelines.lookup t with _ | st
  · simp
  · by_cases hg : t ∈ s.geographicTimelines <;> simp [hg]

theorem Admits.gate (h : s.Admits t) : ∃ gate, s.validatedErasureGate = .ok gate := by
  obtain ⟨gate, hgate, -⟩ := bind_eq_ok.mp h
  exact ⟨gate, hgate⟩

theorem authorizeInheritedScopes_eq_ok (hadmits : s.Admits t) (hchain : s.forkChain t = .ok chain) :
    s.authorizeInheritedScopes t = .ok () ↔ s.LineageAdmitted t := by
  obtain ⟨gate, hgate⟩ := hadmits.gate
  rw [authorizeInheritedScopes, hgate, ok_bind, hchain, ok_bind]
  refine forM_eq_ok.trans ⟨fun h chain' hchain' => ?_, fun h => h chain hchain⟩
  rw [hchain] at hchain'; cases hchain'
  exact h

theorem logicalHead_eq_ok {n : Nat} : s.logicalHead t = .ok n ↔
    s.Admits t ∧ s.Visible t ∧ s.logicalHeadUnchecked t = .ok n := by
  unfold logicalHead
  rw [bind_eq_ok]
  constructor
  · rintro ⟨⟨⟩, hadmits, h⟩
    obtain ⟨⟨⟩, hvisible, h⟩ := bind_eq_ok.mp h
    exact ⟨hadmits, visibility_eq_ok.mp hvisible, h⟩
  · rintro ⟨hadmits, hvisible, h⟩
    exact ⟨(), hadmits, by rw [visibility_eq_ok.mpr hvisible, ok_bind, h]⟩

theorem read_eq_ok {range : SeqRange} : s.read t range = .ok events ↔
    s.Admits t ∧ s.Visible t ∧ s.LineageAdmitted t ∧ s.collectEventsInRange t range = .ok events := by
  unfold read
  rw [bind_eq_ok]
  constructor
  · rintro ⟨⟨⟩, hadmits, h⟩
    obtain ⟨⟨⟩, hvisible, h⟩ := bind_eq_ok.mp h
    obtain ⟨⟨⟩, hscopes, h⟩ := bind_eq_ok.mp h
    obtain ⟨chain, hchain, -⟩ := bind_eq_ok.mp h
    exact ⟨hadmits, visibility_eq_ok.mp hvisible, (authorizeInheritedScopes_eq_ok hadmits hchain).mp hscopes, h⟩
  · rintro ⟨hadmits, hvisible, hlineage, h⟩
    obtain ⟨chain, hchain, -⟩ := bind_eq_ok.mp h
    refine ⟨(), hadmits, ?_⟩
    rw [visibility_eq_ok.mpr hvisible, ok_bind, (authorizeInheritedScopes_eq_ok hadmits hchain).mpr hlineage, ok_bind, h]

theorem chainHashAt_eq (hadmits : s.Admits t) (hvisible : s.Visible t)
    (hchain : s.forkChain t = .ok chain) (hlineage : s.LineageAdmitted t) (n : Seq) :
    s.chainHashAt t n = s.computeChainHashAt t n := by
  rw [chainHashAt, hadmits, ok_bind, visibility_eq_ok.mpr hvisible, ok_bind,
    (authorizeInheritedScopes_eq_ok hadmits hchain).mpr hlineage, ok_bind]

/-- The full range selects every Event. -/
theorem filter_all (events : List Event) : events.filter (fun e => SeqRange.all.contains e.seq) = events := by
  rw [List.filter_eq_self]
  intro e _
  simp [SeqRange.all, SeqRange.contains]

/-- A full read is the history, and only of a sound Timeline. -/
theorem Refines.read_all (hr : s.Refines F) (h : s.read t .all = .ok events) :
    s.Admits t ∧ s.Visible t ∧ s.LineageAdmitted t ∧ F.Sound t ∧
      ∃ hist, F.History t hist ∧ events = logicalEvents hist := by
  obtain ⟨hadmits, hvisible, hlineage, hcollect⟩ := read_eq_ok.mp h
  obtain ⟨hs, hist, hh, rfl⟩ := hr.sound_of_collect hcollect
  exact ⟨hadmits, hvisible, hlineage, hs, hist, hh, filter_all _⟩

variable {hist : List Event}

theorem Refines.read_all_of_sound (hr : s.Refines F) (hs : F.Sound t) (hh : F.History t hist)
    (hadmits : s.Admits t) (hvisible : s.Visible t) (hlineage : s.LineageAdmitted t) :
    s.read t .all = .ok (logicalEvents hist) := by
  rw [read_eq_ok]
  exact ⟨hadmits, hvisible, hlineage, by rw [hr.collect hs hh, filter_all]⟩

/-- Looking an Event up by id searches the history. -/
theorem Refines.readEventById (hr : s.Refines F) (hs : F.Sound t) (hh : F.History t hist)
    (hadmits : s.Admits t) (hvisible : s.Visible t) (hlineage : s.LineageAdmitted t) (eventId : EventId) :
    s.readEventById t eventId = .ok ((logicalEvents hist).find? fun e => decide (e.id = eventId)) := by
  obtain ⟨L, hchain, -⟩ := hr.sound_spine hs hh
  rw [MemoryStore.readEventById, hadmits, ok_bind, (authorizeInheritedScopes_eq_ok hadmits hchain).mpr hlineage, ok_bind,
    visibility_eq_ok.mpr hvisible, ok_bind]
  exact hr.find hs hh eventId

theorem take_logicalEvents (n : Nat) (es : List Event) : (logicalEvents es).take n = logicalEvents (es.take n) :=
  take_logicalEventsFrom 0 n es

theorem lineageAdmitted_iff {L : List (Segment TimelineId Event)} (hL : Spine s.log t L) :
    s.LineageAdmitted t ↔ ∀ x ∈ L, s.Admits x.key := by
  have hchain := forkChain_eq_of_spine hL
  constructor
  · intro h x hx
    exact h _ hchain x.key (List.mem_map_of_mem hx)
  · intro h chain hchain' x hx
    rw [hchain] at hchain'; cases hchain'
    obtain ⟨seg, hseg, rfl⟩ := List.mem_map.mp hx
    exact h seg hseg

theorem getTimeline_of_visible {st : TimelineState} (hadmits : s.Admits t)
    (hst : s.timelines.lookup t = some st) (hmark : t ∉ s.geographicTimelines) :
    s.getTimeline t = .ok (some st.timeline) := by
  rw [getTimeline, hadmits, ok_bind, hst]
  simp [hmark]

/-! ## Forking -/

variable {n : Seq} {name : String}

theorem topology_eq_ok : s.ensureDirectTopologyMutationAllowed = .ok () ↔ s.erasureTopologyRequiresPermit = false := by
  unfold ensureDirectTopologyMutationAllowed
  by_cases h : s.erasureTopologyRequiresPermit <;> simp [h]

def forked (s : MemoryStore) (p : TimelineId) (n : Seq) (name : String) (c : TimelineId) (hash : Hash) : MemoryStore :=
  s.setTimeline c (TimelineState.new (Timeline.new (s.forkMeta p n name c)) hash)

theorem fork_of_ok {child : Timeline} (h : s.fork p n name c = (.ok child, s')) :
    s.erasureTopologyRequiresPermit = false ∧ s.Admits p ∧ s.Visible p ∧
      child = Timeline.new (s.forkMeta p n name c) ∧ ∃ hash, s.forkHash p n = .ok hash ∧ s' = s.forked p n name c hash := by
  obtain ⟨hash, hchecks, heffect⟩ := after_eq_ok h
  obtain ⟨⟨⟩, htop, hchecks⟩ := bind_eq_ok.mp hchecks
  obtain ⟨⟨⟩, hadmits, hchecks⟩ := bind_eq_ok.mp hchecks
  obtain ⟨⟨⟩, hvisible, hhash⟩ := bind_eq_ok.mp hchecks
  cases heffect
  exact ⟨topology_eq_ok.mp htop, hadmits, visibility_eq_ok.mp hvisible, rfl, hash, hhash, rfl⟩

variable {hash : Hash}

theorem fork_eq (htop : s.erasureTopologyRequiresPermit = false) (hadmits : s.Admits p)
    (hvisible : s.Visible p) (hhash : s.forkHash p n = .ok hash) :
    s.fork p n name c = (.ok (Timeline.new (s.forkMeta p n name c)), s.forked p n name c hash) := by
  unfold fork
  rw [topology_eq_ok.mpr htop, ok_bind, hadmits, ok_bind, visibility_eq_ok.mpr hvisible, ok_bind, hhash]
  rfl

/-- A Fork's cut is within the parent's logical head, and then its hash is the fold there. -/
theorem Refines.forkHash_eq (hr : s.Refines F) (hs : F.Sound p) (hh : F.History p hist)
    (hn : n ≤ hist.length) : s.forkHash p n = .ok (s.hasher.chain s.hasher.genesisHash (hist.take n)) := by
  unfold forkHash
  rw [hr.head hs hh, ok_bind, if_neg (Nat.not_lt.mpr hn), hr.chainHash hs hh hn]

theorem lookup_forked : (s.forked p n name c hash).timelines.lookup c =
    some (TimelineState.new (Timeline.new (s.forkMeta p n name c)) hash) := by
  rw [forked, setTimeline, Finmap.lookup_insert]

/-- What a Fork does to the forest: it adds the child with the first `n` Events of the parent, sound
when the cut is not before the parent's own, and changes no other history. -/
theorem WF.forked (hw : s.WF F) (name : String) (fresh : s.timelines.lookup c = none)
    (hhash : s.forkHash p n = .ok hash) :
    ∃ F', (s.forked p n name c hash).WF F' ∧ (∀ {hist}, F.History p hist → F'.History c (hist.take n)) ∧
      (∀ {L}, Spine F.log p L → Spine F'.log c (L ++ [⟨c, n, []⟩])) ∧
      (∀ {st}, s.timelines.lookup p = some st → (F'.Sound c ↔ st.timeline.metadata.prefixLen ≤ n)) ∧
      (∀ {j hist}, F.History j hist → F'.History j hist) ∧ ∀ {j}, F.Sound j → F'.Sound j := by
  have hhasher : (s.forked p n name c hash).hasher = s.hasher := rfl
  have hwf := hw.insert hhasher fresh rfl (born_forked hhash)
  have hstate : (TimelineState.new (Timeline.new (s.forkMeta p n name c)) hash).log = ⟨some (p, n), []⟩ :=
    congrArg (Log.mk · []) (forkMeta_forkPoint ..)
  have hlog := (hwf.log lookup_forked).trans (congrArg some hstate)
  refine ⟨_, hwf, ?_, ?_, ?_, fun h => h.insert _ _, fun h => h.insert _ _⟩
  · intro hist hh
    have := History.fork hlog (hh.insert _ _)
    rwa [List.append_nil] at this
  · intro L hL
    exact .fork hlog (hL.insert (lookup_none_of_log hw.toRefines fresh) _)
  · intro st hst
    have hne : p ≠ c := by
      rintro rfl
      rw [fresh] at hst; cases hst
    have hp : (s.forked p n name c hash).timelines.lookup p = some st := by
      rw [MemoryStore.forked, setTimeline, Finmap.lookup_insert_of_ne _ hne]
      exact hst
    exact sound_fork_iff hlog (hwf.log hp)

def forkPoint (s : MemoryStore) (t : TimelineId) : Option (TimelineId × Seq) :=
  (s.timelines.lookup t).bind fun st => st.timeline.metadata.forkPoint

/-- `fork` is copy-on-write: it succeeds, the child's logical head is the cut, and the child reads
as the first `n` Events of the parent. -/
def ForkCopies (s : MemoryStore) (p : TimelineId) (n : Seq) (name : String) (c : TimelineId) : Prop :=
  ∃ child s' all, s.fork p n name c = (.ok child, s') ∧ s'.logicalHead child.id = .ok n ∧
    s.read p .all = .ok all ∧ s'.read child.id .all = .ok (all.take n)

/-- The child of a sound cut reads as the parent's first `n` Events. -/
theorem WF.forkCopies (hw : s.WF F) (fresh : s.FreshTimeline c) (htop : s.erasureTopologyRequiresPermit = false)
    (hs : F.Sound p) (hh : F.History p hist) (hn : n ≤ hist.length) (hadmits : s.Admits p)
    (hvisible : s.Visible p) (hlineage : s.LineageAdmitted p) (hchild : s.Admits c)
    (hcut : ∀ st, s.timelines.lookup p = some st → st.timeline.metadata.prefixLen ≤ n) :
    s.ForkCopies p n name c := by
  obtain ⟨hash, hhash⟩ : ∃ hash, s.forkHash p n = .ok hash := ⟨_, hw.forkHash_eq hs hh hn⟩
  obtain ⟨F', hw', hhist, hspine, hsound, -, -⟩ := hw.forked name fresh.1 hhash
  obtain ⟨st, hst⟩ := hvisible.1
  have hsc : F'.Sound c := (hsound hst).mpr (hcut st hst)
  obtain ⟨L, hL, ho⟩ := hs
  have hvisc : (s.forked p n name c hash).Visible c := ⟨⟨_, lookup_forked⟩, fresh.2.1⟩
  have hlin : (s.forked p n name c hash).LineageAdmitted c := by
    rw [lineageAdmitted_iff (hw'.spine (hspine hL))]
    intro x hx
    -- the child's spine is the parent's and the child itself
    rcases List.mem_append.mp hx with hx | hx
    · exact (lineageAdmitted_iff (hw.spine hL)).mp hlineage x hx
    · rw [List.mem_singleton] at hx; subst hx
      exact hchild
  have hid : (Timeline.new (s.forkMeta p n name c)).id = c := forkMeta_id ..
  refine ⟨_, _, _, fork_eq htop hadmits hvisible hhash, ?_,
    hw.read_all_of_sound ⟨L, hL, ho⟩ hh hadmits hvisible hlineage, ?_⟩
  · rw [hid, logicalHead_eq_ok]
    refine ⟨hchild, hvisc, ?_⟩
    rw [hw'.head hsc (hhist hh), List.length_take, Nat.min_eq_left hn]
  · rw [hid, take_logicalEvents]
    exact hw'.read_all_of_sound hsc (hhist hh) hchild hvisc hlin

/-- In every reachable store, a Fork at a cut within its parent's logical head is copy-on-write exactly when the
host permits it (direct topology changes are open, and the gate admits the parent's lineage and the
child) and the cut does not precede the parent's own fork point. -/
theorem fork_copyOnWrite_iff {h : Nat} (hs : Reachable Fresh s) (hhead : s.logicalHead p = .ok h) (hn : n ≤ h)
    (fresh : s.FreshTimeline c) :
    s.ForkCopies p n name c ↔
      (s.erasureTopologyRequiresPermit = false ∧ s.LineageAdmitted p ∧ s.Admits c) ∧
      ∀ parent cut, s.forkPoint p = some (parent, cut) → cut ≤ n := by
  obtain ⟨F, hw⟩ := hs.wf
  obtain ⟨hadmits, hvisible, hunchecked⟩ := logicalHead_eq_ok.mp hhead
  obtain ⟨hsound, hist, hh, rfl⟩ := hw.sound_of_head hunchecked
  constructor
  · rintro ⟨child, s', all, hfork, hheadc, hreadp, hreadc⟩
    obtain ⟨htop, -, -, rfl, hash, hhash, rfl⟩ := fork_of_ok hfork
    rw [show (Timeline.new (s.forkMeta p n name c)).id = c from forkMeta_id ..] at hheadc hreadc
    obtain ⟨F', hw', -, -, hcut, -, -⟩ := hw.forked name fresh.1 hhash
    refine ⟨⟨htop, (read_eq_ok.mp hreadp).2.2.1, (logicalHead_eq_ok.mp hheadc).1⟩, fun parent cut hpoint => ?_⟩
    obtain ⟨st, hst, hfp⟩ := Option.bind_eq_some_iff.mp hpoint
    have hle := (hcut hst).mp (hw'.read_all hreadc).2.2.2.1
    simpa [TimelineMeta.prefixLen, hfp] using hle
  · rintro ⟨⟨htop, hlineage, hchild⟩, hcut⟩
    refine hw.forkCopies fresh htop hsound hh hn hadmits hvisible hlineage hchild fun st hst => ?_
    rcases hfp : st.timeline.metadata.forkPoint with _ | ⟨parent, cut⟩
    · simp [TimelineMeta.prefixLen, hfp]
    · simpa [TimelineMeta.prefixLen, hfp] using hcut parent cut (Option.bind_eq_some_iff.mpr ⟨st, hst, hfp⟩)

/-- A root with one Event, and a Fork of it after that Event. -/
def forkedOnce : MemoryStore :=
  run blankStore
    [.createTimeline "root" ⟨1⟩,
      .append ⟨1⟩ [EventDraft.new ⟨1⟩ "note" []] (drawsFrom 1 5),
      .fork ⟨1⟩ 1 "branch" ⟨2⟩]

theorem forkedOnce_reachable : Reachable Fresh forkedOnce :=
  Reachable.run (.blank .empty) (by decide)

theorem forkedOnce_copies : forkedOnce.ForkCopies ⟨2⟩ 1 "again" ⟨3⟩ := by
  refine (fork_copyOnWrite_iff (h := 1) forkedOnce_reachable (by decide) (by decide) (by decide)).mpr
    ⟨⟨rfl, fun _ _ _ _ => rfl, rfl⟩, fun parent cut hpoint => ?_⟩
  cases (hpoint : some (⟨1⟩, 1) = some (parent, cut))
  decide

/-- Cutting the Fork before its own fork point succeeds, and leaves a child that no read accepts. -/
theorem forkedOnce_not_copies : Reachable Fresh forkedOnce ∧ forkedOnce.logicalHead ⟨2⟩ = .ok 1 ∧
    forkedOnce.FreshTimeline ⟨3⟩ ∧ (forkedOnce.fork ⟨2⟩ 0 "early" ⟨3⟩).1.isOk ∧
    (forkedOnce.fork ⟨2⟩ 0 "early" ⟨3⟩).2.logicalHead ⟨3⟩ = .error (ForkChain.precedesError ⟨2⟩) ∧
    (forkedOnce.fork ⟨2⟩ 0 "early" ⟨3⟩).2.read ⟨3⟩ .all = .error (ForkChain.precedesError ⟨2⟩) ∧
    ¬ forkedOnce.ForkCopies ⟨2⟩ 0 "early" ⟨3⟩ := by
  have hhead : (forkedOnce.fork ⟨2⟩ 0 "early" ⟨3⟩).2.logicalHead ⟨3⟩ = .error (ForkChain.precedesError ⟨2⟩) := by decide
  refine ⟨forkedOnce_reachable, by decide, by decide, by decide, hhead, by decide, ?_⟩
  rintro ⟨child, s', all, hfork, hheadc, -⟩
  obtain ⟨-, -, -, rfl, -⟩ := fork_of_ok hfork
  rw [hfork] at hhead
  rw [show (Timeline.new (forkedOnce.forkMeta ⟨2⟩ 0 "early" ⟨3⟩)).id = ⟨3⟩ from forkMeta_id .., hhead] at hheadc
  cases hheadc

/-! ## The chain head -/

/-- Renumbering changes nothing a chain reads. -/
theorem chain_logicalEventsFrom (hasher : Hasher) : ∀ (k : Nat) (acc : Hash) (es : List Event),
    hasher.chain acc (logicalEventsFrom k es) = hasher.chain acc es
  | _, _, [] => rfl
  | k, acc, e :: es => chain_logicalEventsFrom hasher (k + 1) (hasher.link acc e) es

/-- The stored chain head of a readable Timeline is the hash fold of its Events; the chain hash at
each cut up to its logical head is the fold of the Events before the cut, and beyond it an error. -/
theorem chainHash_fold (hs : Reachable Fresh s) {events : List Event} (hread : s.read t .all = .ok events) :
    s.chainHead t = s.hasher.chain s.hasher.genesisHash events ∧
    s.logicalHead t = .ok events.length ∧
    (∀ n ≤ events.length, s.chainHashAt t n = .ok (s.hasher.chain s.hasher.genesisHash (events.take n))) ∧
    ∀ n, events.length < n → s.chainHashAt t n = .error (.forkBeyondHead n events.length) := by
  obtain ⟨F, hw⟩ := hs.wf
  obtain ⟨hadmits, hvisible, hlineage, hsound, hist, hh, rfl⟩ := hw.read_all hread
  obtain ⟨st, hst⟩ := hvisible.1
  obtain ⟨L, hchain, -⟩ := hw.sound_spine hsound hh
  have hlen : (logicalEvents hist).length = hist.length := length_logicalEventsFrom 0 hist
  refine ⟨?_, ?_, fun n hn => ?_, fun n hn => ?_⟩
  · have hhead : s.chainHead t = st.chainHead := by simp [chainHead, hst]
    rw [hhead, hw.chain hst hh]
    exact (chain_logicalEventsFrom s.hasher 0 _ hist).symm
  · rw [logicalHead_eq_ok, hlen]
    exact ⟨hadmits, hvisible, hw.head hsound hh⟩
  · rw [hlen] at hn
    rw [chainHashAt_eq hadmits hvisible hchain hlineage, hw.chainHash hsound hh hn, take_logicalEvents]
    exact congrArg Except.ok (chain_logicalEventsFrom s.hasher 0 _ _).symm
  · rw [hlen] at hn ⊢
    rw [chainHashAt_eq hadmits hvisible hchain hlineage, hw.chainHash_beyond hsound hh hn]

theorem forkedOnce_chainHash : ∃ events, forkedOnce.read ⟨2⟩ .all = .ok events ∧
    forkedOnce.chainHashAt ⟨2⟩ 1 = .ok (forkedOnce.hasher.chain forkedOnce.hasher.genesisHash (events.take 1)) := by
  obtain ⟨events, hread⟩ : ∃ events, forkedOnce.read ⟨2⟩ .all = .ok events := ⟨_, rfl⟩
  refine ⟨events, hread, (chainHash_fold forkedOnce_reachable hread).2.2.1 1 ?_⟩
  cases hread
  decide

/-- Looking an EventId up, segment by segment, is a search of the full read. -/
theorem readEventById_eq_find (hs : Reachable Fresh s) (hread : s.read t .all = .ok events) (eventId : EventId) :
    s.readEventById t eventId = .ok (events.find? fun e => decide (e.id = eventId)) := by
  obtain ⟨F, hw⟩ := hs.wf
  obtain ⟨hadmits, hvisible, hlineage, hsound, hist, hh, rfl⟩ := hw.read_all hread
  exact hw.readEventById hsound hh hadmits hvisible hlineage eventId

theorem forkedOnce_finds : ∃ e, forkedOnce.read ⟨2⟩ .all = .ok [e] ∧ forkedOnce.readEventById ⟨2⟩ e.id = .ok (some e) :=
  ⟨_, rfl, (readEventById_eq_find (t := ⟨2⟩) forkedOnce_reachable rfl _).trans rfl⟩

end Piglor.MemoryStore
