/-
Copy-on-write log forests, over any key and entry type. A log owns a list of entries and may be
cut from a parent log at a position; its history is the parent's history up to the cut, then its
own entries. A reader does not build that history: it walks the spine from the root and takes from
each segment what lies before the next cut. The two agree on ordered spines (`stitch_eq_unroll`).

`CowForest` carries its invariant: every cut lies within the parent's history and the parent's
spine is ordered. Its operations (new root, fork, extend, remove a leaf) keep it, and say what they
do to every history: extending a log changes no other history, and a fork at `n` starts as the
first `n` entries of its parent.
-/
import Mathlib.Data.List.Chain
import Mathlib.Data.List.Nodup

namespace CowForest

variable {K α : Type*}

/-- One log: the parent and the cut it was forked at, and the entries it owns. -/
structure Log (K α : Type*) where
  parent : Option (K × Nat)
  own : List α

/-- The number of inherited entries. -/
def Log.start (l : Log K α) : Nat := (l.parent.map Prod.snd).getD 0

/-- One log of a spine: its key, the position it starts at, and its own entries. -/
structure Segment (K α : Type*) where
  key : K
  start : Nat
  own : List α

/-- The logical position the segment ends at. -/
def Segment.stop (s : Segment K α) : Nat := s.start + s.own.length

/-! ## Spines -/

/-- The segments from the root down to a log. -/
inductive Spine (log : K → Option (Log K α)) : K → List (Segment K α) → Prop where
  | root {k own} : log k = some ⟨none, own⟩ → Spine log k [⟨k, 0, own⟩]
  | fork {k p n own L} : log k = some ⟨some (p, n), own⟩ → Spine log p L → Spine log k (L ++ [⟨k, n, own⟩])

/-- The history a spine stands for: each log keeps its parent's history up to the cut. -/
def unroll (L : List (Segment K α)) : List α := L.foldl (fun h s => h.take s.start ++ s.own) []

/-- What a reader collects: from each segment the entries before the next cut. -/
def stitch : List (Segment K α) → List α
  | [] => []
  | [s] => s.own
  | s :: t :: rest => s.own.take (t.start - s.start) ++ stitch (t :: rest)

/-- How many entries of a segment a reader takes, given the segments after it. -/
def Segment.span (s : Segment K α) (rest : List (Segment K α)) : Nat :=
  (rest.head?.map fun t => t.start - s.start).getD s.own.length

/-- Every cut lies in the segment it was made in. -/
def Ordered (L : List (Segment K α)) : Prop := L.IsChain (fun s t => s.start ≤ t.start ∧ t.start ≤ s.stop)

@[simp] theorem unroll_concat (L : List (Segment K α)) (s : Segment K α) :
    unroll (L ++ [s]) = (unroll L).take s.start ++ s.own := by
  simp [unroll, List.foldl_append]

theorem unroll_singleton (s : Segment K α) : unroll [s] = s.own := by simp [unroll]

open Segment

theorem stitch_cons (s : Segment K α) (rest : List (Segment K α)) :
    stitch (s :: rest) = s.own.take (s.span rest) ++ stitch rest := by
  cases rest with
  | nil | cons t rest => simp [stitch, span]

variable {s : Segment K α}

/-- In an ordered list a segment is read up to where the next one starts, which it owns. -/
theorem Ordered.span {A B : List (Segment K α)} (h : Ordered (A ++ s :: B)) :
    s.span B ≤ s.own.length ∧ ∀ t ∈ B.head?, s.start + s.span B = t.start := by
  have hB : Ordered (s :: B) := (List.isChain_append.mp h).2.1
  cases B with
  | nil => simp [Segment.span]
  | cons t B =>
    have hst := (List.isChain_cons_cons.mp hB).1
    simp only [Segment.span, List.head?_cons, Option.map_some, Option.getD_some, Option.mem_def,
      Option.some.injEq, forall_eq']
    simp only [Segment.stop] at hst
    omega

variable {log : K → Option (Log K α)} {k : K} {L : List (Segment K α)}

section

variable (h : Spine log k L)

include h

theorem Spine.functional {M : List (Segment K α)} (h' : Spine log k M) : L = M := by
  induction h generalizing M with
  | root hk =>
    cases h' with
    | root hk' => rw [hk] at hk'; cases hk'; rfl
    | fork hk' _ => rw [hk] at hk'; cases hk'
  | fork hk _ ih =>
    cases h' with
    | root hk' => rw [hk] at hk'; cases hk'
    | fork hk' hp' => rw [hk] at hk'; cases hk'; rw [ih hp']

theorem Spine.concat : ∃ L' l, log k = some l ∧ L = L' ++ [⟨k, l.start, l.own⟩] := by
  cases h with
  | root hk => exact ⟨[], _, hk, rfl⟩
  | fork hk _ => exact ⟨_, _, hk, rfl⟩

theorem Spine.ne_nil : L ≠ [] := by
  obtain ⟨L', l, -, rfl⟩ := h.concat
  simp

/-- A spine starts at position zero. -/
theorem Spine.head_start : ∀ s ∈ L.head?, s.start = 0 := by
  induction h with
  | root _ => simp
  | fork _ hp ih =>
    intro s hs
    obtain ⟨a, M, rfl⟩ := List.exists_cons_of_ne_nil hp.ne_nil
    exact ih s (by simpa using hs)

/-- Each segment of a spine is a log of the forest, and its spine is the part up to it. -/
theorem Spine.mem (hs : s ∈ L) :
    ∃ l M, log s.key = some l ∧ s.start = l.start ∧ s.own = l.own ∧ Spine log s.key M ∧ M <+: L := by
  induction h with
  | root hk =>
    rw [List.mem_singleton] at hs; subst hs
    exact ⟨_, _, hk, rfl, rfl, .root hk, List.prefix_refl _⟩
  | fork hk hp ih =>
    rcases List.mem_append.mp hs with hs | hs
    · obtain ⟨l, M, h1, h2, h3, h4, h5⟩ := ih hs
      exact ⟨l, M, h1, h2, h3, h4, h5.trans (List.prefix_append _ _)⟩
    · rw [List.mem_singleton] at hs; subst hs
      exact ⟨_, _, hk, rfl, rfl, .fork hk hp, List.prefix_refl _⟩

/-- No log is its own ancestor. -/
theorem Spine.nodup_keys : (L.map key).Nodup := by
  induction h with
  | root _ => simp
  | @fork k p n own L hk hp ih =>
    rw [List.map_append, List.nodup_append']
    refine ⟨ih, by simp, ?_⟩
    simp only [List.map_cons, List.map_nil, List.disjoint_singleton]
    intro hmem
    obtain ⟨s, hs, hsk⟩ := List.mem_map.mp hmem
    -- the spine up to an earlier occurrence of `k` would be shorter than `k`'s spine
    obtain ⟨l, M, -, -, -, hM, hpre⟩ := hp.mem hs
    rw [hsk] at hM
    have hlen := hpre.length_le
    rw [hM.functional (.fork hk hp), List.length_append] at hlen
    simp only [List.length_singleton] at hlen
    omega

end

/-- Walking up from a fork, none of the parent's logs has been seen if none of the fork's had. -/
theorem Spine.fork_unseen {p : K} {n : Nat} {own : List α} (hk : log k = some ⟨some (p, n), own⟩) (hp : Spine log p L)
    {seen : List K} (hnew : ∀ j ∈ (L ++ [(⟨k, n, own⟩ : Segment K α)]).map key, j ∉ seen) :
    ∀ j ∈ L.map key, j ∉ k :: seen := by
  have hnodup := (Spine.fork hk hp).nodup_keys
  rw [List.map_append, List.nodup_append'] at hnodup
  rw [List.map_append] at hnew
  intro j hj hmem
  rcases List.mem_cons.mp hmem with rfl | hmem
  · exact hnodup.2.2 hj (by simp)
  · exact hnew j (List.mem_append_left _ hj) hmem

/-- Each segment after the first was cut from the one before it. -/
theorem Spine.adjacent (h : Spine log k L) : ∀ {A B : List (Segment K α)} {s t : Segment K α}, L = A ++ s :: t :: B →
      ∃ own, log t.key = some ⟨some (s.key, t.start), own⟩ := by
  induction h with
  | root hk =>
    intro A B s t hL
    have hlen := congrArg List.length hL
    simp at hlen
    omega
  | @fork k p n own L hk hp ih =>
    intro A B s t hL
    rcases List.eq_nil_or_concat B with rfl | ⟨B', b, rfl⟩
    · rw [show A ++ [s, t] = (A ++ [s]) ++ [t] by simp] at hL
      obtain ⟨hL', ht⟩ := List.append_inj' hL rfl
      obtain ⟨L', l, -, hlast⟩ := hp.concat
      rw [hlast] at hL'
      obtain ⟨-, hs⟩ := List.append_inj' hL' rfl
      cases List.singleton_inj.mp ht
      rw [← (List.singleton_inj.mp hs)]
      exact ⟨own, hk⟩
    · rw [show A ++ s :: t :: B'.concat b = (A ++ s :: t :: B') ++ [b] by simp] at hL
      exact ih (List.append_inj' hL rfl).1

/-! ## Ordered spines -/

theorem ordered_concat_concat {t : Segment K α} :
    Ordered (L ++ [s] ++ [t]) ↔ Ordered (L ++ [s]) ∧ s.start ≤ t.start ∧ t.start ≤ s.stop := by
  simp only [Ordered, List.isChain_append, List.getLast?_concat, List.head?_cons, List.isChain_singleton,
    Option.mem_def, Option.some.injEq, forall_eq', true_and]

/-- The history of an ordered spine ends where its last segment does. -/
theorem length_unroll_concat : ∀ (L : List (Segment K α)) (s : Segment K α),
    (∀ a ∈ (L ++ [s]).head?, a.start = 0) → Ordered (L ++ [s]) → (unroll (L ++ [s])).length = s.stop := by
  intro L
  induction L using List.reverseRecOn with
  | nil =>
    intro s h0 _
    have : s.start = 0 := h0 s (by simp)
    simp [unroll_singleton, stop, this]
  | append_singleton L a ih =>
    intro s h0 ho
    have h := ordered_concat_concat.mp ho
    have hlen := ih a (by intro b hb; apply h0; cases L <;> simpa using hb) h.1
    rw [unroll_concat, List.length_append, List.length_take, hlen]
    simp only [stop] at *
    omega

/-- Before the last cut an ordered spine's stitch is the history up to the last segment. -/
theorem stitch_concat_concat : ∀ (L : List (Segment K α)) (s t : Segment K α),
    stitch (L ++ [s, t]) = stitch (L ++ [⟨s.key, s.start, s.own.take (t.start - s.start)⟩]) ++ t.own
  | [], s, t => by simp [stitch]
  | [a], s, t => by simp [stitch]
  | a :: b :: L, s, t => by
    have ih := stitch_concat_concat (b :: L) s t
    cases L <;> simp only [List.nil_append, List.cons_append, stitch] at ih ⊢ <;> rw [ih] <;> simp

/-- On an ordered spine the reader's stitch is the history. -/
theorem stitch_eq_unroll : ∀ (L : List (Segment K α)) (s : Segment K α),
    (∀ a ∈ (L ++ [s]).head?, a.start = 0) → Ordered (L ++ [s]) → stitch (L ++ [s]) = unroll (L ++ [s]) := by
  intro L
  induction L using List.reverseRecOn with
  | nil => intro s _ _; simp [stitch, unroll_singleton]
  | append_singleton L a ih =>
    intro s h0 ho
    have h := ordered_concat_concat.mp ho
    -- cut the last-but-one segment at the last cut, and read it as a spine of its own
    let a' : Segment K α := ⟨a.key, a.start, a.own.take (s.start - a.start)⟩
    have h0' : ∀ b ∈ (L ++ [a]).head?, b.start = 0 := by intro b hb; apply h0; cases L <;> simpa using hb
    have hL : Ordered L ∧ ∀ x ∈ L.getLast?, x.start ≤ a.start ∧ a.start ≤ x.stop := by
      simpa [Ordered, List.isChain_append] using h.1
    have ho' : Ordered (L ++ [a']) := by simpa [Ordered, List.isChain_append, a'] using hL
    have hlen := length_unroll_concat L a h0' h.1
    have key : ∀ x : List α, a.start ≤ x.length →
        (x.take a.start ++ a.own).take s.start = x.take a.start ++ a.own.take (s.start - a.start) := by
      intro x hx
      rw [List.take_append, List.take_take, List.length_take]
      congr 2 <;> omega
    have hx : a.start ≤ (unroll L).length := by
      rw [unroll_concat, List.length_append, List.length_take] at hlen
      simp only [stop] at hlen
      omega
    rw [List.append_assoc, List.singleton_append, stitch_concat_concat, ih a' ?_ ho', unroll_concat]
    · rw [show L ++ [a, s] = (L ++ [a]) ++ [s] by simp, unroll_concat, unroll_concat, key _ hx]
    · intro b hb
      cases L with
      | nil => have : b = a' := by simpa using hb.symm
               subst this; exact h0' a (by simp)
      | cons c L => exact h0' b (by simpa using hb)

/-- `stitch_eq_unroll`, and the length of the history, for a log's spine. -/
theorem Spine.stitch (h : Spine log k L) (ho : Ordered L) : stitch L = unroll L := by
  obtain ⟨L', l, -, rfl⟩ := h.concat
  exact stitch_eq_unroll _ _ h.head_start ho

/-- The length of a log's history, when its spine is ordered: the cut and its own entries. -/
theorem Spine.length_unroll {l : Log K α} (h : Spine log k L) (ho : Ordered L) (hk : log k = some l) :
    (unroll L).length = l.start + l.own.length := by
  obtain ⟨L', l', hl', rfl⟩ := h.concat
  rw [hk] at hl'; cases hl'
  exact length_unroll_concat _ _ h.head_start ho

/-! ## Forests -/

end CowForest

open CowForest List Function

/-- A forest of copy-on-write logs. Every cut was made within the history of a parent whose own
spine is ordered, so no spine is infinite and only a log's own cut can be out of order. -/
structure CowForest (K α : Type*) where
  log : K → Option (Log K α)
  cut : ∀ {k l p n}, log k = some l → l.parent = some (p, n) →
    ∃ L, Spine log p L ∧ Ordered L ∧ n ≤ (unroll L).length

namespace CowForest

variable {K α : Type*} (F : CowForest K α)

/-- A log's history, whether or not a reader can stitch it. -/
def History (k : K) (h : List α) : Prop := ∃ L, Spine F.log k L ∧ h = unroll L

/-- The log's spine is ordered, so that a reader can stitch it. -/
def Sound (k : K) : Prop := ∃ L, Spine F.log k L ∧ Ordered L

variable {F} {k : K} {L : List (Segment K α)} {l : Log K α}

theorem exists_spine (h : F.log k = some l) : ∃ L, Spine F.log k L := by
  obtain ⟨_ | ⟨p, n⟩, own⟩ := l
  · exact ⟨_, .root h⟩
  · obtain ⟨L, hL, -, -⟩ := F.cut h rfl
    exact ⟨_, .fork h hL⟩

theorem Sound.ordered (h : F.Sound k) (hL : Spine F.log k L) : Ordered L := by
  obtain ⟨M, hM, ho⟩ := h
  rwa [hL.functional hM]

/-- Histories only grow when every log keeps its parent and its cut and adds to its own entries. -/
theorem Spine.unroll_grows {F' : CowForest K α} {L' : List (Segment K α)}
    (hgrew : ∀ {k l l'}, F.log k = some l → F'.log k = some l' → l'.parent = l.parent ∧ l.own <+: l'.own)
    (h : Spine F.log k L) (h' : Spine F'.log k L') : unroll L <+: unroll L' := by
  induction h generalizing L' with
  | root hk =>
    cases h' with
    | root hk' => simpa only [unroll_singleton] using (hgrew hk hk').2
    | fork hk' _ => cases (hgrew hk hk').1
  | fork hk hp ih =>
    cases h' with
    | root hk' => cases (hgrew hk hk').1
    | fork hk' hp' =>
      obtain ⟨hparent, hown⟩ := hgrew hk hk'
      cases hparent
      -- the cut lies within the parent's history, which still starts as it did
      obtain ⟨M, hM, -, hn⟩ := F.cut hk rfl
      rw [← hp.functional hM] at hn
      obtain ⟨later, hlater⟩ := ih hp'
      rw [unroll_concat, unroll_concat, ← hlater, take_append_of_le_length hn]
      exact (prefix_append_right_inj _).mpr hown

variable {h : List α}

theorem History.functional {h' : List α} (a : F.History k h) (b : F.History k h') : h = h' := by
  obtain ⟨L, hL, rfl⟩ := a
  obtain ⟨M, hM, rfl⟩ := b
  rw [hL.functional hM]

variable {j : K}

theorem History.log (hj : F.History j h) : ∃ l, F.log j = some l := by
  obtain ⟨L, hL, -⟩ := hj
  obtain ⟨-, l, hl, -⟩ := hL.concat
  exact ⟨l, hl⟩

theorem exists_history (hj : F.log j = some l) : ∃ h, F.History j h := by
  obtain ⟨L, hL⟩ := exists_spine hj
  exact ⟨_, L, hL, rfl⟩

variable {n : Nat} {own : List α}

/-- A log inherits its parent's history up to the cut. -/
theorem History.fork {p : K} (hk : F.log k = some ⟨some (p, n), own⟩) (hp : F.History p h) :
    F.History k (h.take n ++ own) := by
  obtain ⟨L, hL, rfl⟩ := hp
  exact ⟨_, .fork hk hL, by simp⟩

theorem History.root (hk : F.log k = some ⟨none, own⟩) : F.History k own :=
  ⟨_, .root hk, by simp [unroll_singleton]⟩

theorem Sound.root (hk : F.log k = some ⟨none, own⟩) : F.Sound k :=
  ⟨_, .root hk, by simp [Ordered]⟩

/-- A fork is sound exactly when its cut does not precede its parent's own cut. -/
theorem sound_fork_iff {p : K} {lp : Log K α} (hk : F.log k = some ⟨some (p, n), own⟩)
    (hp : F.log p = some lp) : F.Sound k ↔ lp.start ≤ n := by
  obtain ⟨L, hL, ho, hn⟩ := F.cut hk rfl
  have hlen := hL.length_unroll ho hp
  obtain ⟨L', l', hl', rfl⟩ := hL.concat
  rw [hp] at hl'; cases hl'
  constructor
  · intro h
    exact (ordered_concat_concat.mp (h.ordered (.fork hk hL))).2.1
  · intro h
    refine ⟨_, .fork hk hL, ordered_concat_concat.mpr ⟨ho, h, ?_⟩⟩
    simp only [Segment.stop]
    omega

/-- Every history is as long as the cut and the log's own entries. -/
theorem History.length (hh : F.History k h) (hk : F.log k = some l) : h.length = l.start + l.own.length := by
  obtain ⟨L, hL, rfl⟩ := hh
  cases hL with
  | root hk' => rw [hk] at hk'; cases hk'; simp [unroll_singleton, Log.start]
  | fork hk' hp =>
    rw [hk] at hk'; cases hk'
    obtain ⟨M, hM, -, hn⟩ := F.cut hk rfl
    rw [hp.functional hM, unroll_concat, length_append, length_take]
    simp only [Log.start, Option.map_some, Option.getD_some]
    omega

/-- After the inherited entries a history shows the log's own. -/
theorem History.drop (hh : F.History k h) (hk : F.log k = some l) : h.drop l.start = l.own := by
  obtain ⟨L, hL, rfl⟩ := hh
  cases hL with
  | root hk' => rw [hk] at hk'; cases hk'; simp [unroll_singleton, Log.start]
  | fork hk' hp =>
    rw [hk] at hk'; cases hk'
    obtain ⟨M, hM, -, hn⟩ := F.cut hk rfl
    rw [← hp.functional hM] at hn
    rw [unroll_concat]
    exact drop_left' (length_take_of_le hn)

/-! ## Inherited entries -/

/-- Going up through cuts at or after position `n`, a log reaches another: it shows the same first
`n` entries. -/
inductive Inherits (log : K → Option (Log K α)) (n : Nat) : K → K → Prop where
  | refl {k : K} : Inherits log n k k
  | up {k p j : K} {c own} : log k = some ⟨some (p, c), own⟩ → n ≤ c → Inherits log n p j → Inherits log n k j

theorem Inherits.history (hkj : Inherits F.log n k j) : ∀ {h h' : List α}, F.History k h →
    F.History j h' → h.take n = h'.take n := by
  induction hkj with
  | refl =>
    intro h h' hh hh'
    rw [hh.functional hh']
  | @up k p j c own hk hn _ ih =>
    intro h h' hh hh'
    obtain ⟨L, hL, -, hc⟩ := F.cut hk rfl
    have hp : F.History p (unroll L) := ⟨L, hL, rfl⟩
    rw [hh.functional (.fork hk hp), ← ih hp hh', take_append_of_le_length (by rw [length_take]; omega),
      take_take, Nat.min_eq_left hn]

variable {log : K → Option (Log K α)}

theorem Inherits.mem (hkj : Inherits log n k j) :
    ∀ {L : List (Segment K α)}, Spine log k L → j ∈ L.map Segment.key := by
  induction hkj with
  | refl =>
    intro L hL
    obtain ⟨L', l, -, rfl⟩ := hL.concat
    simp
  | up hk _ _ ih =>
    intro L hL
    cases hL with
    | root hk' => rw [hk] at hk'; cases hk'
    | fork hk' hp =>
      rw [hk] at hk'; cases hk'
      rw [map_append]
      exact mem_append_left _ (ih hp)

theorem Spine.inherits (hL : Spine log k L) {s : Segment K α} (hs : s ∈ L) : Inherits log 0 k s.key := by
  induction hL with
  | root _ =>
    rw [mem_singleton] at hs; subst hs
    exact .refl
  | fork hk _ ih =>
    rcases mem_append.mp hs with hs | hs
    · exact .up hk (Nat.zero_le _) (ih hs)
    · rw [mem_singleton] at hs; subst hs
      exact .refl

/-- Each position of a history lies among the own entries of a log it is inherited from. -/
theorem exists_holder (hL : Spine F.log k L) : ∀ {n : Nat}, n < (unroll L).length →
    ∃ j l, Inherits F.log (n + 1) k j ∧ F.log j = some l ∧ l.start ≤ n ∧ n < l.start + l.own.length ∧
      (unroll L)[n]? = l.own[n - l.start]? := by
  induction hL with
  | @root k own hk =>
    intro n hn
    rw [unroll_singleton] at hn ⊢
    exact ⟨k, _, .refl, hk, Nat.zero_le n, by simpa [Log.start] using hn, rfl⟩
  | @fork k p c own L hk hp ih =>
    intro n hn
    obtain ⟨M, hM, -, hc⟩ := F.cut hk rfl
    rw [hM.functional hp] at hc
    rw [unroll_concat] at hn ⊢
    dsimp only at hn ⊢
    have hlen : ((unroll L).take c).length = c := by rw [length_take]; omega
    by_cases hnc : n < c
    · obtain ⟨j, l, hj, hl, hstart, hstop, hget⟩ := ih (show n < (unroll L).length by omega)
      refine ⟨j, l, .up hk hnc hj, hl, hstart, hstop, ?_⟩
      rw [getElem?_append_left (by omega), getElem?_take_of_lt hnc, hget]
    · -- the position lies after the cut, so the log owns it
      rw [length_append, hlen] at hn
      refine ⟨k, _, .refl, hk, Nat.not_lt.mp hnc, hn, ?_⟩
      rw [getElem?_append_right (by omega), hlen]
      rfl

/-- A history shows only own entries of the logs on its spine. -/
theorem mem_unroll {a : α} (h : a ∈ unroll L) : ∃ s ∈ L, a ∈ s.own := by
  induction L using reverseRecOn with
  | nil => cases h
  | append_singleton L s ih =>
    rw [unroll_concat] at h
    rcases mem_append.mp h with h | h
    · obtain ⟨t, ht, ha⟩ := ih (mem_of_mem_take h)
      exact ⟨t, mem_append_left _ ht, ha⟩
    · exact ⟨s, by simp, h⟩

/-- Names that no two own entries share are not repeated in any history. -/
theorem nodup_unroll {β : Type*} {name : α → β} (hown : ∀ {k l}, F.log k = some l → (l.own.map name).Nodup)
    (hother : ∀ {j k l m}, F.log j = some l → F.log k = some m → j ≠ k → ∀ a ∈ l.own, ∀ b ∈ m.own, name a ≠ name b)
    (hL : Spine F.log k L) : ((unroll L).map name).Nodup := by
  induction hL with
  | root hk =>
    rw [unroll_singleton]
    exact hown hk
  | @fork k p c own L hk hp ih =>
    have hnodup := (Spine.fork hk hp).nodup_keys
    rw [map_append, nodup_append'] at hnodup
    rw [unroll_concat, map_append, nodup_append', map_take]
    refine ⟨ih.sublist (take_sublist _ _), hown hk, ?_⟩
    intro x hx hx'
    obtain ⟨a, ha, rfl⟩ := mem_map.mp (mem_of_mem_take hx)
    obtain ⟨b, hb, hab⟩ := mem_map.mp hx'
    obtain ⟨s, hs, has⟩ := mem_unroll ha
    obtain ⟨l, -, hl, -, hls, -⟩ := hp.mem hs
    have hne : s.key ≠ k := by
      rintro rfl
      exact hnodup.2.2 (mem_map_of_mem hs) (by simp)
    exact hother hl hk hne a (hls ▸ has) b hb hab.symm

/-! ## Operations -/

variable [DecidableEq K] {L : List (Segment K α)} {F : CowForest K α} {log : K → Option (Log K α)}

theorem Spine.insert {k : K} (hk : log k = none) (l : Log K α) (h : Spine log j L) :
    Spine (update log k (some l)) j L := by
  have hne : ∀ {i : K} {m : Log K α}, log i = some m → i ≠ k := by rintro i m hi rfl; rw [hk] at hi; cases hi
  induction h with
  | root h => exact .root (by rw [update_of_ne (hne h)]; exact h)
  | fork h _ ih => exact .fork (by rw [update_of_ne (hne h)]; exact h) ih

/-- Add a log under a fresh key: a root, or a fork cut within a sound parent's history. -/
def insert (F : CowForest K α) (k : K) (l : Log K α) (fresh : F.log k = none)
    (cut : ∀ p n, l.parent = some (p, n) → ∃ L, Spine F.log p L ∧ Ordered L ∧ n ≤ (unroll L).length) :
    CowForest K α where
  log := Function.update F.log k (some l)
  cut := by
    intro j m p n hj hp
    have hcut : ∃ L, Spine F.log p L ∧ Ordered L ∧ n ≤ (unroll L).length := by
      by_cases hjk : j = k
      · subst hjk
        rw [Function.update_self] at hj; cases hj
        exact cut p n hp
      · rw [Function.update_of_ne hjk] at hj
        exact F.cut hj hp
    obtain ⟨L, hL, h⟩ := hcut
    exact ⟨L, hL.insert fresh l, h⟩

variable {l : Log K α}

theorem History.insert {k : K} (fresh) (cut) (hj : F.History j h) : (F.insert k l fresh cut).History j h := by
  obtain ⟨L, hL, rfl⟩ := hj
  exact ⟨L, hL.insert fresh l, rfl⟩

theorem Sound.insert {k : K} (fresh) (cut) (hj : F.Sound j) : (F.insert k l fresh cut).Sound j := by
  obtain ⟨L, hL, ho⟩ := hj
  exact ⟨L, hL.insert fresh l, ho⟩

/-- The table after appending `es` to the log of `k`. -/
def extendLog (log : K → Option (Log K α)) (k : K) (es : List α) : K → Option (Log K α) :=
  Function.update log k ((log k).map fun l => { l with own := l.own ++ es })

/-- The segment after the same append. -/
def Segment.extend (k : K) (es : List α) (s : Segment K α) : Segment K α :=
  { s with own := if s.key = k then s.own ++ es else s.own }

theorem Spine.extend (h : Spine log j L) (k : K) (es : List α) :
    Spine (extendLog log k es) j (L.map (Segment.extend k es)) := by
  have hlog : ∀ {i : K} {m : Log K α}, log i = some m →
      extendLog log k es i = some { m with own := if i = k then m.own ++ es else m.own } := by
    intro i m hi
    by_cases hik : i = k
    · subst hik; simp [extendLog, hi]
    · simp [extendLog, hi, hik]
  induction h with
  | root h => exact .root (hlog h)
  | fork h _ ih =>
    rw [map_append]
    exact .fork (hlog h) ih

theorem Ordered.extend (ho : Ordered L) (k : K) (es : List α) : Ordered (L.map (Segment.extend k es)) := by
  refine (isChain_map _).mpr (ho.imp fun s t h => ?_)
  refine ⟨h.1, h.2.trans ?_⟩
  simp only [Segment.stop, Segment.extend]
  split <;> simp

/-- Appending to `k` extends `k`'s history and no other: a cut made earlier still cuts the same entries. -/
theorem unroll_extend (F : CowForest K α) (k : K) (es : List α) (h : Spine F.log j L) :
    unroll (L.map (Segment.extend k es)) = unroll L ++ (if j = k then es else []) := by
  induction h with
  | root h => simp only [map_cons, map_nil, unroll_singleton, Segment.extend]; split <;> simp
  | @fork j p n own L h hp ih =>
    obtain ⟨M, hM, -, hn⟩ := F.cut h rfl
    rw [hM.functional hp] at hn
    rw [map_append, map_cons, map_nil, unroll_concat, unroll_concat, ih]
    rw [show (Segment.extend k es ⟨j, n, own⟩).start = n from rfl, take_append_of_le_length hn]
    simp only [Segment.extend]
    split <;> simp

/-- Append entries to a log. -/
def extend (F : CowForest K α) (k : K) (es : List α) : CowForest K α where
  log := extendLog F.log k es
  cut := by
    intro j m p n hj hp
    have hj' : ∃ m', F.log j = some m' ∧ m'.parent = some (p, n) := by
      by_cases hjk : j = k
      · subst hjk
        simp only [extendLog, Function.update_self, Option.map_eq_some_iff] at hj
        obtain ⟨m', hm', rfl⟩ := hj
        exact ⟨m', hm', hp⟩
      · exact ⟨m, by rwa [extendLog, Function.update_of_ne hjk] at hj, hp⟩
    obtain ⟨m', hm', hp'⟩ := hj'
    obtain ⟨L, hL, ho, hn⟩ := F.cut hm' hp'
    refine ⟨_, hL.extend k es, ho.extend k es, hn.trans ?_⟩
    rw [unroll_extend F k es hL]
    simp

theorem History.extend (hj : F.History j h) (k : K) (es : List α) :
    (F.extend k es).History j (h ++ if j = k then es else []) := by
  obtain ⟨L, hL, rfl⟩ := hj
  exact ⟨_, hL.extend k es, (unroll_extend F k es hL).symm⟩

theorem Sound.extend (hj : F.Sound j) (k : K) (es : List α) : (F.extend k es).Sound j := by
  obtain ⟨L, hL, ho⟩ := hj
  exact ⟨_, hL.extend k es, ho.extend k es⟩

theorem Spine.remove {k : K} (leaf : ∀ j l n, F.log j = some l → l.parent ≠ some (k, n)) (h : Spine F.log j L) (hj : j ≠ k) :
    Spine (update F.log k none) j L := by
  induction h with
  | root h => exact .root (by rw [update_of_ne hj]; exact h)
  | fork h _ ih =>
    exact .fork (by rw [update_of_ne hj]; exact h) (ih (by rintro rfl; exact leaf _ _ _ h rfl))

def remove (F : CowForest K α) (k : K) (leaf : ∀ j l n, F.log j = some l → l.parent ≠ some (k, n)) :
    CowForest K α where
  log := Function.update F.log k none
  cut := by
    intro j m p n hj hp
    have hjk : j ≠ k := by rintro rfl; simp at hj
    rw [Function.update_of_ne hjk] at hj
    obtain ⟨L, hL, h⟩ := F.cut hj hp
    exact ⟨L, hL.remove leaf (by rintro rfl; exact leaf _ _ _ hj hp), h⟩

theorem History.remove {k : K} (leaf) (hj : F.History j h) (hjk : j ≠ k) : (F.remove k leaf).History j h := by
  obtain ⟨L, hL, rfl⟩ := hj
  exact ⟨L, hL.remove leaf hjk, rfl⟩

/-! ## Growth -/

/-- What a forest without removals becomes: one log takes the entries, and a new log starts empty from
a cut of an old one. -/
structure Grows (F F' : CowForest K α) (k : K) (es : List α) : Prop where
  history : ∀ {j h}, F.History j h → F'.History j (h ++ if j = k then es else [])
  sound : ∀ {j}, F.Sound j → F'.Sound j
  back : ∀ {j h}, F'.History j h → (∃ h₀, F.History j h₀ ∧ h = h₀ ++ if j = k then es else []) ∨
    h = [] ∨ ∃ p h₀ n, F.History p h₀ ∧ h = h₀.take n

theorem Grows.refl (F : CowForest K α) (k : K) : F.Grows F k [] where
  history hj := by simpa using hj
  sound := id
  back hj := .inl ⟨_, hj, by simp⟩

/-- A new log without entries of its own. -/
theorem Grows.insert {k : K} (fresh) (cut) (hown : l.own = []) (k' : K) : F.Grows (F.insert k l fresh cut) k' [] where
  history hj := by simpa using hj.insert fresh cut
  sound hj := hj.insert fresh cut
  back := by
    intro j h hj
    by_cases hjk : j = k
    · subst hjk
      have hlog : (F.insert j l fresh cut).log j = some l := update_self ..
      obtain ⟨parent, own⟩ := l
      subst hown
      cases parent with
      | none => exact .inr (.inl (hj.functional (History.root hlog)))
      | some c =>
        obtain ⟨p, n⟩ := c
        obtain ⟨L, hL, -⟩ := cut p n rfl
        have hp : F.History p (unroll L) := ⟨L, hL, rfl⟩
        have hfork := hj.functional (History.fork hlog (hp.insert fresh cut))
        exact .inr (.inr ⟨p, unroll L, n, hp, by simpa using hfork⟩)
    · obtain ⟨m, hm⟩ := hj.log
      have hm : F.log j = some m := (update_of_ne hjk ..).symm.trans hm
      obtain ⟨h₀, h₀j⟩ := exists_history hm
      exact .inl ⟨h₀, h₀j, by simpa using hj.functional (h₀j.insert fresh cut)⟩

/-- Entries at the end of a log. -/
theorem Grows.extend (F : CowForest K α) (k : K) (es : List α) : F.Grows (F.extend k es) k es where
  history hj := hj.extend k es
  sound hj := hj.extend k es
  back := by
    intro j h hj
    obtain ⟨m, hm⟩ := hj.log
    have hlog : ∃ l, F.log j = some l := by
      by_cases hjk : j = k
      · subst hjk
        simp only [CowForest.extend, extendLog, update_self, Option.map_eq_some_iff] at hm
        obtain ⟨l, hl, -⟩ := hm
        exact ⟨l, hl⟩
      · exact ⟨m, (update_of_ne hjk ..).symm.trans hm⟩
    obtain ⟨l, hl⟩ := hlog
    obtain ⟨h₀, h₀j⟩ := exists_history hl
    exact .inl ⟨h₀, h₀j, hj.functional (h₀j.extend k es)⟩

/-- What holds of every history, of its prefixes and of the grown one, holds of every history afterwards. -/
theorem Grows.forall_history {F' : CowForest K α} {k : K} {es : List α} (hg : F.Grows F' k es) {P : List α → Prop}
    (hnil : P []) (htake : ∀ {h}, P h → ∀ n, P (h.take n)) (hF : ∀ {j h}, F.History j h → P h)
    (hes : ∀ {h}, F.History k h → P (h ++ es)) (hj : F'.History j h) : P h := by
  rcases hg.back hj with ⟨h₀, h₀j, rfl⟩ | rfl | ⟨p, h₀, n, hp, rfl⟩
  · split_ifs with hjk
    · subst hjk
      exact hes h₀j
    · rw [append_nil]
      exact hF h₀j
  · exact hnil
  · exact htake (hF hp) n

end CowForest
