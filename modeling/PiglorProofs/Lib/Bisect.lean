/-
Bisection of a list: the partition point of a predicate that holds of a first part only, the search
of a sorted list by a comparison, and the segment of a sorted list at one key.
-/
import Mathlib.Data.List.TakeWhile
import PiglorProofs.Lib.Ascending

namespace Bisect

open List Option

variable {α κ : Type} {p : α → Bool}

/-- Halve `[lo, hi)` until it is empty; `p` holds below `lo` and fails from `hi` on. -/
def loop (p : α → Bool) (xs : List α) : Nat → Nat → Nat → Nat
  | 0, lo, _ => lo
  | fuel + 1, lo, hi =>
    if lo < hi then
      let mid := (lo + hi) / 2
      if xs[mid]?.any p then loop p xs fuel (mid + 1) hi else loop p xs fuel lo mid
    else lo

/-- The first position at which `p` fails. -/
def partitionPoint (p : α → Bool) (xs : List α) : Nat := loop p xs xs.length 0 xs.length

/-- The position of an element that compares equal. -/
def binarySearchBy (c : α → Ordering) (xs : List α) : Option Nat :=
  let position := partitionPoint (fun a => decide (c a = .lt)) xs
  if xs[position]?.any (fun a => decide (c a = .eq)) then some position else none

/-- The element of a list at one key, found by bisection. -/
def search [LinearOrder κ] (key : α → κ) (k : κ) (xs : List α) : Option α :=
  (binarySearchBy (fun a => cmp (key a) k) xs).bind fun position => xs[position]?

/-- The elements at one key of a sorted list, found by bisection. -/
def segment [LinearOrder κ] (key : α → κ) (k : κ) (xs : List α) : List α :=
  (xs.drop (partitionPoint (fun a => decide (key a < k)) xs)).takeWhile fun a => decide (key a = k)

variable {xs : List α}

theorem loop_eq {point : Nat} (hp : ∀ i a, xs[i]? = some a → (p a = true ↔ i < point))
    (hpoint : point ≤ xs.length) : ∀ (fuel lo hi : Nat), lo ≤ point → point ≤ hi → hi ≤ xs.length → hi - lo ≤ fuel →
      loop p xs fuel lo hi = point
  | 0, lo, hi, hlo, hhi, _, hfuel => by
    rw [loop]
    omega
  | fuel + 1, lo, hi, hlo, hhi, hlen, hfuel => by
    rw [loop]
    split
    · rename_i hlt
      obtain ⟨a, ha⟩ : ∃ a, xs[(lo + hi) / 2]? = some a :=
        ⟨_, getElem?_eq_getElem (show (lo + hi) / 2 < xs.length by omega)⟩
      have hmid := hp _ a ha
      simp only [ha, any_some]
      split
      · rename_i hpa
        exact loop_eq hp hpoint fuel _ _ (hmid.mp hpa) hhi hlen (by omega)
      · rename_i hpa
        have hle : point ≤ (lo + hi) / 2 := Nat.le_of_not_lt fun h => hpa (hmid.mpr h)
        exact loop_eq hp hpoint fuel _ _ hlo hle (by omega) (by omega)
    · omega

variable {l r : List α}

/-- On a list that `p` splits in two, the partition point is where the second part begins. -/
theorem partitionPoint_append (hl : ∀ a ∈ l, p a = true) (hr : ∀ a ∈ r, p a = false) :
    partitionPoint p (l ++ r) = l.length := by
  refine loop_eq (fun i a ha => ?_) (by simp) _ _ _ (Nat.zero_le _) (by simp) (le_refl _) (by simp)
  rcases Nat.lt_or_ge i l.length with hi | hi
  · rw [getElem?_append_left hi] at ha
    exact ⟨fun _ => hi, fun _ => hl a (mem_of_getElem? ha)⟩
  · rw [getElem?_append_right hi] at ha
    have hpa := hr a (mem_of_getElem? ha)
    exact ⟨fun h => absurd (hpa.symm.trans h) Bool.false_ne_true, fun h => absurd h (Nat.not_lt_of_ge hi)⟩

variable [LinearOrder κ] {key : α → κ}

/-- A sorted list splits at every key. -/
theorem exists_split (h : xs.Pairwise fun a b => key a ≤ key b) (k : κ) :
    ∃ l r, xs = l ++ r ∧ (∀ a ∈ l, key a < k) ∧ (∀ a ∈ r, k ≤ key a) ∧ r.Pairwise fun a b => key a ≤ key b := by
  induction xs with
  | nil => exact ⟨[], [], rfl, by simp, by simp, Pairwise.nil⟩
  | cons a xs ih =>
    obtain ⟨ha, hxs⟩ := pairwise_cons.mp h
    rcases lt_or_ge (key a) k with hlt | hge
    · obtain ⟨l, r, rfl, hl, hr, hsorted⟩ := ih hxs
      refine ⟨a :: l, r, rfl, ?_, hr, hsorted⟩
      exact forall_mem_cons.mpr ⟨hlt, hl⟩
    · refine ⟨[], a :: xs, rfl, by simp, ?_, h⟩
      exact forall_mem_cons.mpr ⟨hge, fun b hb => hge.trans (ha b hb)⟩

variable {k : κ}

theorem drop_partitionPoint (hl : ∀ a ∈ l, key a < k) (hr : ∀ a ∈ r, k ≤ key a) :
    (l ++ r).drop (partitionPoint (fun a => decide (key a < k)) (l ++ r)) = r := by
  rw [partitionPoint_append (fun a ha => decide_eq_true (hl a ha))
    (fun a ha => decide_eq_false (not_lt.mpr (hr a ha)))]
  exact drop_left

variable {a : α}

theorem mem_segment (h : xs.Pairwise fun a b => key a ≤ key b) : a ∈ segment key k xs ↔ a ∈ xs ∧ key a = k := by
  obtain ⟨l, r, rfl, hl, hr, hsorted⟩ := exists_split h k
  have hright : a ∈ r.takeWhile (fun a => decide (key a = k)) ↔ a ∈ r ∧ key a = k := by
    clear h hl
    induction r with
    | nil => simp
    | cons b r ih =>
      obtain ⟨hb, hr'⟩ := forall_mem_cons.mp hr
      obtain ⟨hle, hsorted'⟩ := pairwise_cons.mp hsorted
      by_cases hkey : key b = k
      · rw [takeWhile_cons, if_pos (decide_eq_true hkey), mem_cons, mem_cons, ih hr' hsorted']
        constructor
        · rintro (rfl | ⟨ha, hk⟩)
          · exact ⟨.inl rfl, hkey⟩
          · exact ⟨.inr ha, hk⟩
        · rintro ⟨rfl | ha, hk⟩
          · exact .inl rfl
          · exact .inr ⟨ha, hk⟩
      · -- every later key is above `k` once one is
        rw [takeWhile_cons, if_neg (by simpa using hkey)]
        have hlt : k < key b := lt_of_le_of_ne hb (Ne.symm hkey)
        constructor
        · exact fun ha => absurd ha not_mem_nil
        · rintro ⟨ha, hk⟩
          rcases mem_cons.mp ha with rfl | ha
          · exact absurd hk hkey
          · exact absurd hk (hlt.trans_le (hle a ha)).ne'
  rw [segment, drop_partitionPoint hl hr, hright, mem_append]
  refine ⟨fun ⟨ha, hk⟩ => ⟨.inr ha, hk⟩, ?_⟩
  rintro ⟨ha | ha, hk⟩
  · exact absurd hk (hl a ha).ne
  · exact ⟨ha, hk⟩

/-- A search of a sorted list succeeds exactly when the key is there. -/
theorem binarySearchBy_isSome (h : xs.Pairwise fun a b => key a ≤ key b) :
    (binarySearchBy (fun a => cmp (key a) k) xs).isSome = true ↔ ∃ a ∈ xs, key a = k := by
  obtain ⟨l, r, rfl, hl, hr, hsorted⟩ := exists_split h k
  have hpoint : partitionPoint (fun a => decide (cmp (key a) k = .lt)) (l ++ r) = l.length :=
    partitionPoint_append (fun a ha => decide_eq_true ((cmp_eq_lt_iff _ _).mpr (hl a ha)))
      (fun a ha => decide_eq_false fun hlt => (not_lt.mpr (hr a ha)) ((cmp_eq_lt_iff _ _).mp hlt))
  have hmem : (∃ a ∈ l ++ r, key a = k) ↔ ∃ b, r.head? = some b ∧ key b = k := by
    constructor
    · rintro ⟨a, ha, hk⟩
      rcases mem_append.mp ha with ha | ha
      · exact absurd hk (hl a ha).ne
      · cases r with
        | nil => cases ha
        | cons b r =>
          refine ⟨b, rfl, le_antisymm ?_ (hr b mem_cons_self)⟩
          rcases mem_cons.mp ha with rfl | ha
          · exact hk.le
          · exact hk ▸ (pairwise_cons.mp hsorted).1 a ha
    · rintro ⟨b, hb, hk⟩
      exact ⟨b, mem_append_right _ (mem_of_mem_head? hb), hk⟩
  rw [hmem]
  unfold binarySearchBy
  dsimp only
  rw [hpoint, getElem?_append_right (le_refl l.length), Nat.sub_self, ← head?_eq_getElem?]
  rcases r.head? with _ | b
  · refine iff_of_false Bool.false_ne_true ?_
    rintro ⟨c, hc, -⟩
    cases hc
  · by_cases hk : key b = k
    · have hcmp : cmp (key b) k = .eq := (cmp_eq_eq_iff _ _).mpr hk
      refine iff_of_true ?_ ⟨b, rfl, hk⟩
      rw [any_some, if_pos (decide_eq_true hcmp)]
      rfl
    · have hcmp : ¬ cmp (key b) k = .eq := fun heq => hk ((cmp_eq_eq_iff _ _).mp heq)
      refine iff_of_false ?_ ?_
      · rw [any_some, if_neg fun h => hcmp (of_decide_eq_true h)]
        exact Bool.false_ne_true
      · rintro ⟨c, hc, hkey⟩
        exact hk (some.inj hc ▸ hkey)

theorem getElem?_of_binarySearchBy {position : Nat}
    (h : binarySearchBy (fun a => cmp (key a) k) xs = some position) : ∃ a, xs[position]? = some a ∧ key a = k := by
  obtain ⟨hany, hposition⟩ := ite_none_right_eq_some.mp h
  cases hposition
  obtain ⟨a, ha, hcmp⟩ := (any_eq_true _ _).mp hany
  exact ⟨a, ha, (cmp_eq_eq_iff _ _).mp (of_decide_eq_true hcmp)⟩

/-- In a strictly ascending list the search finds the one element at a key. -/
theorem search_eq_some (h : Ascending.Strict key xs) : search key k xs = some a ↔ a ∈ xs ∧ key a = k := by
  have hsorted : xs.Pairwise fun a b => key a ≤ key b := h.imp fun hlt => hlt.le
  constructor
  · intro hsearch
    obtain ⟨position, hposition, ha⟩ := bind_eq_some_iff.mp hsearch
    obtain ⟨b, hb, hkey⟩ := getElem?_of_binarySearchBy hposition
    obtain rfl : b = a := some.inj (hb.symm.trans ha)
    exact ⟨mem_of_getElem? hb, hkey⟩
  · rintro ⟨ha, hkey⟩
    obtain ⟨position, hposition⟩ := isSome_iff_exists.mp ((binarySearchBy_isSome hsorted).mpr ⟨a, ha, hkey⟩)
    obtain ⟨b, hb, hkey'⟩ := getElem?_of_binarySearchBy hposition
    obtain rfl := h.key_inj (mem_of_getElem? hb) ha (hkey'.trans hkey.symm)
    rw [search, hposition]
    exact hb

end Bisect
