/-
Lists whose elements carry their own position. A log numbers its entries `k + 1, k + 2, …`; a
reader that selects entries by number then selects a contiguous piece of the list.
-/
import Mathlib.Data.List.Sort
import Mathlib.Data.List.TakeDrop
import Mathlib.Data.List.TakeWhile

variable {α : Type*}

/-- The entries are numbered consecutively from `k + 1`. -/
def NumberedFrom (f : α → Nat) : Nat → List α → Prop
  | _, [] => True
  | k, a :: l => f a = k + 1 ∧ NumberedFrom f (k + 1) l

namespace NumberedFrom

open List

variable {f : α → Nat}

instance decidable (f : α → Nat) : ∀ (k : Nat) (l : List α), Decidable (NumberedFrom f k l)
  | _, [] => .isTrue trivial
  | k, a :: l =>
    have := decidable f (k + 1) l
    inferInstanceAs (Decidable (f a = k + 1 ∧ NumberedFrom f (k + 1) l))

theorem append_iff : ∀ {k : Nat} {l m : List α},
    NumberedFrom f k (l ++ m) ↔ NumberedFrom f k l ∧ NumberedFrom f (k + l.length) m
  | k, [], m => by simp [NumberedFrom]
  | k, a :: l, m => by
    simp only [cons_append, NumberedFrom, append_iff, length_cons, and_assoc]
    rw [show k + 1 + l.length = k + (l.length + 1) by omega]

variable {k : Nat} {l : List α}

theorem take (h : NumberedFrom f k l) (n : Nat) : NumberedFrom f k (l.take n) := by
  rw [← take_append_drop n l, append_iff] at h
  exact h.1

theorem drop {n : Nat} (h : NumberedFrom f k l) (hn : n ≤ l.length) : NumberedFrom f (k + n) (l.drop n) := by
  rw [← take_append_drop n l, append_iff, length_take, Nat.min_eq_left hn] at h
  exact h.2

theorem map_iff {β : Type*} {g : β → α} : ∀ {k : Nat} {l : List β},
    NumberedFrom f k (l.map g) ↔ NumberedFrom (fun b => f (g b)) k l
  | _, [] => Iff.rfl
  | _, _ :: _ => and_congr Iff.rfl map_iff

theorem map_eq : ∀ {k : Nat} {l : List α}, NumberedFrom f k l → l.map f = range' (k + 1) l.length
  | _, [], _ => rfl
  | _, _ :: _, h => by rw [map_cons, h.1, map_eq h.2, length_cons, range'_succ]

theorem foldl_last : ∀ {k : Nat} {l : List α}, NumberedFrom f k l → l.foldl (fun _ a => f a) k = k + l.length
  | k, [], _ => by simp
  | k, a :: l, h => by
    rw [foldl_cons, h.1, foldl_last h.2, length_cons]
    omega

theorem apply : ∀ {k : Nat} {l : List α}, NumberedFrom f k l → ∀ (i : Nat) (hi : i < l.length), f l[i] = k + i + 1
  | k, a :: l, h, 0, _ => by simpa using h.1
  | k, a :: l, h, i + 1, hi => by
    have := apply h.2 i (by simpa using hi)
    rw [getElem_cons_succ, this]
    omega

/-- The numbers lie between the start and the end of the list. -/
theorem bounds (h : NumberedFrom f k l) {a : α} (ha : a ∈ l) : k < f a ∧ f a ≤ k + l.length := by
  obtain ⟨i, hi, rfl⟩ := getElem_of_mem ha
  have := h.apply i hi
  omega

theorem pairwise_lt : ∀ {k : Nat} {l : List α}, NumberedFrom f k l → l.Pairwise fun a b => f a < f b
  | _, [], _ => .nil
  | k, a :: l, h => by
    refine .cons ?_ (pairwise_lt h.2)
    intro b hb
    rw [h.1]
    exact (bounds h.2 hb).1

variable (h : NumberedFrom f k l)

include h

/-- Numbers identify the entries of a list. -/
theorem inj {a b : α} (ha : a ∈ l) (hb : b ∈ l) (hab : f a = f b) : a = b := by
  obtain ⟨i, hi, rfl⟩ := getElem_of_mem ha
  obtain ⟨j, hj, rfl⟩ := getElem_of_mem hb
  rw [h.apply i hi, h.apply j hj] at hab
  obtain rfl : i = j := by omega
  rfl

/-- Sorting any order of a numbered list by number gives the list. -/
theorem insertionSort_eq {l' : List α} (hp : l'.Perm l) :
    l'.insertionSort (fun a b => f a ≤ f b) = l := by
  have hperm : (l'.insertionSort fun a b => f a ≤ f b).Perm l := (perm_insertionSort _ _).trans hp
  refine hperm.eq_of_pairwise ?_ (pairwise_insertionSort _ _) (h.pairwise_lt.imp Nat.le_of_lt)
  intro a b ha hb hab hba
  exact h.inj (hperm.mem_iff.mp ha) hb (Nat.le_antisymm hab hba)

/-- The first `n` entries are those numbered up to `k + n`. -/
theorem split (n : Nat) : (∀ a ∈ l.take n, f a ≤ k + n) ∧ ∀ a ∈ l.drop n, k + n < f a := by
  constructor
  · intro a ha
    have hbounds := (h.take n).bounds ha
    rw [length_take] at hbounds
    omega
  · intro a ha
    have hn : n < l.length := Nat.lt_of_sub_pos (by simpa using length_pos_of_mem ha)
    exact ((h.drop hn.le).bounds ha).1

theorem filter_le (n : Nat) : l.filter (fun a => decide (f a ≤ k + n)) = l.take n := by
  obtain ⟨htake, hdrop⟩ := h.split n
  nth_rewrite 1 [← take_append_drop n l]
  rw [filter_append, filter_eq_self.mpr (by simpa using htake), filter_eq_nil_iff.mpr (by simpa using hdrop), append_nil]

theorem filter_ge (n : Nat) : l.filter (fun a => decide (k + n < f a)) = l.drop n := by
  obtain ⟨htake, hdrop⟩ := h.split n
  nth_rewrite 1 [← take_append_drop n l]
  rw [filter_append, filter_eq_nil_iff.mpr (by simpa using htake), filter_eq_self.mpr (by simpa using hdrop), nil_append]

theorem takeWhile_le (n : Nat) : l.takeWhile (fun a => decide (f a ≤ k + n)) = l.take n := by
  obtain ⟨htake, hdrop⟩ := h.split n
  nth_rewrite 1 [← take_append_drop n l]
  rw [takeWhile_append_of_pos (by simpa using htake), takeWhile_eq_nil_iff.mpr, append_nil]
  intro hpos
  simpa using hdrop _ (getElem_mem hpos)

theorem dropWhile_lt (n : Nat) : l.dropWhile (fun a => decide (f a < k + n + 1)) = l.drop n := by
  obtain ⟨htake, hdrop⟩ := h.split n
  nth_rewrite 1 [← take_append_drop n l]
  rw [dropWhile_append_of_pos (by simpa [Nat.lt_succ_iff] using htake), dropWhile_eq_self_iff]
  intro hpos
  simpa [Nat.succ_le_iff] using hdrop _ (getElem_mem hpos)

/-- Selecting a range of numbers selects a contiguous piece. -/
theorem filter_range {lo hi : Nat} :
    l.filter (fun a => decide (lo ≤ f a) && decide (f a ≤ hi)) = (l.take (hi - k)).drop (lo - (k + 1)) := by
  have hle : l.filter (fun a => decide (f a ≤ hi)) = l.take (hi - k) := by
    rw [← h.filter_le (hi - k)]
    refine filter_congr fun a ha => ?_
    have := h.bounds ha
    simp only [decide_eq_decide]
    omega
  rw [← filter_filter, hle, ← (h.take (hi - k)).filter_ge (lo - (k + 1))]
  refine filter_congr fun a ha => ?_
  have := h.bounds (mem_of_mem_take ha)
  simp only [decide_eq_decide]
  omega

end NumberedFrom
