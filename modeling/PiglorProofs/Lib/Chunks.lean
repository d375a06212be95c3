/-
A list cut into consecutive blocks of a fixed size, the last of which may be short: the blocks put
together are the list, every block but the last is full, and blocks of blocks are the larger blocks.
-/
import Mathlib.Data.List.Basic
import Mathlib.Data.List.Flatten
import Mathlib.Tactic.Ring

namespace Chunks

open List

variable {α β : Type} {size : Nat}

/-- The blocks of a list, in order. -/
def chunks (size : Nat) (xs : List α) : List (List α) :=
  (List.range ((xs.length + (size - 1)) / size)).map fun i => (xs.drop (size * i)).take size

theorem length_chunks (size : Nat) (xs : List α) : (chunks size xs).length = (xs.length + (size - 1)) / size := by
  simp [chunks]

@[simp] theorem chunks_nil (size : Nat) : chunks size ([] : List α) = [] := by
  rcases Nat.eq_zero_or_pos size with rfl | hsize
  · simp [chunks]
  · have hcount : (0 + (size - 1)) / size = 0 := Nat.div_eq_of_lt (by omega)
    rw [chunks, length_nil, hcount]
    rfl

variable {xs block : List α}

/-- The first block, and the blocks of the rest. -/
theorem chunks_of_ne_nil (hsize : 0 < size) (hxs : xs ≠ []) :
    chunks size xs = xs.take size :: chunks size (xs.drop size) := by
  have hlength : 0 < xs.length := length_pos_iff.mpr hxs
  have hcount : (xs.length + (size - 1)) / size = ((xs.drop size).length + (size - 1)) / size + 1 := by
    rw [length_drop, ← Nat.add_div_right _ hsize]
    rcases Nat.lt_or_ge xs.length size with hlt | hge
    · rw [Nat.sub_eq_zero_of_le hlt.le]
      rw [show xs.length + (size - 1) = (xs.length - 1) + size by omega, Nat.add_div_right _ hsize,
        Nat.add_div_right _ hsize, Nat.div_eq_of_lt (by omega), Nat.div_eq_of_lt (by omega)]
    · congr 1
      omega
  rw [chunks, hcount, range_succ_eq_map, map_cons, map_map, Nat.mul_zero, drop_zero, chunks]
  refine congrArg _ (map_congr_left fun i _ => ?_)
  rw [Function.comp_apply, drop_drop, Nat.mul_succ, Nat.add_comm]

/-- Induction along the blocks of a list. -/
theorem induction {motive : List α → Prop} (hsize : 0 < size) (nil : motive [])
    (step : ∀ xs, xs ≠ [] → motive (xs.drop size) → motive xs) (xs : List α) : motive xs := by
  by_cases hxs : xs = []
  · exact hxs ▸ nil
  · have hlength : 0 < xs.length := length_pos_iff.mpr hxs
    exact step xs hxs (induction hsize nil step (xs.drop size))
termination_by xs.length
decreasing_by
  rw [List.length_drop]
  omega

theorem flatten_chunks (hsize : 0 < size) (xs : List α) : (chunks size xs).flatten = xs := by
  induction xs using induction hsize with
  | nil => simp
  | step xs hxs ih => rw [chunks_of_ne_nil hsize hxs, flatten_cons, ih, take_append_drop]

theorem ne_nil_of_mem (hsize : 0 < size) (h : block ∈ chunks size xs) : block ≠ [] := by
  induction xs using induction hsize with
  | nil => simp at h
  | step xs hxs ih =>
    rw [chunks_of_ne_nil hsize hxs] at h
    rcases mem_cons.mp h with rfl | h
    · rw [Ne, take_eq_nil_iff]
      exact not_or_intro hsize.ne' hxs
    · exact ih h

theorem length_le_of_mem (h : block ∈ chunks size xs) : block.length ≤ size := by
  obtain ⟨i, -, rfl⟩ := mem_map.mp h
  exact length_take_le _ _

theorem sublist_of_mem (h : block ∈ chunks size xs) : block.Sublist xs := by
  obtain ⟨i, -, rfl⟩ := mem_map.mp h
  exact (take_sublist _ _).trans (drop_sublist _ _)

theorem length_pos_of_ne_nil (hsize : 0 < size) (hxs : xs ≠ []) : 0 < (chunks size xs).length := by
  rw [chunks_of_ne_nil hsize hxs]
  exact Nat.succ_pos _

variable {count : Nat}

/-- A list of at most `count` full blocks has at most `count` blocks. -/
theorem length_chunks_le (hsize : 0 < size) (h : xs.length ≤ size * count) : (chunks size xs).length ≤ count := by
  rw [length_chunks]
  refine Nat.le_of_lt_succ ((Nat.div_lt_iff_lt_mul hsize).mpr ?_)
  rw [Nat.succ_mul, Nat.mul_comm count]
  omega

/-- A list that fits into one block is its only block. -/
theorem chunks_of_length_le (hsize : 0 < size) (hxs : xs ≠ []) (h : xs.length ≤ size) : chunks size xs = [xs] := by
  rw [chunks_of_ne_nil hsize hxs, take_of_length_le h, drop_of_length_le h, chunks_nil]

theorem length_of_not_last (hsize : 0 < size) {i : Nat} (h : (chunks size xs)[i]? = some block)
    (hi : i + 1 < (chunks size xs).length) : block.length = size := by
  rw [length_chunks] at hi
  rw [chunks, getElem?_map, getElem?_range (by omega), Option.map_some, Option.some_inj] at h
  have hcount : (i + 2) * size ≤ xs.length + (size - 1) := (Nat.le_div_iff_mul_le hsize).mp hi
  rw [← h, length_take, length_drop, Nat.min_eq_left]
  have hexpand : (i + 2) * size = size * i + 2 * size := by ring
  omega

theorem chunks_map (f : α → β) (xs : List α) : chunks size (xs.map f) = (chunks size xs).map (map f) := by
  simp [chunks, map_take, map_drop]

/-- A list is the first elements of its blocks of one. -/
theorem map_headI_chunks_one [Inhabited α] (xs : List α) : (chunks 1 xs).map headI = xs := by
  induction xs with
  | nil => simp
  | cons x xs ih =>
    rw [chunks_of_ne_nil Nat.one_pos (cons_ne_nil x xs), map_cons, drop_one, tail_cons, ih]
    rfl

/-! ## Blocks of blocks -/

theorem take_chunks (hsize : 0 < size) (count : Nat) (xs : List α) :
    (chunks size xs).take count = chunks size (xs.take (size * count)) := by
  induction count generalizing xs with
  | zero => simp
  | succ count ih =>
    by_cases hxs : xs = []
    · simp [hxs]
    have htake : xs.take (size * (count + 1)) ≠ [] := by
      rw [Ne, take_eq_nil_iff]
      exact not_or_intro (Nat.mul_pos hsize count.succ_pos).ne' hxs
    rw [chunks_of_ne_nil hsize hxs, chunks_of_ne_nil hsize htake, take_succ_cons, ih, take_take,
      drop_take, Nat.min_eq_left (Nat.le_mul_of_pos_right size count.succ_pos),
      show size * (count + 1) - size = size * count by rw [Nat.mul_succ]; omega]

theorem drop_chunks (hsize : 0 < size) (count : Nat) (xs : List α) :
    (chunks size xs).drop count = chunks size (xs.drop (size * count)) := by
  induction count generalizing xs with
  | zero => simp
  | succ count ih =>
    by_cases hxs : xs = []
    · simp [hxs]
    rw [chunks_of_ne_nil hsize hxs, drop_succ_cons, ih, drop_drop, Nat.mul_succ, Nat.add_comm]

/-- Blocks put together in blocks are the blocks of the larger blocks. -/
theorem chunks_chunks (hsize : 0 < size) (hcount : 0 < count) (xs : List α) :
    chunks count (chunks size xs) = (chunks (size * count) xs).map (chunks size) := by
  have hpos : 0 < size * count := Nat.mul_pos hsize hcount
  induction xs using induction hpos with
  | nil => simp
  | step xs hxs ih =>
    have hblocks : chunks size xs ≠ [] := ne_nil_of_length_pos (length_pos_of_ne_nil hsize hxs)
    rw [chunks_of_ne_nil hcount hblocks, chunks_of_ne_nil hpos hxs, map_cons, take_chunks hsize,
      drop_chunks hsize, ih]

theorem mem_chunks_of_mem (hsize : 0 < size) (hcount : 0 < count) {part : List α}
    (hblock : block ∈ chunks (size * count) xs) (hpart : part ∈ chunks size block) : part ∈ chunks size xs := by
  have hmem : chunks size block ∈ chunks count (chunks size xs) := by
    rw [chunks_chunks hsize hcount]
    exact mem_map_of_mem hblock
  exact (sublist_of_mem hmem).mem hpart

/-! ## The ends -/

theorem headI_mem [Inhabited α] (hxs : xs ≠ []) : xs.headI ∈ xs := by
  cases xs with
  | nil => exact absurd rfl hxs
  | cons x xs => exact mem_cons_self

theorem headI_map [Inhabited α] [Inhabited β] (f : α → β) (hxs : xs ≠ []) : (xs.map f).headI = f xs.headI := by
  cases xs with
  | nil => exact absurd rfl hxs
  | cons x xs => rfl

theorem getLastI_eq_getLast [Inhabited α] (hxs : xs ≠ []) : xs.getLastI = xs.getLast hxs := by
  rw [getLastI_eq_getLast?_getD, getLast?_eq_some_getLast hxs, Option.getD_some]

theorem getLastI_map [Inhabited α] [Inhabited β] (f : α → β) (hxs : xs ≠ []) : (xs.map f).getLastI = f xs.getLastI := by
  rw [getLastI_eq_getLast hxs, getLastI_eq_getLast (mt map_eq_nil_iff.mp hxs), getLast_map]

theorem getLastI_append [Inhabited α] (xs : List α) {ys : List α} (hys : ys ≠ []) :
    (xs ++ ys).getLastI = ys.getLastI := by
  rw [getLastI_eq_getLast?_getD, getLastI_eq_getLast?_getD, getLast?_append_of_ne_nil _ hys]

theorem headI_headI_chunks [Inhabited α] (hsize : 0 < size) (hxs : xs ≠ []) : (chunks size xs).headI.headI = xs.headI := by
  rw [chunks_of_ne_nil hsize hxs]
  cases xs with
  | nil => exact absurd rfl hxs
  | cons x xs =>
    obtain ⟨size, rfl⟩ : ∃ k, size = k + 1 := ⟨size - 1, by omega⟩
    rfl

theorem getLastI_getLastI_chunks [Inhabited α] (hsize : 0 < size) (hxs : xs ≠ []) :
    (chunks size xs).getLastI.getLastI = xs.getLastI := by
  induction xs using induction hsize with
  | nil => exact absurd rfl hxs
  | step xs _ ih =>
    rw [chunks_of_ne_nil hsize hxs]
    by_cases hdrop : xs.drop size = []
    · rw [hdrop, chunks_nil]
      show (xs.take size).getLastI = xs.getLastI
      rw [take_of_length_le (drop_eq_nil_iff.mp hdrop)]
    · have hrest : chunks size (xs.drop size) ≠ [] := ne_nil_of_length_pos (length_pos_of_ne_nil hsize hdrop)
      calc (xs.take size :: chunks size (xs.drop size)).getLastI.getLastI
          = (chunks size (xs.drop size)).getLastI.getLastI := by rw [← singleton_append, getLastI_append _ hrest]
        _ = (xs.drop size).getLastI := ih hdrop
        _ = (xs.take size ++ xs.drop size).getLastI := (getLastI_append _ hdrop).symm
        _ = xs.getLastI := by rw [take_append_drop]

end Chunks
