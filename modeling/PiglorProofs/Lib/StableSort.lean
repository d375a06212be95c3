/-
Insertion sort by a total preorder commutes with selecting elements: what is selected of a sorted
list is the selection, sorted. In particular a selection that is already in order is kept as it is.
-/
import Mathlib.Data.List.Sort

namespace List

variable {α : Type*} {r : α → α → Prop} [DecidableRel r]

theorem filter_orderedInsert [IsTrans α r] (p : α → Bool) (a : α) : ∀ {l : List α}, l.Pairwise r →
    (l.orderedInsert r a).filter p = if p a then (l.filter p).orderedInsert r a else l.filter p
  | [], _ => by by_cases ha : p a <;> simp [ha]
  | b :: l, h => by
    obtain ⟨hb, hl⟩ := pairwise_cons.mp h
    by_cases hab : r a b
    · -- `a` goes to the front, and precedes every selected element
      have hfront : ∀ c ∈ (b :: l).filter p, r a c := by
        intro c hc
        rcases mem_cons.mp (mem_of_mem_filter hc) with rfl | hc
        · exact hab
        · exact IsTrans.trans a b c hab (hb c hc)
      rw [orderedInsert_cons, if_pos hab]
      by_cases ha : p a
      · rw [filter_cons_of_pos ha, if_pos ha]
        cases hf : (b :: l).filter p with
        | nil => rfl
        | cons c rest => rw [orderedInsert_cons, if_pos (hfront c (by rw [hf]; exact mem_cons_self))]
      · rw [filter_cons_of_neg ha, if_neg ha]
    · have ih := filter_orderedInsert p a hl
      rw [orderedInsert_cons, if_neg hab]
      by_cases hpb : p b
      · rw [filter_cons_of_pos hpb, filter_cons_of_pos hpb, ih]
        split
        · rw [orderedInsert_cons, if_neg hab]
        · rfl
      · rw [filter_cons_of_neg hpb, filter_cons_of_neg hpb, ih]

theorem filter_insertionSort [IsTrans α r] [Std.Total r] (p : α → Bool) : ∀ l : List α,
    (l.insertionSort r).filter p = (l.filter p).insertionSort r
  | [] => rfl
  | a :: l => by
    rw [insertionSort_cons, filter_orderedInsert p a (pairwise_insertionSort r l), filter_insertionSort p l]
    by_cases ha : p a
    · rw [if_pos ha, filter_cons_of_pos ha, insertionSort_cons]
    · rw [if_neg ha, filter_cons_of_neg ha]

end List
