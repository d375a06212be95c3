/-
A search that takes the first match of an iteration over an unordered collection. When only some of the
matches are good, whether it meets a good one depends on the order.
-/
import Mathlib.Data.Multiset.Basic

namespace FirstMatch

variable {α : Type*} {m : Multiset α} {p : α → Bool} {good : α → Prop}

/-- The first match answers whether a good one exists, in every order, exactly when one good match makes all matches good. -/
theorem decided_iff (hgood : ∀ a, good a → a ∈ m ∧ p a = true) :
    (∀ rows : List α, (rows : Multiset α) = m → ((∃ a, rows.find? p = some a ∧ good a) ↔ ∃ a, good a)) ↔
      ((∃ a, good a) → ∀ a ∈ m, p a = true → good a) := by
  constructor
  · intro hdecided hex a ha hmatch
    -- an order that meets this match first
    obtain ⟨rest, rfl⟩ := Multiset.exists_cons_of_mem ha
    obtain ⟨rows, rfl⟩ := Quotient.exists_rep rest
    obtain ⟨found, hfound, hfoundgood⟩ := (hdecided (a :: rows) rfl).mpr hex
    rw [List.find?_cons_of_pos hmatch] at hfound
    exact Option.some.inj hfound ▸ hfoundgood
  · rintro hall rows rfl
    constructor
    · rintro ⟨a, -, ha⟩
      exact ⟨a, ha⟩
    · rintro ⟨a, ha⟩
      obtain ⟨b, hb⟩ := Option.isSome_iff_exists.mp (List.find?_isSome.mpr ⟨a, hgood a ha⟩)
      exact ⟨b, hb, hall ⟨a, ha⟩ b (List.mem_of_find?_eq_some hb) (List.find?_some hb)⟩

end FirstMatch
