/-
Search by layers: from a start set, each layer holds the successors of the one before that are not
visited yet. What the visited set holds when a layer is empty is what is reachable, whatever the
relation, and on a finite universe an empty layer comes.
-/
import Mathlib.Data.Set.Basic

namespace Layers

variable {α : Type} {R : α → α → Prop} {start visited layer next : Set α}

/-- What is reachable from a start set, the start included. -/
def Reach (R : α → α → Prop) (start : Set α) : Set α := {b | ∃ a ∈ start, Relation.ReflTransGen R a b}

/-- The search between two layers: nothing unreachable is visited, and only the last layer may have
successors that are not. -/
structure Search (R : α → α → Prop) (start visited layer : Set α) : Prop where
  started : start ⊆ visited
  pending : layer ⊆ visited
  sound : visited ⊆ Reach R start
  closed : ∀ ⦃a⦄, a ∈ visited → a ∉ layer → ∀ ⦃b⦄, R a b → b ∈ visited

theorem Search.init (R : α → α → Prop) (start : Set α) : Search R start start start where
  started := fun _ h => h
  pending := fun _ h => h
  sound := fun a ha => ⟨a, ha, .refl⟩
  closed := fun _ ha hna => absurd ha hna

theorem Search.step (h : Search R start visited layer)
    (hnext : ∀ b, b ∈ next ↔ b ∉ visited ∧ ∃ a ∈ layer, R a b) : Search R start (visited ∪ next) next where
  started := fun _ ha => .inl (h.started ha)
  pending := fun _ ha => .inr ha
  sound := by
    rintro b (hb | hb)
    · exact h.sound hb
    · obtain ⟨-, a, ha, hab⟩ := (hnext b).mp hb
      obtain ⟨c, hc, hca⟩ := h.sound (h.pending ha)
      exact ⟨c, hc, hca.tail hab⟩
  closed := by
    rintro a (ha | ha) hna b hab
    · by_cases hb : b ∈ visited
      · exact .inl hb
      · by_cases hlayer : a ∈ layer
        · exact .inr ((hnext b).mpr ⟨hb, a, hlayer, hab⟩)
        · exact .inl (h.closed ha hlayer hab)
    · exact absurd ha hna

theorem Search.complete (h : Search R start visited layer) (hempty : ∀ a, a ∉ layer) : visited = Reach R start := by
  refine Set.Subset.antisymm h.sound ?_
  rintro b ⟨a, ha, hab⟩
  induction hab with
  | refl => exact h.started ha
  | tail _ hbc ih => exact h.closed ih (hempty _) hbc

end Layers
