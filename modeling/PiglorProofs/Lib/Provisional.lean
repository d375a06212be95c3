/-
A number that holders lower for a while. Each hold remembers the value it put in place and the value it
found; releasing a hold puts the found value back only when its own value still stands. The holds of one
number are listed newest first.
-/
import Mathlib.Order.Basic

namespace Provisional

structure Hold where
  pending : Nat
  previous : Nat

/-- Holds that were taken one below the other. -/
def Stacked : Nat → List Hold → Prop
  | _, [] => True
  | value, hold :: rest => value ≤ hold.pending ∧ hold.pending < hold.previous ∧ Stacked hold.previous rest

/-- What releasing every hold leaves, newest first. -/
def settle : Nat → List Hold → Nat
  | value, [] => value
  | value, hold :: rest => settle (if value = hold.pending then hold.previous else value) rest

variable {value lower : Nat} {hold : Hold} {rest : List Hold}

theorem Stacked.mono : ∀ {holds : List Hold}, lower ≤ value → Stacked value holds → Stacked lower holds
  | [], _, _ => trivial
  | _ :: _, hle, ⟨hfirst, hgap, hrest⟩ => ⟨Nat.le_trans hle hfirst, hgap, hrest⟩

/-- Below every hold nothing is put back. -/
theorem settle_of_lt : ∀ {holds : List Hold} {bound : Nat}, value < bound → Stacked bound holds → settle value holds = value
  | [], _, _, _ => rfl
  | hold :: rest, bound, hlt, ⟨hfirst, hgap, hrest⟩ => by
    have hpending : value < hold.pending := Nat.lt_of_lt_of_le hlt hfirst
    rw [settle, if_neg (Nat.ne_of_lt hpending)]
    exact settle_of_lt (Nat.lt_trans hpending hgap) hrest

theorem le_settle : ∀ {holds : List Hold} {value : Nat}, Stacked value holds → value ≤ settle value holds
  | [], _, _ => Nat.le_refl _
  | hold :: rest, value, ⟨hfirst, hgap, hrest⟩ => by
    have hle : value ≤ hold.previous := Nat.le_of_lt (Nat.lt_of_le_of_lt hfirst hgap)
    rw [settle]
    split
    · exact Nat.le_trans hle (le_settle hrest)
    · exact le_settle (hrest.mono hle)

/-- A lower number settles no higher. -/
theorem settle_mono : ∀ {holds : List Hold} {value lower : Nat}, lower ≤ value → Stacked value holds →
    settle lower holds ≤ settle value holds := by
  intro holds value lower hle hstacked
  rcases Nat.lt_or_eq_of_le hle with hlt | rfl
  · rw [settle_of_lt hlt hstacked]
    exact Nat.le_trans hle (le_settle hstacked)
  · exact Nat.le_refl _

/-- Taking a hold below the value keeps what settles. -/
theorem stacked_take {pending : Nat} (hlt : pending < value) (hstacked : Stacked value rest) :
    Stacked pending (⟨pending, value⟩ :: rest) ∧ settle pending (⟨pending, value⟩ :: rest) = settle value rest :=
  ⟨⟨Nat.le_refl _, hlt, hstacked⟩, by rw [settle, if_pos rfl]⟩

/-- Forgetting a hold puts back no more than before. -/
theorem stacked_forget : ∀ {newer : List Hold} {value : Nat}, Stacked value (newer ++ hold :: rest) →
    Stacked value (newer ++ rest) ∧ settle value (newer ++ rest) ≤ settle value (newer ++ hold :: rest)
  | [], value, ⟨hfirst, hgap, hrest⟩ => by
    have hle : value ≤ hold.previous := Nat.le_of_lt (Nat.lt_of_le_of_lt hfirst hgap)
    refine ⟨hrest.mono hle, ?_⟩
    rw [List.nil_append, List.nil_append, settle]
    split
    · exact settle_mono hle hrest
    · exact Nat.le_refl _
  | first :: newer, value, ⟨hfirst, hgap, hrest⟩ => by
    obtain ⟨hstacked, hsettle⟩ := stacked_forget hrest
    refine ⟨⟨hfirst, hgap, hstacked⟩, ?_⟩
    rw [List.cons_append, List.cons_append, settle, settle]
    split
    · exact hsettle
    · have hlt : value < first.previous := Nat.lt_of_le_of_lt hfirst hgap
      exact Nat.le_of_eq ((settle_of_lt hlt hstacked).trans (settle_of_lt hlt hrest).symm)

theorem newest_of_standing : ∀ {newer : List Hold} {value : Nat}, Stacked value (newer ++ hold :: rest) →
    value = hold.pending → newer = []
  | [], _, _, _ => rfl
  | first :: newer, value, ⟨hfirst, hgap, hrest⟩, hvalue => by
    have hbelow : ∀ {newer : List Hold} {bound : Nat}, Stacked bound (newer ++ hold :: rest) → bound ≤ hold.pending := by
      intro newer
      induction newer with
      | nil => exact fun h => h.1
      | cons other newer ih =>
        exact fun ⟨h, hlt, hstacked⟩ => Nat.le_trans (Nat.le_of_lt (Nat.lt_of_le_of_lt h hlt)) (ih hstacked)
    have := hbelow hrest
    omega

/-- Putting a value between the hold's own and the one it found in place of a standing hold. -/
theorem stacked_replace {between : Nat} (hle : between ≤ hold.previous) (hstanding : value = hold.pending)
    (hstacked : Stacked value (hold :: rest)) :
    Stacked between rest ∧ settle between rest ≤ settle value (hold :: rest) := by
  refine ⟨hstacked.2.2.mono hle, ?_⟩
  rw [settle, if_pos hstanding]
  exact settle_mono hle hstacked.2.2

end Provisional
