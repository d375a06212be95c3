/-
Peeling checked computations in `Except`: inversion of a bind, of an early exit and of a monadic
fold or traversal, so that proofs about fallible code never unfold the monad.
-/
import Mathlib.Data.List.Forall2

namespace Checked

open List

universe u v

variable {ε : Type u} {α β : Type v}

@[simp] theorem ok_bind (a : α) (f : α → Except ε β) : ((Except.ok a : Except ε α) >>= f) = f a := rfl

@[simp] theorem error_bind (e : ε) (f : α → Except ε β) : ((Except.error e : Except ε α) >>= f) = .error e := rfl

variable {x : Except ε α} {b : β}

theorem bind_eq_ok {f : α → Except ε β} : (x >>= f) = .ok b ↔ ∃ a, x = .ok a ∧ f a = .ok b := by
  cases x with
  | error e => simp
  | ok a => simp

/-- A check passed, and what follows it gave the result. -/
theorem of_check {x : Except ε PUnit} {f : PUnit → Except ε β} (h : (x >>= f) = .ok b) : f ⟨⟩ = .ok b :=
  let ⟨_, _, hrest⟩ := bind_eq_ok.mp h
  hrest

variable {e : ε}

theorem bind_eq_error {f : α → Except ε β} : (x >>= f) = .error e ↔ x = .error e ∨ ∃ a, x = .ok a ∧ f a = .error e := by
  cases x with
  | error e => simp
  | ok a => simp

/-- A result is either a value or an error. -/
theorem ok_or_error (x : Except ε α) : (∃ a, x = .ok a) ∨ ∃ e, x = .error e := by
  cases x with
  | error e => exact .inr ⟨e, rfl⟩
  | ok a => exact .inl ⟨a, rfl⟩

theorem unit_ok_or_error (x : Except ε Unit) : x = .ok () ∨ ∃ e, x = .error e := by
  rcases ok_or_error x with ⟨⟨⟩, h⟩ | h
  · exact .inl h
  · exact .inr h

/-- Fail when a condition holds. -/
def refuseIf (condition : Prop) [Decidable condition] (e : ε) : Except ε Unit := if condition then .error e else .ok ()

variable {condition : Prop}

theorem refuseIf_pos [Decidable condition] (h : condition) : refuseIf condition e = .error e :=
  if_pos h

theorem refuseIf_neg [Decidable condition] (h : ¬ condition) : refuseIf condition e = .ok () :=
  if_neg h

/-- A guard passed: it did not hold, and the rest gave the result. -/
theorem guard_eq_ok [Decidable condition] {a : α} :
    (if condition then .error e else x) = .ok a ↔ ¬ condition ∧ x = .ok a := by
  split <;> simp [*]

theorem refuseIf_eq_ok [Decidable condition] : refuseIf condition e = .ok () ↔ ¬ condition := by
  unfold refuseIf
  split <;> simp [*]

variable {f g : β → α → Except ε β}

/-- Two folds agree when their steps agree on the elements folded over. -/
theorem foldlM_congr : ∀ (l : List α) (b : β), (∀ a ∈ l, ∀ b, f b a = g b a) → l.foldlM f b = l.foldlM g b
  | [], _, _ => rfl
  | x :: l, b, h => by
    rw [foldlM_cons, foldlM_cons, h x mem_cons_self]
    exact congrArg _ (funext fun b' => foldlM_congr l b' fun a ha => h a (mem_cons_of_mem _ ha))

/-- What a failing fold gives on a list it gives from what it gives on the front. -/
theorem foldlM_append_eq_ok {l m : List α} {c : β} :
    (l ++ m).foldlM f b = .ok c ↔ ∃ d, l.foldlM f b = .ok d ∧ m.foldlM f d = .ok c := by
  rw [foldlM_append, bind_eq_ok]

/-- What every step keeps, counting the steps, a fold keeps. -/
theorem foldlM_invariant {P : Nat → β → Prop}
    (hstep : ∀ {n b a c}, P n b → f b a = .ok c → P (n + 1) c) : ∀ {l : List α} {n : Nat} {b c : β}, P n b →
    l.foldlM f b = .ok c → P (n + l.length) c
  | [], n, b, c, hb, h => by
    cases h
    exact hb
  | a :: l, n, b, c, hb, h => by
    rw [foldlM_cons, bind_eq_ok] at h
    obtain ⟨d, hd, h⟩ := h
    have hc := foldlM_invariant hstep (hstep hb hd) h
    rwa [length_cons, ← Nat.add_assoc, Nat.add_right_comm]

/-- A fold whose steps the other one takes as well. -/
theorem foldlM_mono (h : ∀ {b a c}, f b a = .ok c → g b a = .ok c) :
    ∀ {l : List α} {b c : β}, l.foldlM f b = .ok c → l.foldlM g b = .ok c
  | [], _, _, hl => hl
  | a :: l, b, c, hl => by
    rw [foldlM_cons, bind_eq_ok] at hl ⊢
    obtain ⟨d, hd, hl⟩ := hl
    exact ⟨d, h hd, foldlM_mono h hl⟩

/-- Two folds over the positions of one list agree when their turns agree at each position. -/
theorem foldlM_zipIdx_congr {σ γ δ : Type v} {φ : σ → γ} {ψ : σ → δ} {f : β → γ × Nat → Except ε β}
    {g : β → δ × Nat → Except ε β} {l : List σ}
    (h : ∀ pre x post, l = pre ++ x :: post → ∀ b, f b (φ x, pre.length) = g b (ψ x, pre.length)) :
    ∀ (post pre : List σ) (b : β), l = pre ++ post →
      ((post.map φ).zipIdx pre.length).foldlM f b = ((post.map ψ).zipIdx pre.length).foldlM g b
  | [], _, _, _ => rfl
  | x :: post, pre, b, hl => by
    have ih := fun b' => foldlM_zipIdx_congr h post (pre ++ [x]) b' (by simp [hl])
    simp only [length_append, length_singleton] at ih
    rw [map_cons, map_cons, zipIdx_cons, zipIdx_cons, foldlM_cons, foldlM_cons,
      h pre x post hl b]
    exact congrArg _ (funext ih)

theorem forM_eq_ok {f : α → Except ε PUnit} : ∀ {l : List α}, l.forM f = .ok ⟨⟩ ↔ ∀ a ∈ l, f a = .ok ⟨⟩
  | [] => by simp [List.forM, pure, Except.pure]
  | a :: l => by
    rw [List.forM, bind_eq_ok]
    constructor
    · rintro ⟨⟨⟩, ha, hl⟩ b hb
      rcases mem_cons.mp hb with rfl | hb
      · exact ha
      · exact forM_eq_ok.mp hl b hb
    · intro h
      exact ⟨⟨⟩, h a mem_cons_self, forM_eq_ok.mpr fun b hb => h b (mem_cons_of_mem _ hb)⟩

theorem mapM_eq_ok {f : α → Except ε β} : ∀ {l : List α} {r : List β},
    l.mapM f = .ok r ↔ Forall₂ (fun a b => f a = .ok b) l r
  | [], r => by
    rw [mapM_nil]
    constructor
    · intro h
      cases h
      exact .nil
    · rintro ⟨⟩
      rfl
  | a :: l, r => by
    rw [mapM_cons, bind_eq_ok]
    simp only [bind_eq_ok, mapM_eq_ok]
    constructor
    · rintro ⟨b, hb, r', hr', h⟩
      cases h
      exact .cons hb hr'
    · intro h
      cases h with
      | cons hb hr' => exact ⟨_, hb, _, hr', rfl⟩

theorem map_eq_ok {f : α → β} : x.map f = .ok b ↔ ∃ a, x = .ok a ∧ f a = b := by
  cases x with
  | error e => simp [Except.map]
  | ok a => simp [Except.map]

theorem mapError_eq_ok {ε' : Type u} {f : ε → ε'} {a : α} : x.mapError f = .ok a ↔ x = .ok a := by
  cases x with
  | error e => simp [Except.mapError]
  | ok a => simp [Except.mapError]

end Checked
