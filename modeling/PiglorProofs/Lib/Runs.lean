/-
Runs of a state machine given as a function from a state and a call to the next state and a reply: the
log of a run, what an invariant of the calls gives along it, what holds from one entry on, and two machines
of which one simulates the other.
-/
import Mathlib.Data.List.Forall2

namespace Runs

open List

variable {σ α ρ : Type} {exec : σ → α → σ × ρ}

/-- One call of a run: the state it finds, its reply and the state it leaves. -/
structure Entry (σ α ρ : Type) where
  before : σ
  call : α
  reply : ρ
  after : σ

/-- The state at the end of a run. -/
def final (exec : σ → α → σ × ρ) : σ → List α → σ
  | s, [] => s
  | s, a :: rest => final exec (exec s a).1 rest

/-- The calls of a run with the states between them. -/
def log (exec : σ → α → σ × ρ) : σ → List α → List (Entry σ α ρ)
  | _, [] => []
  | s, a :: rest => ⟨s, a, (exec s a).2, (exec s a).1⟩ :: log exec (exec s a).1 rest

theorem final_append (s : σ) : ∀ (first later : List α), final exec s (first ++ later) =
    final exec (final exec s first) later := by
  intro first
  induction first generalizing s with
  | nil => exact fun _ => rfl
  | cons a first ih => exact fun later => ih (exec s a).1 later

theorem log_append (s : σ) : ∀ (first later : List α),
    log exec s (first ++ later) = log exec s first ++ log exec (final exec s first) later := by
  intro first
  induction first generalizing s with
  | nil => exact fun _ => rfl
  | cons a first ih => exact fun later => congrArg _ (ih (exec s a).1 later)

/-- The last call of a run is logged from the state the others leave. -/
theorem mem_log_last (s : σ) (first : List α) (a : α) :
    ⟨final exec s first, a, (exec (final exec s first) a).2, (exec (final exec s first) a).1⟩ ∈ log exec s (first ++ [a]) := by
  rw [log_append]
  exact mem_append_right _ mem_cons_self

/-- The entry of one call. -/
def entry (exec : σ → α → σ × ρ) (s : σ) (a : α) : Entry σ α ρ := ⟨s, a, (exec s a).2, (exec s a).1⟩

/-- The log of a run around two of its calls. -/
theorem log_around (s : σ) (first : List α) (a : α) (between : List α) (b : α) :
    log exec s (first ++ a :: (between ++ [b])) = log exec s first ++ entry exec (final exec s first) a ::
      (log exec (entry exec (final exec s first) a).after between ++
        [entry exec (final exec (entry exec (final exec s first) a).after between) b]) := by
  rw [log_append]
  exact congrArg (fun rest => _ ++ _ :: rest) (log_append (exec (final exec s first) a).1 between [b])

variable {e : Entry σ α ρ}

theorem exec_of_mem_log : ∀ {calls : List α} {s : σ}, e ∈ log exec s calls →
    exec e.before e.call = (e.after, e.reply)
  | _ :: _, _, he => by
    rcases mem_cons.mp he with rfl | he
    · rfl
    · exact exec_of_mem_log he

/-- An entry of a log cuts the run in two: the calls before it and the calls after it. -/
theorem log_eq_append : ∀ {calls : List α} {s : σ} {before after : List (Entry σ α ρ)},
    log exec s calls = before ++ e :: after → ∃ first rest, before = log exec s first ∧ e.before = final exec s first ∧
      exec e.before e.call = (e.after, e.reply) ∧ after = log exec e.after rest
  | [], _, _, _, h => absurd h.symm (append_ne_nil_of_right_ne_nil _ (cons_ne_nil _ _))
  | _ :: calls, _, [], _, h => by
    obtain ⟨rfl, rfl⟩ := cons.inj h
    exact ⟨[], calls, rfl, rfl, rfl, rfl⟩
  | a :: _, _, _ :: _, _, h => by
    obtain ⟨hhead, htail⟩ := cons.inj h
    obtain ⟨first, rest, hfirst, hbefore, hexec, hafter⟩ := log_eq_append htail
    exact ⟨a :: first, rest, congrArg₂ cons hhead.symm hfirst, hbefore, hexec, hafter⟩

variable {I : σ → Prop}

/-- An invariant that every call keeps holds all along a run. -/
theorem invariant (hstep : ∀ s a, I s → I (exec s a).1) : ∀ {calls : List α} {s : σ}, I s →
    (∀ e ∈ log exec s calls, I e.before ∧ I e.after) ∧ I (final exec s calls)
  | [], _, hs => ⟨fun _ he => absurd he not_mem_nil, hs⟩
  | a :: _, s, hs => by
    obtain ⟨hlog, hfinal⟩ := invariant hstep (hstep s a hs)
    exact ⟨forall_mem_cons.mpr ⟨⟨hs, hstep s a hs⟩, hlog⟩, hfinal⟩

/-- A transitive relation that every call from a state of the invariant keeps relates each state to every later one. -/
theorem related {R : σ → σ → Prop} (hrefl : ∀ s, R s s) (htrans : ∀ {a b c}, R a b → R b c → R a c)
    (hstep : ∀ s a, I s → I (exec s a).1 ∧ R s (exec s a).1) : ∀ {calls : List α} {s : σ}, I s →
      (∀ e ∈ log exec s calls, R s e.before ∧ R s e.after) ∧
        (log exec s calls).Pairwise (fun e f => R e.after f.before ∧ R e.after f.after) ∧ R s (final exec s calls)
  | [], _, _ => ⟨fun _ he => absurd he not_mem_nil, .nil, hrefl _⟩
  | a :: _, s, hs => by
    obtain ⟨hinv, hrel⟩ := hstep s a hs
    obtain ⟨hlog, hpairs, hfinal⟩ := related hrefl htrans hstep hinv
    refine ⟨forall_mem_cons.mpr ⟨⟨hrefl s, hrel⟩, fun e he => ?_⟩, pairwise_cons.mpr ⟨hlog, hpairs⟩,
      htrans hrel hfinal⟩
    exact ⟨htrans hrel (hlog e he).1, htrans hrel (hlog e he).2⟩

variable {τ : Type} {exec' : τ → α → τ × ρ}

/-- Entries of two machines for one call, with one reply and related states. -/
structure Simulates (R : σ → τ → Prop) (e : Entry σ α ρ) (f : Entry τ α ρ) : Prop where
  call : e.call = f.call
  reply : e.reply = f.reply
  before : R e.before f.before
  after : R e.after f.after

/-- Two machines whose related states stay related, with one reply, under every call that the calls ahead
allow run alike. -/
theorem simulation {R : σ → τ → Prop} {P : τ → List α → Prop}
    (hstep : ∀ s t a rest, R s t → P t (a :: rest) →
      (exec s a).2 = (exec' t a).2 ∧ R (exec s a).1 (exec' t a).1 ∧ P (exec' t a).1 rest) :
    ∀ {calls : List α} {s : σ} {t : τ}, R s t → P t calls →
      Forall₂ (Simulates R) (log exec s calls) (log exec' t calls)
  | [], _, _, _, _ => .nil
  | a :: rest, s, t, hR, hP => by
    obtain ⟨hreply, hR', hP'⟩ := hstep s t a rest hR hP
    exact .cons ⟨rfl, hreply, hR, hR'⟩ (simulation hstep hR' hP')

variable {β γ : Type} {S : β → γ → Prop}

theorem exists_of_forall₂ {b : β} : ∀ {l : List β} {m : List γ}, Forall₂ S l m → b ∈ l → ∃ c ∈ m, S b c
  | _, _, .cons hS hrest, hb => by
    rcases mem_cons.mp hb with rfl | hb
    · exact ⟨_, mem_cons_self, hS⟩
    · obtain ⟨c, hc, hS'⟩ := exists_of_forall₂ hrest hb
      exact ⟨c, mem_cons_of_mem _ hc, hS'⟩

/-- Two logs with a common simulated one. -/
theorem forall₂_of_common {δ : Type} {S : β → δ → Prop} {S' : γ → δ → Prop} {T : β → γ → Prop}
    (h : ∀ b c d, S b d → S' c d → T b c) :
    ∀ {l : List β} {m : List γ} {n : List δ}, Forall₂ S l n → Forall₂ S' m n → Forall₂ T l m
  | _, _, _, .nil, .nil => .nil
  | _, _, _, .cons hS hrest, .cons hS' hrest' => .cons (h _ _ _ hS hS') (forall₂_of_common h hrest hrest')

/-- What holds of every two entries of one log holds of the entries that simulate them. -/
theorem pairwise_of_forall₂ {Q : γ → γ → Prop} {Q' : β → β → Prop}
    (h : ∀ e f e' f', S e e' → S f f' → Q e' f' → Q' e f) :
    ∀ {l : List β} {m : List γ}, Forall₂ S l m → m.Pairwise Q → l.Pairwise Q'
  | _, _, .nil, _ => .nil
  | _, _, .cons he hrest, hpairs => by
    obtain ⟨hfirst, hpairs⟩ := pairwise_cons.mp hpairs
    refine pairwise_cons.mpr ⟨fun f hf => ?_, pairwise_of_forall₂ h hrest hpairs⟩
    obtain ⟨f', hf', hS⟩ := exists_of_forall₂ hrest hf
    exact h _ f _ f' he hS (hfirst f' hf')

end Runs
