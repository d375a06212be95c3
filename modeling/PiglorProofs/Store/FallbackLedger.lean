/-
The ledger of a scope on a Timeline: rows in sequence, one state revision each, consecutive activation
ordinals, and at most one row for each declared policy and for each closed tenure. Each commit adds
the row that follows.
-/
import PiglorProofs.Lib.Numbered
import PiglorProofs.Store.FallbackRegistry

namespace Piglor

open List

def FallbackLedgerRowV1.activationOrdinal (row : FallbackLedgerRowV1) : Option Nat :=
  match row.body with
  | .declaration _ => none
  | .activation _ _ ordinal _ => some ordinal

/-- What the ledger of a stored row satisfies. -/
structure Ledgered (entity : EntityId) (state : FallbackRegistryStateV1) (ledger : List FallbackLedgerRowV1) : Prop where
  entities : ∀ row ∈ ledger, row.entity = entity
  seqs : NumberedFrom FallbackLedgerRowV1.rowSeq 0 ledger
  revisions : ledger.IsChain fun a b => b.stateRevision = a.stateRevision + 1
  last : ∀ row ∈ ledger.getLast?, row.stateRevision = state.stateRevision
  length : ledger.length ≤ state.stateRevision
  ordinals : (ledger.filterMap FallbackLedgerRowV1.activationOrdinal).IsChain fun a b => b = a + 1
  lastOrdinal : ∀ ordinal ∈ (ledger.filterMap FallbackLedgerRowV1.activationOrdinal).getLast?,
    ordinal = state.activationOrdinal
  declarations : ∀ digest, ledger.countP (fun row => row.declares digest) ≤ 1
  closings : ∀ key closing, ledger.countP (fun row => row.closes key closing) ≤ 1

theorem Ledgered.nil (entity : EntityId) (state : FallbackRegistryStateV1) : Ledgered entity state [] where
  entities _ h := by cases h
  seqs := trivial
  revisions := .nil
  last _ h := by cases h
  length := Nat.zero_le _
  ordinals := .nil
  lastOrdinal _ h := by cases h
  declarations _ := Nat.zero_le _
  closings _ _ := Nat.zero_le _

/-- The row follows the ledger: the next sequence number and revision, and nothing it would repeat. -/
structure Follows (entity : EntityId) (state state' : FallbackRegistryStateV1) (ledger : List FallbackLedgerRowV1)
    (row : FallbackLedgerRowV1) : Prop where
  entity : row.entity = entity
  seq : row.rowSeq = ledger.length + 1
  revision : row.stateRevision = state.stateRevision + 1
  revision' : state'.stateRevision = state.stateRevision + 1
  ordinal : ∀ ordinal ∈ row.activationOrdinal, ordinal = state.activationOrdinal + 1 ∧ state'.activationOrdinal = ordinal
  ordinal' : row.activationOrdinal = none → state'.activationOrdinal = state.activationOrdinal
  declares : ∀ digest, row.declares digest = true → ledger.find? (fun row => row.declares digest) = none
  closes : ∀ key closing, row.closes key closing = true → ledger.find? (fun row => row.closes key closing) = none

theorem countP_concat_le_one {α : Type} {p : α → Bool} {l : List α} {a : α} (hl : l.countP p ≤ 1)
    (ha : p a = true → l.find? p = none) : (l ++ [a]).countP p ≤ 1 := by
  rw [countP_append, countP_singleton]
  split_ifs with hp
  · have hnone : l.countP p = 0 := countP_eq_zero.mpr fun b hb => by
      simpa using find?_eq_none.mp (ha hp) b hb
    omega
  · exact hl

theorem isChain_concat {α : Type} {r : α → α → Prop} {l : List α} {a : α} (hl : l.IsChain r)
    (ha : ∀ b ∈ l.getLast?, r b a) : (l ++ [a]).IsChain r := by
  refine isChain_append.mpr ⟨hl, isChain_singleton a, fun b hb c hc => ?_⟩
  cases (Option.mem_some_iff.mp hc)
  exact ha b hb

theorem Ledgered.concat {entity : EntityId} {state state' : FallbackRegistryStateV1} {ledger : List FallbackLedgerRowV1}
    {row : FallbackLedgerRowV1} (h : Ledgered entity state ledger) (hrow : Follows entity state state' ledger row) :
    Ledgered entity state' (ledger ++ [row]) where
  entities r hr := by
    rcases mem_append.mp hr with hr | hr
    · exact h.entities r hr
    · rw [mem_singleton.mp hr]
      exact hrow.entity
  seqs := NumberedFrom.append_iff.mpr ⟨h.seqs, by rw [Nat.zero_add]; exact ⟨hrow.seq, trivial⟩⟩
  revisions := isChain_concat h.revisions fun b hb => by rw [hrow.revision, h.last b hb]
  last r hr := by
    rw [getLast?_concat] at hr
    cases (Option.mem_some_iff.mp hr)
    rw [hrow.revision, hrow.revision']
  length := by
    have := h.length
    rw [length_append, length_singleton, hrow.revision']
    omega
  ordinals := by
    rw [filterMap_append]
    cases hordinal : row.activationOrdinal with
    | none => simpa [hordinal] using h.ordinals
    | some ordinal =>
      have hnext := (hrow.ordinal ordinal hordinal).1
      simp only [filterMap_cons, hordinal, filterMap_nil]
      exact isChain_concat h.ordinals fun b hb => by rw [hnext, h.lastOrdinal b hb]
  lastOrdinal := by
    rw [filterMap_append]
    cases hordinal : row.activationOrdinal with
    | none =>
      rw [hrow.ordinal' hordinal]
      simpa [hordinal] using h.lastOrdinal
    | some ordinal =>
      simp only [filterMap_cons, hordinal, filterMap_nil, getLast?_concat]
      intro o ho
      cases (Option.mem_some_iff.mp ho)
      exact (hrow.ordinal ordinal hordinal).2.symm
  declarations digest := countP_concat_le_one (h.declarations digest) (hrow.declares digest)
  closings key closing := countP_concat_le_one (h.closings key closing) (hrow.closes key closing)

end Piglor
