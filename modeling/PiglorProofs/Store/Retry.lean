/-
The lifetime of retry records (memory.rs, sqlite.rs and sqlite/pipeline_admission.rs): the purge of
expired append identities, and the cleanup of a revoked subject's scope, which takes append
identities and admitted-batch receipts together. The SQLite adapter's cleanup is modelled on the
same two tables, so that the two can be compared.
-/
import PiglorProofs.Store.State
import Mathlib.Data.PNat.Basic
import Mathlib.Data.Prod.Lex

namespace Piglor

open Table

/-- The two retry tables a scope's cleanup works on. -/
structure RetryTables where
  appendIdentities : Table AppendDedupKey AppendIdentityRecord
  pipelineAdmissionReceipts : Table AppendDedupKey PipelineReceiptRecordV1

namespace RetryTables

variable (tables : RetryTables) (scope : AppendDedupScope)

/-- A scope's records in both tables, by expiry and then key: the order cleanup takes them in. -/
def matching : List (WallTime ×ₗ AppendDedupKey) :=
  Table.sorted
    (Table.rows (fun _ r => decide (r.scope = scope)) (fun k r => toLex (r.expiresAt, k)) tables.appendIdentities +
      Table.rows (fun _ r => decide (r.scope = scope)) (fun k r => toLex (r.expiresAt, k))
        tables.pipelineAdmissionReceipts)

def selected (limit : Nat) : List AppendDedupKey :=
  ((tables.matching scope).take limit).map fun row => (ofLex row).2

/-- The memory adapter removes a selected key from both tables. -/
def removeKeys (keys : List AppendDedupKey) : RetryTables :=
  ⟨Table.eraseAll keys tables.appendIdentities, Table.eraseAll keys tables.pipelineAdmissionReceipts⟩

/-- SQLite's `DELETE … WHERE scope_key = ?1 AND dedup_key = ?2`, on both tables. -/
def deleteScopedIdentity (key : AppendDedupKey) : RetryTables :=
  ⟨Table.retain (fun k r => !decide (r.scope = scope ∧ k = key)) tables.appendIdentities,
    Table.retain (fun k r => !decide (r.scope = scope ∧ k = key)) tables.pipelineAdmissionReceipts⟩

/-- Some record of the scope is left. -/
def holdsScope : Bool :=
  tables.appendIdentities.any (fun _ r => decide (r.scope = scope)) ||
    tables.pipelineAdmissionReceipts.any (fun _ r => decide (r.scope = scope))

end RetryTables

/-! ## The memory adapter -/

namespace MemoryStore

variable (s : MemoryStore)

def retryTables : RetryTables := ⟨s.appendIdentities, s.pipelineAdmissionReceipts⟩

def setRetryTables (tables : RetryTables) : MemoryStore :=
  { s with
    appendIdentities := tables.appendIdentities
    pipelineAdmissionReceipts := tables.pipelineAdmissionReceipts }

/-- Delete every append identity that has expired at `now`, and count them. -/
def purgeExpiredAppendIdentities (now : WallTime) : Effect Nat :=
  let retained := Table.retain (fun _ r => decide (r.expiresAt > now)) s.appendIdentities
  (.ok (s.appendIdentities.keys.card - retained.keys.card), { s with appendIdentities := retained })

/-- Delete at most `limit` expired append identities, oldest first. -/
def purgeExpiredAppendIdentitiesBounded (clock : CoreResult WallTime) (limit : ℕ+) : Effect PurgeOutcome :=
  s.after clock fun now =>
  let expired := Table.sorted
    (Table.rows (fun _ r => decide (r.expiresAt ≤ now)) (fun k r => toLex (r.expiresAt, k)) s.appendIdentities)
  let removed := min expired.length limit
  (.ok ⟨removed, decide (expired.length > limit)⟩,
    { s with appendIdentities := Table.eraseAll ((expired.take removed).map fun row => (ofLex row).2) s.appendIdentities })

/-- Remove a scope's append identities. The receipts of the scope stay. -/
def removeAppendIdentities (scope : AppendDedupScope) : Effect Nat :=
  let retained := Table.retain (fun _ r => decide (r.scope ≠ scope)) s.appendIdentities
  (.ok (s.appendIdentities.keys.card - retained.keys.card),
    { s with
      appendIdentities := retained
      pendingAppendIdentityCleanup := s.pendingAppendIdentityCleanup.filter fun p => decide (p ≠ scope) })

/-- Remove at most `limit` records of a scope, and remember the scope while more may remain. -/
def removeAppendIdentitiesBounded (scope : AppendDedupScope) (limit : ℕ+) : Effect PurgeOutcome :=
  let matching := s.retryTables.matching scope
  -- counted before the removal, and a key in both tables counts twice
  let moreMayRemain := decide (matching.length > limit)
  let removed := min matching.length limit
  let pending :=
    if moreMayRemain then
      if scope ∈ s.pendingAppendIdentityCleanup then s.pendingAppendIdentityCleanup
      else s.pendingAppendIdentityCleanup ++ [scope]
    else s.pendingAppendIdentityCleanup.filter fun p => decide (p ≠ scope)
  (.ok ⟨removed, moreMayRemain⟩,
    { s.setRetryTables (s.retryTables.removeKeys (s.retryTables.selected scope removed)) with
      pendingAppendIdentityCleanup := pending })

end MemoryStore

/-! ## The SQLite adapter -/

/-- `i64::MAX`, the largest `LIMIT`. -/
def i64Max : Nat := 2 ^ 63 - 1

/-- The SQLite rows a scope's cleanup touches. A row's `expires_at` is stored clamped to `i64::MAX`, so the
tables SQLite can hold are those without a later expiry. -/
structure SqliteRetryState where
  tables : RetryTables
  pendingAppendIdentityCleanup : Finset AppendDedupScope

namespace SqliteRetryState

def removeAppendIdentitiesBounded (s : SqliteRetryState) (scope : AppendDedupScope) (limit : ℕ+) :
    PurgeOutcome × SqliteRetryState :=
  let keys := s.tables.selected scope (min limit i64Max)
  let tables := keys.foldl (fun tables key => tables.deleteScopedIdentity scope key) s.tables
  let moreMayRemain := tables.holdsScope scope
  (⟨keys.length, moreMayRemain⟩,
    ⟨tables, if moreMayRemain then insert scope s.pendingAppendIdentityCleanup
      else s.pendingAppendIdentityCleanup.erase scope⟩)

end SqliteRetryState

/-! ## Which records a cleanup takes -/

variable {scope : AppendDedupScope} {k : AppendDedupKey}

namespace RetryTables

/-- Some record under the key has the scope. -/
def Has (tables : RetryTables) (key : AppendDedupKey) (scope : AppendDedupScope) : Prop :=
  (∃ r, tables.appendIdentities.lookup key = some r ∧ r.scope = scope) ∨
    ∃ r, tables.pipelineAdmissionReceipts.lookup key = some r ∧ r.scope = scope

variable {tables : RetryTables}

theorem mem_matching {row : WallTime ×ₗ AppendDedupKey} : row ∈ tables.matching scope ↔
    (∃ r, tables.appendIdentities.lookup (ofLex row).2 = some r ∧ r.scope = scope ∧ r.expiresAt = (ofLex row).1) ∨
    ∃ r, tables.pipelineAdmissionReceipts.lookup (ofLex row).2 = some r ∧ r.scope = scope ∧
      r.expiresAt = (ofLex row).1 := by
  have hrow : ∀ {t : WallTime} {k : AppendDedupKey}, toLex (t, k) = row ↔ k = (ofLex row).2 ∧ t = (ofLex row).1 := by
    intro t k
    constructor
    · rintro rfl
      exact ⟨rfl, rfl⟩
    · rintro ⟨rfl, rfl⟩
      rfl
  simp only [matching, mem_sorted, Multiset.mem_add, mem_rows, decide_eq_true_eq, hrow]
  refine or_congr ?_ ?_
  · constructor
    · rintro ⟨k, r, hr, hs, rfl, ht⟩
      exact ⟨r, hr, hs, ht⟩
    · rintro ⟨r, hr, hs, ht⟩
      exact ⟨_, r, hr, hs, rfl, ht⟩
  · constructor
    · rintro ⟨k, r, hr, hs, rfl, ht⟩
      exact ⟨r, hr, hs, ht⟩
    · rintro ⟨r, hr, hs, ht⟩
      exact ⟨_, r, hr, hs, rfl, ht⟩

variable {n : Nat}

/-- A selected key has a record of the scope. -/
theorem has_of_mem_selected (h : k ∈ tables.selected scope n) : tables.Has k scope := by
  obtain ⟨row, hrow, rfl⟩ := List.mem_map.mp h
  rcases mem_matching.mp (List.mem_of_mem_take hrow) with ⟨r, hr, hs, -⟩ | ⟨r, hr, hs, -⟩
  · exact .inl ⟨r, hr, hs⟩
  · exact .inr ⟨r, hr, hs⟩

/-- When the limit covers the scope, every key of the scope is selected. -/
theorem mem_selected_of_has (hn : (tables.matching scope).length ≤ n)
    (h : tables.Has k scope) : k ∈ tables.selected scope n := by
  unfold selected
  rw [List.take_of_length_le hn]
  rcases h with ⟨r, hr, hs⟩ | ⟨r, hr, hs⟩
  · exact List.mem_map.mpr ⟨toLex (r.expiresAt, k), mem_matching.mpr (.inl ⟨r, hr, hs, rfl⟩), rfl⟩
  · exact List.mem_map.mpr ⟨toLex (r.expiresAt, k), mem_matching.mpr (.inr ⟨r, hr, hs, rfl⟩), rfl⟩

theorem selected_min (n : Nat) :
    tables.selected scope (min (tables.matching scope).length n) = tables.selected scope n := by
  unfold selected
  congr 1
  rw [List.take_eq_take_iff]
  omega

theorem selected_mono {m : Nat} (h : m ≤ n) (hk : k ∈ tables.selected scope m) : k ∈ tables.selected scope n :=
  ((List.take_prefix_take_left h).sublist.map _).subset hk

/-- Two pairs of tables are equal when they hold the same records under every key. -/
theorem ext_lookup {a b : RetryTables} : a = b ↔ ∀ k, a.appendIdentities.lookup k = b.appendIdentities.lookup k ∧
    a.pipelineAdmissionReceipts.lookup k = b.pipelineAdmissionReceipts.lookup k := by
  obtain ⟨a1, a2⟩ := a
  rw [RetryTables.mk.injEq]
  constructor
  · rintro ⟨rfl, rfl⟩ k
    exact ⟨rfl, rfl⟩
  · intro h
    exact ⟨Finmap.ext_lookup fun k => (h k).1, Finmap.ext_lookup fun k => (h k).2⟩

theorem has_removeKeys {keys : List AppendDedupKey} :
    (tables.removeKeys keys).Has k scope ↔ k ∉ keys ∧ tables.Has k scope := by
  simp only [Has, removeKeys, lookup_eraseAll]
  by_cases hk : k ∈ keys <;> simp [hk]

/-- SQLite's deletes, one key at a time, keep what is not of the scope or not selected. -/
theorem lookup_deleteScoped (scope : AppendDedupScope) :
    ∀ (keys : List AppendDedupKey) (tables : RetryTables) (k : AppendDedupKey),
    let after := keys.foldl (fun tables key => tables.deleteScopedIdentity scope key) tables
    after.appendIdentities.lookup k =
        (tables.appendIdentities.lookup k).filter (fun r => !decide (r.scope = scope ∧ k ∈ keys)) ∧
      after.pipelineAdmissionReceipts.lookup k =
        (tables.pipelineAdmissionReceipts.lookup k).filter (fun r => !decide (r.scope = scope ∧ k ∈ keys))
  | [], tables, k => by
    refine ⟨?_, ?_⟩
    · rcases h : tables.appendIdentities.lookup k with _ | r <;> simp [h, Option.filter_some]
    · rcases h : tables.pipelineAdmissionReceipts.lookup k with _ | r <;> simp [h, Option.filter_some]
  | key :: keys, tables, k => by
    obtain ⟨h1, h2⟩ := lookup_deleteScoped scope keys (tables.deleteScopedIdentity scope key) k
    refine ⟨h1.trans ?_, h2.trans ?_⟩
    all_goals
      simp only [deleteScopedIdentity, lookup_retain, Option.filter_filter]
      congr 1
      funext r
      by_cases hs : r.scope = scope <;> by_cases hk : k = key <;> simp [hs, hk]

end RetryTables

/-! ## What a scope's cleanup guarantees -/

/-- A bounded cleanup is exact: it keeps every record of another scope, it reports
that nothing may remain exactly when nothing of the scope does, and SQLite, from the same tables where it can
hold them (no expiry after `i64::MAX`), ends with the same tables. -/
structure BoundedCleanupExact (s : MemoryStore) (pending : Finset AppendDedupScope) (scope : AppendDedupScope)
    (limit : ℕ+) : Prop where
  keeps_identities : ∀ k r, s.appendIdentities.lookup k = some r → r.scope ≠ scope →
    (s.removeAppendIdentitiesBounded scope limit).2.appendIdentities.lookup k = some r
  keeps_receipts : ∀ k r, s.pipelineAdmissionReceipts.lookup k = some r → r.scope ≠ scope →
    (s.removeAppendIdentitiesBounded scope limit).2.pipelineAdmissionReceipts.lookup k = some r
  reports : ∀ outcome, (s.removeAppendIdentitiesBounded scope limit).1 = .ok outcome →
    (outcome.moreMayRemain = false ↔ ∀ k, ¬ (s.removeAppendIdentitiesBounded scope limit).2.retryTables.Has k scope)
  agrees : (s.removeAppendIdentitiesBounded scope limit).2.retryTables =
    (SqliteRetryState.removeAppendIdentitiesBounded ⟨s.retryTables, pending⟩ scope limit).2.tables

namespace MemoryStore

variable {s : MemoryStore} {limit : ℕ+}

theorem retryTables_removeBounded : (s.removeAppendIdentitiesBounded scope limit).2.retryTables =
    s.retryTables.removeKeys (s.retryTables.selected scope limit) := by
  rw [← RetryTables.selected_min (limit : Nat)]
  rfl

theorem has_removeBounded {scope' : AppendDedupScope} :
    (s.removeAppendIdentitiesBounded scope limit).2.retryTables.Has k scope' ↔
      k ∉ s.retryTables.selected scope limit ∧ s.retryTables.Has k scope' := by
  rw [retryTables_removeBounded, RetryTables.has_removeKeys]

/-- A cleanup leaves what is stored under a key that it did not select. -/
theorem lookup_removeBounded (hk : k ∉ s.retryTables.selected scope limit) :
    (s.removeAppendIdentitiesBounded scope limit).2.appendIdentities.lookup k = s.appendIdentities.lookup k ∧
      (s.removeAppendIdentitiesBounded scope limit).2.pipelineAdmissionReceipts.lookup k =
        s.pipelineAdmissionReceipts.lookup k := by
  have htables : (s.removeAppendIdentitiesBounded scope limit).2.retryTables = _ := retryTables_removeBounded
  have h := RetryTables.ext_lookup.mp htables k
  simp only [RetryTables.removeKeys, lookup_eraseAll, hk, if_false] at h
  exact h

/-- The report is right when the limit covers the scope, or a record of it is left under another key. -/
theorem reports_iff : (∀ outcome, (s.removeAppendIdentitiesBounded scope limit).1 = .ok outcome →
      (outcome.moreMayRemain = false ↔
        ∀ k, ¬ (s.removeAppendIdentitiesBounded scope limit).2.retryTables.Has k scope)) ↔
    ((s.retryTables.matching scope).length ≤ limit ∨
      ∃ k, k ∉ s.retryTables.selected scope limit ∧ s.retryTables.Has k scope) := by
  simp only [has_removeBounded]
  have hout : ∀ outcome, (s.removeAppendIdentitiesBounded scope limit).1 = .ok outcome →
      (outcome.moreMayRemain = false ↔ (s.retryTables.matching scope).length ≤ limit) := by
    intro outcome h
    cases h
    simp
  constructor
  · intro h
    have h := h _ rfl
    rw [hout _ rfl] at h
    by_contra hnot
    rw [not_or, not_exists] at hnot
    exact hnot.1 (h.mpr hnot.2)
  · intro h outcome houtcome
    rw [hout outcome houtcome]
    rcases h with h | ⟨k, hk⟩
    · exact ⟨fun _ k hk => hk.1 (RetryTables.mem_selected_of_has h hk.2), fun _ => h⟩
    · refine ⟨fun hle => absurd (RetryTables.mem_selected_of_has hle hk.2) hk.1, fun hnone => absurd hk (hnone k)⟩

/-- The two adapters leave the same record under a key exactly when they agree on removing it. -/
theorem filter_eq_ite {α : Type} (o : Option α) (p : Prop) [Decidable p] (q : α → Bool) :
    (if p then none else o) = o.filter q ↔ ∀ a ∈ o, (p ↔ q a = false) := by
  rcases o with _ | a
  · simp
  · by_cases hp : p <;> rcases hq : q a <;> simp [hp, hq, Option.filter_some]

/-- SQLite ends with the same tables when every selected key belongs to the scope alone and is
within SQLite's own limit. -/
theorem agrees_iff {pending : Finset AppendDedupScope} : (s.removeAppendIdentitiesBounded scope limit).2.retryTables =
      (SqliteRetryState.removeAppendIdentitiesBounded ⟨s.retryTables, pending⟩ scope limit).2.tables ↔
    ∀ k ∈ s.retryTables.selected scope limit, k ∈ s.retryTables.selected scope (min limit i64Max) ∧
      ∀ scope', s.retryTables.Has k scope' → scope' = scope := by
  have hkeys := RetryTables.lookup_deleteScoped scope (s.retryTables.selected scope (min limit i64Max))
    s.retryTables
  rw [retryTables_removeBounded, RetryTables.ext_lookup]
  simp only [RetryTables.removeKeys, lookup_eraseAll, SqliteRetryState.removeAppendIdentitiesBounded,
    (hkeys _).1, (hkeys _).2, filter_eq_ite, Option.mem_def, Bool.not_eq_false', decide_eq_true_eq]
  constructor
  · intro h k hk
    obtain ⟨h1, h2⟩ := h k
    -- memory removed the key, so SQLite must have selected it
    have hin : k ∈ s.retryTables.selected scope (min limit i64Max) := by
      rcases RetryTables.has_of_mem_selected hk with ⟨r, hr, -⟩ | ⟨r, hr, -⟩
      · exact ((h1 r hr).mp hk).2
      · exact ((h2 r hr).mp hk).2
    refine ⟨hin, ?_⟩
    rintro scope' (⟨r, hr, rfl⟩ | ⟨r, hr, rfl⟩)
    · exact ((h1 r hr).mp hk).1
    · exact ((h2 r hr).mp hk).1
  · intro h k
    have hsel : k ∈ s.retryTables.selected scope (min limit i64Max) → k ∈ s.retryTables.selected scope limit :=
      RetryTables.selected_mono (Nat.min_le_left _ _)
    refine ⟨fun r hr => ⟨fun hk => ?_, fun hk => hsel hk.2⟩, fun r hr => ⟨fun hk => ?_, fun hk => hsel hk.2⟩⟩
    · exact ⟨(h k hk).2 _ (.inl ⟨r, hr, rfl⟩), (h k hk).1⟩
    · exact ⟨(h k hk).2 _ (.inr ⟨r, hr, rfl⟩), (h k hk).1⟩

/-- A bounded cleanup is exact exactly when every key among the scope's first `limit` records holds
records of the scope only (and SQLite's limit reaches it), and the limit covers the scope or leaves
a record of it under another key. The unbounded cleanup leaves nothing of the scope exactly when no
receipt has it. -/
theorem scopeCleanup_exact_iff (s : MemoryStore) (pending : Finset AppendDedupScope) (scope : AppendDedupScope)
    (limit : ℕ+) :
    (BoundedCleanupExact s pending scope limit ↔
      (∀ k ∈ s.retryTables.selected scope limit, k ∈ s.retryTables.selected scope (min limit i64Max) ∧
        ∀ scope', s.retryTables.Has k scope' → scope' = scope) ∧
      ((s.retryTables.matching scope).length ≤ limit ∨
        ∃ k, k ∉ s.retryTables.selected scope limit ∧ s.retryTables.Has k scope)) ∧
    ((∀ k, ¬ (s.removeAppendIdentities scope).2.retryTables.Has k scope) ↔
      ∀ k r, s.pipelineAdmissionReceipts.lookup k = some r → r.scope ≠ scope) := by
  refine ⟨⟨fun h => ⟨agrees_iff.mp h.agrees, reports_iff.mp h.reports⟩, fun h => ?_⟩, ?_⟩
  · refine ⟨fun k r hr hne => ?_, fun k r hr hne => ?_, reports_iff.mpr h.2, agrees_iff.mpr h.1⟩
    · rw [(lookup_removeBounded fun hk => hne ((h.1 k hk).2 _ (.inl ⟨r, hr, rfl⟩))).1, hr]
    · rw [(lookup_removeBounded fun hk => hne ((h.1 k hk).2 _ (.inr ⟨r, hr, rfl⟩))).2, hr]
  · constructor
    · intro h k r hr hscope
      exact h k (.inr ⟨r, hr, hscope⟩)
    · rintro h k (⟨r, hr, hscope⟩ | ⟨r, hr, hscope⟩)
      · have hr : (retain (fun _ r => decide (r.scope ≠ scope)) s.appendIdentities).lookup k = some r := hr
        rw [lookup_retain, Option.filter_eq_some_iff] at hr
        simp [hscope] at hr
      · exact h k r hr hscope

/-- One key used by a keyed append of one subject and by an admitted batch of another. -/
def sharedKeyStore : MemoryStore :=
  { blankStore with
    appendIdentities := Finmap.singleton ⟨7⟩ ⟨⟨1⟩, ⟨1⟩, ⟨1⟩, 10, ⟨⟨1⟩, "note", [], none, none, .v1⟩⟩
    pipelineAdmissionReceipts := Finmap.singleton ⟨7⟩ ⟨⟨1⟩, ⟨2⟩, 20, ⟨1, by decide⟩, 1, 1, 1, 1⟩ }

/-- Cleaning the first subject's scope takes the other's receipt with it; and the unbounded cleanup
of the second subject's scope leaves its receipt. -/
theorem sharedKeyStore_not_exact : ¬ BoundedCleanupExact sharedKeyStore ∅ ⟨1⟩ 1 ∧
    ¬ ∀ k, ¬ (sharedKeyStore.removeAppendIdentities ⟨2⟩).2.retryTables.Has k ⟨2⟩ := by
  constructor
  · intro h
    have hkept := h.keeps_receipts ⟨7⟩ ⟨⟨1⟩, ⟨2⟩, 20, ⟨1, by decide⟩, 1, 1, 1, 1⟩ (by decide) (by decide)
    revert hkept
    decide
  · intro h
    exact h ⟨7⟩ (.inr ⟨⟨⟨1⟩, ⟨2⟩, 20, ⟨1, by decide⟩, 1, 1, 1, 1⟩, by decide, by decide⟩)

end MemoryStore

end Piglor
