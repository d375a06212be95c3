/-
The fold of the registry Events: what one Event can do to it, what every fold satisfies, and that
planning an operation from a fold never finds it corrupt. A declaration restarts every chain, so only
entries of the current policy are in a candidate tenure, and their keys fit the payload's list.
-/
import PiglorProofs.Store.FallbackRegistry

namespace Piglor

open Checked List FallbackRebasedEntryV1 FallbackRegistryStateV1

variable {policy : DomainFallbackPolicyV1} {codec : FallbackCodecV1} {payload : FallbackDeclaredPayloadV1}
  {state : FallbackRegistryStateV1} {reads : FallbackReadsV1} {scope : String}

namespace Fallback

variable {reads' : FallbackReadsV1} {fold fold' : FallbackFoldV1} {condition : Bool}
  {error : CompositionFallbackRegistryErrorV1}

theorem check_eq_ok : check condition error = .ok () ↔ condition = true := by
  cases condition <;> simp [check]

theorem check_eq_error {e : CompositionFallbackRegistryErrorV1} :
    check condition error = .error e ↔ condition = false ∧ e = error := by
  cases condition <;> simp [check, eq_comm]

/-! ## What an Event does -/

theorem applyDeclared_eq_ok : fold.applyDeclared codec payload policy = .ok fold' ↔
      declaredConsistent codec fold.state payload policy fold.state.rebasedEntries = true ∧
        fold' = ⟨fold.state.declare codec policy, some policy⟩ := by
  rw [FallbackFoldV1.applyDeclared, bind_eq_ok]
  constructor
  · rintro ⟨⟨⟩, hcheck, h⟩
    cases h
    exact ⟨check_eq_ok.mp hcheck, rfl⟩
  · rintro ⟨hcheck, rfl⟩
    exact ⟨(), check_eq_ok.mpr hcheck, rfl⟩

/-- The activation closes the entry's current tenure and opens the next on a listed implementation. -/
structure Opens (codec : FallbackCodecV1) (policy : DomainFallbackPolicyV1) (state : FallbackRegistryStateV1)
    (input : FallbackActivatedInputV1) (change : TransitionV1) : Prop where
  current : state.entries.lookup input.entryKey = some change.current
  entry : policy.entries.find? (fun entry => entry.entryKey == input.entryKey) = some change.entry
  closes : closesTenure codec change.current input = true
  position : chainIndex codec change.entry (codec.implementationDigest input.toKey) = some change.next.chainPosition
  next : change.next =
    ⟨saturatingAdd change.current.tenureOrdinal 1, codec.implementationDigest input.toKey, change.next.chainPosition⟩

theorem transition_eq_ok
    {input : FallbackActivatedInputV1} {change : TransitionV1} (h : transition codec policy state input = .ok change) :
    Opens codec policy state input change := by
  unfold transition at h
  split at h
  · rename_i current hcurrent
    split at h
    · rename_i entry hentry
      obtain ⟨⟨⟩, hcloses, h⟩ := bind_eq_ok.mp h
      dsimp only at h
      split at h
      · rename_i position hposition
        cases h
        exact ⟨hcurrent, hentry, check_eq_ok.mp hcloses, hposition, rfl⟩
      · cases h
    · cases h
  · cases h

theorem applyActivated_eq_ok {payload : FallbackActivatedPayloadV1} :
    fold.applyActivated codec payload = .ok fold' ↔ ∃ policy change, fold.policy = some policy ∧
      policy.policyDigest = payload.asInput.policyDigest ∧
      transition codec policy fold.state payload.asInput = .ok change ∧
      payload.asInput.activationOrdinal = saturatingAdd fold.state.activationOrdinal 1 ∧
      fold' = { fold with state := fold.state.activate payload.asInput change.next } := by
  unfold FallbackFoldV1.applyActivated
  dsimp only
  constructor
  · intro h
    split at h
    · rename_i policy hpolicy
      obtain ⟨hpolicy, hdigest⟩ := Option.filter_eq_some_iff.mp hpolicy
      obtain ⟨change, hchange, h⟩ := bind_eq_ok.mp h
      obtain ⟨⟨⟩, hordinal, h⟩ := bind_eq_ok.mp h
      cases h
      exact ⟨policy, change, hpolicy, by simpa using hdigest, mapError_eq_ok.mp hchange,
        by simpa using check_eq_ok.mp hordinal, rfl⟩
    · cases h
  · rintro ⟨policy, change, hpolicy, hdigest, hchange, hordinal, rfl⟩
    have hfilter : fold.policy.filter (fun policy => policy.policyDigest == payload.asInput.policyDigest) = some policy :=
      Option.filter_eq_some_iff.mpr ⟨hpolicy, by simpa using hdigest⟩
    rw [hfilter]
    dsimp only
    rw [mapError_eq_ok.mpr hchange, ok_bind, check_eq_ok.mpr (by simpa using hordinal), ok_bind]

theorem loadPolicy_eq_ok {digest : Hash} :
    loadPolicy codec reads digest = .ok policy ↔ ∃ bytes, reads.storedPolicy digest = .ok (some bytes) ∧
      codec.decodePolicy bytes = .ok policy ∧ policy.policyDigest = digest := by
  unfold loadPolicy
  rw [bind_eq_ok]
  constructor
  · rintro ⟨stored, hstored, h⟩
    split at h
    · rename_i found hfound
      cases h
      obtain ⟨hfound, hdigest⟩ := Option.filter_eq_some_iff.mp hfound
      obtain ⟨bytes, rfl, hdecoded⟩ := Option.bind_eq_some_iff.mp hfound
      refine ⟨bytes, hstored, ?_, by simpa using hdigest⟩
      cases hresult : codec.decodePolicy bytes with
      | error e => rw [hresult] at hdecoded; cases hdecoded
      | ok found => rw [hresult] at hdecoded; cases hdecoded; rfl
    · cases h
  · rintro ⟨bytes, hstored, hdecoded, hdigest⟩
    refine ⟨some bytes, hstored, ?_⟩
    rw [Option.bind_some, hdecoded, Except.toOption, Option.filter_some, if_pos (by simpa using hdigest)]

variable {event : Event}

theorem foldEvent_cases (h : foldEvent codec reads scope fold event = .ok fold') : fold' = fold ∨
    (∃ payload policy, loadPolicy codec reads payload.policyDigest = .ok policy ∧
      fold.applyDeclared codec payload policy = .ok fold') ∨
    ∃ payload, fold.applyActivated codec payload = .ok fold' := by
  unfold foldEvent at h
  split_ifs at h
  · obtain ⟨payload, -, h⟩ := bind_eq_ok.mp h
    split_ifs at h
    · cases h
      exact .inl rfl
    · obtain ⟨policy, hpolicy, h⟩ := bind_eq_ok.mp h
      exact .inr (.inl ⟨payload, policy, hpolicy, h⟩)
  · obtain ⟨payload, -, h⟩ := bind_eq_ok.mp h
    split_ifs at h
    · cases h
      exact .inl rfl
    · exact .inr (.inr ⟨payload, h⟩)
  · cases h
    exact .inl rfl

theorem foldEvent_declared (htype : event.eventType = compositionFallbackDeclaredEventTypeV1)
    (hpayload : codec.decodeDeclared event.payload = .ok payload) : foldEvent codec reads scope fold event =
      if payload.scope ≠ scope then .ok fold
      else loadPolicy codec reads payload.policyDigest >>= fun policy => fold.applyDeclared codec payload policy := by
  rw [foldEvent, if_pos htype, foldDeclared, mapError_eq_ok.mpr hpayload, ok_bind]

theorem foldEvent_activated {payload : FallbackActivatedPayloadV1}
    (htype : event.eventType = compositionFallbackActivatedEventTypeV1)
    (hpayload : codec.decodeActivated event.payload = .ok payload) : foldEvent codec reads scope fold event =
      if payload.asInput.scope ≠ scope then .ok fold else fold.applyActivated codec payload := by
  have hne : event.eventType ≠ compositionFallbackDeclaredEventTypeV1 := by rw [htype]; decide
  rw [foldEvent, if_neg hne, if_pos htype, foldActivated, mapError_eq_ok.mpr hpayload, ok_bind]

/-- A fold step stands when more policies are stored. -/
theorem foldEvent_mono (hreads : ∀ {digest bytes}, reads.storedPolicy digest = .ok (some bytes) →
    reads'.storedPolicy digest = .ok (some bytes))
    (h : foldEvent codec reads scope fold event = .ok fold') : foldEvent codec reads' scope fold event = .ok fold' := by
  unfold foldEvent at h ⊢
  split_ifs at h ⊢
  · unfold foldDeclared at h ⊢
    obtain ⟨payload, hpayload, h⟩ := bind_eq_ok.mp h
    rw [hpayload, ok_bind]
    split_ifs at h ⊢
    · exact h
    · obtain ⟨policy, hpolicy, h⟩ := bind_eq_ok.mp h
      obtain ⟨bytes, hstored, hdecoded⟩ := loadPolicy_eq_ok.mp hpolicy
      rw [loadPolicy_eq_ok.mpr ⟨bytes, hreads hstored, hdecoded⟩, ok_bind]
      exact h
  · exact h
  · exact h

end Fallback

/-! ## The entries of a fold -/

namespace FallbackRegistryStateV1

variable {key : String} {entry : FallbackEntryStateV1}

theorem lookup_openEntry {entries : Table String FallbackEntryStateV1} {declared : FallbackEntryV1}
    (h : (openEntry codec entries declared).lookup key = some entry) :
    entries.lookup key = some entry ∨
      declared.entryKey = key ∧ entry = ⟨0, Fallback.primaryDigest codec declared, 0⟩ := by
  unfold openEntry at h
  split at h
  · exact .inl h
  · rcases Table.lookup_insert_eq_some.mp h with ⟨rfl, rfl⟩ | ⟨-, h⟩
    · exact .inr ⟨rfl, rfl⟩
    · exact .inl h

theorem lookup_openEntries : ∀ {declared : List FallbackEntryV1} {entries : Table String FallbackEntryStateV1}
    {key : String} {entry : FallbackEntryStateV1}, (declared.foldl (openEntry codec) entries).lookup key = some entry →
    entries.lookup key = some entry ∨
      ∃ d ∈ declared, d.entryKey = key ∧ entry = ⟨0, Fallback.primaryDigest codec d, 0⟩
  | [], _, _, _, h => .inl h
  | d :: declared, entries, key, entry, h => by
    rw [foldl_cons] at h
    rcases lookup_openEntries h with h | ⟨d', hd', h⟩
    · rcases lookup_openEntry h with h | h
      · exact .inl h
      · exact .inr ⟨d, mem_cons_self, h⟩
    · exact .inr ⟨d', mem_cons_of_mem _ hd', h⟩

theorem lookup_declare (h : (state.declare codec policy).entries.lookup key = some entry) :
    entry.chainPosition = 0 ∧ ((∃ old, state.entries.lookup key = some old ∧ entry.tenureOrdinal = old.tenureOrdinal) ∨
      ∃ d ∈ policy.entries, d.entryKey = key ∧ entry.tenureOrdinal = 0) := by
  rcases lookup_openEntries h with h | ⟨d, hd, hkey, rfl⟩
  · rw [Table.lookup_mapValues, Option.map_eq_some_iff] at h
    obtain ⟨old, hold, rfl⟩ := h
    exact ⟨rfl, .inl ⟨old, hold, rfl⟩⟩
  · exact ⟨rfl, .inr ⟨d, hd, hkey, rfl⟩⟩

/-! ## Re-based entries -/

theorem rebasedEntries_keys (state : FallbackRegistryStateV1) :
    (state.rebasedEntries.map entryKey).Sublist (Table.sorted state.entries.keys.val) := by
  rw [rebasedEntries, map_filterMap]
  generalize Table.sorted state.entries.keys.val = keys
  induction keys with
  | nil => exact Sublist.slnil
  | cons key keys ih =>
    rw [filterMap_cons]
    split
    · exact ih.cons key
    · rename_i key' hkey'
      have hkey : key' = key := by
        obtain ⟨rebased, hrebased, rfl⟩ := Option.map_eq_some_iff.mp hkey'
        split at hrebased
        · cases hrebased
        · split_ifs at hrebased
          unfold new at hrebased
          split_ifs at hrebased
          · cases hrebased
            rfl
          · cases hrebased
      subst hkey
      exact ih.cons_cons key'

theorem of_mem_rebasedEntries {rebased : FallbackRebasedEntryV1}
    (h : rebased ∈ state.rebasedEntries) : ∃ entry, state.entries.lookup rebased.entryKey = some entry ∧
      0 < entry.chainPosition := by
  obtain ⟨key, -, hrebased⟩ := mem_filterMap.mp h
  split at hrebased
  · cases hrebased
  · rename_i entry hentry
    split_ifs at hrebased with hposition
    unfold new at hrebased
    split_ifs at hrebased
    · cases hrebased
      exact ⟨entry, hentry, hposition⟩
    · cases hrebased

end FallbackRegistryStateV1

namespace Fallback

variable {fold fold' : FallbackFoldV1} {n : Nat}

theorem saturatingAdd_le (a : Nat) : saturatingAdd a 1 ≤ a + 1 := Nat.min_le_left _ _

theorem saturatingAdd_of_le {a : Nat} (h : a + 1 ≤ u64Max) : saturatingAdd a 1 = a + 1 := Nat.min_eq_left h

/-- What every fold of `n` Events satisfies. -/
structure FallbackFoldV1.Valid (n : Nat) (fold : FallbackFoldV1) : Prop where
  digest : fold.state.policyDigest = fold.policy.map DomainFallbackPolicyV1.policyDigest
  revision : fold.state.stateRevision ≤ n
  ordinal : fold.state.activationOrdinal ≤ n
  tenure : ∀ {key entry}, fold.state.entries.lookup key = some entry → entry.tenureOrdinal ≤ n
  active : ∀ {key entry}, fold.state.entries.lookup key = some entry → 0 < entry.chainPosition →
    ∃ policy, fold.policy = some policy ∧ key ∈ policy.entries.map FallbackEntryV1.entryKey

theorem FallbackFoldV1.valid_default : FallbackFoldV1.default.Valid 0 where
  digest := rfl
  revision := Nat.le_refl 0
  ordinal := Nat.le_refl 0
  tenure h := by cases h
  active h := by cases h

theorem FallbackFoldV1.Valid.mono {m : Nat} (h : fold.Valid n) (hle : n ≤ m) : fold.Valid m where
  digest := h.digest
  revision := Nat.le_trans h.revision hle
  ordinal := Nat.le_trans h.ordinal hle
  tenure hlookup := Nat.le_trans (h.tenure hlookup) hle
  active := h.active

theorem FallbackFoldV1.Valid.declared (h : fold.Valid n)
    (hstep : fold.applyDeclared codec payload policy = .ok fold') :
    fold'.Valid (n + 1) := by
  obtain ⟨-, rfl⟩ := applyDeclared_eq_ok.mp hstep
  refine ⟨rfl, ?_, Nat.le_succ_of_le h.ordinal, ?_, ?_⟩
  · exact Nat.le_trans (saturatingAdd_le _) (Nat.succ_le_succ h.revision)
  · intro key entry hlookup
    obtain ⟨-, ⟨old, hold, htenure⟩ | ⟨-, -, -, htenure⟩⟩ := lookup_declare hlookup
    · rw [htenure]
      exact Nat.le_succ_of_le (h.tenure hold)
    · omega
  · intro key entry hlookup hactive
    have hposition := (lookup_declare hlookup).1
    omega

theorem FallbackFoldV1.Valid.activated (h : fold.Valid n) {payload : FallbackActivatedPayloadV1}
    (hstep : fold.applyActivated codec payload = .ok fold') : fold'.Valid (n + 1) := by
  obtain ⟨policy, change, hpolicy, -, hchange, hordinal, rfl⟩ := applyActivated_eq_ok.mp hstep
  have hopens := transition_eq_ok hchange
  refine ⟨h.digest, ?_, ?_, ?_, ?_⟩
  · exact Nat.le_trans (saturatingAdd_le _) (Nat.succ_le_succ h.revision)
  · show payload.asInput.activationOrdinal ≤ n + 1
    rw [hordinal]
    exact Nat.le_trans (saturatingAdd_le _) (Nat.succ_le_succ h.ordinal)
  · intro key entry hlookup
    rcases Table.lookup_insert_eq_some.mp hlookup with ⟨-, rfl⟩ | ⟨-, hlookup⟩
    · rw [hopens.next]
      exact Nat.le_trans (saturatingAdd_le _) (Nat.succ_le_succ (h.tenure hopens.current))
    · exact Nat.le_succ_of_le (h.tenure hlookup)
  · intro key entry hlookup hactive
    rcases Table.lookup_insert_eq_some.mp hlookup with ⟨rfl, rfl⟩ | ⟨-, hlookup⟩
    · -- the activated entry is one of the current policy
      have hmem := mem_of_find?_eq_some hopens.entry
      have hkey : change.entry.entryKey = payload.asInput.entryKey := by simpa using find?_some hopens.entry
      exact ⟨policy, hpolicy, mem_map.mpr ⟨change.entry, hmem, hkey⟩⟩
    · exact h.active hlookup hactive

theorem FallbackFoldV1.Valid.event (h : fold.Valid n) {event : Event}
    (hstep : foldEvent codec reads scope fold event = .ok fold') : fold'.Valid (n + 1) := by
  rcases foldEvent_cases hstep with rfl | ⟨payload, policy, -, hstep⟩ | ⟨payload, hstep⟩
  · exact h.mono (Nat.le_succ n)
  · exact h.declared hstep
  · exact h.activated hstep

/-- Every fold from the empty state is valid. -/
theorem valid_of_fold {events : List Event} (h : events.foldlM (foldEvent codec reads scope) .default = .ok fold) :
    fold.Valid events.length := by
  have hvalid := foldlM_invariant (P := FallbackFoldV1.Valid) (fun hb hstep => hb.event hstep) FallbackFoldV1.valid_default h
  rwa [Nat.zero_add] at hvalid

/-- The re-based entries of a fold fit the list of a payload. -/
theorem FallbackFoldV1.Valid.rebased (h : fold.Valid n) : validRebased fold.state.rebasedEntries = true := by
  have hkeys := fold.state.rebasedEntries_keys
  have hsorted := Table.pairwise_sorted_of_nodup fold.state.entries.keys.nodup
  have hstrict := hsorted.sublist hkeys
  have hlength : fold.state.rebasedEntries.length ≤ 32 := by
    cases hrebased : fold.state.rebasedEntries with
    | nil => exact Nat.zero_le _
    | cons first rest =>
      -- some entry is in a candidate tenure, so there is a policy, and it names every such entry
      obtain ⟨entry, hentry, hactive⟩ := of_mem_rebasedEntries
        (hrebased ▸ mem_cons_self : first ∈ fold.state.rebasedEntries)
      obtain ⟨policy, hpolicy, -⟩ := h.active hentry hactive
      rw [← hrebased]
      have hsubset : fold.state.rebasedEntries.map entryKey ⊆
          policy.entries.map FallbackEntryV1.entryKey := by
        intro key hkey
        obtain ⟨rebased, hmem, rfl⟩ := mem_map.mp hkey
        obtain ⟨entry, hentry, hactive⟩ := of_mem_rebasedEntries hmem
        obtain ⟨policy', hpolicy', hin⟩ := h.active hentry hactive
        rw [hpolicy] at hpolicy'
        cases hpolicy'
        exact hin
      have hnodup : (fold.state.rebasedEntries.map entryKey).Nodup := hstrict.imp fun h => ne_of_lt h
      have hle := (hnodup.subperm hsubset).length_le
      have hvalid := policy.valid
      simp only [Bool.and_eq_true, validEntries, decide_eq_true_iff] at hvalid
      rw [length_map, length_map] at hle
      exact Nat.le_trans hle hvalid.1.2.1
  rw [validRebased, decide_eq_true hlength, Bool.true_and, strictlySorted]
  exact decide_eq_true (isChain_iff_pairwise.mpr hstrict)

end Fallback

end Piglor
