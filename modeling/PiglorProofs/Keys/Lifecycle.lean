/-
The registry's lifecycle over any run of registrations and destructions from the empty registry. Each
operation refuses and changes nothing, answers a repeat and changes nothing, or takes one of three
steps; each step keeps the registry valid and is a replacement. An authorization then says what the
whole history of calls says: the newest epoch of its scope, its own material, no destruction begun.
-/
import PiglorProofs.Keys.Validity

namespace Piglor.KeyRegistry

open Checked Table List

variable {i : KeyIdentityV1} {r : KeyRecordV1} {blake3 : ByteHash} {s s' : KeyRegistryStateV1} {d : Hash}
  {t : KeyTombstoneV1}

namespace KeyRegistryStateV1

variable {registration : KeyRegistrationV1}

/-! ## Registration -/

/-- The checks under which a registration adds a record. -/
structure Registrable (s : KeyRegistryStateV1) (registration : KeyRegistrationV1) : Prop where
  valid : s.Valid
  epoch_pos : registration.identity.epoch ≠ 0
  signing : registration.identity.role.isSigning = registration.publicVerificationKey.isSome
  live : s.tombstones.lookup registration.identity = none
  calm : s.pendingDestructions.lookup registration.identity = none
  newest : ∀ h, s.highestEpoch.lookup registration.identity.scope = some h → h ≤ registration.identity.epoch
  fresh : s.records.lookup registration.identity = none
  unused : ∀ ⦃i r⦄, s.records.lookup i = some r → r.privateMaterialDigest ≠ some registration.privateMaterialDigest
  undestroyed : ∀ ⦃i t⦄, s.tombstones.lookup i = some t → t.destroyedMaterialDigest ≠ registration.privateMaterialDigest

theorem isEncryption_eq (role : KeyRoleV1) : role.isEncryption = !role.isSigning := by
  cases role <;> rfl

theorem validateRegistration_eq_ok (h : validateRegistration registration = .ok ()) : registration.identity.epoch ≠ 0 ∧
      registration.identity.role.isSigning = registration.publicVerificationKey.isSome := by
  unfold validateRegistration at h
  split at h
  · cases h
  split at h
  · cases h
  split_ifs at h
  rename_i hepoch hmissing hunexpected
  refine ⟨hepoch, ?_⟩
  rw [isEncryption_eq] at hunexpected
  generalize registration.identity.role.isSigning = signing at *
  generalize registration.publicVerificationKey = key at *
  rcases key with _ | key <;> cases signing <;> simp at hmissing hunexpected ⊢

theorem refuseDestroyed_eq_ok :
    s.refuseDestroyed i = .ok () ↔ s.tombstones.lookup i = none ∧ s.pendingDestructions.lookup i = none := by
  unfold refuseDestroyed
  rcases s.tombstones.lookup i with _ | t <;> rcases s.pendingDestructions.lookup i with _ | q <;> simp

theorem refuseStale_eq_ok : s.refuseStale i = .ok () ↔ ∀ h, s.highestEpoch.lookup i.scope = some h → h ≤ i.epoch := by
  unfold refuseStale
  rcases s.highestEpoch.lookup i.scope with _ | h
  · simp
  · by_cases hle : h ≤ i.epoch <;> simp [hle]

theorem materialIsReserved_eq_false : s.materialIsReserved d = false ↔
    (∀ ⦃i r⦄, s.records.lookup i = some r → r.privateMaterialDigest ≠ some d) ∧
      ∀ ⦃i t⦄, s.tombstones.lookup i = some t → t.destroyedMaterialDigest ≠ d := by
  unfold materialIsReserved
  rw [Bool.or_eq_false_iff, Bool.eq_false_iff, Bool.eq_false_iff, Ne, Ne, any_iff, any_iff]
  simp

theorem checkRegistration_eq_ok {outcome : KeyRegistrationOutcomeV1}
    (h : s.checkRegistration registration = .ok outcome) :
    (outcome = .alreadyRegistered ∧ s.Valid ∧ s.records.lookup registration.identity =
      some ⟨registration.identity, some registration.privateMaterialDigest, registration.publicVerificationKey⟩) ∨
    (outcome = .registered ∧ s.Registrable registration) := by
  obtain ⟨⟨⟩, hvalid, h⟩ := bind_eq_ok.mp h
  obtain ⟨⟨⟩, hreg, h⟩ := bind_eq_ok.mp h
  obtain ⟨⟨⟩, hlive, h⟩ := bind_eq_ok.mp h
  obtain ⟨⟨⟩, hnewest, h⟩ := bind_eq_ok.mp h
  have hv := validate_eq_ok.mp hvalid
  obtain ⟨hepoch, hsigning⟩ := validateRegistration_eq_ok hreg
  obtain ⟨hlive, hcalm⟩ := refuseDestroyed_eq_ok.mp hlive
  split at h
  · rename_i existing hexisting
    split at h
    · rename_i hsame
      cases h
      refine .inl ⟨rfl, hv, ?_⟩
      rw [hexisting, ← hsame.1, ← hsame.2, ← hv.record_key hexisting]
    · cases h
  · rename_i hfresh
    split_ifs at h
    rename_i hreserved
    cases h
    obtain ⟨hunused, hundestroyed⟩ := materialIsReserved_eq_false.mp (Bool.eq_false_iff.mpr hreserved)
    exact .inr ⟨rfl, hv, hepoch, hsigning, hlive, hcalm, refuseStale_eq_ok.mp hnewest, hfresh, hunused, hundestroyed⟩

section Insert

variable (h : s.Registrable registration)

include h

theorem Registrable.lookup_records :
    (s.insertKey registration).records.lookup i = some r ↔
      (i = registration.identity ∧ r = ⟨registration.identity, some registration.privateMaterialDigest,
        registration.publicVerificationKey⟩) ∨ s.records.lookup i = some r := by
  rw [insertKey, lookup_insert_eq_some]
  constructor
  · rintro (⟨hi, rfl⟩ | ⟨-, hr⟩)
    · exact .inl ⟨hi, rfl⟩
    · exact .inr hr
  · rintro (⟨hi, rfl⟩ | hr)
    · exact .inl ⟨hi, rfl⟩
    · refine .inr ⟨?_, hr⟩
      rintro rfl
      rw [h.fresh] at hr
      cases hr

/-- A new epoch lies above the scope's high-water mark. -/
theorem Registrable.lt {n : Nat}
    (hn : s.highestEpoch.lookup registration.identity.scope = some n) : n < registration.identity.epoch := by
  refine lt_of_le_of_ne (h.newest n hn) ?_
  rintro rfl
  obtain ⟨r, hr⟩ := h.valid.highest_record hn
  rw [identity_scope, h.fresh] at hr
  cases hr

theorem Registrable.insert_valid : (s.insertKey registration).Valid where
  record_key := forall_insert rfl h.valid.record_key
  epoch_pos := forall_insert h.epoch_pos h.valid.epoch_pos
  signing := forall_insert h.signing h.valid.signing
  has_highest := by
    intro i r hr
    by_cases hc : i.scope = registration.identity.scope
    · exact ⟨_, lookup_insert_eq_some.mpr (.inl ⟨hc, rfl⟩)⟩
    · rcases h.lookup_records.mp hr with ⟨rfl, -⟩ | hr
      · exact absurd rfl hc
      · obtain ⟨n, hn⟩ := h.valid.has_highest hr
        exact ⟨n, lookup_insert_eq_some.mpr (.inr ⟨hc, hn⟩)⟩
  destroyed := forall_insert (fun hnone => by cases hnone) h.valid.destroyed
  pending_key := h.valid.pending_key
  pending_record := by
    intro i q hq
    obtain ⟨r, hr, hd⟩ := h.valid.pending_record hq
    exact ⟨r, h.lookup_records.mpr (.inr hr), hd⟩
  pending_live := h.valid.pending_live
  pending_revoked := by
    intro i q hq hactive
    rcases lookup_insert_eq_some.mp hactive with ⟨-, rfl⟩ | ⟨-, hactive⟩
    · cases h.calm.symm.trans hq
    · exact h.valid.pending_revoked hq hactive
  highest_record := by
    intro c n hc
    rcases lookup_insert_eq_some.mp hc with ⟨rfl, rfl⟩ | ⟨-, hc⟩
    · exact ⟨_, h.lookup_records.mpr (.inl ⟨identity_scope _, rfl⟩)⟩
    · obtain ⟨r, hr⟩ := h.valid.highest_record hc
      exact ⟨r, h.lookup_records.mpr (.inr hr)⟩
  highest_max := by
    intro c n hc i r hr hscope
    rcases lookup_insert_eq_some.mp hc with ⟨rfl, rfl⟩ | ⟨hne, hc⟩
    · rcases h.lookup_records.mp hr with ⟨rfl, -⟩ | hr
      · exact Nat.le_refl _
      · obtain ⟨n, hn⟩ := h.valid.has_highest hr
        rw [hscope] at hn
        exact (h.valid.highest_max hn hr hscope).trans (h.lt hn).le
    · rcases h.lookup_records.mp hr with ⟨rfl, -⟩ | hr
      · exact absurd hscope.symm hne
      · exact h.valid.highest_max hc hr hscope
  active_highest := by
    intro c i hi
    rcases lookup_insert_eq_some.mp hi with ⟨rfl, rfl⟩ | ⟨hne, hi⟩
    · exact ⟨rfl, Finmap.lookup_insert _⟩
    · obtain ⟨hscope, hhigh⟩ := h.valid.active_highest hi
      exact ⟨hscope, lookup_insert_eq_some.mpr (.inr ⟨hne, hhigh⟩)⟩
  active_live := by
    intro c i hi
    rcases lookup_insert_eq_some.mp hi with ⟨-, rfl⟩ | ⟨-, hi⟩
    · exact ⟨h.live, _, h.lookup_records.mpr (.inl ⟨rfl, rfl⟩)⟩
    · obtain ⟨hlive, r, hr⟩ := h.valid.active_live hi
      exact ⟨hlive, r, h.lookup_records.mpr (.inr hr)⟩
  latest := by
    intro c n hc hlive hcalm
    rcases lookup_insert_eq_some.mp hc with ⟨rfl, rfl⟩ | ⟨hne, hc⟩
    · exact Finmap.lookup_insert _
    · exact lookup_insert_eq_some.mpr (.inr ⟨hne, h.valid.latest hc hlive hcalm⟩)
  tombstone_key := h.valid.tombstone_key
  tombstone_record := by
    intro i t ht
    obtain ⟨r, hr, hd⟩ := h.valid.tombstone_record ht
    exact ⟨r, h.lookup_records.mpr (.inr hr), hd⟩
  live_unique := by
    intro i r j r' d hr hr' hd hd'
    rcases h.lookup_records.mp hr with ⟨rfl, rfl⟩ | hr <;> rcases h.lookup_records.mp hr' with ⟨rfl, rfl⟩ | hr'
    · rfl
    · exact absurd (hd'.trans hd.symm) (h.unused hr')
    · exact absurd (hd.trans hd'.symm) (h.unused hr)
    · exact h.valid.live_unique hr hr' hd hd'
  destroyed_unique := h.valid.destroyed_unique
  live_fresh := by
    intro i r j t hr ht
    rcases h.lookup_records.mp hr with ⟨rfl, rfl⟩ | hr
    · exact fun hd => h.undestroyed ht (Option.some.inj hd).symm
    · exact h.valid.live_fresh hr ht

theorem Registrable.insert_replaces : Replaces blake3 s (s.insertKey registration) where
  before := h.valid
  after := h.insert_valid
  fresh := by
    intro i r' hr' hnone
    rcases h.lookup_records.mp hr' with ⟨rfl, -⟩ | hr
    · exact ⟨h.live, h.calm, fun n hn => h.lt hn⟩
    · rw [hnone] at hr
      cases hr
  kept := by
    intro i r hr
    have hself : Replaces blake3 s s := h.valid.replaces_self
    obtain ⟨r', hr', hid, hkey, hstep⟩ := hself.kept hr
    rw [hr] at hr'
    cases hr'
    exact ⟨r, h.lookup_records.mpr (.inr hr), hid, hkey, hstep⟩
  pending := fun i q hq => .inl hq

end Insert

/-! ## Destruction -/

/-- The checks under which a request becomes pending. -/
structure Destructible (s : KeyRegistryStateV1) (request : KeyDestructionRequestV1) : Prop where
  valid : s.Valid
  live : s.tombstones.lookup request.identity = none
  calm : s.pendingDestructions.lookup request.identity = none
  material : ∃ r, s.records.lookup request.identity = some r ∧
    r.privateMaterialDigest = some request.expectedMaterialDigest

/-- The checks under which a pending request destroys its record. -/
structure Finalizable (s : KeyRegistryStateV1) (request : KeyDestructionRequestV1) (record : KeyRecordV1) : Prop where
  valid : s.Valid
  pending : s.pendingDestructions.lookup request.identity = some request
  found : s.records.lookup request.identity = some record

/-- A destruction of the identity is pending or done. -/
def Doomed (s : KeyRegistryStateV1) (identity : KeyIdentityV1) : Prop :=
  (∃ q, s.pendingDestructions.lookup identity = some q) ∨ ∃ t, s.tombstones.lookup identity = some t

variable {request : KeyDestructionRequestV1} {record : KeyRecordV1} {receipt : Hash}

theorem checkDestruction_eq_ok {outcome : KeyDestructionBeginOutcomeV1}
    (h : s.checkDestruction blake3 request = .ok outcome) :
    (outcome ≠ .started ∧ s.Valid ∧ s.Doomed request.identity) ∨ (outcome = .started ∧ s.Destructible request) := by
  replace h := of_check h
  obtain ⟨⟨⟩, hvalid, h⟩ := bind_eq_ok.mp h
  rw [validate_eq_ok] at hvalid
  split at h
  · rename_i t ht
    split_ifs at h
    cases h
    exact .inl ⟨nofun, hvalid, .inr ⟨t, ht⟩⟩
  rename_i hlive
  split at h
  · rename_i q hq
    split_ifs at h
    cases h
    exact .inl ⟨nofun, hvalid, .inl ⟨q, hq⟩⟩
  rename_i hcalm
  split at h
  · cases h
  rename_i r hr
  split_ifs at h with hmaterial
  cases h
  exact .inr ⟨rfl, hvalid, hlive, hcalm, r, hr, not_not.mp hmaterial⟩

theorem checkCompletion_eq_ok {outcome : KeyTombstoneV1 ⊕ KeyRecordV1}
    (h : s.checkCompletion blake3 request receipt = .ok outcome) :
    (∃ t, outcome = .inl t ∧ s.Valid ∧ s.Doomed request.identity) ∨
      ∃ record, outcome = .inr record ∧ s.Finalizable request record ∧
        receipt = KeyRegistry.deletionReceipt blake3 request := by
  replace h := of_check h
  obtain ⟨⟨⟩, hvalid, h⟩ := bind_eq_ok.mp h
  rw [validate_eq_ok] at hvalid
  split at h
  · rename_i t ht
    split_ifs at h
    cases h
    exact .inl ⟨t, rfl, hvalid, .inr ⟨t, ht⟩⟩
  split_ifs at h with hpending _ hreceipt
  split at h
  · cases h
  rename_i r hr
  cases h
  exact .inr ⟨r, rfl, ⟨hvalid, not_not.mp hpending, hr⟩, not_not.mp hreceipt⟩

variable {tombstone : KeyTombstoneV1}

/-- A pending identity is revoked; nothing else is. -/
theorem Destructible.lookup_active (h : s.Destructible request) {c : KeyScope} :
    (s.markPending request).active.lookup c = some i ↔ s.active.lookup c = some i ∧ i ≠ request.identity := by
  unfold markPending
  by_cases hactive : s.active.lookup request.identity.scope = some request.identity
  · simp only [if_pos hactive]
    rw [lookup_erase_eq_some]
    constructor
    · rintro ⟨hne, hc⟩
      refine ⟨hc, ?_⟩
      rintro rfl
      exact hne (h.valid.active_highest hc).1.symm
    · rintro ⟨hc, hne⟩
      refine ⟨?_, hc⟩
      rintro rfl
      exact hne (Option.some.inj (hc.symm.trans hactive))
  · simp only [if_neg hactive]
    refine ⟨fun hc => ⟨hc, ?_⟩, And.left⟩
    rintro rfl
    exact hactive ((h.valid.active_highest hc).1 ▸ hc)

theorem Destructible.markPending_valid (h : s.Destructible request) : (s.markPending request).Valid where
  record_key := h.valid.record_key
  epoch_pos := h.valid.epoch_pos
  signing := h.valid.signing
  has_highest := h.valid.has_highest
  destroyed := h.valid.destroyed
  pending_key := forall_insert rfl h.valid.pending_key
  pending_record := forall_insert h.material h.valid.pending_record
  pending_live := forall_insert h.live h.valid.pending_live
  pending_revoked := forall_insert (fun hactive => (h.lookup_active.mp hactive).2 rfl)
    fun _ _ hq hactive => h.valid.pending_revoked hq (h.lookup_active.mp hactive).1
  highest_record := h.valid.highest_record
  highest_max := h.valid.highest_max
  active_highest := fun _ _ hi => h.valid.active_highest (h.lookup_active.mp hi).1
  active_live := fun _ _ hi => h.valid.active_live (h.lookup_active.mp hi).1
  latest := by
    intro c n hc hlive hcalm
    obtain ⟨hne, hcalm⟩ := lookup_insert_eq_none.mp hcalm
    exact h.lookup_active.mpr ⟨h.valid.latest hc hlive hcalm, hne⟩
  tombstone_key := h.valid.tombstone_key
  tombstone_record := h.valid.tombstone_record
  live_unique := h.valid.live_unique
  destroyed_unique := h.valid.destroyed_unique
  live_fresh := h.valid.live_fresh

theorem Destructible.markPending_replaces (h : s.Destructible request) :
    Replaces blake3 s (s.markPending request) where
  before := h.valid
  after := h.markPending_valid
  fresh := by
    intro i r' hr' hnone
    cases hnone.symm.trans hr'
  kept := by
    intro i r hr
    have hself : Replaces blake3 s s := h.valid.replaces_self
    exact hself.kept hr
  pending := by
    intro i q hq
    refine .inl (lookup_insert_eq_some.mpr (.inr ⟨?_, hq⟩))
    rintro rfl
    cases h.calm.symm.trans hq

/-- A destroyed record keeps its identity and its public key. -/
theorem lookup_records_destroy : (s.destroy record tombstone request.identity).records.lookup i = some r ↔
      (i = request.identity ∧ { record with privateMaterialDigest := none } = r) ∨
        (i ≠ request.identity ∧ s.records.lookup i = some r) :=
  lookup_insert_eq_some

theorem lookup_tombstones_destroy :
    (s.destroy record tombstone request.identity).tombstones.lookup i = some t ↔
      (i = request.identity ∧ tombstone = t) ∨ (i ≠ request.identity ∧ s.tombstones.lookup i = some t) :=
  lookup_insert_eq_some

theorem lookup_pending_destroy {q : KeyDestructionRequestV1} :
    (s.destroy record tombstone request.identity).pendingDestructions.lookup i = some q ↔
      i ≠ request.identity ∧ s.pendingDestructions.lookup i = some q :=
  lookup_erase_eq_some

/-- A destruction keeps every record's place, with or without its material. -/
theorem Finalizable.exists_record (hr : s.records.lookup i = some r) :
    ∃ r', (s.destroy record tombstone request.identity).records.lookup i = some r' := by
  by_cases hi : i = request.identity
  · exact ⟨_, lookup_records_destroy.mpr (.inl ⟨hi, rfl⟩)⟩
  · exact ⟨r, lookup_records_destroy.mpr (.inr ⟨hi, hr⟩)⟩

variable (h : s.Finalizable request record)

include h

/-- The record to destroy still holds the requested material. -/
theorem Finalizable.material :
    record.privateMaterialDigest = some request.expectedMaterialDigest := by
  obtain ⟨r, hr, hd⟩ := h.valid.pending_record h.pending
  cases h.found.symm.trans hr
  exact hd

theorem Finalizable.destroy_valid :
    (s.destroy record (tombstoneOf blake3 request receipt) request.identity).Valid where
  record_key := forall_insert (h.valid.record_key h.found :) h.valid.record_key
  epoch_pos := forall_insert (h.valid.epoch_pos h.found) h.valid.epoch_pos
  signing := forall_insert (h.valid.signing h.found :) h.valid.signing
  has_highest := forall_insert (h.valid.has_highest h.found) h.valid.has_highest
  destroyed := by
    intro i r hr hnone
    rcases lookup_records_destroy.mp hr with ⟨hi, rfl⟩ | ⟨hne, hr⟩
    · exact ⟨_, lookup_tombstones_destroy.mpr (.inl ⟨hi, rfl⟩)⟩
    · obtain ⟨t, ht⟩ := h.valid.destroyed hr hnone
      exact ⟨t, lookup_tombstones_destroy.mpr (.inr ⟨hne, ht⟩)⟩
  pending_key := fun _ _ hq => h.valid.pending_key (lookup_pending_destroy.mp hq).2
  pending_record := by
    intro i q hq
    obtain ⟨hne, hq⟩ := lookup_pending_destroy.mp hq
    obtain ⟨r, hr, hd⟩ := h.valid.pending_record hq
    exact ⟨r, lookup_records_destroy.mpr (.inr ⟨hne, hr⟩), hd⟩
  pending_live := by
    intro i q hq
    obtain ⟨hne, hq⟩ := lookup_pending_destroy.mp hq
    exact lookup_insert_eq_none.mpr ⟨hne, h.valid.pending_live hq⟩
  pending_revoked := fun _ _ hq => h.valid.pending_revoked (lookup_pending_destroy.mp hq).2
  highest_record := by
    intro c n hc
    obtain ⟨r, hr⟩ := h.valid.highest_record hc
    exact Finalizable.exists_record hr
  highest_max := fun _ _ hc => forall_insert (h.valid.highest_max hc h.found) (h.valid.highest_max hc)
  active_highest := h.valid.active_highest
  active_live := by
    intro c i hi
    obtain ⟨hlive, r, hr⟩ := h.valid.active_live hi
    refine ⟨lookup_insert_eq_none.mpr ⟨?_, hlive⟩, Finalizable.exists_record hr⟩
    rintro rfl
    exact h.valid.pending_revoked h.pending ((h.valid.active_highest hi).1 ▸ hi)
  latest := by
    intro c n hc hlive hcalm
    obtain ⟨hne, hlive⟩ := lookup_insert_eq_none.mp hlive
    rcases lookup_erase_eq_none.mp hcalm with heq | hcalm
    · exact absurd heq hne
    · exact h.valid.latest hc hlive hcalm
  tombstone_key := forall_insert rfl h.valid.tombstone_key
  tombstone_record := by
    intro i t ht
    rcases lookup_tombstones_destroy.mp ht with ⟨hi, -⟩ | ⟨hne, ht⟩
    · exact ⟨_, lookup_records_destroy.mpr (.inl ⟨hi, rfl⟩), rfl⟩
    · obtain ⟨r, hr, hd⟩ := h.valid.tombstone_record ht
      exact ⟨r, lookup_records_destroy.mpr (.inr ⟨hne, hr⟩), hd⟩
  live_unique := by
    intro i r j r' d hr hr' hd hd'
    rcases lookup_records_destroy.mp hr with ⟨-, rfl⟩ | ⟨-, hr⟩
    · cases hd
    rcases lookup_records_destroy.mp hr' with ⟨-, rfl⟩ | ⟨-, hr'⟩
    · cases hd'
    exact h.valid.live_unique hr hr' hd hd'
  destroyed_unique := by
    intro i t j t' ht ht' hd
    -- the destroyed material was live, so no older tombstone names it
    have hnew : ∀ ⦃k u⦄, s.tombstones.lookup k = some u → u.destroyedMaterialDigest ≠ request.expectedMaterialDigest :=
      fun k u hu heq => h.valid.live_fresh h.found hu (heq ▸ h.material)
    rcases lookup_tombstones_destroy.mp ht with ⟨hi, rfl⟩ | ⟨-, ht⟩ <;>
      rcases lookup_tombstones_destroy.mp ht' with ⟨hj, rfl⟩ | ⟨-, ht'⟩
    · rw [hi, hj]
    · exact absurd hd.symm (hnew ht')
    · exact absurd hd (hnew ht)
    · exact h.valid.destroyed_unique ht ht' hd
  live_fresh := by
    intro i r j t hr ht hd
    rcases lookup_records_destroy.mp hr with ⟨-, rfl⟩ | ⟨hne, hr⟩
    · cases hd
    rcases lookup_tombstones_destroy.mp ht with ⟨-, rfl⟩ | ⟨-, ht⟩
    · exact hne (h.valid.live_unique hr h.found hd h.material)
    · exact h.valid.live_fresh hr ht hd

theorem Finalizable.destroy_replaces : Replaces blake3 s
    (s.destroy record (tombstoneOf blake3 request (KeyRegistry.deletionReceipt blake3 request)) request.identity) where
  before := h.valid
  after := h.destroy_valid
  fresh := by
    intro i r' hr' hnone
    rcases lookup_records_destroy.mp hr' with ⟨rfl, -⟩ | ⟨-, hr⟩
    · cases hnone.symm.trans h.found
    · cases hnone.symm.trans hr
  kept := by
    intro i r hr
    by_cases hi : i = request.identity
    · subst hi
      cases h.found.symm.trans hr
      refine ⟨_, lookup_records_destroy.mpr (.inl ⟨rfl, rfl⟩), rfl, rfl, ?_⟩
      rw [h.material]
      exact ⟨request, h.pending⟩
    · refine ⟨r, lookup_records_destroy.mpr (.inr ⟨hi, hr⟩), rfl, rfl, ?_⟩
      rcases r.privateMaterialDigest with _ | d
      · exact Finmap.lookup_insert_of_ne _ hi
      · rfl
  pending := by
    intro i q hq
    by_cases hi : i = request.identity
    · subst hi
      cases h.pending.symm.trans hq
      exact .inr ⟨_, lookup_tombstones_destroy.mpr (.inl ⟨rfl, rfl⟩), rfl, rfl, rfl⟩
    · exact .inl (lookup_pending_destroy.mpr ⟨hi, hq⟩)

end KeyRegistryStateV1

/-! ## Runs -/

inductive Call where
  | registerKey (registration : KeyRegistrationV1)
  | beginKeyDestruction (request : KeyDestructionRequestV1)
  | completeKeyDestruction (request : KeyDestructionRequestV1) (receipt : Hash)

inductive Outcome where
  | registration (outcome : KeyRegistrationOutcomeV1)
  | destructionBegin (outcome : KeyDestructionBeginOutcomeV1)
  | destruction (outcome : KeyDestructionOutcomeV1)

namespace KeyRegistryStateV1

def exec (s : KeyRegistryStateV1) (blake3 : ByteHash) : Call → Effect Outcome
  | .registerKey registration => (s.registerKey registration).map (Except.map .registration) id
  | .beginKeyDestruction request => (s.beginKeyDestruction blake3 request).map (Except.map .destructionBegin) id
  | .completeKeyDestruction request receipt =>
    (s.completeKeyDestruction blake3 request receipt).map (Except.map .destruction) id

/-- The registry after some calls. -/
def run (blake3 : ByteHash) (s : KeyRegistryStateV1) : List Call → KeyRegistryStateV1
  | [] => s
  | call :: calls => run blake3 (s.exec blake3 call).2 calls

/-- The calls of a run that returned no error. -/
def accepted (blake3 : ByteHash) (s : KeyRegistryStateV1) : List Call → List Call
  | [] => []
  | call :: calls =>
    let rest := accepted blake3 (s.exec blake3 call).2 calls
    if (s.exec blake3 call).1.isOk then call :: rest else rest

/-- What a call that succeeds without a change was told before. -/
def Recorded (s : KeyRegistryStateV1) : Call → Prop
  | .registerKey registration => s.records.lookup registration.identity =
    some ⟨registration.identity, some registration.privateMaterialDigest, registration.publicVerificationKey⟩
  | .beginKeyDestruction request => s.Doomed request.identity
  | .completeKeyDestruction request _ => s.Doomed request.identity

/-- What a call that succeeds does. -/
inductive Step (blake3 : ByteHash) (s : KeyRegistryStateV1) : Call → KeyRegistryStateV1 → Prop where
  | repeated {call : Call} (valid : s.Valid) (recorded : s.Recorded call) : Step blake3 s call s
  | registered {registration : KeyRegistrationV1} (h : s.Registrable registration) :
    Step blake3 s (.registerKey registration) (s.insertKey registration)
  | begun {request : KeyDestructionRequestV1} (h : s.Destructible request) :
    Step blake3 s (.beginKeyDestruction request) (s.markPending request)
  | destroyed {request : KeyDestructionRequestV1} {record : KeyRecordV1} (h : s.Finalizable request record) :
    Step blake3 s (.completeKeyDestruction request (KeyRegistry.deletionReceipt blake3 request))
      (s.destroy record (tombstoneOf blake3 request (KeyRegistry.deletionReceipt blake3 request)) request.identity)

/-- A call fails and changes nothing, or takes a step. -/
theorem exec_cases (s : KeyRegistryStateV1) (blake3 : ByteHash) (call : Call) :
    ((s.exec blake3 call).1.isOk = false ∧ (s.exec blake3 call).2 = s) ∨
      ((s.exec blake3 call).1.isOk = true ∧ Step blake3 s call (s.exec blake3 call).2) := by
  cases call with
  | registerKey registration =>
    simp only [exec, registerKey]
    rcases h : s.checkRegistration registration with e | outcome
    · exact .inl ⟨rfl, rfl⟩
    · rcases checkRegistration_eq_ok h with ⟨rfl, hvalid, hrecord⟩ | ⟨rfl, hnew⟩
      · have hstep : Step blake3 s (.registerKey registration) s := .repeated hvalid hrecord
        exact .inr ⟨rfl, hstep⟩
      · exact .inr ⟨rfl, .registered hnew⟩
  | beginKeyDestruction request =>
    simp only [exec, beginKeyDestruction]
    rcases h : s.checkDestruction blake3 request with e | outcome
    · exact .inl ⟨rfl, rfl⟩
    · rcases checkDestruction_eq_ok h with ⟨hne, hvalid, hdoomed⟩ | ⟨rfl, hnew⟩
      · have hstep : Step blake3 s (.beginKeyDestruction request) s := .repeated hvalid hdoomed
        cases outcome with
        | started => exact absurd rfl hne
        | alreadyPending => exact .inr ⟨rfl, hstep⟩
        | alreadyDestroyed t => exact .inr ⟨rfl, hstep⟩
      · exact .inr ⟨rfl, .begun hnew⟩
  | completeKeyDestruction request receipt =>
    simp only [exec, completeKeyDestruction]
    rcases h : s.checkCompletion blake3 request receipt with e | outcome
    · exact .inl ⟨rfl, rfl⟩
    · rcases checkCompletion_eq_ok h with ⟨t, rfl, hvalid, hdoomed⟩ | ⟨record, rfl, hnew, rfl⟩
      · have hstep : Step blake3 s (.completeKeyDestruction request receipt) s := .repeated hvalid hdoomed
        exact .inr ⟨rfl, hstep⟩
      · exact .inr ⟨rfl, .destroyed hnew⟩

variable {call : Call}

theorem Step.replaces (h : Step blake3 s call s') : Replaces blake3 s s' := by
  cases h with
  | repeated valid => exact valid.replaces_self
  | registered h => exact h.insert_replaces
  | begun h => exact h.markPending_replaces
  | destroyed h => exact h.destroy_replaces

/-! ## What the history of calls says -/

theorem Replaces.tombstone (h : Replaces blake3 s s') (ht : s.tombstones.lookup i = some t) :
    s'.tombstones.lookup i = some t := by
  obtain ⟨r, hr, hd⟩ := h.before.tombstone_record ht
  obtain ⟨r', -, -, -, hstep⟩ := h.kept hr
  rw [hd] at hstep
  generalize r'.privateMaterialDigest = material at hstep
  rcases material with _ | d
  · exact Eq.trans hstep ht
  · exact hstep.elim

/-- A destruction that has begun is never taken back. -/
theorem Replaces.doomed (h : Replaces blake3 s s') (hdoomed : s.Doomed i) : s'.Doomed i := by
  rcases hdoomed with ⟨q, hq⟩ | ⟨t, ht⟩
  · rcases h.pending hq with hq' | ⟨t, ht, -⟩
    · exact .inl ⟨q, hq'⟩
    · exact .inr ⟨t, ht⟩
  · exact .inr ⟨t, h.tombstone ht⟩

/-- A registry that agrees with the calls accepted so far. -/
structure Accounts (history : List Call) (s : KeyRegistryStateV1) : Prop where
  valid : s.Valid
  recorded : ∀ ⦃registration⦄, Call.registerKey registration ∈ history →
    ∃ r, s.records.lookup registration.identity = some r
  registered : ∀ ⦃i r d⦄, s.records.lookup i = some r → r.privateMaterialDigest = some d →
    Call.registerKey ⟨i, d, r.publicVerificationKey⟩ ∈ history
  begun : ∀ ⦃request⦄, Call.beginKeyDestruction request ∈ history → s.Doomed request.identity

theorem accounts_new : Accounts [] new where
  valid := validate_eq_ok.mp rfl
  recorded := fun _ h => absurd h not_mem_nil
  registered := fun _ _ _ h => by cases h
  begun := fun _ h => absurd h not_mem_nil

variable {history : List Call}

theorem Accounts.step (h : Accounts history s) (hstep : Step blake3 s call s') : Accounts (history ++ [call]) s' where
  valid := hstep.replaces.after
  recorded := by
    intro registration hmem
    rcases mem_append.mp hmem with hmem | hmem
    · obtain ⟨r, hr⟩ := h.recorded hmem
      obtain ⟨r', hr', -⟩ := hstep.replaces.kept hr
      exact ⟨r', hr'⟩
    · cases mem_singleton.mp hmem
      cases hstep with
      | repeated valid recorded => exact ⟨_, recorded⟩
      | registered h => exact ⟨_, h.lookup_records.mpr (.inl ⟨rfl, rfl⟩)⟩
  registered := by
    intro i r d hr hd
    cases hstep with
    | repeated valid recorded | begun hnew => exact mem_append_left _ (h.registered hr hd)
    | registered hnew =>
      rcases hnew.lookup_records.mp hr with ⟨rfl, rfl⟩ | hr
      · cases hd
        exact mem_append_right _ (mem_singleton.mpr rfl)
      · exact mem_append_left _ (h.registered hr hd)
    | destroyed hnew =>
      rcases lookup_records_destroy.mp hr with ⟨-, rfl⟩ | ⟨-, hr⟩
      · cases hd
      · exact mem_append_left _ (h.registered hr hd)
  begun := by
    intro request hmem
    rcases mem_append.mp hmem with hmem | hmem
    · exact hstep.replaces.doomed (h.begun hmem)
    · cases mem_singleton.mp hmem
      cases hstep with
      | repeated valid recorded => exact recorded
      | begun hnew => exact .inl ⟨request, Finmap.lookup_insert _⟩

theorem Accounts.run (h : Accounts history s) (calls : List Call) :
    Accounts (history ++ s.accepted blake3 calls) (s.run blake3 calls) := by
  induction calls generalizing s history with
  | nil => rwa [accepted, append_nil]
  | cons call calls ih =>
    rw [KeyRegistryStateV1.run, accepted]
    rcases exec_cases s blake3 call with ⟨hok, heq⟩ | ⟨hok, hstep⟩
    · rw [if_neg (by rw [hok]; exact Bool.false_ne_true), heq]
      exact ih h
    · rw [if_pos hok, append_cons]
      exact ih (h.step hstep)

theorem liveRecord_eq_ok (h : s.liveRecord i = .ok r) : s.Valid ∧ s.records.lookup i = some r ∧ ¬ s.Doomed i := by
  obtain ⟨⟨⟩, hvalid, h⟩ := bind_eq_ok.mp h
  rcases hr : s.records.lookup i with _ | record
  · rw [hr] at h
    cases h
  rw [hr] at h
  obtain ⟨⟨⟩, hlive, h⟩ := bind_eq_ok.mp h
  cases h
  obtain ⟨htombstone, hpending⟩ := refuseDestroyed_eq_ok.mp hlive
  refine ⟨validate_eq_ok.mp ?_, rfl, ?_⟩
  · rcases hv : s.validate with e | ⟨⟩
    · rw [hv] at hvalid
      cases hvalid
    · rfl
  · rintro (⟨q, hq⟩ | ⟨t, ht⟩)
    · cases hpending.symm.trans hq
    · cases htombstone.symm.trans ht

theorem activeRecord_eq_ok (h : s.activeRecord i = .ok r) :
    s.Valid ∧ s.records.lookup i = some r ∧ ¬ s.Doomed i ∧ s.active.lookup i.scope = some i := by
  obtain ⟨record, hlive, h⟩ := bind_eq_ok.mp h
  rcases ha : s.active.lookup i.scope with _ | j
  · rw [ha] at h
    cases h
  · rw [ha] at h
    dsimp only at h
    split_ifs at h with hj
    cases h
    obtain ⟨hvalid, hr, hdoomed⟩ := liveRecord_eq_ok hlive
    exact ⟨hvalid, hr, hdoomed, by rw [not_not.mp hj]⟩

/-- The newest epoch of its owner and role, with exactly this material and key, and no destruction begun. -/
structure Entitled (history : List Call) (identity : KeyIdentityV1) (digest : Hash) (key : Option PublicKey) :
    Prop where
  newest : ∀ registration, Call.registerKey registration ∈ history → registration.identity.ownerId = identity.ownerId →
    registration.identity.role = identity.role → registration.identity.epoch ≤ identity.epoch
  registered : Call.registerKey ⟨identity, digest, key⟩ ∈ history
  untouched : ∀ request, Call.beginKeyDestruction request ∈ history → request.identity ≠ identity

/-- An active record's material is what the history entitles it to. -/
theorem Accounts.entitled (h : Accounts history s)
    (hactive : s.activeRecord i = .ok r) (hd : r.privateMaterialDigest = some d) :
    Entitled history i d r.publicVerificationKey := by
  obtain ⟨hvalid, hr, hdoomed, hi⟩ := activeRecord_eq_ok hactive
  refine ⟨fun registration hmem howner hrole => ?_, h.registered hr hd, ?_⟩
  · obtain ⟨r', hr'⟩ := h.recorded hmem
    exact hvalid.highest_max (hvalid.active_highest hi).2 hr' (Prod.ext howner hrole)
  · rintro request hmem rfl
    exact hdoomed (h.begun hmem)

section Authorizations

variable {α : Type} {key : PublicKey} {operation : Unit → α} {a : α}

theorem withSigningAuthorization_eq_ok (h : s.withSigningAuthorization i d key operation = .ok a) :
    ∃ r, s.activeRecord i = .ok r ∧ r.privateMaterialDigest = some d ∧ r.publicVerificationKey = some key := by
  replace h := of_check h
  split_ifs at h
  obtain ⟨r, hr, h⟩ := bind_eq_ok.mp h
  split_ifs at h with hmismatch
  obtain ⟨hd, hk⟩ := not_or.mp hmismatch
  exact ⟨r, hr, not_not.mp hd, not_not.mp hk⟩

theorem withEncryptionAuthorization_eq_ok (h : s.withEncryptionAuthorization i d operation = .ok a) :
    i.role.isEncryption = true ∧ ∃ r, s.activeRecord i = .ok r ∧ r.privateMaterialDigest = some d := by
  replace h := of_check h
  split_ifs at h with hrole
  obtain ⟨r, hr, h⟩ := bind_eq_ok.mp h
  split_ifs at h with hmismatch
  exact ⟨by simpa using hrole, r, hr, not_not.mp hmismatch⟩

theorem withDecryptionAuthorization_eq_ok (h : s.withDecryptionAuthorization i d operation = .ok a) :
    ∃ r, s.liveRecord i = .ok r ∧ r.privateMaterialDigest = some d := by
  replace h := of_check h
  obtain ⟨r, hr, h⟩ := bind_eq_ok.mp h
  split_ifs at h with hmismatch
  exact ⟨r, hr, not_not.mp hmismatch⟩

end Authorizations

/-- Any run from the empty registry: each state is valid, a failed call changes nothing and every other
one is a replacement, and who is authorized to sign or to encrypt is entitled to by the history. -/
theorem lifecycle_sound (blake3 : ByteHash) (calls : List Call) :
    (new.run blake3 calls).validate = .ok () ∧
    (∀ call, (((new.run blake3 calls).exec blake3 call).1.isOk = false →
        ((new.run blake3 calls).exec blake3 call).2 = new.run blake3 calls) ∧
      (((new.run blake3 calls).exec blake3 call).1.isOk = true →
        (new.run blake3 calls).validateReplacement blake3 ((new.run blake3 calls).exec blake3 call).2 = .ok ())) ∧
    (∀ (α : Type) (operation : Unit → α) (a : α) (identity : KeyIdentityV1) (digest : Hash) (key : PublicKey),
      (new.run blake3 calls).withSigningAuthorization identity digest key operation = .ok a →
        Entitled (new.accepted blake3 calls) identity digest (some key)) ∧
    (∀ (α : Type) (operation : Unit → α) (a : α) (identity : KeyIdentityV1) (digest : Hash),
      (new.run blake3 calls).withEncryptionAuthorization identity digest operation = .ok a →
        Entitled (new.accepted blake3 calls) identity digest none) := by
  have haccounts : Accounts (new.accepted blake3 calls) (new.run blake3 calls) := accounts_new.run calls
  generalize new.run blake3 calls = s at *
  refine ⟨validate_eq_ok.mpr haccounts.valid, fun call => ?_, ?_, ?_⟩
  · rcases exec_cases s blake3 call with ⟨hok, heq⟩ | ⟨hok, hstep⟩
    · exact ⟨fun _ => heq, fun hok' => absurd (hok.symm.trans hok') Bool.false_ne_true⟩
    · exact ⟨fun hok' => absurd (hok'.symm.trans hok) Bool.false_ne_true,
        fun _ => validateReplacement_eq_ok.mpr hstep.replaces⟩
  · intro α operation a i d key h
    obtain ⟨r, hr, hd, hkey⟩ := withSigningAuthorization_eq_ok h
    exact hkey ▸ haccounts.entitled hr hd
  · intro α operation a i d h
    obtain ⟨hrole, r, hr, hd⟩ := withEncryptionAuthorization_eq_ok h
    -- an encryption record has no verification key
    have hkey : r.publicVerificationKey = none := by
      have hsigning := haccounts.valid.signing (activeRecord_eq_ok hr).2.1
      rw [isEncryption_eq, Bool.not_eq_true'] at hrole
      rw [hrole] at hsigning
      exact Option.not_isSome_iff_eq_none.mp (by rw [← hsigning]; exact Bool.false_ne_true)
    exact hkey ▸ haccounts.entitled hr hd

end KeyRegistryStateV1

end Piglor.KeyRegistry
