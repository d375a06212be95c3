/-
What the registry's two validators say, as relations between its five maps. A snapshot is accepted
exactly when it is `Valid`, and a replacement exactly when the next state `Replaces` the previous one.
-/
import PiglorProofs.Keys.Registry

namespace Piglor.KeyRegistry

open Checked Table Multiset

namespace KeyRegistryStateV1

/-- The relations between the maps of a registry. -/
structure Valid (s : KeyRegistryStateV1) : Prop where
  record_key : ∀ ⦃i r⦄, s.records.lookup i = some r → r.identity = i
  epoch_pos : ∀ ⦃i r⦄, s.records.lookup i = some r → i.epoch ≠ 0
  signing : ∀ ⦃i r⦄, s.records.lookup i = some r → i.role.isSigning = r.publicVerificationKey.isSome
  has_highest : ∀ ⦃i r⦄, s.records.lookup i = some r → ∃ h, s.highestEpoch.lookup i.scope = some h
  destroyed : ∀ ⦃i r⦄, s.records.lookup i = some r → r.privateMaterialDigest = none →
    ∃ t, s.tombstones.lookup i = some t
  pending_key : ∀ ⦃i q⦄, s.pendingDestructions.lookup i = some q → q.identity = i
  pending_record : ∀ ⦃i q⦄, s.pendingDestructions.lookup i = some q →
    ∃ r, s.records.lookup i = some r ∧ r.privateMaterialDigest = some q.expectedMaterialDigest
  pending_live : ∀ ⦃i q⦄, s.pendingDestructions.lookup i = some q → s.tombstones.lookup i = none
  pending_revoked : ∀ ⦃i q⦄, s.pendingDestructions.lookup i = some q → s.active.lookup i.scope ≠ some i
  highest_record : ∀ ⦃c h⦄, s.highestEpoch.lookup c = some h → ∃ r, s.records.lookup (c.identity h) = some r
  highest_max : ∀ ⦃c h⦄, s.highestEpoch.lookup c = some h → ∀ ⦃i r⦄, s.records.lookup i = some r → i.scope = c →
    i.epoch ≤ h
  active_highest : ∀ ⦃c i⦄, s.active.lookup c = some i → i.scope = c ∧ s.highestEpoch.lookup c = some i.epoch
  active_live : ∀ ⦃c i⦄, s.active.lookup c = some i →
    s.tombstones.lookup i = none ∧ ∃ r, s.records.lookup i = some r
  latest : ∀ ⦃c h⦄, s.highestEpoch.lookup c = some h → s.tombstones.lookup (c.identity h) = none →
    s.pendingDestructions.lookup (c.identity h) = none → s.active.lookup c = some (c.identity h)
  tombstone_key : ∀ ⦃i t⦄, s.tombstones.lookup i = some t → t.identity = i
  tombstone_record : ∀ ⦃i t⦄, s.tombstones.lookup i = some t →
    ∃ r, s.records.lookup i = some r ∧ r.privateMaterialDigest = none
  live_unique : ∀ ⦃i r j r' d⦄, s.records.lookup i = some r → s.records.lookup j = some r' →
    r.privateMaterialDigest = some d → r'.privateMaterialDigest = some d → i = j
  destroyed_unique : ∀ ⦃i t j t'⦄, s.tombstones.lookup i = some t → s.tombstones.lookup j = some t' →
    t.destroyedMaterialDigest = t'.destroyedMaterialDigest → i = j
  live_fresh : ∀ ⦃i r j t⦄, s.records.lookup i = some r → s.tombstones.lookup j = some t →
    r.privateMaterialDigest ≠ some t.destroyedMaterialDigest

theorem scope_identity (c : KeyScope) (epoch : Nat) : (c.identity epoch).scope = c := rfl

theorem identity_scope (i : KeyIdentityV1) : i.scope.identity i.epoch = i := rfl

theorem validateText_ownerId (owner : OwnerIdV1) : OwnerIdV1.validateText owner.text = true := by
  simp [OwnerIdV1.validateText, owner.valid]

variable {h : Nat}

/-- The greatest of some epochs. -/
theorem sup_coe_eq {epochs : Multiset (WithBot Nat)} (hcoe : ∀ e ∈ epochs, ∃ n, e = WithBot.some n) :
    epochs.sup = WithBot.some h ↔ WithBot.some h ∈ epochs ∧ ∀ n : Nat, WithBot.some n ∈ epochs → n ≤ h := by
  have hle : ∀ n : Nat, WithBot.some n ∈ epochs → WithBot.some n ≤ epochs.sup := fun n hn => le_sup hn
  constructor
  · intro hsup
    refine ⟨?_, fun n hn => WithBot.coe_le_coe.mp (hsup ▸ hle n hn)⟩
    -- a nonempty join of a linear order is attained
    have hattained : ∀ m : Multiset (WithBot Nat), m.sup = ⊥ ∨ m.sup ∈ m := by
      intro m
      induction m using Multiset.induction with
      | empty => exact .inl rfl
      | cons e m ih =>
        rw [sup_cons]
        rcases le_total e m.sup with hem | hem
        · rw [sup_eq_right.mpr hem]
          exact ih.imp_right (mem_cons_of_mem)
        · rw [sup_eq_left.mpr hem]
          exact .inr (mem_cons_self e m)
    rcases hattained epochs with hbot | hmem
    · rw [hsup] at hbot
      cases hbot
    · rwa [hsup] at hmem
  · rintro ⟨hmem, hmax⟩
    refine le_antisymm (sup_le.mpr fun e he => ?_) (hle h hmem)
    obtain ⟨n, rfl⟩ := hcoe e he
    exact WithBot.coe_le_coe.mpr (hmax n he)

variable {s : KeyRegistryStateV1} {c : KeyScope}

theorem mem_epochs {n : Nat} :
    WithBot.some n ∈ s.records.rows (fun i _ => decide (i.scope = c)) (fun i _ => WithBot.some i.epoch) ↔
      ∃ r, s.records.lookup (c.identity n) = some r := by
  rw [mem_rows]
  constructor
  · rintro ⟨i, r, hr, hscope, hn⟩
    have hi : i = c.identity n := by
      rw [← identity_scope i, of_decide_eq_true hscope, WithBot.coe_inj.mp hn]
    exact ⟨r, hi ▸ hr⟩
  · rintro ⟨r, hr⟩
    exact ⟨_, r, hr, decide_eq_true (scope_identity c n), rfl⟩

theorem maximumEpoch_eq : s.maximumEpoch c = WithBot.some h ↔
    (∃ r, s.records.lookup (c.identity h) = some r) ∧
      ∀ ⦃i r⦄, s.records.lookup i = some r → i.scope = c → i.epoch ≤ h := by
  unfold maximumEpoch
  rw [sup_coe_eq, mem_epochs]
  · refine and_congr_right fun _ => ?_
    constructor
    · rintro hmax i r hr rfl
      exact hmax i.epoch (mem_epochs.mpr ⟨r, hr⟩)
    · intro hmax n hn
      obtain ⟨r, hr⟩ := mem_epochs.mp hn
      exact hmax hr rfl
  · intro e he
    obtain ⟨i, r, -, -, rfl⟩ := mem_rows.mp he
    exact ⟨i.epoch, rfl⟩

theorem nodup_reservedMaterial : s.reservedMaterial.Nodup ↔
    (∀ ⦃i r j r' d⦄, s.records.lookup i = some r → s.records.lookup j = some r' →
      r.privateMaterialDigest = some d → r'.privateMaterialDigest = some d → i = j) ∧
    (∀ ⦃i t j t'⦄, s.tombstones.lookup i = some t → s.tombstones.lookup j = some t' →
      t.destroyedMaterialDigest = t'.destroyedMaterialDigest → i = j) ∧
    ∀ ⦃i r j t⦄, s.records.lookup i = some r → s.tombstones.lookup j = some t →
      r.privateMaterialDigest ≠ some t.destroyedMaterialDigest := by
  unfold reservedMaterial
  rw [nodup_add, nodup_collect, nodup_collect, disjoint_left]
  refine and_congr Iff.rfl (and_congr ?_ ?_)
  · constructor
    · intro h i t j t' ht ht' heq
      exact h ht ht' rfl (congrArg some heq.symm)
    · intro h i t j t' d ht ht' hd hd'
      exact h ht ht' (Option.some.inj (hd.trans hd'.symm))
  · constructor
    · intro h i r j t hr ht heq
      exact h (mem_collect.mpr ⟨i, r, hr, heq⟩) (mem_collect.mpr ⟨j, t, ht, rfl⟩)
    · intro h d hd hd'
      obtain ⟨i, r, hr, hrd⟩ := mem_collect.mp hd
      obtain ⟨j, t, ht, htd⟩ := mem_collect.mp hd'
      cases htd
      exact h hr ht hrd

/-! ## The loops -/

theorem validateRecords_iff : s.validateRecords = true ↔ ∀ i r, s.records.lookup i = some r →
    r.identity = i ∧ i.epoch ≠ 0 ∧ i.role.isSigning = r.publicVerificationKey.isSome ∧
      (∃ h, s.highestEpoch.lookup i.scope = some h) ∧
      (r.privateMaterialDigest = none → ∃ t, s.tombstones.lookup i = some t) := by
  refine all_iff.trans (forall₃_congr fun i r _ => ?_)
  rcases r.privateMaterialDigest with _ | d <;>
    simp [validateText_ownerId, and_assoc, Option.isSome_iff_exists]

theorem validatePendingDestructions_iff : s.validatePendingDestructions = true ↔
    ∀ i q, s.pendingDestructions.lookup i = some q → q.identity = i ∧
      (∃ r, s.records.lookup i = some r ∧ r.privateMaterialDigest = some q.expectedMaterialDigest) ∧
      s.tombstones.lookup i = none ∧ s.active.lookup i.scope ≠ some i := by
  refine all_iff.trans (forall₃_congr fun i q _ => ?_)
  rcases s.records.lookup i with _ | r <;> simp [and_assoc]

theorem validateHighWaterMaxima_iff : s.validateHighWaterMaxima = true ↔
    ∀ c h, s.highestEpoch.lookup c = some h → (∃ r, s.records.lookup (c.identity h) = some r) ∧
      ∀ ⦃i r⦄, s.records.lookup i = some r → i.scope = c → i.epoch ≤ h := by
  refine all_iff.trans (forall₃_congr fun c h _ => ?_)
  rw [decide_eq_true_iff, maximumEpoch_eq]

theorem validateActive_iff : s.validateActive = true ↔ ∀ c i, s.active.lookup c = some i →
    (i.scope = c ∧ s.highestEpoch.lookup c = some i.epoch) ∧ s.tombstones.lookup i = none ∧
      ∃ r, s.records.lookup i = some r := by
  refine all_iff.trans (forall₃_congr fun c i _ => ?_)
  obtain ⟨owner, role⟩ := c
  simp only [validateText_ownerId, KeyIdentityV1.scope, Bool.true_and, Bool.and_eq_true, decide_eq_true_eq,
    Option.isNone_iff_eq_none, Option.isSome_iff_exists, Prod.mk.injEq]
  tauto

theorem validateLatestEpochs_iff : s.validateLatestEpochs = true ↔ ∀ c h, s.highestEpoch.lookup c = some h →
    s.tombstones.lookup (c.identity h) = none → s.pendingDestructions.lookup (c.identity h) = none →
      s.active.lookup c = some (c.identity h) := by
  refine all_iff.trans (forall₃_congr fun c h _ => ?_)
  simp only [Bool.and_eq_true, Option.isNone_iff_eq_none]
  split
  · rename_i hopen
    simp [hopen.1, hopen.2]
  · rename_i hopen
    simpa using fun ht hp => absurd ⟨ht, hp⟩ hopen

theorem validateTombstones_iff : s.validateTombstones = true ↔ ∀ i t, s.tombstones.lookup i = some t →
    t.identity = i ∧ ∃ r, s.records.lookup i = some r ∧ r.privateMaterialDigest = none := by
  refine all_iff.trans (forall₃_congr fun i t _ => ?_)
  rcases s.records.lookup i with _ | r <;> simp

/-- A snapshot is accepted exactly when it is valid. -/
theorem validate_eq_ok : s.validate = .ok () ↔ s.Valid := by
  have hbool : s.validate = .ok () ↔ ((((((s.validateRecords = true ∧ s.validatePendingDestructions = true) ∧
      s.validateHighWaterMaxima = true) ∧ s.validateActive = true) ∧ s.validateLatestEpochs = true) ∧
      s.validateTombstones = true) ∧ s.reservedMaterial.Nodup) := by
    unfold validate
    split
    · rename_i h
      simpa using h
    · rename_i h
      simpa using h
  rw [hbool, validateRecords_iff, validatePendingDestructions_iff, validateHighWaterMaxima_iff, validateActive_iff,
    validateLatestEpochs_iff, validateTombstones_iff, nodup_reservedMaterial]
  constructor
  · rintro ⟨⟨⟨⟨⟨⟨hrec, hpend⟩, hhigh⟩, hact⟩, hlatest⟩, htomb⟩, hlive, hdead, hfresh⟩
    exact
      { record_key := fun i r h => (hrec i r h).1
        epoch_pos := fun i r h => (hrec i r h).2.1
        signing := fun i r h => (hrec i r h).2.2.1
        has_highest := fun i r h => (hrec i r h).2.2.2.1
        destroyed := fun i r h => (hrec i r h).2.2.2.2
        pending_key := fun i q h => (hpend i q h).1
        pending_record := fun i q h => (hpend i q h).2.1
        pending_live := fun i q h => (hpend i q h).2.2.1
        pending_revoked := fun i q h => (hpend i q h).2.2.2
        highest_record := fun c h hc => (hhigh c h hc).1
        highest_max := fun c h hc => (hhigh c h hc).2
        active_highest := fun c i h => (hact c i h).1
        active_live := fun c i h => (hact c i h).2
        latest := hlatest
        tombstone_key := fun i t h => (htomb i t h).1
        tombstone_record := fun i t h => (htomb i t h).2
        live_unique := hlive
        destroyed_unique := hdead
        live_fresh := hfresh }
  · intro h
    exact ⟨⟨⟨⟨⟨⟨fun i r hr => ⟨h.record_key hr, h.epoch_pos hr, h.signing hr, h.has_highest hr, h.destroyed hr⟩,
      fun i q hq => ⟨h.pending_key hq, h.pending_record hq, h.pending_live hq, h.pending_revoked hq⟩⟩,
      fun c n hc => ⟨h.highest_record hc, h.highest_max hc⟩⟩, fun c i hi => ⟨h.active_highest hi, h.active_live hi⟩⟩,
      h.latest⟩, fun i t ht => ⟨h.tombstone_key ht, h.tombstone_record ht⟩⟩, h.live_unique, h.destroyed_unique,
      h.live_fresh⟩

/-! ## Replacement -/

/-- What the next state may make of a record's material. -/
def MaterialStep (s s' : KeyRegistryStateV1) (i : KeyIdentityV1) : Option Hash → Option Hash → Prop
  | some d, some d' => d = d'
  | none, some _ => False
  | some _, none => ∃ q, s.pendingDestructions.lookup i = some q
  | none, none => s'.tombstones.lookup i = s.tombstones.lookup i

/-- The relation between two valid states that a replacement keeps. -/
structure Replaces (blake3 : ByteHash) (s s' : KeyRegistryStateV1) : Prop where
  before : s.Valid
  after : s'.Valid
  fresh : ∀ ⦃i r'⦄, s'.records.lookup i = some r' → s.records.lookup i = none →
    s'.tombstones.lookup i = none ∧ s'.pendingDestructions.lookup i = none ∧
      ∀ h, s.highestEpoch.lookup i.scope = some h → h < i.epoch
  kept : ∀ ⦃i r⦄, s.records.lookup i = some r → ∃ r', s'.records.lookup i = some r' ∧ r'.identity = r.identity ∧
    r'.publicVerificationKey = r.publicVerificationKey ∧
    MaterialStep s s' i r.privateMaterialDigest r'.privateMaterialDigest
  pending : ∀ ⦃i q⦄, s.pendingDestructions.lookup i = some q → s'.pendingDestructions.lookup i = some q ∨
    ∃ t, s'.tombstones.lookup i = some t ∧ t.destroyedMaterialDigest = q.expectedMaterialDigest ∧
      t.destructionDigest = destructionDigest blake3 q ∧ t.deletionReceipt = deletionReceipt blake3 q

variable {s' : KeyRegistryStateV1} {blake3 : ByteHash} {i : KeyIdentityV1}

theorem validateNewRecord_iff : s.validateNewRecord s' i = true ↔ (s.records.lookup i = none →
    s'.tombstones.lookup i = none ∧ s'.pendingDestructions.lookup i = none ∧
      ∀ h, s.highestEpoch.lookup i.scope = some h → h < i.epoch) := by
  unfold validateNewRecord
  rcases s.records.lookup i with _ | r
  · rcases s.highestEpoch.lookup i.scope with _ | h <;> simp [and_assoc]
  · simp

theorem validateRetainedRecord_iff {r : KeyRecordV1} : s.validateRetainedRecord s' i r = true ↔
    ∃ r', s'.records.lookup i = some r' ∧ r'.identity = r.identity ∧
      r'.publicVerificationKey = r.publicVerificationKey ∧
      MaterialStep s s' i r.privateMaterialDigest r'.privateMaterialDigest := by
  unfold validateRetainedRecord
  rcases s'.records.lookup i with _ | r'
  · simp
  · rcases hd : r.privateMaterialDigest with _ | d <;> rcases hd' : r'.privateMaterialDigest with _ | d' <;>
      simp [hd', MaterialStep, and_assoc, Option.isSome_iff_exists]

theorem validatePendingRequest_iff {q : KeyDestructionRequestV1} :
    validatePendingRequest blake3 s' i q = true ↔ s'.pendingDestructions.lookup i = some q ∨
      ∃ t, s'.tombstones.lookup i = some t ∧ t.destroyedMaterialDigest = q.expectedMaterialDigest ∧
        t.destructionDigest = destructionDigest blake3 q ∧ t.deletionReceipt = deletionReceipt blake3 q := by
  unfold validatePendingRequest
  rcases s'.tombstones.lookup i with _ | t <;> simp [and_assoc]

/-- A replacement is accepted exactly when it is one. -/
theorem validateReplacement_eq_ok : s.validateReplacement blake3 s' = .ok () ↔ Replaces blake3 s s' := by
  have hloops : s.validateReplacement blake3 s' = .ok () ↔ s.Valid ∧ s'.Valid ∧
      (((s'.records.all fun i _ => s.validateNewRecord s' i) = true ∧
        (s.records.all fun i r => s.validateRetainedRecord s' i r) = true) ∧
        s.pendingDestructions.all (validatePendingRequest blake3 s') = true) := by
    unfold validateReplacement
    constructor
    · intro h
      obtain ⟨⟨⟩, hs, h⟩ := bind_eq_ok.mp h
      obtain ⟨⟨⟩, hs', h⟩ := bind_eq_ok.mp h
      refine ⟨validate_eq_ok.mp hs, validate_eq_ok.mp hs', ?_⟩
      split at h
      · rename_i hall
        simpa using hall
      · cases h
    · rintro ⟨hs, hs', hall⟩
      rw [validate_eq_ok.mpr hs, ok_bind, validate_eq_ok.mpr hs', ok_bind, if_pos (by simpa using hall)]
  rw [hloops, all_iff, all_iff, all_iff]
  simp only [validateNewRecord_iff, validateRetainedRecord_iff, validatePendingRequest_iff]
  constructor
  · rintro ⟨hs, hs', ⟨hnew, hkept⟩, hpending⟩
    exact ⟨hs, hs', hnew, hkept, hpending⟩
  · intro h
    exact ⟨h.before, h.after, ⟨h.fresh, h.kept⟩, h.pending⟩

/-- A valid state replaces itself. -/
theorem Valid.replaces_self (h : s.Valid) : Replaces blake3 s s where
  before := h
  after := h
  fresh := fun i r' hr' hr => by rw [hr] at hr'; cases hr'
  kept := by
    intro i r hr
    refine ⟨r, hr, rfl, rfl, ?_⟩
    rcases r.privateMaterialDigest with _ | d <;> rfl
  pending := fun i q hq => .inl hq

end KeyRegistryStateV1

end Piglor.KeyRegistry
