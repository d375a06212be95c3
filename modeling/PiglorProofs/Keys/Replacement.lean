/-
Durable replacement never rolls a destruction back. The check of one replacement is not transitive, so
what a whole chain of replacements keeps is a weaker relation that is: every tombstone and every begun
destruction stays, high-water epochs only rise, and a public key never changes.
-/
import PiglorProofs.Keys.Lifecycle

namespace Piglor.KeyRegistry

namespace KeyRegistryStateV1

variable {s s' s'' : KeyRegistryStateV1} {blake3 : ByteHash}

/-- What every later state of a chain of replacements keeps. -/
structure Evolves (s s' : KeyRegistryStateV1) : Prop where
  valid : s'.Valid
  tombstone : ∀ ⦃i t⦄, s.tombstones.lookup i = some t → s'.tombstones.lookup i = some t
  doomed : ∀ ⦃i⦄, s.Doomed i → s'.Doomed i
  highest : ∀ ⦃c h⦄, s.highestEpoch.lookup c = some h → ∃ h', s'.highestEpoch.lookup c = some h' ∧ h ≤ h'
  publicKey : ∀ ⦃i r⦄, s.records.lookup i = some r →
    ∃ r', s'.records.lookup i = some r' ∧ r'.publicVerificationKey = r.publicVerificationKey

theorem Replaces.evolves (h : Replaces blake3 s s') : Evolves s s' where
  valid := h.after
  tombstone := fun _ _ => h.tombstone
  doomed := fun _ => h.doomed
  highest := by
    intro c n hn
    obtain ⟨r, hr⟩ := h.before.highest_record hn
    obtain ⟨r', hr', -⟩ := h.kept hr
    obtain ⟨n', hn'⟩ := h.after.has_highest hr'
    exact ⟨n', hn', h.after.highest_max hn' hr' rfl⟩
  publicKey := by
    intro i r hr
    obtain ⟨r', hr', -, hkey, -⟩ := h.kept hr
    exact ⟨r', hr', hkey⟩

theorem Evolves.trans (h : Evolves s s') (h' : Evolves s' s'') : Evolves s s'' where
  valid := h'.valid
  tombstone := fun _ _ ht => h'.tombstone (h.tombstone ht)
  doomed := fun _ hd => h'.doomed (h.doomed hd)
  highest := by
    intro c n hn
    obtain ⟨n', hn', hle⟩ := h.highest hn
    obtain ⟨n'', hn'', hle'⟩ := h'.highest hn'
    exact ⟨n'', hn'', hle.trans hle'⟩
  publicKey := by
    intro i r hr
    obtain ⟨r', hr', hkey⟩ := h.publicKey hr
    obtain ⟨r'', hr'', hkey'⟩ := h'.publicKey hr'
    exact ⟨r'', hr'', hkey'.trans hkey⟩

instance : IsTrans KeyRegistryStateV1 Evolves := ⟨fun _ _ _ => Evolves.trans⟩

theorem evolves_of_chain {states : List KeyRegistryStateV1}
    (h : states.IsChain fun s s' => s.validateReplacement blake3 s' = .ok ()) {i j : Nat} (hij : i < j)
    (hs : states[i]? = some s) (hs' : states[j]? = some s') : Evolves s s' := by
  have hevolves : states.Pairwise Evolves :=
    List.isChain_iff_pairwise.mp (h.imp fun _ _ hok => (validateReplacement_eq_ok.mp hok).evolves)
  obtain ⟨hi, rfl⟩ := List.getElem?_eq_some_iff.mp hs
  obtain ⟨hj, rfl⟩ := List.getElem?_eq_some_iff.mp hs'
  exact List.pairwise_iff_getElem.mp hevolves i j hi hj hij

/-- No authorization for the identity succeeds, whatever is presented. -/
def Unauthorized (s : KeyRegistryStateV1) (identity : KeyIdentityV1) : Prop :=
  ∀ (α : Type) (operation : Unit → α) (a : α) (digest : Hash) (key : PublicKey),
    s.withSigningAuthorization identity digest key operation ≠ .ok a ∧
    s.withEncryptionAuthorization identity digest operation ≠ .ok a ∧
    s.withDecryptionAuthorization identity digest operation ≠ .ok a

theorem Doomed.unauthorized {i : KeyIdentityV1} (h : s.Doomed i) : s.Unauthorized i := by
  intro α operation a digest key
  refine ⟨fun hok => ?_, fun hok => ?_, fun hok => ?_⟩
  · obtain ⟨r, hr, -⟩ := withSigningAuthorization_eq_ok hok
    exact (activeRecord_eq_ok hr).2.2.1 h
  · obtain ⟨-, r, hr, -⟩ := withEncryptionAuthorization_eq_ok hok
    exact (activeRecord_eq_ok hr).2.2.1 h
  · obtain ⟨r, hr, -⟩ := withDecryptionAuthorization_eq_ok hok
    exact (liveRecord_eq_ok hr).2.2 h

/-- Between any state of a chain of replacements and any later one: a tombstone is unchanged, its
material is never live again, a destroyed or pending identity is never authorized, high-water epochs
never decrease and public keys never change. -/
theorem replacement_never_rolls_back (blake3 : ByteHash) (states : List KeyRegistryStateV1)
    (h : states.IsChain fun s s' => s.validateReplacement blake3 s' = .ok ()) (i j : Nat) (hij : i ≤ j)
    (s s' : KeyRegistryStateV1) (hs : states[i]? = some s) (hs' : states[j]? = some s') :
    (∀ identity tombstone, s.tombstones.lookup identity = some tombstone →
      s'.tombstones.lookup identity = some tombstone ∧
      (i < j → ∀ other record, s'.records.lookup other = some record →
        record.privateMaterialDigest ≠ some tombstone.destroyedMaterialDigest) ∧
      s'.Unauthorized identity) ∧
    (∀ identity request, s.pendingDestructions.lookup identity = some request → s'.Unauthorized identity) ∧
    (∀ scope highest, s.highestEpoch.lookup scope = some highest →
      ∃ highest', s'.highestEpoch.lookup scope = some highest' ∧ highest ≤ highest') ∧
    (∀ identity record, s.records.lookup identity = some record →
      ∃ record', s'.records.lookup identity = some record' ∧
        record'.publicVerificationKey = record.publicVerificationKey) := by
  rcases hij.eq_or_lt with rfl | hlt
  · cases hs.symm.trans hs'
    refine ⟨fun identity tombstone ht => ⟨ht, fun hlt => absurd hlt (Nat.lt_irrefl i), ?_⟩,
      fun identity request hq => ?_, fun scope highest hn => ⟨highest, hn, Nat.le_refl _⟩,
      fun identity record hr => ⟨record, hr, rfl⟩⟩
    · exact Doomed.unauthorized (.inr ⟨tombstone, ht⟩)
    · exact Doomed.unauthorized (.inl ⟨request, hq⟩)
  · have hevolves : Evolves s s' := evolves_of_chain h hlt hs hs'
    refine ⟨fun identity tombstone ht => ⟨hevolves.tombstone ht, fun _ other record hr => ?_, ?_⟩,
      fun identity request hq => ?_, fun _ _ hn => hevolves.highest hn, fun _ _ hr => hevolves.publicKey hr⟩
    · exact hevolves.valid.live_fresh hr (hevolves.tombstone ht)
    · exact Doomed.unauthorized (hevolves.doomed (.inr ⟨tombstone, ht⟩))
    · exact Doomed.unauthorized (hevolves.doomed (.inl ⟨request, hq⟩))

/-- A signing key that is registered, marked for destruction and destroyed. -/
def signingKey : KeyIdentityV1 := ⟨⟨"owner", by decide⟩, .timelineIntegritySigning, 1⟩

def signingKeyRequest : KeyDestructionRequestV1 := ⟨signingKey, 5, 9⟩

def registeredKey : KeyRegistryStateV1 := (new.registerKey ⟨signingKey, 5, some 7⟩).2

def pendingKey : KeyRegistryStateV1 := (registeredKey.beginKeyDestruction (fun _ => 0) signingKeyRequest).2

def destroyedKey : KeyRegistryStateV1 := (pendingKey.completeKeyDestruction (fun _ => 0) signingKeyRequest 0).2

theorem destroyedKey_unauthorized :
    ([new, registeredKey, pendingKey, destroyedKey].IsChain fun s s' =>
      s.validateReplacement (fun _ => 0) s' = .ok ()) ∧
    pendingKey.pendingDestructions.lookup signingKey = some signingKeyRequest ∧
    destroyedKey.Unauthorized signingKey := by
  have hchain : [new, registeredKey, pendingKey, destroyedKey].IsChain fun s s' =>
      s.validateReplacement (fun _ => 0) s' = .ok () := by decide +kernel
  have hpending : pendingKey.pendingDestructions.lookup signingKey = some signingKeyRequest := by decide +kernel
  obtain ⟨-, hunauthorized, -, -⟩ :=
    replacement_never_rolls_back (fun _ => 0) _ hchain 2 3 (by decide) pendingKey destroyedKey rfl rfl
  exact ⟨hchain, hpending, hunauthorized signingKey signingKeyRequest hpending⟩

end KeyRegistryStateV1

end Piglor.KeyRegistry
