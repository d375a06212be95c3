/-
What delegation gives away. A scope stands for a set of requests; attenuation shrinks every part of it
but one: an empty list of subjects or participants is the smallest set to `is_attenuation_of` and means
"requests without one" to `permits`.
-/
import PiglorProofs.Authority.Evaluation

namespace Piglor.Authority

open Function

/-! ## Scopes as sets of requests -/

/-- An identity a request may leave out, against the list of a scope. -/
def Covers (ids : List EntityId) (identity : Option EntityId) : Prop :=
  identity.elim (ids = []) fun i => i ∈ ids

structure Permits (scope : CapabilityScopeV1) (request : AuthorizationRequestV1) : Prop where
  resource : request.resource ∈ scope.resources
  action : request.action ∈ scope.actions
  purpose : request.purpose ∈ scope.purposes
  audience : request.audience ∈ scope.audiences
  actor : request.actorEntityId ∈ scope.actorEntityIds
  subject : Covers scope.subjectIds request.subjectId
  participant : Covers scope.participantIds request.participantId
  plugin : scope.pluginId = request.pluginId
  role : request.principalRole ∈ scope.principalRoles
  uses : request.useCount ≤ scope.maxUses
  budget : request.budget ≤ scope.budget
  environment : scope.environmentConstraints ⊆ request.environmentConstraints

/-- Every part of the child within the same part of its parent. -/
structure Attenuates (child parent : CapabilityScopeV1) : Prop where
  resources : child.resources ⊆ parent.resources
  actions : child.actions ⊆ parent.actions
  purposes : child.purposes ⊆ parent.purposes
  audiences : child.audiences ⊆ parent.audiences
  actors : child.actorEntityIds ⊆ parent.actorEntityIds
  subjects : child.subjectIds ⊆ parent.subjectIds
  participants : child.participantIds ⊆ parent.participantIds
  roles : child.principalRoles ⊆ parent.principalRoles
  plugin : child.pluginId = parent.pluginId
  uses : child.maxUses ≤ parent.maxUses
  budget : child.budget ≤ parent.budget
  environment : parent.environmentConstraints ⊆ child.environmentConstraints

theorem covers_iff {ids : List EntityId} (hids : ids.Pairwise fun a b => a.ulid < b.ulid) (identity : Option EntityId) :
    (identity.elim ids.isEmpty fun i => (binarySearch EntityId.ulid ids i).isSome) = true ↔ Covers ids identity := by
  cases identity with
  | none => exact List.isEmpty_iff
  | some i => exact binarySearch_isSome entityId_ulid_injective hids

variable {request : AuthorizationRequestV1} {blake3 : ByteHash} {registry : AuthorityRegistrySnapshotV1}
  {child parent : CapabilityScopeV1}

theorem permits_iff {scope : CapabilityScopeV1} : scope.permits request = true ↔ Permits scope request := by
  have ho := scope.ordered
  unfold CapabilityScopeV1.permits
  simp only [Bool.and_eq_true, decide_eq_true_eq, covers_iff ho.subjectIds, covers_iff ho.participantIds,
    binarySearch_isSome injective_id ho.resources, binarySearch_isSome injective_id ho.actions,
    binarySearch_isSome injective_id ho.purposes, binarySearch_isSome injective_id ho.audiences,
    binarySearch_isSome entityId_ulid_injective ho.actorEntityIds,
    binarySearch_isSome roleCode_injective ho.principalRoles,
    isSubset_iff injective_id request.environment_ordered]
  constructor
  · rintro ⟨⟨⟨⟨⟨⟨⟨⟨⟨⟨⟨hr, ha⟩, hp⟩, hd⟩, hactor⟩, hs⟩, hpart⟩, hplugin⟩, hrole⟩, hu⟩, hb⟩, he⟩
    exact ⟨hr, ha, hp, hd, hactor, hs, hpart, hplugin, hrole, hu, hb, he⟩
  · rintro ⟨hr, ha, hp, hd, hactor, hs, hpart, hplugin, hrole, hu, hb, he⟩
    exact ⟨⟨⟨⟨⟨⟨⟨⟨⟨⟨⟨hr, ha⟩, hp⟩, hd⟩, hactor⟩, hs⟩, hpart⟩, hplugin⟩, hrole⟩, hu⟩, hb⟩, he⟩

theorem isAttenuationOf_iff : child.isAttenuationOf parent = true ↔ Attenuates child parent := by
  have ho := parent.ordered
  unfold CapabilityScopeV1.isAttenuationOf
  simp only [Bool.and_eq_true, decide_eq_true_eq, isSubset_iff injective_id ho.resources,
    isSubset_iff injective_id ho.actions, isSubset_iff injective_id ho.purposes,
    isSubset_iff injective_id ho.audiences, isSubset_iff entityId_ulid_injective ho.actorEntityIds,
    isSubset_iff entityId_ulid_injective ho.subjectIds, isSubset_iff entityId_ulid_injective ho.participantIds,
    isSubset_iff roleCode_injective ho.principalRoles,
    isSubset_iff injective_id child.ordered.environmentConstraints]
  constructor
  · rintro ⟨⟨⟨⟨⟨⟨⟨⟨⟨⟨⟨hr, ha⟩, hp⟩, hd⟩, hactor⟩, hs⟩, hpart⟩, hrole⟩, hplugin⟩, hu⟩, hb⟩, he⟩
    exact ⟨hr, ha, hp, hd, hactor, hs, hpart, hrole, hplugin, hu, hb, he⟩
  · rintro ⟨hr, ha, hp, hd, hactor, hs, hpart, hrole, hplugin, hu, hb, he⟩
    exact ⟨⟨⟨⟨⟨⟨⟨⟨⟨⟨⟨hr, ha⟩, hp⟩, hd⟩, hactor⟩, hs⟩, hpart⟩, hrole⟩, hplugin⟩, hu⟩, hb⟩, he⟩

namespace Attenuates

variable {a b c : CapabilityScopeV1}

theorem refl (a : CapabilityScopeV1) : Attenuates a a :=
  ⟨List.Subset.refl _, List.Subset.refl _, List.Subset.refl _, List.Subset.refl _, List.Subset.refl _,
    List.Subset.refl _, List.Subset.refl _, List.Subset.refl _, rfl, le_refl _, le_refl _, List.Subset.refl _⟩

theorem trans (hab : Attenuates a b) (hbc : Attenuates b c) : Attenuates a c where
  resources := List.Subset.trans hab.resources hbc.resources
  actions := List.Subset.trans hab.actions hbc.actions
  purposes := List.Subset.trans hab.purposes hbc.purposes
  audiences := List.Subset.trans hab.audiences hbc.audiences
  actors := List.Subset.trans hab.actors hbc.actors
  subjects := List.Subset.trans hab.subjects hbc.subjects
  participants := List.Subset.trans hab.participants hbc.participants
  roles := List.Subset.trans hab.roles hbc.roles
  plugin := hab.plugin.trans hbc.plugin
  uses := hab.uses.trans hbc.uses
  budget := hab.budget.trans hbc.budget
  environment := List.Subset.trans hbc.environment hab.environment

end Attenuates

/-- A request that leaves out an identity meets a scope that lists none. -/
def LeavesOutOnlyUnlisted (scope : CapabilityScopeV1) (request : AuthorizationRequestV1) : Prop :=
  (request.subjectId = none → scope.subjectIds = []) ∧ (request.participantId = none → scope.participantIds = [])

theorem covers_of_subset {child parent : List EntityId} {identity : Option EntityId} (hsub : child ⊆ parent)
    (hcovers : Covers child identity) : Covers parent identity ↔ (identity = none → parent = []) := by
  cases identity with
  | none => exact ⟨fun h _ => h, fun h => h rfl⟩
  | some i => exact ⟨fun _ h => absurd h (Option.some_ne_none i), fun _ => hsub hcovers⟩

/-- A parent refuses a request its child permits only for an identity the request leaves out. -/
theorem permits_parent_iff (hatt : Attenuates child parent)
    (hchild : Permits child request) : Permits parent request ↔ LeavesOutOnlyUnlisted parent request := by
  have hsubject := covers_of_subset hatt.subjects hchild.subject
  have hparticipant := covers_of_subset hatt.participants hchild.participant
  constructor
  · exact fun hparent => ⟨hsubject.mp hparent.subject, hparticipant.mp hparent.participant⟩
  · rintro ⟨hs, hp⟩
    exact {
      resource := hatt.resources hchild.resource
      action := hatt.actions hchild.action
      purpose := hatt.purposes hchild.purpose
      audience := hatt.audiences hchild.audience
      actor := hatt.actors hchild.actor
      subject := hsubject.mpr hs
      participant := hparticipant.mpr hp
      plugin := hatt.plugin.symm.trans hchild.plugin
      role := hatt.roles hchild.role
      uses := hchild.uses.trans hatt.uses
      budget := hchild.budget.trans hatt.budget
      environment := List.Subset.trans hatt.environment hchild.environment }

/-! ## Chains -/

theorem attenuates_of_validChild {parent child : CapabilityGrantV1} (h : validChild parent child = true) :
    Attenuates child.scope parent.scope := by
  unfold validChild at h
  simp only [Bool.and_eq_true] at h
  exact isAttenuationOf_iff.mp h.1.1.1.2

theorem isChain_of_validateLinks {root : Option PrincipalRefV1} : ∀ {rest : List CapabilityGrantV1} {seen : List Hash}
    {delegates : List PrincipalRefV1} {parent : CapabilityGrantV1},
    validateLinks root seen delegates (some parent) rest = .ok () →
      (parent :: rest).IsChain fun parent child => Attenuates child.scope parent.scope
  | [], _, _, parent, _ => .singleton parent
  | grant :: rest, seen, delegates, parent, h => by
    rw [validateLinks] at h
    split_ifs at h
    dsimp only at h
    split at h
    · rename_i hchild
      exact .cons_cons (attenuates_of_validChild hchild) (isChain_of_validateLinks h)
    · cases h

theorem DelegationChainV1.isChain (chain : DelegationChainV1) :
    chain.grants.IsChain fun parent child => Attenuates child.scope parent.scope := by
  rcases hgrants : chain.grants with _ | ⟨root, rest⟩
  · exact .nil
  have h := chain.valid
  rw [hgrants, validateChainStructure] at h
  split_ifs at h
  rw [validateLinks] at h
  split_ifs at h
  dsimp only at h
  split at h
  · exact isChain_of_validateLinks h
  · cases h

theorem leaf_attenuates : ∀ {grants : List CapabilityGrantV1} {leaf : CapabilityGrantV1},
    grants.IsChain (fun parent child => Attenuates child.scope parent.scope) → grants.getLast? = some leaf →
      ∀ grant ∈ grants, Attenuates leaf.scope grant.scope
  | [grant], leaf, _, hleaf, other, hother => by
    cases hleaf
    rw [List.mem_singleton.mp hother]
    exact .refl _
  | parent :: child :: rest, leaf, hchain, hleaf, grant, hgrant => by
    obtain ⟨hlink, htail⟩ := List.isChain_cons_cons.mp hchain
    rw [List.getLast?_cons_cons] at hleaf
    have ih := leaf_attenuates htail hleaf
    rcases List.mem_cons.mp hgrant with rfl | hgrant
    · exact (ih child List.mem_cons_self).trans hlink
    · exact ih grant hgrant

/-! ## Evaluation -/

/-- A request's position within a grant's validity and before its fence. -/
def InForce (grant : CapabilityGrantV1) (position : Seq) : Prop :=
  grant.validFromPosition ≤ position ∧ position < grant.validUntilPosition ∧
    ∀ fence ∈ grant.revocationFence, position < fence

theorem inForce_of_validateTemporalChain : ∀ {grants : List CapabilityGrantV1},
    validateTemporalChain request grants = .valid → ∀ grant ∈ grants, InForce grant request.atPosition
  | [], _ => fun _ hgrant => absurd hgrant List.not_mem_nil
  | grant :: rest, h => by
    rw [validateTemporalChain] at h
    split at h
    · split at h <;> cases h
    rename_i hinterval
    split at h
    · split at h <;> cases h
    rename_i hfence
    refine List.forall_mem_cons.mpr ⟨⟨?_, ?_, fun fence hmem => ?_⟩, inForce_of_validateTemporalChain h⟩
    · exact Nat.le_of_not_lt fun hlt => hinterval (.inl hlt)
    · exact Nat.lt_of_not_le fun hle => hinterval (.inr hle)
    · rw [Option.mem_def.mp hmem, Option.any_some] at hfence
      exact Nat.lt_of_not_le fun hle => hfence (decide_eq_true hle)

variable {chain : DelegationChainV1}

/-- An active capability: the leaf permits the request and every grant is in force. -/
theorem evaluateCapability_active (h : (evaluateCapability blake3 request chain registry).outcome = .active) :
    ∃ leaf, chain.grants.getLast? = some leaf ∧ Permits leaf.scope request ∧
      ∀ grant ∈ chain.grants, InForce grant request.atPosition := by
  unfold evaluateCapability at h
  split at h
  · cases h
  rename_i leaf hleaf
  iterate 3
    split at h
    · cases h
  split at h
  · cases h
  rename_i hpermits
  iterate 3
    split at h
    · cases h
  split at h
  · rename_i htemporal
    refine ⟨leaf, hleaf, permits_iff.mp ?_, inForce_of_validateTemporalChain htemporal⟩
    exact (Bool.not_eq_false _).mp fun hfalse => hpermits (by rw [hfalse]; rfl)
  all_goals cases h

theorem evaluateCapability_of_active (h : (authorizationEvaluation blake3 request chain registry).outcome = .active) :
    (evaluateCapability blake3 request chain registry).outcome = .active := by
  unfold authorizationEvaluation at h
  iterate 3
    split at h
    · cases h
  dsimp only at h
  split at h
  · rename_i hconsent
    exact absurd h hconsent
  · exact h

theorem authorizationEvaluation_of_authorize (h : (authorize blake3 request chain registry).outcome = .active) :
    (authorizationEvaluation blake3 request chain registry).outcome = .active := by
  change (boundEvaluation blake3 chain _).1.outcome = .active at h
  unfold boundEvaluation at h
  split at h
  · split at h
    · exact h
    · cases h
  · exact h

/-- Under attenuation a parent refuses what its child permits exactly when the request leaves out an identity
the parent lists; and an active answer puts every grant of the chain in force, each permitting the request
exactly unless it lists an identity the request leaves out. -/
theorem delegation_amplifies_only_left_out (blake3 : ByteHash) (request : AuthorizationRequestV1) :
    (∀ child parent : CapabilityScopeV1, child.isAttenuationOf parent = true → child.permits request = true →
      (parent.permits request = true ↔ LeavesOutOnlyUnlisted parent request)) ∧
    ∀ (chain : DelegationChainV1) (registry : AuthorityRegistrySnapshotV1),
      (authorize blake3 request chain registry).outcome = .active → ∀ grant ∈ chain.grants,
        InForce grant request.atPosition ∧
          (grant.scope.permits request = true ↔ LeavesOutOnlyUnlisted grant.scope request) := by
  refine ⟨fun child parent hatt hchild => ?_, fun chain registry hactive grant hgrant => ?_⟩
  · rw [permits_iff]
    exact permits_parent_iff (isAttenuationOf_iff.mp hatt) (permits_iff.mp hchild)
  · obtain ⟨leaf, hleaf, hpermits, hforce⟩ :=
      evaluateCapability_active (evaluateCapability_of_active (authorizationEvaluation_of_authorize hactive))
    refine ⟨hforce grant hgrant, ?_⟩
    rw [permits_iff]
    exact permits_parent_iff (leaf_attenuates chain.isChain hleaf grant hgrant) hpermits

/-! ## A chain that amplifies -/

def owner : PrincipalRefV1 := ⟨1, "home", by decide +kernel⟩

def steward : PrincipalRefV1 := ⟨2, "home", by decide +kernel⟩

def guest : PrincipalRefV1 := ⟨3, "home", by decide +kernel⟩

/-- A scope over the subjects given and no participant. -/
def notesScope (subjectIds : List EntityId) : CapabilityScopeDraftV1 where
  resources := ["notes"]
  actions := [delegateActionV1, "read"]
  purposes := ["care"]
  audiences := ["family"]
  actorEntityIds := [⟨7⟩]
  subjectIds := subjectIds
  participantIds := []
  pluginId := none
  principalRoles := [.actor]
  maxUses := 4
  budget := 4
  environmentConstraints := []

def listedScope : CapabilityScopeV1 := ⟨notesScope [⟨5⟩], by decide +kernel⟩

def unlistedScope : CapabilityScopeV1 := ⟨notesScope [], by decide +kernel⟩

def rootDraft (scope : CapabilityScopeV1) : CapabilityGrantDraftV1 where
  grantId := 11
  grantor := owner
  grantee := .principal steward
  trustDomain := "home"
  scope := scope
  validFromPosition := 1
  validUntilPosition := 9
  parentGrantId := none
  delegationDepth := 0
  maxDelegationDepth := 1
  permittedDelegateClasses := [.principal]
  consentReferences := []
  policyRevision := 21
  issuanceTimeline := ⟨31⟩
  issuanceSeq := 1
  revocationEpoch := 0
  revocationFence := none
  authorityRegistryDigest := 41

def leafDraft (scope : CapabilityScopeV1) : CapabilityGrantDraftV1 :=
  { rootDraft scope with
    grantId := 12
    grantor := steward
    grantee := .principal guest
    validFromPosition := 2
    parentGrantId := some 11
    delegationDepth := 1
    permittedDelegateClasses := []
    issuanceSeq := 2 }

def listedRoot : CapabilityGrantV1 := ⟨rootDraft listedScope, 0, none, by decide +kernel⟩

def unlistedRoot : CapabilityGrantV1 := ⟨rootDraft unlistedScope, 0, none, by decide +kernel⟩

def unlistedLeaf : CapabilityGrantV1 := ⟨leafDraft unlistedScope, 0, none, by decide +kernel⟩

def narrowedChain : DelegationChainV1 := ⟨[listedRoot, unlistedLeaf], by decide +kernel⟩

def plainChain : DelegationChainV1 := ⟨[unlistedRoot, unlistedLeaf], by decide +kernel⟩

def guestSession : AuthenticatedPrincipalResultV1 :=
  ⟨⟨guest, "local", ⟨1, by decide⟩, 1, 100, 51⟩, by decide +kernel⟩

/-- A request about no subject. -/
def subjectlessRequest : AuthorizationRequestV1 where
  authenticated := guestSession
  actorEntityId := ⟨7⟩
  subjectId := none
  participantId := none
  pluginId := none
  installationId := none
  principalRole := .actor
  resource := "notes"
  dataCategory := "text"
  action := "read"
  purpose := "care"
  audience := "family"
  atTime := 50
  authorityTimeline := ⟨31⟩
  atPosition := 3
  consentTimeline := none
  consentAtPosition := none
  useCount := 1
  budget := 1
  consentPolicyRevision := 61
  capabilityPolicyRevision := 21
  revocationEpoch := 0
  revocationStateCurrent := true
  authorityRegistryDigest := 41
  consent := .notRequired
  environmentConstraints := []
  valid := by decide +kernel

/-- The digests of some grants, in byte order. -/
def attested (grants : List CapabilityGrantV1) : List Hash :=
  Ascending.extend id [] (grants.filterMap fun grant => (grant.bindingDigest spellingHash).toOption)

def attestedRegistry (chain : DelegationChainV1) : AuthorityRegistryDraftV1 :=
  ⟨41, [guestSession.registryBindingDigest spellingHash], attested chain.grants, []⟩

def narrowedRegistry : AuthorityRegistrySnapshotV1 := ⟨attestedRegistry narrowedChain, by decide +kernel⟩

def plainRegistry : AuthorityRegistrySnapshotV1 := ⟨attestedRegistry plainChain, by decide +kernel⟩

/-- A leaf over no subject permits, actively, a request that its root over one subject refuses. -/
theorem narrowedChain_amplifies :
    (DelegationChainV1.tryFromGrants narrowedChain.grants).isOk = true ∧
      (authorize spellingHash subjectlessRequest narrowedChain narrowedRegistry).outcome = .active ∧
      unlistedLeaf.scope.isAttenuationOf listedRoot.scope = true ∧
      unlistedLeaf.scope.permits subjectlessRequest = true ∧ listedRoot ∈ narrowedChain.grants ∧
      listedRoot.scope.permits subjectlessRequest = false := by
  decide +kernel

theorem plainChain_permits :
    (authorize spellingHash subjectlessRequest plainChain plainRegistry).outcome = .active ∧
      ∀ grant ∈ plainChain.grants, InForce grant 3 ∧ grant.scope.permits subjectlessRequest = true := by
  have hactive : (authorize spellingHash subjectlessRequest plainChain plainRegistry).outcome = .active := by
    decide +kernel
  have hunlisted : ∀ grant ∈ plainChain.grants, grant.scope.subjectIds = [] ∧ grant.scope.participantIds = [] := by
    decide +kernel
  refine ⟨hactive, fun grant hgrant => ?_⟩
  obtain ⟨hforce, hpermits⟩ :=
    (delegation_amplifies_only_left_out spellingHash subjectlessRequest).2 plainChain plainRegistry hactive
      grant hgrant
  exact ⟨hforce, hpermits.mpr ⟨fun _ => (hunlisted grant hgrant).1, fun _ => (hunlisted grant hgrant).2⟩⟩

end Piglor.Authority
