/-
The authority contracts of `pos-core` (`authority.rs`): principals, adapter evidence, consent references,
capability scopes and grants, and authorization requests. Each record is built from its draft by a check
and carries that it passed.
-/
import Mathlib.Data.String.Basic
import PiglorProofs.Counterfactual.Codec
import PiglorProofs.Lib.Bisect
import PiglorProofs.Lib.Checked

namespace Piglor.Authority

open Checked

def delegateActionV1 : String := "authority.grant.delegate"

def maxAuthorityTextBytes : Nat := 128

def maxAuthorityScopeMembers : Nat := 32

def maxAuthoritySelectors : Nat := 128

def maxAuthorityRegistryBindings : Nat := 128

def maxCapabilityConsentReferences : Nat := 32

def maxAuthorityDelegationDepth : Nat := 16

inductive AuthorityErrorV1 where
  | invalidEncoding
  | unsupportedVersion
  | fieldOutOfBounds
  | unknownEnum
  | policyIndeterminate
  | digestMismatch
  | nonCanonicalOrder
  | duplicateIdentity
  | principalUnresolved
  | consentMissing
  | capabilityMissing
  | delegationInvalid
  | revokedAtFence
  | revocationStateStale
  | sourceUnavailable
  | unauthorizedSource
  | provenanceMissing
  | budgetExceeded
  | nonInterferenceDivergence
deriving DecidableEq

/-- The stable safe-error code of a decision record. -/
def AuthorityErrorV1.code : AuthorityErrorV1 → UInt8
  | .invalidEncoding => 0
  | .unsupportedVersion => 1
  | .fieldOutOfBounds => 2
  | .unknownEnum => 3
  | .nonCanonicalOrder => 4
  | .duplicateIdentity => 5
  | .principalUnresolved => 6
  | .consentMissing => 7
  | .capabilityMissing => 8
  | .delegationInvalid => 9
  | .revokedAtFence => 10
  | .revocationStateStale => 11
  | .policyIndeterminate => 12
  | .sourceUnavailable => 13
  | .unauthorizedSource => 14
  | .provenanceMissing => 15
  | .digestMismatch => 16
  | .budgetExceeded => 17
  | .nonInterferenceDivergence => 18

abbrev AuthorityResult := Except AuthorityErrorV1

structure PluginId where
  ulid : Ulid
deriving DecidableEq

inductive AuthorityRoleV1 where
  | actor
  | approver
  | evaluator
deriving DecidableEq

/-- A role's code, in the order the roles are declared and compared in. -/
def roleCode : AuthorityRoleV1 → Nat
  | .actor => 0
  | .approver => 1
  | .evaluator => 2

inductive DelegateClassV1 where
  | principal
deriving DecidableEq

def delegateClassCode : DelegateClassV1 → Nat
  | .principal => 0

inductive ConsentGrantStatusV1 where
  | active
  | revokedAtFence
  | expired
deriving DecidableEq

def consentStatusCode : ConsentGrantStatusV1 → Nat
  | .active => 0
  | .revokedAtFence => 1
  | .expired => 2

/-! ## Field checks -/

/-- A field within its public bound. -/
def bounded (condition : Bool) : AuthorityResult Unit :=
  if condition then .ok () else .error .fieldOutOfBounds

def validateText (value : String) : AuthorityResult Unit :=
  bounded (!value.isEmpty && decide (value.utf8ByteSize ≤ maxAuthorityTextBytes))

section Sets

variable {α κ : Type} [LinearOrder κ] (key : α → κ)

def validateOrderedSetWithLimit (values : List α) (required : Bool) (limit : Nat) : AuthorityResult Unit :=
  if limit < values.length ∨ required = true ∧ values = [] then .error .fieldOutOfBounds
  else if values.IsChain (fun a b => key a < key b) then .ok ()
  else .error .nonCanonicalOrder

def validateOrderedSet (values : List α) (required : Bool) : AuthorityResult Unit :=
  validateOrderedSetWithLimit key values required maxAuthorityScopeMembers

/-- `slice::binary_search` under the order of a key. -/
def binarySearch (values : List α) (value : α) : Option Nat :=
  Bisect.binarySearchBy (fun a => cmp (key a) (key value)) values

def isSubset (child parent : List α) : Bool := child.all fun value => (binarySearch key parent value).isSome

end Sets

def validateTextSet (values : List String) (required : Bool) : AuthorityResult Unit := do
  validateOrderedSet id values required
  values.forM validateText

def validateRequiredTextSet (values : List String) : AuthorityResult Unit := validateTextSet values true

def validateRequiredSelectorSet (values : List String) : AuthorityResult Unit := do
  validateOrderedSetWithLimit id values true maxAuthoritySelectors
  values.forM validateText

def validateHash (value : Hash) : AuthorityResult Unit := bounded (decide (value ≠ 0))

def validateOptionalHash (value : Option Hash) : AuthorityResult Unit := value.elim (.ok ()) validateHash

def validateHashSet (values : List Hash) (limit : Nat) : AuthorityResult Unit := do
  validateOrderedSetWithLimit id values false limit
  values.forM validateHash

def validateRequiredHashSet (values : List Hash) (limit : Nat) : AuthorityResult Unit :=
  if values = [] then .error .fieldOutOfBounds else validateHashSet values limit

def validateEntityId (value : EntityId) : AuthorityResult Unit := bounded (decide (value.ulid ≠ 0))

def validateEntitySet (values : List EntityId) : AuthorityResult Unit := values.forM validateEntityId

def validateOptionalEntityId (value : Option EntityId) : AuthorityResult Unit := value.elim (.ok ()) validateEntityId

def validateOptionalPluginId (value : Option PluginId) : AuthorityResult Unit :=
  value.elim (.ok ()) fun plugin => bounded (decide (plugin.ulid ≠ 0))

def validateTimelineId (value : TimelineId) : AuthorityResult Unit := bounded (decide (value.ulid ≠ 0))

def validateInterval (start stop : Nat) : AuthorityResult Unit := bounded (decide (start < stop))

def validateUsageLimits (maxUses budget : Nat) : AuthorityResult Unit := bounded (decide (maxUses ≠ 0 ∧ budget ≠ 0))

def validateConsentStatus : ConsentGrantStatusV1 → Seq → Option Seq → AuthorityResult Unit
  | .revokedAtFence, grantPosition, some fence => bounded (decide (grantPosition < fence))
  | .active, _, none => .ok ()
  | .expired, _, none => .ok ()
  | _, _, _ => .error .fieldOutOfBounds

def validateConsentCoordinate : Option EntityId → Option TimelineId → Option Seq → AuthorityResult Unit
  | some _, some timeline, some _ => validateTimelineId timeline
  | none, none, none => .ok ()
  | _, _, _ => .error .fieldOutOfBounds

def validatePluginContext : Option PluginId → Option (BitVec 128) → AuthorityResult Unit
  | none, none => .ok ()
  | some _, some installation => bounded (decide (installation ≠ 0))
  | _, _ => .error .fieldOutOfBounds

/-! ## Principals -/

structure PrincipalRefV1 where
  principalId : BitVec 128
  trustDomain : String
  valid : validateText trustDomain = .ok () ∧ principalId ≠ 0
deriving DecidableEq

/-- A deployment-defined positive assurance level. -/
structure AssuranceLevelV1 where
  value : UInt8
  nonzero : value ≠ 0

structure AuthenticatedPrincipalDraftV1 where
  principal : PrincipalRefV1
  adapterId : String
  assurance : AssuranceLevelV1
  issuedAt : WallTime
  expiresAt : WallTime
  bindingDigest : Hash

def AuthenticatedPrincipalDraftV1.validate (draft : AuthenticatedPrincipalDraftV1) : AuthorityResult Unit := do
  validateText draft.adapterId
  validateInterval draft.issuedAt draft.expiresAt
  validateHash draft.bindingDigest

structure AuthenticatedPrincipalResultV1 extends AuthenticatedPrincipalDraftV1 where
  valid : toAuthenticatedPrincipalDraftV1.validate = .ok ()

inductive AuthorityGranteeV1 where
  | principal (reference : PrincipalRefV1)
  | pluginInstallation (controller : PrincipalRefV1) (pluginId : PluginId) (installationId : BitVec 128)
deriving DecidableEq

namespace AuthorityGranteeV1

/-- The principal behind a grantee; an installation is bound to its controller. -/
def asPrincipal : AuthorityGranteeV1 → PrincipalRefV1
  | .principal reference => reference
  | .pluginInstallation controller _ _ => controller

def validate : AuthorityGranteeV1 → AuthorityResult Unit
  | .principal _ => .ok ()
  | .pluginInstallation _ pluginId installationId => do
    validateOptionalPluginId (some pluginId)
    bounded (decide (installationId ≠ 0))

end AuthorityGranteeV1

/-! ## Consent references -/

structure ConsentGrantRefDraftV1 where
  consentId : Hash
  subjectId : EntityId
  granteeId : EntityId
  dataCategories : List String
  purposes : List String
  audiences : List String
  actionClasses : List String
  validFrom : WallTime
  validUntil : WallTime
  withdrawalRetentionPolicy : String
  policyRevision : Hash
  issuer : PrincipalRefV1
  issuerEvidence : Hash
  consentTimeline : TimelineId
  grantPosition : Seq
  status : ConsentGrantStatusV1
  revocationFence : Option Seq
  authorityRegistryDigest : Hash

def ConsentGrantRefDraftV1.validate (draft : ConsentGrantRefDraftV1) : AuthorityResult Unit := do
  validateHash draft.consentId
  validateEntityId draft.subjectId
  validateEntityId draft.granteeId
  validateRequiredTextSet draft.dataCategories
  validateRequiredTextSet draft.purposes
  validateRequiredTextSet draft.audiences
  validateRequiredTextSet draft.actionClasses
  validateInterval draft.validFrom draft.validUntil
  validateText draft.withdrawalRetentionPolicy
  validateHash draft.policyRevision
  validateHash draft.issuerEvidence
  validateTimelineId draft.consentTimeline
  validateHash draft.authorityRegistryDigest
  validateConsentStatus draft.status draft.grantPosition draft.revocationFence

structure ConsentGrantRefV1 extends ConsentGrantRefDraftV1 where
  valid : toConsentGrantRefDraftV1.validate = .ok ()

inductive ConsentEvidenceV1 where
  | notRequired
  | resolved (grants : List ConsentGrantRefV1)
  | missing
  | indeterminate

def validateConsentEvidence : ConsentEvidenceV1 → AuthorityResult Unit
  | .resolved grants =>
    if grants = [] ∨ maxCapabilityConsentReferences < grants.length then .error .fieldOutOfBounds
    else if grants.IsChain (fun a b => a.consentId < b.consentId) then .ok ()
    else .error .nonCanonicalOrder
  | _ => .ok ()

/-! ## Scopes and grants -/

structure CapabilityScopeDraftV1 where
  resources : List String
  actions : List String
  purposes : List String
  audiences : List String
  actorEntityIds : List EntityId
  subjectIds : List EntityId
  participantIds : List EntityId
  pluginId : Option PluginId
  principalRoles : List AuthorityRoleV1
  maxUses : Nat
  budget : Nat
  environmentConstraints : List String
deriving DecidableEq

def CapabilityScopeDraftV1.validate (draft : CapabilityScopeDraftV1) : AuthorityResult Unit := do
  validateRequiredSelectorSet draft.resources
  validateRequiredSelectorSet draft.actions
  validateRequiredTextSet draft.purposes
  validateRequiredTextSet draft.audiences
  validateOrderedSet EntityId.ulid draft.actorEntityIds true
  validateOrderedSet EntityId.ulid draft.subjectIds false
  validateOrderedSet EntityId.ulid draft.participantIds false
  validateOrderedSet roleCode draft.principalRoles true
  validateEntitySet draft.actorEntityIds
  validateEntitySet draft.subjectIds
  validateEntitySet draft.participantIds
  validateOptionalPluginId draft.pluginId
  validateTextSet draft.environmentConstraints false
  validateUsageLimits draft.maxUses draft.budget

/-- The authority of one grant; every list is a strictly ordered set. -/
structure CapabilityScopeV1 extends CapabilityScopeDraftV1 where
  valid : toCapabilityScopeDraftV1.validate = .ok ()
deriving DecidableEq

def validateGranteeScope : AuthorityGranteeV1 → CapabilityScopeV1 → AuthorityResult Unit
  | .principal _, scope => bounded scope.pluginId.isNone
  | .pluginInstallation _ pluginId _, scope => bounded (decide (scope.pluginId = some pluginId))

structure CapabilityGrantDraftV1 where
  grantId : Hash
  grantor : PrincipalRefV1
  grantee : AuthorityGranteeV1
  trustDomain : String
  scope : CapabilityScopeV1
  validFromPosition : Seq
  validUntilPosition : Seq
  parentGrantId : Option Hash
  delegationDepth : Nat
  maxDelegationDepth : Nat
  permittedDelegateClasses : List DelegateClassV1
  consentReferences : List Hash
  policyRevision : Hash
  issuanceTimeline : TimelineId
  issuanceSeq : Seq
  revocationEpoch : Nat
  revocationFence : Option Seq
  authorityRegistryDigest : Hash
deriving DecidableEq

namespace CapabilityGrantDraftV1

def validateTrustDomain (draft : CapabilityGrantDraftV1) : AuthorityResult Unit :=
  if draft.grantor.trustDomain = draft.trustDomain ∧ draft.grantee.asPrincipal.trustDomain = draft.trustDomain then
    .ok ()
  else .error .principalUnresolved

def validateDelegationDepth (draft : CapabilityGrantDraftV1) : AuthorityResult Unit :=
  bounded (decide (draft.maxDelegationDepth ≤ maxAuthorityDelegationDepth) &&
    decide (draft.delegationDepth ≤ draft.maxDelegationDepth) &&
    (decide (draft.delegationDepth = 0) == draft.parentGrantId.isNone))

def validate (draft : CapabilityGrantDraftV1) : AuthorityResult Unit := do
  validateHash draft.grantId
  validateHash draft.policyRevision
  validateHash draft.authorityRegistryDigest
  draft.grantee.validate
  validateText draft.trustDomain
  draft.validateTrustDomain
  validateGranteeScope draft.grantee draft.scope
  validateTimelineId draft.issuanceTimeline
  validateInterval draft.validFromPosition draft.validUntilPosition
  validateOptionalHash draft.parentGrantId
  validateHashSet draft.consentReferences maxCapabilityConsentReferences
  draft.validateDelegationDepth
  validateOrderedSet delegateClassCode draft.permittedDelegateClasses false
  bounded (decide (draft.issuanceSeq ≤ draft.validFromPosition) &&
    draft.revocationFence.all fun fence => decide (draft.issuanceSeq < fence))

end CapabilityGrantDraftV1

/-- An issued grant, by `try_from_draft`. `with_persisted_revocation` replaces the epoch and the fence of a
checked grant without a new check, so the check holds up to these two. -/
structure CapabilityGrantV1 extends CapabilityGrantDraftV1 where
  issued : ∃ epoch fence,
    { toCapabilityGrantDraftV1 with revocationEpoch := epoch, revocationFence := fence }.validate = .ok ()
deriving DecidableEq

/-! ## Requests -/

structure AuthorizationRequestDraftV1 where
  authenticated : AuthenticatedPrincipalResultV1
  actorEntityId : EntityId
  subjectId : Option EntityId
  participantId : Option EntityId
  pluginId : Option PluginId
  installationId : Option (BitVec 128)
  principalRole : AuthorityRoleV1
  resource : String
  dataCategory : String
  action : String
  purpose : String
  audience : String
  atTime : WallTime
  authorityTimeline : TimelineId
  atPosition : Seq
  consentTimeline : Option TimelineId
  consentAtPosition : Option Seq
  useCount : Nat
  budget : Nat
  consentPolicyRevision : Hash
  capabilityPolicyRevision : Hash
  revocationEpoch : Nat
  revocationStateCurrent : Bool
  authorityRegistryDigest : Hash
  consent : ConsentEvidenceV1
  environmentConstraints : List String

def AuthorizationRequestDraftV1.validate (draft : AuthorizationRequestDraftV1) : AuthorityResult Unit := do
  validateText draft.resource
  validateText draft.dataCategory
  validateText draft.action
  validateText draft.purpose
  validateText draft.audience
  validateHash draft.consentPolicyRevision
  validateHash draft.capabilityPolicyRevision
  validateEntityId draft.actorEntityId
  validateOptionalEntityId draft.subjectId
  validateOptionalEntityId draft.participantId
  validateOptionalPluginId draft.pluginId
  validatePluginContext draft.pluginId draft.installationId
  validateTimelineId draft.authorityTimeline
  validateConsentCoordinate draft.subjectId draft.consentTimeline draft.consentAtPosition
  validateTextSet draft.environmentConstraints false
  validateConsentEvidence draft.consent
  validateUsageLimits draft.useCount draft.budget
  validateHash draft.authorityRegistryDigest

/-- The inputs a host resolved before evaluation. -/
structure AuthorizationRequestV1 extends AuthorizationRequestDraftV1 where
  valid : toAuthorizationRequestDraftV1.validate = .ok ()

/-! ## Ordered sets -/

section Sets

variable {α κ : Type} [LinearOrder κ] {key : α → κ} {values : List α} {required : Bool}

theorem pairwise_of_validateOrderedSetWithLimit {limit : Nat}
    (h : validateOrderedSetWithLimit key values required limit = .ok ()) : values.Pairwise fun a b => key a < key b := by
  unfold validateOrderedSetWithLimit at h
  split at h
  · cases h
  split at h
  · rename_i hchain
    exact List.isChain_iff_pairwise.mp hchain
  · cases h

theorem pairwise_of_validateOrderedSet (h : validateOrderedSet key values required = .ok ()) :
    values.Pairwise fun a b => key a < key b :=
  pairwise_of_validateOrderedSetWithLimit h

theorem pairwise_of_validateTextSet {values : List String} (h : validateTextSet values required = .ok ()) :
    values.Pairwise fun a b => a < b := by
  obtain ⟨⟨⟩, horder, -⟩ := bind_eq_ok.mp h
  exact pairwise_of_validateOrderedSet horder

theorem pairwise_of_validateRequiredSelectorSet {values : List String}
    (h : validateRequiredSelectorSet values = .ok ()) : values.Pairwise fun a b => a < b := by
  obtain ⟨⟨⟩, horder, -⟩ := bind_eq_ok.mp h
  exact pairwise_of_validateOrderedSetWithLimit horder

/-- A search of an ordered set is membership. -/
theorem binarySearch_isSome (hkey : Function.Injective key) (h : values.Pairwise fun a b => key a < key b) {value : α} :
    (binarySearch key values value).isSome = true ↔ value ∈ values := by
  unfold binarySearch
  rw [Bisect.binarySearchBy_isSome (h.imp le_of_lt)]
  constructor
  · rintro ⟨a, ha, hav⟩
    exact hkey hav ▸ ha
  · exact fun hmem => ⟨value, hmem, rfl⟩

theorem isSubset_iff (hkey : Function.Injective key) {child parent : List α}
    (h : parent.Pairwise fun a b => key a < key b) : isSubset key child parent = true ↔ child ⊆ parent := by
  unfold isSubset
  rw [List.all_eq_true]
  exact ⟨fun hall a ha => (binarySearch_isSome hkey h).mp (hall a ha),
    fun hsub a ha => (binarySearch_isSome hkey h).mpr (hsub ha)⟩

end Sets

theorem entityId_ulid_injective : Function.Injective EntityId.ulid := by
  rintro ⟨a⟩ ⟨b⟩ h
  exact congrArg EntityId.mk h

theorem roleCode_injective : Function.Injective roleCode := by
  intro a b h
  cases a <;> cases b <;> first | rfl | cases h

/-- The lists of a scope are ordered sets. -/
structure ScopeOrdered (scope : CapabilityScopeDraftV1) : Prop where
  resources : scope.resources.Pairwise fun a b => a < b
  actions : scope.actions.Pairwise fun a b => a < b
  purposes : scope.purposes.Pairwise fun a b => a < b
  audiences : scope.audiences.Pairwise fun a b => a < b
  actorEntityIds : scope.actorEntityIds.Pairwise fun a b => a.ulid < b.ulid
  subjectIds : scope.subjectIds.Pairwise fun a b => a.ulid < b.ulid
  participantIds : scope.participantIds.Pairwise fun a b => a.ulid < b.ulid
  principalRoles : scope.principalRoles.Pairwise fun a b => roleCode a < roleCode b
  environmentConstraints : scope.environmentConstraints.Pairwise fun a b => a < b

theorem CapabilityScopeV1.ordered (scope : CapabilityScopeV1) : ScopeOrdered scope.toCapabilityScopeDraftV1 := by
  obtain ⟨⟨⟩, hresources, h⟩ := bind_eq_ok.mp scope.valid
  obtain ⟨⟨⟩, hactions, h⟩ := bind_eq_ok.mp h
  obtain ⟨⟨⟩, hpurposes, h⟩ := bind_eq_ok.mp h
  obtain ⟨⟨⟩, haudiences, h⟩ := bind_eq_ok.mp h
  obtain ⟨⟨⟩, hactors, h⟩ := bind_eq_ok.mp h
  obtain ⟨⟨⟩, hsubjects, h⟩ := bind_eq_ok.mp h
  obtain ⟨⟨⟩, hparticipants, h⟩ := bind_eq_ok.mp h
  obtain ⟨⟨⟩, hroles, h⟩ := bind_eq_ok.mp h
  replace h := of_check h
  replace h := of_check h
  replace h := of_check h
  replace h := of_check h
  obtain ⟨⟨⟩, henvironment, -⟩ := bind_eq_ok.mp h
  exact {
    resources := pairwise_of_validateRequiredSelectorSet hresources
    actions := pairwise_of_validateRequiredSelectorSet hactions
    purposes := pairwise_of_validateTextSet hpurposes
    audiences := pairwise_of_validateTextSet haudiences
    actorEntityIds := pairwise_of_validateOrderedSet hactors
    subjectIds := pairwise_of_validateOrderedSet hsubjects
    participantIds := pairwise_of_validateOrderedSet hparticipants
    principalRoles := pairwise_of_validateOrderedSet hroles
    environmentConstraints := pairwise_of_validateTextSet henvironment }

theorem AuthorizationRequestV1.environment_ordered (request : AuthorizationRequestV1) :
    request.environmentConstraints.Pairwise fun a b => a < b := by
  have h := request.valid
  unfold AuthorizationRequestDraftV1.validate at h
  simp only [bind_eq_ok] at h
  obtain ⟨_, -, _, -, _, -, _, -, _, -, _, -, _, -, _, -, _, -, _, -, _, -, _, -, _, -, _, -, ⟨⟩, henvironment, -⟩ := h
  exact pairwise_of_validateTextSet henvironment

end Piglor.Authority
