/-
Authority evaluation (`authority.rs`): the digests a trusted registry attests, delegation chains, and the
order in which a request's evidence, consent, capability, delegation and revocation are decided.
-/
import PiglorProofs.Authority.Records

namespace Piglor.Authority

open Counterfactual (Value encodeValue hashValue)

/-! ## Digests -/

def textBytes (value : String) : List UInt8 := value.toUTF8.data.toList

def u64Bytes (value : Nat) : List UInt8 := beBytes 8 value

def ulidBytes (value : Ulid) : List UInt8 := beBytes 16 value.toNat

def digestPart (value : List UInt8) : List UInt8 := u64Bytes value.length ++ value

def digestOptionalBytes : Option (List UInt8) → List UInt8
  | none => [0]
  | some value => 1 :: digestPart value

def digestTexts (values : List String) : List UInt8 :=
  u64Bytes values.length ++ values.flatMap fun value => digestPart (textBytes value)

def digestPrincipal (value : PrincipalRefV1) : List UInt8 :=
  ulidBytes value.principalId ++ digestPart (textBytes value.trustDomain)

def digestAuthenticated (value : AuthenticatedPrincipalResultV1) : List UInt8 :=
  digestPrincipal value.principal ++ digestPart (textBytes value.adapterId) ++ [value.assurance.value] ++
    u64Bytes value.issuedAt ++ u64Bytes value.expiresAt ++ hashBytes value.bindingDigest

def digestConsentGrant (grant : ConsentGrantRefV1) : List UInt8 :=
  hashBytes grant.consentId ++ ulidBytes grant.subjectId.ulid ++ ulidBytes grant.granteeId.ulid ++
    digestTexts grant.dataCategories ++ digestTexts grant.purposes ++ digestTexts grant.audiences ++
    digestTexts grant.actionClasses ++ u64Bytes grant.validFrom ++ u64Bytes grant.validUntil ++
    digestPart (textBytes grant.withdrawalRetentionPolicy) ++ hashBytes grant.policyRevision ++
    digestPrincipal grant.issuer ++ hashBytes grant.issuerEvidence ++ ulidBytes grant.consentTimeline.ulid ++
    u64Bytes grant.grantPosition ++ [UInt8.ofNat (consentStatusCode grant.status)] ++
    digestOptionalBytes (grant.revocationFence.map u64Bytes) ++ hashBytes grant.authorityRegistryDigest

def digestConsent : ConsentEvidenceV1 → List UInt8
  | .notRequired => [0]
  | .resolved grants => 1 :: u64Bytes grants.length ++ grants.flatMap digestConsentGrant
  | .missing => [2]
  | .indeterminate => [3]

def digestOptionalPrincipal : Option PrincipalRefV1 → List UInt8
  | none => [0]
  | some principal => 1 :: digestPrincipal principal

def digestOptionalError : Option AuthorityErrorV1 → List UInt8
  | none => [0]
  | some error => [1, error.code]

def optionalHashValue (value : Option Hash) : Value := value.elim .null hashValue

def optionalSeqValue (value : Option Seq) : Value := value.elim .null .integer

def ulidValue (value : Ulid) : Value := .bytes (ulidBytes value)

def textSetValue (values : List String) : Value := .array (values.map .text)

def entitySetValue (values : List EntityId) : Value := .array (values.map fun value => ulidValue value.ulid)

def encodePrincipal (value : PrincipalRefV1) : Value :=
  .array [.bytes (textBytes "PRN1"), .integer 1, ulidValue value.principalId, .text value.trustDomain]

def encodeGrantee : AuthorityGranteeV1 → Value
  | .principal principal => .array [.integer 0, encodePrincipal principal]
  | .pluginInstallation controller pluginId installationId =>
    .array [.integer 1, encodePrincipal controller, ulidValue pluginId.ulid, ulidValue installationId]

def encodeScope (value : CapabilityScopeV1) : Value :=
  .array [textSetValue value.resources, textSetValue value.actions, textSetValue value.purposes,
    textSetValue value.audiences, entitySetValue value.actorEntityIds, entitySetValue value.subjectIds,
    entitySetValue value.participantIds, value.pluginId.elim .null fun plugin => ulidValue plugin.ulid,
    .array (value.principalRoles.map fun role => .integer (roleCode role)), .integer value.maxUses,
    .integer value.budget, textSetValue value.environmentConstraints]

def encodeGrant (value : CapabilityGrantV1) : Value :=
  .array [.bytes (textBytes "CPG1"), .integer 1, hashValue value.grantId, encodePrincipal value.grantor,
    encodeGrantee value.grantee, .text value.trustDomain, encodeScope value.scope, .integer value.validFromPosition,
    .integer value.validUntilPosition, optionalHashValue value.parentGrantId, .integer value.delegationDepth,
    .integer value.maxDelegationDepth,
    .array (value.permittedDelegateClasses.map fun delegate => .integer (delegateClassCode delegate)),
    .array (value.consentReferences.map hashValue), hashValue value.policyRevision,
    ulidValue value.issuanceTimeline.ulid, .integer value.issuanceSeq, .integer value.revocationEpoch,
    optionalSeqValue value.revocationFence, hashValue value.authorityRegistryDigest]

section Bindings

variable (blake3 : ByteHash)

/-- A digest under a domain that ends in a zero byte. -/
def underDomain (domain : String) (value : List UInt8) : Hash := blake3 (textBytes domain ++ 0 :: value)

def AuthenticatedPrincipalResultV1.registryBindingDigest (value : AuthenticatedPrincipalResultV1) : Hash :=
  underDomain blake3 "PiglorOS.AuthenticatedPrincipalResult.registry.v1" (digestAuthenticated value)

def ConsentGrantRefV1.bindingDigest (grant : ConsentGrantRefV1) : Hash :=
  underDomain blake3 "PiglorOS.ConsentGrantRef.v1" (digestConsentGrant grant)

/-- The digest of a grant's canonical record; writing a value to memory does not fail. -/
def CapabilityGrantV1.bindingDigest (grant : CapabilityGrantV1) : AuthorityResult Hash :=
  .ok (blake3 (encodeValue (encodeGrant grant)))

def requestDigest (request : AuthorizationRequestV1) : Hash :=
  underDomain blake3 "PiglorOS.AuthorizationRequest.v1" (digestAuthenticated request.authenticated ++
    ulidBytes request.actorEntityId.ulid ++
    digestOptionalBytes (request.subjectId.map fun id => ulidBytes id.ulid) ++
    digestOptionalBytes (request.participantId.map fun id => ulidBytes id.ulid) ++
    digestOptionalBytes (request.pluginId.map fun id => ulidBytes id.ulid) ++
    digestOptionalBytes (request.installationId.map ulidBytes) ++ [UInt8.ofNat (roleCode request.principalRole)] ++
    digestPart (textBytes request.resource) ++ digestPart (textBytes request.dataCategory) ++
    digestPart (textBytes request.action) ++ digestPart (textBytes request.purpose) ++
    digestPart (textBytes request.audience) ++ u64Bytes request.atTime ++ ulidBytes request.authorityTimeline.ulid ++
    u64Bytes request.atPosition ++ digestOptionalBytes (request.consentTimeline.map fun id => ulidBytes id.ulid) ++
    digestOptionalBytes (request.consentAtPosition.map u64Bytes) ++ u64Bytes request.useCount ++
    u64Bytes request.budget ++ hashBytes request.consentPolicyRevision ++ hashBytes request.capabilityPolicyRevision ++
    u64Bytes request.revocationEpoch ++ [if request.revocationStateCurrent then 1 else 0] ++
    hashBytes request.authorityRegistryDigest ++ digestConsent request.consent ++
    digestTexts request.environmentConstraints)

end Bindings

/-! ## Scopes -/

namespace CapabilityScopeV1

def permits (scope : CapabilityScopeV1) (request : AuthorizationRequestV1) : Bool :=
  let identityMatches := (binarySearch EntityId.ulid scope.actorEntityIds request.actorEntityId).isSome
  let participantMatches := request.participantId.elim scope.participantIds.isEmpty
    fun participant => (binarySearch EntityId.ulid scope.participantIds participant).isSome
  let subjectMatches := request.subjectId.elim scope.subjectIds.isEmpty
    fun subject => (binarySearch EntityId.ulid scope.subjectIds subject).isSome
  let usageIsBounded := decide (request.useCount ≤ scope.maxUses)
  let budgetIsBounded := decide (request.budget ≤ scope.budget)
  let environmentMatches := isSubset id scope.environmentConstraints request.environmentConstraints
  (binarySearch id scope.resources request.resource).isSome && (binarySearch id scope.actions request.action).isSome &&
    (binarySearch id scope.purposes request.purpose).isSome &&
    (binarySearch id scope.audiences request.audience).isSome && identityMatches && subjectMatches &&
    participantMatches && decide (scope.pluginId = request.pluginId) &&
    (binarySearch roleCode scope.principalRoles request.principalRole).isSome && usageIsBounded && budgetIsBounded &&
    environmentMatches

def isAttenuationOf (scope parent : CapabilityScopeV1) : Bool :=
  isSubset id scope.resources parent.resources && isSubset id scope.actions parent.actions &&
    isSubset id scope.purposes parent.purposes && isSubset id scope.audiences parent.audiences &&
    isSubset EntityId.ulid scope.actorEntityIds parent.actorEntityIds &&
    isSubset EntityId.ulid scope.subjectIds parent.subjectIds &&
    isSubset EntityId.ulid scope.participantIds parent.participantIds &&
    isSubset roleCode scope.principalRoles parent.principalRoles && decide (scope.pluginId = parent.pluginId) &&
    decide (scope.maxUses ≤ parent.maxUses) && decide (scope.budget ≤ parent.budget) &&
    isSubset id parent.environmentConstraints scope.environmentConstraints

end CapabilityScopeV1

/-! ## Delegation chains -/

def validChild (parent child : CapabilityGrantV1) : Bool :=
  let depthIsNext := decide (child.delegationDepth = min (parent.delegationDepth + 1) 255)
  let depthIsBounded := decide (child.delegationDepth ≤ parent.maxDelegationDepth)
  let descendantsAreBounded := decide (child.maxDelegationDepth ≤ parent.maxDelegationDepth)
  let grantorIsDelegate := match parent.grantee with
    | .principal principal => decide (child.grantor = principal)
    | .pluginInstallation _ _ _ => false
  let delegateClassIsPermitted := (binarySearch delegateClassCode parent.permittedDelegateClasses .principal).isSome
  let issuanceFollowsParent := decide (child.issuanceTimeline = parent.issuanceTimeline) &&
    decide (parent.issuanceSeq < child.issuanceSeq)
  let issuanceIsWithinParentAuthority := decide (parent.validFromPosition ≤ child.issuanceSeq) &&
    parent.revocationFence.all fun fence => decide (child.issuanceSeq < fence)
  decide (child.parentGrantId = some parent.grantId) && depthIsNext && depthIsBounded && descendantsAreBounded &&
    grantorIsDelegate && delegateClassIsPermitted && issuanceFollowsParent && issuanceIsWithinParentAuthority &&
    (binarySearch id parent.scope.actions delegateActionV1).isSome && child.scope.isAttenuationOf parent.scope &&
    decide (parent.validFromPosition ≤ child.validFromPosition) &&
    decide (child.validUntilPosition ≤ parent.validUntilPosition) &&
    decide (child.consentReferences = parent.consentReferences)

/-- The turn of the chain loop at each grant, with the identities seen and the grant before it. -/
def validateLinks (rootGrantor : Option PrincipalRefV1) : List Hash → List PrincipalRefV1 → Option CapabilityGrantV1 →
    List CapabilityGrantV1 → AuthorityResult Unit
  | _, _, _, [] => .ok ()
  | seenGrants, seenDelegates, previous, grant :: rest =>
    if seenGrants.contains grant.grantId || seenDelegates.contains grant.grantee.asPrincipal ||
        (previous.isSome && decide (rootGrantor = some grant.grantee.asPrincipal)) then .error .duplicateIdentity
    else
      let linked := match previous with
        | some parent => validChild parent grant
        | none => grant.parentGrantId.isNone && decide (grant.delegationDepth = 0)
      if linked then
        validateLinks rootGrantor (seenGrants ++ [grant.grantId]) (seenDelegates ++ [grant.grantee.asPrincipal])
          (some grant) rest
      else .error .delegationInvalid

def validateChainStructure (chain : List CapabilityGrantV1) : AuthorityResult Unit :=
  if maxAuthorityDelegationDepth + 1 < chain.length then .error .fieldOutOfBounds
  else validateLinks (chain.head?.map fun grant => grant.grantor) [] [] none chain

/-- A bounded root-to-leaf capability chain. -/
structure DelegationChainV1 where
  grants : List CapabilityGrantV1
  valid : validateChainStructure grants = .ok ()

def DelegationChainV1.tryFromGrants (grants : List CapabilityGrantV1) : AuthorityResult DelegationChainV1 :=
  match h : validateChainStructure grants with
  | .ok () => .ok ⟨grants, h⟩
  | .error error => .error error

/-! ## The trusted registry -/

structure AuthorityRegistryDraftV1 where
  registryDigest : Hash
  authenticationBindings : List Hash
  capabilityBindings : List Hash
  consentBindings : List Hash

def AuthorityRegistryDraftV1.validate (draft : AuthorityRegistryDraftV1) : AuthorityResult Unit := do
  validateHash draft.registryDigest
  validateRequiredHashSet draft.authenticationBindings maxAuthorityRegistryBindings
  validateHashSet draft.capabilityBindings maxAuthorityRegistryBindings
  validateHashSet draft.consentBindings maxAuthorityRegistryBindings

/-- The trust roots resolved from the host's registry. -/
structure AuthorityRegistrySnapshotV1 extends AuthorityRegistryDraftV1 where
  valid : toAuthorityRegistryDraftV1.validate = .ok ()

namespace AuthorityRegistrySnapshotV1

variable (blake3 : ByteHash) (registry : AuthorityRegistrySnapshotV1)

def trustsAuthentication (request : AuthorizationRequestV1) : Bool :=
  decide (request.authorityRegistryDigest = registry.registryDigest) &&
    (binarySearch id registry.authenticationBindings (request.authenticated.registryBindingDigest blake3)).isSome

def trustsConsent (request : AuthorizationRequestV1) : Bool :=
  match request.consent with
  | .resolved grants => grants.all fun grant => decide (grant.authorityRegistryDigest = registry.registryDigest) &&
      (binarySearch id registry.consentBindings (grant.bindingDigest blake3)).isSome
  | _ => true

def capabilityBinding (grant : CapabilityGrantV1) : Option Hash :=
  if grant.authorityRegistryDigest = registry.registryDigest then
    (grant.bindingDigest blake3).toOption.filter fun binding => (binarySearch id registry.capabilityBindings binding).isSome
  else none

def trustsCapabilities (chain : DelegationChainV1) : Bool :=
  chain.grants.all fun grant => (registry.capabilityBinding blake3 grant).isSome

end AuthorityRegistrySnapshotV1

/-! ## Evaluation -/

inductive AuthorizationOutcomeV1 where
  | active
  | revokedAtFence
  | expired
  | parentInvalid
  | consentMissing
  | revocationStateStale
  | indeterminateFailClosed
deriving DecidableEq

def AuthorizationOutcomeV1.code : AuthorizationOutcomeV1 → UInt8
  | .active => 0
  | .revokedAtFence => 1
  | .expired => 2
  | .parentInvalid => 3
  | .consentMissing => 4
  | .revocationStateStale => 5
  | .indeterminateFailClosed => 6

structure AuthorizationEvaluationV1 where
  outcome : AuthorizationOutcomeV1
  error : Option AuthorityErrorV1
  grantEvidenceIsTrusted : Bool

namespace AuthorizationEvaluationV1

def active : AuthorizationEvaluationV1 := ⟨.active, none, true⟩

def denied (outcome : AuthorizationOutcomeV1) (error : Option AuthorityErrorV1) : AuthorizationEvaluationV1 :=
  ⟨outcome, error, false⟩

def deniedWithTrustedGrant (outcome : AuthorizationOutcomeV1) (error : Option AuthorityErrorV1) :
    AuthorizationEvaluationV1 :=
  ⟨outcome, error, true⟩

end AuthorizationEvaluationV1

open AuthorizationEvaluationV1 (denied deniedWithTrustedGrant)

def evaluateConsentGrant (request : AuthorizationRequestV1) (grant : ConsentGrantRefV1) : AuthorizationEvaluationV1 :=
  let identityMatches := decide (some grant.subjectId = request.subjectId) &&
    decide (grant.granteeId = request.actorEntityId)
  let coordinateMatches := decide (some grant.consentTimeline = request.consentTimeline) &&
    request.consentAtPosition.any fun position => decide (grant.grantPosition ≤ position)
  let scopeMatches := (binarySearch id grant.dataCategories request.dataCategory).isSome &&
    (binarySearch id grant.purposes request.purpose).isSome && (binarySearch id grant.audiences request.audience).isSome &&
    (binarySearch id grant.actionClasses request.action).isSome
  let policyRevisionMatches := decide (grant.policyRevision = request.consentPolicyRevision)
  let registryMatches := decide (grant.authorityRegistryDigest = request.authorityRegistryDigest)
  if !(identityMatches && coordinateMatches && scopeMatches && policyRevisionMatches && registryMatches) then
    denied .consentMissing (some .consentMissing)
  else if request.atTime < grant.validFrom ∨ grant.validUntil ≤ request.atTime then denied .expired none
  else if grant.revocationFence.any fun fence => request.consentAtPosition.any fun position => decide (fence ≤ position) then
    denied .revokedAtFence (some .revokedAtFence)
  else .active

def evaluateConsent (request : AuthorizationRequestV1) : AuthorizationEvaluationV1 :=
  if request.subjectId.isNone then
    match request.consent with
    | .notRequired => .active
    | .indeterminate => denied .indeterminateFailClosed (some .policyIndeterminate)
    | _ => denied .consentMissing (some .consentMissing)
  else
    match request.consent with
    | .resolved grants =>
      ((grants.map (evaluateConsentGrant request)).find? fun evaluation => decide (evaluation.outcome ≠ .active)).getD
        .active
    | .missing => denied .consentMissing (some .consentMissing)
    | .notRequired => denied .consentMissing (some .consentMissing)
    | .indeterminate => denied .indeterminateFailClosed (some .policyIndeterminate)

def granteeContextMatches (request : AuthorizationRequestV1) (grant : CapabilityGrantV1) : Bool :=
  match grant.grantee with
  | .principal _ => request.pluginId.isNone && request.installationId.isNone
  | .pluginInstallation _ pluginId installationId =>
    decide (request.pluginId = some pluginId) && decide (request.installationId = some installationId) &&
      decide (grant.scope.pluginId = some pluginId)

def grantCoversConsent (grant : CapabilityGrantV1) : ConsentEvidenceV1 → Bool
  | .resolved grants => decide (grant.consentReferences.length = grants.length) &&
      (grants.zip grant.consentReferences).all fun (consent, reference) => decide (consent.consentId = reference)
  | _ => false

inductive ChainValidity where
  | valid
  | parentInvalid
deriving DecidableEq

def validateDelegationChain (request : AuthorizationRequestV1) : List CapabilityGrantV1 → ChainValidity
  | [] => .valid
  | grant :: rest =>
    let isLeaf := rest.isEmpty
    let parentTimelineIsCurrent := decide (grant.issuanceTimeline = request.authorityTimeline)
    let parentPolicyIsCurrent := decide (grant.policyRevision = request.capabilityPolicyRevision)
    let parentRevocationIsCurrent := decide (grant.revocationEpoch = request.revocationEpoch)
    if !isLeaf && (!parentTimelineIsCurrent || !parentPolicyIsCurrent || !parentRevocationIsCurrent) then .parentInvalid
    else if request.subjectId.isSome && !grantCoversConsent grant request.consent then .parentInvalid
    else validateDelegationChain request rest

inductive TemporalValidity where
  | valid
  | expired
  | revokedAtFence
  | parentInvalid
deriving DecidableEq

def validateTemporalChain (request : AuthorizationRequestV1) : List CapabilityGrantV1 → TemporalValidity
  | [] => .valid
  | grant :: rest =>
    let isLeaf := rest.isEmpty
    if request.atPosition < grant.validFromPosition ∨ grant.validUntilPosition ≤ request.atPosition then
      if isLeaf then .expired else .parentInvalid
    else if grant.revocationFence.any fun fence => decide (fence ≤ request.atPosition) then
      if isLeaf then .revokedAtFence else .parentInvalid
    else validateTemporalChain request rest

/-- The decision on the capability once consent stands. -/
def evaluateCapability (blake3 : ByteHash) (request : AuthorizationRequestV1) (chain : DelegationChainV1)
    (registry : AuthorityRegistrySnapshotV1) : AuthorizationEvaluationV1 :=
  match chain.grants.getLast? with
  | none => denied .indeterminateFailClosed (some .capabilityMissing)
  | some leaf =>
    if !registry.trustsCapabilities blake3 chain then denied .indeterminateFailClosed (some .capabilityMissing)
    else if leaf.grantee.asPrincipal ≠ request.authenticated.principal then
      denied .indeterminateFailClosed (some .principalUnresolved)
    else if !granteeContextMatches request leaf then
      deniedWithTrustedGrant .indeterminateFailClosed (some .capabilityMissing)
    else if !leaf.scope.permits request then
      deniedWithTrustedGrant .indeterminateFailClosed (some .capabilityMissing)
    else if validateDelegationChain request chain.grants = .parentInvalid then
      deniedWithTrustedGrant .parentInvalid (some .delegationInvalid)
    else if !request.revocationStateCurrent then
      deniedWithTrustedGrant .revocationStateStale (some .revocationStateStale)
    else if request.authorityTimeline ≠ leaf.issuanceTimeline ∨ request.revocationEpoch ≠ leaf.revocationEpoch ∨
        request.capabilityPolicyRevision ≠ leaf.policyRevision then
      deniedWithTrustedGrant .indeterminateFailClosed (some .policyIndeterminate)
    else match validateTemporalChain request chain.grants with
      | .valid => .active
      | .expired => deniedWithTrustedGrant .expired none
      | .revokedAtFence => deniedWithTrustedGrant .revokedAtFence (some .revokedAtFence)
      | .parentInvalid => deniedWithTrustedGrant .parentInvalid (some .delegationInvalid)

def authorizationEvaluation (blake3 : ByteHash) (request : AuthorizationRequestV1) (chain : DelegationChainV1)
    (registry : AuthorityRegistrySnapshotV1) : AuthorizationEvaluationV1 :=
  if !registry.trustsAuthentication blake3 request then denied .indeterminateFailClosed (some .principalUnresolved)
  else if request.atTime < request.authenticated.issuedAt ∨ request.authenticated.expiresAt ≤ request.atTime then
    denied .expired none
  else if !registry.trustsConsent blake3 request then denied .consentMissing (some .consentMissing)
  else
    let consentEvaluation := evaluateConsent request
    if consentEvaluation.outcome ≠ .active then consentEvaluation
    else evaluateCapability blake3 request chain registry

/-- The answer for one request. -/
structure AuthorizationDecisionV1 where
  principal : PrincipalRefV1
  principalRole : AuthorityRoleV1
  actorEntityId : EntityId
  subjectId : Option EntityId
  participantId : Option EntityId
  pluginId : Option PluginId
  installationId : Option (BitVec 128)
  originatingPrincipal : Option PrincipalRefV1
  actingDelegates : List PrincipalRefV1
  grantId : Option Hash
  grantChainBindings : List Hash
  consentPolicyRevision : Hash
  capabilityPolicyRevision : Hash
  authorityTimeline : TimelineId
  atPosition : Seq
  consentTimeline : Option TimelineId
  consentAtPosition : Option Seq
  authorityRegistryDigest : Hash
  outcome : AuthorizationOutcomeV1
  error : Option AuthorityErrorV1
  requestDigest : Hash
  decisionDigest : Hash

def decisionDigest (blake3 : ByteHash) (decision : AuthorizationDecisionV1) : Hash :=
  underDomain blake3 "PiglorOS.AuthorizationDecision.v1" (digestPart (ulidBytes decision.principal.principalId) ++
    digestPart (textBytes decision.principal.trustDomain) ++ [UInt8.ofNat (roleCode decision.principalRole)] ++
    ulidBytes decision.actorEntityId.ulid ++
    digestOptionalBytes (decision.subjectId.map fun id => ulidBytes id.ulid) ++
    digestOptionalBytes (decision.participantId.map fun id => ulidBytes id.ulid) ++
    digestOptionalBytes (decision.pluginId.map fun id => ulidBytes id.ulid) ++
    digestOptionalBytes (decision.installationId.map ulidBytes) ++
    digestOptionalPrincipal decision.originatingPrincipal ++ u64Bytes decision.actingDelegates.length ++
    decision.actingDelegates.flatMap digestPrincipal ++ digestOptionalBytes (decision.grantId.map hashBytes) ++
    u64Bytes decision.grantChainBindings.length ++ decision.grantChainBindings.flatMap hashBytes ++
    hashBytes decision.consentPolicyRevision ++ hashBytes decision.capabilityPolicyRevision ++
    ulidBytes decision.authorityTimeline.ulid ++ u64Bytes decision.atPosition ++
    digestOptionalBytes (decision.consentTimeline.map fun id => ulidBytes id.ulid) ++
    digestOptionalBytes (decision.consentAtPosition.map u64Bytes) ++ hashBytes decision.authorityRegistryDigest ++
    [decision.outcome.code] ++ digestOptionalError decision.error ++ hashBytes decision.requestDigest)

/-- The evaluation with the bindings of its chain; a grant without a digest leaves no trusted evidence. -/
def boundEvaluation (blake3 : ByteHash) (chain : DelegationChainV1) (evaluation : AuthorizationEvaluationV1) :
    AuthorizationEvaluationV1 × List Hash :=
  if evaluation.grantEvidenceIsTrusted then
    match chain.grants.mapM fun grant => grant.bindingDigest blake3 with
    | .ok bindings => (evaluation, bindings)
    | .error _ => (denied .indeterminateFailClosed (some .provenanceMissing), [])
  else (evaluation, [])

def authorize (blake3 : ByteHash) (request : AuthorizationRequestV1) (chain : DelegationChainV1)
    (registry : AuthorityRegistrySnapshotV1) : AuthorizationDecisionV1 :=
  let bound := boundEvaluation blake3 chain (authorizationEvaluation blake3 request chain registry)
  let evaluation := bound.1
  let trusted := evaluation.grantEvidenceIsTrusted
  let decision : AuthorizationDecisionV1 := {
    principal := request.authenticated.principal
    principalRole := request.principalRole
    actorEntityId := request.actorEntityId
    subjectId := request.subjectId
    participantId := request.participantId
    pluginId := request.pluginId
    installationId := request.installationId
    originatingPrincipal := if trusted then chain.grants.head?.map fun grant => grant.grantor else none
    actingDelegates := if trusted then chain.grants.dropLast.map fun grant => grant.grantee.asPrincipal else []
    grantId := if trusted then chain.grants.getLast?.map fun grant => grant.grantId else none
    grantChainBindings := bound.2
    consentPolicyRevision := request.consentPolicyRevision
    capabilityPolicyRevision := request.capabilityPolicyRevision
    authorityTimeline := request.authorityTimeline
    atPosition := request.atPosition
    consentTimeline := request.consentTimeline
    consentAtPosition := request.consentAtPosition
    authorityRegistryDigest := request.authorityRegistryDigest
    outcome := evaluation.outcome
    error := evaluation.error
    requestDigest := requestDigest blake3 request
    decisionDigest := 0 }
  { decision with decisionDigest := decisionDigest blake3 decision }

end Piglor.Authority
