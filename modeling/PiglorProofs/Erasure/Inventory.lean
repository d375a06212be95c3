/-
The complete verified inventory (`ErasureVerifiedInventoryV1`): every durable request with the
classification of every Timeline, rebuilt as one value and replaced only by a successor that keeps
each frozen membership.
-/
import PiglorProofs.Authority.Evaluation
import PiglorProofs.Erasure.Records

namespace Piglor.Erasure

open Ascending Authority Counterfactual

/-! ## Admission ceilings -/

def erasureMaxInventoryRequests : Nat := 4096

def erasureMaxInventoryTimelines : Nat := 65536

def erasureMaxInventoryClassifications : Nat := 1048576

/-- Ceilings on one recovery, each positive and within its compiled maximum. -/
structure ErasureRecoveryLimitsV1 where
  requests : Nat
  timelines : Nat
  classifications : Nat
  valid : (0 < requests ∧ requests ≤ erasureMaxInventoryRequests) ∧ (0 < timelines ∧ timelines ≤ erasureMaxInventoryTimelines)
    ∧ 0 < classifications ∧ classifications ≤ erasureMaxInventoryClassifications

namespace ErasureRecoveryLimitsV1

theorem compiledMaximum_valid : (0 < 4096 ∧ 4096 ≤ erasureMaxInventoryRequests)
    ∧ (0 < 65536 ∧ 65536 ≤ erasureMaxInventoryTimelines)
    ∧ 0 < 1048576 ∧ 1048576 ≤ erasureMaxInventoryClassifications := by decide

def compiledMaximum : ErasureRecoveryLimitsV1 := ⟨4096, 65536, 1048576, compiledMaximum_valid⟩

/-- Whether the observed counts fit every ceiling; the product of two counts within the maxima cannot overflow. -/
def admits (limits : ErasureRecoveryLimitsV1) (requests timelines : Nat) : Bool :=
  decide (requests ≤ limits.requests) && decide (timelines ≤ limits.timelines)
    && decide (requests * timelines ≤ limits.classifications)

end ErasureRecoveryLimitsV1

/-! ## Classification of a Timeline under a request -/

inductive ErasureInventoryMembershipV1 where
  | included (scope : ErasureReferenceV1)
  | excluded
deriving DecidableEq

def ErasureInventoryMembershipV1.includedScope : ErasureInventoryMembershipV1 → Option ErasureReferenceV1
  | .included scope => some scope
  | .excluded => none

structure ErasureInventoryClassificationV1 where
  request : ErasureReferenceV1
  membership : ErasureInventoryMembershipV1
  frozen : Bool
deriving DecidableEq

/-- A recovered request with the topology proof of its manifest. -/
abbrev Member := ErasureVerifiedStateV1 × ErasureVerifiedTopologyProofV1

def Member.reference (member : Member) : ErasureReferenceV1 := member.1.request.reference

/-- The request's durable head. -/
def Member.head (member : Member) : ErasureReferenceV1 × ErasureReferenceV1 := (member.reference, member.1.manifestDigest)

def classify (timeline : TimelineId) (member : Member) : ErasureInventoryClassificationV1 where
  request := member.reference
  membership := match boundScope member.2.bindings timeline with
    | some scope => .included scope
    | none => .excluded
  frozen := decide (2 ≤ containmentRank member.1.lifecycle)

/-! ## Validation of a member -/

def validateMemberTopologyMetadata (member : Member) (topology : List TimelineId) : ErasureResult Unit :=
  if member.2.manifestDigest ≠ member.1.manifestDigest
      ∨ member.2.bindings.length + member.2.unaffected.length ≠ topology.length
      ∨ (member.2.bindings.any fun binding => !member.1.scopeContains binding.2) = true then .error .provenanceMissing
  else .ok ()

/-- The proof names every Timeline of the topology once, as bound or as unaffected. -/
def validateMember (topology : List TimelineId) (member : Member) : ErasureResult Unit := do
  validateMemberTopologyMetadata member topology
  validateCommittedScopeTimelineBindings member.1 member.2.bindings
  let observed := (insertionSort id).run (member.2.bindings.map Prod.fst ++ member.2.unaffected)
  if apart id observed && observed == topology then .ok () else .error .provenanceMissing

/-! ## The inventory -/

/-- The generation of an inventory: a digest of its heads and of its topology, in canonical CBOR. -/
def erasureInventoryGeneration (blake3 : ByteHash)
    (requestHeads : List (ErasureReferenceV1 × ErasureReferenceV1)) (topology : List TimelineId) : ErasureReferenceV1 :=
  let topologyDigest := underDomain blake3 "pigloros/erasure-inventory-topology/v1"
    (encodeValue (.array (topology.map fun timeline => identifierValue timeline.ulid)))
  underDomain blake3 "pigloros/erasure-verified-inventory/v1" (encodeValue (.array
    [.array (requestHeads.map fun head => .array [hashValue head.1, hashValue head.2]), hashValue topologyDigest]))

/-- Every durable request and the classification of every Timeline under each of them. The source has
no constructor but recovery, whose checks are the last fields. -/
structure ErasureVerifiedInventoryV1 where
  generation : ErasureReferenceV1
  limits : ErasureRecoveryLimitsV1
  requestHeads : List (ErasureReferenceV1 × ErasureReferenceV1)
  members : List Member
  classifications : List (TimelineId × List ErasureInventoryClassificationV1)
  admitted : limits.admits members.length classifications.length = true
  ascendingMembers : Strict Member.reference members
  ascendingTimelines : Strict Prod.fst classifications
  heads : requestHeads = members.map Member.head
  classified : ∀ entry ∈ classifications, entry.2 = members.map (classify entry.1)
  validMembers : ∀ member ∈ members, validateMember (classifications.map Prod.fst) member = .ok ()

namespace ErasureVerifiedInventoryV1

theorem strict_matrix {topology : List TimelineId} (h : Strict id topology)
    (row : TimelineId → List ErasureInventoryClassificationV1) :
    Strict Prod.fst (topology.map fun timeline => (timeline, row timeline)) :=
  List.pairwise_map.mpr h

/-- `from_verified_recovery_with_limits`: the matrix is filled one request at a time in the source, and
one Timeline at a time here. -/
def fromVerifiedRecoveryWithLimits (blake3 : ByteHash) (recovered : List Member) (topology : List TimelineId)
    (limits : ErasureRecoveryLimitsV1) : ErasureResult ErasureVerifiedInventoryV1 :=
  let timelines := (insertionSort id).run topology
  let members := (insertionSort Member.reference).run recovered
  if hlimits : limits.admits recovered.length topology.length = true then
    if htimelines : apart id timelines = true then
      if hmembers : apart Member.reference members = true then
        match hvalid : members.forM (validateMember timelines) with
        | .error e => .error e
        | .ok () => .ok {
            generation := erasureInventoryGeneration blake3 (members.map Member.head) timelines
            limits := limits
            requestHeads := members.map Member.head
            members := members
            classifications := timelines.map fun timeline => (timeline, members.map (classify timeline))
            admitted := by
              rw [List.length_map, ((insertionSort id).perm topology).length_eq,
                ((insertionSort Member.reference).perm recovered).length_eq]
              exact hlimits
            ascendingMembers := (apart_iff ((insertionSort Member.reference).sorted recovered)).mp hmembers
            ascendingTimelines := strict_matrix ((apart_iff ((insertionSort id).sorted topology)).mp htimelines) _
            heads := rfl
            classified := by
              intro entry hentry
              obtain ⟨timeline, -, rfl⟩ := List.mem_map.mp hentry
              rfl
            validMembers := by
              rw [List.map_map]
              exact (List.map_id timelines).symm ▸ Checked.forM_eq_ok.mp hvalid }
      else .error .provenanceMissing
    else .error .provenanceMissing
  else .error .scopeInvalid

def topology (inventory : ErasureVerifiedInventoryV1) : List TimelineId := inventory.classifications.map Prod.fst

variable {inventory : ErasureVerifiedInventoryV1} {timeline : TimelineId}

/-- What a successful recovery has checked and built. -/
theorem of_fromVerifiedRecovery {blake3 : ByteHash} {recovered : List Member} {topology : List TimelineId}
    {limits : ErasureRecoveryLimitsV1} (h : fromVerifiedRecoveryWithLimits blake3 recovered topology limits = .ok inventory) :
    inventory.members.Perm recovered ∧ inventory.topology.Perm topology := by
  unfold fromVerifiedRecoveryWithLimits at h
  dsimp only at h
  split at h
  · split at h
    · split at h
      · split at h
        · cases h
        · cases h
          refine ⟨(insertionSort Member.reference).perm recovered, ?_⟩
          rw [ErasureVerifiedInventoryV1.topology, List.map_map]
          exact (List.map_id _).symm ▸ (insertionSort id).perm topology
      · cases h
    · cases h
  · cases h

def isAdmittedBy (inventory : ErasureVerifiedInventoryV1) (limits : ErasureRecoveryLimitsV1) : Bool :=
  limits.admits inventory.requestHeads.length inventory.classifications.length
    && inventory.classifications.all fun entry => entry.2.length == inventory.requestHeads.length

def classificationFor (inventory : ErasureVerifiedInventoryV1) (timeline : TimelineId) :
    Option (List ErasureInventoryClassificationV1) :=
  (Bisect.search Prod.fst timeline inventory.classifications).map Prod.snd

theorem classificationFor_eq_some {found : List ErasureInventoryClassificationV1} :
    inventory.classificationFor timeline = some found ↔
      timeline ∈ inventory.topology ∧ found = inventory.members.map (classify timeline) := by
  unfold classificationFor
  rw [Option.map_eq_some_iff]
  constructor
  · rintro ⟨entry, hentry, rfl⟩
    obtain ⟨hmem, rfl⟩ := (Bisect.search_eq_some inventory.ascendingTimelines).mp hentry
    exact ⟨List.mem_map_of_mem hmem, inventory.classified entry hmem⟩
  · rintro ⟨hmem, rfl⟩
    obtain ⟨entry, hentry, rfl⟩ := List.mem_map.mp hmem
    exact ⟨entry, (Bisect.search_eq_some inventory.ascendingTimelines).mpr ⟨hentry, rfl⟩, inventory.classified entry hentry⟩

theorem classificationFor_eq_none : inventory.classificationFor timeline = none ↔ timeline ∉ inventory.topology := by
  rw [← Option.not_isSome_iff_eq_none, Option.isSome_iff_exists, not_iff_not]
  constructor
  · rintro ⟨found, hfound⟩
    exact (classificationFor_eq_some.mp hfound).1
  · exact fun hmem => ⟨_, classificationFor_eq_some.mpr ⟨hmem, rfl⟩⟩

theorem strict_classify (inventory : ErasureVerifiedInventoryV1) (timeline : TimelineId) :
    Strict ErasureInventoryClassificationV1.request (inventory.members.map (classify timeline)) :=
  List.pairwise_map.mpr inventory.ascendingMembers

/-! ## Verdicts -/

/-- A frozen request that includes the Timeline closes it. -/
def authorize (inventory : ErasureVerifiedInventoryV1) (timeline : TimelineId) : ContainmentResult Unit :=
  match inventory.classificationFor timeline with
  | none => .error .recoveryUnavailable
  | some found =>
    if found.map ErasureInventoryClassificationV1.request ≠ inventory.requestHeads.map Prod.fst then
      .error .recoveryUnavailable
    else if found.any (fun c => c.frozen && c.membership.includedScope.isSome) then .error .accessFrozen
    else .ok ()

/-- Recovery leaves no Timeline with classifications that disagree with the heads. -/
theorem map_request_classify (inventory : ErasureVerifiedInventoryV1) (timeline : TimelineId) :
    (inventory.members.map (classify timeline)).map ErasureInventoryClassificationV1.request =
      inventory.requestHeads.map Prod.fst := by
  rw [inventory.heads, List.map_map, List.map_map]
  rfl

theorem authorize_eq (inventory : ErasureVerifiedInventoryV1) (timeline : TimelineId) :
    inventory.authorize timeline = match inventory.classificationFor timeline with
      | none => .error .recoveryUnavailable
      | some found =>
        if found.any (fun c => c.frozen && c.membership.includedScope.isSome) then .error .accessFrozen
        else .ok () := by
  unfold authorize
  cases hfound : inventory.classificationFor timeline with
  | none => rfl
  | some found =>
    obtain ⟨-, rfl⟩ := classificationFor_eq_some.mp hfound
    dsimp only
    rw [if_neg (not_not.mpr (inventory.map_request_classify timeline))]

/-- A Timeline is closed exactly when some frozen request includes it. -/
theorem authorize_eq_accessFrozen :
    inventory.authorize timeline = .error .accessFrozen ↔ ∃ found, inventory.classificationFor timeline = some found ∧
      ∃ c ∈ found, c.frozen = true ∧ c.membership.includedScope.isSome = true := by
  rw [authorize_eq]
  cases inventory.classificationFor timeline with
  | none => simp
  | some found =>
    dsimp only
    have hany : found.any (fun c => c.frozen && c.membership.includedScope.isSome) = true ↔
        ∃ c ∈ found, c.frozen = true ∧ c.membership.includedScope.isSome = true := by
      simp [List.any_eq_true]
    split
    · rename_i hclosed
      simpa using hany.mp hclosed
    · rename_i hopen
      simpa using fun c hc hfrozen => Bool.eq_false_iff.mpr fun hincluded => hopen (hany.mpr ⟨c, hc, hfrozen, hincluded⟩)

/-! ## Successors -/

/-- Every frozen classification stands, under the same membership, in the successor. -/
def validateFrozenMembershipSuccessor (inventory successor : ErasureVerifiedInventoryV1) : ErasureResult Unit :=
  inventory.classifications.forM fun entry => match successor.classificationFor entry.1 with
    | none => if entry.2.any ErasureInventoryClassificationV1.frozen then .error .provenanceMissing else .ok ()
    | some current => (entry.2.filter ErasureInventoryClassificationV1.frozen).forM fun previous =>
      match Bisect.search ErasureInventoryClassificationV1.request previous.request current with
      | none => .error .provenanceMissing
      | some c => if !c.frozen || c.membership != previous.membership then .error .provenanceMissing else .ok ()

/-- A later classification keeps what an earlier one had frozen. -/
structure Keeps (successor : ErasureVerifiedInventoryV1) (timeline : TimelineId)
    (previous : ErasureInventoryClassificationV1) : Prop where
  listed : timeline ∈ successor.topology
  stands : ∃ c ∈ successor.members.map (classify timeline), c.request = previous.request ∧ c.frozen = true ∧
    c.membership = previous.membership

variable {successor : ErasureVerifiedInventoryV1}

theorem validateFrozenMembershipSuccessor_eq_ok :
    inventory.validateFrozenMembershipSuccessor successor = .ok () ↔ ∀ timeline ∈ inventory.topology,
      ∀ previous ∈ inventory.members.map (classify timeline), previous.frozen = true →
        successor.Keeps timeline previous := by
  have hentries : (∀ timeline ∈ inventory.topology, ∀ previous ∈ inventory.members.map (classify timeline),
      previous.frozen = true → successor.Keeps timeline previous) ↔ ∀ entry ∈ inventory.classifications,
        ∀ previous ∈ entry.2, previous.frozen = true → successor.Keeps entry.1 previous := by
    constructor
    · intro h entry hentry
      rw [inventory.classified entry hentry]
      exact h entry.1 (List.mem_map_of_mem hentry)
    · intro h timeline htimeline
      obtain ⟨entry, hentry, rfl⟩ := List.mem_map.mp htimeline
      rw [← inventory.classified entry hentry]
      exact h entry hentry
  unfold validateFrozenMembershipSuccessor
  rw [hentries, Checked.forM_eq_ok]
  refine forall₂_congr fun entry hentry => ?_
  cases hcurrent : successor.classificationFor entry.1 with
  | none =>
    have hunlisted := classificationFor_eq_none.mp hcurrent
    constructor
    · intro h previous hprevious hfrozen
      rw [if_pos (List.any_eq_true.mpr ⟨previous, hprevious, hfrozen⟩)] at h
      cases h
    · intro h
      refine if_neg fun hany => ?_
      obtain ⟨previous, hprevious, hfrozen⟩ := List.any_eq_true.mp hany
      exact hunlisted (h previous hprevious hfrozen).listed
  | some current =>
    obtain ⟨hlisted, rfl⟩ := classificationFor_eq_some.mp hcurrent
    rw [Checked.forM_eq_ok]
    constructor
    · intro h previous hprevious hfrozen
      have hstep := h previous (List.mem_filter.mpr ⟨hprevious, hfrozen⟩)
      split at hstep
      · cases hstep
      · rename_i c hc
        split_ifs at hstep
        rename_i hkept
        obtain ⟨hc, hrequest⟩ := (Bisect.search_eq_some (successor.strict_classify entry.1)).mp hc
        simp only [Bool.or_eq_true, Bool.not_eq_true', bne_iff_ne, not_or, Bool.not_eq_false, not_not] at hkept
        exact ⟨hlisted, c, hc, hrequest, hkept.1, hkept.2⟩
    · intro h previous hprevious
      obtain ⟨hprevious, hfrozen⟩ := List.mem_filter.mp hprevious
      obtain ⟨-, c, hc, hrequest, hfrozen, hmembership⟩ := h previous hprevious hfrozen
      rw [(Bisect.search_eq_some (successor.strict_classify entry.1)).mpr ⟨hc, hrequest⟩]
      simp [hfrozen, hmembership]

/-- What an installed inventory closes stays closed under every successor it accepts. -/
theorem accessFrozen_of_successor (h : inventory.validateFrozenMembershipSuccessor successor = .ok ())
    (hclosed : inventory.authorize timeline = .error .accessFrozen) :
    successor.authorize timeline = .error .accessFrozen := by
  obtain ⟨found, hfound, previous, hprevious, hfrozen, hincluded⟩ := authorize_eq_accessFrozen.mp hclosed
  obtain ⟨hlisted, rfl⟩ := classificationFor_eq_some.mp hfound
  obtain ⟨hlisted', c, hc, -, hfrozen', hmembership⟩ :=
    validateFrozenMembershipSuccessor_eq_ok.mp h timeline hlisted previous hprevious hfrozen
  refine authorize_eq_accessFrozen.mpr ⟨_, classificationFor_eq_some.mpr ⟨hlisted', rfl⟩, c, hc, hfrozen', ?_⟩
  rw [hmembership]
  exact hincluded

end ErasureVerifiedInventoryV1

end Piglor.Erasure
