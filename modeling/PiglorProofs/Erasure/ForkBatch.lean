/-
The complete successor of an inventory for one future Fork (`prepare_fork_batch`): every request that
includes the parent consumes one prepared ERSE1 admission, every other one lists the child as
unaffected, and the whole inventory is rebuilt through recovery's own checks.
-/
import PiglorProofs.Erasure.Inventory

namespace Piglor.Erasure

open Ascending Authority Checked Option

/-! ## Prepared admissions -/

/-- A prepared append-only delta of one request, as far as a Fork batch reads it. -/
structure PreparedErasureCasV1 where
  request : ErasureReferenceV1
  expectedManifestDigest : Option ErasureReferenceV1
  nextManifest : ErasureReferenceV1

structure ErasureForkAdmissionInputV1 where
  operation : ErasureReferenceV1
  expectedInventoryGeneration : ErasureReferenceV1
  childScope : ErasureReferenceV1
  child : TimelineMeta
deriving DecidableEq

/-- A prepared ERSE1 admission; the last fields are what its constructor checks. -/
structure PreparedErasureForkAdmissionV1 where
  input : ErasureForkAdmissionInputV1
  extension : ErasureScopeExtensionV1
  mutation : PreparedErasureCasV1
  bindingDigest : ErasureReferenceV1
  forked : input.child.forkPoint.isSome = true
  predecessor : mutation.expectedManifestDigest.isSome = true
  historical : input.child.mode = .historical
  sameScope : input.childScope = extension.fork

structure PreparedErasureForkBatchV1 where
  input : ErasureForkAdmissionInputV1
  admissions : List PreparedErasureForkAdmissionV1
  successorInventory : ErasureVerifiedInventoryV1
  bindingDigest : ErasureReferenceV1

def PreparedErasureForkAdmissionV1.request (admission : PreparedErasureForkAdmissionV1) : ErasureReferenceV1 :=
  admission.mutation.request

/-- A digest of the child, its parent and every admission under the batch's domain. -/
def forkBatchBindingDigest (blake3 : ByteHash) (input : ErasureForkAdmissionInputV1)
    (successorGeneration : ErasureReferenceV1) (forkPoint : TimelineId × Seq) (admissionBindings : List ErasureReferenceV1) :
    ErasureReferenceV1 :=
  let child := input.child
  let name := match child.name with
    | some name => 1 :: u64Bytes name.utf8ByteSize ++ textBytes name
    | none => [0]
  let owner := match child.owner with
    | some owner => 1 :: ulidBytes owner.ulid
    | none => [0]
  blake3 (textBytes "pigloros/erasure-fork-batch/v1"
    ++ [input.operation, input.expectedInventoryGeneration, input.childScope, successorGeneration].flatMap hashBytes
    ++ ulidBytes child.id.ulid ++ textBytes "historical" ++ name ++ owner
    ++ ulidBytes forkPoint.1.ulid ++ u64Bytes forkPoint.2
    ++ u64Bytes admissionBindings.length ++ admissionBindings.flatMap hashBytes)

def PreparedErasureForkBatchV1.new (blake3 : ByteHash) (input : ErasureForkAdmissionInputV1)
    (admissions : List PreparedErasureForkAdmissionV1) (successor : ErasureVerifiedInventoryV1) :
    ErasureResult PreparedErasureForkBatchV1 :=
  match input.child.forkPoint with
  | none => .error .policyConflict
  | some forkPoint => .ok ⟨input, admissions, successor, forkBatchBindingDigest blake3 input successor.generation forkPoint
      (admissions.map PreparedErasureForkAdmissionV1.bindingDigest)⟩

/-- `Vec::swap_remove`: the last element takes the removed one's place. -/
def swapRemove {α : Type} (xs : List α) (index : Nat) : Option (α × List α) :=
  match xs[index]?, xs.getLast? with
  | some removed, some last => some (removed, (xs.set index last).dropLast)
  | _, _ => none

variable {index : Nat}

theorem of_swapRemove {α : Type} {xs : List α} {removed : α} {others : List α}
    (h : swapRemove xs index = some (removed, others)) : xs[index]? = some removed ∧ (removed :: others).Perm xs := by
  unfold swapRemove at h
  split at h
  · rename_i found last hfound hlast
    cases h
    refine ⟨hfound, ?_⟩
    obtain ⟨front, rfl⟩ := List.getLast?_eq_some_iff.mp hlast
    rcases Nat.lt_or_ge index front.length with hlt | hge
    · rw [List.getElem?_append_left hlt, List.getElem?_eq_getElem hlt] at hfound
      cases hfound
      rw [List.set_append_left _ _ hlt, List.dropLast_concat]
      have hset := (List.set_perm_cons_eraseIdx hlt last).cons front[index]
      have hback := (List.getElem_cons_eraseIdx_perm hlt).cons last
      exact (hset.trans (.swap _ _ _)).trans (hback.trans (List.perm_append_singleton _ _).symm)
    · obtain ⟨hindex, hvalue⟩ := List.getElem?_eq_some_iff.mp hfound
      obtain rfl : index = front.length := by
        rw [List.length_append, List.length_singleton] at hindex
        omega
      rw [List.getElem_concat_length rfl] at hvalue
      subst hvalue
      simpa using (List.perm_append_singleton last front).symm
  · cases h

/-! ## Validation -/

namespace ErasureVerifiedInventoryV1

/-- The classifications of a parent whose including requests all admit future Forks. -/
def admittedForkParentClassifications (inventory : ErasureVerifiedInventoryV1) (parent : TimelineId) :
    ErasureResult (List ErasureInventoryClassificationV1) :=
  match inventory.classificationFor parent with
  | none => .error .provenanceMissing
  | some classifications => do
    refuseIf (classifications.length ≠ inventory.requestHeads.length) .provenanceMissing
    (inventory.members.zip classifications).forM fun pair => do
      refuseIf (pair.2.request ≠ pair.1.reference) .provenanceMissing
      if pair.2.membership.includedScope.isSome then
        match pair.1.1.scope with
        | none => .error .provenanceMissing
        | some scope => refuseIf (scope.lineageRule = none) .policyConflict
      else .ok ()
    .ok classifications

/-- No including request has the child's scope already, in its frozen scope or as a Fork. -/
def validateForkChildScopeAdmission (inventory : ErasureVerifiedInventoryV1) (parent : TimelineId)
    (childScope : ErasureReferenceV1) : ErasureResult Unit := do
  let classifications ← inventory.admittedForkParentClassifications parent
  refuseIf (((inventory.members.zip classifications).any fun pair =>
    pair.2.membership.includedScope.isSome && pair.1.1.scopeContains childScope) = true) .policyConflict

/-- The position of the parent's classifications, once the input fits the inventory. -/
def validateForkBatchInput (inventory : ErasureVerifiedInventoryV1) (input : ErasureForkAdmissionInputV1) :
    ErasureResult Nat :=
  match input.child.forkPoint.filter fun _ => input.child.mode == .historical with
  | none => .error .policyConflict
  | some (parent, _) => do
    refuseIf (input.expectedInventoryGeneration ≠ inventory.generation) .staleGeneration
    refuseIf ((inventory.classificationFor input.child.id).isSome = true) .policyConflict
    refuseIf (¬ inventory.limits.admits inventory.members.length (inventory.classifications.length + 1) = true) .scopeInvalid
    match Bisect.binarySearchBy (fun entry => cmp (Prod.fst entry) parent) inventory.classifications with
    | none => .error .provenanceMissing
    | some index => do
      inventory.validateForkChildScopeAdmission parent input.childScope
      .ok index

/-- The admissions in request order, when each is of this input and of a known request of its own. -/
def validatePreparedForkAdmissions (inventory : ErasureVerifiedInventoryV1) (input : ErasureForkAdmissionInputV1)
    (admissions : List PreparedErasureForkAdmissionV1) : ErasureResult (List PreparedErasureForkAdmissionV1) := do
  let sorted := (insertionSort PreparedErasureForkAdmissionV1.request).run admissions
  refuseIf (¬ apart PreparedErasureForkAdmissionV1.request sorted = true) .policyConflict
  refuseIf ((sorted.any fun admission => admission.input != input
    || admission.extension.childTimeline != input.child.id
    || !(inventory.requestHeads.any fun head => head.1 == admission.request)) = true) .policyConflict
  .ok sorted

/-! ## The successor -/

/-- The member of an including request, after its admission. -/
def extendMember (child : TimelineId) (admission : PreparedErasureForkAdmissionV1) (member : Member) : Member :=
  ({ member.1 with
      manifestDigest := admission.mutation.nextManifest
      scopeExtensions := member.1.scopeExtensions ++ [admission.extension] },
   { member.2 with
      manifestDigest := admission.mutation.nextManifest
      bindings := member.2.bindings ++ [(child, admission.input.childScope)] })

/-- The member of any other request: the child is unaffected. -/
def appendUnaffectedChild (child : TimelineId) (member : Member) : Member :=
  (member.1, { member.2 with unaffected := member.2.unaffected ++ [child] })

/-- `apply_successor_fork_member`; `index` is the first admission not yet consumed. -/
def applySuccessorForkMember (child : TimelineId) (admissions : List PreparedErasureForkAdmissionV1) (member : Member)
    (classification : ErasureInventoryClassificationV1) (index : Nat) : ErasureResult (Member × Nat) := do
  refuseIf (classification.request ≠ member.reference) .provenanceMissing
  let requiresExtension := classification.membership.includedScope.isSome
    && (member.1.scope.bind ErasureScopeCommitmentV1.lineageRule).isSome
  let admission := admissions[index]?.filter fun admission => admission.request == member.reference
  match requiresExtension, admission with
  | true, some admission =>
    if admission.mutation.expectedManifestDigest = some member.1.manifestDigest then
      .ok (extendMember child admission member, index + 1)
    else .error .policyConflict
  | false, none => .ok (appendUnaffectedChild child member, index)
  | _, _ => .error .policyConflict

/-- The loop over the members and the parent's classifications. -/
def applySuccessorForkMembers (child : TimelineId) (admissions : List PreparedErasureForkAdmissionV1) :
    List (Member × ErasureInventoryClassificationV1) → Nat → ErasureResult (List Member × Nat)
  | [], index => .ok ([], index)
  | pair :: rest, index => do
    let applied ← applySuccessorForkMember child admissions pair.1 pair.2 index
    let later ← applySuccessorForkMembers child admissions rest applied.2
    .ok (applied.1 :: later.1, later.2)

def prepareSuccessorForkBatch (blake3 : ByteHash) (inventory : ErasureVerifiedInventoryV1)
    (input : ErasureForkAdmissionInputV1) (admissions : List PreparedErasureForkAdmissionV1) (parentIndex : Nat) :
    ErasureResult PreparedErasureForkBatchV1 :=
  match swapRemove inventory.classifications parentIndex with
  | none => .error .provenanceMissing -- `swap_remove` would panic; the index was just found
  | some (parent, others) => do
    let applied ← applySuccessorForkMembers input.child.id admissions (inventory.members.zip parent.2) 0
    let topology := others.map Prod.fst ++ [parent.1, input.child.id]
    let successor ← fromVerifiedRecoveryWithLimits blake3 applied.1 topology inventory.limits
    PreparedErasureForkBatchV1.new blake3 input admissions successor

def prepareForkBatch (blake3 : ByteHash) (inventory : ErasureVerifiedInventoryV1)
    (input : ErasureForkAdmissionInputV1) (admissions : List PreparedErasureForkAdmissionV1) :
    ErasureResult PreparedErasureForkBatchV1 := do
  let parentIndex ← inventory.validateForkBatchInput input
  let sorted ← inventory.validatePreparedForkAdmissions input admissions
  prepareSuccessorForkBatch blake3 inventory input sorted parentIndex

/-! ## What the checks establish -/

/-- Whether a request includes the Timeline. -/
def includes (timeline : TimelineId) (member : Member) : Bool :=
  (classify timeline member).membership.includedScope.isSome

theorem zip_classify (members : List Member) (timeline : TimelineId) :
    members.zip (members.map (classify timeline)) = members.map fun member => (member, classify timeline member) :=
  List.map_prod_left_eq_zip.symm

variable {inventory : ErasureVerifiedInventoryV1} {parent child : TimelineId} {input : ErasureForkAdmissionInputV1}
  {admissions : List PreparedErasureForkAdmissionV1}

theorem of_admittedForkParent {classifications : List ErasureInventoryClassificationV1}
    (h : inventory.admittedForkParentClassifications parent = .ok classifications) :
    ∀ member ∈ inventory.members, includes parent member = true →
      (member.1.scope.bind ErasureScopeCommitmentV1.lineageRule).isSome = true := by
  unfold admittedForkParentClassifications at h
  split at h
  · cases h
  · rename_i found hfound
    obtain ⟨-, rfl⟩ := classificationFor_eq_some.mp hfound
    replace h := of_check h
    obtain ⟨⟨⟩, hmembers, -⟩ := bind_eq_ok.mp h
    intro member hmember hincludes
    rw [zip_classify, forM_eq_ok] at hmembers
    obtain ⟨⟨⟩, -, hrule⟩ := bind_eq_ok.mp (hmembers _ (List.mem_map_of_mem hmember))
    rw [if_pos (show (classify parent member).membership.includedScope.isSome = true from hincludes)] at hrule
    split at hrule
    · cases hrule
    · rename_i scope hscope
      rw [show member.1.scope = some scope from hscope, bind_some]
      exact isSome_iff_ne_none.mpr (refuseIf_eq_ok.mp hrule)

/-- What a valid input says of the child and its parent. -/
structure Forks (inventory : ErasureVerifiedInventoryV1) (input : ErasureForkAdmissionInputV1) (parent : TimelineId)
    (index : Nat) : Prop where
  parentOf : ∃ at_, input.child.forkPoint = some (parent, at_)
  found : ∃ entry, inventory.classifications[index]? = some entry ∧ entry.1 = parent
  childNew : input.child.id ∉ inventory.topology
  lineage : ∀ member ∈ inventory.members, includes parent member = true →
    (member.1.scope.bind ErasureScopeCommitmentV1.lineageRule).isSome = true

theorem of_validateForkBatchInput (h : inventory.validateForkBatchInput input = .ok index) :
    ∃ parent, Forks inventory input parent index := by
  unfold validateForkBatchInput at h
  split at h
  · cases h
  · rename_i parent at_ hpoint
    replace h := of_check h
    obtain ⟨⟨⟩, hchild, h⟩ := bind_eq_ok.mp h
    replace h := of_check h
    split at h
    · cases h
    · rename_i found hfound
      obtain ⟨⟨⟩, hscope, h⟩ := bind_eq_ok.mp h
      obtain ⟨classifications, hparent, -⟩ := bind_eq_ok.mp hscope
      cases h
      refine ⟨parent, ⟨at_, (filter_eq_some_iff.mp hpoint).1⟩, Bisect.getElem?_of_binarySearchBy hfound, ?_,
        of_admittedForkParent hparent⟩
      exact classificationFor_eq_none.mp (not_isSome_iff_eq_none.mp (refuseIf_eq_ok.mp hchild))

/-- What valid admissions are, once sorted. -/
structure Admitted (inventory : ErasureVerifiedInventoryV1) (input : ErasureForkAdmissionInputV1)
    (admissions : List PreparedErasureForkAdmissionV1) : Prop where
  ascending : Strict PreparedErasureForkAdmissionV1.request admissions
  ofInput : ∀ admission ∈ admissions, admission.input = input
  known : ∀ admission ∈ admissions, admission.request ∈ inventory.members.map Member.reference

open PreparedErasureForkAdmissionV1

theorem of_validatePreparedForkAdmissions {sorted : List PreparedErasureForkAdmissionV1}
    (h : inventory.validatePreparedForkAdmissions input admissions = .ok sorted) :
    sorted.Perm admissions ∧ Admitted inventory input sorted := by
  obtain ⟨⟨⟩, hapart, h⟩ := bind_eq_ok.mp h
  obtain ⟨⟨⟩, hall, h⟩ := bind_eq_ok.mp h
  cases h
  have hvalid : ∀ admission ∈ (insertionSort request).run admissions,
      admission.input = input ∧ admission.extension.childTimeline = input.child.id ∧
        ∃ head ∈ inventory.requestHeads, head.1 = admission.request := by
    intro admission hadmission
    have hnot := fun hbad => refuseIf_eq_ok.mp hall (List.any_eq_true.mpr ⟨admission, hadmission, hbad⟩)
    simpa [and_assoc] using hnot
  refine ⟨(insertionSort _).perm admissions, ?_, fun admission h => (hvalid admission h).1, fun admission h => ?_⟩
  · exact (apart_iff ((insertionSort _).sorted admissions)).mp (not_not.mp (refuseIf_eq_ok.mp hapart))
  · obtain ⟨-, -, head, hhead, hrequest⟩ := hvalid admission h
    rw [inventory.heads] at hhead
    obtain ⟨member, hmember, rfl⟩ := List.mem_map.mp hhead
    exact List.mem_map.mpr ⟨member, hmember, hrequest⟩

/-! ## The loop over the members -/

/-- A request with an admission of its own is extended by it; any other lists the child as unaffected. -/
def successorMember (child : TimelineId) (admissions : List PreparedErasureForkAdmissionV1) (member : Member) : Member :=
  match admissions.find? fun admission => admission.request == member.reference with
  | some admission => extendMember child admission member
  | none => appendUnaffectedChild child member

variable {member : Member} {timeline : TimelineId}

theorem applySuccessorForkMember_cases {applied : Member × Nat}
    (hlineage : includes parent member = true → (member.1.scope.bind ErasureScopeCommitmentV1.lineageRule).isSome = true)
    (h : applySuccessorForkMember child admissions member (classify parent member) index = .ok applied) :
    (includes parent member = true ∧ ∃ admission, admissions[index]? = some admission ∧
      admission.request = member.reference ∧ applied = (extendMember child admission member, index + 1)) ∨
    (includes parent member = false ∧ (∀ admission, admissions[index]? = some admission →
      admission.request ≠ member.reference) ∧
      applied = (appendUnaffectedChild child member, index)) := by
  replace h := of_check h
  dsimp only at h
  rw [show (classify parent member).membership.includedScope.isSome = includes parent member from rfl] at h
  split at h
  · rename_i admission hrequires hadmission
    obtain ⟨hget, hrequest⟩ := filter_eq_some_iff.mp hadmission
    split at h
    · cases h
      exact .inl ⟨(Bool.and_eq_true_iff.mp hrequires).1, admission, hget, beq_iff_eq.mp hrequest, rfl⟩
    · cases h
  · rename_i hrequires hadmission
    cases h
    refine .inr ⟨?_, fun admission hget hrequest => ?_, rfl⟩
    · by_contra hincludes
      have hincludes : includes parent member = true := by simpa using hincludes
      rw [hincludes, hlineage hincludes] at hrequires
      cases hrequires
    · rw [hget, filter_some, if_pos (beq_iff_eq.mpr hrequest)] at hadmission
      cases hadmission
  · cases h

/-- The loop over the members in request order consumes every admission that is left, one for each request
that includes the parent. -/
theorem applySuccessorForkMembers_eq : ∀ {members : List Member} {index : Nat} {applied : List Member × Nat},
    (∀ member ∈ members, includes parent member = true →
      (member.1.scope.bind ErasureScopeCommitmentV1.lineageRule).isSome = true) →
    Strict Member.reference members → Strict request (admissions.drop index) →
    (∀ admission ∈ admissions.drop index, admission.request ∈ members.map Member.reference) →
    applySuccessorForkMembers child admissions (members.map fun member => (member, classify parent member)) index =
      .ok applied →
    (admissions.drop index).map request =
    (members.filter (includes parent)).map Member.reference ∧
      applied.1 = members.map (successorMember child (admissions.drop index))
  | [], index, applied, _, _, _, hknown, h => by
    cases h
    rw [List.eq_nil_iff_forall_not_mem.mpr fun admission hmem => List.not_mem_nil (hknown admission hmem)]
    exact ⟨rfl, rfl⟩
  | member :: members, index, applied, hlineage, hmembers, hadmissions, hknown, h => by
    obtain ⟨first, hfirst, h⟩ := bind_eq_ok.mp h
    obtain ⟨later, hlater, h⟩ := bind_eq_ok.mp h
    cases h
    obtain ⟨hbelow, hstrict⟩ := List.pairwise_cons.mp hmembers
    obtain ⟨hown, hrest⟩ := List.forall_mem_cons.mp hlineage
    -- an admission of another request than this member's is of one of the later members
    have hlaterKnown {admission : PreparedErasureForkAdmissionV1} (hmem : admission ∈ admissions.drop index)
        (hne : admission.request ≠ member.reference) : admission.request ∈ members.map Member.reference :=
      (List.mem_cons.mp (hknown admission hmem)).resolve_left hne
    rcases applySuccessorForkMember_cases hown hfirst with
      ⟨hincludes, admission, hget, hrequest, rfl⟩ | ⟨hexcludes, hnone, rfl⟩
    · have hdrop : admissions.drop index = admission :: admissions.drop (index + 1) :=
        List.drop_eq_getElem?_toList_append.trans (by rw [hget]; rfl)
      rw [hdrop] at hadmissions hlaterKnown ⊢
      obtain ⟨habove, hadmissions⟩ := List.pairwise_cons.mp hadmissions
      obtain ⟨hrequests, happlied⟩ := applySuccessorForkMembers_eq hrest hstrict hadmissions
        (fun other hother => hlaterKnown (List.mem_cons_of_mem _ hother) (hrequest ▸ (habove other hother).ne')) hlater
      have hskip : ∀ other ∈ members, successorMember child (admissions.drop (index + 1)) other =
          successorMember child (admission :: admissions.drop (index + 1)) other := by
        intro other hother
        have hne : (admission.request == other.reference) = false := by
          simpa [hrequest] using (hbelow other hother).ne
        rw [successorMember, successorMember, List.find?_cons, hne]
      constructor
      · rw [List.map_cons, hrequests, List.filter_cons, if_pos hincludes, List.map_cons, hrequest]
      · rw [List.map_cons, happlied, List.map_congr_left hskip, successorMember, List.find?_cons, beq_iff_eq.mpr hrequest]
    · have hclear : ∀ other ∈ admissions.drop index, other.request ≠ member.reference := by
        cases hdrop : admissions.drop index with
        | nil => simp
        | cons admission rest =>
          rw [hdrop] at hadmissions hlaterKnown
          have hget : admissions[index]? = some admission := by rw [← List.head?_drop, hdrop]; rfl
          obtain ⟨other, hother, hreference⟩ := List.mem_map.mp (hlaterKnown List.mem_cons_self (hnone admission hget))
          have hlt : member.reference < admission.request := hreference ▸ hbelow other hother
          exact fun next hnext => (hlt.trans_le (hadmissions.head_le hnext)).ne'
      obtain ⟨hrequests, happlied⟩ := applySuccessorForkMembers_eq hrest hstrict hadmissions
        (fun other hother => hlaterKnown hother (hclear other hother)) hlater
      have hfind : (admissions.drop index).find? (fun admission => admission.request == member.reference) = none :=
        List.find?_eq_none.mpr fun other hother => by simpa using hclear other hother
      constructor
      · rw [hrequests, List.filter_cons, hexcludes]
        rfl
      · rw [List.map_cons, happlied, successorMember, hfind]

/-! ## Classifications in the successor -/

theorem boundScope_append (bindings : List (TimelineId × ErasureReferenceV1)) (child timeline : TimelineId)
    (scope : ErasureReferenceV1) : boundScope (bindings ++ [(child, scope)]) timeline =
      (boundScope bindings timeline).or (if child = timeline then some scope else none) := by
  unfold boundScope
  rw [List.find?_append]
  cases bindings.find? fun binding => binding.1 == timeline with
  | some binding => rfl
  | none =>
    by_cases htimeline : child = timeline
    · simp [htimeline]
    · simp [htimeline]

theorem boundScope_eq_none {topology : List TimelineId} (h : validateMember topology member = .ok ())
    (hout : timeline ∉ topology) : boundScope member.2.bindings timeline = none := by
  replace h := of_check h
  replace h := of_check h
  dsimp only at h
  split at h
  · rename_i hobserved
    have htopology := beq_iff_eq.mp (Bool.and_eq_true_iff.mp hobserved).2
    unfold boundScope
    rw [map_eq_none_iff, List.find?_eq_none]
    intro binding hbinding hbound
    refine hout (htopology ▸ ((insertionSort id).perm _).mem_iff.mpr (List.mem_append_left _ ?_))
    exact List.mem_map.mpr ⟨binding, hbinding, beq_iff_eq.mp hbound⟩
  · cases h

/-- A child is classified as its parent, under its own scope. -/
def inherit (childScope : ErasureReferenceV1) (classification : ErasureInventoryClassificationV1) :
    ErasureInventoryClassificationV1 :=
  { classification with membership := match classification.membership with
      | .included _ => .included childScope
      | .excluded => .excluded }

theorem classify_successorMember_of_ne (hne : timeline ≠ child)
    (admissions : List PreparedErasureForkAdmissionV1) (member : Member) :
    classify timeline (successorMember child admissions member) = classify timeline member := by
  unfold successorMember
  split
  · rename_i admission hadmission
    have hbound : boundScope (member.2.bindings ++ [(child, admission.input.childScope)]) timeline =
        boundScope member.2.bindings timeline := by
      rw [boundScope_append, if_neg hne.symm, or_none]
    unfold classify extendMember
    rw [hbound]
    rfl
  · rfl

theorem classify_successorMember_child {childScope : ErasureReferenceV1}
    (hout : boundScope member.2.bindings child = none)
    (hscope : ∀ admission ∈ admissions, admission.input.childScope = childScope)
    (hown : (∃ admission ∈ admissions, admission.request = member.reference) ↔ includes parent member = true) :
    classify child (successorMember child admissions member) = inherit childScope (classify parent member) := by
  have hmembership : (classify child (successorMember child admissions member)).membership =
      (inherit childScope (classify parent member)).membership := by
    unfold successorMember
    cases hfind : admissions.find? fun admission => admission.request == member.reference with
    | some admission =>
      have hmem := List.mem_of_find?_eq_some hfind
      have hrequest := List.find?_some hfind
      have hincludes := hown.mp ⟨admission, hmem, beq_iff_eq.mp hrequest⟩
      obtain ⟨scope, hincluded⟩ := isSome_iff_exists.mp hincludes
      have hparent : (classify parent member).membership = .included scope := by
        cases hm : (classify parent member).membership <;> rw [hm] at hincluded <;> cases hincluded
        rfl
      rw [inherit, hparent]
      unfold classify extendMember
      rw [boundScope_append, hout, if_pos rfl, none_or, hscope admission hmem]
    | none =>
      have hexcludes : includes parent member = false := by
        rw [← Bool.not_eq_true, ← hown]
        rintro ⟨admission, hmem, hrequest⟩
        exact List.find?_eq_none.mp hfind admission hmem (beq_iff_eq.mpr hrequest)
      have hparent : (classify parent member).membership = .excluded := by
        unfold includes at hexcludes
        cases hm : (classify parent member).membership with
        | included scope =>
          rw [hm] at hexcludes
          cases hexcludes
        | excluded => rfl
      rw [inherit, hparent]
      unfold classify appendUnaffectedChild
      rw [hout]
  have hrest : (classify child (successorMember child admissions member)).request = member.reference ∧
      (classify child (successorMember child admissions member)).frozen = (classify parent member).frozen := by
    unfold successorMember
    split <;> exact ⟨rfl, rfl⟩
  calc classify child (successorMember child admissions member)
      = ⟨member.reference, (inherit childScope (classify parent member)).membership, (classify parent member).frozen⟩ := by
        rw [← hmembership, ← hrest.1, ← hrest.2]
    _ = inherit childScope (classify parent member) := rfl

/-- The head of a request after the batch: its admission's manifest, if it has one. -/
def nextHead (admissions : List PreparedErasureForkAdmissionV1) (head : ErasureReferenceV1 × ErasureReferenceV1) :
    ErasureReferenceV1 × ErasureReferenceV1 :=
  match admissions.find? fun admission => admission.request == head.1 with
  | some admission => (head.1, admission.mutation.nextManifest)
  | none => head

theorem head_successorMember (child : TimelineId) (admissions : List PreparedErasureForkAdmissionV1) (member : Member) :
    (successorMember child admissions member).head = nextHead admissions member.head := by
  unfold successorMember nextHead
  rw [show member.head.1 = member.reference from rfl]
  cases admissions.find? fun admission => admission.request == member.reference <;> rfl

theorem reference_successorMember (child : TimelineId) (admissions : List PreparedErasureForkAdmissionV1) (member : Member) :
    (successorMember child admissions member).reference = member.reference := by
  unfold successorMember
  split <;> rfl

structure Prepared (inventory : ErasureVerifiedInventoryV1) (input : ErasureForkAdmissionInputV1)
    (admissions : List PreparedErasureForkAdmissionV1) (parent : TimelineId) (batch : PreparedErasureForkBatchV1) : Prop where
  parentOf : ∃ at_, input.child.forkPoint = some (parent, at_)
  parentListed : parent ∈ inventory.topology
  childNew : input.child.id ∉ inventory.topology
  sorted : batch.admissions.Perm admissions
  admitted : Admitted inventory input batch.admissions
  consumed : batch.admissions.map PreparedErasureForkAdmissionV1.request =
    (inventory.members.filter (includes parent)).map Member.reference
  members : batch.successorInventory.members = inventory.members.map (successorMember input.child.id batch.admissions)
  topology : batch.successorInventory.topology.Perm (inventory.topology ++ [input.child.id])

variable {batch : PreparedErasureForkBatchV1}

theorem of_prepareForkBatch {blake3 : ByteHash}
    (h : prepareForkBatch blake3 inventory input admissions = .ok batch) :
    ∃ parent, Prepared inventory input admissions parent batch := by
  obtain ⟨index, hinput, h⟩ := bind_eq_ok.mp h
  obtain ⟨sorted, hadmissions, h⟩ := bind_eq_ok.mp h
  obtain ⟨parent, hforks⟩ := of_validateForkBatchInput hinput
  obtain ⟨hperm, hadmitted⟩ := of_validatePreparedForkAdmissions hadmissions
  unfold prepareSuccessorForkBatch at h
  split at h
  · cases h
  · rename_i entry others hremoved
    obtain ⟨hentry, hothers⟩ := of_swapRemove hremoved
    obtain ⟨applied, happlied, h⟩ := bind_eq_ok.mp h
    obtain ⟨successor, hsuccessor, hnew⟩ := bind_eq_ok.mp h
    obtain ⟨found, hfound, rfl⟩ := hforks.found
    obtain rfl : found = entry := some.inj (hfound.symm.trans hentry)
    have hlisted := List.mem_of_getElem? hentry
    rw [inventory.classified found hlisted, zip_classify] at happlied
    obtain ⟨hconsumed, hmembers⟩ := applySuccessorForkMembers_eq hforks.lineage inventory.ascendingMembers
      (show Strict _ (sorted.drop 0) from hadmitted.ascending) hadmitted.known happlied
    obtain ⟨hrecovered, htopology⟩ := of_fromVerifiedRecovery hsuccessor
    have hstrict : Strict Member.reference applied.1 := by
      rw [hmembers]
      exact List.pairwise_map.mpr (inventory.ascendingMembers.imp fun hlt => by
        rwa [reference_successorMember, reference_successorMember])
    unfold PreparedErasureForkBatchV1.new at hnew
    split at hnew
    · cases hnew
    · cases hnew
      refine ⟨found.1, hforks.parentOf, List.mem_map_of_mem hlisted, hforks.childNew, hperm, hadmitted, hconsumed, ?_, ?_⟩
      · exact (successor.ascendingMembers.ext hstrict fun member => hrecovered.mem_iff).trans hmembers
      · have hkept : (found.1 :: others.map Prod.fst).Perm inventory.topology := hothers.map Prod.fst
        refine htopology.trans ?_
        rw [List.append_cons]
        exact ((List.perm_append_singleton _ _).trans hkept).append_right _

section Batch

variable (h : Prepared inventory input admissions parent batch)

include h

/-- An admission is of a request exactly when the request includes the parent. -/
theorem Prepared.own_iff (hmember : member ∈ inventory.members) :
    (∃ admission ∈ batch.admissions, admission.request = member.reference) ↔ includes parent member = true := by
  rw [← List.mem_map, h.consumed, List.mem_map]
  constructor
  · rintro ⟨other, hother, hreference⟩
    obtain ⟨hother, hincludes⟩ := List.mem_filter.mp hother
    rwa [← inventory.ascendingMembers.key_inj hother hmember hreference]
  · exact fun hincludes => ⟨member, List.mem_filter.mpr ⟨hmember, hincludes⟩, rfl⟩

theorem Prepared.mem_topology :
    timeline ∈ batch.successorInventory.topology ↔ timeline ∈ inventory.topology ∨ timeline = input.child.id := by
  rw [h.topology.mem_iff, List.mem_append, List.mem_singleton]

/-- Every Timeline but the child keeps its classifications. -/
theorem Prepared.classify_of_ne (hne : timeline ≠ input.child.id) :
    batch.successorInventory.members.map (classify timeline) = inventory.members.map (classify timeline) := by
  rw [h.members, List.map_map]
  exact List.map_congr_left fun member _ => classify_successorMember_of_ne hne batch.admissions member

theorem Prepared.classificationFor_of_ne (hne : timeline ≠ input.child.id) :
    batch.successorInventory.classificationFor timeline = inventory.classificationFor timeline := by
  cases hfound : inventory.classificationFor timeline with
  | none =>
    have hout := classificationFor_eq_none.mp hfound
    exact classificationFor_eq_none.mpr fun hlisted => (h.mem_topology.mp hlisted).elim hout hne
  | some found =>
    obtain ⟨hlisted, rfl⟩ := classificationFor_eq_some.mp hfound
    exact classificationFor_eq_some.mpr ⟨h.mem_topology.mpr (.inl hlisted), (h.classify_of_ne hne).symm⟩

theorem Prepared.classificationFor_child :
    batch.successorInventory.classificationFor input.child.id =
      some ((inventory.members.map (classify parent)).map (inherit input.childScope)) := by
  refine classificationFor_eq_some.mpr ⟨h.mem_topology.mpr (.inr rfl), ?_⟩
  rw [h.members, List.map_map, List.map_map]
  refine (List.map_congr_left fun member hmember => ?_).symm
  refine classify_successorMember_child (boundScope_eq_none (inventory.validMembers member hmember) h.childNew) ?_
    (h.own_iff hmember)
  exact fun admission hadmission => congrArg ErasureForkAdmissionInputV1.childScope (h.admitted.ofInput admission hadmission)

end Batch

/-- A Fork inherits exactly its parent's erasure scopes: in the successor the child is classified as its
parent under the admitted scope, every other Timeline as before; the admissions are those of the including
requests, one each, whose heads become the prepared manifests; and the inventory accepts the successor. -/
theorem prepareForkBatch_inherits {blake3 : ByteHash} {inventory : ErasureVerifiedInventoryV1}
    {input : ErasureForkAdmissionInputV1} {admissions : List PreparedErasureForkAdmissionV1}
    {batch : PreparedErasureForkBatchV1}
    (h : prepareForkBatch blake3 inventory input admissions = .ok batch) :
    ∃ parent at_ scopes, input.child.forkPoint = some (parent, at_) ∧ inventory.classificationFor parent = some scopes ∧
      batch.successorInventory.classificationFor input.child.id = some (scopes.map (inherit input.childScope)) ∧
      (∀ timeline, timeline ≠ input.child.id →
        batch.successorInventory.classificationFor timeline = inventory.classificationFor timeline) ∧
      batch.admissions.Perm admissions ∧
      batch.admissions.map PreparedErasureForkAdmissionV1.request =
        (scopes.filter fun scope => scope.membership.includedScope.isSome).map ErasureInventoryClassificationV1.request ∧
      batch.successorInventory.requestHeads = inventory.requestHeads.map (nextHead batch.admissions) ∧
      inventory.validateFrozenMembershipSuccessor batch.successorInventory = .ok () := by
  obtain ⟨parent, hprepared⟩ := of_prepareForkBatch h
  obtain ⟨at_, hpoint⟩ := hprepared.parentOf
  refine ⟨parent, at_, inventory.members.map (classify parent), hpoint,
    classificationFor_eq_some.mpr ⟨hprepared.parentListed, rfl⟩, hprepared.classificationFor_child,
    fun timeline hne => hprepared.classificationFor_of_ne hne, hprepared.sorted, ?_, ?_, ?_⟩
  · rw [hprepared.consumed, List.filter_map, List.map_map]
    rfl
  · rw [batch.successorInventory.heads, inventory.heads, hprepared.members, List.map_map, List.map_map]
    exact List.map_congr_left fun member _ => head_successorMember input.child.id batch.admissions member
  · refine validateFrozenMembershipSuccessor_eq_ok.mpr fun timeline hlisted previous hprevious hfrozen => ?_
    have hne : timeline ≠ input.child.id := fun heq => hprepared.childNew (heq ▸ hlisted)
    refine ⟨hprepared.mem_topology.mpr (.inl hlisted), previous, ?_, rfl, hfrozen, rfl⟩
    rw [hprepared.classify_of_ne hne]
    exact hprevious

/-! ### A hedge forked from a meadow -/

/-- A request frozen over the meadow, with a rule for later Forks. -/
def meadowFrozen : ErasureVerifiedStateV1 where
  manifestDigest := 7
  request := ⟨9, 10, .privateSubjectData, [5], 11, 12, 13, 2, 4, 14⟩
  state := ⟨9, .accessFrozen, some 4, 15, [], [], .exact, some 16, 17, 18⟩
  scope := some ⟨9, [5], [⟨1⟩], 19, some 21, 20⟩
  scopeExtensions := []

/-- A request that has not frozen anything yet. -/
def meadowAuthorized : ErasureVerifiedStateV1 where
  manifestDigest := 8
  request := ⟨30, 31, .aggregate, [32], 33, 34, 35, 2, 4, 36⟩
  state := ⟨30, .authorized, none, 15, [], [], .exact, some 37, 38, 39⟩
  scope := none
  scopeExtensions := []

def meadowMembers : List Member := [(meadowAuthorized, ⟨8, [], [⟨1⟩]⟩), (meadowFrozen, ⟨7, [(⟨1⟩, 5)], []⟩)]

def hedgeInput (generation : ErasureReferenceV1) : ErasureForkAdmissionInputV1 :=
  ⟨50, generation, 6, .forkedFrom ⟨2⟩ ⟨1⟩ 3 "hedge"⟩

def hedgeAdmission (generation : ErasureReferenceV1) : PreparedErasureForkAdmissionV1 where
  input := hedgeInput generation
  extension := ⟨9, 20, 6, ⟨2⟩, 21, none, 42, 43⟩
  mutation := ⟨9, some 7, 40⟩
  bindingDigest := 41
  forked := rfl
  predecessor := rfl
  historical := rfl
  sameScope := rfl

/-- The batch that forks the hedge from a recovered inventory of the meadow. -/
def hedgeBatch : ErasureResult PreparedErasureForkBatchV1 := do
  let inventory ← fromVerifiedRecoveryWithLimits spellingHash meadowMembers [⟨1⟩] .compiledMaximum
  prepareForkBatch spellingHash inventory (hedgeInput inventory.generation) [hedgeAdmission inventory.generation]

/-- The hedge is frozen as the meadow is, under its own scope, and stays outside the other request. -/
theorem hedge_inherits_meadow : ∃ (inventory : ErasureVerifiedInventoryV1)
    (batch : PreparedErasureForkBatchV1), hedgeBatch = .ok batch ∧
    batch.successorInventory.classificationFor ⟨2⟩ = some [⟨9, .included 6, true⟩, ⟨30, .excluded, false⟩] ∧
    inventory.validateFrozenMembershipSuccessor batch.successorInventory = .ok () := by
  have hrun : hedgeBatch.map (fun batch => batch.successorInventory.classificationFor ⟨2⟩) =
      .ok (some [⟨9, .included 6, true⟩, ⟨30, .excluded, false⟩]) := by decide +kernel
  obtain ⟨batch, hhedge, hchild⟩ := map_eq_ok.mp hrun
  obtain ⟨inventory, -, hbatch⟩ := bind_eq_ok.mp hhedge
  obtain ⟨-, -, -, -, -, -, -, -, -, -, haccepted⟩ := prepareForkBatch_inherits hbatch
  exact ⟨inventory, batch, hhedge, hchild, haccepted⟩

end ErasureVerifiedInventoryV1

end Piglor.Erasure
