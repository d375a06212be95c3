/-
The canonical WDB1 packer (`world_dependency_packing.rs`): leaves are ordered by kind and native digest,
repetitions collapse, the recorded read limits are checked by a count made before the tree is built, and
the tree is built level by level from chunks of 256. `sort_unstable_by_key` may order equal keys in any
way, so the sort is a parameter. A loop over shrinking levels takes the width of the first as its fuel.
-/
import PiglorProofs.Lib.Chunks
import PiglorProofs.World.Directory

namespace Piglor.World

open Ascending List

inductive WorldDependencyDirectoryErrorV1 where
  | empty
  | wrongScope
  | conflictingRegistration
  | limitExceeded
deriving DecidableEq

structure WorldClosureReadLimitsV1 where
  maxNodeVisits : Nat
  maxNativeBytes : Nat
  maxCombinedDepth : Nat

structure WorldDependencyDirectoryV1 where
  scope : Hash
  rootHash : Hash
  leaves : List WorldArtifactLeafV1
  branches : List WorldDependencyBranchV1
deriving DecidableEq

def leafOrder (leaf : WorldArtifactLeafV1) : Nat ×ₗ Nat := toLex (leaf.input.kind.code, leaf.input.nativeDigest.toNat)

def deduplicate (sorted : List WorldArtifactLeafV1) : Except WorldDependencyDirectoryErrorV1 (List WorldArtifactLeafV1) :=
  Ascending.collapse .conflictingRegistration leafOrder sorted

/-! ## Limits -/

/-- The nodes above a level of some width and the number of their levels. -/
def countAbove : Nat → Nat → Nat × Nat
  | 0, _ => (0, 0)
  | fuel + 1, width =>
    if 1 < width then
      let next := (width + 255) / 256
      let (visits, depth) := countAbove fuel next
      (next + visits, depth + 1)
    else (0, 0)

def nativeBytes (leaves : List WorldArtifactLeafV1) : Nat :=
  leaves.foldl (fun total leaf => saturatingAdd total leaf.input.nativeByteLength) 0

def checkLimits (leaves : List WorldArtifactLeafV1) (limits : WorldClosureReadLimitsV1) :
    Except WorldDependencyDirectoryErrorV1 Unit :=
  let (visits, depth) := countAbove leaves.length leaves.length
  if limits.maxNodeVisits < leaves.length + visits ∨ limits.maxNativeBytes < nativeBytes leaves ∨
      limits.maxCombinedDepth < 1 + depth then
    .error .limitExceeded
  else .ok ()

/-! ## The tree -/

section Build

variable (blake3 : ByteHash) (scope : Hash)

/-- The summary of a leaf. -/
def leafChild (leaf : WorldArtifactLeafV1) : WorldDependencyBranchChildV1 :=
  let key : WorldDependencyKeyV1 := { kind := leaf.input.kind, nativeDigest := leaf.input.nativeDigest }
  { firstKey := key, lastKey := key, leafCount := 1, nodeHash := leaf.digest blake3 }

/-- The summary of a packed branch. -/
def branchChild (branch : WorldDependencyBranchV1) : WorldDependencyBranchChildV1 where
  firstKey := branch.firstKey
  lastKey := branch.lastKey
  leafCount := branch.leafCount
  nodeHash := branch.digest blake3

def packLevel (height : Nat) (level : List WorldDependencyBranchChildV1) : List WorldDependencyBranchV1 :=
  (Chunks.chunks maxDirectoryChildren level).map (WorldDependencyBranchV1.packed scope height)

/-- The levels above the given one, and the top. -/
def buildAbove : Nat → Nat → List WorldDependencyBranchChildV1 →
    List WorldDependencyBranchV1 × List WorldDependencyBranchChildV1
  | 0, _, level => ([], level)
  | fuel + 1, height, level =>
    if 1 < level.length then
      let branches := packLevel scope (height + 1) level
      let (above, top) := buildAbove fuel (height + 1) (branches.map (branchChild blake3))
      (branches ++ above, top)
    else ([], level)

def build (leaves : List WorldArtifactLeafV1) : WorldDependencyDirectoryV1 :=
  let (branches, top) := buildAbove blake3 scope leaves.length 0 (leaves.map (leafChild blake3))
  { scope, rootHash := top.headI.nodeHash, leaves, branches }

end Build

namespace WorldDependencyDirectoryV1

def height (directory : WorldDependencyDirectoryV1) : Nat := directory.branches.getLast?.elim 0 (·.height)

def pack (blake3 : ByteHash) (sort : UnstableSort leafOrder) (scope : Hash) (leaves : List WorldArtifactLeafV1)
    (limits : WorldClosureReadLimitsV1) : Except WorldDependencyDirectoryErrorV1 WorldDependencyDirectoryV1 :=
  if leaves = [] then .error .empty
  else if ∃ leaf ∈ leaves, leaf.input.scope ≠ scope then .error .wrongScope
  else do
    let leaves ← deduplicate (sort.run leaves)
    checkLimits leaves limits
    .ok (build blake3 scope leaves)

end WorldDependencyDirectoryV1

/-! ## The count made before the tree -/

theorem length_packLevel (scope : Hash) (height : Nat) (level : List WorldDependencyBranchChildV1) :
    (packLevel scope height level).length = (level.length + 255) / 256 := by
  rw [packLevel, length_map, Chunks.length_chunks]
  rfl

section Count

variable (blake3 : ByteHash) (scope : Hash)

/-- The nodes counted are the branches built. -/
theorem countAbove_visits (fuel height : Nat) (level : List WorldDependencyBranchChildV1) :
    (countAbove fuel level.length).1 = (buildAbove blake3 scope fuel height level).1.length := by
  induction fuel generalizing height level with
  | zero => rfl
  | succ fuel ih =>
    rw [countAbove, buildAbove]
    split_ifs with hwidth
    · have hnext := ih (height + 1) ((packLevel scope (height + 1) level).map (branchChild blake3))
      rw [length_map, length_packLevel] at hnext
      dsimp only
      rw [hnext, length_append, length_packLevel]
    · rfl

theorem countAbove_depth (fuel height : Nat) (level : List WorldDependencyBranchChildV1) :
    height + (countAbove fuel level.length).2 =
      (buildAbove blake3 scope fuel height level).1.getLast?.elim height (·.height) := by
  induction fuel generalizing height level with
  | zero => rfl
  | succ fuel ih =>
    rw [countAbove, buildAbove]
    split_ifs with hwidth
    · have hnext := ih (height + 1) ((packLevel scope (height + 1) level).map (branchChild blake3))
      rw [length_map, length_packLevel] at hnext
      have hlast : (packLevel scope (height + 1) level).getLast?.elim height (·.height) = height + 1 := by
        have hpos : (packLevel scope (height + 1) level) ≠ [] := by
          apply ne_nil_of_length_pos
          rw [length_packLevel]
          omega
        obtain ⟨branch, hbranch⟩ := Option.ne_none_iff_exists'.mp (mt getLast?_eq_none_iff.mp hpos)
        obtain ⟨chunk, -, rfl⟩ := mem_map.mp (mem_of_getLast? hbranch)
        rw [hbranch]
        rfl
      rw [← Nat.add_assoc, Nat.add_right_comm, hnext, getLast?_append]
      cases (buildAbove blake3 scope fuel (height + 1) _).1.getLast? with
      | none => exact hlast.symm
      | some branch => rfl
    · rfl

end Count

theorem foldl_saturatingAdd (values : List Nat) {total : Nat} (h : total ≤ u64Max) :
    values.foldl saturatingAdd total = min (total + values.sum) u64Max := by
  induction values generalizing total with
  | nil => simp [h]
  | cons value values ih =>
    have hstep : saturatingAdd total value ≤ u64Max := Nat.min_le_right _ _
    rw [foldl_cons, ih hstep, sum_cons, saturatingAdd]
    omega

theorem nativeBytes_eq (leaves : List WorldArtifactLeafV1) :
    nativeBytes leaves = min (leaves.map (·.input.nativeByteLength)).sum u64Max := by
  rw [nativeBytes, ← foldl_map, foldl_saturatingAdd _ (Nat.zero_le _), Nat.zero_add]

/-- The tree has more nodes, native bytes or levels than its limits; the byte sum stops at `u64::MAX`. -/
def Exceeds (limits : WorldClosureReadLimitsV1) (directory : WorldDependencyDirectoryV1) : Prop :=
  limits.maxNodeVisits < directory.leaves.length + directory.branches.length ∨
    limits.maxNativeBytes < min (directory.leaves.map (·.input.nativeByteLength)).sum u64Max ∨
    limits.maxCombinedDepth < directory.height + 1

instance (limits : WorldClosureReadLimitsV1) (directory : WorldDependencyDirectoryV1) :
    Decidable (Exceeds limits directory) := by
  unfold Exceeds
  infer_instance

/-- The limits are checked of the tree that is then built. -/
theorem checkLimits_eq (blake3 : ByteHash) (scope : Hash) (leaves : List WorldArtifactLeafV1)
    (limits : WorldClosureReadLimitsV1) :
    checkLimits leaves limits = if Exceeds limits (build blake3 scope leaves) then .error .limitExceeded else .ok () := by
  have hvisits := countAbove_visits blake3 scope leaves.length 0 (leaves.map (leafChild blake3))
  have hdepth := countAbove_depth blake3 scope leaves.length 0 (leaves.map (leafChild blake3))
  rw [length_map] at hvisits hdepth
  have hexceeds : Exceeds limits (build blake3 scope leaves) ↔
      limits.maxNodeVisits < leaves.length + (countAbove leaves.length leaves.length).1 ∨
        limits.maxNativeBytes < nativeBytes leaves ∨
        limits.maxCombinedDepth < 1 + (countAbove leaves.length leaves.length).2 := by
    rw [hvisits, nativeBytes_eq, Nat.add_comm 1, ← Nat.zero_add (countAbove _ _).2, hdepth]
    rfl
  rw [checkLimits]
  exact if_congr hexceeds.symm rfl rfl

/-! ## Packing is a function of the set of leaves -/

/-- Two different leaves of the list share a key. -/
def Conflicting (leaves : List WorldArtifactLeafV1) : Prop :=
  ∃ a ∈ leaves, ∃ b ∈ leaves, a ≠ b ∧ leafOrder a = leafOrder b

variable {distinct leaves : List WorldArtifactLeafV1}

theorem not_conflicting_of_strict (h : Strict leafOrder distinct)
    (hmem : ∀ leaf, leaf ∈ distinct ↔ leaf ∈ leaves) : ¬ Conflicting leaves := by
  rintro ⟨a, ha, b, hb, hne, hkey⟩
  exact hne (h.key_inj ((hmem a).mpr ha) ((hmem b).mpr hb) hkey)

theorem deduplicate_cases (sort : UnstableSort leafOrder) (leaves : List WorldArtifactLeafV1) :
    (∃ distinct, deduplicate (sort.run leaves) = .ok distinct ∧ Strict leafOrder distinct ∧
        ∀ leaf, leaf ∈ distinct ↔ leaf ∈ leaves) ∨
      deduplicate (sort.run leaves) = .error .conflictingRegistration ∧ Conflicting leaves := by
  have hmem : ∀ leaf, leaf ∈ sort.run leaves ↔ leaf ∈ leaves := fun leaf => (sort.perm leaves).mem_iff
  rcases collapse_cases WorldDependencyDirectoryErrorV1.conflictingRegistration (sort.sorted leaves) with
    ⟨distinct, hcollapse, hstrict, hdistinct⟩ | ⟨hcollapse, a, ha, b, hb, hne, hkey⟩
  · exact .inl ⟨distinct, hcollapse, hstrict, fun leaf => (hdistinct leaf).trans (hmem leaf)⟩
  · exact .inr ⟨hcollapse, a, (hmem a).mp ha, b, (hmem b).mp hb, hne, hkey⟩

namespace WorldDependencyDirectoryV1

section Pack

variable (blake3 : ByteHash) (sort : UnstableSort leafOrder) (scope : Hash)
  (limits : WorldClosureReadLimitsV1)

theorem pack_nil : pack blake3 sort scope [] limits = .error .empty := rfl

theorem pack_of_wrong_scope (hscope : ∃ leaf ∈ leaves, leaf.input.scope ≠ scope) :
    pack blake3 sort scope leaves limits = .error .wrongScope := by
  obtain ⟨leaf, hleaf, -⟩ := id hscope
  rw [pack, if_neg (ne_nil_of_mem hleaf), if_pos hscope]

/-- Past the checks of the input, packing is deduplication and the limits of the tree. -/
theorem pack_of_scope (hne : leaves ≠ []) (hscope : ∀ leaf ∈ leaves, leaf.input.scope = scope) :
    pack blake3 sort scope leaves limits = (deduplicate (sort.run leaves)).bind fun distinct =>
      if Exceeds limits (build blake3 scope distinct) then .error .limitExceeded
      else .ok (build blake3 scope distinct) := by
  have hscope' : ¬ ∃ leaf ∈ leaves, leaf.input.scope ≠ scope := by
    rintro ⟨leaf, hleaf, hdiffers⟩
    exact hdiffers (hscope leaf hleaf)
  rw [pack, if_neg hne, if_neg hscope']
  refine congrArg _ (funext fun distinct => ?_)
  rw [checkLimits_eq blake3 scope]
  split <;> rfl

theorem pack_of_conflicting (hscope : ∀ leaf ∈ leaves, leaf.input.scope = scope) (hconflict : Conflicting leaves) :
    pack blake3 sort scope leaves limits = .error .conflictingRegistration := by
  obtain ⟨a, ha, -⟩ := id hconflict
  rw [pack_of_scope blake3 sort scope limits (ne_nil_of_mem ha) hscope]
  rcases deduplicate_cases sort leaves with ⟨distinct, -, hstrict, hmem⟩ | ⟨hdedup, -⟩
  · exact absurd hconflict (not_conflicting_of_strict hstrict hmem)
  · rw [hdedup]
    rfl

/-- The leaves packed are the strictly ordered list of the given ones. -/
theorem pack_of_distinct (hne : leaves ≠ [])
    (hscope : ∀ leaf ∈ leaves, leaf.input.scope = scope) (hstrict : Strict leafOrder distinct)
    (hmem : ∀ leaf, leaf ∈ distinct ↔ leaf ∈ leaves) :
    pack blake3 sort scope leaves limits =
      if Exceeds limits (build blake3 scope distinct) then .error .limitExceeded
      else .ok (build blake3 scope distinct) := by
  rw [pack_of_scope blake3 sort scope limits hne hscope]
  rcases deduplicate_cases sort leaves with ⟨distinct', hdedup, hstrict', hmem'⟩ | ⟨-, hconflict⟩
  · obtain rfl : distinct' = distinct := hstrict'.ext hstrict fun leaf => (hmem' leaf).trans (hmem leaf).symm
    rw [hdedup]
    rfl
  · exact absurd hconflict (not_conflicting_of_strict hstrict hmem)

theorem pack_cases (leaves : List WorldArtifactLeafV1) :
    leaves = [] ∨ (∃ leaf ∈ leaves, leaf.input.scope ≠ scope) ∨
      (leaves ≠ [] ∧ ∀ leaf ∈ leaves, leaf.input.scope = scope) ∧ (Conflicting leaves ∨
        ∃ distinct, Strict leafOrder distinct ∧ ∀ leaf, leaf ∈ distinct ↔ leaf ∈ leaves) := by
  by_cases hne : leaves = []
  · exact .inl hne
  by_cases hscope : ∃ leaf ∈ leaves, leaf.input.scope ≠ scope
  · exact .inr (.inl hscope)
  have hscope' : ∀ leaf ∈ leaves, leaf.input.scope = scope := by
    intro leaf hleaf
    by_contra hdiffers
    exact hscope ⟨leaf, hleaf, hdiffers⟩
  refine .inr (.inr ⟨⟨hne, hscope'⟩, ?_⟩)
  rcases deduplicate_cases (insertionSort leafOrder) leaves with ⟨distinct, -, hstrict, hmem⟩ | ⟨-, hconflict⟩
  · exact .inr ⟨distinct, hstrict, hmem⟩
  · exact .inl hconflict

end Pack

/-- The directory depends only on the set of leaves. Leaves of the scope conflict exactly when two of them
share a key, and are otherwise refused exactly when the tree over them exceeds the limits. -/
theorem pack_depends_on_leaf_set (blake3 : ByteHash) (sort sort' : UnstableSort leafOrder) (scope : Hash)
    (limits : WorldClosureReadLimitsV1) {leaves leaves' : List WorldArtifactLeafV1}
    (hsame : ∀ leaf, leaf ∈ leaves ↔ leaf ∈ leaves') :
    pack blake3 sort scope leaves limits = pack blake3 sort' scope leaves' limits ∧
      (pack blake3 sort scope leaves limits = .error .conflictingRegistration ↔
        (∀ leaf ∈ leaves, leaf.input.scope = scope) ∧ Conflicting leaves) ∧
      (pack blake3 sort scope leaves limits = .error .limitExceeded ↔
        leaves ≠ [] ∧ (∀ leaf ∈ leaves, leaf.input.scope = scope) ∧ ∃ distinct, Strict leafOrder distinct ∧
          (∀ leaf, leaf ∈ distinct ↔ leaf ∈ leaves) ∧ Exceeds limits (build blake3 scope distinct)) := by
  rcases pack_cases scope leaves with rfl | ⟨wrong, hwrong, hdiffers⟩ |
      ⟨⟨hne, hscope⟩, hconflict | ⟨distinct, hstrict, hmem⟩⟩
  · obtain rfl : leaves' = [] := eq_nil_iff_forall_not_mem.mpr fun leaf h => absurd ((hsame leaf).mpr h) not_mem_nil
    simp [pack_nil, Conflicting]
  · have hall : ¬ ∀ leaf ∈ leaves, leaf.input.scope = scope := fun h => hdiffers (h wrong hwrong)
    rw [pack_of_wrong_scope blake3 sort scope limits ⟨wrong, hwrong, hdiffers⟩,
      pack_of_wrong_scope blake3 sort' scope limits ⟨wrong, (hsame wrong).mp hwrong, hdiffers⟩]
    simp [hall]
  · have hscope' : ∀ leaf ∈ leaves', leaf.input.scope = scope := fun leaf h => hscope leaf ((hsame leaf).mpr h)
    have hconflict' : Conflicting leaves' := by simpa only [Conflicting, hsame] using hconflict
    rw [pack_of_conflicting blake3 sort scope limits hscope hconflict,
      pack_of_conflicting blake3 sort' scope limits hscope' hconflict']
    refine ⟨rfl, iff_of_true rfl ⟨hscope, hconflict⟩, iff_of_false (by simp) ?_⟩
    rintro ⟨-, -, distinct, hstrict, hmem, -⟩
    exact not_conflicting_of_strict hstrict hmem hconflict
  · have hscope' : ∀ leaf ∈ leaves', leaf.input.scope = scope := fun leaf h => hscope leaf ((hsame leaf).mpr h)
    have hne' : leaves' ≠ [] := by
      obtain ⟨leaf, hleaf⟩ := exists_mem_of_ne_nil leaves hne
      exact ne_nil_of_mem ((hsame leaf).mp hleaf)
    have hmem' : ∀ leaf, leaf ∈ distinct ↔ leaf ∈ leaves' := fun leaf => (hmem leaf).trans (hsame leaf)
    have hpack := pack_of_distinct blake3 sort scope limits hne hscope hstrict hmem
    have hnot := not_conflicting_of_strict hstrict hmem
    refine ⟨hpack.trans (pack_of_distinct blake3 sort' scope limits hne' hscope' hstrict hmem').symm, ?_, ?_⟩
    · rw [hpack]
      exact iff_of_false (by split <;> simp) fun h => hnot h.2
    · constructor
      · intro hlimit
        refine ⟨hne, hscope, distinct, hstrict, hmem, ?_⟩
        by_contra hwithin
        rw [hpack, if_neg hwithin] at hlimit
        cases hlimit
      · rintro ⟨-, -, distinct', hstrict', hmem', hexceeds⟩
        rw [pack_of_distinct blake3 sort scope limits hne hscope hstrict' hmem', if_pos hexceeds]

def bareInput (scope nativeDigest : Hash) (nativeByteLength : Nat) : WorldArtifactLeafInputV1 where
  scope
  kind := .schema
  nativeDigest
  nativeByteLength
  owner := 1
  dataClass := .publicRecord
  optionality := .required
  transition := .preserveExact
  sourceLeaseHash := 1
  keyDependencies := []
  childNodeHashes := []

theorem bareInput_check {scope nativeDigest : Hash} (hscope : scope ≠ 0) (hdigest : nativeDigest ≠ 0)
    (nativeByteLength : Nat) : (bareInput scope nativeDigest nativeByteLength).check = .ok () := by
  rw [WorldArtifactLeafInputV1.check]
  simpa [bareInput] using And.intro hscope hdigest

theorem hash_one_ne_zero : (1 : Hash) ≠ 0 := by decide

theorem hash_two_ne_zero : (2 : Hash) ≠ 0 := by decide

def firstLeaf (bytes : Nat) : WorldArtifactLeafV1 := ⟨bareInput 1 1 bytes, bareInput_check hash_one_ne_zero hash_one_ne_zero bytes⟩

def secondLeaf (bytes : Nat) : WorldArtifactLeafV1 := ⟨bareInput 1 2 bytes, bareInput_check hash_one_ne_zero hash_two_ne_zero bytes⟩

/-- The first leaf, registered under another scope. -/
def strayLeaf : WorldArtifactLeafV1 := ⟨bareInput 2 1 0, bareInput_check hash_two_ne_zero hash_one_ne_zero 0⟩

/-- A list in another order and with a repetition packs to the same result. -/
theorem pack_repeated_leaf :
    (∀ leaf, leaf ∈ [firstLeaf 5, secondLeaf 7] ↔ leaf ∈ [secondLeaf 7, firstLeaf 5, secondLeaf 7]) ∧
      pack (fun _ => 1) (Ascending.insertionSort leafOrder) 1 [firstLeaf 5, secondLeaf 7] ⟨3, 12, 2⟩ =
        pack (fun _ => 1) (Ascending.insertionSort leafOrder) 1 [secondLeaf 7, firstLeaf 5, secondLeaf 7] ⟨3, 12, 2⟩ := by
  have hsame : ∀ leaf, leaf ∈ [firstLeaf 5, secondLeaf 7] ↔ leaf ∈ [secondLeaf 7, firstLeaf 5, secondLeaf 7] := by
    intro leaf
    simp only [mem_cons, not_mem_nil, or_false]
    tauto
  exact ⟨hsame, (pack_depends_on_leaf_set (fun _ => 1) (insertionSort leafOrder)
    (insertionSort leafOrder) 1 ⟨3, 12, 2⟩ hsame).1⟩

/-- Two conflicting registrations fail as a wrong scope when one is a stray leaf, and a native byte sum past
`u64::MAX` is within the largest limit. -/
theorem conflict_hidden_and_sum_saturated :
    (Conflicting [firstLeaf 0, strayLeaf] ∧
      pack (fun _ => 1) (Ascending.insertionSort leafOrder) 1 [firstLeaf 0, strayLeaf] ⟨9, 9, 9⟩ = .error .wrongScope) ∧
      ¬ Conflicting [firstLeaf u64Max, secondLeaf u64Max] ∧
      u64Max < ([firstLeaf u64Max, secondLeaf u64Max].map (·.input.nativeByteLength)).sum ∧
      pack (fun _ => 1) (Ascending.insertionSort leafOrder) 1 [firstLeaf u64Max, secondLeaf u64Max] ⟨9, u64Max, 9⟩ ≠
        .error .limitExceeded := by
  have hstrict : Strict leafOrder [firstLeaf u64Max, secondLeaf u64Max] := by
    unfold Strict
    decide +kernel
  refine ⟨⟨⟨firstLeaf 0, by decide +kernel, strayLeaf, by decide +kernel, by decide +kernel, rfl⟩, by decide +kernel⟩,
    not_conflicting_of_strict hstrict fun _ => Iff.rfl, by decide +kernel, ?_⟩
  have hpack := pack_of_distinct (fun _ => 1) (insertionSort leafOrder) 1 ⟨9, u64Max, 9⟩ (by decide +kernel)
    (by decide +kernel) hstrict fun _ => Iff.rfl
  rw [hpack, if_neg (by decide +kernel)]
  simp

end WorldDependencyDirectoryV1

end Piglor.World
