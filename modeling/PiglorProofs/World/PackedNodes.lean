/-
Every node the packer makes is one the public constructors and the strict decoder accept. The proof gives
the packed tree in closed form: a level of height `h` is one node for each block of `256 ^ h` leaves, so a
branch is determined by its height and its block, its non-final children are full because blocks are, and
its keys are ordered because the leaves are.
-/
import PiglorProofs.World.Packing

namespace Piglor.World

open Chunks List
open Ascending (Strict UnstableSort)
open Cbor (Reads)

/-! ## The tree in closed form -/

theorem pow_pos_256 (height : Nat) : 0 < 256 ^ height := Nat.pow_pos (by decide)

section ClosedForm

variable (blake3 : ByteHash) (scope : Hash)

/-- The node over a block of leaf summaries: the leaf itself at height zero. -/
def node : Nat → List WorldDependencyBranchChildV1 → WorldDependencyBranchChildV1
  | 0, block => block.headI
  | height + 1, block =>
    branchChild blake3 (.packed scope (height + 1) ((chunks (256 ^ height) block).map (node height)))

/-- The branch over a block of leaf summaries, one level above `height`. -/
def nodeBranch (height : Nat) (block : List WorldDependencyBranchChildV1) : WorldDependencyBranchV1 :=
  .packed scope (height + 1) ((chunks (256 ^ height) block).map (node blake3 scope height))

variable {blake3 scope}

theorem packLevel_nodes (height : Nat) (level : List WorldDependencyBranchChildV1) :
    packLevel scope (height + 1) ((chunks (256 ^ height) level).map (node blake3 scope height)) =
      (chunks (256 ^ (height + 1)) level).map (nodeBranch blake3 scope height) := by
  rw [packLevel, chunks_map, maxDirectoryChildren, chunks_chunks (pow_pos_256 height) (by decide),
    ← Nat.pow_succ, map_map, map_map]
  rfl

/-- The levels built above a level of nodes: one for each height below the top, which is a single node. -/
theorem buildAbove_nodes (fuel height : Nat) {level : List WorldDependencyBranchChildV1} (hne : level ≠ [])
    (hfuel : (chunks (256 ^ height) level).length ≤ fuel) :
    ∃ count, buildAbove blake3 scope fuel height ((chunks (256 ^ height) level).map (node blake3 scope height)) =
        ((range' height count).flatMap fun h => (chunks (256 ^ (h + 1)) level).map (nodeBranch blake3 scope h),
          [node blake3 scope (height + count) level]) ∧
      level.length ≤ 256 ^ (height + count) ∧ ∀ h, h < height + count → height ≤ h → 256 ^ h < level.length := by
  induction fuel generalizing height with
  | zero =>
    have hpos := length_pos_of_ne_nil (pow_pos_256 height) hne
    omega
  | succ fuel ih =>
    have hwidth := length_chunks (256 ^ height) level
    have hpow := pow_pos_256 height
    rw [buildAbove, length_map]
    split_ifs with hmany
    · -- a level of several nodes is wider than the next one
      have hmore : 256 ^ height < level.length := by
        by_contra hle
        have : level.length + (256 ^ height - 1) < 2 * 256 ^ height := by omega
        rw [← Nat.div_lt_iff_lt_mul hpow] at this
        omega
      have hnext : (chunks (256 ^ (height + 1)) level).length ≤ fuel := by
        have hlevel := length_packLevel scope (height + 1)
          ((chunks (256 ^ height) level).map (node blake3 scope height))
        rw [packLevel_nodes, length_map, length_map] at hlevel
        omega
      obtain ⟨count, hbuild, htop, hbelow⟩ := ih (height + 1) hnext
      refine ⟨count + 1, ?_, ?_, fun h hlt hge => ?_⟩
      · rw [packLevel_nodes]
        dsimp only
        rw [map_map]
        have hchildren : (chunks (256 ^ (height + 1)) level).map (branchChild blake3 ∘ nodeBranch blake3 scope height) =
            (chunks (256 ^ (height + 1)) level).map (node blake3 scope (height + 1)) := rfl
        rw [hchildren, hbuild, range'_succ, flatMap_cons, Nat.add_right_comm height 1 count]
        rfl
      · rwa [← Nat.add_assoc, Nat.add_right_comm]
      · rcases Nat.eq_or_lt_of_le hge with rfl | hgt
        · exact hmore
        · exact hbelow h (by omega) hgt
    · -- a level of one node is the top
      have hle : level.length ≤ 256 ^ height := by
        by_contra hgt
        have : 2 * 256 ^ height ≤ level.length + (256 ^ height - 1) := by omega
        rw [← Nat.le_div_iff_mul_le hpow] at this
        omega
      refine ⟨0, ?_, hle, fun h hlt hge => by omega⟩
      rw [chunks_of_length_le hpow hne hle]
      rfl

end ClosedForm

/-! ## Blocks of leaves -/

/-- A block of leaf summaries: each for one key with a digest, in the order of the keys. -/
structure LeafBlock (block : List WorldDependencyBranchChildV1) : Prop where
  ne_nil : block ≠ []
  single : ∀ child ∈ block, child.leafCount = 1 ∧ child.lastKey = child.firstKey
  digest : ∀ child ∈ block, child.firstKey.nativeDigest ≠ 0
  ascending : block.Pairwise fun a b => a.firstKey.position < b.firstKey.position

variable {block : List WorldDependencyBranchChildV1}

namespace LeafBlock

theorem chunk {size : Nat} (h : LeafBlock block) (hsize : 0 < size) {part : List WorldDependencyBranchChildV1}
    (hpart : part ∈ chunks size block) : LeafBlock part where
  ne_nil := ne_nil_of_mem hsize hpart
  single child hchild := h.single child ((sublist_of_mem hpart).mem hchild)
  digest child hchild := h.digest child ((sublist_of_mem hpart).mem hchild)
  ascending := h.ascending.sublist (sublist_of_mem hpart)

theorem getLastI_mem (h : LeafBlock block) : block.getLastI ∈ block := by
  rw [getLastI_eq_getLast h.ne_nil]
  exact getLast_mem h.ne_nil

/-- A block of several keys spans at least as many places. -/
theorem position_le (h : LeafBlock block) :
    block.headI.firstKey.position + (block.length - 1) ≤ block.getLastI.firstKey.position := by
  obtain ⟨hne, -, -, hascending⟩ := h
  induction block using reverseRecOn with
  | nil => exact absurd rfl hne
  | append_singleton front last ih =>
    rw [getLastI_append front (cons_ne_nil last [])]
    rcases eq_or_ne front [] with rfl | hfront
    · show last.firstKey.position + 0 ≤ last.firstKey.position
      rw [Nat.add_zero]
    · obtain ⟨hordered, -, hbefore⟩ := pairwise_append.mp hascending
      have hlast : front.getLastI ∈ front := by
        rw [getLastI_eq_getLast hfront]
        exact getLast_mem hfront
      have hlt := hbefore _ hlast last mem_cons_self
      have hle := ih hfront hordered
      have hhead : (front ++ [last]).headI = front.headI := by
        cases front with
        | nil => exact absurd rfl hfront
        | cons first front => rfl
      rw [hhead, length_append, length_singleton]
      show _ ≤ last.firstKey.position
      omega

end LeafBlock

variable {blake3 : ByteHash} {scope : Hash} {height : Nat}

theorem node_firstKey (hne : block ≠ []) :
    (node blake3 scope height block).firstKey = block.headI.firstKey := by
  induction height generalizing block with
  | zero => rfl
  | succ height ih =>
    have hpow := pow_pos_256 height
    have hchunks : chunks (256 ^ height) block ≠ [] := ne_nil_of_length_pos (length_pos_of_ne_nil hpow hne)
    show ((chunks (256 ^ height) block).map (node blake3 scope height)).headI.firstKey = _
    rw [headI_map _ hchunks, ih (ne_nil_of_mem hpow (headI_mem hchunks)),
      headI_headI_chunks hpow hne]

theorem node_lastKey (h : LeafBlock block) (hlength : block.length ≤ 256 ^ height) :
    (node blake3 scope height block).lastKey = block.getLastI.firstKey := by
  induction height generalizing block with
  | zero =>
    obtain ⟨leaf, rfl⟩ : ∃ leaf, block = [leaf] := by
      have hpos := length_pos_iff.mpr h.ne_nil
      exact length_eq_one_iff.mp (by omega)
    exact (h.single leaf mem_cons_self).2
  | succ height ih =>
    have hpow := pow_pos_256 height
    have hchunks : chunks (256 ^ height) block ≠ [] :=
      ne_nil_of_length_pos (length_pos_of_ne_nil hpow h.ne_nil)
    have hlast : (chunks (256 ^ height) block).getLastI ∈ chunks (256 ^ height) block := by
      rw [getLastI_eq_getLast hchunks]
      exact getLast_mem hchunks
    show ((chunks (256 ^ height) block).map (node blake3 scope height)).getLastI.lastKey = _
    rw [getLastI_map _ hchunks, ih (h.chunk hpow hlast) (length_le_of_mem hlast),
      getLastI_getLastI_chunks hpow h.ne_nil]

theorem node_leafCount (h : LeafBlock block) (hlength : block.length ≤ 256 ^ height) :
    (node blake3 scope height block).leafCount = block.length := by
  induction height generalizing block with
  | zero =>
    have hpos := length_pos_iff.mpr h.ne_nil
    rw [show block.length = 1 by omega]
    exact (h.single _ (headI_mem h.ne_nil)).1
  | succ height ih =>
    have hpow := pow_pos_256 height
    show (((chunks (256 ^ height) block).map (node blake3 scope height)).map (·.leafCount)).sum = _
    have hcounts : ((chunks (256 ^ height) block).map (node blake3 scope height)).map (·.leafCount) =
        (chunks (256 ^ height) block).map length := by
      rw [map_map]
      exact map_congr_left fun part hpart => ih (h.chunk hpow hpart) (length_le_of_mem hpart)
    rw [hcounts, ← length_flatten, flatten_chunks hpow]

/-! ## The public constructors -/

/-- The summary of a block passes the checks of the public constructor. -/
theorem new_node (h : LeafBlock block) (hlength : block.length ≤ 256 ^ height)
    (hcount : block.length < 2 ^ 64) (hhash : (node blake3 scope height block).nodeHash ≠ 0) :
    WorldDependencyBranchChildV1.new (node blake3 scope height block).firstKey (node blake3 scope height block).lastKey
      (node blake3 scope height block).leafCount (node blake3 scope height block).nodeHash =
        .ok (node blake3 scope height block) := by
  have hpos := length_pos_iff.mpr h.ne_nil
  have hle := h.position_le
  have hfirst := h.digest _ (headI_mem h.ne_nil)
  have hlast := h.digest _ h.getLastI_mem
  have hroom : rangeHasRoom block.headI.firstKey block.getLastI.firstKey block.length = true :=
    (rangeHasRoom_iff hfirst hcount.le).mpr hle
  have hlt := compareKeys_eq_lt hfirst hlast
  -- the ends of a block of one are equal, and those of a longer block are in order
  have horder : (block.length = 1 ∧ compareKeys block.headI.firstKey block.getLastI.firstKey = .eq) ∨
      1 < block.length ∧ compareKeys block.headI.firstKey block.getLastI.firstKey = .lt := by
    rcases Nat.eq_or_lt_of_le hpos with hone | hmany
    · obtain ⟨leaf, rfl⟩ := length_eq_one_iff.mp hone.symm
      exact .inl ⟨rfl, compareKeys_eq_eq.mpr rfl⟩
    · exact .inr ⟨hmany, hlt.mpr (by omega)⟩
  unfold WorldDependencyBranchChildV1.new
  rw [if_neg, if_neg hhash]
  rw [node_firstKey h.ne_nil, node_lastKey h hlength,
    node_leafCount h hlength, hroom]
  rcases horder with ⟨hone, heq⟩ | ⟨hmany, hlt⟩
  · simp [heq, hone]
  · have hnot : ¬ block.length < 2 := by omega
    simp [hlt, hnot, h.ne_nil]

theorem subtreeCapacity_eq (h : height < 8) : subtreeCapacity height = some (256 ^ height) := by
  rw [subtreeCapacity, if_pos (by omega), Nat.mul_comm, Nat.pow_mul]

theorem foldlM_checkedAdd (children : List WorldDependencyBranchChildV1) (total : Nat)
    (h : total + (children.map (·.leafCount)).sum ≤ u64Max) :
    children.foldlM (fun total child => checkedAdd total child.leafCount) total =
      some (total + (children.map (·.leafCount)).sum) := by
  induction children generalizing total with
  | nil => rfl
  | cons child children ih =>
    rw [map_cons, sum_cons, ← Nat.add_assoc] at h ⊢
    rw [foldlM_cons, checkedAdd, if_pos (by omega)]
    exact ih _ h

/-- The branch over a block passes the checks of the public constructor. -/
theorem new_nodeBranch (hheight : height < 8) (hscope : scope ≠ 0) (h : LeafBlock block)
    (hlength : block.length ≤ 256 ^ (height + 1)) (hcount : block.length < 2 ^ 64) :
    WorldDependencyBranchV1.new ⟨scope, height + 1, (nodeBranch blake3 scope height block).children⟩ =
      .ok (nodeBranch blake3 scope height block) := by
  have hpow := pow_pos_256 height
  have hcapacity : subtreeCapacity (height + 1 - 1) = some (256 ^ height) := subtreeCapacity_eq hheight
  have hparts : ∀ part ∈ chunks (256 ^ height) block, LeafBlock part ∧ part.length ≤ 256 ^ height :=
    fun part hpart => ⟨h.chunk hpow hpart, length_le_of_mem hpart⟩
  have hne : (nodeBranch blake3 scope height block).children ≠ [] :=
    mt map_eq_nil_iff.mp (ne_nil_of_length_pos (length_pos_of_ne_nil hpow h.ne_nil))
  have hfanout : (nodeBranch blake3 scope height block).children.length ≤ maxDirectoryChildren := by
    show ((chunks (256 ^ height) block).map _).length ≤ 256
    rw [length_map]
    exact length_chunks_le hpow hlength
  have hordered : (nodeBranch blake3 scope height block).children.IsChain
      fun a b => compareKeys a.lastKey b.firstKey = .lt := by
    refine Pairwise.isChain (pairwise_map.mpr ?_)
    have hflat : (chunks (256 ^ height) block).flatten.Pairwise
        fun a b => a.firstKey.position < b.firstKey.position := by
      rw [flatten_chunks hpow]
      exact h.ascending
    refine (pairwise_flatten.mp hflat).2.imp_of_mem fun {a b} ha hb hbefore => ?_
    obtain ⟨hleft, hleftLength⟩ := hparts a ha
    obtain ⟨hright, hrightLength⟩ := hparts b hb
    rw [node_lastKey hleft hleftLength, node_firstKey hright.ne_nil,
      compareKeys_eq_lt (hleft.digest _ hleft.getLastI_mem) (hright.digest _ (headI_mem hright.ne_nil))]
    exact hbefore _ hleft.getLastI_mem _ (headI_mem hright.ne_nil)
  have hfits : ((nodeBranch blake3 scope height block).children.zipIdx.any fun indexed => misfits (some (256 ^ height))
      (nodeBranch blake3 scope height block).children.length indexed.1 indexed.2) = false := by
    rw [any_eq_false]
    rintro ⟨child, index⟩ hchild
    have hget := mk_mem_zipIdx_iff_getElem?.mp hchild
    have hget' : ((chunks (256 ^ height) block).map (node blake3 scope height))[index]? = some child := hget
    rw [getElem?_map, Option.map_eq_some_iff] at hget'
    obtain ⟨part, hpart, rfl⟩ := hget'
    obtain ⟨hblock, hpartLength⟩ := hparts part (mem_of_getElem? hpart)
    have hchildren : (nodeBranch blake3 scope height block).children.length = (chunks (256 ^ height) block).length :=
      length_map _
    have hfull := length_of_not_last hpow hpart
    simp only [misfits, node_leafCount hblock hpartLength, hchildren, Bool.or_eq_true,
      Bool.and_eq_true, decide_eq_true_eq, bne_iff_ne, not_or, not_and, not_not]
    exact ⟨Nat.not_lt.mpr hpartLength, hfull⟩
  have hsum : (nodeBranch blake3 scope height block).children.foldlM
      (fun total child => checkedAdd total child.leafCount) 0 = some (nodeBranch blake3 scope height block).leafCount := by
    have hbound : 0 + ((nodeBranch blake3 scope height block).children.map (·.leafCount)).sum ≤ u64Max := by
      rw [Nat.zero_add]
      show (node blake3 scope (height + 1) block).leafCount ≤ u64Max
      rw [node_leafCount h hlength, u64Max]
      omega
    rw [foldlM_checkedAdd _ 0 hbound, Nat.zero_add]
    rfl
  have hmax : ¬ (height + 1 = 0 ∨ maxDirectoryHeight < height + 1) := by
    rw [maxDirectoryHeight]
    omega
  rw [WorldDependencyBranchV1.new, if_neg hscope, if_neg hmax, if_neg (not_or_intro hne (Nat.not_lt.mpr hfanout)),
    if_neg (not_not_intro hordered), hcapacity, hfits, if_neg Bool.false_ne_true, hsum]
  rfl

/-! ## The directory -/

theorem position_lt_of_leafOrder {a b : WorldArtifactLeafV1} (blake3 : ByteHash) (h : leafOrder a < leafOrder b) :
    (leafChild blake3 a).firstKey.position < (leafChild blake3 b).firstKey.position := by
  rw [← compareKeys_eq_lt a.nativeDigest_ne_zero b.nativeDigest_ne_zero, compareKeys, Ordering.then_eq_lt,
    Nat.compare_eq_lt, Nat.compare_eq_eq, Nat.compare_eq_lt]
  exact Prod.Lex.lt_iff.mp h

variable {leaves : List WorldArtifactLeafV1}

theorem leafBlock_of_strict (blake3 : ByteHash) (hne : leaves ≠ [])
    (hstrict : Strict leafOrder leaves) : LeafBlock (leaves.map (leafChild blake3)) where
  ne_nil := mt map_eq_nil_iff.mp hne
  single child hchild := by
    obtain ⟨leaf, -, rfl⟩ := mem_map.mp hchild
    exact ⟨rfl, rfl⟩
  digest child hchild := by
    obtain ⟨leaf, -, rfl⟩ := mem_map.mp hchild
    exact leaf.nativeDigest_ne_zero
  ascending := pairwise_map.mpr (hstrict.imp (position_lt_of_leafOrder blake3))

variable {block : List WorldArtifactLeafV1}

section Directory

variable (blake3 : ByteHash) (scope : Hash)

/-- The branches of one height, by the blocks of leaves they are over. -/
def nodeLevel (leaves : List WorldArtifactLeafV1) (height : Nat) : List WorldDependencyBranchV1 :=
  (chunks (256 ^ (height + 1)) (leaves.map (leafChild blake3))).map (nodeBranch blake3 scope height)

variable {blake3 scope}

theorem mem_nodeLevel {branch : WorldDependencyBranchV1} :
    branch ∈ nodeLevel blake3 scope leaves height ↔ ∃ block ∈ chunks (256 ^ (height + 1)) leaves,
      nodeBranch blake3 scope height (block.map (leafChild blake3)) = branch := by
  simp [nodeLevel, chunks_map]

/-- The whole tree: its levels below a height that is high enough for all leaves. -/
theorem build_nodes (hne : leaves ≠ []) :
    ∃ top, (build blake3 scope leaves).branches = (range top).flatMap (nodeLevel blake3 scope leaves) ∧
      (build blake3 scope leaves).rootHash = (node blake3 scope top (leaves.map (leafChild blake3))).nodeHash ∧
      leaves.length ≤ 256 ^ top ∧ ∀ height < top, 256 ^ height < leaves.length := by
  have hchildren : leaves.map (leafChild blake3) ≠ [] := mt map_eq_nil_iff.mp hne
  have hwidth : (chunks (256 ^ 0) (leaves.map (leafChild blake3))).length ≤ leaves.length := by
    rw [length_chunks, length_map]
    simp
  have hone : (chunks (256 ^ 0) (leaves.map (leafChild blake3))).map (node blake3 scope 0) =
      leaves.map (leafChild blake3) := map_headI_chunks_one _
  obtain ⟨top, hbuild, htop, hbelow⟩ := buildAbove_nodes leaves.length 0 hchildren hwidth
  rw [hone, Nat.zero_add] at hbuild
  rw [length_map, Nat.zero_add] at htop
  refine ⟨top, ?_, ?_, htop, fun height hlt => ?_⟩
  · rw [build, hbuild, range_eq_range']
    rfl
  · rw [build, hbuild]
    rfl
  · rw [← length_map (f := leafChild blake3)]
    exact hbelow height (by omega) (Nat.zero_le _)

variable (blake3)

/-- The leaves under a branch in order: those it names itself, or those under the branches below it that it
names by their content addresses. -/
inductive Covers (branches : List WorldDependencyBranchV1) : WorldDependencyBranchV1 → List WorldArtifactLeafV1 → Prop where
  | leaves {branch : WorldDependencyBranchV1} {block : List WorldArtifactLeafV1} (hmem : branch ∈ branches)
      (hheight : branch.height = 1) (hchildren : branch.children.map (·.nodeHash) = block.map (·.digest blake3)) :
      Covers branches branch block
  | above {branch : WorldDependencyBranchV1} {below : List (WorldDependencyBranchV1 × List WorldArtifactLeafV1)}
      (hmem : branch ∈ branches) (hheight : ∀ p ∈ below, p.1.height + 1 = branch.height)
      (hbelow : ∀ p ∈ below, Covers branches p.1 p.2)
      (hchildren : branch.children.map (·.nodeHash) = below.map (·.1.digest blake3)) :
      Covers branches branch (below.flatMap (·.2))

variable {blake3}

theorem covers_nodeBranch {branches : List WorldDependencyBranchV1}
    (hlevels : ∀ h ≤ height, ∀ branch ∈ nodeLevel blake3 scope leaves h, branch ∈ branches)
    (hblock : block ∈ chunks (256 ^ (height + 1)) leaves) :
    Covers blake3 branches (nodeBranch blake3 scope height (block.map (leafChild blake3))) block := by
  have hmem := hlevels height (Nat.le_refl _) _ (mem_nodeLevel.mpr ⟨block, hblock, rfl⟩)
  induction height generalizing block with
  | zero =>
    refine .leaves hmem rfl ?_
    have hchildren : (nodeBranch blake3 scope 0 (block.map (leafChild blake3))).children = block.map (leafChild blake3) :=
      map_headI_chunks_one _
    rw [hchildren, map_map]
    rfl
  | succ height ih =>
    -- the parts of the block are blocks of the level below
    have hparts : ∀ part ∈ chunks (256 ^ (height + 1)) block, part ∈ chunks (256 ^ (height + 1)) leaves := by
      intro part hpart
      rw [Nat.pow_succ] at hblock
      exact mem_chunks_of_mem (pow_pos_256 _) (by decide) hblock hpart
    have hlevels' : ∀ h ≤ height, ∀ branch ∈ nodeLevel blake3 scope leaves h, branch ∈ branches :=
      fun h hle => hlevels h (by omega)
    let below := (chunks (256 ^ (height + 1)) block).map fun part =>
      (nodeBranch blake3 scope height (part.map (leafChild blake3)), part)
    have hheight : ∀ p ∈ below, p.1.height + 1 = height + 1 + 1 := by
      intro p hp
      obtain ⟨part, -, rfl⟩ := mem_map.mp hp
      rfl
    have hbelow : ∀ p ∈ below, Covers blake3 branches p.1 p.2 := by
      intro p hp
      obtain ⟨part, hpart, rfl⟩ := mem_map.mp hp
      exact ih hlevels' (hparts part hpart)
        (hlevels' height (Nat.le_refl _) _ (mem_nodeLevel.mpr ⟨part, hparts part hpart, rfl⟩))
    have hchildren : (nodeBranch blake3 scope (height + 1) (block.map (leafChild blake3))).children.map (·.nodeHash) =
        below.map (·.1.digest blake3) := by
      show ((chunks (256 ^ (height + 1)) (block.map (leafChild blake3))).map (node blake3 scope (height + 1))).map _ = _
      rw [chunks_map, map_map, map_map, map_map]
      rfl
    have hleaves : below.flatMap (·.2) = block := by
      rw [flatMap_map, flatMap_id', flatten_chunks (pow_pos_256 _)]
    have hcovers := Covers.above hmem hheight hbelow hchildren
    rwa [hleaves] at hcovers

/-- The branches of a level name the branches of the level below, all of them in order. -/
theorem nodeLevel_names (leaves : List WorldArtifactLeafV1) (height : Nat) :
    (nodeLevel blake3 scope leaves (height + 1)).flatMap (fun branch => branch.children.map (·.nodeHash)) =
      (nodeLevel blake3 scope leaves height).map (·.digest blake3) := by
  have hblocks := congrArg flatten (chunks_chunks (pow_pos_256 (height + 1)) (by decide : 0 < 256)
    (leaves.map (leafChild blake3)))
  rw [flatten_chunks (by decide), ← Nat.pow_succ] at hblocks
  calc (nodeLevel blake3 scope leaves (height + 1)).flatMap (fun branch => branch.children.map (·.nodeHash))
      = ((chunks (256 ^ (height + 1 + 1)) (leaves.map (leafChild blake3))).map (chunks (256 ^ (height + 1)))).flatten.map
          fun block => (nodeBranch blake3 scope height block).digest blake3 := by
        rw [nodeLevel, flatMap_map, map_flatten, map_map, ← flatMap_def]
        refine flatMap_congr fun block _ => ?_
        show ((chunks _ block).map (node blake3 scope (height + 1))).map _ = _
        rw [map_map]
        rfl
    _ = _ := by
        rw [← hblocks, nodeLevel, map_map]
        rfl

end Directory

def WorldDependencyDirectoryV1.level (directory : WorldDependencyDirectoryV1) (height : Nat) :
    List WorldDependencyBranchV1 :=
  directory.branches.filter fun branch => branch.height == height

variable {top : Nat}

theorem filter_flatMap_nodeLevel (h : height < top) :
    ((range top).flatMap (nodeLevel blake3 scope leaves)).filter (fun branch => branch.height == height + 1) =
      nodeLevel blake3 scope leaves height := by
  have hheight : ∀ k, ∀ branch ∈ nodeLevel blake3 scope leaves k, branch.height = k + 1 := by
    intro k branch hbranch
    obtain ⟨block, -, rfl⟩ := mem_nodeLevel.mp hbranch
    rfl
  have hsame : (nodeLevel blake3 scope leaves height).filter (fun branch => branch.height == height + 1) =
      nodeLevel blake3 scope leaves height :=
    filter_eq_self.mpr fun branch hbranch => beq_iff_eq.mpr (hheight height branch hbranch)
  have hother : ∀ k ≠ height, (nodeLevel blake3 scope leaves k).filter (fun branch => branch.height == height + 1) = [] := by
    intro k hk
    refine filter_eq_nil_iff.mpr fun branch hbranch heq => hk ?_
    have := hheight k branch hbranch
    have := beq_iff_eq.mp heq
    omega
  rw [filter_flatMap]
  -- the levels before and after the selected one contribute nothing
  obtain ⟨after, rfl⟩ : ∃ after, top = height + (1 + after) := ⟨top - height - 1, by omega⟩
  rw [range_add, flatMap_append, flatMap_map, range_add, flatMap_append, flatMap_map]
  have hbefore : (range height).flatMap
      (fun k => (nodeLevel blake3 scope leaves k).filter fun branch => branch.height == height + 1) = [] := by
    refine flatMap_eq_nil_iff.mpr fun k hk => hother k ?_
    have := mem_range.mp hk
    omega
  have hafter : (range after).flatMap (fun k => (nodeLevel blake3 scope leaves (height + (1 + k))).filter
      fun branch => branch.height == height + 1) = [] :=
    flatMap_eq_nil_iff.mpr fun k _ => hother _ (by omega)
  rw [hbefore, hafter, append_nil, nil_append]
  show (nodeLevel blake3 scope leaves (height + 0)).filter _ ++ [] = _
  rw [append_nil]
  exact hsame

namespace WorldDependencyDirectoryV1

theorem pack_eq_ok {sort : UnstableSort leafOrder}
    {limits : WorldClosureReadLimitsV1} {directory : WorldDependencyDirectoryV1}
    (h : pack blake3 sort scope leaves limits = .ok directory) :
    ∃ distinct, distinct ≠ [] ∧ Strict leafOrder distinct ∧ directory = build blake3 scope distinct := by
  rcases pack_cases scope leaves with rfl | hwrong | ⟨⟨hne, hscope⟩, hconflict | ⟨distinct, hstrict, hmem⟩⟩
  · rw [pack_nil] at h
    cases h
  · rw [pack_of_wrong_scope blake3 sort scope limits hwrong] at h
    cases h
  · rw [pack_of_conflicting blake3 sort scope limits hscope hconflict] at h
    cases h
  · obtain ⟨leaf, hleaf⟩ := exists_mem_of_ne_nil leaves hne
    refine ⟨distinct, ne_nil_of_mem ((hmem leaf).mpr hleaf), hstrict, ?_⟩
    rw [pack_of_distinct blake3 sort scope limits hne hscope hstrict hmem] at h
    split_ifs at h
    exact (Except.ok.inj h).symm

/-- Every branch of the tree passes the public checks. -/
theorem nodeBranch_accepted (hscope : scope ≠ 0) (hstrict : Strict leafOrder leaves) (hcount : leaves.length < 2 ^ 64)
    (hleaf : ∀ leaf ∈ leaves, leaf.digest blake3 ≠ 0)
    (hbranch : ∀ height < top, ∀ branch ∈ nodeLevel blake3 scope leaves height, branch.digest blake3 ≠ 0)
    (hbelow : ∀ height < top, 256 ^ height < leaves.length) (hheight : height < top)
    (hblock : block ∈ chunks (256 ^ (height + 1)) leaves) :
    (nodeBranch blake3 scope height (block.map (leafChild blake3))).Accepted := by
  have hpow := pow_pos_256 height
  have height_lt : height < 8 := by
    have hlt : 256 ^ height < 256 ^ 8 := (hbelow height hheight).trans hcount
    exact (Nat.pow_lt_pow_iff_right (by decide)).mp hlt
  have hsub := sublist_of_mem hblock
  have hleafBlock := leafBlock_of_strict blake3 (ne_nil_of_mem (pow_pos_256 _) hblock) (hstrict.sublist hsub)
  have hlength : (block.map (leafChild blake3)).length ≤ 256 ^ (height + 1) := by
    rw [length_map]
    exact length_le_of_mem hblock
  have hblockCount : (block.map (leafChild blake3)).length < 2 ^ 64 := by
    rw [length_map]
    exact hsub.length_le.trans_lt hcount
  have hchunks := length_pos_of_ne_nil hpow hleafBlock.ne_nil
  -- each child is the node over a part of the block, with the address of a leaf or of a branch below
  have hpart : ∀ part ∈ chunks (256 ^ height) block,
      (node blake3 scope height (part.map (leafChild blake3))).nodeHash ≠ 0 := by
    intro part hpart
    cases height with
    | zero =>
      obtain ⟨leaf, rest, rfl⟩ := exists_cons_of_ne_nil (ne_nil_of_mem hpow hpart)
      exact hleaf leaf (hsub.mem ((sublist_of_mem hpart).mem mem_cons_self))
    | succ height =>
      rw [Nat.pow_succ] at hblock
      have hmem := mem_chunks_of_mem (pow_pos_256 _) (by decide) hblock hpart
      exact hbranch height (by omega) _ (mem_nodeLevel.mpr ⟨part, hmem, rfl⟩)
  have hchildren : ∀ child ∈ (nodeBranch blake3 scope height (block.map (leafChild blake3))).children, child.Accepted := by
    intro child hchild
    obtain ⟨part, hmem, rfl⟩ := mem_map.mp hchild
    have hpartBlock := hleafBlock.chunk hpow hmem
    have hpartLength := length_le_of_mem hmem
    have hpartCount : part.length < 2 ^ 64 := (sublist_of_mem hmem).length_le.trans_lt hblockCount
    have hhash : (node blake3 scope height part).nodeHash ≠ 0 := by
      rw [chunks_map] at hmem
      obtain ⟨leafPart, hleafPart, rfl⟩ := mem_map.mp hmem
      exact hpart leafPart hleafPart
    constructor
    · rw [node_firstKey hpartBlock.ne_nil]
      exact hpartBlock.digest _ (headI_mem hpartBlock.ne_nil)
    · rw [node_lastKey hpartBlock hpartLength]
      exact hpartBlock.digest _ hpartBlock.getLastI_mem
    · rwa [node_leafCount hpartBlock hpartLength]
    · exact new_node hpartBlock hpartLength hpartCount hhash
  refine ⟨?_, ?_, ?_, ?_, ?_, ?_, hchildren, new_nodeBranch height_lt hscope hleafBlock hlength hblockCount⟩
  · show height + 1 < 256
    omega
  · show (node blake3 scope (height + 1) _).firstKey.nativeDigest ≠ 0
    rw [node_firstKey hleafBlock.ne_nil]
    exact hleafBlock.digest _ (headI_mem hleafBlock.ne_nil)
  · show (node blake3 scope (height + 1) _).lastKey.nativeDigest ≠ 0
    rw [node_lastKey hleafBlock hlength]
    exact hleafBlock.digest _ hleafBlock.getLastI_mem
  · show (node blake3 scope (height + 1) _).leafCount < 2 ^ 64
    rwa [node_leafCount hleafBlock hlength]
  · exact mt map_eq_nil_iff.mp (ne_nil_of_length_pos hchunks)
  · show ((chunks _ _).map _).length ≤ 256
    rw [length_map]
    exact length_chunks_le hpow hlength

/-- The top of a tree: a single leaf is its own root, and otherwise the last branch covers all leaves. -/
theorem build_root (hne : leaves ≠ []) (hstrict : Strict leafOrder leaves)
    (hbranches : (build blake3 scope leaves).branches = (range top).flatMap (nodeLevel blake3 scope leaves))
    (hroot : (build blake3 scope leaves).rootHash = (node blake3 scope top (leaves.map (leafChild blake3))).nodeHash)
    (htop : leaves.length ≤ 256 ^ top) :
    (top = 0 ∧ (build blake3 scope leaves).branches = [] ∧
        ∃ leaf, leaves = [leaf] ∧ (build blake3 scope leaves).rootHash = leaf.digest blake3) ∨
      ∃ root, (build blake3 scope leaves).branches.getLast? = some root ∧ root.height = top ∧
        (build blake3 scope leaves).rootHash = root.digest blake3 ∧
        Covers blake3 (build blake3 scope leaves).branches root leaves ∧ root.leafCount = leaves.length := by
  cases top with
  | zero =>
    have hpos := length_pos_iff.mpr hne
    obtain ⟨leaf, rfl⟩ : ∃ leaf, leaves = [leaf] := length_eq_one_iff.mp (by omega)
    exact .inl ⟨rfl, hbranches, leaf, rfl, hroot⟩
  | succ top =>
    have hsingle := chunks_of_length_le (pow_pos_256 (top + 1)) hne htop
    have hlevel : nodeLevel blake3 scope leaves top = [nodeBranch blake3 scope top (leaves.map (leafChild blake3))] := by
      rw [nodeLevel, chunks_map, hsingle]
      rfl
    have hblock := leafBlock_of_strict blake3 hne hstrict
    refine .inr ⟨nodeBranch blake3 scope top (leaves.map (leafChild blake3)), ?_, rfl, hroot, ?_, ?_⟩
    · rw [hbranches, range_succ, flatMap_append, flatMap_singleton, hlevel, getLast?_concat]
    · refine covers_nodeBranch (fun h hle branch hbranch => ?_) (hsingle ▸ mem_singleton.mpr rfl)
      rw [hbranches]
      exact mem_flatMap.mpr ⟨h, mem_range.mpr (by omega), hbranch⟩
    · show (node blake3 scope (top + 1) _).leafCount = _
      rw [node_leafCount hblock (by rwa [length_map]), length_map]

/-- Every node of a packed directory is one the public constructors and the decoder accept; each branch names
the nodes below it in order, and the leaves under the root are the packed leaves. -/
theorem packed_nodes_accepted {blake3 : ByteHash} {sort : UnstableSort leafOrder} {scope : Hash}
    {leaves : List WorldArtifactLeafV1} {limits : WorldClosureReadLimitsV1} {directory : WorldDependencyDirectoryV1}
    (hpack : pack blake3 sort scope leaves limits = .ok directory) (hscope : scope ≠ 0)
    (hleaf : ∀ leaf ∈ directory.leaves, leaf.digest blake3 ≠ 0)
    (hbranch : ∀ branch ∈ directory.branches, branch.digest blake3 ≠ 0) (hcount : directory.leaves.length < 2 ^ 64) :
    (∀ branch ∈ directory.branches, WorldDependencyBranchV1.decode branch.encode = .ok branch ∧
      WorldDependencyBranchV1.new ⟨branch.scope, branch.height, branch.children⟩ = .ok branch ∧
      ∀ child ∈ branch.children,
        WorldDependencyBranchChildV1.new child.firstKey child.lastKey child.leafCount child.nodeHash = .ok child) ∧
    (∀ branch ∈ directory.branches, ∃ block, Covers blake3 directory.branches branch block) ∧
    (∀ height, 1 ≤ height → height < directory.height →
      (directory.level (height + 1)).flatMap (fun branch => branch.children.map (·.nodeHash)) =
        (directory.level height).map (·.digest blake3)) ∧
    ((directory.branches = [] ∧ ∃ leaf, directory.leaves = [leaf] ∧ directory.rootHash = leaf.digest blake3) ∨
      ∃ root, directory.branches.getLast? = some root ∧ directory.rootHash = root.digest blake3 ∧
        Covers blake3 directory.branches root directory.leaves ∧ root.leafCount = directory.leaves.length) := by
  obtain ⟨distinct, hne, hstrict, rfl⟩ := pack_eq_ok hpack
  obtain ⟨top, hbranches, hroot, htop, hbelow⟩ := build_nodes hne
  have hlevels : ∀ height < top, ∀ branch ∈ nodeLevel blake3 scope distinct height,
      branch ∈ (build blake3 scope distinct).branches := by
    intro height hlt branch hmem
    rw [hbranches]
    exact mem_flatMap.mpr ⟨height, mem_range.mpr hlt, hmem⟩
  have hmem : ∀ branch ∈ (build blake3 scope distinct).branches, ∃ height < top,
      ∃ block ∈ chunks (256 ^ (height + 1)) distinct,
        nodeBranch blake3 scope height (block.map (leafChild blake3)) = branch := by
    intro branch h
    rw [hbranches] at h
    obtain ⟨height, hheight, hlevel⟩ := mem_flatMap.mp h
    exact ⟨height, mem_range.mp hheight, mem_nodeLevel.mp hlevel⟩
  have hdigests : ∀ height < top, ∀ branch ∈ nodeLevel blake3 scope distinct height, branch.digest blake3 ≠ 0 :=
    fun height hlt branch h => hbranch branch (hlevels height hlt branch h)
  have hends := build_root hne hstrict hbranches hroot htop
  refine ⟨fun branch h => ?_, fun branch h => ?_, fun height hpos hlt => ?_, ?_⟩
  · obtain ⟨height, hheight, block, hblock, rfl⟩ := hmem branch h
    have haccepted := nodeBranch_accepted hscope hstrict hcount hleaf hdigests hbelow hheight hblock
    exact ⟨haccepted.decode_encode, haccepted.new, fun child hchild => (haccepted.children child hchild).new⟩
  · obtain ⟨height, hheight, block, hblock, rfl⟩ := hmem branch h
    exact ⟨block, covers_nodeBranch (fun k hk => hlevels k (by omega)) hblock⟩
  · -- heights count from one, levels from zero
    have hheight : (build blake3 scope distinct).height ≤ top := by
      unfold WorldDependencyDirectoryV1.height
      rcases hends with ⟨-, hnil, -⟩ | ⟨root, hlast, hroot, -⟩
      · rw [hnil]
        exact Nat.zero_le _
      · rw [hlast]
        exact hroot.le
    obtain ⟨height, rfl⟩ : ∃ k, height = k + 1 := ⟨height - 1, by omega⟩
    rw [level, level, hbranches, filter_flatMap_nodeLevel (by omega),
      filter_flatMap_nodeLevel (by omega)]
    exact nodeLevel_names distinct height
  · rcases hends with ⟨-, hnil, hsingle⟩ | ⟨root, hlast, -, hrest⟩
    · exact .inl ⟨hnil, hsingle⟩
    · exact .inr ⟨root, hlast, hrest⟩

theorem numbered_ne_zero : ∀ n : Fin 257, BitVec.ofNat 256 (n.val + 1) ≠ 0 := by decide +kernel

/-- One leaf more than a branch holds. -/
def manyLeaves : List WorldArtifactLeafV1 := (finRange 257).map fun n : Fin 257 =>
  ⟨bareInput 1 (.ofNat 256 (n.val + 1)) 5, bareInput_check hash_one_ne_zero (numbered_ne_zero n) 5⟩

/-- Two branches under a root, which the decoder gives back. -/
theorem packed_tree_decodes :
    ∃ directory, pack (fun _ => 1) (Ascending.insertionSort leafOrder) 1 manyLeaves.reverse ⟨260, 1285, 3⟩ =
      .ok directory ∧ directory.height = 2 ∧ directory.branches.length = 3 ∧
      (∀ branch ∈ directory.branches, WorldDependencyBranchV1.decode branch.encode = .ok branch) ∧
      (directory.level 2).flatMap (fun branch => branch.children.map (·.nodeHash)) =
        (directory.level 1).map (·.digest fun _ => 1) := by
  have hstrict : Strict leafOrder manyLeaves := (Ascending.check_eq_ok () ()).mp (by decide +kernel)
  have hpack := pack_of_distinct (fun _ => 1) (Ascending.insertionSort leafOrder) 1 ⟨260, 1285, 3⟩ (by decide +kernel)
    (by decide +kernel) hstrict fun _ => mem_reverse.symm
  rw [if_neg (by decide +kernel)] at hpack
  obtain ⟨haccepted, -, hlevels, -⟩ := packed_nodes_accepted hpack hash_one_ne_zero (fun _ _ => hash_one_ne_zero)
    (fun _ _ => hash_one_ne_zero) (by decide +kernel)
  have hheight : (build (fun _ => 1) 1 manyLeaves).height = 2 := by decide +kernel
  exact ⟨_, hpack, hheight, by decide +kernel, fun branch hbranch => (haccepted branch hbranch).1,
    hlevels 1 le_rfl (by omega)⟩

end WorldDependencyDirectoryV1

end Piglor.World
