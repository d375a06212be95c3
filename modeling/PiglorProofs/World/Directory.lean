/-
WDB1 branches (`world_dependency_directory.rs`): keys, the summaries of child nodes, the public
constructors with their checks, the constructors the packer uses, the preferred encoding, its strict
decoder and the content address.
-/
import Mathlib.Data.Set.Card
import PiglorProofs.World.Artifact

namespace Piglor.World

open Cbor List

inductive WorldDependencyBranchErrorV1 where
  | invalidEncoding
  | wrongMagic
  | unsupportedVersion
  | unsupportedKind
  | fieldOutOfBounds
  | zeroContentAddress
  | invalidRange
  | nonCanonicalOrder
  | leafCountOverflow
  | nonCanonicalEncoding
deriving DecidableEq

/-! ## Keys -/

structure WorldDependencyKeyV1 where
  kind : WorldArtifactKindV1
  nativeDigest : Hash
deriving DecidableEq, Inhabited

def WorldDependencyKeyV1.new (kind : WorldArtifactKindV1) (nativeDigest : Hash) :
    Except WorldDependencyBranchErrorV1 WorldDependencyKeyV1 :=
  if nativeDigest = 0 then .error .zeroContentAddress else .ok { kind, nativeDigest }

def compareKeys (left right : WorldDependencyKeyV1) : Ordering :=
  (compare left.kind.code right.kind.code).then (compare left.nativeDigest.toNat right.nativeDigest.toNat)

/-- Add a number to a big-endian byte string from its last byte on, with what is left over. -/
def addCarry (bytes : List UInt8) (carry : Nat) : List UInt8 × Nat :=
  bytes.foldr (fun byte (rest, carry) =>
    let sum := byte.toNat + carry % 256
    (UInt8.ofNat sum :: rest, carry / 256 + if 256 ≤ sum then 1 else 0)) ([], carry)

/-- Whether `count` distinct keys fit from `first` to `last`. Byte strings of one length compare as the
numbers they spell. -/
def rangeHasRoom (first last : WorldDependencyKeyV1) (count : Nat) : Bool :=
  let (advanced, carry) := addCarry (hashBytes first.nativeDigest) (count - 1)
  let minimumKind := first.kind.code + carry % 256
  -- the zero digest is skipped on a kind boundary
  let minimumLast := if carry ≠ 0 then (addCarry advanced 1).1 else advanced
  minimumKind < last.kind.code ||
    (minimumKind == last.kind.code && Cbor.fromBigEndian minimumLast ≤ last.nativeDigest.toNat)

/-! ## Children and branches -/

structure WorldDependencyBranchChildV1 where
  firstKey : WorldDependencyKeyV1
  lastKey : WorldDependencyKeyV1
  leafCount : Nat
  nodeHash : Hash
deriving DecidableEq, Inhabited

def WorldDependencyBranchChildV1.new (firstKey lastKey : WorldDependencyKeyV1) (leafCount : Nat) (nodeHash : Hash) :
    Except WorldDependencyBranchErrorV1 WorldDependencyBranchChildV1 :=
  let order := compareKeys firstKey lastKey
  if leafCount = 0 ∨ order = .gt ∨ (order = .eq ∧ leafCount ≠ 1) ∨ (order = .lt ∧ leafCount < 2) ∨
      rangeHasRoom firstKey lastKey leafCount = false then
    .error .invalidRange
  else if nodeHash = 0 then .error .zeroContentAddress
  else .ok { firstKey, lastKey, leafCount, nodeHash }

structure WorldDependencyBranchInputV1 where
  scope : Hash
  height : Nat
  children : List WorldDependencyBranchChildV1

structure WorldDependencyBranchV1 where
  scope : Hash
  height : Nat
  firstKey : WorldDependencyKeyV1
  lastKey : WorldDependencyKeyV1
  leafCount : Nat
  children : List WorldDependencyBranchChildV1
deriving DecidableEq

def maxDirectoryBytes : Nat := 65536

/-- `MAX_WORLD_DEPENDENCY_DIRECTORY_CHILDREN_V1`. -/
def maxDirectoryChildren : Nat := 256

def maxDirectoryHeight : Nat := 31

def subtreeCapacity (height : Nat) : Option Nat := if height * 8 < 64 then some (2 ^ (height * 8)) else none

/-- A child that is too large for its level, or that is not full although another follows. -/
def misfits (capacity : Option Nat) (count : Nat) (child : WorldDependencyBranchChildV1) (index : Nat) : Bool :=
  match capacity with
  | some capacity => capacity < child.leafCount || (index + 1 < count && child.leafCount != capacity)
  | none => index + 1 < count

namespace WorldDependencyBranchV1

def new (input : WorldDependencyBranchInputV1) : Except WorldDependencyBranchErrorV1 WorldDependencyBranchV1 :=
  if input.scope = 0 then .error .zeroContentAddress
  else if input.height = 0 ∨ maxDirectoryHeight < input.height then .error .fieldOutOfBounds
  else if input.children = [] ∨ maxDirectoryChildren < input.children.length then .error .fieldOutOfBounds
  else if ¬ input.children.IsChain (fun a b => compareKeys a.lastKey b.firstKey = .lt) then .error .nonCanonicalOrder
  else if input.children.zipIdx.any fun indexed =>
      misfits (subtreeCapacity (input.height - 1)) input.children.length indexed.1 indexed.2 then .error .invalidRange
  else match input.children.foldlM (fun total child => checkedAdd total child.leafCount) 0 with
    | none => .error .leafCountOverflow
    | some leafCount => .ok
        { scope := input.scope
          height := input.height
          firstKey := input.children.headI.firstKey
          lastKey := input.children.getLastI.lastKey
          leafCount
          children := input.children }

/-- `WorldDependencyBranchV1::packed`. Its chunk is never empty, so the endpoints exist. -/
def packed (scope : Hash) (height : Nat) (children : List WorldDependencyBranchChildV1) : WorldDependencyBranchV1 where
  scope
  height
  firstKey := children.headI.firstKey
  lastKey := children.getLastI.lastKey
  leafCount := (children.map (·.leafCount)).sum
  children

end WorldDependencyBranchV1

/-! ## The encoding -/

def encodeKey (key : WorldDependencyKeyV1) : CanonicalBytes :=
  Cbor.head 4 2 ++ (Cbor.head 0 key.kind.code ++ encodeHash key.nativeDigest)

def encodeChild (child : WorldDependencyBranchChildV1) : CanonicalBytes :=
  Cbor.head 4 4 ++ (encodeKey child.firstKey ++ (encodeKey child.lastKey ++
    (Cbor.head 0 child.leafCount ++ encodeHash child.nodeHash)))

namespace WorldDependencyBranchV1

def encode (branch : WorldDependencyBranchV1) : CanonicalBytes :=
  Cbor.head 4 8 ++ (Cbor.blob 2 (Authority.textBytes "WDB1") ++ (Cbor.head 0 1 ++ (encodeHash branch.scope ++
    (Cbor.head 0 branch.height ++ (encodeKey branch.firstKey ++ (encodeKey branch.lastKey ++
    (Cbor.head 0 branch.leafCount ++ (Cbor.head 4 branch.children.length ++ branch.children.flatMap encodeChild))))))))

def digest (blake3 : ByteHash) (branch : WorldDependencyBranchV1) : Hash :=
  Authority.underDomain blake3 "pigloros.world-evidence.dependency-branch.v1" branch.encode

end WorldDependencyBranchV1

/-! ## The decoder -/

abbrev BranchReader := Reader WorldDependencyBranchErrorV1

/-- An array of an exact number of items. -/
def readArray (expected : Nat) : BranchReader Unit := do
  let actual ← Cbor.readHead .invalidEncoding 4
  Cbor.check (actual = expected) .invalidEncoding

def readMagic : BranchReader Unit := do
  let magic ← Cbor.readFixed .invalidEncoding 2 4
  Cbor.check (magic = Authority.textBytes "WDB1") .wrongMagic

def readVersion : BranchReader Unit := do
  let version ← Cbor.readHead .invalidEncoding 0
  Cbor.check (version = 1) .unsupportedVersion

/-- One byte. -/
def readCode : BranchReader Nat := do
  let value ← Cbor.readHead .invalidEncoding 0
  Cbor.ofExcept (if value < 256 then .ok value else .error .fieldOutOfBounds)

def readKey : BranchReader WorldDependencyKeyV1 := do
  readArray 2
  let code ← readCode
  let kind ← Cbor.ofExcept ((WorldArtifactKindV1.fromCode code).mapError fun _ => .unsupportedKind)
  let digest ← readHash .invalidEncoding
  Cbor.ofExcept (WorldDependencyKeyV1.new kind digest)

def readChild : BranchReader WorldDependencyBranchChildV1 := do
  readArray 4
  let firstKey ← readKey
  let lastKey ← readKey
  let leafCount ← Cbor.readHead .invalidEncoding 0
  let nodeHash ← readHash .invalidEncoding
  Cbor.ofExcept (WorldDependencyBranchChildV1.new firstKey lastKey leafCount nodeHash)

def readChildren : BranchReader (List WorldDependencyBranchChildV1) := do
  let count ← Cbor.readHead .invalidEncoding 4
  let bounded ← Cbor.ofExcept (if count < 1 ∨ maxDirectoryChildren < count then .error .fieldOutOfBounds else .ok count)
  Cbor.readMany readChild bounded

def readDirectory : BranchReader WorldDependencyBranchV1 := do
  readArray 8
  readMagic
  readVersion
  let scope ← readHash .invalidEncoding
  let height ← readCode
  let firstKey ← readKey
  let lastKey ← readKey
  let leafCount ← Cbor.readHead .invalidEncoding 0
  let children ← readChildren
  let directory ← Cbor.ofExcept (WorldDependencyBranchV1.new { scope, height, children })
  Cbor.ofExcept (if directory.firstKey = firstKey ∧ directory.lastKey = lastKey ∧ directory.leafCount = leafCount then
    .ok directory
  else .error .invalidRange)

def WorldDependencyBranchV1.decode (bytes : CanonicalBytes) :
    Except WorldDependencyBranchErrorV1 WorldDependencyBranchV1 :=
  if maxDirectoryBytes < bytes.length then .error .fieldOutOfBounds
  else do
    let (directory, rest) ← readDirectory bytes
    if rest ≠ [] then .error .invalidEncoding
    else if directory.encode = bytes then .ok directory
    else .error .nonCanonicalEncoding

/-! ## Reading what was encoded -/

open Reads

variable {count : Nat}

theorem reads_array (h : count < 2 ^ 64) : Reads (readArray count) (head 4 count) () :=
  (head _ (by decide) h).before (check _ (decide_eq_true rfl))

theorem reads_magic : Reads readMagic (blob 2 (Authority.textBytes "WDB1")) () :=
  (fixed _ (by decide) (by decide) (by decide +kernel)).before (check _ (decide_eq_true rfl))

theorem reads_version : Reads readVersion (head 0 1) () :=
  (head _ (by decide) (by decide)).before (check _ (decide_eq_true rfl))

theorem reads_code {code : Nat} (h : code < 256) : Reads readCode (head 0 code) code :=
  (head _ (by decide) (by omega)).before (ofExcept (if_pos h))

variable {key : WorldDependencyKeyV1}

theorem reads_key (h : key.nativeDigest ≠ 0) : Reads readKey (encodeKey key) key := by
  have hkind : (WorldArtifactKindV1.fromCode key.kind.code).mapError (fun _ => WorldDependencyBranchErrorV1.unsupportedKind) =
      .ok key.kind := by
    rw [WorldArtifactKindV1.fromCode_code]
    rfl
  refine (reads_array (by decide)).bind ?_
  refine (reads_code (key.kind.code_lt.trans (by decide))).bind ?_
  refine (ofExcept hkind).after ?_
  exact (reads_hash _ _).before (ofExcept (if_neg h))

/-- A child summary its constructor accepts. -/
structure WorldDependencyBranchChildV1.Accepted (child : WorldDependencyBranchChildV1) : Prop where
  first : child.firstKey.nativeDigest ≠ 0
  last : child.lastKey.nativeDigest ≠ 0
  count : child.leafCount < 2 ^ 64
  new : WorldDependencyBranchChildV1.new child.firstKey child.lastKey child.leafCount child.nodeHash = .ok child

theorem reads_child {child : WorldDependencyBranchChildV1} (h : child.Accepted) :
    Reads readChild (encodeChild child) child := by
  refine (reads_array (by decide)).bind ?_
  refine (reads_key h.first).bind ?_
  refine (reads_key h.last).bind ?_
  refine (head _ (by decide) h.count).bind ?_
  exact (reads_hash _ _).before (ofExcept h.new)

theorem reads_children {children : List WorldDependencyBranchChildV1} (hne : children ≠ [])
    (hfanout : children.length ≤ maxDirectoryChildren) (h : ∀ child ∈ children, child.Accepted) :
    Reads readChildren (head 4 children.length ++ children.flatMap encodeChild) children := by
  have hpos := length_pos_iff.mpr hne
  have hlength : children.length < 2 ^ 64 := by
    rw [maxDirectoryChildren] at hfanout
    omega
  refine (head _ (by decide) hlength).bind ?_
  refine (ofExcept (if_neg ?_)).after ?_
  · omega
  · exact many fun child hchild => reads_child (h child hchild)

theorem length_encodeKey (key : WorldDependencyKeyV1) : (encodeKey key).length = 36 := by
  rw [encodeKey, length_append, length_append, length_encodeHash, length_head_of_lt _ (by decide),
    length_head_of_lt _ (key.kind.code_lt.trans (by decide))]

theorem length_encodeChild_le (child : WorldDependencyBranchChildV1) : (encodeChild child).length ≤ 116 := by
  have hcount := length_head_le 0 child.leafCount
  simp only [encodeChild, length_append, length_encodeKey, length_encodeHash, length_head_of_lt 4 (by decide : 4 < 24)]
  omega

theorem length_flatMap_encodeChild_le (children : List WorldDependencyBranchChildV1) :
    (children.flatMap encodeChild).length ≤ 116 * children.length := by
  induction children with
  | nil => exact Nat.le_refl _
  | cons child children ih =>
    have hchild := length_encodeChild_le child
    rw [flatMap_cons, length_append, length_cons]
    omega

namespace WorldDependencyBranchV1

/-- A branch within the bounds of its fields, which its public constructor makes of its accepted children. -/
structure Accepted (branch : WorldDependencyBranchV1) : Prop where
  height : branch.height < 256
  first : branch.firstKey.nativeDigest ≠ 0
  last : branch.lastKey.nativeDigest ≠ 0
  count : branch.leafCount < 2 ^ 64
  ne_nil : branch.children ≠ []
  fanout : branch.children.length ≤ maxDirectoryChildren
  children : ∀ child ∈ branch.children, child.Accepted
  new : WorldDependencyBranchV1.new ⟨branch.scope, branch.height, branch.children⟩ = .ok branch

variable {branch : WorldDependencyBranchV1}

theorem Accepted.reads (h : branch.Accepted) : Reads readDirectory branch.encode branch := by
  refine (reads_array (by decide)).bind ?_
  refine reads_magic.bind ?_
  refine reads_version.bind ?_
  refine (reads_hash _ _).bind ?_
  refine (reads_code h.height).bind ?_
  refine (reads_key h.first).bind ?_
  refine (reads_key h.last).bind ?_
  refine (head _ (by decide) h.count).bind ?_
  refine (reads_children h.ne_nil h.fanout h.children).before ?_
  refine (ofExcept h.new).after (ofExcept ?_)
  exact if_pos ⟨rfl, rfl, rfl⟩

theorem Accepted.length_le (h : branch.Accepted) : branch.encode.length ≤ maxDirectoryBytes := by
  have hfanout := h.fanout
  have hchildren := length_flatMap_encodeChild_le branch.children
  have hheight := length_head_le 0 branch.height
  have hcount := length_head_le 0 branch.leafCount
  have hnumber := length_head_le 4 branch.children.length
  have hfront : (head 4 8).length + (blob 2 (Authority.textBytes "WDB1")).length + (head 0 1).length = 7 := by
    decide +kernel
  rw [maxDirectoryChildren] at hfanout
  simp only [encode, length_append, length_encodeKey, length_encodeHash, maxDirectoryBytes]
  omega

/-- The decoder gives an accepted branch back. -/
theorem Accepted.decode_encode (h : branch.Accepted) : decode branch.encode = .ok branch := by
  have hread := h.reads []
  rw [append_nil] at hread
  rw [decode, if_neg (Nat.not_lt.mpr h.length_le), hread, Checked.ok_bind]
  dsimp only
  rw [if_neg (not_not_intro rfl), if_pos rfl]

end WorldDependencyBranchV1

/-! ## Positions of keys -/

namespace WorldDependencyKeyV1

/-- The place of a key in the order of all keys with a digest: kind by kind, from digest one on. -/
def position (key : WorldDependencyKeyV1) : Nat := key.kind.code * (2 ^ 256 - 1) + key.nativeDigest.toNat

theorem toNat_pos (h : key.nativeDigest ≠ 0) : 0 < key.nativeDigest.toNat := by
  refine Nat.pos_of_ne_zero fun hzero => h (BitVec.eq_of_toNat_eq ?_)
  rw [hzero]
  rfl

end WorldDependencyKeyV1

variable {left right : WorldDependencyKeyV1}

open WorldDependencyKeyV1

theorem compareKeys_eq_lt (hleft : left.nativeDigest ≠ 0)
    (hright : right.nativeDigest ≠ 0) : compareKeys left right = .lt ↔ left.position < right.position := by
  have hl := toNat_pos hleft
  have hr := toNat_pos hright
  rw [compareKeys, Ordering.then_eq_lt, Nat.compare_eq_lt, Nat.compare_eq_eq, Nat.compare_eq_lt,
    position, position]
  omega

theorem compareKeys_ne_gt (hleft : left.nativeDigest ≠ 0) (hright : right.nativeDigest ≠ 0) :
    compareKeys left right ≠ .gt ↔ left.position ≤ right.position := by
  have hl := toNat_pos hleft
  have hr := toNat_pos hright
  have hlt := left.nativeDigest.isLt
  rw [Ne, compareKeys, Ordering.then_eq_gt, Nat.compare_eq_gt, Nat.compare_eq_eq, Nat.compare_eq_gt, position, position]
  omega

theorem compareKeys_eq_eq : compareKeys left right = .eq ↔ left = right := by
  rw [compareKeys, Ordering.then_eq_eq, Nat.compare_eq_eq, Nat.compare_eq_eq]
  constructor
  · rintro ⟨hkind, hdigest⟩
    cases left
    cases right
    exact congrArg₂ _ (WorldArtifactKindV1.code_injective hkind) (BitVec.eq_of_toNat_eq hdigest)
  · rintro rfl
    exact ⟨rfl, rfl⟩

theorem addCarry_cons (byte : UInt8) (bytes : List UInt8) (carry : Nat) :
    addCarry (byte :: bytes) carry =
      (UInt8.ofNat (byte.toNat + (addCarry bytes carry).2 % 256) :: (addCarry bytes carry).1,
        (addCarry bytes carry).2 / 256 + if 256 ≤ byte.toNat + (addCarry bytes carry).2 % 256 then 1 else 0) := rfl

theorem length_addCarry (bytes : List UInt8) (carry : Nat) : (addCarry bytes carry).1.length = bytes.length := by
  induction bytes with
  | nil => rfl
  | cons byte bytes ih => rw [addCarry_cons, length_cons, ih, length_cons]

/-- The addition keeps the value: what does not fit is left over. -/
theorem addCarry_value (bytes : List UInt8) (carry : Nat) :
    fromBigEndian (addCarry bytes carry).1 + (addCarry bytes carry).2 * 256 ^ bytes.length =
      fromBigEndian bytes + carry := by
  induction bytes with
  | nil => simp [addCarry, fromBigEndian]
  | cons byte bytes ih =>
    rw [addCarry_cons, fromBigEndian_cons, fromBigEndian_cons, length_addCarry, length_cons]
    generalize addCarry bytes carry = added at ih ⊢
    obtain ⟨rest, left⟩ := added
    have hbyte : byte.toNat < 256 := byte.toNat_lt
    -- the sum of two bytes overflows at most once
    have hdigit : (UInt8.ofNat (byte.toNat + left % 256)).toNat +
        (left / 256 + if 256 ≤ byte.toNat + left % 256 then 1 else 0) * 256 = byte.toNat + left := by
      rw [UInt8.toNat_ofNat']
      split_ifs <;> omega
    calc _ = ((UInt8.ofNat (byte.toNat + left % 256)).toNat +
          (left / 256 + if 256 ≤ byte.toNat + left % 256 then 1 else 0) * 256) * 256 ^ bytes.length +
            fromBigEndian rest := by ring
      _ = byte.toNat * 256 ^ bytes.length + (fromBigEndian rest + left * 256 ^ bytes.length) := by
        rw [hdigit]
        ring
      _ = _ := by rw [ih]; ring

variable {first last : WorldDependencyKeyV1}

/-- There is room for `count` keys exactly when the last one is `count - 1` places after the first or later. -/
theorem rangeHasRoom_iff (hfirst : first.nativeDigest ≠ 0) (hcount : count ≤ 2 ^ 64) :
    rangeHasRoom first last count = true ↔ first.position + (count - 1) ≤ last.position := by
  have hpos := toNat_pos hfirst
  have hfirstLt := first.nativeDigest.isLt
  have hlastLt := last.nativeDigest.isLt
  have hvalue := addCarry_value (hashBytes first.nativeDigest) (count - 1)
  have hlength := length_addCarry (hashBytes first.nativeDigest) (count - 1)
  rw [length_hashBytes] at hvalue hlength
  rw [fromBigEndian_hashBytes] at hvalue
  unfold rangeHasRoom
  generalize addCarry (hashBytes first.nativeDigest) (count - 1) = added at hvalue hlength ⊢
  obtain ⟨advanced, carry⟩ := added
  have hadvanced := fromBigEndian_lt advanced
  have hbumped := addCarry_value advanced 1
  have hbumpedLt := fromBigEndian_lt (addCarry advanced 1).1
  rw [length_addCarry] at hbumpedLt
  rw [hlength] at hadvanced hbumped hbumpedLt
  rw [position, position]
  norm_num at hvalue hadvanced hbumped hbumpedLt hfirstLt hlastLt hcount ⊢
  -- a 64-bit count crosses at most one kind boundary
  rcases Nat.lt_or_ge carry 1 with hcarry | hcarry
  · obtain rfl : carry = 0 := by omega
    rw [if_pos rfl]
    omega
  · obtain rfl : carry = 1 := by omega
    rw [if_neg (by decide)]
    omega

/-! ## The keys of a range -/

/-- The valid keys from `first` to `last`. -/
def keysWithin (first last : WorldDependencyKeyV1) : Set WorldDependencyKeyV1 :=
  {key | key.nativeDigest ≠ 0 ∧ compareKeys first key ≠ .gt ∧ compareKeys key last ≠ .gt}

/-- Every place up to that of a key is the place of a valid key. -/
theorem exists_position {place : Nat} (hpos : 0 < place) (h : place ≤ last.position) :
    ∃ key : WorldDependencyKeyV1, key.nativeDigest ≠ 0 ∧ key.position = place := by
  have hcode := last.kind.code_lt
  have hlast := last.nativeDigest.isLt
  rw [position] at h
  -- the valid digests of one kind are the numbers from one to `2 ^ 256 - 1`
  have hdigest : (place - 1) % (2 ^ 256 - 1) + 1 < 2 ^ 256 := by omega
  have hlt : (place - 1) / (2 ^ 256 - 1) < 15 := by omega
  obtain ⟨kind, hkind⟩ := WorldArtifactKindV1.exists_code hlt
  refine ⟨⟨kind, BitVec.ofNatLT _ hdigest⟩, ?_, ?_⟩
  · intro hzero
    have hone := congrArg BitVec.toNat hzero
    cases hone
  · rw [position, BitVec.toNat_ofNatLT, hkind]
    omega

theorem position_injOn : (keysWithin first last).InjOn position := by
  rintro left ⟨hleft, -⟩ right ⟨hright, -⟩ heq
  have hle := (compareKeys_ne_gt hleft hright).mpr heq.le
  have hnlt := (compareKeys_eq_lt hleft hright).not.mpr heq.not_lt
  refine compareKeys_eq_eq.mp ?_
  cases hcompare : compareKeys left right with
  | lt => exact absurd hcompare hnlt
  | eq => rfl
  | gt => exact absurd hcompare hle

/-- The valid keys of a range have the places from the first to the last. -/
theorem image_keysWithin (hfirst : first.nativeDigest ≠ 0) (hlast : last.nativeDigest ≠ 0) :
    position '' keysWithin first last = Set.Icc first.position last.position := by
  ext place
  constructor
  · rintro ⟨key, ⟨hkey, hle, hge⟩, rfl⟩
    exact ⟨(compareKeys_ne_gt hfirst hkey).mp hle, (compareKeys_ne_gt hkey hlast).mp hge⟩
  · rintro ⟨hle, hge⟩
    have hpos : 0 < first.position := (toNat_pos hfirst).trans_le (Nat.le_add_left _ _)
    obtain ⟨key, hkey, rfl⟩ := exists_position (hpos.trans_le hle) hge
    exact ⟨key, ⟨hkey, (compareKeys_ne_gt hfirst hkey).mpr hle, (compareKeys_ne_gt hkey hlast).mpr hge⟩, rfl⟩

theorem encard_keysWithin (hfirst : first.nativeDigest ≠ 0) (hlast : last.nativeDigest ≠ 0) :
    (keysWithin first last).encard = (last.position + 1 - first.position : Nat) := by
  rw [← position_injOn.encard_image, image_keysWithin hfirst hlast, ← Finset.coe_Icc, Set.encard_coe_eq_coe_finsetCard,
    Nat.card_Icc]

/-- The room of a range is exact: `count` keys fit from `first` to `last` if and only if there are as many
valid keys between them. -/
theorem rangeHasRoom_exact {first last : WorldDependencyKeyV1} {count : Nat} (hfirst : first.nativeDigest ≠ 0)
    (hlast : last.nativeDigest ≠ 0) (hpos : 1 ≤ count) (hcount : count < 2 ^ 64) :
    rangeHasRoom first last count = true ↔ count ≤ (keysWithin first last).encard := by
  rw [rangeHasRoom_iff hfirst hcount.le, encard_keysWithin hfirst hlast, Nat.cast_le]
  omega

/-- From the last digest of one kind to the first of the next there is room for two keys, not for three. -/
theorem rangeHasRoom_across_kinds :
    (2 : Nat) ≤ (keysWithin ⟨.outputPolicy, BitVec.allOnes 256⟩ ⟨.executableBudgetPolicy, 1⟩).encard ∧
      ¬ (3 : Nat) ≤ (keysWithin ⟨.outputPolicy, BitVec.allOnes 256⟩ ⟨.executableBudgetPolicy, 1⟩).encard := by
  have hfirst : BitVec.allOnes 256 ≠ 0 := by decide
  have hlast : (1 : Hash) ≠ 0 := by decide
  constructor
  · exact (rangeHasRoom_exact hfirst hlast (by decide) (by decide)).mp (by decide)
  · exact (rangeHasRoom_exact hfirst hlast (by decide) (by decide)).not.mp (by decide)

end Piglor.World
