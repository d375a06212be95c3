/-
Digests on the wire: 32 bytes, most significant first, in a byte string of that length.
-/
import PiglorProofs.Core.Types
import PiglorProofs.Lib.Cbor

namespace Piglor

open Cbor (Reader Reads)

theorem beBytes_eq_bigEndian : ∀ width n : Nat, beBytes width n = Cbor.bigEndian width n
  | 0, _ => rfl
  | width + 1, n => by
    rw [Cbor.bigEndian, ← beBytes_eq_bigEndian width (n / 256), beBytes, List.range_succ, List.map_append, beBytes]
    congr 1
    · refine List.map_congr_left fun i hi => congrArg UInt8.ofNat ?_
      have hi : i < width := List.mem_range.mp hi
      rw [Nat.div_div_eq_div_mul, ← Nat.pow_succ', show width + 1 - 1 - i = (width - 1 - i).succ by omega]
    · simp

@[simp] theorem length_hashBytes (hash : Hash) : (hashBytes hash).length = 32 := by simp [hashBytes, beBytes]

/-- `Hash::from_bytes`. -/
def hashOfBytes (bytes : List UInt8) : Hash := BitVec.ofNat 256 (Cbor.fromBigEndian bytes)

theorem fromBigEndian_hashBytes (hash : Hash) : Cbor.fromBigEndian (hashBytes hash) = hash.toNat := by
  rw [hashBytes, beBytes_eq_bigEndian]
  exact Cbor.fromBigEndian_bigEndian hash.isLt

@[simp] theorem hashOfBytes_hashBytes (hash : Hash) : hashOfBytes (hashBytes hash) = hash := by
  rw [hashOfBytes, fromBigEndian_hashBytes, BitVec.ofNat_toNat, BitVec.setWidth_eq]

def encodeHash (hash : Hash) : List UInt8 := Cbor.blob 2 (hashBytes hash)

variable {ε : Type}

def readHash (invalid : ε) : Reader ε Hash := hashOfBytes <$> Cbor.readFixed invalid 2 32

theorem reads_hash (invalid : ε) (hash : Hash) : Reads (readHash invalid) (encodeHash hash) hash := by
  have hread := (Reads.fixed invalid (by decide : 2 < 8) (by decide) (length_hashBytes hash)).map hashOfBytes
  rwa [hashOfBytes_hashBytes] at hread

@[simp] theorem length_encodeHash (hash : Hash) : (encodeHash hash).length = 34 := by
  rw [encodeHash, Cbor.blob, List.length_append, length_hashBytes]
  rfl

end Piglor
