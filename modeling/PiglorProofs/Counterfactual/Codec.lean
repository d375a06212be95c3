/-
The deterministic CBOR that every counterfactual record is digested in: arrays, byte strings, text,
unsigned integers and null, each head in its shortest form, and the order of the digests as bytes.
-/
import Mathlib.Data.Prod.Lex
import PiglorProofs.Core.Types
import PiglorProofs.Lib.Cbor

namespace Piglor

/-! ## Digests in byte order -/

/-- Big-endian byte strings of one length compare as the numbers they spell. -/
instance bitVecOrder {w : Nat} : LinearOrder (BitVec w) :=
  LinearOrder.lift' BitVec.toNat fun _ _ => BitVec.eq_of_toNat_eq

namespace Counterfactual

/-- A 16-byte identifier. -/
abbrev Identifier := BitVec 128

/-- Whether a fixed-width field holds any nonzero byte. -/
def nonzero {w : Nat} (field : BitVec w) : Bool := decide (field ≠ 0)

/-! ## Values -/

inductive Value where
  | integer (value : Nat)
  | bytes (value : List UInt8)
  | text (value : String)
  | array (items : List Value)
  | null

mutual

def encodeValue : Value → List UInt8
  | .integer value => Cbor.head 0 value
  | .bytes value => Cbor.head 2 value.length ++ value
  | .text value => Cbor.head 3 value.utf8ByteSize ++ value.toUTF8.data.toList
  | .array items => Cbor.head 4 items.length ++ encodeItems items
  | .null => [0xf6]

def encodeItems : List Value → List UInt8
  | [] => []
  | item :: items => encodeValue item ++ encodeItems items

end

def hashValue (hash : Hash) : Value := .bytes (hashBytes hash)

def identifierValue (identifier : Identifier) : Value := .bytes (beBytes 16 identifier.toNat)

/-- The digest of canonical bytes under a domain. -/
def domainDigest (blake3 : ByteHash) (domain : String) (value : List UInt8) : Hash :=
  blake3 (domain.toUTF8.data.toList ++ 0 :: value)

/-! ## Text -/

def isControl (c : Char) : Bool := decide (c.toNat < 0x20 ∨ 0x7f ≤ c.toNat ∧ c.toNat < 0xa0)

def isAsciiDigit (c : Char) : Bool := decide (0x30 ≤ c.toNat ∧ c.toNat ≤ 0x39)

def isAsciiLowercase (c : Char) : Bool := decide (0x61 ≤ c.toNat ∧ c.toNat ≤ 0x7a)

def isAsciiAlphabetic (c : Char) : Bool := isAsciiLowercase c || decide (0x41 ≤ c.toNat ∧ c.toNat ≤ 0x5a)

def isAscii (value : List Char) : Bool := value.all fun c => decide (c.toNat < 0x80)

/-- Nonempty text of bounded size without control characters. -/
def boundedText (value : String) (maximumBytes : Nat) : Bool :=
  !value.isEmpty && decide (value.utf8ByteSize ≤ maximumBytes) && !value.toList.any isControl

/-- A bounded lowercase identifier. -/
def identifier (value : String) (maximumBytes : Nat) : Bool :=
  match value.toList with
  | [] => false
  | first :: rest =>
    decide (value.utf8ByteSize ≤ maximumBytes) && isAscii (first :: rest) &&
      (isAsciiLowercase first || isAsciiDigit first) &&
      (first :: rest).all fun c => isAsciiLowercase c || isAsciiDigit c || decide (c ∈ ['.', '_', '/', '-'])

/-- Text up to a character and after it, when the character occurs. -/
def splitOnce (separator : Char) (value : List Char) : Option (List Char × List Char) :=
  match value.dropWhile (· ≠ separator) with
  | [] => none
  | _ :: rest => some (value.takeWhile (· ≠ separator), rest)

def numericComponent (maximumBytes : Option Nat) (component : List Char) : Bool :=
  !component.isEmpty && maximumBytes.all (fun maximum => decide (component.length ≤ maximum)) &&
    (decide (component = ['0']) || decide (component.head? ≠ some '0')) && component.all isAsciiDigit

def versionIdentifiers (maximumBytes : Option Nat) (suffix : List Char) (numericZeroForbidden : Bool) : Bool :=
  suffix.isEmpty || (suffix.splitOn '.').all fun component =>
    !component.isEmpty && (component.all fun c => isAsciiAlphabetic c || isAsciiDigit c || decide (c = '-')) &&
      (!numericZeroForbidden || !component.all isAsciiDigit || numericComponent maximumBytes component)

/-- Whether text is a semantic version within its bounds. -/
def semanticVersion (value : String) (maximumBytes : Nat) (maximumNumericComponentBytes : Option Nat) : Bool :=
  let text := value.toList
  if value.isEmpty || decide (value.utf8ByteSize > maximumBytes) || !isAscii text then false
  else
    let coreAndBuild := match splitOnce '+' text with
      | some (core, suffix) => if !suffix.isEmpty && decide ('+' ∉ suffix) then some (core, suffix) else none
      | none => some (text, [])
    match coreAndBuild with
    | none => false
    | some (coreAndPrerelease, build) =>
      let coreAndSuffix := match splitOnce '-' coreAndPrerelease with
        | some (core, suffix) => if !suffix.isEmpty then some (core, suffix) else none
        | none => some (coreAndPrerelease, [])
      match coreAndSuffix with
      | none => false
      | some (core, prerelease) =>
        decide ((core.splitOn '.').length = 3) &&
          (core.splitOn '.').all (numericComponent maximumNumericComponentBytes) &&
          versionIdentifiers maximumNumericComponentBytes prerelease true &&
          versionIdentifiers maximumNumericComponentBytes build false

end Counterfactual

end Piglor
