/-
Strict readers: definite-length CBOR whose every head is in its shortest form. Such a reader gives a value
back exactly on the bytes the value is written as, so what is said of each item here is an equivalence.
-/
import PiglorProofs.Lib.Cbor
import PiglorProofs.Lib.Checked

namespace Cbor

variable {ε α β : Type} {input rest : List UInt8}

theorem bigEndian_fromBigEndian (bytes : List UInt8) : bigEndian bytes.length (fromBigEndian bytes) = bytes := by
  induction bytes using List.reverseRecOn with
  | nil => rfl
  | append_singleton bytes byte ih =>
    have hbyte := byte.toNat_lt
    rw [fromBigEndian_concat, List.length_append, List.length_singleton, bigEndian,
      show (fromBigEndian bytes * 256 + byte.toNat) / 256 = fromBigEndian bytes by omega, ih]
    congr 2
    rw [← UInt8.toNat_inj, UInt8.toNat_ofNat']
    omega

/-! ## Readers that succeed -/

variable {reader : Reader ε α}

theorem readBind_eq_ok {next : α → Reader ε β} {b : β} :
    (reader >>= next) input = .ok (b, rest) ↔ ∃ a mid, reader input = .ok (a, mid) ∧ next a mid = .ok (b, rest) := by
  show (reader input >>= fun p => next p.1 p.2) = _ ↔ _
  rw [Checked.bind_eq_ok, Prod.exists]

theorem pure_eq_ok {a b : α} : (pure a : Reader ε α) input = .ok (b, rest) ↔ a = b ∧ input = rest := by
  show Except.ok (a, input) = _ ↔ _
  simp

variable {u : Unit}

theorem check_eq_ok {condition : Bool} {e : ε} :
    check condition e input = .ok (u, rest) ↔ condition = true ∧ input = rest := by
  cases condition
  · exact ⟨nofun, nofun⟩
  · simp [check, pure_eq_ok]

theorem take_eq_ok {invalid : ε} {length : Nat} {bytes : List UInt8} :
    take invalid length input = .ok (bytes, rest) ↔ bytes.length = length ∧ input = bytes ++ rest := by
  unfold take
  grind [List.take_append_drop]

/-- Items that are each read exactly as they are written are so read one after the other. -/
theorem readMany_eq_ok {valid : α → Prop} {encode : α → List UInt8}
    (h : ∀ {input a rest}, reader input = .ok (a, rest) ↔ valid a ∧ input = encode a ++ rest) :
    ∀ {count values input rest}, readMany reader count input = .ok (values, rest) ↔
      values.length = count ∧ (∀ a ∈ values, valid a) ∧ input = values.flatMap encode ++ rest
  | 0, values, input, rest => by
    rw [readMany, pure_eq_ok, List.length_eq_zero_iff]
    constructor
    · rintro ⟨rfl, rfl⟩
      simp
    · rintro ⟨rfl, -, rfl⟩
      exact ⟨rfl, rfl⟩
  | count + 1, values, input, rest => by
    simp only [readMany, readBind_eq_ok, pure_eq_ok, h, readMany_eq_ok h, existsAndEq]
    cases values with
    | nil => simp
    | cons a values => simp [and_assoc, and_comm, and_left_comm]

/-! ## Heads -/

/-- The two errors of a strict reader: for what is not well formed, and for what is too large. -/
class StrictError (ε : Type) where
  invalid : ε
  exceeded : ε

open StrictError

variable [StrictError ε]

/-- A long argument of a head, which must not fit a shorter form. -/
def longArgument (major width minimum : Nat) : Reader ε (Nat × Nat) := do
  let bytes ← take invalid width
  check (minimum ≤ fromBigEndian bytes) invalid
  pure (major, fromBigEndian bytes)

def strictHead : Reader ε (Nat × Nat) := do
  let first ← byte invalid
  let major := first.toNat / 32
  let small := first.toNat % 32
  if small < 24 then pure (major, small)
  else if small = 24 then longArgument major 1 24
  else if small = 25 then longArgument major 2 0x100
  else if small = 26 then longArgument major 4 0x10000
  else if small = 27 then longArgument major 8 0x100000000
  else fail invalid

variable {major argument width : Nat}

theorem longArgument_eq_ok {m minimum : Nat} :
    longArgument (ε := ε) m width minimum input = .ok ((major, argument), rest) ↔
      major = m ∧ minimum ≤ argument ∧ argument < 256 ^ width ∧ input = bigEndian width argument ++ rest := by
  simp only [longArgument, readBind_eq_ok, take_eq_ok, check_eq_ok, pure_eq_ok, decide_eq_true_eq, Prod.mk.injEq]
  constructor
  · rintro ⟨bytes, _, ⟨rfl, rfl⟩, -, _, ⟨hle, rfl⟩, ⟨rfl, rfl⟩, rfl⟩
    exact ⟨rfl, hle, fromBigEndian_lt bytes, by rw [bigEndian_fromBigEndian]⟩
  · rintro ⟨rfl, hle, hlt, rfl⟩
    have hvalue := fromBigEndian_bigEndian hlt
    exact ⟨_, rest, ⟨length_bigEndian _ _, rfl⟩, (), rest, ⟨by rwa [hvalue], rfl⟩, ⟨rfl, hvalue⟩, rfl⟩

theorem ofNat_initial {first : UInt8} {small : Nat} (h : first.toNat % 32 = small) :
    UInt8.ofNat (32 * (first.toNat / 32) + small) = first := by
  rw [← h, Nat.div_add_mod, UInt8.ofNat_toNat]

/-- A strict head is the shortest form of its argument. -/
theorem strictHead_eq_ok : strictHead (ε := ε) input = .ok ((major, argument), rest) ↔
    major < 8 ∧ argument < 2 ^ 64 ∧ input = head major argument ++ rest := by
  rw [strictHead, readBind_eq_ok]
  constructor
  · rintro ⟨first, tail, hfirst, h⟩
    cases input with
    | nil => cases hfirst
    | cons byte input =>
      cases hfirst
      have hbyte := first.toNat_lt
      split_ifs at h
      · obtain ⟨⟨⟩, rfl⟩ := pure_eq_ok.mp h
        refine ⟨by omega, by omega, ?_⟩
        rw [head, if_pos (by assumption), ofNat_initial rfl]
        rfl
      all_goals first
        | cases h
        | obtain ⟨rfl, hle, hlt, rfl⟩ := longArgument_eq_ok.mp h
          refine ⟨by omega, by omega, ?_⟩
          unfold head
          split_ifs
          all_goals first
            | omega
            | rw [ofNat_initial (by assumption)]; rfl
  · rintro ⟨hmajor, hlt, rfl⟩
    have hinitial : ∀ small < 32, (UInt8.ofNat (32 * major + small)).toNat = 32 * major + small := by
      intro small hsmall
      rw [UInt8.toNat_ofNat']
      omega
    unfold head
    split_ifs
    · refine ⟨_, _, rfl, ?_⟩
      rw [hinitial _ (by omega), if_pos (by omega), pure_eq_ok, Prod.mk.injEq]
      refine ⟨⟨?_, ?_⟩, rfl⟩ <;> omega
    all_goals
      refine ⟨_, _, rfl, ?_⟩
      rw [hinitial _ (by decide), Nat.mul_add_div (by decide), Nat.mul_add_mod]
      simp [longArgument_eq_ok, *]
    all_goals omega

/-! ## Items -/

/-- The argument of an item of the expected major type. -/
def item (major : Nat) : Reader ε Nat := do
  let (m, argument) ← strictHead
  check (m = major) invalid
  pure argument

def array (maximum : Nat) : Reader ε Nat := do
  let count ← item 4
  check (count ≤ maximum) exceeded
  pure count

def fixedArray (members : Nat) : Reader ε Unit := do
  let count ← item 4
  check (count = members) invalid

def unsigned : Reader ε UInt64 := do
  let value ← item 0
  pure (UInt64.ofNat value)

def text (maximum : Nat) : Reader ε String := do
  let length ← item 3
  check (length ≤ maximum) exceeded
  let bytes ← take invalid length
  match String.fromUTF8? ⟨bytes.toArray⟩ with
  | some text => pure text
  | none => fail invalid

def bytes (width : Nat) : Reader ε (List UInt8) := do
  let length ← item 2
  check (length = width) invalid
  take invalid width

/-- The input ends here. -/
def finish : Reader ε Unit
  | [] => .ok ((), [])
  | _ :: _ => .error invalid

theorem item_eq_ok (hmajor : major < 8) :
    item (ε := ε) major input = .ok (argument, rest) ↔ argument < 2 ^ 64 ∧ input = head major argument ++ rest := by
  simp only [item, readBind_eq_ok, check_eq_ok, pure_eq_ok, strictHead_eq_ok, decide_eq_true_eq, Prod.exists, existsAndEq]
  grind

variable {maximum : Nat}

theorem array_eq_ok {count : Nat} (h : maximum < 2 ^ 64) :
    array (ε := ε) maximum input = .ok (count, rest) ↔ count ≤ maximum ∧ input = head 4 count ++ rest := by
  simp only [array, readBind_eq_ok, check_eq_ok, pure_eq_ok, item_eq_ok (by decide : 4 < 8), decide_eq_true_eq, existsAndEq]
  grind

theorem fixedArray_eq_ok {members : Nat} (h : members < 2 ^ 64) :
    fixedArray (ε := ε) members input = .ok (u, rest) ↔ input = head 4 members ++ rest := by
  simp only [fixedArray, readBind_eq_ok, check_eq_ok, item_eq_ok (by decide : 4 < 8), decide_eq_true_eq, existsAndEq]
  grind

theorem unsigned_eq_ok {value : UInt64} :
    unsigned (ε := ε) input = .ok (value, rest) ↔ input = head 0 value.toNat ++ rest := by
  simp only [unsigned, readBind_eq_ok, pure_eq_ok, item_eq_ok (by decide : 0 < 8), existsAndEq]
  constructor
  · rintro ⟨_, ⟨hlt, rfl⟩, rfl, -⟩
    rw [UInt64.toNat_ofNat', Nat.mod_eq_of_lt hlt]
  · rintro rfl
    exact ⟨_, ⟨value.toNat_lt, rfl⟩, UInt64.ofNat_toNat, trivial⟩

theorem bytes_eq_ok {value : List UInt8} (h : width < 2 ^ 64) :
    bytes (ε := ε) width input = .ok (value, rest) ↔ value.length = width ∧ input = blob 2 value ++ rest := by
  simp only [bytes, readBind_eq_ok, check_eq_ok, take_eq_ok, item_eq_ok (by decide : 2 < 8), decide_eq_true_eq, existsAndEq]
  grind [blob]

theorem text_eq_ok {value : String} (h : maximum < 2 ^ 64) :
    text (ε := ε) maximum input = .ok (value, rest) ↔
      value.utf8ByteSize ≤ maximum ∧ input = blob 3 value.toUTF8.data.toList ++ rest := by
  simp only [text, readBind_eq_ok, check_eq_ok, take_eq_ok, item_eq_ok (by decide : 3 < 8), decide_eq_true_eq, blob,
    List.append_assoc]
  constructor
  · rintro ⟨_, _, ⟨-, rfl⟩, -, _, ⟨hle, rfl⟩, read, _, ⟨rfl, rfl⟩, hread⟩
    unfold String.fromUTF8? at hread
    split_ifs at hread
    · obtain ⟨rfl, rfl⟩ := pure_eq_ok.mp hread
      exact ⟨hle, rfl⟩
    · cases hread
  · rintro ⟨hle, rfl⟩
    refine ⟨_, _, ⟨hle.trans_lt h, rfl⟩, (), _, ⟨hle, rfl⟩, value.toUTF8.data.toList, rest, ⟨rfl, rfl⟩, ?_⟩
    have hread : String.fromUTF8? ⟨value.toUTF8.data.toList.toArray⟩ = some value := dif_pos value.isValidUTF8
    rw [hread]
    rfl

theorem finish_eq_ok : finish (ε := ε) input = .ok (u, rest) ↔ input = [] ∧ rest = [] := by
  cases input <;> simp [finish, eq_comm]

end Cbor
