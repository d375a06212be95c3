/-
Definite-length CBOR: heads in their shortest form, byte strings, and readers that take what they need
from the front of their input. A reader `Reads` a value from its bytes when it gives the value back and
leaves whatever follows, so that the reader of a record is put together from the readers of its fields.
-/
import Mathlib.Data.List.Flatten
import Mathlib.Data.List.Induction
import Mathlib.Tactic.Ring

namespace Cbor

open List

/-! ## Big-endian numbers -/

/-- A number in a fixed number of bytes, most significant first. -/
def bigEndian : Nat → Nat → List UInt8
  | 0, _ => []
  | width + 1, n => bigEndian width (n / 256) ++ [UInt8.ofNat n]

def fromBigEndian (bytes : List UInt8) : Nat := bytes.foldl (fun value byte => value * 256 + byte.toNat) 0

@[simp] theorem length_bigEndian : ∀ width n : Nat, (bigEndian width n).length = width
  | 0, _ => rfl
  | width + 1, n => by rw [bigEndian, length_append, length_bigEndian, length_singleton]

theorem fromBigEndian_concat (bytes : List UInt8) (byte : UInt8) :
    fromBigEndian (bytes ++ [byte]) = fromBigEndian bytes * 256 + byte.toNat := by
  simp [fromBigEndian]

theorem foldl_fromBigEndian (bytes : List UInt8) (start : Nat) :
    bytes.foldl (fun value byte => value * 256 + byte.toNat) start = start * 256 ^ bytes.length + fromBigEndian bytes := by
  induction bytes using reverseRecOn with
  | nil => simp [fromBigEndian]
  | append_singleton bytes byte ih =>
    rw [foldl_append, foldl_cons, foldl_nil, ih, fromBigEndian_concat, length_append, length_singleton, Nat.pow_succ]
    ring

theorem fromBigEndian_cons (byte : UInt8) (bytes : List UInt8) :
    fromBigEndian (byte :: bytes) = byte.toNat * 256 ^ bytes.length + fromBigEndian bytes := by
  rw [fromBigEndian, foldl_cons, foldl_fromBigEndian, Nat.zero_mul, Nat.zero_add]

theorem fromBigEndian_lt (bytes : List UInt8) : fromBigEndian bytes < 256 ^ bytes.length := by
  induction bytes with
  | nil => decide
  | cons byte bytes ih =>
    calc fromBigEndian (byte :: bytes) = byte.toNat * 256 ^ bytes.length + fromBigEndian bytes := fromBigEndian_cons _ _
      _ < (byte.toNat + 1) * 256 ^ bytes.length := by rw [Nat.succ_mul]; omega
      _ ≤ 256 * 256 ^ bytes.length := Nat.mul_le_mul_right _ byte.toNat_lt
      _ = 256 ^ (byte :: bytes).length := by rw [length_cons, Nat.pow_succ']

theorem fromBigEndian_bigEndian : ∀ {width n : Nat}, n < 256 ^ width → fromBigEndian (bigEndian width n) = n
  | 0, n, h => by
    obtain rfl : n = 0 := by omega
    rfl
  | width + 1, n, h => by
    have hlt : n / 256 < 256 ^ width := by
      rw [Nat.div_lt_iff_lt_mul (by decide), ← Nat.pow_succ]
      exact h
    rw [bigEndian, fromBigEndian_concat, fromBigEndian_bigEndian hlt]
    have hbyte : (UInt8.ofNat n).toNat = n % 256 := by simp
    omega

variable {width : Nat}

theorem bigEndian_injective {a b : Nat} (ha : a < 256 ^ width) (hb : b < 256 ^ width)
    (h : bigEndian width a = bigEndian width b) : a = b := by
  rw [← fromBigEndian_bigEndian ha, h, fromBigEndian_bigEndian hb]

/-! ## Heads -/

/-- The head of an item: its major type with its argument in the shortest form. -/
def head (major argument : Nat) : List UInt8 :=
  if argument < 24 then [UInt8.ofNat (32 * major + argument)]
  else if argument < 2 ^ 8 then UInt8.ofNat (32 * major + 24) :: bigEndian 1 argument
  else if argument < 2 ^ 16 then UInt8.ofNat (32 * major + 25) :: bigEndian 2 argument
  else if argument < 2 ^ 32 then UInt8.ofNat (32 * major + 26) :: bigEndian 4 argument
  else UInt8.ofNat (32 * major + 27) :: bigEndian 8 argument

/-- A byte or text string under its length. -/
def blob (major : Nat) (bytes : List UInt8) : List UInt8 := head major bytes.length ++ bytes

theorem length_head_le (major argument : Nat) : (head major argument).length ≤ 9 := by
  unfold head
  split_ifs <;> simp

variable {argument : Nat}

/-- The head of a small argument is one byte. -/
theorem length_head_of_lt (major : Nat) (h : argument < 24) : (head major argument).length = 1 := by
  rw [head, if_pos h]
  rfl

theorem length_head_of_lt_256 (major : Nat) (h : argument < 256) :
    (head major argument).length ≤ 2 := by
  unfold head
  split_ifs with h24 h8 <;> simp
  all_goals omega

/-! ## Readers -/

/-- A reader of the front of its input. -/
abbrev Reader (ε α : Type) := StateT (List UInt8) (Except ε) α

variable {ε α β : Type}

/-- The bytes are read as the value, whatever follows them. -/
def Reads (reader : Reader ε α) (bytes : List UInt8) (value : α) : Prop :=
  ∀ rest, reader (bytes ++ rest) = .ok (value, rest)

def fail (error : ε) : Reader ε α := fun _ => .error error

section Basic

variable (invalid : ε)

def take (length : Nat) : Reader ε (List UInt8) := fun input =>
  if length ≤ input.length then .ok (input.take length, input.drop length) else .error invalid

def byte : Reader ε UInt8
  | [] => .error invalid
  | first :: rest => .ok (first, rest)

/-- The argument of a head of the expected major type. -/
def readHead (major : Nat) : Reader ε Nat := do
  let initial ← byte invalid
  if initial.toNat / 32 = major then
    let information := initial.toNat % 32
    if information < 24 then pure information
    else if information < 28 then fromBigEndian <$> take invalid (2 ^ (information - 24))
    else fail invalid
  else fail invalid

/-- A string of any length. -/
def readBlob (major : Nat) : Reader ε (List UInt8) := do
  let length ← readHead invalid major
  take invalid length

/-- Exactly these bytes. -/
def expect (expected : List UInt8) : Reader ε Unit := do
  let bytes ← take invalid expected.length
  if bytes = expected then pure () else fail invalid

/-- A string of a fixed length. -/
def readFixed (major width : Nat) : Reader ε (List UInt8) := do
  let length ← readHead invalid major
  if length = width then take invalid width else fail invalid

end Basic

/-- Items read one after the other. -/
def readMany (reader : Reader ε α) : Nat → Reader ε (List α)
  | 0 => pure []
  | count + 1 => do
    let value ← reader
    let values ← readMany reader count
    pure (value :: values)

/-- A marker byte stands for no value. -/
def optional (marker : UInt8) (reader : Reader ε α) : Reader ε (Option α)
  | first :: rest => if first = marker then .ok (none, rest) else (some <$> reader) (first :: rest)
  | [] => (some <$> reader) []

/-- A check that reads nothing. -/
def check (condition : Bool) (error : ε) : Reader ε Unit := if condition then pure () else fail error

/-- A result that reads nothing. -/
def ofExcept (result : Except ε α) : Reader ε α := fun input => result.map fun value => (value, input)

variable {reader : Reader ε α} {bytes : List UInt8} {next : α → Reader ε β} {result : Except ε α} {marker : UInt8}

namespace Reads

variable {value : α}

theorem pure (value : α) : Reads (ε := ε) (Pure.pure value) [] value := fun _ => rfl

variable {value' : β}

theorem bind {bytes' : List UInt8} (h : Reads reader bytes value)
    (hnext : Reads (next value) bytes' value') : Reads (reader >>= next) (bytes ++ bytes') value' := by
  intro rest
  rw [append_assoc]
  show (reader (bytes ++ (bytes' ++ rest)) >>= fun p => next p.1 p.2) = _
  rw [h]
  exact hnext rest

/-- A reader that takes nothing behind the others. -/
theorem before (h : Reads reader bytes value)
    (hnext : Reads (next value) [] value') : Reads (reader >>= next) bytes value' := by
  have hbind := h.bind hnext
  rwa [append_nil] at hbind

theorem bind_pure {next : α → β} (h : Reads reader bytes value) :
    Reads (reader >>= fun a => Pure.pure (next a)) bytes (next value) := h.before (pure (next value))

/-- A reader that takes nothing in front of the others. -/
theorem after (h : Reads reader [] value) (hnext : Reads (next value) bytes value') :
    Reads (reader >>= next) bytes value' := by
  have hbind := h.bind hnext
  rwa [nil_append] at hbind

theorem map (f : α → β) (h : Reads reader bytes value) : Reads (f <$> reader) bytes (f value) := by
  intro rest
  show (reader (bytes ++ rest) >>= fun p => Except.ok (f p.1, p.2)) = _
  rw [h]
  rfl

theorem check {condition : Bool} (error : ε) (h : condition = true) : Reads (check condition error) [] () := by
  intro rest
  rw [Cbor.check, if_pos h]
  rfl

theorem ofExcept (h : result = .ok value) : Reads (ofExcept result) [] value := by
  intro rest
  rw [Cbor.ofExcept, h]
  rfl

theorem take (invalid : ε) (bytes : List UInt8) : Reads (take invalid bytes.length) bytes bytes := by
  intro rest
  rw [Cbor.take, if_pos (by rw [length_append]; omega), take_left, drop_left]

theorem byte (invalid : ε) (first : UInt8) : Reads (byte invalid) [first] first := fun _ => rfl

variable {major information : Nat}

/-- A head is read by its first byte. -/
theorem initial (invalid : ε) (hmajor : major < 8) (hinformation : information < 32)
    (h : Reads (if information < 24 then Pure.pure information
      else if information < 28 then fromBigEndian <$> Cbor.take invalid (2 ^ (information - 24)) else fail invalid) bytes argument) :
    Reads (readHead invalid major) (UInt8.ofNat (32 * major + information) :: bytes) argument := by
  have hinitial : (UInt8.ofNat (32 * major + information)).toNat = 32 * major + information := by
    rw [UInt8.toNat_ofNat']
    omega
  refine (byte invalid _).bind (?_ : Reads _ bytes argument)
  rw [hinitial, Nat.mul_add_div (by decide), Nat.mul_add_mod, Nat.div_eq_of_lt hinformation,
    Nat.mod_eq_of_lt hinformation, if_pos (Nat.add_zero _)]
  exact h

theorem longHead (invalid : ε) (hmajor : major < 8)
    (hinformation : 24 ≤ information ∧ information < 28) (hwidth : width = 2 ^ (information - 24))
    (hargument : argument < 256 ^ width) :
    Reads (readHead invalid major) (UInt8.ofNat (32 * major + information) :: bigEndian width argument) argument := by
  refine initial invalid hmajor (by omega) ?_
  rw [if_neg (by omega), if_pos hinformation.2]
  have hread := (take invalid (bigEndian width argument)).map fromBigEndian
  rw [fromBigEndian_bigEndian hargument, length_bigEndian, hwidth] at hread
  rw [hwidth]
  exact hread

theorem head (invalid : ε) (hmajor : major < 8) (hargument : argument < 2 ^ 64) :
    Reads (readHead invalid major) (head major argument) argument := by
  unfold Cbor.head
  split_ifs with h24
  · refine initial invalid hmajor (by omega) ?_
    rw [if_pos h24]
    exact pure argument
  all_goals exact longHead invalid hmajor ⟨by decide, by decide⟩ rfl (by omega)

theorem blob (invalid : ε) (hmajor : major < 8) (hlength : bytes.length < 2 ^ 64) :
    Reads (readBlob invalid major) (blob major bytes) bytes :=
  (head invalid hmajor hlength).bind (take invalid bytes)

theorem fixed (invalid : ε) (hmajor : major < 8) (hwidth : width < 2 ^ 64)
    (hlength : bytes.length = width) : Reads (readFixed invalid major width) (Cbor.blob major bytes) bytes := by
  subst hlength
  refine (head invalid hmajor hwidth).bind ?_
  rw [if_pos rfl]
  exact take invalid bytes

theorem expect (invalid : ε) (expected : List UInt8) : Reads (expect invalid expected) expected () := by
  refine (take invalid expected).before ?_
  rw [if_pos rfl]
  exact pure ()

theorem none (marker : UInt8) (reader : Reader ε α) : Reads (optional marker reader) [marker] none := by
  intro rest
  rw [singleton_append, optional, if_pos rfl]

theorem some {first : UInt8} {tail : List UInt8} (hne : first ≠ marker) (h : Reads reader (first :: tail) value) :
    Reads (optional marker reader) (first :: tail) (some value) := by
  intro rest
  rw [cons_append, optional, if_neg hne]
  exact h.map Option.some rest

/-- Items that are each read are read one after the other. -/
theorem many {encode : α → List UInt8} : ∀ {values : List α}, (∀ a ∈ values, Reads reader (encode a) a) →
    Reads (readMany reader values.length) (values.flatMap encode) values
  | [], _ => pure []
  | a :: values, h => by
    obtain ⟨hhead, htail⟩ := forall_mem_cons.mp h
    rw [flatMap_cons]
    exact hhead.bind (many htail).bind_pure

end Reads

variable {a : α}

/-- Encodings that are read are told apart. -/
theorem Reads.injective {b : α} (ha : Reads reader bytes a) (hb : Reads reader bytes b) : a = b := by
  have hread := ha []
  rw [hb []] at hread
  exact (congrArg Prod.fst (Except.ok.inj hread)).symm

/-! ## What a reader can refuse with -/

/-- Whatever the input, an error of the reader is one of these. -/
def Errors (errors : ε → Prop) (reader : Reader ε α) : Prop := ∀ input e, reader input = .error e → errors e

namespace Errors

variable {errors : ε → Prop} {invalid : ε}

theorem pure (a : α) : Errors errors (Pure.pure a) := by
  intro input e h
  cases h

theorem bind (h : Errors errors reader) (hnext : ∀ a, Errors errors (next a)) :
    Errors errors (reader >>= next) := by
  intro input e herror
  have hread : (reader input >>= fun p => next p.1 p.2) = .error e := herror
  cases hresult : reader input with
  | error e' =>
    rw [hresult] at hread
    cases hread
    exact h input e hresult
  | ok p =>
    rw [hresult] at hread
    exact hnext p.1 p.2 e hread

theorem map (f : α → β) (h : Errors errors reader) : Errors errors (f <$> reader) :=
  h.bind fun a => pure (f a)

theorem fail {e : ε} (h : errors e) : Errors errors (fail e : Reader ε α) := by
  intro input e' herror
  cases herror
  exact h

theorem ofExcept (h : ∀ e, result = .error e → errors e) : Errors errors (ofExcept result) := by
  intro input e herror
  cases result with
  | error e' =>
    cases herror
    exact h e rfl
  | ok a => cases herror

section

variable (h : errors invalid)

include h

theorem take (length : Nat) : Errors errors (take invalid length) := by
  intro input e herror
  unfold Cbor.take at herror
  split_ifs at herror
  cases herror
  exact h

theorem byte : Errors errors (byte invalid) := by
  intro input e herror
  cases input with
  | nil =>
    cases herror
    exact h
  | cons first rest => cases herror

theorem readHead (major : Nat) : Errors errors (readHead invalid major) := by
  refine (byte h).bind fun initial => ?_
  dsimp only
  split_ifs
  · exact pure _
  · exact (take h _).map _
  · exact fail h
  · exact fail h

theorem readBlob (major : Nat) : Errors errors (readBlob invalid major) :=
  (readHead h major).bind fun length => take h length

theorem expect (expected : List UInt8) : Errors errors (expect invalid expected) := by
  refine (take h _).bind fun bytes => ?_
  split_ifs
  · exact pure ()
  · exact fail h

end

theorem optional (h : Errors errors reader) : Errors errors (optional marker reader) := by
  intro input e herror
  cases input with
  | nil => exact h.map some [] e herror
  | cons first rest =>
    rw [Cbor.optional] at herror
    split_ifs at herror
    exact h.map some (first :: rest) e herror

theorem readMany (h : Errors errors reader) : ∀ count, Errors errors (readMany reader count)
  | 0 => pure []
  | count + 1 => h.bind fun a => (readMany h count).bind fun values => pure (a :: values)

end Errors

/-! ## What a reader can give back -/

/-- Whatever the input, a value of the reader is one of these. -/
def Yields (values : α → Prop) (reader : Reader ε α) : Prop := ∀ input a rest, reader input = .ok (a, rest) → values a

namespace Yields

variable {values : α → Prop} {values' : β → Prop}

theorem any (reader : Reader ε α) : Yields (fun _ => True) reader := fun _ _ _ _ => trivial

theorem pure (h : values a) : Yields (ε := ε) values (Pure.pure a) := by
  intro input a' rest hread
  cases hread
  exact h

theorem fail (error : ε) : Yields values (fail error) := by
  intro input a rest hread
  cases hread

theorem ofExcept (h : ∀ a, result = .ok a → values a) : Yields values (ofExcept result) := by
  intro input a rest hread
  cases result with
  | error e => cases hread
  | ok a' =>
    cases hread
    exact h a rfl

theorem bind (h : Yields values reader)
    (hnext : ∀ a, values a → Yields values' (next a)) : Yields values' (reader >>= next) := by
  intro input b rest hread
  have hbind : (reader input >>= fun p => next p.1 p.2) = .ok (b, rest) := hread
  cases hresult : reader input with
  | error e =>
    rw [hresult] at hbind
    cases hbind
  | ok p =>
    rw [hresult] at hbind
    exact hnext p.1 (h input p.1 p.2 hresult) p.2 b rest hbind

/-- What the first reader gives back does not matter. -/
theorem after (hnext : ∀ a, Yields values' (next a)) :
    Yields values' (reader >>= next) := (any reader).bind fun a _ => hnext a

end Yields

end Cbor
