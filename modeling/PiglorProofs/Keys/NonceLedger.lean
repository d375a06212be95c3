/-
The nonce ledger of subject keys (`pos-crypto` subject_nonce_ledger.rs): the next counter of each use of
each key, as strictly ordered rows in one canonical CBOR artifact, and the reservation of a counter.
-/
import Mathlib.Data.List.GetD
import PiglorProofs.Core.FallbackCodec
import PiglorProofs.Keys.Registry
import PiglorProofs.Lib.StrictCbor
import PiglorProofs.Store.State

namespace Piglor.NonceLedger

open Cbor Checked
open Authority (textBytes)
open MemoryStore (subjectOwner)

/-! ## Owners -/

inductive SubjectKeyWrapErrorV1 where
  | invalidField (ordinal : Nat)
deriving DecidableEq

def subjectOwnerBytes : Nat := 40

/-- `char::to_digit(16)`. -/
def hexDigit (c : Char) : Option Nat :=
  if '0' ≤ c ∧ c ≤ '9' then some (c.toNat - '0'.toNat)
  else if 'a' ≤ c ∧ c ≤ 'f' then some (c.toNat - 'a'.toNat + 10)
  else if 'A' ≤ c ∧ c ≤ 'F' then some (c.toNat - 'A'.toNat + 10)
  else none

/-- `u128::from_str_radix(_, 16)`, which lets one sign `+` stand in front of the digits. -/
def u128OfHex (text : List Char) : Option Ulid :=
  let digits := if text.head? = some '+' then text.tail else text
  if digits = [] then none
  else do
    let value ← digits.foldlM (fun value c => do
      let digit ← hexDigit c
      if 16 * value + digit < 2 ^ 128 then some (16 * value + digit) else none) 0
    some (BitVec.ofNat 128 value)

def parseSubjectOwnerId (owner : String) : Except SubjectKeyWrapErrorV1 EntityId :=
  match (owner.toList.dropPrefix? "subject:".toList).bind u128OfHex with
  | some subject =>
    if subject ≠ 0 ∧ subjectOwner ⟨subject⟩ = owner then .ok ⟨subject⟩ else .error (.invalidField 2)
  | none => .error (.invalidField 2)

/-! ## Rows -/

inductive SubjectKeyUseV1 where
  | data
  | bootstrap
deriving DecidableEq

inductive SubjectNonceLedgerErrorV1 where
  | invalidEncoding
  | boundsExceeded
  | invalidRow
  | invalidOrder
  | unsupportedVersion
  | unsupportedPlatform
  | rowMismatch
  | counterExhausted
deriving DecidableEq

instance : StrictError SubjectNonceLedgerErrorV1 := ⟨.invalidEncoding, .boundsExceeded⟩

structure SubjectNonceLedgerRowV1 where
  ownerId : String
  epoch : UInt64
  rootMaterialDigest : Hash
  storeFileId : UInt64 × UInt64
  dataNext : UInt64
  bootstrapNext : UInt64
deriving DecidableEq

def maxSubjectNonceLedgerBytes : Nat := 1048576

def exhaustedSubjectNonceCounter : UInt64 := 0xffffffff + 1

def linuxStoreFileTag : UInt64 := 1

def validateRow (row : SubjectNonceLedgerRowV1) : Except SubjectNonceLedgerErrorV1 Unit :=
  if ¬ (parseSubjectOwnerId row.ownerId).isOk ∨ row.epoch = 0 ∨
      ¬ (1 ≤ row.dataNext ∧ row.dataNext ≤ exhaustedSubjectNonceCounter) ∨
      ¬ (1 ≤ row.bootstrapNext ∧ row.bootstrapNext ≤ exhaustedSubjectNonceCounter) then .error .invalidRow
  else .ok ()

def header (rows : Nat) : List UInt8 := 0x83 :: (blob 2 (textBytes "SNL1") ++ head 0 1 ++ head 4 rows)

def identityBytes (row : SubjectNonceLedgerRowV1) : List UInt8 :=
  blob 3 (textBytes row.ownerId) ++ head 0 KeyRoleV1.subjectDataEncryption.code.toNat ++ head 0 row.epoch.toNat

def appendRow (output : List UInt8) (row : SubjectNonceLedgerRowV1) (identity : List UInt8) : List UInt8 :=
  output ++ 0x87 :: (identity ++ blob 2 (hashBytes row.rootMaterialDigest) ++ 0x83 :: (head 0 linuxStoreFileTag.toNat ++
    head 0 row.storeFileId.1.toNat ++ head 0 row.storeFileId.2.toNat ++ head 0 row.dataNext.toNat ++
    head 0 row.bootstrapNext.toNat))

def readRow : Reader SubjectNonceLedgerErrorV1 SubjectNonceLedgerRowV1 := do
  fixedArray 7
  let ownerId ← text subjectOwnerBytes
  let role ← unsigned
  check (role = KeyRoleV1.subjectDataEncryption.code.toUInt64) .invalidRow
  let epoch ← unsigned
  let digest ← bytes 32
  fixedArray 3
  let tag ← unsigned
  check (tag = linuxStoreFileTag) .unsupportedPlatform
  let device ← unsigned
  let inode ← unsigned
  let dataNext ← unsigned
  let bootstrapNext ← unsigned
  pure ⟨ownerId, epoch, hashOfBytes digest, (device, inode), dataNext, bootstrapNext⟩

/-! ## Ledgers -/

structure SubjectNonceLedgerV1 where
  rows : List SubjectNonceLedgerRowV1
  bytes : List UInt8

/-- The loop of `new`, after some rows. -/
def SubjectNonceLedgerV1.newAfter (validated : List SubjectNonceLedgerRowV1) (encodedRows : List UInt8)
    (previous : Option (List UInt8)) :
    List SubjectNonceLedgerRowV1 → Except SubjectNonceLedgerErrorV1 SubjectNonceLedgerV1
  | [] => .ok ⟨validated, header validated.length ++ encodedRows⟩
  | row :: rows => do
    validateRow row
    let identity := identityBytes row
    refuseIf (previous.any fun last => decide (¬ last < identity)) .invalidOrder
    let encodedRows := appendRow encodedRows row identity
    refuseIf (maxSubjectNonceLedgerBytes < (header (validated.length + 1)).length + encodedRows.length) .boundsExceeded
    SubjectNonceLedgerV1.newAfter (validated ++ [row]) encodedRows (some identity) rows

def SubjectNonceLedgerV1.new : List SubjectNonceLedgerRowV1 → Except SubjectNonceLedgerErrorV1 SubjectNonceLedgerV1 :=
  newAfter [] [] none

/-- The framing of `from_bytes`. -/
def readRows : Reader SubjectNonceLedgerErrorV1 (List SubjectNonceLedgerRowV1) := do
  fixedArray 3
  let magic ← bytes 4
  check (magic = textBytes "SNL1") .invalidEncoding
  let version ← unsigned
  check (version = 1) .unsupportedVersion
  let count ← array maxSubjectNonceLedgerBytes
  let rows ← readMany readRow count
  finish
  pure rows

def SubjectNonceLedgerV1.fromBytes (bytes : List UInt8) : Except SubjectNonceLedgerErrorV1 SubjectNonceLedgerV1 := do
  refuseIf (maxSubjectNonceLedgerBytes < bytes.length) .boundsExceeded
  let read ← readRows bytes
  new read.1

namespace SubjectNonceLedgerRowV1

/-- The next counter of a use. -/
def next (row : SubjectNonceLedgerRowV1) : SubjectKeyUseV1 → UInt64
  | .data => row.dataNext
  | .bootstrap => row.bootstrapNext

/-- The row with the counter of a use advanced. -/
def advance (row : SubjectNonceLedgerRowV1) : SubjectKeyUseV1 → SubjectNonceLedgerRowV1
  | .data => { row with dataNext := row.dataNext + 1 }
  | .bootstrap => { row with bootstrapNext := row.bootstrapNext + 1 }

end SubjectNonceLedgerRowV1

def SubjectNonceLedgerV1.advanceCounter (ledger : SubjectNonceLedgerV1) (expected : SubjectNonceLedgerRowV1)
    (keyUse : SubjectKeyUseV1) : Except SubjectNonceLedgerErrorV1 SubjectNonceLedgerV1 :=
  match ledger.rows.findIdx? (fun row => row = expected) with
  | none => .error .rowMismatch
  | some index => do
    refuseIf ((ledger.rows.getD index expected).next keyUse = exhaustedSubjectNonceCounter) .counterExhausted
    new (ledger.rows.modify index fun row => row.advance keyUse)

/-! ## The artifact -/

open List
open SubjectNonceLedgerV1 (new newAfter fromBytes)

variable {rows : List SubjectNonceLedgerRowV1} {row expected : SubjectNonceLedgerRowV1}
  {ledger ledger' : SubjectNonceLedgerV1} {keyUse : SubjectKeyUseV1}
  {nonce : String × UInt64 × SubjectKeyUseV1 × UInt64} {bytes : List UInt8}

theorem hashBytes_hashOfBytes (h : bytes.length = 32) : hashBytes (hashOfBytes bytes) = bytes := by
  have hlt := fromBigEndian_lt bytes
  rw [h] at hlt
  rw [hashBytes, beBytes_eq_bigEndian, hashOfBytes, BitVec.toNat_ofNat, Nat.mod_eq_of_lt (by exact hlt), ← h,
    bigEndian_fromBigEndian]

variable {input rest : List UInt8}

/-- A row is read exactly from its own bytes, its owner within the bound. -/
theorem readRow_eq_ok : readRow input = .ok (row, rest) ↔
    row.ownerId.utf8ByteSize ≤ subjectOwnerBytes ∧ input = appendRow [] row (identityBytes row) ++ rest := by
  simp only [readRow, readBind_eq_ok, pure_eq_ok, check_eq_ok, unsigned_eq_ok, fixedArray_eq_ok (by decide : 7 < 2 ^ 64),
    fixedArray_eq_ok (by decide : 3 < 2 ^ 64), bytes_eq_ok (by decide : 32 < 2 ^ 64),
    text_eq_ok (by decide : subjectOwnerBytes < 2 ^ 64), decide_eq_true_eq, existsAndEq, and_true, true_and, exists_const]
  constructor
  · rintro ⟨owner, epoch, digest, device, inode, data, bootstrap, rfl, howner, hdigest, rfl⟩
    simp only [appendRow, identityBytes, hashBytes_hashOfBytes hdigest, append_assoc, cons_append, nil_append]
    exact ⟨howner, rfl⟩
  · rintro ⟨howner, rfl⟩
    simp only [appendRow, identityBytes, append_assoc, cons_append, nil_append]
    exact ⟨_, _, _, _, _, _, _, rfl, howner, length_hashBytes _, by rw [hashOfBytes_hashBytes]⟩

/-- The rows of an artifact, one after the other. -/
def encodeRows (rows : List SubjectNonceLedgerRowV1) : List UInt8 :=
  rows.flatMap fun row => appendRow [] row (identityBytes row)

/-- The rows are read exactly from their own artifact. -/
theorem readRows_eq_ok : readRows input = .ok (rows, rest) ↔
    rows.length ≤ maxSubjectNonceLedgerBytes ∧ (∀ row ∈ rows, row.ownerId.utf8ByteSize ≤ subjectOwnerBytes) ∧
      input = header rows.length ++ encodeRows rows ∧ rest = [] := by
  simp only [readRows, readBind_eq_ok, pure_eq_ok, check_eq_ok, unsigned_eq_ok, fixedArray_eq_ok (by decide : 3 < 2 ^ 64),
    bytes_eq_ok (by decide : 4 < 2 ^ 64), array_eq_ok (by decide : maxSubjectNonceLedgerBytes < 2 ^ 64),
    readMany_eq_ok readRow_eq_ok, finish_eq_ok, decide_eq_true_eq, existsAndEq, and_true, true_and, exists_const,
    append_nil]
  constructor
  · rintro ⟨rfl, -, hcount, howners, rfl⟩
    simp only [header, append_assoc, cons_append]
    exact ⟨hcount, howners, rfl, trivial⟩
  · rintro ⟨hcount, howners, rfl, rfl⟩
    simp only [header, append_assoc, cons_append]
    exact ⟨rfl, rfl, hcount, howners, trivial⟩

theorem utf8ByteSize_ofList_map {f : Nat → Char} (h : ∀ i, (f i).utf8Size = 1) (l : List Nat) :
    (String.ofList (l.map f)).utf8ByteSize = l.length := by
  rw [String.utf8ByteSize_ofList]
  induction l with
  | nil => rfl
  | cons i l ih => rw [map_cons, String.utf8Len_cons, ih, h, length_cons]

theorem utf8ByteSize_subjectOwner (entity : EntityId) : (subjectOwner entity).utf8ByteSize = subjectOwnerBytes := by
  have hdigit : ∀ d < 16, (Nat.digitChar d).utf8Size = 1 := by decide
  rw [subjectOwner, String.utf8ByteSize_append, utf8ByteSize_ofList_map fun i => hdigit _ (Nat.mod_lt _ (by decide))]
  rfl

/-- The owner of a valid row is a subject's. -/
theorem utf8ByteSize_ownerId (h : validateRow row = .ok ()) : row.ownerId.utf8ByteSize ≤ subjectOwnerBytes := by
  have howner : (parseSubjectOwnerId row.ownerId).isOk := by
    by_contra hparse
    rw [validateRow, if_pos (.inl hparse)] at h
    cases h
  unfold parseSubjectOwnerId at howner
  split at howner
  · split at howner
    next hparsed => rw [← hparsed.2, utf8ByteSize_subjectOwner]
    next => cases howner
  · cases howner

theorem next_le_exhausted (h : validateRow row = .ok ()) (keyUse : SubjectKeyUseV1) :
    row.next keyUse ≤ exhaustedSubjectNonceCounter := by
  obtain ⟨-, -, hdata, hbootstrap⟩ : _ ∧ _ ∧ _ ∧ _ := by
    simpa only [validateRow, ite_eq_right_iff, reduceCtorEq, imp_false, not_or, not_not] using h
  cases keyUse
  · exact hdata.2
  · exact hbootstrap.2

/-- What `new` has made sure of. -/
structure Accepts (rows : List SubjectNonceLedgerRowV1) (ledger : SubjectNonceLedgerV1) : Prop where
  eq : ledger = ⟨rows, header rows.length ++ encodeRows rows⟩
  size : ledger.bytes.length ≤ maxSubjectNonceLedgerBytes
  valid : ∀ row ∈ rows, validateRow row = .ok ()
  ascending : (rows.map identityBytes).Pairwise (· < ·)

theorem newAfter_ok : ∀ {rows validated : List SubjectNonceLedgerRowV1} {previous : Option (List UInt8)},
    newAfter validated (encodeRows validated) previous rows = .ok ledger →
    (header validated.length ++ encodeRows validated).length ≤ maxSubjectNonceLedgerBytes →
      ledger = ⟨validated ++ rows, header (validated ++ rows).length ++ encodeRows (validated ++ rows)⟩ ∧
      ledger.bytes.length ≤ maxSubjectNonceLedgerBytes ∧ (∀ row ∈ rows, validateRow row = .ok ()) ∧
      (previous.toList ++ rows.map identityBytes).IsChain (· < ·)
  | [], validated, previous, h, hsize => by
    cases h
    rw [append_nil]
    refine ⟨rfl, hsize, forall_mem_nil _, ?_⟩
    cases previous <;> simp
  | row :: rows, validated, previous, h, hsize => by
    obtain ⟨⟨⟩, hvalid, h⟩ := bind_eq_ok.mp h
    obtain ⟨⟨⟩, horder, h⟩ := bind_eq_ok.mp h
    obtain ⟨⟨⟩, hbound, h⟩ := bind_eq_ok.mp h
    have happend : appendRow (encodeRows validated) row (identityBytes row) = encodeRows (validated ++ [row]) := by
      simp [encodeRows, appendRow]
    rw [happend] at hbound h
    obtain ⟨hledger, hbytes, hrows, hchain⟩ := newAfter_ok h (by simpa [refuseIf_eq_ok] using hbound)
    rw [append_assoc] at hledger
    refine ⟨hledger, hbytes, forall_mem_cons.mpr ⟨hvalid, hrows⟩, ?_⟩
    cases previous with
    | none => exact hchain
    | some last => exact .cons_cons (by simpa [refuseIf_eq_ok] using horder) hchain

theorem new_ok (h : new rows = .ok ledger) : Accepts rows ledger := by
  obtain ⟨heq, hsize, hvalid, hchain⟩ := newAfter_ok (show newAfter [] (encodeRows []) none rows = .ok ledger from h)
    (by decide)
  exact ⟨heq, hsize, hvalid, isChain_iff_pairwise.mp hchain⟩

theorem length_le_encodeRows (rows : List SubjectNonceLedgerRowV1) : rows.length ≤ (encodeRows rows).length := by
  induction rows with
  | nil => exact Nat.zero_le _
  | cons row rows ih =>
    simp only [encodeRows, flatMap_cons, appendRow, length_append, length_cons] at ih ⊢
    omega

theorem fromBytes_bytes (h : new rows = .ok ledger) : fromBytes ledger.bytes = .ok ledger := by
  have haccepts := new_ok h
  have hsize := haccepts.size
  obtain rfl := haccepts.eq
  have hcount := length_le_encodeRows rows
  have hread := readRows_eq_ok.mpr ⟨by rw [length_append] at hsize; omega,
    fun row hrow => utf8ByteSize_ownerId (haccepts.valid row hrow), rfl, rfl⟩
  rw [fromBytes, refuseIf_neg (Nat.not_lt.mpr hsize), ok_bind, hread, ok_bind, h]

theorem bytes_of_fromBytes (h : fromBytes bytes = .ok ledger) :
    ledger.bytes = bytes := by
  obtain ⟨-, -, h⟩ := bind_eq_ok.mp h
  obtain ⟨⟨rows, rest⟩, hread, hnew⟩ := bind_eq_ok.mp h
  obtain ⟨-, -, rfl, -⟩ := readRows_eq_ok.mp hread
  rw [(new_ok hnew).eq]

/-! ## Reservations -/

/-- The later row is the same but for its counters, which are not lower. -/
structure Grows (row row' : SubjectNonceLedgerRowV1) : Prop where
  ownerId : row'.ownerId = row.ownerId
  epoch : row'.epoch = row.epoch
  rootMaterialDigest : row'.rootMaterialDigest = row.rootMaterialDigest
  storeFileId : row'.storeFileId = row.storeFileId
  next : ∀ keyUse, row.next keyUse ≤ row'.next keyUse

theorem Grows.refl (row : SubjectNonceLedgerRowV1) : Grows row row := ⟨rfl, rfl, rfl, rfl, fun _ => UInt64.le_refl _⟩

theorem Grows.trans {a b c : SubjectNonceLedgerRowV1} (h : Grows a b) (h' : Grows b c) : Grows a c :=
  ⟨h'.ownerId.trans h.ownerId, h'.epoch.trans h.epoch, h'.rootMaterialDigest.trans h.rootMaterialDigest,
    h'.storeFileId.trans h.storeFileId, fun keyUse => UInt64.le_trans (h.next keyUse) (h'.next keyUse)⟩

theorem lt_next_advance (h : row.next keyUse < exhaustedSubjectNonceCounter) :
    row.next keyUse < (row.advance keyUse).next keyUse := by
  have hnext : (row.advance keyUse).next keyUse = row.next keyUse + 1 := by cases keyUse <;> rfl
  have hlt : (row.next keyUse).toNat < 2 ^ 32 := h
  rw [hnext, UInt64.lt_iff_toNat_lt, UInt64.toNat_add, UInt64.toNat_one, Nat.mod_eq_of_lt (by omega)]
  omega

theorem Grows.advance (h : row.next keyUse < exhaustedSubjectNonceCounter) : Grows row (row.advance keyUse) := by
  have hnext := UInt64.le_of_lt (lt_next_advance h)
  cases keyUse
  all_goals
    refine ⟨rfl, rfl, rfl, rfl, fun other => ?_⟩
    cases other
    all_goals first
      | exact hnext
      | exact UInt64.le_refl _

/-- Exactly the expected row has exactly its counter of the use advanced by one. -/
structure Advances (ledger : SubjectNonceLedgerV1) (expected : SubjectNonceLedgerRowV1) (keyUse : SubjectKeyUseV1)
    (ledger' : SubjectNonceLedgerV1) : Prop where
  usable : expected.next keyUse < exhaustedSubjectNonceCounter
  rows : ∃ before after, ledger.rows = before ++ expected :: after ∧
    ledger'.rows = before ++ expected.advance keyUse :: after

/-- A reservation advances one counter, and its ledger is again one that `new` accepts. -/
theorem advanceCounter_ok (hnew : new rows = .ok ledger) (h : ledger.advanceCounter expected keyUse = .ok ledger') :
    Advances ledger expected keyUse ledger' ∧ ∃ rows', new rows' = .ok ledger' := by
  have haccepts := new_ok hnew
  obtain rfl := haccepts.eq
  unfold SubjectNonceLedgerV1.advanceCounter at h
  split at h
  · cases h
  · next index hindex =>
    obtain ⟨hlt, hrow, -⟩ := findIdx?_eq_some_iff_getElem.mp hindex
    obtain rfl := of_decide_eq_true hrow
    obtain ⟨⟨⟩, hcounter, h⟩ := bind_eq_ok.mp h
    rw [getD_eq_getElem _ _ hlt, refuseIf_eq_ok] at hcounter
    refine ⟨⟨UInt64.lt_of_le_of_ne (next_le_exhausted (haccepts.valid _ (getElem_mem hlt)) keyUse) hcounter,
      rows.take index, rows.drop (index + 1), ?_, ?_⟩, _, h⟩
    · rw [getElem_cons_drop, take_append_drop]
    · rw [(new_ok h).eq, modify_eq_take_cons_drop hlt]

theorem Advances.grows (h : Advances ledger expected keyUse ledger') (hrow : row ∈ ledger.rows) :
    ∃ row' ∈ ledger'.rows, Grows row row' := by
  obtain ⟨husable, before, after, hrows, hrows'⟩ := h
  simp only [hrows, hrows', mem_append, mem_cons] at hrow ⊢
  rcases hrow with hrow | rfl | hrow
  · exact ⟨row, .inl hrow, .refl row⟩
  · exact ⟨_, .inr (.inl rfl), .advance husable⟩
  · exact ⟨row, .inr (.inr hrow), .refl row⟩

/-- What a reservation consumes. -/
def consumed (step : SubjectNonceLedgerRowV1 × SubjectKeyUseV1) : String × UInt64 × SubjectKeyUseV1 × UInt64 :=
  (step.1.ownerId, step.1.epoch, step.2, step.1.next step.2)

/-- The counter has been consumed: its row stands beyond it. -/
def Spent (ledger : SubjectNonceLedgerV1) (nonce : String × UInt64 × SubjectKeyUseV1 × UInt64) : Prop :=
  ∃ row ∈ ledger.rows, row.ownerId = nonce.1 ∧ row.epoch = nonce.2.1 ∧ nonce.2.2.2 < row.next nonce.2.2.1

theorem Advances.spent (h : Advances ledger expected keyUse ledger') : Spent ledger' (consumed (expected, keyUse)) := by
  obtain ⟨husable, before, after, -, hrows'⟩ := h
  have hgrows := Grows.advance husable
  exact ⟨expected.advance keyUse, by simp [hrows'], hgrows.ownerId, hgrows.epoch, lt_next_advance husable⟩

theorem Spent.advances (hspent : Spent ledger nonce) (h : Advances ledger expected keyUse ledger') :
    Spent ledger' nonce := by
  obtain ⟨row, hrow, howner, hepoch, hlt⟩ := hspent
  obtain ⟨row', hrow', hgrow⟩ := h.grows hrow
  exact ⟨row', hrow', hgrow.ownerId.trans howner, hgrow.epoch.trans hepoch, UInt64.lt_of_lt_of_le hlt (hgrow.next _)⟩

/-- A spent counter is not consumed again: no other row has its identity. -/
theorem Spent.ne (hspent : Spent ledger nonce) (hnew : new rows = .ok ledger)
    (h : Advances ledger expected keyUse ledger') : nonce ≠ consumed (expected, keyUse) := by
  rintro rfl
  obtain ⟨row, hrow, howner, hepoch, hlt⟩ := hspent
  obtain ⟨-, before, after, hrows, -⟩ := h
  have haccepts := new_ok hnew
  obtain rfl := haccepts.eq
  have hnodup : (rows.map identityBytes).Nodup :=
    haccepts.ascending.imp (S := (· ≠ ·)) fun h heq => List.lt_irrefl _ (heq ▸ h)
  have hidentity : identityBytes row = identityBytes expected := by rw [identityBytes, identityBytes, howner, hepoch]; rfl
  have hexpected : expected ∈ rows := (show rows = _ from hrows) ▸ mem_append_right _ mem_cons_self
  obtain rfl := inj_on_of_nodup_map hnodup hrow hexpected hidentity
  exact UInt64.lt_irrefl _ hlt

/-- Reservations one after the other, each on the ledger of the last. -/
def advanceAll (ledger : SubjectNonceLedgerV1) (steps : List (SubjectNonceLedgerRowV1 × SubjectKeyUseV1)) :
    Except SubjectNonceLedgerErrorV1 SubjectNonceLedgerV1 :=
  steps.foldlM (fun ledger step => ledger.advanceCounter step.1 step.2) ledger

theorem advanceAll_ok : ∀ {steps rows ledger}, new rows = .ok ledger → advanceAll ledger steps = .ok ledger' →
    (∃ rows', new rows' = .ok ledger') ∧ (∀ row ∈ ledger.rows, ∃ row' ∈ ledger'.rows, Grows row row') ∧
      (steps.map consumed).Nodup ∧ ∀ nonce, Spent ledger nonce → nonce ∉ steps.map consumed
  | [], rows, ledger, hnew, h => by
    cases h
    exact ⟨⟨rows, hnew⟩, fun row hrow => ⟨row, hrow, .refl row⟩, nodup_nil, fun _ _ => not_mem_nil⟩
  | (expected, keyUse) :: steps, rows, ledger, hnew, h => by
    obtain ⟨middle, hstep, h⟩ := bind_eq_ok.mp h
    obtain ⟨hadvances, rows', hnew'⟩ := advanceCounter_ok hnew hstep
    obtain ⟨hlast, hgrows, hnodup, hfresh⟩ := advanceAll_ok hnew' h
    refine ⟨hlast, fun row hrow => ?_, nodup_cons.mpr ⟨hfresh _ hadvances.spent, hnodup⟩, fun nonce hspent => ?_⟩
    · obtain ⟨row', hrow', hgrow⟩ := hadvances.grows hrow
      obtain ⟨row'', hrow'', hgrow'⟩ := hgrows row' hrow'
      exact ⟨row'', hrow'', hgrow.trans hgrow'⟩
    · rw [map_cons, mem_cons, not_or]
      exact ⟨hspent.ne hnew hadvances, hfresh nonce (hspent.advances hadvances)⟩

/-- The artifact of every ledger is read back, and every artifact read is that of its ledger. Over every chain of
reservations no nonce is consumed twice and no row loses a counter; the identities ascend, the counters lie within the
sentinel, and one more reservation advances one counter of one row and changes nothing else. -/
theorem nonceLedger_canonical_fresh :
    (∀ rows ledger, new rows = .ok ledger → fromBytes ledger.bytes = .ok ledger) ∧
    (∀ bytes ledger, fromBytes bytes = .ok ledger → ledger.bytes = bytes) ∧
    ∀ rows first steps last, new rows = .ok first → advanceAll first steps = .ok last →
      (steps.map consumed).Nodup ∧ (∀ row ∈ first.rows, ∃ row' ∈ last.rows, Grows row row') ∧
      (∀ row ∈ last.rows, ∀ keyUse, (row.next keyUse).toNat ≤ 2 ^ 32) ∧
      (last.rows.map identityBytes).Pairwise (· < ·) ∧
      ∀ expected keyUse next, last.advanceCounter expected keyUse = .ok next → Advances last expected keyUse next := by
  refine ⟨fun _ _ => fromBytes_bytes, fun _ _ => bytes_of_fromBytes, fun rows first steps last hnew h => ?_⟩
  obtain ⟨⟨rows', hlast⟩, hgrows, hnodup, -⟩ := advanceAll_ok hnew h
  have haccepts := new_ok hlast
  obtain rfl := haccepts.eq
  exact ⟨hnodup, hgrows, fun row hrow keyUse => next_le_exhausted (haccepts.valid row hrow) keyUse, haccepts.ascending,
    fun _ _ _ hnext => (advanceCounter_ok hlast hnext).1⟩

/-- The first row of a subject. -/
def mintedRow : SubjectNonceLedgerRowV1 := ⟨"subject:0000000000000000000000000000002a", 1, 5, (64, 300), 1, 1⟩

/-- Two data counters of it are reserved one after the other. -/
theorem mintedRow_fresh : ∃ first last next, new [mintedRow] = .ok first ∧ advanceAll first [(mintedRow, .data)] = .ok last ∧
    last.advanceCounter { mintedRow with dataNext := 2 } .data = .ok next ∧ next.rows = [{ mintedRow with dataNext := 3 }] ∧
    fromBytes first.bytes = .ok first ∧ Advances last { mintedRow with dataNext := 2 } .data next := by
  have hrun : (do
      let first ← new [mintedRow]
      let last ← advanceAll first [(mintedRow, .data)]
      last.advanceCounter { mintedRow with dataNext := 2 } .data).map SubjectNonceLedgerV1.rows =
        .ok [{ mintedRow with dataNext := 3 }] := by
    decide +kernel
  obtain ⟨next, hrun, hrows⟩ := map_eq_ok.mp hrun
  obtain ⟨first, hfirst, hrun⟩ := bind_eq_ok.mp hrun
  obtain ⟨last, hlast, hnext⟩ := bind_eq_ok.mp hrun
  exact ⟨first, last, next, hfirst, hlast, hnext, hrows, nonceLedger_canonical_fresh.1 _ _ hfirst,
    (nonceLedger_canonical_fresh.2.2 _ _ _ _ hfirst hlast).2.2.2.2 _ _ _ hnext⟩

end Piglor.NonceLedger
