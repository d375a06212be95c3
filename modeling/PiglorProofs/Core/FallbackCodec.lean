/-
The preferred CBOR forms of the composition fallback records (pos-core composition_fallback.rs,
policy.rs, payload.rs). A decoder bounds its input, reads it with the constructors' own checks and then
compares the value's one encoding with the input. BLAKE3 is a parameter.
-/
import PiglorProofs.Core.Fallback
import PiglorProofs.Core.Wire
import PiglorProofs.Authority.Evaluation

namespace Piglor

open Cbor (Reader Reads Errors)
open Authority (textBytes underDomain)

variable {maximum : Nat} {bytes : CanonicalBytes}

namespace Fallback

/-! ## Field readers -/

abbrev RecordReader := Reader FallbackRecordErrorV1

def writeText (text : String) : CanonicalBytes := Cbor.blob 3 (textBytes text)

def readText : RecordReader String := do
  let bytes ← Cbor.readBlob .invalidEncoding 3
  match String.fromUTF8? ⟨bytes.toArray⟩ with
  | some text => pure text
  | none => Cbor.fail .invalidEncoding

def writeOptionalHash : Option Hash → CanonicalBytes
  | some hash => encodeHash hash
  | none => [0xf6]

def readRecordHash : RecordReader Hash := do
  let bytes ← Cbor.readBlob .invalidEncoding 2
  if bytes.length = 32 then pure (hashOfBytes bytes) else Cbor.fail .invalidEncoding

def readOptionalHash : RecordReader (Option Hash) := Cbor.optional 0xf6 readRecordHash

/-- A code of a closed set; a value past a byte is no code. -/
def readLookup {α : Type} (decode : Nat → Option α) (field : FallbackFieldV1) : RecordReader α := do
  let value ← Cbor.readHead .invalidEncoding 0
  match decode (if value < 256 then value else 255) with
  | some a => pure a
  | none => Cbor.fail (.invalidField field)

/-- A list of a bounded number of items. -/
def readList {α : Type} (maximum : Nat) (field : FallbackFieldV1) (item : RecordReader α) : RecordReader (List α) := do
  let count ← Cbor.readHead .invalidEncoding 4
  Cbor.ofExcept (require (decide (count ≤ maximum)) field)
  Cbor.readMany item count

def writeList {α : Type} (write : α → CanonicalBytes) (items : List α) : CanonicalBytes :=
  Cbor.head 4 items.length ++ items.flatMap write

theorem length_textBytes (text : String) : (textBytes text).length = text.utf8ByteSize := Array.length_toList

theorem fromUTF8_textBytes (text : String) : String.fromUTF8? ⟨(textBytes text).toArray⟩ = some text := by
  rw [textBytes, Array.toArray_toList]
  exact dif_pos text.isValidUTF8

variable {text : String}

theorem reads_text (h : text.utf8ByteSize < 2 ^ 64) : Reads readText (writeText text) text := by
  refine (Reads.blob FallbackRecordErrorV1.invalidEncoding (by decide : 3 < 8) (by rwa [length_textBytes])).before ?_
  rw [fromUTF8_textBytes]
  exact Reads.pure text

variable {α : Type}

theorem length_writeText_le (h : textWithin text maximum = true) (hmax : maximum < 256) :
    (writeText text).length ≤ maximum + 2 := by
  have hsize : text.utf8ByteSize ≤ maximum := of_decide_eq_true (Bool.and_eq_true_iff.mp h).2
  have hhead := Cbor.length_head_of_lt_256 3 (by rw [length_textBytes]; omega : (textBytes text).length < 256)
  rw [writeText, Cbor.blob, List.length_append, length_textBytes] at *
  omega

theorem utf8ByteSize_lt (h : textWithin text maximum = true) (hmax : maximum < 2 ^ 64) : text.utf8ByteSize < 2 ^ 64 :=
  lt_of_le_of_lt (of_decide_eq_true (Bool.and_eq_true_iff.mp h).2) hmax

theorem reads_recordHash (hash : Hash) : Reads readRecordHash (encodeHash hash) hash := by
  have hlength : (hashBytes hash).length < 2 ^ 64 := by rw [length_hashBytes]; decide
  refine (Reads.blob FallbackRecordErrorV1.invalidEncoding (by decide : 2 < 8) hlength).before ?_
  rw [if_pos (length_hashBytes hash), hashOfBytes_hashBytes]
  exact Reads.pure hash

theorem reads_optionalHash : ∀ hash : Option Hash, Reads readOptionalHash (writeOptionalHash hash) hash
  | none => Reads.none _ _
  | some hash => by
    have hread := reads_recordHash hash
    rw [encodeHash, Cbor.blob, length_hashBytes] at hread
    rw [writeOptionalHash, encodeHash, Cbor.blob, length_hashBytes]
    -- the head of a 32-byte string is no null
    exact Reads.some (by decide) hread

theorem length_writeOptionalHash_le (hash : Option Hash) : (writeOptionalHash hash).length ≤ 34 := by
  cases hash with
  | none => decide
  | some hash => rw [writeOptionalHash, length_encodeHash]

theorem reads_lookup {decode : Nat → Option α} {code : Nat} {a : α} (field : FallbackFieldV1) (hcode : code < 256)
    (h : decode code = some a) : Reads (readLookup decode field) (Cbor.head 0 code) a := by
  refine (Reads.head FallbackRecordErrorV1.invalidEncoding (by decide : 0 < 8) (by omega : code < 2 ^ 64)).before ?_
  rw [if_pos hcode, h]
  exact Reads.pure a

variable {write : α → CanonicalBytes} {items : List α}

theorem reads_list {item : RecordReader α} (field : FallbackFieldV1)
    (hmax : maximum < 2 ^ 64) (hlength : items.length ≤ maximum) (hitems : ∀ a ∈ items, Reads item (write a) a) :
    Reads (readList maximum field item) (writeList write items) items := by
  refine (Reads.head FallbackRecordErrorV1.invalidEncoding (by decide : 4 < 8) (by omega)).bind ?_
  have hcount : require (decide (items.length ≤ maximum)) field = .ok () := by rw [require, decide_eq_true hlength]; rfl
  exact (Reads.ofExcept hcount).after (Reads.many hitems)

theorem length_flatMap_le {size : Nat} :
    ∀ {items : List α}, (∀ a ∈ items, (write a).length ≤ size) → (items.flatMap write).length ≤ items.length * size
  | [], _ => Nat.zero_le _
  | a :: items, h => by
    obtain ⟨hhead, htail⟩ := List.forall_mem_cons.mp h
    have ih := length_flatMap_le htail
    rw [List.flatMap_cons, List.length_append, List.length_cons, Nat.succ_mul]
    omega

theorem length_writeList_le {size width : Nat} (hhead : (Cbor.head 4 items.length).length ≤ width)
    (hlength : items.length ≤ maximum) (hitems : ∀ a ∈ items, (write a).length ≤ size) :
    (writeList write items).length ≤ width + maximum * size := by
  have hbytes := length_flatMap_le hitems
  have hcount := Nat.mul_le_mul_right size hlength
  rw [writeList, List.length_append]
  omega

variable {errors : FallbackRecordErrorV1 → Prop}

section

variable (hencoding : errors .invalidEncoding)
include hencoding

theorem errors_text : Errors errors readText := by
  refine (Errors.readBlob hencoding 3).bind fun bytes => ?_
  split
  · exact Errors.pure _
  · exact Errors.fail hencoding

theorem errors_recordHash : Errors errors readRecordHash := by
  refine (Errors.readBlob hencoding 2).bind fun bytes => ?_
  split_ifs
  · exact Errors.pure _
  · exact Errors.fail hencoding

variable {field : FallbackFieldV1}

theorem errors_lookup {α : Type} {decode : Nat → Option α} (hfield : errors (.invalidField field)) :
    Errors errors (readLookup decode field) := by
  refine (Errors.readHead hencoding 0).bind fun value => ?_
  split
  · exact Errors.pure _
  · exact Errors.fail hfield

theorem errors_list {α : Type} {item : RecordReader α}
    (hfield : errors (.invalidField field)) (hitem : Errors errors item) : Errors errors (readList maximum field item) := by
  refine (Errors.readHead hencoding 4).bind fun count => (Errors.ofExcept ?_).bind fun _ => hitem.readMany count
  intro e h
  unfold require at h
  split_ifs at h
  cases h
  exact hfield

end

/-- `Reader::open`, the reader and `Reader::finish`. -/
def decodeRecord {α : Type} (maximum : Nat) (reader : RecordReader α) (write : α → CanonicalBytes)
    (bytes : CanonicalBytes) : Except FallbackRecordErrorV1 α :=
  if maximum < bytes.length then .error .tooLarge
  else do
    let (value, rest) ← reader bytes
    if rest = [] ∧ write value = bytes then .ok value else .error .nonCanonical

variable {reader : RecordReader α} {value : α}

theorem decodeRecord_write (hread : Reads reader (write value) value) (hlength : (write value).length ≤ maximum) :
    decodeRecord maximum reader write (write value) = .ok value := by
  have hbytes := hread []
  rw [List.append_nil] at hbytes
  rw [decodeRecord, if_neg (Nat.not_lt.mpr hlength), hbytes, Checked.ok_bind]
  exact if_pos ⟨rfl, rfl⟩

/-- What is decoded is the encoding of its value, which the reader gave back. -/
theorem decodeRecord_eq_ok
    (h : decodeRecord maximum reader write bytes = .ok value) : write value = bytes ∧ reader bytes = .ok (value, []) := by
  unfold decodeRecord at h
  split_ifs at h
  obtain ⟨⟨value', rest⟩, hread, h⟩ := Checked.bind_eq_ok.mp h
  dsimp only at h
  split at h
  · rename_i hfinish
    cases h
    obtain ⟨rfl, hwrite⟩ := hfinish
    exact ⟨hwrite, hread⟩
  · cases h

theorem decodeRecord_errors
    (hlarge : errors .tooLarge) (hcanonical : errors .nonCanonical) (hreader : Errors errors reader)
    {e : FallbackRecordErrorV1} (h : decodeRecord maximum reader write bytes = .error e) :
    errors e := by
  unfold decodeRecord at h
  split at h
  · cases h
    exact hlarge
  rcases Checked.bind_eq_error.mp h with h | ⟨⟨value, rest⟩, -, h⟩
  · exact hreader bytes e h
  · dsimp only at h
    split_ifs at h
    cases h
    exact hcanonical

end Fallback

open Fallback Cbor List FallbackRecordErrorV1

/-! ## Codes -/

/-- The value of a closed set with a code. -/
def Fallback.ofCode {α : Type} (all : List α) (code : α → Nat) (value : Nat) : Option α :=
  all.find? fun a => code a == value

def FallbackTriggerCodeV1.all : List FallbackTriggerCodeV1 :=
  [.missingImplementation, .componentTrap, .resourceLimit, .artifactRevoked, .workerCrashed]

theorem FallbackTriggerCodeV1.ofCode_code (trigger : FallbackTriggerCodeV1) :
    ofCode all code trigger.code = some trigger := by cases trigger <;> rfl

theorem FallbackTriggerCodeV1.code_lt (trigger : FallbackTriggerCodeV1) : trigger.code < 24 := by
  cases trigger <;> decide

def FallbackActivationModeV1.all : List FallbackActivationModeV1 := [.automatic, .manual]

def FallbackActivationModeV1.code : FallbackActivationModeV1 → Nat
  | .automatic => 0
  | .manual => 1

theorem FallbackActivationModeV1.ofCode_code (mode : FallbackActivationModeV1) :
    ofCode all code mode.code = some mode := by cases mode <;> rfl

def FallbackActivationOriginV1.all : List FallbackActivationOriginV1 := [.automatic, .owner]

def FallbackActivationOriginV1.code : FallbackActivationOriginV1 → Nat
  | .automatic => 0
  | .owner => 1

theorem FallbackActivationOriginV1.ofCode_code (origin : FallbackActivationOriginV1) :
    ofCode all code origin.code = some origin := by cases origin <;> rfl

theorem FallbackActivationOriginV1.code_lt (origin : FallbackActivationOriginV1) : origin.code < 24 := by
  cases origin <;> decide

def FallbackSkipReasonV1.all : List FallbackSkipReasonV1 :=
  [.releaseNotCurrent, .factsMismatch, .sourceUnavailable, .memberBuildFailed, .prepareRefused, .swapRefused]

def FallbackSkipReasonV1.code : FallbackSkipReasonV1 → Nat
  | .releaseNotCurrent => 1
  | .factsMismatch => 2
  | .sourceUnavailable => 3
  | .memberBuildFailed => 4
  | .prepareRefused => 5
  | .swapRefused => 6

theorem FallbackSkipReasonV1.ofCode_code (reason : FallbackSkipReasonV1) :
    ofCode all code reason.code = some reason := by cases reason <;> rfl

theorem FallbackSkipReasonV1.code_lt (reason : FallbackSkipReasonV1) : reason.code < 24 := by
  cases reason <;> decide

/-! ## Implementations and pins -/

namespace ImplementationKeyV1

def header : List UInt8 := [0x85, 0x44, 0x49, 0x4d, 0x4b, 0x31, 0x01]

def new (pluginId version : String) (releaseDigest : Hash) : Except FallbackRecordErrorV1 ImplementationKeyV1 :=
  if hplugin : textWithin pluginId 128 then
    if hversion : textWithin version 64 then
      .ok ⟨pluginId, version, releaseDigest, by rw [hplugin, hversion]; rfl⟩
    else .error (.invalidField .version)
  else .error (.invalidField .pluginId)

def write (key : ImplementationKeyV1) : CanonicalBytes :=
  header ++ (writeText key.pluginId ++ (writeText key.version ++ encodeHash key.releaseDigest))

def read : RecordReader ImplementationKeyV1 := do
  Cbor.expect .invalidEncoding header
  let pluginId ← readText
  let version ← readText
  let releaseDigest ← readRecordHash
  Cbor.ofExcept (new pluginId version releaseDigest)

def fromCanonicalCbor (bytes : CanonicalBytes) : Except FallbackRecordErrorV1 ImplementationKeyV1 :=
  decodeRecord 237 read write bytes

def digest (blake3 : ByteHash) (key : ImplementationKeyV1) : Hash :=
  underDomain blake3 "PiglorOS.Composition.ImplementationKey.v1" key.write

section

variable (key : ImplementationKeyV1)

theorem pluginId_within : textWithin key.pluginId 128 = true :=
  (Bool.and_eq_true_iff.mp key.valid).1

theorem version_within : textWithin key.version 64 = true :=
  (Bool.and_eq_true_iff.mp key.valid).2

theorem new_eq : new key.pluginId key.version key.releaseDigest = .ok key := by
  rw [new, dif_pos key.pluginId_within, dif_pos key.version_within]

theorem reads_write : Reads read key.write key :=
  (Reads.expect invalidEncoding header).bind <|
    (reads_text (utf8ByteSize_lt key.pluginId_within (by decide))).bind <|
    (reads_text (utf8ByteSize_lt key.version_within (by decide))).bind <|
    (reads_recordHash key.releaseDigest).before <| Reads.ofExcept key.new_eq

theorem length_write_le : key.write.length ≤ 237 := by
  have hplugin := length_writeText_le key.pluginId_within (by decide)
  have hversion := length_writeText_le key.version_within (by decide)
  rw [write, length_append, length_append, length_append, length_encodeHash]
  have hheader : header.length = 7 := rfl
  omega

theorem fromCanonicalCbor_write : fromCanonicalCbor key.write = .ok key :=
  decodeRecord_write key.reads_write key.length_write_le

end

theorem write_injective {key key' : ImplementationKeyV1} (h : key.write = key'.write) : key = key' :=
  key.reads_write.injective (h ▸ key'.reads_write)

end ImplementationKeyV1

namespace CompositionPinV1

def header : List UInt8 := [0x84, 0x44, 0x50, 0x50, 0x4e, 0x31, 0x01]

def new (implementation : ImplementationKeyV1) (roles : List String) : Except FallbackRecordErrorV1 CompositionPinV1 :=
  if hroles : validRoles roles then .ok ⟨implementation, roles, hroles⟩ else .error (.invalidField .roles)

def write (pin : CompositionPinV1) : CanonicalBytes :=
  header ++ (pin.implementation.write ++ writeList writeText pin.roles)

def read : RecordReader CompositionPinV1 := do
  Cbor.expect .invalidEncoding header
  let implementation ← ImplementationKeyV1.read
  let roles ← readList 16 .roles readText
  Cbor.ofExcept (new implementation roles)

def fromCanonicalCbor (bytes : CanonicalBytes) : Except FallbackRecordErrorV1 CompositionPinV1 :=
  decodeRecord 1301 read write bytes

variable (pin : CompositionPinV1)

theorem roles_within : pin.roles.length ≤ 16 ∧ ∀ role ∈ pin.roles, textWithin role 64 = true := by
  have hvalid := pin.valid
  simp only [validRoles, Bool.and_eq_true, decide_eq_true_iff, all_eq_true] at hvalid
  exact ⟨hvalid.1.1.2, hvalid.2⟩

theorem reads_write : Reads read pin.write pin := by
  obtain ⟨hlength, hroles⟩ := pin.roles_within
  have hnew : new pin.implementation pin.roles = .ok pin := dif_pos pin.valid
  exact (Reads.expect invalidEncoding header).bind <| pin.implementation.reads_write.bind <|
    (reads_list .roles (by decide) hlength fun role hrole =>
      reads_text (utf8ByteSize_lt (hroles role hrole) (by decide))).before <| Reads.ofExcept hnew

theorem length_write_le : pin.write.length ≤ 1301 := by
  obtain ⟨hlength, hroles⟩ := pin.roles_within
  have himplementation := pin.implementation.length_write_le
  -- sixteen roles are counted in the first byte
  have hlist : (writeList writeText pin.roles).length ≤ 1 + 16 * 66 :=
    length_writeList_le (length_head_of_lt 4 (by omega)).le hlength fun role hrole =>
      length_writeText_le (hroles role hrole) (by decide)
  have hheader : header.length = 7 := rfl
  rw [write, length_append, length_append]
  omega

end CompositionPinV1

/-! ## Policies -/

namespace FallbackEntryV1

def new (entryKey : String) (primary : CompositionPinV1) (candidates : List CompositionPinV1)
    (triggers : List FallbackTriggerCodeV1) (activationMode : FallbackActivationModeV1) :
    Except FallbackRecordErrorV1 FallbackEntryV1 :=
  if hkey : validEntryKey entryKey then
    if hcandidates : 1 ≤ candidates.length ∧ candidates.length ≤ 2 then
      if htriggers : validTriggers triggers then
        if hdistinct : ((primary :: candidates).map CompositionPinV1.pluginId).Nodup then
          .ok ⟨entryKey, primary, candidates, triggers, activationMode, by
            rw [hkey, htriggers, decide_eq_true hcandidates, decide_eq_true hdistinct]; rfl⟩
        else .error (.invalidField .distinctness)
      else .error (.invalidField .triggers)
    else .error (.invalidField .candidates)
  else .error (.invalidField .entryKey)

def write (entry : FallbackEntryV1) : CanonicalBytes :=
  [0x85] ++ (writeText entry.entryKey ++ (entry.primary.write ++ (writeList CompositionPinV1.write entry.candidates ++
    (writeList (fun trigger => Cbor.head 0 trigger.code) entry.triggers ++ Cbor.head 0 entry.activationMode.code))))

def read : RecordReader FallbackEntryV1 := do
  Cbor.expect .invalidEncoding [0x85]
  let entryKey ← readText
  let primary ← CompositionPinV1.read
  let candidates ← readList 2 .candidates CompositionPinV1.read
  let triggers ← readList 5 .triggers
    (readLookup (ofCode FallbackTriggerCodeV1.all FallbackTriggerCodeV1.code) .triggers)
  let mode ← readLookup (ofCode FallbackActivationModeV1.all FallbackActivationModeV1.code) .activationMode
  Cbor.ofExcept (new entryKey primary candidates triggers mode)

variable (entry : FallbackEntryV1)

theorem checks : (textWithin entry.entryKey 64 = true ∧ entry.candidates.length ≤ 2) ∧ entry.triggers.length ≤ 5 ∧
    new entry.entryKey entry.primary entry.candidates entry.triggers entry.activationMode = .ok entry := by
  have hvalid := entry.valid
  simp only [Bool.and_eq_true, decide_eq_true_iff] at hvalid
  obtain ⟨⟨⟨hkey, hcandidates⟩, htriggers⟩, hdistinct⟩ := hvalid
  refine ⟨⟨(Bool.and_eq_true_iff.mp hkey).1, hcandidates.2⟩, ?_, ?_⟩
  · -- the codes ascend, so no trigger repeats
    have hcodes := of_decide_eq_true (Bool.and_eq_true_iff.mp htriggers).2
    have hnodup : entry.triggers.Nodup := .of_map _ (hcodes.pairwise.imp Nat.ne_of_lt)
    have hall : entry.triggers <+~ FallbackTriggerCodeV1.all :=
      hnodup.subperm fun trigger _ => by cases trigger <;> decide
    exact hall.length_le
  · rw [new, dif_pos hkey, dif_pos hcandidates, dif_pos htriggers, dif_pos hdistinct]

theorem reads_write : Reads read entry.write entry := by
  obtain ⟨⟨hkey, hcandidates⟩, htriggers, hnew⟩ := entry.checks
  have hmode : entry.activationMode.code < 256 := by cases entry.activationMode <;> decide
  exact (Reads.expect invalidEncoding [0x85]).bind <| (reads_text (utf8ByteSize_lt hkey (by decide))).bind <|
    entry.primary.reads_write.bind <|
    (reads_list .candidates (by decide) hcandidates fun pin _ => pin.reads_write).bind <|
    (reads_list .triggers (by decide) htriggers fun trigger _ =>
      reads_lookup .triggers (Nat.lt_trans trigger.code_lt (by decide)) trigger.ofCode_code).bind <|
    (reads_lookup .activationMode hmode entry.activationMode.ofCode_code).before <| Reads.ofExcept hnew

theorem length_write_le : entry.write.length ≤ 4100 := by
  obtain ⟨⟨hkey, hcandidates⟩, htriggers, -⟩ := entry.checks
  have hkey := length_writeText_le hkey (by decide)
  have hprimary := entry.primary.length_write_le
  have hcandidates := length_writeList_le (length_head_le 4 _) hcandidates fun pin _ => pin.length_write_le
  have htriggers := length_writeList_le (length_head_le 4 _) htriggers fun trigger _ => length_head_le 0 trigger.code
  have hmode := length_head_le 0 entry.activationMode.code
  simp only [write, length_append, length_singleton]
  omega

end FallbackEntryV1

namespace DomainFallbackPolicyV1

/-- The bytes behind the array header that the policy and its digest share. -/
def fields (scope : String) (entries : List FallbackEntryV1) (previousPolicyDigest : Option Hash) : CanonicalBytes :=
  [0x44, 0x44, 0x46, 0x50, 0x31, 0x01] ++ (writeText scope ++ (writeList FallbackEntryV1.write entries ++
    writeOptionalHash previousPolicyDigest))

/-- What the policy digest hashes behind its domain. -/
def preimage (scope : String) (entries : List FallbackEntryV1) (previousPolicyDigest : Option Hash) : CanonicalBytes :=
  0x85 :: fields scope entries previousPolicyDigest

def new (blake3 : ByteHash) (scope : String) (entries : List FallbackEntryV1)
    (previousPolicyDigest : Option Hash) : Except FallbackRecordErrorV1 DomainFallbackPolicyV1 :=
  if hscope : textWithin scope 128 then
    if hentries : validEntries entries then
      if hdistinct : distinctPlugins entries then
        .ok ⟨scope, entries, previousPolicyDigest,
          underDomain blake3 "PiglorOS.Composition.FallbackPolicy.v1" (preimage scope entries previousPolicyDigest), by
            rw [hscope, hentries, hdistinct]; rfl⟩
      else .error (.invalidField .distinctness)
    else .error (.invalidField .entries)
  else .error (.invalidField .scope)

def write (policy : DomainFallbackPolicyV1) : CanonicalBytes :=
  [0x86] ++ fields policy.scope policy.entries policy.previousPolicyDigest ++ encodeHash policy.policyDigest

def read (blake3 : ByteHash) : RecordReader DomainFallbackPolicyV1 := do
  Cbor.expect .invalidEncoding [0x86, 0x44, 0x44, 0x46, 0x50, 0x31, 0x01]
  let scope ← readText
  let entries ← readList 32 .entries FallbackEntryV1.read
  let previous ← readOptionalHash
  let policy ← Cbor.ofExcept (new blake3 scope entries previous)
  let digest ← readRecordHash
  if digest = policy.policyDigest then pure policy else Cbor.fail .policyDigestMismatch

def fromCanonicalCbor (blake3 : ByteHash) (bytes : CanonicalBytes) :
    Except FallbackRecordErrorV1 DomainFallbackPolicyV1 := decodeRecord 135168 (read blake3) write bytes

variable {blake3 : ByteHash}

/-- The digest of the policy's own fields. -/
def digestOf (blake3 : ByteHash) (policy : DomainFallbackPolicyV1) : Hash :=
  underDomain blake3 "PiglorOS.Composition.FallbackPolicy.v1"
    (preimage policy.scope policy.entries policy.previousPolicyDigest)

variable {policy : DomainFallbackPolicyV1}

theorem new_digest {scope : String} {entries : List FallbackEntryV1} {previous : Option Hash}
    (h : new blake3 scope entries previous = .ok policy) : policy.policyDigest = policy.digestOf blake3 := by
  unfold new at h
  split_ifs at h
  cases h
  rfl

theorem checks (policy : DomainFallbackPolicyV1) (blake3 : ByteHash) :
    textWithin policy.scope 128 = true ∧ policy.entries.length ≤ 32 ∧
      new blake3 policy.scope policy.entries policy.previousPolicyDigest =
        .ok { policy with policyDigest := policy.digestOf blake3 } := by
  have hvalid := policy.valid
  simp only [Bool.and_eq_true] at hvalid
  obtain ⟨⟨hscope, hentries⟩, hdistinct⟩ := hvalid
  refine ⟨hscope, of_decide_eq_true (Bool.and_eq_true_iff.mp hentries).1, ?_⟩
  rw [new, dif_pos hscope, dif_pos hentries, dif_pos hdistinct]
  rfl

theorem reads_write (hdigest : policy.policyDigest = policy.digestOf blake3) :
    Reads (read blake3) policy.write policy := by
  obtain ⟨hscope, hentries, hnew⟩ := policy.checks blake3
  rw [← hdigest] at hnew
  have hwrite : policy.write = [0x86, 0x44, 0x44, 0x46, 0x50, 0x31, 0x01] ++ (writeText policy.scope ++
      (writeList FallbackEntryV1.write policy.entries ++ (writeOptionalHash policy.previousPolicyDigest ++
        encodeHash policy.policyDigest))) := by simp [write, fields]
  rw [hwrite]
  refine (Reads.expect invalidEncoding _).bind <| (reads_text (utf8ByteSize_lt hscope (by decide))).bind <|
    (reads_list .entries (by decide) hentries fun entry _ => entry.reads_write).bind <|
    (reads_optionalHash policy.previousPolicyDigest).bind <| (Reads.ofExcept hnew).after <|
    (reads_recordHash policy.policyDigest).before ?_
  rw [if_pos rfl]
  exact Reads.pure policy

theorem length_write_le (policy : DomainFallbackPolicyV1) : policy.write.length ≤ 135168 := by
  obtain ⟨hscope, hentries, -⟩ := policy.checks fun _ => 0
  have hscope := length_writeText_le hscope (by decide)
  have hprevious := length_writeOptionalHash_le policy.previousPolicyDigest
  have hitems := length_writeList_le (length_head_le 4 _) hentries fun entry _ => entry.length_write_le
  simp only [write, fields, length_append, length_encodeHash, length_cons, length_nil]
  omega

theorem read_digest : Yields (fun policy => policy.policyDigest = policy.digestOf blake3) (read blake3) := by
  refine .after fun _ => .after fun scope => .after fun entries => .after fun previous => ?_
  refine (Yields.ofExcept fun _ => new_digest).bind fun policy hpolicy => .after fun digest => ?_
  split_ifs
  · exact .pure hpolicy
  · exact .fail _

/-- A decoded policy carries the digest of its fields, and its bytes are its encoding. -/
theorem fromCanonicalCbor_eq_ok (h : fromCanonicalCbor blake3 bytes = .ok policy) :
    policy.policyDigest = policy.digestOf blake3 ∧ policy.write = bytes := by
  obtain ⟨hwrite, hread⟩ := decodeRecord_eq_ok h
  exact ⟨read_digest bytes policy [] hread, hwrite⟩

/-- Only a declaration payload has re-based entries to refuse. -/
def NotRebased (e : FallbackRecordErrorV1) : Prop := e ≠ .invalidField .rebased

instance (e : FallbackRecordErrorV1) : Decidable (NotRebased e) := inferInstanceAs (Decidable (e ≠ _))

theorem errors_implementation : Errors NotRebased ImplementationKeyV1.read := by
  refine (Errors.expect (by decide) _).bind fun _ => (errors_text (by decide)).bind fun _ =>
    (errors_text (by decide)).bind fun _ => (errors_recordHash (by decide)).bind fun _ => Errors.ofExcept ?_
  intro e h
  unfold ImplementationKeyV1.new at h
  split_ifs at h <;> cases h <;> decide

theorem errors_pin : Errors NotRebased CompositionPinV1.read := by
  refine (Errors.expect (by decide) _).bind fun _ => errors_implementation.bind fun _ =>
    (errors_list (by decide) (by decide) (errors_text (by decide))).bind fun _ => Errors.ofExcept ?_
  intro e h
  unfold CompositionPinV1.new at h
  split_ifs at h
  cases h
  decide

theorem errors_entry : Errors NotRebased FallbackEntryV1.read := by
  refine (Errors.expect (by decide) _).bind fun _ => (errors_text (by decide)).bind fun _ => errors_pin.bind fun _ =>
    (errors_list (by decide) (by decide) errors_pin).bind fun _ =>
    (errors_list (by decide) (by decide) (errors_lookup (by decide) (by decide))).bind fun _ =>
    (errors_lookup (by decide) (by decide)).bind fun _ => Errors.ofExcept ?_
  intro e h
  unfold FallbackEntryV1.new at h
  split_ifs at h <;> cases h <;> decide

theorem errors_read : Errors NotRebased (read blake3) := by
  refine (Errors.expect (by decide) _).bind fun _ => (errors_text (by decide)).bind fun _ =>
    (errors_list (by decide) (by decide) errors_entry).bind fun _ =>
    (errors_recordHash (by decide)).optional.bind fun _ => (Errors.ofExcept ?_).bind fun _ =>
    (errors_recordHash (by decide)).bind fun _ => ?_
  · intro e h
    unfold new at h
    split_ifs at h <;> cases h <;> decide
  · split_ifs
    · exact Errors.pure _
    · exact Errors.fail (by decide)

/-- Decoding a policy never refuses re-based entries. -/
theorem fromCanonicalCbor_errors {e : FallbackRecordErrorV1}
    (h : fromCanonicalCbor blake3 bytes = .error e) : e ≠ .invalidField .rebased :=
  decodeRecord_errors (by decide : NotRebased .tooLarge) (by decide) errors_read h

/-- Policies with the same digested fields have the same bytes. -/
theorem write_congr {policy' : DomainFallbackPolicyV1}
    (hfields : preimage policy.scope policy.entries policy.previousPolicyDigest =
      preimage policy'.scope policy'.entries policy'.previousPolicyDigest)
    (hdigest : policy.policyDigest = policy'.policyDigest) : policy.write = policy'.write := by
  rw [write, write, hdigest, (cons.inj hfields).2]

end DomainFallbackPolicyV1

/-! ## Payloads -/

namespace FallbackRebasedEntryV1

def write (entry : FallbackRebasedEntryV1) : CanonicalBytes :=
  [0x82] ++ (writeText entry.entryKey ++ encodeHash entry.implementationDigest)

def read : RecordReader FallbackRebasedEntryV1 := do
  Cbor.expect .invalidEncoding [0x82]
  let entryKey ← readText
  let implementationDigest ← readRecordHash
  Cbor.ofExcept (new entryKey implementationDigest)

variable (entry : FallbackRebasedEntryV1)

theorem key_within : textWithin entry.entryKey 64 = true :=
  (Bool.and_eq_true_iff.mp entry.valid).1

theorem reads_write : Reads read entry.write entry := by
  have hnew : new entry.entryKey entry.implementationDigest = .ok entry := dif_pos entry.valid
  exact (Reads.expect invalidEncoding [0x82]).bind <|
    (reads_text (utf8ByteSize_lt entry.key_within (by decide))).bind <|
    (reads_recordHash entry.implementationDigest).before <| Reads.ofExcept hnew

theorem length_write_le : entry.write.length ≤ 101 := by
  have hkey := length_writeText_le entry.key_within (by decide)
  rw [write, length_append, length_append, length_encodeHash, length_singleton]
  omega

end FallbackRebasedEntryV1

namespace FallbackDeclaredPayloadV1

def write (payload : FallbackDeclaredPayloadV1) : CanonicalBytes :=
  [0x84] ++ (writeText payload.scope ++ (encodeHash payload.policyDigest ++
    (writeOptionalHash payload.previousPolicyDigest ++ writeList FallbackRebasedEntryV1.write payload.rebased)))

def read : RecordReader FallbackDeclaredPayloadV1 := do
  Cbor.expect .invalidEncoding [0x84]
  let scope ← readText
  let policyDigest ← readRecordHash
  let previous ← readOptionalHash
  let rebased ← readList 32 .rebased FallbackRebasedEntryV1.read
  Cbor.ofExcept (new scope policyDigest previous rebased)

def fromCanonicalCbor (bytes : CanonicalBytes) : Except FallbackRecordErrorV1 FallbackDeclaredPayloadV1 :=
  decodeRecord 4096 read write bytes

variable (payload : FallbackDeclaredPayloadV1)

theorem reads_write : Reads read payload.write payload := by
  obtain ⟨hscope, hrebased⟩ := Bool.and_eq_true_iff.mp payload.valid
  have hlength : payload.rebased.length ≤ 32 := of_decide_eq_true (Bool.and_eq_true_iff.mp hrebased).1
  have hnew : new payload.scope payload.policyDigest payload.previousPolicyDigest payload.rebased = .ok payload := by
    rw [new, dif_pos hscope, dif_pos hrebased]
  exact (Reads.expect invalidEncoding [0x84]).bind <|
    (reads_text (utf8ByteSize_lt hscope (by decide))).bind <| (reads_recordHash payload.policyDigest).bind <|
    (reads_optionalHash payload.previousPolicyDigest).bind <|
    (reads_list .rebased (by decide) hlength fun entry _ => entry.reads_write).before <| Reads.ofExcept hnew

theorem length_write_le : payload.write.length ≤ 4096 := by
  obtain ⟨hscope, hrebased⟩ := Bool.and_eq_true_iff.mp payload.valid
  have hlength : payload.rebased.length ≤ 32 := of_decide_eq_true (Bool.and_eq_true_iff.mp hrebased).1
  have hscope := length_writeText_le hscope (by decide)
  have hprevious := length_writeOptionalHash_le payload.previousPolicyDigest
  have hitems := length_writeList_le (length_head_le 4 _) hlength fun entry _ => entry.length_write_le
  simp only [write, length_append, length_encodeHash, length_singleton]
  omega

/-- A declaration payload is decoded from its encoding. -/
theorem fromCanonicalCbor_write : fromCanonicalCbor payload.write = .ok payload :=
  decodeRecord_write payload.reads_write payload.length_write_le

end FallbackDeclaredPayloadV1

namespace FallbackSkippedCandidateV1

def write (skipped : FallbackSkippedCandidateV1) : CanonicalBytes :=
  [0x82] ++ (encodeHash skipped.implementationDigest ++ Cbor.head 0 skipped.reason.code)

def read : RecordReader FallbackSkippedCandidateV1 := do
  Cbor.expect .invalidEncoding [0x82]
  let implementationDigest ← readRecordHash
  let reason ← readLookup (ofCode FallbackSkipReasonV1.all FallbackSkipReasonV1.code) .skipReason
  pure ⟨implementationDigest, reason⟩

theorem reads_write (skipped : FallbackSkippedCandidateV1) : Reads read skipped.write skipped :=
  (Reads.expect invalidEncoding [0x82]).bind <|
    (reads_recordHash skipped.implementationDigest).bind <|
    (reads_lookup .skipReason (Nat.lt_trans skipped.reason.code_lt (by decide)) skipped.reason.ofCode_code).before <|
    Reads.pure skipped

theorem length_write (skipped : FallbackSkippedCandidateV1) : skipped.write.length = 36 := by
  simp only [write, length_append, length_encodeHash, length_singleton,
    length_head_of_lt 0 skipped.reason.code_lt]

end FallbackSkippedCandidateV1

namespace FallbackTriggerBasisV1

/-- Three bytes: the cause and the origin. -/
def write (basis : FallbackTriggerBasisV1) : CanonicalBytes :=
  [0x43] ++ (Cbor.bigEndian 2 basis.cause ++ [UInt8.ofNat basis.origin.code])

def read : RecordReader FallbackTriggerBasisV1 := do
  Cbor.expect .invalidEncoding [0x43]
  let bytes ← Cbor.take .invalidEncoding 3
  match ofCode FallbackActivationOriginV1.all FallbackActivationOriginV1.code (Cbor.fromBigEndian (bytes.drop 2)) with
  | some origin => pure ⟨Cbor.fromBigEndian (bytes.take 2), origin⟩
  | none => Cbor.fail (.invalidField .triggerOrigin)

theorem reads_write {basis : FallbackTriggerBasisV1} (hcause : basis.cause < 2 ^ 16) :
    Reads read basis.write basis := by
  have hlength : (bigEndian 2 basis.cause).length = 2 := length_bigEndian 2 basis.cause
  refine (Reads.expect invalidEncoding [0x43]).bind ?_
  have htake := Reads.take invalidEncoding
    (bigEndian 2 basis.cause ++ [UInt8.ofNat basis.origin.code])
  rw [length_append, hlength] at htake
  refine Reads.before htake ?_
  rw [drop_left' hlength, take_left' hlength, fromBigEndian_bigEndian hcause]
  have horigin : fromBigEndian [UInt8.ofNat basis.origin.code] = basis.origin.code := by
    cases basis.origin <;> rfl
  rw [horigin, basis.origin.ofCode_code]
  exact Reads.pure basis

theorem length_write (basis : FallbackTriggerBasisV1) : basis.write.length = 4 := by
  simp only [write, length_append, length_bigEndian, length_singleton]

end FallbackTriggerBasisV1

/-- The machine integers of the fields are in range. -/
structure FallbackActivatedInputV1.Typed (input : FallbackActivatedInputV1) : Prop where
  closing : input.closingTenureOrdinal < 2 ^ 64
  cause : input.triggerBasis.cause < 2 ^ 16
  ordinal : input.activationOrdinal < 2 ^ 64

namespace FallbackActivatedPayloadV1

def write (payload : FallbackActivatedPayloadV1) : CanonicalBytes :=
  let input := payload.asInput
  [0x8a] ++ (writeText input.scope ++ (encodeHash input.policyDigest ++ (writeText input.entryKey ++
    (Cbor.head 0 input.closingTenureOrdinal ++ (Cbor.blob 2 input.fromKey.write ++ (Cbor.blob 2 input.toKey.write ++
    (writeList FallbackSkippedCandidateV1.write input.skipped ++ (Cbor.head 0 input.triggerCode.code ++
    (input.triggerBasis.write ++ Cbor.head 0 input.activationOrdinal)))))))))

def readImplementationBytes : RecordReader ImplementationKeyV1 := do
  let bytes ← Cbor.readBlob .invalidEncoding 2
  Cbor.ofExcept (ImplementationKeyV1.fromCanonicalCbor bytes)

def read : RecordReader FallbackActivatedPayloadV1 := do
  Cbor.expect .invalidEncoding [0x8a]
  let scope ← readText
  let policyDigest ← readRecordHash
  let entryKey ← readText
  let closingTenureOrdinal ← Cbor.readHead .invalidEncoding 0
  let fromKey ← readImplementationBytes
  let toKey ← readImplementationBytes
  let skipped ← readList 2 .skipped FallbackSkippedCandidateV1.read
  let triggerCode ← readLookup (ofCode FallbackTriggerCodeV1.all FallbackTriggerCodeV1.code) .triggerCode
  let triggerBasis ← FallbackTriggerBasisV1.read
  let activationOrdinal ← Cbor.readHead .invalidEncoding 0
  Cbor.ofExcept (new ⟨scope, policyDigest, entryKey, closingTenureOrdinal, fromKey, toKey, skipped, triggerCode,
    triggerBasis, activationOrdinal⟩)

def fromCanonicalCbor (bytes : CanonicalBytes) : Except FallbackRecordErrorV1 FallbackActivatedPayloadV1 :=
  decodeRecord 4096 read write bytes

theorem reads_implementationBytes (key : ImplementationKeyV1) :
    Reads readImplementationBytes (blob 2 key.write) key := by
  have hlength : key.write.length < 2 ^ 64 := lt_of_le_of_lt key.length_write_le (by decide)
  exact (Reads.blob invalidEncoding (by decide : 2 < 8) hlength).before <|
    Reads.ofExcept key.fromCanonicalCbor_write

variable {payload : FallbackActivatedPayloadV1}

theorem reads_write (h : payload.asInput.Typed) : Reads read payload.write payload := by
  have hvalid := payload.valid
  simp only [Bool.and_eq_true, decide_eq_true_iff] at hvalid
  obtain ⟨⟨⟨hscope, hkey⟩, hskipped⟩, hswitched⟩ := hvalid
  have hwithin : textWithin payload.asInput.entryKey 64 = true := (Bool.and_eq_true_iff.mp hkey).1
  have hnew : new payload.asInput = .ok payload := by
    rw [new, dif_pos hscope, dif_pos hkey, dif_pos hskipped, dif_pos hswitched]
  exact (Reads.expect invalidEncoding [0x8a]).bind <|
    (reads_text (utf8ByteSize_lt hscope (by decide))).bind <| (reads_recordHash payload.asInput.policyDigest).bind <|
    (reads_text (utf8ByteSize_lt hwithin (by decide))).bind <|
    (Reads.head _ (by decide : 0 < 8) h.closing).bind <| (reads_implementationBytes payload.asInput.fromKey).bind <|
    (reads_implementationBytes payload.asInput.toKey).bind <|
    (reads_list .skipped (by decide) hskipped fun skipped _ => skipped.reads_write).bind <|
    (reads_lookup .triggerCode (Nat.lt_trans payload.asInput.triggerCode.code_lt (by decide))
      payload.asInput.triggerCode.ofCode_code).bind <|
    (FallbackTriggerBasisV1.reads_write h.cause).bind <|
    (Reads.head _ (by decide : 0 < 8) h.ordinal).before <| Reads.ofExcept hnew

theorem length_write_le (payload : FallbackActivatedPayloadV1) : payload.write.length ≤ 4096 := by
  have hvalid := payload.valid
  simp only [Bool.and_eq_true, decide_eq_true_iff] at hvalid
  obtain ⟨⟨⟨hscope, hkey⟩, hskipped⟩, -⟩ := hvalid
  have hscope := length_writeText_le hscope (by decide)
  have hkey := length_writeText_le (Bool.and_eq_true_iff.mp hkey).1 (by decide)
  have hclosing := length_head_le 0 payload.asInput.closingTenureOrdinal
  have hordinal := length_head_le 0 payload.asInput.activationOrdinal
  have hfrom := payload.asInput.fromKey.length_write_le
  have hto := payload.asInput.toKey.length_write_le
  have hfromHead := length_head_le 2 payload.asInput.fromKey.write.length
  have htoHead := length_head_le 2 payload.asInput.toKey.write.length
  have hitems := length_writeList_le (length_head_le 4 _) hskipped fun skipped _ => skipped.length_write.le
  have htrigger := length_head_le 0 payload.asInput.triggerCode.code
  simp only [write, blob, length_append, length_encodeHash, length_singleton,
    FallbackTriggerBasisV1.length_write]
  omega

/-- An activation payload of machine integers is decoded from its encoding. -/
theorem fromCanonicalCbor_write (h : payload.asInput.Typed) :
    fromCanonicalCbor payload.write = .ok payload := decodeRecord_write (reads_write h) payload.length_write_le

end FallbackActivatedPayloadV1

/-! ## One encoding -/

/-- A record format: what its constructor accepts is written within a bound and read back, and nothing else
is read. -/
structure OneEncoding {α : Type} (accepted : α → Prop) (maximum : Nat) (write : α → CanonicalBytes)
    (decode : CanonicalBytes → Except FallbackRecordErrorV1 α) : Prop where
  bounded : ∀ {value}, accepted value → (write value).length ≤ maximum
  decodes : ∀ {value}, accepted value → decode (write value) = .ok value
  canonical : ∀ {bytes value}, decode bytes = .ok value → write value = bytes

theorem OneEncoding.of_reads {α : Type} {accepted : α → Prop} {write : α → CanonicalBytes}
    {reader : RecordReader α} (hreads : ∀ {value}, accepted value → Reads reader (write value) value)
    (hlength : ∀ value, (write value).length ≤ maximum) :
    OneEncoding accepted maximum write (decodeRecord maximum reader write) where
  bounded _ := hlength _
  decodes h := decodeRecord_write (hreads h) (hlength _)
  canonical h := (decodeRecord_eq_ok h).1

/-- Keys, pins, policies and both payloads: whatever the constructors accept has one encoding. -/
theorem fallback_records_have_one_encoding (blake3 : ByteHash) :
    OneEncoding (fun key => ∃ pluginId version digest, ImplementationKeyV1.new pluginId version digest = .ok key) 237
      ImplementationKeyV1.write ImplementationKeyV1.fromCanonicalCbor ∧
    OneEncoding (fun pin => ∃ implementation roles, CompositionPinV1.new implementation roles = .ok pin) 1301
      CompositionPinV1.write CompositionPinV1.fromCanonicalCbor ∧
    OneEncoding (fun policy => ∃ scope entries previous,
        DomainFallbackPolicyV1.new blake3 scope entries previous = .ok policy) 135168
      DomainFallbackPolicyV1.write (DomainFallbackPolicyV1.fromCanonicalCbor blake3) ∧
    OneEncoding (fun payload => ∃ scope digest previous rebased,
        FallbackDeclaredPayloadV1.new scope digest previous rebased = .ok payload) 4096
      FallbackDeclaredPayloadV1.write FallbackDeclaredPayloadV1.fromCanonicalCbor ∧
    OneEncoding (fun payload => ∃ input, input.Typed ∧ FallbackActivatedPayloadV1.new input = .ok payload) 4096
      FallbackActivatedPayloadV1.write FallbackActivatedPayloadV1.fromCanonicalCbor := by
  refine ⟨.of_reads (fun _ => ImplementationKeyV1.reads_write _) ImplementationKeyV1.length_write_le,
    .of_reads (fun _ => CompositionPinV1.reads_write _) CompositionPinV1.length_write_le,
    .of_reads ?_ DomainFallbackPolicyV1.length_write_le,
    .of_reads (fun _ => FallbackDeclaredPayloadV1.reads_write _) FallbackDeclaredPayloadV1.length_write_le,
    .of_reads ?_ FallbackActivatedPayloadV1.length_write_le⟩
  · rintro policy ⟨scope, entries, previous, hnew⟩
    exact DomainFallbackPolicyV1.reads_write (DomainFallbackPolicyV1.new_digest hnew)
  · rintro payload ⟨input, htyped, hnew⟩
    unfold FallbackActivatedPayloadV1.new at hnew
    split_ifs at hnew
    cases hnew
    exact FallbackActivatedPayloadV1.reads_write htyped

end Piglor
