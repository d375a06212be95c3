/-
The kernel's data model (`pos-core`: ids, clock, crypto, event, timeline, error, hasher, and the key
registry's identities). `u64` values are `Nat`; every checked operation of the source compares with
`u64Max`. `Seq::next` is `+ 1`: a `Vec` of Events cannot reach `u64::MAX` elements, so its wrap is
out of reach.
-/
import Mathlib.Algebra.Ring.Nat
import Mathlib.Data.List.Sort

namespace Piglor

/-- `u64::MAX`. -/
def u64Max : Nat := 2 ^ 64 - 1

/-- `u64::checked_add`. -/
def checkedAdd (a b : Nat) : Option Nat := if a + b ≤ u64Max then some (a + b) else none

/-- `u64::checked_sub`. -/
def checkedSub (a b : Nat) : Option Nat := if b ≤ a then some (a - b) else none

/-- `u64::saturating_add`. -/
def saturatingAdd (a b : Nat) : Nat := min (a + b) u64Max

/-! ## Identifiers -/

abbrev Ulid := BitVec 128

/-- A text with the ids it prints left as ids: their text form is the `ulid` crate's. -/
abbrev Message := List (String ⊕ Ulid)

instance : Coe String Message := ⟨fun text => [.inl text]⟩

structure EntityId where
  ulid : Ulid
deriving DecidableEq

structure EventId where
  ulid : Ulid
deriving DecidableEq

structure TimelineId where
  ulid : Ulid
deriving DecidableEq

structure CorrelationId where
  ulid : Ulid
deriving DecidableEq

def TimelineId.display (t : TimelineId) : Message := [.inr t.ulid]

def EventId.display (e : EventId) : Message := [.inr e.ulid]

/-! ## Time, bytes and keys -/

/-- A Lamport sequence number. -/
abbrev Seq := Nat

/-- Microseconds since the Unix epoch. -/
abbrev WallTime := Nat

abbrev CanonicalBytes := List UInt8

/-- A namespaced Event type. -/
abbrev Kind := String

/-- A 32-byte digest. -/
abbrev Hash := BitVec 256

abbrev ByteHash := List UInt8 → Hash

/-- A number as big-endian bytes. -/
def beBytes (width n : Nat) : List UInt8 := (List.range width).map fun i => UInt8.ofNat (n / 256 ^ (width - 1 - i))

def hashBytes (hash : Hash) : List UInt8 := beBytes 32 hash.toNat

/-- A 64-byte signature. -/
abbrev Signature := BitVec 512

/-- A 32-byte verification key. -/
abbrev PublicKey := BitVec 256

inductive KeyRoleV1 where
  | subjectDataEncryption
  | subjectAttributionSigning
  | timelineIntegritySigning
  | pluginReleaseSigning
  | exportRecipientEncryption
  | conformanceEvaluatorSigning
  | conformanceReportSigning
deriving DecidableEq

/-- An owner identifier: between 1 and 128 UTF-8 bytes, compared exactly. -/
structure OwnerIdV1 where
  text : String
  valid : 1 ≤ text.utf8ByteSize ∧ text.utf8ByteSize ≤ 128
deriving DecidableEq

structure KeyIdentityV1 where
  ownerId : OwnerIdV1
  role : KeyRoleV1
  epoch : Nat
deriving DecidableEq

/-! ## Events -/

/-- The sole schema marker. -/
inductive SchemaVersion where
  | v1
deriving DecidableEq

/-- Where an Event was first committed. -/
structure EventOriginV1 where
  originTimelineId : TimelineId
  originLogicalSeq : Seq
deriving DecidableEq

structure Event where
  id : EventId
  entity : EntityId
  eventType : Kind
  payload : CanonicalBytes
  wallTime : WallTime
  seq : Seq
  causationId : Option EventId
  correlationId : Option CorrelationId
  schemaVersion : SchemaVersion
  signature : Option Signature
  signatureIdentity : Option KeyIdentityV1
  origin : Option EventOriginV1
  payloadHash : Hash
deriving DecidableEq

/-- An unsigned draft; `wallTime` overrides the clock when present. -/
structure EventDraft where
  entity : EntityId
  eventType : Kind
  payload : CanonicalBytes
  causationId : Option EventId
  correlationId : Option CorrelationId
  schemaVersion : SchemaVersion
  wallTime : Option WallTime
deriving DecidableEq

def EventDraft.new (entity : EntityId) (eventType : Kind) (payload : CanonicalBytes) : EventDraft :=
  ⟨entity, eventType, payload, none, none, .v1, none⟩

/-- Protected geographic evidence. -/
def isGeographicEventType (kind : Kind) : Bool := kind == "geo.location" || kind == "geo.cell"

/-- Gateway-owned consent Events. -/
def isConsentEventType (kind : Kind) : Bool := "consent.".toList.isPrefixOf kind.toList

/-! ## Timelines -/

inductive TimelineMode where
  | historical
  | live
  | future
deriving DecidableEq

structure TimelineMeta where
  id : TimelineId
  mode : TimelineMode
  name : Option String
  owner : Option EntityId
  forkPoint : Option (TimelineId × Seq)
deriving DecidableEq

/-- `TimelineMeta::root` with the id it draws. -/
def TimelineMeta.root (id : TimelineId) (name : String) : TimelineMeta :=
  ⟨id, .live, some name, none, none⟩

/-- `TimelineMeta::forked_from` with the id it draws. -/
def TimelineMeta.forkedFrom (id parent : TimelineId) (atSeq : Seq) (name : String) : TimelineMeta :=
  ⟨id, .historical, some name, none, some (parent, atSeq)⟩

/-- `TimelineMeta::forked_from_owned` with the id it draws. -/
def TimelineMeta.forkedFromOwned (id parent : TimelineId) (atSeq : Seq) (name : String) (owner : EntityId) :
    TimelineMeta :=
  ⟨id, .historical, some name, some owner, some (parent, atSeq)⟩

/-- A Timeline handle; `head` is the local sequence of its latest own Event. -/
structure Timeline where
  metadata : TimelineMeta
  head : Seq
deriving DecidableEq

def Timeline.new (metadata : TimelineMeta) : Timeline := ⟨metadata, 0⟩

def Timeline.id (t : Timeline) : TimelineId := t.metadata.id

/-- The Events inherited from the fork parent, counted. -/
def TimelineMeta.prefixLen (m : TimelineMeta) : Nat := (m.forkPoint.map Prod.snd).getD 0

/-- A logical range; `hi` is inclusive, and absent when unbounded. -/
structure SeqRange where
  lo : Seq
  hi : Option Seq

def SeqRange.all : SeqRange := ⟨0, none⟩

def SeqRange.fromSeq (lo : Seq) : SeqRange := ⟨lo, none⟩

def SeqRange.contains (r : SeqRange) (seq : Seq) : Bool :=
  decide (r.lo ≤ seq) && r.hi.all (fun hi => decide (seq ≤ hi))

/-! ## Retry identities -/

/-- A 32-byte keyed hash of an external idempotency key. -/
structure AppendDedupKey where
  bytes : BitVec 256

/-- Keys are compared as byte strings, that is, as big-endian numbers. -/
instance : LinearOrder AppendDedupKey :=
  LinearOrder.lift' (fun k : AppendDedupKey => k.bytes.toNat) (by
    rintro ⟨a⟩ ⟨b⟩ h
    exact congrArg _ (BitVec.eq_of_toNat_eq h))

/-- The subject scope a retry record is cleaned up with. -/
structure AppendDedupScope where
  bytes : BitVec 256
deriving DecidableEq

structure AppendIdentity where
  dedupKey : AppendDedupKey
  scope : AppendDedupScope
deriving DecidableEq

/-- Seven days. -/
def appendIdentityRetentionMicros : Nat := 7 * 24 * 60 * 60 * 1000000

/-- What a bounded purge reports. -/
structure PurgeOutcome where
  removed : Nat
  moreMayRemain : Bool

/-! ## Errors and the hasher port -/

inductive CoreError where
  | timelineNotFound (id : TimelineId)
  | admittedForkNotDeletable (id : TimelineId)
  | forkBeyondHead (forkSeq head : Nat)
  | storage (message : Message)
  | serialization (message : Message)
  | payloadTooLarge (size : Nat)
  | eventMetadataTooLarge (field : String) (size : Nat)
  | readBytesTooLarge (size : Nat)
  | readTimeTooLarge (elapsedMicros : Nat)
  | forkDepthTooLarge (depth : Nat)
  | erasureAccessFrozen
  | erasureContainmentUnavailable
  | subjectPlaintextPreferenceRefused
  | artifactUnavailable
  | geographicAdmissionValidationFailed
  | signatureVerificationFailed
deriving DecidableEq

abbrev CoreResult := Except CoreError

/-- The error's `Display`, read by the import rollback's combined message. -/
def CoreError.display : CoreError → Message
  | .timelineNotFound id => "timeline not found: " ++ id.display
  | .admittedForkNotDeletable id => "admitted Fork cannot be deleted: " ++ id.display
  | .forkBeyondHead f h => "fork point seq " ++ toString f ++ " is beyond timeline head " ++ toString h
  | .storage m => "storage error: " ++ m
  | .serialization m => "serialization error: " ++ m
  | .payloadTooLarge n => "payload too large: " ++ toString n ++ " bytes"
  | .eventMetadataTooLarge f n => "event metadata field " ++ f ++ " too large: " ++ toString n ++ " bytes"
  | .readBytesTooLarge n => "bounded event read exceeds aggregate byte limit: " ++ toString n ++ " bytes"
  | .readTimeTooLarge n =>
    "bounded event read exceeds elapsed-time limit: " ++ toString n ++ " microseconds"
  | .forkDepthTooLarge n => "fork depth too large: " ++ toString n
  | .erasureAccessFrozen => "erasure access is frozen at the Tick Boundary"
  | .erasureContainmentUnavailable => "erasure containment boundary is unavailable"
  | .subjectPlaintextPreferenceRefused => "plaintext Persona Preferences are unavailable for this subject"
  | .artifactUnavailable => "artifact is unavailable for authoritative use"
  | .geographicAdmissionValidationFailed => "geographic admission validation failed"
  | .signatureVerificationFailed => "signature verification failed"

/-- The fixed expiry of an identity admitted at `admittedAt`; saturation is forbidden. -/
def checkedAppendIdentityExpiresAt (admittedAt : WallTime) : CoreResult WallTime :=
  match checkedAdd admittedAt appendIdentityRetentionMicros with
  | some t => .ok t
  | none => .error (.storage "append identity expiry overflow")

/-- The hasher port a store is built with. `hashEvent` takes the Event id, of which the source passes the
`ulid` crate's text form. -/
structure Hasher where
  genesisHash : Hash
  hashPayload : CanonicalBytes → Hash
  hashEvent : Hash → EventId → CanonicalBytes → Hash

/-- A hasher that counts bytes, for evaluating the model. -/
def Hasher.counting : Hasher where
  genesisHash := 0
  hashPayload := fun payload => BitVec.ofNat 256 payload.length
  hashEvent := fun acc _ payload => acc + BitVec.ofNat 256 (payload.length + 1)

/-- A digest that spells out the bytes, for evaluating the model where digests must not collide. -/
def spellingHash (bytes : List UInt8) : Hash := BitVec.ofNat 256 (bytes.foldl (fun n b => 257 * n + b.toNat) 1)

def Hasher.spelling : Hasher where
  genesisHash := 0
  hashPayload := spellingHash
  hashEvent := fun previous _ payload => previous + BitVec.ofNat 256 payload.length

/-- One link of the chain: the previous head, the Event id and the payload. -/
def Hasher.link (hasher : Hasher) (acc : Hash) (e : Event) : Hash :=
  hasher.hashEvent acc e.id e.payload

def Hasher.chain (hasher : Hasher) (start : Hash) (events : List Event) : Hash :=
  events.foldl hasher.link start

theorem Hasher.chain_append (hasher : Hasher) (start : Hash) (xs ys : List Event) :
    hasher.chain start (xs ++ ys) = hasher.chain (hasher.chain start xs) ys := List.foldl_append

end Piglor
