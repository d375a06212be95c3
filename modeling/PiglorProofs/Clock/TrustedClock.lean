/-
The trusted-clock protected-use fence of `pos-core` (`trusted_clock.rs`): the durable high water and
overrun latch, reservations, the release guard with its expiries and final check, and the latch and
acknowledgement of an overrun. Wall samples are microseconds, marks and durations nanoseconds, and an
`i64` is an integer with its checked addition. The ports' answers, the samples and the marks are inputs.
-/
import PiglorProofs.Authority.Evaluation
import PiglorProofs.Consent.Authority

namespace Piglor.Clock

open Authority (AuthenticatedPrincipalResultV1 ConsentGrantRefV1 PrincipalRefV1 textBytes ulidBytes underDomain)
open Consent (ConsentGrantedV1)

/-- Nanoseconds on the monotonic clock. -/
abbrev MonotonicMarkV1 := Nat

def trustedClockGuardBudget : Nat := 30_000_000_000

def trustedClockReservationWindow : Nat := 32_000_000_000

def trustedClockWaitBudget : Nat := 250_000_000

def trustedClockFormatVersionV1 : Int := 1

def reservationWindowMicros : Int := 32_000_000

def microsPerSecond : Nat := 1_000_000

def i64Max : Int := 2 ^ 63 - 1

/-- `i64::checked_add`. -/
def checkedAdd (a b : Int) : Option Int := if -2 ^ 63 ≤ a + b ∧ a + b ≤ i64Max then some (a + b) else none

/-- `i64::try_from` of a `u64`. -/
def toI64 (n : Nat) : Option Int := if (n : Int) ≤ i64Max then some n else none

/-! ## Outcomes -/

inductive WaitPhaseV1 where
  | ownerLocks
  | reservation
  | guard
deriving DecidableEq

inductive TrustedClockErrorV1 where
  | sourceUnavailable
  | highWaterMissing
  | highWaterCorrupt
  | unsupportedFormat
  | rollback
  | authorityRegressed
  | waitBudgetExceeded (phase : WaitPhaseV1)
  | durabilityUnavailable
  | reservationCommitFailed
  | overflow
  | expiryUnknown
  | expired
  | windowExceeded
  | overrunLatched
  | staleAcknowledgement
  | acknowledgementUnauthorized
deriving DecidableEq

abbrev ClockResult := Except TrustedClockErrorV1

inductive TrustedClockPortErrorV1 where
  | busy
  | storage
  | corrupt
deriving DecidableEq

abbrev PortResult := Except TrustedClockPortErrorV1

inductive TrustedClockOverrunKindV1 where
  | monotonicBudgetExceeded
  | wallBeyondDecisionBound
  | monotonicRegression
deriving DecidableEq

def TrustedClockOverrunKindV1.code : TrustedClockOverrunKindV1 → Int
  | .monotonicBudgetExceeded => 1
  | .wallBeyondDecisionBound => 2
  | .monotonicRegression => 3

inductive OverrunAckReasonV1 where
  | benignStall
  | suspendOrVmPause
  | otherRecordedIncident
deriving DecidableEq

def OverrunAckReasonV1.code : OverrunAckReasonV1 → Int
  | .benignStall => 1
  | .suspendOrVmPause => 2
  | .otherRecordedIncident => 3

def writeError (_ : TrustedClockPortErrorV1) : TrustedClockErrorV1 := .reservationCommitFailed

def durabilityError (_ : TrustedClockPortErrorV1) : TrustedClockErrorV1 := .durabilityUnavailable

def lockOutcome : TrustedClockPortErrorV1 → WaitPhaseV1 → TrustedClockErrorV1
  | .busy, phase => .waitBudgetExceeded phase
  | .storage, _ => .durabilityUnavailable
  | .corrupt, _ => .durabilityUnavailable

def readOutcome : TrustedClockPortErrorV1 → TrustedClockErrorV1
  | .corrupt => .highWaterCorrupt
  | .busy => .durabilityUnavailable
  | .storage => .durabilityUnavailable

def reservationLockError (error : TrustedClockPortErrorV1) : TrustedClockErrorV1 := lockOutcome error .reservation

def guardLockError (error : TrustedClockPortErrorV1) : TrustedClockErrorV1 := lockOutcome error .guard

/-! ## Time sources -/

/-- A wall sample that fits an `i64`; a source that fails gives none. -/
def sampleTrusted (sample : Option Nat) : ClockResult Int :=
  match sample.bind toI64 with
  | some micros => .ok micros
  | none => .error .sourceUnavailable

def checkedElapsedSince (mark earlier : MonotonicMarkV1) : Option Nat :=
  if earlier ≤ mark then some (mark - earlier) else none

/-- What remains of a wait budget once a wait is charged to a phase. -/
def charge (remaining : Nat) (phase : WaitPhaseV1) (waited : Nat) : ClockResult Nat :=
  if waited ≤ remaining then .ok (remaining - waited) else .error (.waitBudgetExceeded phase)

def chargeWait (remaining : Nat) (phase : WaitPhaseV1) (before after : MonotonicMarkV1) : ClockResult Nat :=
  match checkedElapsedSince after before with
  | some waited => charge remaining phase waited
  | none => .error .rollback

/-! ## Durable records -/

/-- The 16 bytes of an authority identity. -/
abbrev ClockDomain := { bytes : List UInt8 // bytes.length = 16 }

structure TrustedClockHighWaterRowV1 where
  formatVersion : Int
  clockDomain : List UInt8
  highWaterMicros : Int
  reservedUntilMicros : Int
  reservationSeq : Int

structure TrustedClockOverrunLatchRowV1 where
  formatVersion : Int
  latched : Int
  overrunCount : Int
  lastOverrunReservation : Int
  lastOverrunKind : Int
  lastOverrunAtMicros : Int

def TrustedClockOverrunLatchRowV1.unlatched : TrustedClockOverrunLatchRowV1 :=
  ⟨trustedClockFormatVersionV1, 0, 0, 0, 0, 0⟩

structure TrustedClockAcknowledgementRowV1 where
  acknowledgedOverrunCount : Int
  operatorPrincipalDigest : Hash
  authorizationProvenanceDigest : Hash
  trustRevisionDigest : Hash
  acknowledgedAtMicros : Int
  reasonCode : Int

structure TrustedClockRowsV1 where
  highWater : List TrustedClockHighWaterRowV1
  overrunLatch : List TrustedClockOverrunLatchRowV1

/-- Everything a store keeps for the fence. -/
structure TrustedClockStore where
  rows : TrustedClockRowsV1
  acknowledgements : List TrustedClockAcknowledgementRowV1

/-- What the store port answers inside one write transaction; a read or a write that succeeds is faithful. -/
structure TrustedClockStorePortV1 where
  readRows : PortResult Unit
  authoritativeCatalogEntries : PortResult Nat
  generateClockDomain : PortResult ClockDomain
  createHighWater : PortResult Unit
  createOverrunLatch : PortResult Unit
  writeOverrunLatch : PortResult Unit
  writeHighWater : PortResult Unit
  appendAcknowledgement : PortResult Unit

structure HighWaterStateV1 where
  domain : ClockDomain
  highWater : Int
  reservedUntil : Int
  seq : Int

structure LatchStateV1 where
  latched : Bool
  overrunCount : Int
  row : TrustedClockOverrunLatchRowV1

def singleRow {α : Type} : List α → ClockResult α
  | [row] => .ok row
  | [] => .error .highWaterMissing
  | _ => .error .highWaterCorrupt

def validateHighWater (row : TrustedClockHighWaterRowV1) : ClockResult HighWaterStateV1 :=
  if h : row.clockDomain.length = 16 then
    if 0 ≤ row.highWaterMicros ∧ row.highWaterMicros ≤ row.reservedUntilMicros ∧ 0 ≤ row.reservationSeq then
      .ok ⟨⟨row.clockDomain, h⟩, row.highWaterMicros, row.reservedUntilMicros, row.reservationSeq⟩
    else .error .highWaterCorrupt
  else .error .highWaterCorrupt

def validateLatch (row : TrustedClockOverrunLatchRowV1) : ClockResult LatchStateV1 :=
  if (row.latched = 0 ∨ row.latched = 1) ∧ 0 ≤ row.overrunCount ∧ 0 ≤ row.lastOverrunReservation ∧
      (0 ≤ row.lastOverrunKind ∧ row.lastOverrunKind ≤ 3) ∧ 0 ≤ row.lastOverrunAtMicros then
    .ok ⟨row.latched == 1, row.overrunCount, row⟩
  else .error .highWaterCorrupt

def validateRows (rows : TrustedClockRowsV1) : ClockResult (HighWaterStateV1 × LatchStateV1) := do
  let highWater ← singleRow rows.highWater
  let latch ← singleRow rows.overrunLatch
  if highWater.formatVersion ≠ trustedClockFormatVersionV1 ∨ latch.formatVersion ≠ trustedClockFormatVersionV1 then
    .error .unsupportedFormat
  else
    let highWater ← validateHighWater highWater
    let latch ← validateLatch latch
    .ok (highWater, latch)

/-! ## Pending overruns -/

structure PendingOverrunV1 where
  kind : TrustedClockOverrunKindV1
  reservationSeq : Int
  atMicros : Int

/-- The process-wide flags, by authority identity. -/
abbrev PendingOverruns := Table ClockDomain PendingOverrunV1

def latchedRow (latch : LatchStateV1) (pending : PendingOverrunV1) : ClockResult TrustedClockOverrunLatchRowV1 :=
  match checkedAdd latch.overrunCount 1 with
  | none => .error .overflow
  | some overrunCount =>
    .ok ⟨trustedClockFormatVersionV1, 1, overrunCount, pending.reservationSeq, pending.kind.code, pending.atMicros⟩

/-- The latch row written for the identity's pending overrun, if one is set. -/
def writePendingLatch (port : TrustedClockStorePortV1) (pending : PendingOverruns) (highWater : HighWaterStateV1)
    (latch : LatchStateV1) : ClockResult (Option TrustedClockOverrunLatchRowV1) :=
  match pending.lookup highWater.domain with
  | none => .ok none
  | some overrun => do
    let row ← latchedRow latch overrun
    port.writeOverrunLatch.mapError writeError
    .ok (some row)

def requireDurability : PortResult Bool → ClockResult Unit
  | .ok true => .ok ()
  | _ => .error .durabilityUnavailable

/-! ## Reservation -/

structure TrustedClockReservationV1 where
  domain : ClockDomain
  seq : Int
  sampled : Int
  decisionBound : Int
  g0 : MonotonicMarkV1

inductive ReserveStepV1 where
  | reserved (reservation : TrustedClockReservationV1)
  | latchCommitted (domain : ClockDomain)

/-- A migrated high-water row, under a fresh identity. -/
def createHighWater (port : TrustedClockStorePortV1) (sampled : Int) :
    List TrustedClockHighWaterRowV1 → ClockResult (List TrustedClockHighWaterRowV1)
  | [] => do
    let domain ← port.generateClockDomain.mapError durabilityError
    port.createHighWater.mapError writeError
    .ok [⟨trustedClockFormatVersionV1, domain.1, sampled, sampled, 0⟩]
  | rows => .ok rows

def createOverrunLatch (port : TrustedClockStorePortV1) :
    List TrustedClockOverrunLatchRowV1 → ClockResult (List TrustedClockOverrunLatchRowV1)
  | [] => do
    port.createOverrunLatch.mapError writeError
    .ok [.unlatched]
  | rows => .ok rows

def migrateMissingRows (port : TrustedClockStorePortV1) (sample : Option Nat) (rows : TrustedClockRowsV1) :
    ClockResult (TrustedClockRowsV1 × Option Int) :=
  if rows.highWater ≠ [] ∧ rows.overrunLatch ≠ [] then .ok (rows, none)
  else do
    let entries ← port.authoritativeCatalogEntries.mapError readOutcome
    if entries ≠ 0 then .error .highWaterMissing
    else
      let sampled ← sampleTrusted sample
      let highWater ← createHighWater port sampled rows.highWater
      let overrunLatch ← createOverrunLatch port rows.overrunLatch
      .ok (⟨highWater, overrunLatch⟩, some sampled)

def reservedRow (state : HighWaterStateV1) (sampled : Int) (g0 : MonotonicMarkV1) :
    ClockResult (TrustedClockHighWaterRowV1 × TrustedClockReservationV1) :=
  if sampled < state.highWater then .error .rollback
  else
    match checkedAdd state.seq 1, checkedAdd sampled reservationWindowMicros with
    | some seq, some decisionBound =>
      .ok (⟨trustedClockFormatVersionV1, state.domain.1, sampled, max state.reservedUntil decisionBound, seq⟩,
        ⟨state.domain, seq, sampled, decisionBound, g0⟩)
    | _, _ => .error .overflow

/-- The reservation's transaction: its step and the rows it leaves to commit. The wall source is sampled
at most once, by the migration or for the reservation. -/
def reserveInTransaction (port : TrustedClockStorePortV1) (pending : PendingOverruns) (sample : Option Nat)
    (g0 : MonotonicMarkV1) (stored : TrustedClockRowsV1) : ClockResult (ReserveStepV1 × TrustedClockRowsV1) := do
  port.readRows.mapError readOutcome
  let (rows, presampled) ← migrateMissingRows port sample stored
  let (highWater, latch) ← validateRows rows
  if latch.latched then .error .overrunLatched
  else
    match ← writePendingLatch port pending highWater latch with
    | some row => .ok (.latchCommitted highWater.domain, { rows with overrunLatch := [row] })
    | none =>
      let sampled ← presampled.elim (sampleTrusted sample) .ok
      let (row, reservation) ← reservedRow highWater sampled g0
      port.writeHighWater.mapError writeError
      .ok (.reserved reservation, { rows with highWater := [row] })

/-- `owner_lock_g0 > Some(before)`. -/
def ownerLockLater (ownerLockG0 : Option MonotonicMarkV1) (before : MonotonicMarkV1) : Bool :=
  ownerLockG0.any fun mark => decide (before < mark)

/-! ## Guard -/

structure ReleaseGuardV1 where
  reservation : TrustedClockReservationV1
  highWater : Int

def guardedHighWater (pending : PendingOverruns) (rows : TrustedClockRowsV1) (reservation : TrustedClockReservationV1) :
    ClockResult Int := do
  let (highWater, latch) ← validateRows rows
  if highWater.domain ≠ reservation.domain ∨ highWater.seq < reservation.seq ∨
      highWater.highWater < reservation.sampled then .error .authorityRegressed
  else if latch.latched ∨ (pending.lookup highWater.domain).isSome then .error .overrunLatched
  else .ok highWater.highWater

/-- The deadline an RLS1 lease states. -/
structure WorldRetentionLeaseV1 where
  retentionDeadlineMicros : Nat

structure ExpiryPremisesV1 where
  retentionLeases : List WorldRetentionLeaseV1
  consentGrants : List ConsentGrantedV1
  consentReferences : List ConsentGrantRefV1
  access : Option AuthenticatedPrincipalResultV1

structure ApplicableExpiriesV1 where
  domain : ClockDomain
  reservationSeq : Int
  earliest : Nat

/-- The smallest of a list, as `Iterator::min`. -/
def least : List Nat → Option Nat
  | [] => none
  | a :: rest => some (rest.foldl min a)

/-- The consent expiries that apply, in microseconds. -/
def consentExpiries (grants : List ConsentGrantedV1) : List Nat :=
  (grants.filter fun grant => grant.expirySecs ≠ 0).map fun grant => grant.expirySecs * microsPerSecond

def earliestExpiry (premises : ExpiryPremisesV1) : ClockResult Nat :=
  match premises.access, least (premises.retentionLeases.map (·.retentionDeadlineMicros)) with
  | some access, some retention =>
    let references := premises.consentReferences.map (·.validUntil)
    .ok ((consentExpiries premises.consentGrants ++ references).foldl min (min retention access.expiresAt))
  | _, _ => .error .expiryUnknown

namespace ReleaseGuardV1

def applicableExpiries (guard : ReleaseGuardV1) (premises : ExpiryPremisesV1) : ClockResult ApplicableExpiriesV1 := do
  let earliest ← earliestExpiry premises
  if guard.reservation.decisionBound.natAbs < earliest then
    .ok ⟨guard.reservation.domain, guard.reservation.seq, earliest⟩
  else .error .expired

def finalCheck (guard : ReleaseGuardV1) (mark : MonotonicMarkV1) (sample : Option Nat) : ClockResult Unit :=
  match checkedElapsedSince mark guard.reservation.g0 with
  | none => .error .rollback
  | some elapsed =>
    if trustedClockGuardBudget < elapsed then .error .windowExceeded
    else do
      let finalSample ← sampleTrusted sample
      if finalSample < max guard.reservation.sampled guard.highWater then .error .rollback
      else if guard.reservation.decisionBound < finalSample then .error .windowExceeded
      else .ok ()

def overrunKind (guard : ReleaseGuardV1) : Option Nat → ClockResult Int → Option TrustedClockOverrunKindV1
  | none, _ => some .monotonicRegression
  | some elapsed, postSample =>
    if trustedClockReservationWindow < elapsed then some .monotonicBudgetExceeded
    else
      match postSample with
      | .ok sample =>
        if sample ≤ guard.reservation.decisionBound then none else some .wallBeyondDecisionBound
      | .error _ => some .wallBeyondDecisionBound

/-- The pending overrun a handoff leaves under its guard, if its last sample and mark are past the window. -/
def postHandoffOverrun (guard : ReleaseGuardV1) (mark : MonotonicMarkV1) (sample : Option Nat) :
    Option PendingOverrunV1 :=
  (guard.overrunKind (checkedElapsedSince mark guard.reservation.g0) (sampleTrusted sample)).map fun kind =>
    ⟨kind, guard.reservation.seq, (sampleTrusted sample).toOption.getD guard.reservation.decisionBound⟩

/-- The checks of `handoff_checked` before the staged value moves. -/
def handoffCheck (guard : ReleaseGuardV1) (expiries : ApplicableExpiriesV1) (mark : MonotonicMarkV1)
    (sample : Option Nat) : ClockResult Unit :=
  if expiries.domain ≠ guard.reservation.domain ∨ expiries.reservationSeq ≠ guard.reservation.seq then
    .error .authorityRegressed
  else guard.finalCheck mark sample

end ReleaseGuardV1

/-! ## Latch commit and acknowledgement -/

def latchInTransaction (port : TrustedClockStorePortV1) (pending : PendingOverruns) (stored : TrustedClockRowsV1) :
    ClockResult (Option (ClockDomain × TrustedClockRowsV1)) := do
  port.readRows.mapError readOutcome
  let (highWater, latch) ← validateRows stored
  let written ← writePendingLatch port pending highWater latch
  .ok (written.map fun row => (highWater.domain, { stored with overrunLatch := [row] }))

/-- A host's authorization of one principal to clear the overrun latch, the one administrative action. -/
structure HostAdministrativeAuthorizationV1 where
  principal : PrincipalRefV1
  trustRevision : Hash
  provenance : Hash

structure TrustedClockOverrunAcknowledgementV1 where
  operator : AuthenticatedPrincipalResultV1
  authorization : HostAdministrativeAuthorizationV1
  expectedOverrunCount : Nat
  reason : OverrunAckReasonV1

def authorizeAcknowledgement (request : TrustedClockOverrunAcknowledgementV1) (sampled : Int) : ClockResult Unit :=
  if request.authorization.principal = request.operator.principal ∧ sampled.natAbs < request.operator.expiresAt then
    .ok ()
  else .error .acknowledgementUnauthorized

section Digest

variable (blake3 : ByteHash)

def principalDigest (principal : PrincipalRefV1) : Hash :=
  underDomain blake3 "pigloros.trusted-clock.operator-principal.v1"
    (ulidBytes principal.principalId ++ textBytes principal.trustDomain)

def acknowledgementRow (request : TrustedClockOverrunAcknowledgementV1) (overrunCount sampled : Int) :
    TrustedClockAcknowledgementRowV1 :=
  ⟨overrunCount, principalDigest blake3 request.operator.principal, request.authorization.provenance,
    request.authorization.trustRevision, sampled, request.reason.code⟩

def acknowledgeInTransaction (port : TrustedClockStorePortV1) (sample : Option Nat)
    (request : TrustedClockOverrunAcknowledgementV1) (stored : TrustedClockStore) : ClockResult TrustedClockStore := do
  port.readRows.mapError readOutcome
  let (highWater, latch) ← validateRows stored.rows
  let sampled ← sampleTrusted sample
  if sampled < highWater.highWater then .error .rollback
  else
    authorizeAcknowledgement request sampled
    if latch.latched = false ∨ toI64 request.expectedOverrunCount ≠ some latch.overrunCount then
      .error .staleAcknowledgement
    else
      port.writeOverrunLatch.mapError writeError
      port.appendAcknowledgement.mapError writeError
      .ok ⟨{ stored.rows with overrunLatch := [{ latch.row with latched := 0 }] },
        stored.acknowledgements ++ [acknowledgementRow blake3 request latch.overrunCount sampled]⟩

end Digest

/-! ## What the checks and transactions establish -/

open Checked List

theorem checkedAdd_eq_some {a b c : Int} (h : checkedAdd a b = some c) : c = a + b := by
  unfold checkedAdd at h
  split at h
  · exact (Option.some.inj h).symm
  · cases h

theorem toI64_eq_some {n : Nat} {a : Int} (h : toI64 n = some a) : a = n := by
  unfold toI64 at h
  split at h
  · exact (Option.some.inj h).symm
  · cases h

variable {sample : Option Nat} {rows stored : TrustedClockRowsV1} {port : TrustedClockStorePortV1}
  {pending : PendingOverruns} {reservation : TrustedClockReservationV1} {row : TrustedClockOverrunLatchRowV1}
  {state highWater : HighWaterStateV1} {latch : LatchStateV1}

theorem sampleTrusted_eq_ok {t : Int} (h : sampleTrusted sample = .ok t) :
    ∃ micros : Nat, sample = some micros ∧ t = micros := by
  unfold sampleTrusted at h
  rcases hs : sample.bind toI64 with _ | a
  · rw [hs] at h
    cases h
  · rw [hs] at h
    cases h
    obtain ⟨micros, hsample, ha⟩ := Option.bind_eq_some_iff.mp hs
    exact ⟨micros, hsample, toI64_eq_some ha⟩

theorem checkedElapsedSince_eq_some {mark earlier elapsed : Nat} (h : checkedElapsedSince mark earlier = some elapsed) :
    earlier ≤ mark ∧ elapsed = mark - earlier := by
  unfold checkedElapsedSince at h
  split at h
  · next hle => exact ⟨hle, (Option.some.inj h).symm⟩
  · cases h

theorem singleRow_eq_ok {α : Type} {rows : List α} {row : α} (h : singleRow rows = .ok row) : rows = [row] := by
  match rows, h with
  | [_], h => exact congrArg (fun row => [row]) (Except.ok.inj h)

/-- A valid high-water row is read as it stands. -/
theorem validateHighWater_eq_ok {row : TrustedClockHighWaterRowV1}
    (h : validateHighWater row = .ok state) : state.domain.1 = row.clockDomain ∧ state.highWater = row.highWaterMicros ∧
      state.reservedUntil = row.reservedUntilMicros ∧ state.seq = row.reservationSeq := by
  unfold validateHighWater at h
  split at h
  · split at h
    · cases h
      exact ⟨rfl, rfl, rfl, rfl⟩
    · cases h
  · cases h

theorem validateLatch_eq_ok {state : LatchStateV1}
    (h : validateLatch row = .ok state) : (row.latched = 0 ∨ row.latched = 1) ∧
    state = ⟨row.latched == 1, row.overrunCount, row⟩ := by
  unfold validateLatch at h
  split at h
  · next hrow => exact ⟨hrow.1, (Except.ok.inj h).symm⟩
  · cases h

/-- The rows `highWater` and `latch` of a store are its one valid row of each table. -/
structure ReadsRows (rows : TrustedClockRowsV1) (row : TrustedClockHighWaterRowV1)
    (latchRow : TrustedClockOverrunLatchRowV1) (highWater : HighWaterStateV1) (latch : LatchStateV1) : Prop where
  rows : rows = ⟨[row], [latchRow]⟩
  domain : highWater.domain.1 = row.clockDomain
  water : highWater.highWater = row.highWaterMicros
  reservedUntil : highWater.reservedUntil = row.reservedUntilMicros
  seq : highWater.seq = row.reservationSeq
  flag : latchRow.latched = 0 ∨ latchRow.latched = 1
  latch : latch = ⟨latchRow.latched == 1, latchRow.overrunCount, latchRow⟩

theorem validateRows_eq_ok
    (h : validateRows rows = .ok (highWater, latch)) : ∃ row latchRow, ReadsRows rows row latchRow highWater latch := by
  simp only [validateRows, bind_eq_ok] at h
  obtain ⟨row, hrow, latchRow, hlatchRow, h⟩ := h
  split_ifs at h
  simp only [bind_eq_ok] at h
  obtain ⟨highWater', hhigh, latch', hlatch, h⟩ := h
  cases h
  obtain ⟨hdomain, hwater, huntil, hseq⟩ := validateHighWater_eq_ok hhigh
  obtain ⟨hflag, hlatch⟩ := validateLatch_eq_ok hlatch
  refine ⟨row, latchRow, ?_, hdomain, hwater, huntil, hseq, hflag, hlatch⟩
  rcases rows with ⟨highWaters, latches⟩
  exact congrArg₂ TrustedClockRowsV1.mk (singleRow_eq_ok hrow) (singleRow_eq_ok hlatchRow)

/-- The latch written for a pending overrun is set, with the next count. -/
theorem writePendingLatch_eq_some (h : writePendingLatch port pending highWater latch = .ok (some row)) :
    (∃ overrun, pending.lookup highWater.domain = some overrun) ∧ row.latched = 1 ∧
      row.overrunCount = latch.overrunCount + 1 := by
  unfold writePendingLatch at h
  rcases hp : pending.lookup highWater.domain with _ | overrun
  · rw [hp] at h
    cases h
  · rw [hp] at h
    simp only [bind_eq_ok] at h
    obtain ⟨written, hwritten, ⟨⟩, -, h⟩ := h
    cases h
    refine ⟨⟨overrun, rfl⟩, ?_⟩
    unfold latchedRow at hwritten
    rcases hc : checkedAdd latch.overrunCount 1 with _ | count
    · rw [hc] at hwritten
      cases hwritten
    · rw [hc] at hwritten
      cases hwritten
      exact ⟨rfl, checkedAdd_eq_some hc⟩

variable {g0 : MonotonicMarkV1} {sampled : Int}

/-- A reservation's row moves the high water, the reserved time and the sequence up. -/
theorem reservedRow_eq_ok
    {row : TrustedClockHighWaterRowV1} (h : reservedRow state sampled g0 = .ok (row, reservation)) :
    row.clockDomain = state.domain.1 ∧ row.highWaterMicros = sampled ∧ state.highWater ≤ sampled ∧
      state.reservedUntil ≤ row.reservedUntilMicros ∧ row.reservationSeq = state.seq + 1 ∧
      reservation = ⟨state.domain, state.seq + 1, sampled, sampled + reservationWindowMicros, g0⟩ := by
  unfold reservedRow at h
  split_ifs at h
  next hsampled =>
  rcases hseq : checkedAdd state.seq 1 with _ | seq
  · rw [hseq] at h
    cases h
  rcases hbound : checkedAdd sampled reservationWindowMicros with _ | bound
  · rw [hseq, hbound] at h
    cases h
  rw [hseq, hbound] at h
  cases h
  rw [checkedAdd_eq_some hseq, checkedAdd_eq_some hbound]
  exact ⟨rfl, rfl, Int.not_lt.mp hsampled, Int.le_max_left _ _, rfl, rfl⟩

theorem createHighWater_eq_ok {rows created : List TrustedClockHighWaterRowV1}
    (h : createHighWater port sampled rows = .ok created) : rows = [] ∨ created = rows := by
  cases rows with
  | nil => exact .inl rfl
  | cons row rest => exact .inr (Except.ok.inj h).symm

theorem createOverrunLatch_eq_ok {rows created : List TrustedClockOverrunLatchRowV1}
    (h : createOverrunLatch port rows = .ok created) : rows = [] ∨ created = rows := by
  cases rows with
  | nil => exact .inl rfl
  | cons row rest => exact .inr (Except.ok.inj h).symm

/-- The migration only creates rows that are missing, and its sample is the wall source's. -/
theorem migrateMissingRows_eq_ok {presampled : Option Int}
    (h : migrateMissingRows port sample stored = .ok (rows, presampled)) :
    (stored.highWater = [] ∨ rows.highWater = stored.highWater) ∧
      (stored.overrunLatch = [] ∨ rows.overrunLatch = stored.overrunLatch) ∧
      ∀ sampled, presampled.elim (sampleTrusted sample) .ok = .ok sampled → sampleTrusted sample = .ok sampled := by
  unfold migrateMissingRows at h
  split at h
  · cases h
    exact ⟨.inr rfl, .inr rfl, fun _ h => h⟩
  · simp only [bind_eq_ok] at h
    obtain ⟨entries, -, h⟩ := h
    split_ifs at h
    simp only [bind_eq_ok] at h
    obtain ⟨sampled, hsampled, highWater, hhigh, latch, hlatch, h⟩ := h
    cases h
    refine ⟨createHighWater_eq_ok hhigh, createOverrunLatch_eq_ok hlatch, fun other hother => ?_⟩
    rw [hsampled]
    exact hother

/-- A store keeps the one row of each table under an identity. -/
def Identified (rows : TrustedClockRowsV1) (domain : ClockDomain) : Prop :=
  ∃ row latch, rows = ⟨[row], [latch]⟩ ∧ row.clockDomain = domain.1

/-- The rows a reservation leaves: its sample is the high water, and nothing stored goes down. -/
def Reserves (stored rows : TrustedClockRowsV1) (reservation : TrustedClockReservationV1) : Prop :=
  ∃ row latch, rows = ⟨[row], [latch]⟩ ∧ row.clockDomain = reservation.domain.1 ∧ row.reservationSeq = reservation.seq ∧
    0 ≤ reservation.sampled ∧ reservation.decisionBound = reservation.sampled + reservationWindowMicros ∧
    (stored.highWater = [] ∨ ∃ old, stored.highWater = [old] ∧ old.clockDomain = row.clockDomain ∧
      old.highWaterMicros ≤ row.highWaterMicros ∧ old.reservedUntilMicros ≤ row.reservedUntilMicros ∧
      old.reservationSeq < row.reservationSeq) ∧
    (stored.overrunLatch = [] ∨ stored.overrunLatch = [latch])

/-- The rows a latch commit leaves: the latch is set with its count raised by one. -/
def Latches (stored rows : TrustedClockRowsV1) (domain : ClockDomain) : Prop :=
  ∃ row latch latch', stored = ⟨[row], [latch]⟩ ∧ rows = ⟨[row], [latch']⟩ ∧ row.clockDomain = domain.1 ∧
    latch'.latched = 1 ∧ latch'.overrunCount = latch.overrunCount + 1

/-- The rows an acknowledgement leaves: a latch set at the expected count is cleared. -/
def Acknowledges (stored rows : TrustedClockRowsV1) (expected : Nat) : Prop :=
  ∃ row latch, stored = ⟨[row], [latch]⟩ ∧ rows = ⟨[row], [{ latch with latched := 0 }]⟩ ∧ latch.latched = 1 ∧
    latch.overrunCount = expected

theorem reserveInTransaction_reserved
    (h : reserveInTransaction port pending sample g0 stored = .ok (.reserved reservation, rows)) :
    Reserves stored rows reservation := by
  simp only [reserveInTransaction, bind_eq_ok] at h
  obtain ⟨⟨⟩, -, ⟨migrated, presampled⟩, hmigrate, ⟨highWater, latch⟩, hrows, h⟩ := h
  obtain ⟨hhigh, hlatch, hsample⟩ := migrateMissingRows_eq_ok hmigrate
  obtain ⟨row, latchRow, hread⟩ : ∃ row latchRow, ReadsRows migrated row latchRow highWater latch := validateRows_eq_ok hrows
  split_ifs at h
  obtain ⟨written, hwritten, h⟩ := bind_eq_ok.mp h
  rcases written with _ | written
  · simp only [bind_eq_ok] at h
    obtain ⟨sampled, hsampled, ⟨newRow, newReservation⟩, hreserved, ⟨⟩, -, h⟩ := h
    cases h
    obtain ⟨micros, -, rfl⟩ := sampleTrusted_eq_ok (hsample sampled hsampled)
    obtain ⟨hdomain, hwater, hle, huntil, hseq, rfl⟩ := reservedRow_eq_ok hreserved
    refine ⟨newRow, latchRow, by rw [hread.rows], hdomain, hseq, Int.natCast_nonneg _, rfl, ?_, ?_⟩
    · refine hhigh.imp id fun hkept => ⟨row, by rw [← hkept, hread.rows], ?_, ?_, ?_, ?_⟩
      · rw [hdomain, hread.domain]
      · rw [hwater, ← hread.water]
        exact hle
      · rw [← hread.reservedUntil]
        exact huntil
      · rw [hseq, hread.seq]
        exact Int.lt_succ _
    · exact hlatch.imp id fun hkept => by rw [← hkept, hread.rows]
  · cases h

variable {domain : ClockDomain}

/-- With every pending overrun under the stored identity, a latch is only written over rows that exist. -/
theorem reserveInTransaction_latch
    (hpending : ∀ domain overrun, pending.lookup domain = some overrun → Identified stored domain)
    (h : reserveInTransaction port pending sample g0 stored = .ok (.latchCommitted domain, rows)) :
    Latches stored rows domain := by
  simp only [reserveInTransaction, bind_eq_ok] at h
  obtain ⟨⟨⟩, -, ⟨migrated, presampled⟩, hmigrate, ⟨highWater, latch⟩, hrows, h⟩ := h
  obtain ⟨hhigh, hlatch, -⟩ := migrateMissingRows_eq_ok hmigrate
  obtain ⟨row, latchRow, hread⟩ : ∃ row latchRow, ReadsRows migrated row latchRow highWater latch := validateRows_eq_ok hrows
  split_ifs at h
  obtain ⟨written, hwritten, h⟩ := bind_eq_ok.mp h
  rcases written with _ | written
  · simp only [bind_eq_ok] at h
    obtain ⟨sampled, -, ⟨newRow, newReservation⟩, -, ⟨⟩, -, h⟩ := h
    cases h
  · cases h
    obtain ⟨⟨overrun, hlookup⟩, hset, hcount⟩ := writePendingLatch_eq_some hwritten
    obtain ⟨row', latch', hstored, -⟩ := hpending _ _ hlookup
    have hkept : migrated = stored := by
      rw [hstored] at hhigh hlatch ⊢
      rcases migrated with ⟨highWaters, latches⟩
      exact congrArg₂ TrustedClockRowsV1.mk (hhigh.resolve_left (cons_ne_nil _ _))
        (hlatch.resolve_left (cons_ne_nil _ _))
    rw [hread.latch] at hcount
    exact ⟨row, latchRow, written, by rw [← hkept, hread.rows], by rw [hread.rows], hread.domain.symm, hset, hcount⟩

theorem latchInTransaction_latches
    (h : latchInTransaction port pending stored = .ok (some (domain, rows))) : Latches stored rows domain := by
  simp only [latchInTransaction, bind_eq_ok] at h
  obtain ⟨⟨⟩, -, ⟨highWater, latch⟩, hrows, written, hwritten, h⟩ := h
  obtain ⟨row, latchRow, hread⟩ := validateRows_eq_ok hrows
  obtain ⟨written, rfl, h⟩ := Option.map_eq_some_iff.mp (Except.ok.inj h)
  cases h
  obtain ⟨-, hset, hcount⟩ := writePendingLatch_eq_some hwritten
  rw [hread.latch] at hcount
  exact ⟨row, latchRow, written, hread.rows, by rw [hread.rows], hread.domain.symm, hset, hcount⟩

theorem acknowledgeInTransaction_acknowledges {blake3 : ByteHash} {request : TrustedClockOverrunAcknowledgementV1}
    {stored store : TrustedClockStore} (h : acknowledgeInTransaction blake3 port sample request stored = .ok store) :
    Acknowledges stored.rows store.rows request.expectedOverrunCount := by
  simp only [acknowledgeInTransaction, bind_eq_ok] at h
  obtain ⟨⟨⟩, -, ⟨highWater, latch⟩, hrows, sampled, -, h⟩ := h
  obtain ⟨row, latchRow, hread⟩ := validateRows_eq_ok hrows
  split at h
  · cases h
  replace h := of_check h
  split_ifs at h
  next hcurrent =>
  simp only [bind_eq_ok] at h
  obtain ⟨⟨⟩, -, ⟨⟩, -, h⟩ := h
  cases h
  rw [hread.latch] at hcurrent
  obtain ⟨hset, hexpected⟩ := not_or.mp hcurrent
  refine ⟨row, latchRow, hread.rows, by rw [hread.rows, hread.latch], ?_, ?_⟩
  · exact eq_of_beq (Bool.not_eq_false _ ▸ hset)
  · exact toI64_eq_some (Decidable.not_not.mp hexpected)

/-- A guard opens only over an unlatched store of the reservation's identity without a pending overrun. -/
theorem guardedHighWater_eq_ok {highWater : Int} (h : guardedHighWater pending rows reservation = .ok highWater) :
    ∃ row latch, rows = ⟨[row], [latch]⟩ ∧ row.clockDomain = reservation.domain.1 ∧ latch.latched = 0 ∧
      pending.lookup reservation.domain = none := by
  simp only [guardedHighWater, bind_eq_ok] at h
  obtain ⟨⟨state, latch⟩, hrows, h⟩ := h
  obtain ⟨row, latchRow, hread⟩ := validateRows_eq_ok hrows
  split at h
  · cases h
  · next hregressed =>
    split_ifs at h
    next hlatched =>
    obtain ⟨hdomain, -⟩ := not_or.mp hregressed
    obtain ⟨hset, hpending⟩ := not_or.mp hlatched
    have hdomain := Decidable.not_not.mp hdomain
    rw [hdomain] at hpending
    rw [hread.latch] at hset
    refine ⟨row, latchRow, hread.rows, by rw [← hdomain, hread.domain], ?_, ?_⟩
    · exact hread.flag.resolve_right fun hone => hset (by simp [hone])
    · simpa using hpending

theorem foldl_min_le : ∀ (values : List Nat) (floor : Nat), values.foldl min floor ≤ floor ∧
    ∀ value ∈ values, values.foldl min floor ≤ value
  | [], floor => ⟨Nat.le_refl _, fun _ h => absurd h not_mem_nil⟩
  | value :: rest, floor => by
    obtain ⟨hfloor, hrest⟩ := foldl_min_le rest (min floor value)
    exact ⟨Nat.le_trans hfloor (Nat.min_le_left _ _),
      forall_mem_cons.mpr ⟨Nat.le_trans hfloor (Nat.min_le_right _ _), hrest⟩⟩

theorem least_le {values : List Nat} {smallest : Nat} (h : least values = some smallest) :
    ∀ value ∈ values, smallest ≤ value := by
  cases values with
  | nil => cases h
  | cons value rest =>
    cases h
    obtain ⟨hvalue, hrest⟩ := foldl_min_le rest value
    exact forall_mem_cons.mpr ⟨hvalue, hrest⟩

/-- The expiries that apply: the leases' deadlines, the access authorization's end, the expiry of every consent
grant that states one and the ends of the consent references. -/
def ExpiryPremisesV1.deadlines (premises : ExpiryPremisesV1) : Set Nat :=
  {deadline | (∃ lease ∈ premises.retentionLeases, lease.retentionDeadlineMicros = deadline) ∨
    (∃ access ∈ premises.access, access.expiresAt = deadline) ∨
    (∃ grant ∈ premises.consentGrants, grant.expirySecs ≠ 0 ∧ grant.expirySecs * microsPerSecond = deadline) ∨
    ∃ reference ∈ premises.consentReferences, reference.validUntil = deadline}

variable {premises : ExpiryPremisesV1}

theorem earliestExpiry_le {earliest : Nat} (h : earliestExpiry premises = .ok earliest) :
    ∀ deadline ∈ premises.deadlines, earliest ≤ deadline := by
  unfold earliestExpiry at h
  split at h
  · next access retention haccess hleast =>
    cases h
    obtain ⟨hfloor, hlater⟩ := foldl_min_le
      (consentExpiries premises.consentGrants ++ premises.consentReferences.map (·.validUntil))
      (min retention access.expiresAt)
    rintro _ (⟨lease, hlease, rfl⟩ | ⟨_, hsame, rfl⟩ | ⟨grant, hgrant, hne, rfl⟩ | ⟨reference, hreference, rfl⟩)
    · exact Nat.le_trans hfloor (Nat.le_trans (Nat.min_le_left _ _) (least_le hleast _ (mem_map_of_mem hlease)))
    · cases haccess.symm.trans hsame
      exact Nat.le_trans hfloor (Nat.min_le_right _ _)
    · refine hlater _ (mem_append_left _ (mem_map.mpr ⟨grant, mem_filter.mpr ⟨hgrant, ?_⟩, rfl⟩))
      exact decide_eq_true hne
    · exact hlater _ (mem_append_right _ (mem_map_of_mem hreference))
  · cases h

namespace ReleaseGuardV1

variable {guard : ReleaseGuardV1} {expiries : ApplicableExpiriesV1}

theorem applicableExpiries_eq_ok (h : guard.applicableExpiries premises = .ok expiries) :
    expiries.domain = guard.reservation.domain ∧ expiries.reservationSeq = guard.reservation.seq ∧
      guard.reservation.decisionBound.natAbs < expiries.earliest ∧
      ∀ deadline ∈ premises.deadlines, expiries.earliest ≤ deadline := by
  simp only [applicableExpiries, bind_eq_ok] at h
  obtain ⟨earliest, hearliest, h⟩ := h
  split at h
  · next hbefore =>
    cases h
    exact ⟨rfl, rfl, hbefore, earliestExpiry_le hearliest⟩
  · cases h

/-- A handoff that passes its checks has a sample within the reservation's window and a mark within the
guard budget, under expiries of its own reservation. -/
theorem handoffCheck_eq_ok {mark : MonotonicMarkV1} (h : guard.handoffCheck expiries mark sample = .ok ()) :
    expiries.reservationSeq = guard.reservation.seq ∧ guard.reservation.g0 ≤ mark ∧
      mark - guard.reservation.g0 ≤ trustedClockGuardBudget ∧ ∃ micros : Nat, sample = some micros ∧
        guard.reservation.sampled ≤ micros ∧ guard.highWater ≤ micros ∧
        (micros : Int) ≤ guard.reservation.decisionBound := by
  unfold handoffCheck at h
  split_ifs at h
  next hsame =>
  unfold finalCheck at h
  rcases hel : checkedElapsedSince mark guard.reservation.g0 with _ | elapsed
  · rw [hel] at h
    cases h
  rw [hel] at h
  obtain ⟨hmark, rfl⟩ := checkedElapsedSince_eq_some hel
  dsimp only at h
  split_ifs at h
  next hbudget =>
  obtain ⟨finalSample, hsample, h⟩ := bind_eq_ok.mp h
  obtain ⟨micros, hmicros, rfl⟩ := sampleTrusted_eq_ok hsample
  split at h
  · cases h
  · next hfloor =>
    split_ifs at h
    next hbound =>
    have hfloor := Int.not_lt.mp hfloor
    exact ⟨Decidable.not_not.mp (not_or.mp hsame).2, hmark, Nat.le_of_not_lt hbudget, micros, hmicros,
      Int.le_trans (Int.le_max_left _ _) hfloor, Int.le_trans (Int.le_max_right _ _) hfloor,
      Int.not_lt.mp hbound⟩

end ReleaseGuardV1

end Piglor.Clock
