/-
The Fork delivery journal of the SQLite adapter (sqlite.rs): the rows of `fork_delivery_journal`, with their
primary key and their unique operation, and the fence counter, changed by guarded statements that count the
rows they touch. Every call is one transaction, and statements do not fail.
-/
import PiglorProofs.Delivery.Journal

namespace Piglor.Delivery

open Checked (refuseIf)

def i64Max : Nat := 2 ^ 63 - 1

structure SqliteJournal (σ : Type) where
  admission : σ
  rows : List ForkDeliveryRowV1
  lastFence : Nat

namespace SqliteJournal

variable {σ ς κ π ρ : Type} (port : AdmissionPort σ ς κ π ρ) (s : SqliteJournal σ)
  (session : ς) (claim : ForkDeliveryClaimV1) (tuple : ForkDeliveryTupleV1)

/-! ## Statements -/

def forkDeliveryRow (hostRequestId : Hash) : Option ForkDeliveryRowV1 :=
  s.rows.find? fun row => row.tuple.hostRequestId == hostRequestId

/-- `FORK_DELIVERY_ALLOCATE_FENCE_SQL`: the counter is neither exhausted nor behind a row. -/
def allocateFence : JournalResult (SqliteJournal σ) :=
  if s.lastFence < i64Max ∧ (s.rows.map ForkDeliveryRowV1.ownerFence).foldr max 0 ≤ s.lastFence then
    .ok { s with lastFence := s.lastFence + 1 }
  else .error .storageIndeterminate

/-- `FORK_DELIVERY_INSERT_SQL`: a second row for the request or for the operation is a constraint violation. -/
def insertPendingForkDelivery (ownerFence : Nat) : JournalResult (SqliteJournal σ) :=
  if s.rows.any (fun row => row.tuple.hostRequestId == tuple.hostRequestId || row.tuple.operation == tuple.operation) then
    .error .conflict
  else .ok { s with rows := s.rows ++ [⟨tuple, .pending, ownerFence⟩] }

/-- The rows a statement keeps, when it touched exactly one. -/
def affectOne (touched : ForkDeliveryRowV1 → Bool) (s' : SqliteJournal σ) :
    JournalResult (SqliteJournal σ) :=
  if s.rows.countP touched = 1 then .ok s' else .error .fenced

def deleteWhere (touched : ForkDeliveryRowV1 → Bool) : SqliteJournal σ :=
  { s with rows := s.rows.filter fun row => !touched row }

/-- `FORK_DELIVERY_DELETE_OWNED_SQL` for a Pending row. -/
def pendingOf (row : ForkDeliveryRowV1) : Bool := row.matchesClaim claim .pending

/-- `FORK_DELIVERY_SET_STATE_SQL`: from Uncertain or from a second state. -/
def settable (alsoFrom : ForkDeliveryStateV1) (row : ForkDeliveryRowV1) : Bool :=
  row.matchesClaim claim .uncertain || row.matchesClaim claim alsoFrom

def setWhere (touched : ForkDeliveryRowV1 → Bool) (state : ForkDeliveryStateV1) : SqliteJournal σ :=
  { s with rows := s.rows.map fun row => if touched row then { row with state := state } else row }

def setForkDeliveryState (state alsoFrom : ForkDeliveryStateV1) : JournalResult (SqliteJournal σ) :=
  s.affectOne (settable claim alsoFrom) (s.setWhere (settable claim alsoFrom) state)

def requireLive : JournalResult Unit :=
  refuseIf (¬ port.validateLiveSession s.admission session = true) .corrupt

/-- `sqlite_owner_fence`. -/
def ownerFence (claim : ForkDeliveryClaimV1) : JournalResult Unit :=
  refuseIf (i64Max < claim.ownerFence) .fenced

/-! ## The port -/

def claimForkDelivery : JournalResult (ForkDeliveryClaimOutcomeV1 × SqliteJournal σ) := do
  s.requireLive port session
  tuple.revalidate
  match s.forkDeliveryRow tuple.hostRequestId with
  | some row =>
    if row.tuple ≠ tuple then .error .conflict
    else if row.state = .pending then .ok (.busy, s)
    else .ok (.reconcile ⟨tuple, row.ownerFence⟩ row.state, s)
  | none => do
    let s' ← s.allocateFence
    let s'' ← s'.insertPendingForkDelivery tuple s'.lastFence
    .ok (.owner ⟨tuple, s'.lastFence⟩, s'')

def cancelPendingForkDelivery : JournalResult (SqliteJournal σ) := do
  s.requireLive port session
  ownerFence claim
  s.affectOne (pendingOf claim) (s.deleteWhere (pendingOf claim))

/-- The row is still the claim's Pending row. -/
def claimedRow : JournalResult Unit :=
  match s.forkDeliveryRow claim.tuple.hostRequestId with
  | some row => refuseIf (¬ row.matchesClaim claim .pending = true) .fenced
  | none => .error .fenced

/-- The transaction of a claimed command. A failed authority write rolls the whole transaction back, and
Uncertain is then recorded in a fresh one; `onRejected` is the admission state a definite rejection leaves. -/
def executeClaimed (run : σ → σ × Except ForkAdmissionErrorV1 ρ) (onRejected : σ → σ → σ) :
    JournalResult (ForkDeliveryExecutionV1 ρ × SqliteJournal σ) := do
  ownerFence claim
  s.claimedRow claim
  let (admission, outcome) := run s.admission
  match forkDeliveryExecution outcome with
  | .committed result =>
    let s' ← { s with admission := admission }.setForkDeliveryState claim .uncertain .pending
    .ok (.committed result, s')
  | .rejected e =>
    .ok (.rejected e, { s with admission := onRejected s.admission admission }.deleteWhere (pendingOf claim))
  | .uncertain =>
    let s' ← s.setForkDeliveryState claim .uncertain .pending
    .ok (.uncertain, s')

def executeClaimedForkDelivery (command : κ) : JournalResult (ForkDeliveryExecutionV1 ρ × SqliteJournal σ) := do
  s.requireLive port session
  match port.verifyCommand s.admission session command with
  | none => .error .corrupt
  | some operation =>
    if operation ≠ claim.tuple.operation then .error .conflict
    else
      s.executeClaimed claim (fun admission => port.executeForkAdmissionCommand admission session command)
        (fun _ admission => admission)

/-- On the permit path a definite rejection rolls the command's savepoint back. -/
def executeClaimedInTopologyTransition (command : κ) :
    JournalResult (ForkDeliveryExecutionV1 ρ × SqliteJournal σ) := do
  s.requireLive port session
  match port.verifyCommand s.admission session command with
  | none => .error .corrupt
  | some operation =>
    if operation.1 ≠ .fork ∨ operation ≠ claim.tuple.operation then .error .conflict
    else
      s.executeClaimed claim (fun admission => port.executeInTopologyTransition admission session command)
        (fun before _ => before)

def requireProof (proof : π) : JournalResult Unit :=
  match port.verifyRecoveryProof s.admission session proof with
  | none => .error .corrupt
  | some operation => refuseIf (operation ≠ tuple.operation) .conflict

def recoverableRow : JournalResult Unit :=
  match s.forkDeliveryRow tuple.hostRequestId with
  | none => .error .corrupt
  | some row =>
    if row.tuple ≠ tuple then .error .conflict else if row.state = .pending then .error .fenced else .ok ()

def recoverForkDelivery (proof : π) (currentPrincipalDigest : Hash) : JournalResult ρ := do
  s.requireLive port session
  refuseIf (currentPrincipalDigest = 0) .invalidTuple
  s.recoverableRow tuple
  s.requireProof port session tuple proof
  match port.recoverForkAdmissionCommand s.admission session proof with
  | .error _ => .error .corrupt
  | .ok result =>
    if ¬ port.deliveryResultMatchesPrincipal s.admission result currentPrincipalDigest = true then .error .corrupt
    else .ok result

def markForkDeliveryUncertain : JournalResult Unit := do
  s.requireLive port session
  ownerFence claim
  (s.setForkDeliveryState claim .uncertain .uncertain).map fun _ => ()

def markForkDeliveryDelivered : JournalResult (SqliteJournal σ) := do
  s.requireLive port session
  ownerFence claim
  s.setForkDeliveryState claim .delivered .uncertain

def reconcileForkDeliveryJournal : JournalResult (Multiset ForkDeliveryTupleV1) := do
  s.requireLive port session
  .ok ((s.rows.filter fun row => row.state != .delivered).map ForkDeliveryRowV1.tuple : List ForkDeliveryTupleV1)

def undeliveredRow : JournalResult ForkDeliveryRowV1 :=
  match s.forkDeliveryRow tuple.hostRequestId with
  | none => .error .corrupt
  | some row => if row.tuple ≠ tuple ∨ row.state = .delivered then .error .fenced else .ok row

def reconcileForkDeliveryStartup (proof : π) :
    JournalResult (ForkDeliveryStartupOutcomeV1 × SqliteJournal σ) := do
  s.requireLive port session
  s.requireProof port session tuple proof
  let row ← s.undeliveredRow tuple
  match port.recoverForkAdmissionCommand s.admission session proof with
  | .ok _ =>
    let s' ← s.setForkDeliveryState ⟨tuple, row.ownerFence⟩ .uncertain .pending
    .ok (.retainedUncertain, s')
  | .error e =>
    if e = .operationMissing ∧ row.state = .pending then
      (s.affectOne (pendingOf ⟨tuple, row.ownerFence⟩) (s.deleteWhere (pendingOf ⟨tuple, row.ownerFence⟩))).map
        (.releasedPending, ·)
    else .error .corrupt

/-- `FORK_DELIVERY_DELETE_DELIVERED_SQL`: whoever owns it. -/
def deliveredOf (row : ForkDeliveryRowV1) : Bool :=
  row.tuple == tuple && row.state == .delivered

def purgeExpiredForkDelivery : JournalResult (SqliteJournal σ) := do
  s.requireLive port session
  s.affectOne (deliveredOf tuple) (s.deleteWhere (deliveredOf tuple))

def journal : JournalPort (SqliteJournal σ) ς κ π ρ where
  claimForkDelivery := claimForkDelivery port
  cancelPendingForkDelivery := cancelPendingForkDelivery port
  executeClaimedForkDelivery := executeClaimedForkDelivery port
  executeClaimedInTopologyTransition := executeClaimedInTopologyTransition port
  recoverForkDelivery := recoverForkDelivery port
  markForkDeliveryUncertain := markForkDeliveryUncertain port
  markForkDeliveryDelivered := markForkDeliveryDelivered port
  reconcileForkDeliveryJournal := reconcileForkDeliveryJournal port
  reconcileForkDeliveryStartup := reconcileForkDeliveryStartup port
  purgeExpiredForkDelivery := purgeExpiredForkDelivery port

def updateAdmission (f : σ → σ) (s : SqliteJournal σ) : SqliteJournal σ := { s with admission := f s.admission }

def exec : SqliteJournal σ → DeliveryCall σ ς κ π → SqliteJournal σ × DeliveryReply ρ :=
  (journal port).exec updateAdmission

end SqliteJournal

end Piglor.Delivery
