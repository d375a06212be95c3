/-
The Fork delivery journal (`pos-store` fork_delivery_journal.rs) and its in-memory adapter (memory.rs): one
retained row for each claimed delivery, fenced by an owner counter that outlives the rows. The Fork admission
the journal calls is a parameter here.
-/
import PiglorProofs.Core.Types
import PiglorProofs.Lib.Checked
import PiglorProofs.Lib.Runs
import PiglorProofs.Lib.Table

namespace Piglor.Delivery

open Checked (refuseIf)

/-! ## Records -/

inductive ForkAdmissionOperationKindV1 where
  | principalOwner
  | fork
deriving DecidableEq

inductive ForkAdmissionErrorV1 where
  | invalidRequest
  | unauthenticated
  | principalOwnerConflict
  | staleFoldBoundary
  | parentChanged
  | conflict
  | corruptAuthority
  | storageIndeterminate
  | hostAuthorityMismatch
  | authorityClockUnavailable
  | clockRollback
  | operationMissing
  | authorityUninitialized
  | authorityAlreadyInitialized
  | entropyUnavailable
  | parentErasureContained
  | erasureContainmentUnavailable
deriving DecidableEq

inductive ForkDeliveryStateV1 where
  | pending
  | uncertain
  | delivered
deriving DecidableEq

structure ForkDeliveryTupleV1 where
  hostRequestId : Hash
  kind : ForkAdmissionOperationKindV1
  operationId : Hash
deriving DecidableEq

def ForkDeliveryTupleV1.operation (tuple : ForkDeliveryTupleV1) : ForkAdmissionOperationKindV1 × Hash :=
  (tuple.kind, tuple.operationId)

inductive ForkDeliveryJournalErrorV1 where
  | invalidTuple
  | conflict
  | fenced
  | corrupt
  | storageIndeterminate
deriving DecidableEq

abbrev JournalResult := Except ForkDeliveryJournalErrorV1

def ForkDeliveryTupleV1.revalidate (tuple : ForkDeliveryTupleV1) : JournalResult Unit :=
  refuseIf (tuple.hostRequestId = 0 ∨ tuple.operationId = 0) .invalidTuple

structure ForkDeliveryClaimV1 where
  tuple : ForkDeliveryTupleV1
  ownerFence : Nat
deriving DecidableEq

structure ForkDeliveryRowV1 where
  tuple : ForkDeliveryTupleV1
  state : ForkDeliveryStateV1
  ownerFence : Nat
deriving DecidableEq

def ForkDeliveryRowV1.matchesClaim (row : ForkDeliveryRowV1) (claim : ForkDeliveryClaimV1)
    (state : ForkDeliveryStateV1) : Bool :=
  row.tuple == claim.tuple && row.ownerFence == claim.ownerFence && row.state == state

def ForkDeliveryClaimV1.row (claim : ForkDeliveryClaimV1) (state : ForkDeliveryStateV1) : ForkDeliveryRowV1 :=
  ⟨claim.tuple, state, claim.ownerFence⟩

theorem ForkDeliveryRowV1.matchesClaim_iff {row : ForkDeliveryRowV1} {claim : ForkDeliveryClaimV1}
    {state : ForkDeliveryStateV1} : row.matchesClaim claim state = true ↔ row = claim.row state := by
  obtain ⟨tuple, state', fence⟩ := row
  simp only [matchesClaim, ForkDeliveryClaimV1.row, Bool.and_eq_true, beq_iff_eq, mk.injEq]
  tauto

inductive ForkDeliveryClaimOutcomeV1 where
  | owner (claim : ForkDeliveryClaimV1)
  | busy
  | reconcile (claim : ForkDeliveryClaimV1) (state : ForkDeliveryStateV1)
deriving DecidableEq

inductive ForkDeliveryStartupOutcomeV1 where
  | releasedPending
  | retainedUncertain
deriving DecidableEq

section Execution

variable {ρ : Type}

inductive ForkDeliveryExecutionV1 (ρ : Type) where
  | committed (result : ρ)
  | rejected (error : ForkAdmissionErrorV1)
  | uncertain
deriving DecidableEq

def forkDeliveryExecution : Except ForkAdmissionErrorV1 ρ → ForkDeliveryExecutionV1 ρ
  | .ok result => .committed result
  | .error .storageIndeterminate => .uncertain
  | .error error => .rejected error

end Execution

/-! ## The admission below -/

/-- The Fork admission of a store with states `σ`, sessions `ς`, commands `κ` (with the policy they are checked
against), recovery proofs `π` and results `ρ`. A command that verifies comes with a live session. -/
structure AdmissionPort (σ ς κ π ρ : Type) where
  validateLiveSession : σ → ς → Bool
  verifyCommand : σ → ς → κ → Option (ForkAdmissionOperationKindV1 × Hash)
  executeForkAdmissionCommand : σ → ς → κ → σ × Except ForkAdmissionErrorV1 ρ
  executeInTopologyTransition : σ → ς → κ → σ × Except ForkAdmissionErrorV1 ρ
  verifyRecoveryProof : σ → ς → π → Option (ForkAdmissionOperationKindV1 × Hash)
  recoverForkAdmissionCommand : σ → ς → π → Except ForkAdmissionErrorV1 ρ
  deliveryResultMatchesPrincipal : σ → ρ → Hash → Bool
  live_of_verifyCommand : ∀ {s session command operation}, verifyCommand s session command = some operation →
    validateLiveSession s session = true

/-! ## The port -/

/-- A delivery journal on states `τ`; an error leaves the state as it is. -/
structure JournalPort (τ ς κ π ρ : Type) where
  claimForkDelivery : τ → ς → ForkDeliveryTupleV1 → JournalResult (ForkDeliveryClaimOutcomeV1 × τ)
  cancelPendingForkDelivery : τ → ς → ForkDeliveryClaimV1 → JournalResult τ
  executeClaimedForkDelivery : τ → ς → ForkDeliveryClaimV1 → κ →
    JournalResult (ForkDeliveryExecutionV1 ρ × τ)
  executeClaimedInTopologyTransition : τ → ς → ForkDeliveryClaimV1 → κ →
    JournalResult (ForkDeliveryExecutionV1 ρ × τ)
  recoverForkDelivery : τ → ς → ForkDeliveryTupleV1 → π → Hash → JournalResult ρ
  markForkDeliveryUncertain : τ → ς → ForkDeliveryClaimV1 → JournalResult Unit
  markForkDeliveryDelivered : τ → ς → ForkDeliveryClaimV1 → JournalResult τ
  reconcileForkDeliveryJournal : τ → ς → JournalResult (Multiset ForkDeliveryTupleV1)
  reconcileForkDeliveryStartup : τ → ς → ForkDeliveryTupleV1 → π →
    JournalResult (ForkDeliveryStartupOutcomeV1 × τ)
  purgeExpiredForkDelivery : τ → ς → ForkDeliveryTupleV1 → JournalResult τ

/-- The calls of every connection, and what else happens to the admission state between them. -/
inductive DeliveryCall (σ ς κ π : Type) where
  | claim (session : ς) (tuple : ForkDeliveryTupleV1)
  | cancel (session : ς) (claim : ForkDeliveryClaimV1)
  | execute (session : ς) (claim : ForkDeliveryClaimV1) (command : κ)
  | executeInTransition (session : ς) (claim : ForkDeliveryClaimV1) (command : κ)
  | recover (session : ς) (tuple : ForkDeliveryTupleV1) (proof : π) (principal : Hash)
  | markUncertain (session : ς) (claim : ForkDeliveryClaimV1)
  | markDelivered (session : ς) (claim : ForkDeliveryClaimV1)
  | reconcileJournal (session : ς)
  | reconcileStartup (session : ς) (tuple : ForkDeliveryTupleV1) (proof : π)
  | purge (session : ς) (tuple : ForkDeliveryTupleV1)
  | other (update : σ → σ)

inductive DeliveryReply (ρ : Type) where
  | claimed (result : JournalResult ForkDeliveryClaimOutcomeV1)
  | done (result : JournalResult Unit)
  | executed (result : JournalResult (ForkDeliveryExecutionV1 ρ))
  | recovered (result : JournalResult ρ)
  | retained (result : JournalResult (Multiset ForkDeliveryTupleV1))
  | reconciled (result : JournalResult ForkDeliveryStartupOutcomeV1)
  | none
deriving DecidableEq

section Port

variable {σ τ ς κ π ρ : Type}

/-- Apply a fallible change, with its reply. -/
def settle {α : Type} (s : τ) (reply : JournalResult α → DeliveryReply ρ) :
    JournalResult (α × τ) → τ × DeliveryReply ρ
  | .ok (value, s') => (s', reply (.ok value))
  | .error e => (s, reply (.error e))

/-- One call on a journal whose admission state `update` changes. -/
def JournalPort.exec (port : JournalPort τ ς κ π ρ) (update : (σ → σ) → τ → τ) (s : τ) :
    DeliveryCall σ ς κ π → τ × DeliveryReply ρ
  | .claim session tuple => settle s .claimed (port.claimForkDelivery s session tuple)
  | .cancel session claim => settle s .done ((port.cancelPendingForkDelivery s session claim).map ((), ·))
  | .execute session claim command => settle s .executed (port.executeClaimedForkDelivery s session claim command)
  | .executeInTransition session claim command =>
    settle s .executed (port.executeClaimedInTopologyTransition s session claim command)
  | .recover session tuple proof principal => (s, .recovered (port.recoverForkDelivery s session tuple proof principal))
  | .markUncertain session claim => (s, .done (port.markForkDeliveryUncertain s session claim))
  | .markDelivered session claim => settle s .done ((port.markForkDeliveryDelivered s session claim).map ((), ·))
  | .reconcileJournal session => (s, .retained (port.reconcileForkDeliveryJournal s session))
  | .reconcileStartup session tuple proof => settle s .reconciled (port.reconcileForkDeliveryStartup s session tuple proof)
  | .purge session tuple => settle s .done ((port.purgeExpiredForkDelivery s session tuple).map ((), ·))
  | .other f => (update f s, .none)

end Port

/-! ## In memory -/

structure MemoryJournal (σ : Type) where
  admission : σ
  forkDeliveryJournal : Table Hash ForkDeliveryRowV1
  forkDeliveryLastFence : Nat

namespace MemoryJournal

variable {σ ς κ π ρ : Type} (port : AdmissionPort σ ς κ π ρ) (s : MemoryJournal σ)
  (session : ς) (claim : ForkDeliveryClaimV1) (tuple : ForkDeliveryTupleV1)

def claimedRow (state : ForkDeliveryStateV1) : JournalResult Unit :=
  match s.forkDeliveryJournal.lookup claim.tuple.hostRequestId with
  | some row => refuseIf (¬ row.matchesClaim claim state = true) .fenced
  | none => .error .fenced

def remove (hostRequestId : Hash) : MemoryJournal σ :=
  { s with forkDeliveryJournal := s.forkDeliveryJournal.erase hostRequestId }

def write (row : ForkDeliveryRowV1) : MemoryJournal σ :=
  { s with forkDeliveryJournal := s.forkDeliveryJournal.insert row.tuple.hostRequestId row }

def requireLive : JournalResult Unit :=
  refuseIf (¬ port.validateLiveSession s.admission session = true) .corrupt

/-- A first claim: the operation is claimed by no other request, and the fence counter moves on. -/
def claimAbsent : JournalResult (ForkDeliveryClaimOutcomeV1 × MemoryJournal σ) := do
  refuseIf (s.forkDeliveryJournal.any (fun _ row =>
    row.tuple.kind == tuple.kind && row.tuple.operationId == tuple.operationId) = true) .conflict
  match checkedAdd s.forkDeliveryLastFence 1 with
  | none => .error .storageIndeterminate
  | some ownerFence =>
    .ok (.owner ⟨tuple, ownerFence⟩,
      { s.write ⟨tuple, .pending, ownerFence⟩ with forkDeliveryLastFence := ownerFence })

def claimForkDelivery : JournalResult (ForkDeliveryClaimOutcomeV1 × MemoryJournal σ) := do
  s.requireLive port session
  tuple.revalidate
  match s.forkDeliveryJournal.lookup tuple.hostRequestId with
  | some row =>
    if row.tuple ≠ tuple then .error .conflict
    else if row.state = .pending then .ok (.busy, s)
    else .ok (.reconcile ⟨tuple, row.ownerFence⟩ row.state, s)
  | none => s.claimAbsent tuple

def cancelPendingForkDelivery : JournalResult (MemoryJournal σ) := do
  s.requireLive port session
  s.claimedRow claim .pending
  .ok (s.remove claim.tuple.hostRequestId)

/-- A definite rejection deletes Pending; every other outcome keeps the tuple Uncertain. -/
def recordForkDeliveryDisposition : ForkDeliveryExecutionV1 ρ → MemoryJournal σ
  | .rejected _ => s.remove claim.tuple.hostRequestId
  | _ => s.write (claim.row .uncertain)

/-- Run the command of a claim that still owns its Pending row. -/
def executeClaimed (run : σ → σ × Except ForkAdmissionErrorV1 ρ) :
    JournalResult (ForkDeliveryExecutionV1 ρ × MemoryJournal σ) := do
  s.claimedRow claim .pending
  let (admission, outcome) := run s.admission
  let execution := forkDeliveryExecution outcome
  .ok (execution, { s with admission := admission }.recordForkDeliveryDisposition claim execution)

def executeClaimedForkDelivery (command : κ) : JournalResult (ForkDeliveryExecutionV1 ρ × MemoryJournal σ) :=
  match port.verifyCommand s.admission session command with
  | none => .error .corrupt
  | some operation =>
    if operation ≠ claim.tuple.operation then .error .conflict
    else s.executeClaimed claim fun admission => port.executeForkAdmissionCommand admission session command

/-- A principal-owner command is no topology mutation. -/
def executeClaimedInTopologyTransition (command : κ) :
    JournalResult (ForkDeliveryExecutionV1 ρ × MemoryJournal σ) := do
  s.requireLive port session
  match port.verifyCommand s.admission session command with
  | none => .error .corrupt
  | some operation =>
    if operation.1 ≠ .fork ∨ operation ≠ claim.tuple.operation then .error .conflict
    else s.executeClaimed claim fun admission => port.executeInTopologyTransition admission session command

/-- The operation a proof asks for is the tuple's. -/
def requireProof (proof : π) : JournalResult Unit :=
  match port.verifyRecoveryProof s.admission session proof with
  | none => .error .corrupt
  | some operation => refuseIf (operation ≠ tuple.operation) .conflict

/-- The retained row of a tuple that is past Pending. -/
def recoverableRow : JournalResult Unit :=
  match s.forkDeliveryJournal.lookup tuple.hostRequestId with
  | none => .error .corrupt
  | some row =>
    if row.tuple ≠ tuple then .error .conflict else if row.state = .pending then .error .fenced else .ok ()

def recoverForkDelivery (proof : π) (currentPrincipalDigest : Hash) : JournalResult ρ := do
  s.requireLive port session
  refuseIf (currentPrincipalDigest = 0) .invalidTuple
  s.recoverableRow tuple
  s.requireProof port session tuple proof
  match port.recoverForkAdmissionCommand s.admission session proof with
  | .error _ => .error .corrupt
  | .ok result =>
    if ¬ port.deliveryResultMatchesPrincipal s.admission result currentPrincipalDigest = true then .error .corrupt
    else .ok result

def markForkDeliveryUncertain : JournalResult Unit := do
  s.requireLive port session
  s.claimedRow claim .uncertain

def markForkDeliveryDelivered : JournalResult (MemoryJournal σ) := do
  s.requireLive port session
  s.claimedRow claim .uncertain
  .ok (s.write (claim.row .delivered))

def reconcileForkDeliveryJournal : JournalResult (Multiset ForkDeliveryTupleV1) := do
  s.requireLive port session
  .ok (Table.rows (fun _ row => row.state != .delivered) (fun _ row => row.tuple) s.forkDeliveryJournal)

def undeliveredRow : JournalResult ForkDeliveryRowV1 :=
  match s.forkDeliveryJournal.lookup tuple.hostRequestId with
  | none => .error .corrupt
  | some row => if row.tuple ≠ tuple ∨ row.state = .delivered then .error .fenced else .ok row

def reconcileForkDeliveryStartup (proof : π) :
    JournalResult (ForkDeliveryStartupOutcomeV1 × MemoryJournal σ) := do
  s.requireLive port session
  s.requireProof port session tuple proof
  let row ← s.undeliveredRow tuple
  match port.recoverForkAdmissionCommand s.admission session proof with
  | .ok _ => .ok (.retainedUncertain, s.write ⟨tuple, .uncertain, row.ownerFence⟩)
  | .error e =>
    if e = .operationMissing ∧ row.state = .pending then .ok (.releasedPending, s.remove tuple.hostRequestId)
    else .error .corrupt

/-- Only an exact Delivered row is purged. -/
def deliveredRow : JournalResult Unit :=
  match s.forkDeliveryJournal.lookup tuple.hostRequestId with
  | none => .error .fenced
  | some row => refuseIf (¬ (row.tuple = tuple ∧ row.state = .delivered)) .fenced

def purgeExpiredForkDelivery : JournalResult (MemoryJournal σ) := do
  s.requireLive port session
  s.deliveredRow tuple
  .ok (s.remove tuple.hostRequestId)

def journal : JournalPort (MemoryJournal σ) ς κ π ρ where
  claimForkDelivery := claimForkDelivery port
  cancelPendingForkDelivery := cancelPendingForkDelivery port
  executeClaimedForkDelivery := executeClaimedForkDelivery port
  executeClaimedInTopologyTransition := executeClaimedInTopologyTransition port
  recoverForkDelivery := recoverForkDelivery port
  markForkDeliveryUncertain := markForkDeliveryUncertain port
  markForkDeliveryDelivered := markForkDeliveryDelivered port
  reconcileForkDeliveryJournal := reconcileForkDeliveryJournal port
  reconcileForkDeliveryStartup := reconcileForkDeliveryStartup port
  purgeExpiredForkDelivery := purgeExpiredForkDelivery port

def updateAdmission (f : σ → σ) (s : MemoryJournal σ) : MemoryJournal σ := { s with admission := f s.admission }

def exec : MemoryJournal σ → DeliveryCall σ ς κ π → MemoryJournal σ × DeliveryReply ρ :=
  (journal port).exec updateAdmission

end MemoryJournal

end Piglor.Delivery
