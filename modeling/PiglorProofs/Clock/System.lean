/-
The fence as calls that run at once. A call is cut at its lock, at its transaction and at each access to
the pending overruns: the write transaction and the release guard exclude each other, and the clearing of
a latched overrun comes after its commit, with the lock already free. A thread is a sequence of calls, so
an interleaving of threads is an interleaving of calls, and the calls carry no names here. Every port may
fail at every step, and the sources give any samples and marks.
-/
import PiglorProofs.Clock.TrustedClock
import PiglorProofs.Lib.Runs

namespace Piglor.Clock

/-- A call that writes, with what it holds when it asks for the lock. -/
inductive WriteCall where
  | reserve (wait : Nat) (before : MonotonicMarkV1) (ownerLockG0 : Option MonotonicMarkV1)
  | commitPendingLatch
  | acknowledge (request : TrustedClockOverrunAcknowledgementV1)

/-- What a transaction returns once it is committed. -/
inductive Outcome where
  | reserved (reservation : TrustedClockReservationV1)
  | latched (domain : ClockDomain) (reserving : Bool)
  | acknowledged (request : TrustedClockOverrunAcknowledgementV1)

/-- A transaction ready to commit; `seen` counts the overruns set when it read the pending overruns. -/
structure Staged where
  store : TrustedClockStore
  outcome : Outcome
  seen : Nat

/-- Who holds the authority lock, and how far they are. -/
inductive Holder where
  | free
  | writing (call : WriteCall)
  | staged (transaction : Staged)
  | guarding (reservation : TrustedClockReservationV1) (wait : Nat) (before : MonotonicMarkV1)
  | guarded (guard : ReleaseGuardV1)
  | releasing

/-- A call that committed a latch and has still to clear the pending overrun. -/
structure Clearing where
  domain : ClockDomain
  seen : Nat
  reserving : Bool

/-- Expiries a guard computed, with the premises it computed them from. -/
structure HeldExpiries where
  value : ApplicableExpiriesV1
  premises : ExpiryPremisesV1

/-- The process and its store. `overruns` counts the overruns that handoffs set; no call reads it. -/
structure System where
  store : TrustedClockStore
  pending : PendingOverruns
  holder : Holder
  clearing : List Clearing
  reservations : List TrustedClockReservationV1
  expiries : List HeldExpiries
  overruns : Nat

/-- A process that has just started over a store. -/
def start (store : TrustedClockStore) : System := ⟨store, ∅, .free, [], [], [], 0⟩

inductive Move where
  | beginWrite (durability : PortResult Bool) (begun : PortResult Unit) (call : WriteCall)
  | stage (port : TrustedClockStorePortV1) (acquired : MonotonicMarkV1) (sample : Option Nat)
  | commit (committed : PortResult Unit)
  | clear (place : Nat)
  | beginGuard (place : Nat) (wait : Nat) (before : MonotonicMarkV1) (begun : PortResult Unit)
  | checkGuard (acquired : MonotonicMarkV1) (reread : PortResult Unit)
  | applicableExpiries (premises : ExpiryPremisesV1)
  | handoff (place : Nat) (finalMark : MonotonicMarkV1) (finalSample : Option Nat) (postMark : MonotonicMarkV1)
      (postSample : Option Nat)
  | release

inductive Reply where
  | impossible
  | running
  | reserved (result : ClockResult TrustedClockReservationV1)
  | latched (result : ClockResult Bool)
  | acknowledged (result : ClockResult Unit)
  | guarded (result : ClockResult Int)
  | expiries (result : ClockResult ApplicableExpiriesV1)
  | handedOff (result : ClockResult (Option TrustedClockOverrunKindV1))
  | released

namespace WriteCall

def refuse : WriteCall → TrustedClockErrorV1 → Reply
  | .reserve _ _ _, error => .reserved (.error error)
  | .commitPendingLatch, error => .latched (.error error)
  | .acknowledge _, error => .acknowledged (.error error)

/-- What a call checks of its own before it asks for the lock. -/
def admitted : WriteCall → ClockResult Unit
  | .reserve _ before ownerLockG0 => if ownerLockLater ownerLockG0 before then .error .rollback else .ok ()
  | _ => .ok ()

/-- The body of a call's transaction; a latch commit with nothing pending has nothing to commit. -/
def transact (blake3 : ByteHash) (port : TrustedClockStorePortV1) (acquired : MonotonicMarkV1)
    (sample : Option Nat) (pending : PendingOverruns) (store : TrustedClockStore) :
    WriteCall → ClockResult (Option (TrustedClockStore × Outcome))
  | .reserve wait before ownerLockG0 => do
    let _ ← chargeWait wait .reservation before acquired
    match ← reserveInTransaction port pending sample (ownerLockG0.getD acquired) store.rows with
    | (.reserved reservation, rows) => .ok (some ({ store with rows := rows }, .reserved reservation))
    | (.latchCommitted domain, rows) => .ok (some ({ store with rows := rows }, .latched domain true))
  | .commitPendingLatch => do
    let written ← latchInTransaction port pending store.rows
    .ok (written.map fun latch => ({ store with rows := latch.2 }, .latched latch.1 false))
  | .acknowledge request => do
    let acknowledged ← acknowledgeInTransaction blake3 port sample request store
    .ok (some (acknowledged, .acknowledged request))

end WriteCall

def Outcome.commitFailed : Outcome → Reply
  | .reserved _ => .reserved (.error .reservationCommitFailed)
  | .latched _ true => .reserved (.error .overrunLatched)
  | .latched _ false => .latched (.error .durabilityUnavailable)
  | .acknowledged _ => .acknowledged (.error .durabilityUnavailable)

/-- The reply of a call that has cleared the overrun it latched: a reservation stays refused. -/
def Clearing.cleared (call : Clearing) : Reply :=
  if call.reserving then .reserved (.error .overrunLatched) else .latched (.ok true)

namespace System

variable (blake3 : ByteHash)

/-- Asking for the lock fails while another call holds it. -/
def lock (s : System) (begun : PortResult Unit) : PortResult Unit :=
  match s.holder, begun with
  | .free, begun => begun
  | _, .error error => .error error
  | _, .ok () => .error .busy

def beginWrite (s : System) (durability : PortResult Bool) (begun : PortResult Unit) (call : WriteCall) :
    System × Reply :=
  let opened : ClockResult Unit := do
    requireDurability durability
    call.admitted
    (s.lock begun).mapError reservationLockError
  match opened with
  | .error error => (s, call.refuse error)
  | .ok () => ({ s with holder := .writing call }, .running)

def stage (s : System) (port : TrustedClockStorePortV1) (acquired : MonotonicMarkV1) (sample : Option Nat) :
    System × Reply :=
  match s.holder with
  | .writing call =>
    match call.transact blake3 port acquired sample s.pending s.store with
    | .error error => ({ s with holder := .free }, call.refuse error)
    | .ok none => ({ s with holder := .free }, .latched (.ok false))
    | .ok (some (store, outcome)) => ({ s with holder := .staged ⟨store, outcome, s.overruns⟩ }, .running)
  | _ => (s, .impossible)

def commit (s : System) (committed : PortResult Unit) : System × Reply :=
  match s.holder, committed with
  | .staged transaction, .ok () =>
    match transaction.outcome with
    | .reserved reservation =>
      ({ s with store := transaction.store, holder := .free, reservations := s.reservations ++ [reservation] },
        .reserved (.ok reservation))
    | .latched domain reserving =>
      ({ s with
          store := transaction.store, holder := .free,
          clearing := s.clearing ++ [⟨domain, transaction.seen, reserving⟩] }, .running)
    | .acknowledged _ => ({ s with store := transaction.store, holder := .free }, .acknowledged (.ok ()))
  | .staged transaction, .error _ => ({ s with holder := .free }, transaction.outcome.commitFailed)
  | _, _ => (s, .impossible)

def clear (s : System) (place : Nat) : System × Reply :=
  match s.clearing[place]? with
  | some call =>
    ({ s with pending := s.pending.erase call.domain, clearing := s.clearing.eraseIdx place }, call.cleared)
  | none => (s, .impossible)

/-- A guard takes its reservation over before it asks for the lock. -/
def beginGuard (s : System) (place : Nat) (wait : Nat) (before : MonotonicMarkV1) (begun : PortResult Unit) :
    System × Reply :=
  match s.reservations[place]? with
  | none => (s, .impossible)
  | some reservation =>
    match (s.lock begun).mapError guardLockError with
    | .error error => ({ s with reservations := s.reservations.eraseIdx place }, .guarded (.error error))
    | .ok () =>
      ({ s with reservations := s.reservations.eraseIdx place, holder := .guarding reservation wait before }, .running)

def checkGuard (s : System) (acquired : MonotonicMarkV1) (reread : PortResult Unit) : System × Reply :=
  match s.holder with
  | .guarding reservation wait before =>
    let checked : ClockResult Int := do
      let _ ← chargeWait wait .guard before acquired
      reread.mapError readOutcome
      guardedHighWater s.pending s.store.rows reservation
    match checked with
    | .error error => ({ s with holder := .free }, .guarded (.error error))
    | .ok highWater => ({ s with holder := .guarded ⟨reservation, highWater⟩ }, .guarded (.ok highWater))
  | _ => (s, .impossible)

def applicableExpiries (s : System) (premises : ExpiryPremisesV1) : System × Reply :=
  match s.holder with
  | .guarded guard =>
    match guard.applicableExpiries premises with
    | .error error => (s, .expiries (.error error))
    | .ok expiries => ({ s with expiries := s.expiries ++ [⟨expiries, premises⟩] }, .expiries (.ok expiries))
  | _ => (s, .impossible)

def handoff (s : System) (place : Nat) (finalMark : MonotonicMarkV1) (finalSample : Option Nat)
    (postMark : MonotonicMarkV1) (postSample : Option Nat) : System × Reply :=
  match s.holder, s.expiries[place]? with
  | .guarded guard, some expiries =>
    match guard.handoffCheck expiries.value finalMark finalSample with
    | .error error => ({ s with holder := .free }, .handedOff (.error error))
    | .ok () =>
      match guard.postHandoffOverrun postMark postSample with
      | none => ({ s with holder := .releasing }, .handedOff (.ok none))
      | some overrun =>
        ({ s with
            pending := s.pending.insert guard.reservation.domain overrun, holder := .releasing,
            overruns := s.overruns + 1 }, .handedOff (.ok (some overrun.kind)))
  | _, _ => (s, .impossible)

/-- The guard is dropped, after its handoff or without one. -/
def release (s : System) : System × Reply :=
  match s.holder with
  | .guarded _ => ({ s with holder := .free }, .released)
  | .releasing => ({ s with holder := .free }, .released)
  | _ => (s, .impossible)

def exec (s : System) : Move → System × Reply
  | .beginWrite durability begun call => s.beginWrite durability begun call
  | .stage port acquired sample => s.stage blake3 port acquired sample
  | .commit committed => s.commit committed
  | .clear place => s.clear place
  | .beginGuard place wait before begun => s.beginGuard place wait before begun
  | .checkGuard acquired reread => s.checkGuard acquired reread
  | .applicableExpiries premises => s.applicableExpiries premises
  | .handoff place finalMark finalSample postMark postSample =>
    s.handoff place finalMark finalSample postMark postSample
  | .release => s.release

end System

/-! ## What a step does -/

/-- Neither a reservation nor a handoff has succeeded. -/
def Reply.Plain : Reply → Prop
  | .reserved (.ok _) => False
  | .handedOff (.ok _) => False
  | _ => True

/-- The steps of the system, by what they change. -/
inductive Step (blake3 : ByteHash) (s : System) : Move → System → Reply → Prop
  | stay {move reply} : reply.Plain → Step blake3 s move s reply
  | enter {move call} : s.holder = .free → Step blake3 s move { s with holder := .writing call } .running
  | leave {move reply} : reply.Plain → Step blake3 s move { s with holder := .free } reply
  | stage {port acquired sample call store outcome} : s.holder = .writing call →
      call.transact blake3 port acquired sample s.pending s.store = .ok (some (store, outcome)) →
      Step blake3 s (.stage port acquired sample) { s with holder := .staged ⟨store, outcome, s.overruns⟩ } .running
  | commitReserved {transaction reservation} : s.holder = .staged transaction →
      transaction.outcome = .reserved reservation →
      Step blake3 s (.commit (.ok ()))
        { s with store := transaction.store, holder := .free, reservations := s.reservations ++ [reservation] }
        (.reserved (.ok reservation))
  | commitLatched {transaction domain reserving} : s.holder = .staged transaction →
      transaction.outcome = .latched domain reserving →
      Step blake3 s (.commit (.ok ()))
        { s with
          store := transaction.store, holder := .free,
          clearing := s.clearing ++ [⟨domain, transaction.seen, reserving⟩] } .running
  | commitAcknowledged {transaction request} : s.holder = .staged transaction →
      transaction.outcome = .acknowledged request →
      Step blake3 s (.commit (.ok ())) { s with store := transaction.store, holder := .free } (.acknowledged (.ok ()))
  | clear {place call} : s.clearing[place]? = some call →
      Step blake3 s (.clear place)
        { s with pending := s.pending.erase call.domain, clearing := s.clearing.eraseIdx place } call.cleared
  | lose {move place reply} : reply.Plain →
      Step blake3 s move { s with reservations := s.reservations.eraseIdx place } reply
  | guarding {move place reservation wait before} : s.reservations[place]? = some reservation → s.holder = .free →
      Step blake3 s move
        { s with reservations := s.reservations.eraseIdx place, holder := .guarding reservation wait before } .running
  | guarded {move reservation wait before highWater} : s.holder = .guarding reservation wait before →
      guardedHighWater s.pending s.store.rows reservation = .ok highWater →
      Step blake3 s move { s with holder := .guarded ⟨reservation, highWater⟩ } (.guarded (.ok highWater))
  | expire {guard premises expiries} : s.holder = .guarded guard → guard.applicableExpiries premises = .ok expiries →
      Step blake3 s (.applicableExpiries premises) { s with expiries := s.expiries ++ [⟨expiries, premises⟩] }
        (.expiries (.ok expiries))
  | handoff {guard place expiries finalMark finalSample postMark postSample} : s.holder = .guarded guard →
      s.expiries[place]? = some expiries → guard.handoffCheck expiries.value finalMark finalSample = .ok () →
      guard.postHandoffOverrun postMark postSample = none →
      Step blake3 s (.handoff place finalMark finalSample postMark postSample) { s with holder := .releasing }
        (.handedOff (.ok none))
  | overrun {guard place expiries finalMark finalSample postMark postSample pending} : s.holder = .guarded guard →
      s.expiries[place]? = some expiries → guard.handoffCheck expiries.value finalMark finalSample = .ok () →
      guard.postHandoffOverrun postMark postSample = some pending →
      Step blake3 s (.handoff place finalMark finalSample postMark postSample)
        { s with
          pending := s.pending.insert guard.reservation.domain pending, holder := .releasing,
          overruns := s.overruns + 1 }
        (.handedOff (.ok (some pending.kind)))

theorem WriteCall.plain_refuse (call : WriteCall) (error : TrustedClockErrorV1) : (call.refuse error).Plain := by
  cases call <;> trivial

theorem Outcome.plain_commitFailed : ∀ outcome : Outcome, outcome.commitFailed.Plain
  | .reserved _ => trivial
  | .latched _ true => trivial
  | .latched _ false => trivial
  | .acknowledged _ => trivial

theorem Clearing.plain_cleared (call : Clearing) : call.cleared.Plain := by
  unfold Clearing.cleared
  split <;> trivial

variable {blake3 : ByteHash} {s : System}

namespace System

open Checked

theorem lock_eq_ok {begun : PortResult Unit} (h : s.lock begun = .ok ()) : s.holder = .free := by
  unfold lock at h
  split at h
  · assumption
  · cases h
  · cases h

variable (s : System)

theorem beginWrite_step (durability : PortResult Bool) (begun : PortResult Unit) (call : WriteCall) :
    Step blake3 s (.beginWrite durability begun call) (s.beginWrite durability begun call).1
      (s.beginWrite durability begun call).2 := by
  unfold beginWrite
  dsimp only
  split
  · exact .stay (call.plain_refuse _)
  · next hopened =>
    simp only [bind_eq_ok] at hopened
    obtain ⟨⟨⟩, -, ⟨⟩, -, hlock⟩ := hopened
    exact .enter (lock_eq_ok (mapError_eq_ok.mp hlock))

theorem stage_step (port : TrustedClockStorePortV1) (acquired : MonotonicMarkV1) (sample : Option Nat) :
    Step blake3 s (.stage port acquired sample) (s.stage blake3 port acquired sample).1
      (s.stage blake3 port acquired sample).2 := by
  unfold stage
  split
  · next call hcall =>
    split
    · exact .leave (call.plain_refuse _)
    · exact .leave trivial
    · next htransact => exact .stage hcall htransact
  · exact .stay trivial

theorem commit_step (committed : PortResult Unit) :
    Step blake3 s (.commit committed) (s.commit committed).1 (s.commit committed).2 := by
  unfold commit
  split
  · next transaction hstaged =>
    split
    · next houtcome => exact .commitReserved hstaged houtcome
    · next houtcome => exact .commitLatched hstaged houtcome
    · next houtcome => exact .commitAcknowledged hstaged houtcome
  · next transaction _ _ => exact .leave transaction.outcome.plain_commitFailed
  · exact .stay trivial

theorem clear_step (place : Nat) :
    Step blake3 s (.clear place) (s.clear place).1 (s.clear place).2 := by
  unfold clear
  split
  · next call hcall => exact .clear hcall
  · exact .stay trivial

theorem beginGuard_step (place wait : Nat) (before : MonotonicMarkV1) (begun : PortResult Unit) :
    Step blake3 s (.beginGuard place wait before begun) (s.beginGuard place wait before begun).1
      (s.beginGuard place wait before begun).2 := by
  unfold beginGuard
  split
  · exact .stay trivial
  · next reservation hreservation =>
    split
    · exact .lose trivial
    · next hlock => exact .guarding hreservation (lock_eq_ok (mapError_eq_ok.mp hlock))

theorem checkGuard_step (acquired : MonotonicMarkV1) (reread : PortResult Unit) :
    Step blake3 s (.checkGuard acquired reread) (s.checkGuard acquired reread).1 (s.checkGuard acquired reread).2 := by
  unfold checkGuard
  split
  · next hholder =>
    dsimp only
    split
    · exact .leave trivial
    · next hchecked =>
      simp only [bind_eq_ok] at hchecked
      obtain ⟨_, -, ⟨⟩, -, hwater⟩ := hchecked
      exact .guarded hholder hwater
  · exact .stay trivial

theorem applicableExpiries_step (premises : ExpiryPremisesV1) :
    Step blake3 s (.applicableExpiries premises) (s.applicableExpiries premises).1 (s.applicableExpiries premises).2 := by
  unfold applicableExpiries
  split
  · next guard hguard =>
    split
    · exact .stay trivial
    · next hexpiries => exact .expire hguard hexpiries
  · exact .stay trivial

theorem handoff_step (place : Nat) (finalMark : MonotonicMarkV1) (finalSample : Option Nat)
    (postMark : MonotonicMarkV1) (postSample : Option Nat) :
    Step blake3 s (.handoff place finalMark finalSample postMark postSample)
      (s.handoff place finalMark finalSample postMark postSample).1
      (s.handoff place finalMark finalSample postMark postSample).2 := by
  unfold handoff
  split
  · next guard expiries hguard hexpiries =>
    split
    · exact .leave trivial
    · next hcheck =>
      split
      · next hnone => exact .handoff hguard hexpiries hcheck hnone
      · next hsome => exact .overrun hguard hexpiries hcheck hsome
  · exact .stay trivial

theorem release_step : Step blake3 s .release s.release.1 s.release.2 := by
  unfold release
  split
  · exact .leave trivial
  · exact .leave trivial
  · exact .stay trivial

theorem exec_step (move : Move) : Step blake3 s move (s.exec blake3 move).1 (s.exec blake3 move).2 := by
  cases move with
  | beginWrite durability begun call => exact beginWrite_step s durability begun call
  | stage port acquired sample => exact stage_step s port acquired sample
  | commit committed => exact commit_step s committed
  | clear place => exact clear_step s place
  | beginGuard place wait before begun => exact beginGuard_step s place wait before begun
  | checkGuard acquired reread => exact checkGuard_step s acquired reread
  | applicableExpiries premises => exact applicableExpiries_step s premises
  | handoff place finalMark finalSample postMark postSample =>
    exact handoff_step s place finalMark finalSample postMark postSample
  | release => exact release_step s

end System

theorem step_of_mem_log {moves : List Move} {e : Runs.Entry System Move Reply}
    (he : e ∈ Runs.log (System.exec blake3) s moves) : Step blake3 e.before e.call e.after e.reply := by
  have hexec := Runs.exec_of_mem_log he
  have hstep : Step blake3 e.before e.call _ _ := System.exec_step e.before e.call
  rwa [hexec] at hstep

/-! ## What every interleaving keeps -/

/-- What a staged transaction will leave, as its outcome says. -/
def Staged.FromRows (transaction : Staged) (stored : TrustedClockRowsV1) : Prop :=
  match transaction.outcome with
  | .reserved reservation => Reserves stored transaction.store.rows reservation
  | .latched domain _ => Latches stored transaction.store.rows domain
  | .acknowledged request => Acknowledges stored transaction.store.rows request.expectedOverrunCount

/-- An identified store whose latch is open. -/
def Unlatched (rows : TrustedClockRowsV1) (domain : ClockDomain) : Prop :=
  ∃ row latch, rows = ⟨[row], [latch]⟩ ∧ row.clockDomain = domain.1 ∧ latch.latched = 0

variable {domain : ClockDomain}

theorem Unlatched.identified {rows : TrustedClockRowsV1} :
    Unlatched rows domain → Identified rows domain
  | ⟨row, latch, hrows, hdomain, _⟩ => ⟨row, latch, hrows, hdomain⟩

variable {transaction : Staged}

theorem Staged.FromRows.identified {stored : TrustedClockRowsV1}
    (h : transaction.FromRows stored) (hdomain : Identified stored domain) :
    Identified transaction.store.rows domain := by
  obtain ⟨row, latch, rfl, hrow⟩ := hdomain
  unfold Staged.FromRows at h
  split at h
  · obtain ⟨row', latch', hrows, -, -, -, -, hold, -⟩ := h
    obtain ⟨old, hold, hkept, -⟩ := hold.resolve_left (List.cons_ne_nil _ _)
    cases hold
    exact ⟨row', latch', hrows, hkept ▸ hrow⟩
  · obtain ⟨row', latch', latch'', hstored, hrows, -⟩ := h
    cases hstored
    exact ⟨row, latch'', hrows, hrow⟩
  · obtain ⟨row', latch', hstored, hrows, -⟩ := h
    cases hstored
    exact ⟨row, _, hrows, hrow⟩

/-- A staged transaction is one over the stored rows, every pending overrun is of the stored identity, and
a guard holds over an open latch. -/
structure Sound (s : System) : Prop where
  staged : ∀ transaction, s.holder = .staged transaction →
    transaction.FromRows s.store.rows ∧ transaction.seen ≤ s.overruns
  guarded : ∀ guard, s.holder = .guarded guard → Unlatched s.store.rows guard.reservation.domain
  pending : ∀ domain overrun, s.pending.lookup domain = some overrun → Identified s.store.rows domain
  clearing : ∀ call ∈ s.clearing, call.seen ≤ s.overruns

theorem sound_start (store : TrustedClockStore) : Sound (start store) where
  staged _ h := nomatch h
  guarded _ h := nomatch h
  pending _ _ h := by cases h
  clearing _ h := absurd h List.not_mem_nil

/-- Under the invariant a transaction stages what its outcome says of the stored rows. -/
theorem WriteCall.transact_fromRows {port : TrustedClockStorePortV1}
    {acquired : MonotonicMarkV1} {sample : Option Nat} {pending : PendingOverruns} {stored store : TrustedClockStore}
    {call : WriteCall} {outcome : Outcome} {seen : Nat}
    (hpending : ∀ domain overrun, pending.lookup domain = some overrun → Identified stored.rows domain)
    (h : call.transact blake3 port acquired sample pending stored = .ok (some (store, outcome))) :
    Staged.FromRows ⟨store, outcome, seen⟩ stored.rows := by
  cases call with
  | reserve wait before ownerLockG0 =>
    simp only [WriteCall.transact, Checked.bind_eq_ok] at h
    obtain ⟨remaining, -, ⟨step, rows⟩, hreserve, h⟩ := h
    cases step with
    | reserved reservation =>
      cases h
      exact reserveInTransaction_reserved hreserve
    | latchCommitted domain =>
      cases h
      exact reserveInTransaction_latch hpending hreserve
  | commitPendingLatch =>
    simp only [WriteCall.transact, Checked.bind_eq_ok] at h
    obtain ⟨written, hlatch, h⟩ := h
    obtain ⟨⟨domain, rows⟩, rfl, h⟩ := Option.map_eq_some_iff.mp (Except.ok.inj h)
    cases h
    exact latchInTransaction_latches hlatch
  | acknowledge request =>
    simp only [WriteCall.transact, Checked.bind_eq_ok] at h
    obtain ⟨acknowledged, hacknowledge, h⟩ := h
    cases h
    exact acknowledgeInTransaction_acknowledges hacknowledge

namespace Sound

variable {holder : Holder}

/-- A step that only moves the lock on. -/
theorem hold (h : Sound s) (hstaged : ∀ transaction, holder = .staged transaction →
      transaction.FromRows s.store.rows ∧ transaction.seen ≤ s.overruns)
    (hguarded : ∀ guard, holder = .guarded guard → Unlatched s.store.rows guard.reservation.domain) :
    Sound { s with holder := holder } :=
  ⟨hstaged, hguarded, h.pending, h.clearing⟩

/-- A step that puts the lock out of both a staged transaction and a guard. -/
theorem hold_other (h : Sound s) (hstaged : ∀ transaction, holder ≠ .staged transaction)
    (hguarded : ∀ guard, holder ≠ .guarded guard) : Sound { s with holder := holder } :=
  h.hold (fun transaction ht => absurd ht (hstaged transaction)) fun guard hg => absurd hg (hguarded guard)

/-- A committed transaction leaves its own store and the free lock. -/
theorem commit (h : Sound s) (hstaged : s.holder = .staged transaction) :
    Sound { s with store := transaction.store, holder := .free } where
  staged _ ht := nomatch ht
  guarded _ hg := nomatch hg
  pending domain overrun hlookup := (h.staged transaction hstaged).1.identified (h.pending domain overrun hlookup)
  clearing := h.clearing

theorem step {move : Move} {s' : System} {reply : Reply} (h : Sound s)
    (hstep : Step blake3 s move s' reply) : Sound s' := by
  cases hstep with
  | stay => exact h
  | enter | leave | handoff => exact h.hold_other nofun nofun
  | stage _ htransact =>
    refine h.hold (fun transaction ht => ?_) nofun
    cases ht
    exact ⟨WriteCall.transact_fromRows h.pending htransact, Nat.le_refl _⟩
  | commitReserved hstaged =>
    obtain ⟨hholder, hguard, hpending, hclearing⟩ := h.commit hstaged
    exact ⟨hholder, hguard, hpending, hclearing⟩
  | commitLatched hstaged =>
    obtain ⟨hholder, hguard, hpending, hclearing⟩ := h.commit hstaged
    refine ⟨hholder, hguard, hpending, fun call hcall => ?_⟩
    rcases List.mem_append.mp hcall with hcall | hcall
    · exact hclearing call hcall
    · obtain rfl := List.mem_singleton.mp hcall
      exact (h.staged _ hstaged).2
  | commitAcknowledged hstaged => exact h.commit hstaged
  | clear _ =>
    exact ⟨h.staged, h.guarded, fun domain overrun hlookup =>
      h.pending domain overrun (Table.lookup_erase_eq_some.mp hlookup).2,
      fun call hcall => h.clearing call (List.mem_of_mem_eraseIdx hcall)⟩
  | lose | expire => exact ⟨h.staged, h.guarded, h.pending, h.clearing⟩
  | guarding => exact ⟨nofun, nofun, h.pending, h.clearing⟩
  | guarded _ hwater =>
    refine h.hold nofun fun guard hguard => ?_
    cases hguard
    obtain ⟨row, latch, hrows, hdomain, hopen, -⟩ := guardedHighWater_eq_ok hwater
    exact ⟨row, latch, hrows, hdomain, hopen⟩
  | overrun hguard =>
    refine ⟨nofun, nofun, fun domain overrun hlookup => ?_, fun call hcall => Nat.le_succ_of_le (h.clearing call hcall)⟩
    rcases Table.lookup_insert_eq_some.mp hlookup with ⟨rfl, -⟩ | ⟨-, hlookup⟩
    · exact (h.guarded _ hguard).identified
    · exact h.pending domain overrun hlookup

theorem exec (s : System) (move : Move) (h : Sound s) : Sound (s.exec blake3 move).1 :=
  h.step (System.exec_step s move)

end Sound

end Piglor.Clock
