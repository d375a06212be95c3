/-
What becomes of an overrun. A handoff sets it in the process-wide map; a later transaction latches it and
clears the map only after its commit, with the lock already free. As long as no call clears an overrun
that was set after it read the map, the identity stays closed until an operator acknowledges a latch
committed after the overrun; a late clear removes an overrun nobody latched.
-/
import PiglorProofs.Clock.Release

namespace Piglor.Clock

open Runs List

abbrev Entry := Runs.Entry System Move Reply

/-! ## What is seen of a step -/

def System.committed (s : System) : Move → Option Outcome
  | .commit (.ok ()) =>
    match s.holder with
    | .staged transaction => some transaction.outcome
    | _ => none
  | _ => none

def Outcome.isAcknowledged : Outcome → Bool
  | .acknowledged _ => true
  | _ => false

/-- The call whose clear a step is. -/
def System.cleared (s : System) : Move → Option Clearing
  | .clear place => s.clearing[place]?
  | _ => none

/-- The identity and the overrun of a handoff that returns. -/
def System.handedOff (s : System) : Reply → Option (ClockDomain × Option TrustedClockOverrunKindV1)
  | .handedOff (.ok overrun) =>
    match s.holder with
    | .guarded guard => some (guard.reservation.domain, overrun)
    | _ => none
  | _ => none

def Holder.isGuarded : Holder → Bool
  | .guarded _ => true
  | _ => false

theorem Holder.not_guarded {holder : Holder} {guard : ReleaseGuardV1} (h : holder.isGuarded = false) :
    holder ≠ .guarded guard := by
  rintro rfl
  cases h

variable {s : System} {outcome : Outcome}

theorem System.committed_of_staged {transaction : Staged} (h : s.holder = .staged transaction) :
    s.committed (.commit (.ok ())) = some transaction.outcome := by
  rw [System.committed, h]

variable {move : Move}

theorem System.committed_eq_some (h : s.committed move = some outcome) :
    ∃ transaction, s.holder = .staged transaction ∧ transaction.outcome = outcome ∧ move = .commit (.ok ()) := by
  unfold System.committed at h
  split at h
  · split at h
    · next transaction hstaged => exact ⟨transaction, hstaged, Option.some.inj h, rfl⟩
    · cases h
  · cases h

variable {domain : ClockDomain} {reply : Reply}

theorem System.handedOff_eq_some
    {overrun : Option TrustedClockOverrunKindV1} (h : s.handedOff reply = some (domain, overrun)) :
    reply = .handedOff (.ok overrun) ∧ ∃ guard, s.holder = .guarded guard ∧ guard.reservation.domain = domain := by
  unfold System.handedOff at h
  split at h
  · split at h
    · next guard hguard =>
      cases h
      exact ⟨rfl, guard, hguard, rfl⟩
    · cases h
  · cases h

variable {blake3 : ByteHash}

/-- A commit leaves the store its transaction staged over the stored rows. -/
theorem store_of_committed {e : Entry} (hs : Sound e.before)
    (hexec : e.before.exec blake3 e.call = (e.after, e.reply))
    (h : e.before.committed e.call = some outcome) : ∃ transaction : Staged, transaction.outcome = outcome ∧
      e.after.store = transaction.store ∧ transaction.FromRows e.before.store.rows := by
  obtain ⟨transaction, hstaged, rfl, hcall⟩ := System.committed_eq_some h
  refine ⟨transaction, rfl, ?_, (hs.staged _ hstaged).1⟩
  rw [hcall] at hexec
  have hafter : e.after = (e.before.commit (.ok ())).1 := congrArg Prod.fst hexec.symm
  rw [hafter]
  unfold System.commit
  rw [hstaged]
  dsimp only
  split <;> rfl

/-! ## An overrun keeps the identity closed -/

/-- The overrun is still in the map, over an open latch, and every clear still to come is of a transaction that
read the map before the `n`-th overrun was set. -/
structure Flagged (n : Nat) (domain : ClockDomain) (s : System) : Prop where
  pending : s.pending.lookup domain ≠ none
  rows : Unlatched s.store.rows domain
  unguarded : s.holder.isGuarded = false
  clearing : ∀ call ∈ s.clearing, call.seen < n

/-- The latch of the identity is set. -/
structure Shut (domain : ClockDomain) (s : System) : Prop where
  rows : ∃ row latch, s.store.rows = ⟨[row], [latch]⟩ ∧ row.clockDomain = domain.1 ∧ latch.latched = 1
  unguarded : s.holder.isGuarded = false

variable {s' : System} {n : Nat}

section Steps

/-- A reservation keeps the latch and the identity. -/
theorem Reserves.latch_kept {stored rows : TrustedClockRowsV1} {reservation : TrustedClockReservationV1}
    (h : Reserves stored rows reservation) {row : TrustedClockHighWaterRowV1} {latch : TrustedClockOverrunLatchRowV1}
    (hstored : stored = ⟨[row], [latch]⟩) : ∃ row', rows = ⟨[row'], [latch]⟩ ∧ row'.clockDomain = row.clockDomain := by
  obtain ⟨row', latch', hrows, -, -, -, -, hold, hlatch⟩ := h
  rw [hstored] at hold hlatch
  obtain ⟨old, hold, hdomain, -⟩ := hold.resolve_left (cons_ne_nil _ _)
  cases hold
  cases hlatch.resolve_left (cons_ne_nil _ _)
  exact ⟨row', hrows, hdomain.symm⟩

/-- One step: the overrun stays in the map until a transaction latches it. -/
theorem Flagged.step (hs : Sound s) (h : Flagged n domain s) (hstep : Step blake3 s move s' reply)
    (hfresh : ∀ call, s.cleared move = some call → call.domain = domain → n ≤ call.seen) :
    Flagged n domain s' ∨ (∃ reserving, s.committed move = some (.latched domain reserving)) ∧ Shut domain s' := by
  obtain ⟨row, latch, hrows, hdomain, hopen⟩ := h.rows
  cases hstep with
  | stay => exact .inl h
  | enter | leave | stage | guarding => exact .inl ⟨h.pending, h.rows, rfl, h.clearing⟩
  | commitReserved hstaged houtcome =>
    have hreserves := (hs.staged _ hstaged).1
    rw [Staged.FromRows, houtcome] at hreserves
    obtain ⟨row', hrows', hkept⟩ := hreserves.latch_kept hrows
    exact .inl ⟨h.pending, ⟨row', latch, hrows', hkept.trans hdomain, hopen⟩, rfl, h.clearing⟩
  | @commitLatched transaction latched reserving hstaged houtcome =>
    have hlatches := (hs.staged _ hstaged).1
    rw [Staged.FromRows, houtcome] at hlatches
    obtain ⟨row', latch', latch'', hstored, hrows', hlatched, hset, -⟩ := hlatches
    rw [hrows] at hstored
    cases hstored
    obtain rfl : latched = domain := Subtype.ext (hlatched.symm.trans hdomain)
    refine .inr ⟨⟨reserving, ?_⟩, ⟨row, latch'', hrows', hdomain, hset⟩, rfl⟩
    rw [System.committed_of_staged hstaged, houtcome]
  | commitAcknowledged hstaged houtcome =>
    -- an acknowledgement needs the latch set
    have hacknowledges := (hs.staged _ hstaged).1
    rw [Staged.FromRows, houtcome] at hacknowledges
    obtain ⟨row', latch', hstored, -, hset, -⟩ := hacknowledges
    rw [hrows] at hstored
    cases hstored
    rw [hopen] at hset
    cases hset
  | @clear place call hcall =>
    refine .inl ⟨?_, h.rows, h.unguarded, fun other hother => h.clearing other (mem_of_mem_eraseIdx hother)⟩
    have hother : domain ≠ call.domain := by
      rintro rfl
      have hlt := h.clearing call (mem_of_getElem? hcall)
      have hle := hfresh call hcall rfl
      omega
    rw [Finmap.lookup_erase_ne hother]
    exact h.pending
  | lose => exact .inl ⟨h.pending, h.rows, h.unguarded, h.clearing⟩
  | guarded _ hwater =>
    -- the guard would have to find the map empty
    obtain ⟨row', latch', hrows', hdomain', -, hnone⟩ := guardedHighWater_eq_ok hwater
    rw [hrows] at hrows'
    cases hrows'
    rw [show _ = domain from Subtype.ext (hdomain'.symm.trans hdomain)] at hnone
    exact absurd hnone h.pending
  | expire hguard | handoff hguard | overrun hguard => exact absurd hguard (Holder.not_guarded h.unguarded)

/-- One step: a set latch stays set until it is acknowledged. -/
theorem Shut.step (hs : Sound s) (h : Shut domain s) (hstep : Step blake3 s move s' reply) :
    Shut domain s' ∨ ∃ request, s.committed move = some (.acknowledged request) := by
  obtain ⟨row, latch, hrows, hdomain, hset⟩ := h.rows
  cases hstep with
  | stay => exact .inl h
  | enter => exact .inl ⟨h.rows, rfl⟩
  | leave => exact .inl ⟨h.rows, rfl⟩
  | stage => exact .inl ⟨h.rows, rfl⟩
  | commitReserved hstaged houtcome =>
    have hreserves := (hs.staged _ hstaged).1
    rw [Staged.FromRows, houtcome] at hreserves
    obtain ⟨row', hrows', hkept⟩ := hreserves.latch_kept hrows
    exact .inl ⟨⟨row', latch, hrows', hkept.trans hdomain, hset⟩, rfl⟩
  | commitLatched hstaged houtcome =>
    have hlatches := (hs.staged _ hstaged).1
    rw [Staged.FromRows, houtcome] at hlatches
    obtain ⟨row', latch', latch'', hstored, hrows', -, hset', -⟩ := hlatches
    rw [hrows] at hstored
    cases hstored
    exact .inl ⟨⟨row, latch'', hrows', hdomain, hset'⟩, rfl⟩
  | @commitAcknowledged _ request hstaged houtcome =>
    refine .inr ⟨request, ?_⟩
    rw [System.committed_of_staged hstaged, houtcome]
  | clear | lose => exact .inl ⟨h.rows, h.unguarded⟩
  | guarding => exact .inl ⟨h.rows, rfl⟩
  | guarded _ hwater =>
    obtain ⟨row', latch', hrows', -, hopen, -⟩ := guardedHighWater_eq_ok hwater
    rw [hrows] at hrows'
    cases hrows'
    rw [hopen] at hset
    cases hset
  | expire hguard | handoff hguard | overrun hguard => exact absurd hguard (Holder.not_guarded h.unguarded)

end Steps

/-! ## Along a run -/

/-- The entry acknowledges a set latch. -/
def AcknowledgesAt (e : Entry) : Prop := ∃ request, e.before.committed e.call = some (.acknowledged request)

/-- The entry commits the latch of an identity. -/
def LatchesAt (domain : ClockDomain) (e : Entry) : Prop :=
  ∃ reserving, e.before.committed e.call = some (.latched domain reserving)

theorem shut_run : ∀ (moves : List Move) {s : System}, Sound s → Shut domain s →
    Shut domain (final (System.exec blake3) s moves) ∨
      ∃ later e rest, log (System.exec blake3) s moves = later ++ e :: rest ∧ AcknowledgesAt e
  | [], _, _, h => .inl h
  | move :: moves, s, hs, h => by
    rcases h.step hs (System.exec_step s move) with hshut | hacknowledged
    · rcases shut_run moves (hs.exec s move) hshut with hshut | ⟨later, e, rest, hlog, he⟩
      · exact .inl hshut
      · exact .inr ⟨_ :: later, e, rest, congrArg _ hlog, he⟩
    · exact .inr ⟨[], _, _, rfl, hacknowledged⟩

/-- From a flagged state, the identity is closed at the end of the run, or the run latches and then acknowledges. -/
theorem flagged_run : ∀ (moves : List Move) {s : System}, Sound s → Flagged n domain s →
    (∀ e ∈ log (System.exec blake3) s moves, ∀ call, e.before.cleared e.call = some call → call.domain = domain →
      n ≤ call.seen) →
    (final (System.exec blake3) s moves).holder.isGuarded = false ∨
      ∃ first l between k rest, log (System.exec blake3) s moves = first ++ l :: (between ++ k :: rest) ∧
        LatchesAt domain l ∧ AcknowledgesAt k
  | [], _, _, h, _ => .inl h.unguarded
  | move :: moves, s, hs, h, hfresh => by
    obtain ⟨hhead, htail⟩ := forall_mem_cons.mp hfresh
    rcases h.step hs (System.exec_step s move) hhead with hflagged | ⟨hlatched, hshut⟩
    · rcases flagged_run moves (hs.exec s move) hflagged htail with hclosed | ⟨first, l, between, k, rest, hlog, hl, hk⟩
      · exact .inl hclosed
      · exact .inr ⟨_ :: first, l, between, k, rest, congrArg _ hlog, hl, hk⟩
    · rcases shut_run moves (hs.exec s move) hshut with hshut | ⟨later, e, rest, hlog, he⟩
      · exact .inl hshut.unguarded
      · exact .inr ⟨[], _, later, e, rest, congrArg _ hlog, hlatched, he⟩

/-- A handoff that overruns leaves its identity flagged. -/
theorem flagged_of_overrun {kind : TrustedClockOverrunKindV1}
    (hs : Sound s) (hstep : Step blake3 s move s' reply) (h : s.handedOff reply = some (domain, some kind)) :
    Flagged s'.overruns domain s' := by
  obtain ⟨hreply, guard, hguard, rfl⟩ := System.handedOff_eq_some h
  cases hstep with
  | @overrun guard' _ _ _ _ _ _ pending hguard' =>
    rw [hguard] at hguard'
    cases hguard'
    refine ⟨?_, hs.guarded _ hguard, rfl, fun call hcall => Nat.lt_succ_of_le (hs.clearing call hcall)⟩
    rw [Finmap.lookup_insert]
    exact Option.some_ne_none _
  | stay hplain | leave hplain | lose hplain => exact (hreply ▸ hplain : Reply.Plain (.handedOff (.ok (some kind)))).elim
  | @clear place call _ => exact (hreply ▸ call.plain_cleared : Reply.Plain (.handedOff (.ok (some kind)))).elim
  | _ => cases hreply

section Interleavings

variable (blake3 : ByteHash) (store : TrustedClockStore) (moves : List Move)

/-- In every interleaving a committed latch raises the count by one and an acknowledgement is at the latched
count. An overrun stands until a later latch is acknowledged, unless a call that read the map before it clears
it: `seen` of such a clear is below the number of the overrun. -/
theorem overrun_stands_without_late_clear :
    (∀ e ∈ Runs.log (System.exec blake3) (start store) moves, ∀ domain reserving,
      e.before.committed e.call = some (.latched domain reserving) →
        Latches e.before.store.rows e.after.store.rows domain) ∧
    (∀ e ∈ Runs.log (System.exec blake3) (start store) moves, ∀ request,
      e.before.committed e.call = some (.acknowledged request) →
        Acknowledges e.before.store.rows e.after.store.rows request.expectedOverrunCount) ∧
    ∀ before e between f after domain kind overrun,
      Runs.log (System.exec blake3) (start store) moves = before ++ e :: (between ++ f :: after) →
      e.before.handedOff e.reply = some (domain, some kind) → f.before.handedOff f.reply = some (domain, overrun) →
      (∀ c ∈ between, ∀ call, c.before.cleared c.call = some call → call.domain = domain →
        e.after.overruns ≤ call.seen) →
      ∃ first l middle k rest, between = first ++ l :: (middle ++ k :: rest) ∧ LatchesAt domain l ∧ AcknowledgesAt k := by
  have hsound : ∀ e ∈ log (System.exec blake3) (start store) moves, Sound e.before ∧ Sound e.after :=
    (invariant Sound.exec (sound_start store)).1
  refine ⟨fun e he domain reserving hcommitted => ?_, fun e he request hcommitted => ?_, ?_⟩
  · obtain ⟨transaction, houtcome, hstore, hrows⟩ :=
      store_of_committed (hsound e he).1 (exec_of_mem_log he) hcommitted
    rw [Staged.FromRows, houtcome] at hrows
    rw [hstore]
    exact hrows
  · obtain ⟨transaction, houtcome, hstore, hrows⟩ :=
      store_of_committed (hsound e he).1 (exec_of_mem_log he) hcommitted
    rw [Staged.FromRows, houtcome] at hrows
    rw [hstore]
    exact hrows
  · intro before e between f after domain kind overrun hlog he hf hfresh
    have hmem : e ∈ log (System.exec blake3) (start store) moves := by
      rw [hlog]
      exact mem_append_right _ mem_cons_self
    have hflagged := flagged_of_overrun (hsound e hmem).1 (step_of_mem_log hmem) he
    obtain ⟨-, rest, -, -, -, hrest⟩ := log_eq_append hlog
    obtain ⟨first, -, rfl, hfirst, -, -⟩ := log_eq_append hrest.symm
    obtain ⟨-, guard, hguard, -⟩ := System.handedOff_eq_some hf
    rcases flagged_run first (hsound e hmem).2 hflagged hfresh with hclosed | hdone
    · exact absurd (hfirst ▸ hguard) (Holder.not_guarded hclosed)
    · exact hdone

end Interleavings

/-! ## Runs -/

/-- Commit the latch of the pending overrun. -/
def latchCalls : List Move :=
  [.beginWrite (.ok true) (.ok ()) .commitPendingLatch, .stage quietPort 0 none, .commit (.ok ())]

def acknowledgeCalls (expected : Nat) : List Move :=
  [.beginWrite (.ok true) (.ok ()) (.acknowledge ⟨operatorSession, ⟨operator, 5, 6⟩, expected, .benignStall⟩),
    .stage quietPort 0 (some 0), .commit (.ok ())]

/-- What is reached from a store at time zero. -/
def reached (moves : List Move) : System := Runs.final (System.exec spellingHash) (start openStore) moves

/-- The steps of a run from one state. -/
def stepsFrom (s : System) (moves : List Move) : List Entry := Runs.log (System.exec spellingHash) s moves

def stepAt (s : System) (move : Move) : Entry := Runs.entry (System.exec spellingHash) s move

/-- The handoff of the first reservation, whose last sample fails. -/
def overrunStep : Entry := stepAt (reached (reserveCalls ++ guardCalls)) (handoffCall 0 none)

/-- The overrun is latched, cleared and acknowledged, and the next release is prepared. -/
def acknowledgedRun : List Move :=
  .release :: latchCalls ++ [.clear 0] ++ acknowledgeCalls 1 ++ reserveCalls ++ guardCalls

theorem acknowledged_overrun_reopens :
    overrunStep.before.handedOff overrunStep.reply = some (clockDomain, some .wallBeyondDecisionBound) ∧
    (let f := stepAt (Runs.final (System.exec spellingHash) overrunStep.after acknowledgedRun)
      (handoffCall 1 (some 1))
    f.before.handedOff f.reply = some (clockDomain, none)) ∧
    ∃ first l middle k rest, stepsFrom overrunStep.after acknowledgedRun = first ++ l :: (middle ++ k :: rest) ∧
      LatchesAt clockDomain l ∧ AcknowledgesAt k := by
  have hoverrun : overrunStep.before.handedOff overrunStep.reply = some (clockDomain, some .wallBeyondDecisionBound) := by
    decide +kernel
  have hreopened : (stepAt (final (System.exec spellingHash) overrunStep.after acknowledgedRun)
      (handoffCall 1 (some 1))).before.handedOff
      (stepAt (final (System.exec spellingHash) overrunStep.after acknowledgedRun)
        (handoffCall 1 (some 1))).reply = some (clockDomain, none) := by decide +kernel
  have hfresh : ((stepsFrom overrunStep.after acknowledgedRun).all fun c =>
      (c.before.cleared c.call).all fun call => decide (overrunStep.after.overruns ≤ call.seen)) = true := by
    decide +kernel
  refine ⟨hoverrun, hreopened, ?_⟩
  refine (overrun_stands_without_late_clear spellingHash openStore
    (reserveCalls ++ guardCalls ++ handoffCall 0 none :: (acknowledgedRun ++ [handoffCall 1 (some 1)]))).2.2
    _ _ _ _ _ clockDomain _ _ (log_around _ _ _ _ _) hoverrun hreopened fun c hc call hcall _ => ?_
  have hseen := all_eq_true.mp hfresh c hc
  rw [hcall] at hseen
  exact of_decide_eq_true hseen

/-! A latched overrun is latched once more before the first call clears it, and acknowledged. The next release
overruns as well, and the clear that is still to come removes an overrun that nobody has latched. -/

def lateClearRun : List Move :=
  reserveCalls ++ guardCalls ++ [handoffCall 0 none, .release] ++ latchCalls ++ latchCalls ++ [.clear 1] ++
    acknowledgeCalls 2 ++ reserveCalls ++ guardCalls

def secondOverrun : Entry := stepAt (reached lateClearRun) (handoffCall 1 none)

def afterLateClear : List Move := .release :: .clear 0 :: reserveCalls ++ guardCalls

def releaseAfterLateClear : Entry :=
  stepAt (Runs.final (System.exec spellingHash) secondOverrun.after afterLateClear) (handoffCall 2 (some 1))

theorem late_clear_loses_overrun :
    stepsFrom (start openStore) (lateClearRun ++ handoffCall 1 none :: (afterLateClear ++ [handoffCall 2 (some 1)])) =
      stepsFrom (start openStore) lateClearRun ++ secondOverrun ::
        (stepsFrom secondOverrun.after afterLateClear ++ [releaseAfterLateClear]) ∧
    secondOverrun.before.handedOff secondOverrun.reply = some (clockDomain, some .wallBeyondDecisionBound) ∧
    releaseAfterLateClear.before.handedOff releaseAfterLateClear.reply = some (clockDomain, none) ∧
    ∀ e ∈ stepsFrom secondOverrun.after afterLateClear, ¬ AcknowledgesAt e := by
  have hnone : ((stepsFrom secondOverrun.after afterLateClear).all fun e =>
      (e.before.committed e.call).all fun outcome => !outcome.isAcknowledged) = true := by
    decide +kernel
  refine ⟨log_around _ _ _ _ _, by decide +kernel, by decide +kernel, ?_⟩
  rintro e he ⟨request, hcommitted⟩
  have hunacknowledged := all_eq_true.mp hnone e he
  rw [hcommitted] at hunacknowledged
  cases hunacknowledged

end Piglor.Clock
