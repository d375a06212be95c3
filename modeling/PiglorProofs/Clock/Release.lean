/-
A protected release never outlives an expiry. Reservations are numbered by the stored sequence, so the
number that ties expiries to a guard names one reservation, and the decision bound the expiries were
checked against is the one the final sample is checked against. Along every run the stored high water,
reserved time and sequence only go up.
-/
import PiglorProofs.Clock.System

namespace Piglor.Clock

open Multiset Runs

/-! ## The store only moves forward -/

/-- A store with one high-water row keeps one, and none of its times nor its sequence goes down. -/
def Advances (rows rows' : TrustedClockRowsV1) : Prop :=
  ∀ row, rows.highWater = [row] → ∃ row', rows'.highWater = [row'] ∧ row.highWaterMicros ≤ row'.highWaterMicros ∧
    row.reservedUntilMicros ≤ row'.reservedUntilMicros ∧ row.reservationSeq ≤ row'.reservationSeq

namespace Advances

theorem refl (rows : TrustedClockRowsV1) : Advances rows rows :=
  fun row h => ⟨row, h, Int.le_refl _, Int.le_refl _, Int.le_refl _⟩

theorem trans {a b c : TrustedClockRowsV1} (hab : Advances a b) (hbc : Advances b c) : Advances a c := by
  intro row hrow
  obtain ⟨row', hrow', hwater, huntil, hseq⟩ := hab row hrow
  obtain ⟨row'', hrow'', hwater', huntil', hseq'⟩ := hbc row' hrow'
  exact ⟨row'', hrow'', Int.le_trans hwater hwater', Int.le_trans huntil huntil', Int.le_trans hseq hseq'⟩

end Advances

theorem Staged.FromRows.advances {transaction : Staged} {stored : TrustedClockRowsV1} (h : transaction.FromRows stored) :
    Advances stored transaction.store.rows := by
  intro row hrow
  unfold Staged.FromRows at h
  split at h
  · obtain ⟨row', latch, hrows, -, -, -, -, hold, -⟩ := h
    rw [hrow] at hold
    obtain ⟨old, hold, -, hwater, huntil, hseq⟩ := hold.resolve_left (List.cons_ne_nil _ _)
    cases hold
    exact ⟨row', by rw [hrows], hwater, huntil, Int.le_of_lt hseq⟩
  · obtain ⟨row', latch, latch', rfl, hrows, -⟩ := h
    cases hrow
    exact ⟨row, by rw [hrows], Int.le_refl _, Int.le_refl _, Int.le_refl _⟩
  · obtain ⟨row', latch, rfl, hrows, -⟩ := h
    cases hrow
    exact ⟨row, by rw [hrows], Int.le_refl _, Int.le_refl _, Int.le_refl _⟩

variable {reservation : TrustedClockReservationV1} {blake3 : ByteHash} {s s' : System} {move : Move}
  {reply : Reply}

theorem Step.advances (hs : Sound s) (h : Step blake3 s move s' reply) : Advances s.store.rows s'.store.rows := by
  cases h with
  | commitReserved hstaged | commitLatched hstaged | commitAcknowledged hstaged => exact (hs.staged _ hstaged).1.advances
  | _ => exact .refl _

/-- A reservation that is granted takes the next sequence, and the store keeps it. -/
theorem Step.reserved (hs : Sound s) (h : Step blake3 s move s' (.reserved (.ok reservation))) :
    ∃ transaction, s.holder = .staged transaction ∧ s'.store = transaction.store ∧
      Reserves s.store.rows transaction.store.rows reservation := by
  generalize hreply : Reply.reserved (.ok reservation) = reply at h
  cases h with
  | commitReserved hstaged houtcome =>
    cases hreply
    have hrows := (hs.staged _ hstaged).1
    rw [Staged.FromRows, houtcome] at hrows
    exact ⟨_, hstaged, rfl, hrows⟩
  | stay hplain | leave hplain | lose hplain => exact (hreply ▸ hplain : Reply.Plain (.reserved (.ok reservation))).elim
  | @clear place call _ => exact (hreply ▸ call.plain_cleared : Reply.Plain (.reserved (.ok reservation))).elim
  | _ => cases hreply

/-! ## Reservations and expiries that are held -/

/-- The reservation a guard has taken over. -/
def Holder.reservations : Holder → Multiset TrustedClockReservationV1
  | .guarding reservation _ _ => {reservation}
  | .guarded guard => {guard.reservation}
  | _ => 0

/-- The reservations granted and not yet used up. -/
def System.alive (s : System) : Multiset TrustedClockReservationV1 := s.reservations + s.holder.reservations

theorem System.alive_le_of_holder (hreservations : s'.reservations = s.reservations)
    (hholder : s'.holder.reservations ≤ s.holder.reservations) : s'.alive ≤ s.alive := by
  rw [System.alive, System.alive, hreservations]
  exact add_le_add_right hholder _

/-- A reservation of the store: its number is not above the stored sequence. -/
def Issued (rows : TrustedClockRowsV1) (reservation : TrustedClockReservationV1) : Prop :=
  0 ≤ reservation.sampled ∧ reservation.decisionBound = reservation.sampled + reservationWindowMicros ∧
    ∃ row, rows.highWater = [row] ∧ reservation.seq ≤ row.reservationSeq

/-- Expiries of one reservation of the store, strictly after its decision bound and not after any premise. -/
structure Bounding (rows : TrustedClockRowsV1) (alive : Multiset TrustedClockReservationV1) (expiries : HeldExpiries) : Prop where
  numbered : ∃ row, rows.highWater = [row] ∧ expiries.value.reservationSeq ≤ row.reservationSeq
  earliest : ∀ deadline ∈ expiries.premises.deadlines, expiries.value.earliest ≤ deadline
  decided : ∀ reservation ∈ alive, expiries.value.reservationSeq = reservation.seq →
    reservation.decisionBound.natAbs < expiries.value.earliest

structure Accounted (s : System) : Prop where
  issued : ∀ reservation ∈ s.alive, Issued s.store.rows reservation
  distinct : (s.alive.map TrustedClockReservationV1.seq).Nodup
  expiries : ∀ expiries ∈ s.expiries, Bounding s.store.rows s.alive expiries

variable {rows rows' : TrustedClockRowsV1}

theorem Issued.advances (h : Issued rows reservation) (hrows : Advances rows rows') : Issued rows' reservation := by
  obtain ⟨hsampled, hbound, row, hrow, hseq⟩ := h
  obtain ⟨row', hrow', -, -, hle⟩ := hrows row hrow
  exact ⟨hsampled, hbound, row', hrow', Int.le_trans hseq hle⟩

variable {expiries : HeldExpiries}

theorem Bounding.advances {alive : Multiset TrustedClockReservationV1} (h : Bounding rows alive expiries)
    (hrows : Advances rows rows') :
    Bounding rows' alive expiries where
  numbered := by
    obtain ⟨row, hrow, hseq⟩ := h.numbered
    obtain ⟨row', hrow', -, -, hle⟩ := hrows row hrow
    exact ⟨row', hrow', Int.le_trans hseq hle⟩
  earliest := h.earliest
  decided := h.decided

variable {guard : ReleaseGuardV1}

namespace Accounted

theorem start (store : TrustedClockStore) : Accounted (start store) where
  issued _ h := absurd h (notMem_zero _)
  distinct := nodup_zero
  expiries _ h := absurd h List.not_mem_nil

/-- Nothing new is held, over a store that moves forward. -/
theorem of_le (h : Accounted s) (hrows : Advances s.store.rows s'.store.rows) (halive : s'.alive ≤ s.alive)
    (hexpiries : s'.expiries = s.expiries) : Accounted s' where
  issued reservation hr := (h.issued reservation (mem_of_le halive hr)).advances hrows
  distinct := nodup_of_le (map_le_map halive) h.distinct
  expiries expiries he := by
    have hbounding := (h.expiries expiries (hexpiries ▸ he)).advances hrows
    exact ⟨hbounding.numbered, hbounding.earliest, fun reservation hr =>
      hbounding.decided reservation (mem_of_le halive hr)⟩

/-- A granted reservation has a number of its own, above those of all expiries. -/
theorem reserve (h : Accounted s)
    (hreserves : Reserves s.store.rows s'.store.rows reservation) (halive : s'.alive = reservation ::ₘ s.alive)
    (hexpiries : s'.expiries = s.expiries) (hrows : Advances s.store.rows s'.store.rows) : Accounted s' := by
  obtain ⟨row, latch, hstored, -, hnumber, hsampled, hbound, hold, -⟩ := hreserves
  have hwater : s'.store.rows.highWater = [row] := by rw [hstored]
  have habove : ∀ {old : TrustedClockHighWaterRowV1}, s.store.rows.highWater = [old] →
    old.reservationSeq < reservation.seq := by
    intro old hstoredOld
    rw [hstoredOld] at hold
    obtain ⟨old', hsame, -, -, -, hlt⟩ := hold.resolve_left (List.cons_ne_nil _ _)
    cases hsame
    exact hnumber ▸ hlt
  refine ⟨fun r hr => ?_, ?_, fun expiries he => ?_⟩
  · rw [halive] at hr
    rcases mem_cons.mp hr with rfl | hr
    · exact ⟨hsampled, hbound, row, hwater, Int.le_of_eq hnumber.symm⟩
    · exact (h.issued r hr).advances hrows
  · rw [halive, map_cons, nodup_cons]
    refine ⟨fun hmem => ?_, h.distinct⟩
    obtain ⟨other, hother, hsame⟩ := mem_map.mp hmem
    obtain ⟨-, -, old, hold, hle⟩ := h.issued other hother
    have hlt := habove hold
    omega
  · have hbounding := h.expiries expiries (hexpiries ▸ he)
    refine ⟨(hbounding.advances hrows).numbered, hbounding.earliest, fun r hr hsame => ?_⟩
    rw [halive] at hr
    rcases mem_cons.mp hr with rfl | hr
    · obtain ⟨old, hold, hle⟩ := hbounding.numbered
      have hlt := habove hold
      omega
    · exact hbounding.decided r hr hsame

/-- Expiries that a guard computes bound the one reservation of their number. -/
theorem expire (h : Accounted s) {premises : ExpiryPremisesV1} {expiries : ApplicableExpiriesV1}
    (hguard : s.holder = .guarded guard) (hexpiries : guard.applicableExpiries premises = .ok expiries) :
    Accounted { s with expiries := s.expiries ++ [⟨expiries, premises⟩] } := by
  refine ⟨h.issued, h.distinct, fun held hheld => ?_⟩
  rcases List.mem_append.mp hheld with hheld | hheld
  · exact h.expiries held hheld
  · obtain rfl := List.mem_singleton.mp hheld
    obtain ⟨-, hnumber, hdecided, hearliest⟩ := ReleaseGuardV1.applicableExpiries_eq_ok hexpiries
    have halive : guard.reservation ∈ s.alive := by
      rw [System.alive, hguard]
      exact mem_add.mpr (.inr (mem_singleton_self _))
    obtain ⟨-, -, row, hrow, hle⟩ := h.issued _ halive
    refine ⟨⟨row, hrow, hnumber ▸ hle⟩, hearliest, fun r hr hsame => ?_⟩
    -- numbers are distinct, so the reservation of this number is the guard's
    have : r = guard.reservation := inj_on_of_nodup_map h.distinct r hr _ halive (hsame.symm.trans hnumber)
    exact this ▸ hdecided

theorem step (hs : Sound s) (h : Accounted s) (hstep : Step blake3 s move s' reply) : Accounted s' := by
  have hrows := hstep.advances hs
  cases hstep with
  | stay => exact h
  | enter | leave | stage | commitLatched | commitAcknowledged | handoff | overrun =>
    exact h.of_le hrows (System.alive_le_of_holder rfl (zero_le _)) rfl
  | @commitReserved transaction reservation hstaged houtcome =>
    have hreserves := (hs.staged _ hstaged).1
    rw [Staged.FromRows, houtcome] at hreserves
    refine h.reserve hreserves ?_ rfl hrows
    rw [System.alive, System.alive, hstaged, ← coe_add]
    show (s.reservations : Multiset _) + {reservation} + 0 = reservation ::ₘ (s.reservations + 0)
    rw [add_zero, add_zero, add_comm, singleton_add]
  | clear => exact h.of_le hrows le_rfl rfl
  | lose => exact h.of_le hrows (add_le_add_left (List.eraseIdx_sublist _ _).subperm _) rfl
  | @guarding _ place reservation wait before hreservation hfree =>
    refine h.of_le hrows (le_of_eq ?_) rfl
    obtain ⟨hlt, hget⟩ := List.getElem?_eq_some_iff.mp hreservation
    rw [System.alive, System.alive, hfree]
    show ((s.reservations.eraseIdx place : List _) : Multiset _) + {reservation} = (s.reservations : Multiset _) + 0
    rw [add_zero, add_comm, singleton_add, cons_coe, ← hget]
    exact coe_eq_coe.mpr (List.getElem_cons_eraseIdx_perm hlt)
  | guarded hguarding => exact h.of_le hrows (System.alive_le_of_holder rfl (by rw [hguarding]; exact le_rfl)) rfl
  | expire hguard hexpiries => exact h.expire hguard hexpiries

theorem exec (s : System) (move : Move) (h : Sound s ∧ Accounted s) :
    Sound (s.exec blake3 move).1 ∧ Accounted (s.exec blake3 move).1 :=
  ⟨h.1.exec s move, step h.1 h.2 (System.exec_step s move)⟩

end Accounted

/-! ## Every run -/

/-- A handoff that succeeds: its final sample is within the reservation's window and before every premise of
the expiries it was given, and its mark is within the guard budget. -/
def ReleasedInTime (e : Runs.Entry System Move Reply) : Prop :=
  ∃ place finalMark micros postMark postSample guard expiries,
    e.call = .handoff place finalMark (some micros) postMark postSample ∧ e.before.holder = .guarded guard ∧
    e.before.expiries[place]? = some expiries ∧ guard.reservation.sampled ≤ micros ∧ guard.highWater ≤ micros ∧
    (micros : Int) ≤ guard.reservation.decisionBound ∧
    guard.reservation.decisionBound = guard.reservation.sampled + reservationWindowMicros ∧
    (∀ deadline ∈ expiries.premises.deadlines, micros < deadline) ∧ guard.reservation.g0 ≤ finalMark ∧
    finalMark - guard.reservation.g0 ≤ trustedClockGuardBudget

variable {e : Entry System Move Reply}

/-- The checks of a handoff bound its sample by every premise of its expiries. -/
theorem Accounted.releasedInTime (h : Accounted e.before)
    {place : Nat} {finalMark postMark : MonotonicMarkV1} {finalSample postSample : Option Nat}
    (hcall : e.call = .handoff place finalMark finalSample postMark postSample) (hguard : e.before.holder = .guarded guard)
    (hexpiries : e.before.expiries[place]? = some expiries)
    (hcheck : guard.handoffCheck expiries.value finalMark finalSample = .ok ()) : ReleasedInTime e := by
  obtain ⟨hnumber, hstarted, hbudget, micros, rfl, hsampled, hwater, hbound⟩ := ReleaseGuardV1.handoffCheck_eq_ok hcheck
  have halive : guard.reservation ∈ e.before.alive := by
    rw [System.alive, hguard]
    exact mem_add.mpr (.inr (mem_singleton_self _))
  obtain ⟨-, hwindow, -⟩ := h.issued _ halive
  have hbounding := h.expiries _ (List.mem_of_getElem? hexpiries)
  have hdecided := hbounding.decided _ halive hnumber
  refine ⟨place, finalMark, micros, postMark, postSample, guard, expiries, hcall, hguard, hexpiries, hsampled, hwater,
    hbound, hwindow, fun deadline hdeadline => ?_, hstarted, hbudget⟩
  have hearliest := hbounding.earliest deadline hdeadline
  omega

theorem Step.handedOff
    {overrun : Option TrustedClockOverrunKindV1} (h : Step blake3 s move s' (.handedOff (.ok overrun))) :
    ∃ place finalMark finalSample postMark postSample guard expiries,
      move = .handoff place finalMark finalSample postMark postSample ∧ s.holder = .guarded guard ∧
      s.expiries[place]? = some expiries ∧ guard.handoffCheck expiries.value finalMark finalSample = .ok () := by
  generalize hreply : Reply.handedOff (.ok overrun) = reply at h
  cases h with
  | handoff hguard hexpiries hcheck => exact ⟨_, _, _, _, _, _, _, rfl, hguard, hexpiries, hcheck⟩
  | overrun hguard hexpiries hcheck => exact ⟨_, _, _, _, _, _, _, rfl, hguard, hexpiries, hcheck⟩
  | stay hplain | leave hplain | lose hplain => exact (hreply ▸ hplain : Reply.Plain (.handedOff (.ok overrun))).elim
  | @clear place call _ => exact (hreply ▸ call.plain_cleared : Reply.Plain (.handedOff (.ok overrun))).elim
  | _ => cases hreply

section Runs

variable (blake3 : ByteHash) (store : TrustedClockStore)

theorem accounted_log (moves : List Move) : ∀ e ∈ log (System.exec blake3) (start store) moves,
    Sound e.before ∧ Accounted e.before :=
  fun e he => ((invariant Accounted.exec ⟨sound_start store, .start store⟩).1 e he).1

theorem sound_final (moves : List Move) : Sound (final (System.exec blake3) (start store) moves) :=
  (invariant Sound.exec (sound_start store)).2

/-- A run from a sound state moves the store forward, from its start and between any two of its steps. -/
theorem advances_run (hs : Sound s) (moves : List Move) :
    Advances s.store.rows (final (System.exec blake3) s moves).store.rows ∧
      (log (System.exec blake3) s moves).Pairwise
        (fun e f => Advances e.after.store.rows f.before.store.rows) := by
  have hforward : ∀ s move, Sound s → Sound (System.exec blake3 s move).1 ∧
      Advances s.store.rows (System.exec blake3 s move).1.store.rows :=
    fun s move hs => ⟨hs.exec s move, (System.exec_step s move).advances hs⟩
  have hrelated : _ ∧ _ ∧ Advances s.store.rows (final (System.exec blake3) s moves).store.rows :=
    related (R := fun s s' => Advances s.store.rows s'.store.rows) (fun s => .refl s.store.rows) .trans hforward hs
  exact ⟨hrelated.2.2, hrelated.2.1.imp fun h => h.1⟩

/-- Of two reservations that are granted the later has the higher number. -/
theorem reserved_lt {f : Entry System Move Reply} (he : Sound e.before) (hf : Sound f.before)
    (hfirst : Step blake3 e.before e.call e.after e.reply) (hsecond : Step blake3 f.before f.call f.after f.reply)
    (hkept : Advances e.after.store.rows f.before.store.rows) {later : TrustedClockReservationV1}
    (hreserved : e.reply = .reserved (.ok reservation)) (hlater : f.reply = .reserved (.ok later)) :
    reservation.seq < later.seq := by
  rw [hreserved] at hfirst
  rw [hlater] at hsecond
  obtain ⟨transaction, -, hafter, row, latch, hrows, -, hnumber, -⟩ := hfirst.reserved he
  obtain ⟨-, -, -, row', latch', -, -, hnumber', -, -, hold, -⟩ := hsecond.reserved hf
  obtain ⟨row'', hrow'', -, -, hle⟩ := hkept row (by rw [hafter, hrows])
  rw [hrow''] at hold
  obtain ⟨old, hsame, -, -, -, hlt⟩ := hold.resolve_left (List.cons_ne_nil _ _)
  cases hsame
  omega

/-- Whatever the sources and the ports do, every handoff that succeeds is in time, and along the run the
stored times never go down and the numbers of the reservations go up. -/
theorem release_never_outlives_expiry (moves : List Move) :
    (∀ e ∈ Runs.log (System.exec blake3) (start store) moves, ∀ overrun, e.reply = .handedOff (.ok overrun) →
      ReleasedInTime e) ∧
    (∀ first later, moves = first ++ later →
      Advances (Runs.final (System.exec blake3) (start store) first).store.rows
        (Runs.final (System.exec blake3) (start store) moves).store.rows) ∧
    (Runs.log (System.exec blake3) (start store) moves).Pairwise (fun e f => ∀ reservation later,
      e.reply = .reserved (.ok reservation) → f.reply = .reserved (.ok later) → reservation.seq < later.seq) := by
  refine ⟨fun e he overrun hreply => ?_, fun first later hmoves => ?_, ?_⟩
  · have hstep := step_of_mem_log he
    rw [hreply] at hstep
    obtain ⟨place, finalMark, finalSample, postMark, postSample, guard, expiries, hcall, hguard, hexpiries, hcheck⟩ :=
      hstep.handedOff
    exact (accounted_log blake3 store moves e he).2.releasedInTime hcall hguard hexpiries hcheck
  · rw [hmoves, final_append]
    exact (advances_run blake3 (sound_final blake3 store first) later).1
  · have hbefore := fun e he => (accounted_log blake3 store moves e he).1
    refine (advances_run blake3 (sound_start store) moves).2.imp_of_mem fun he hf hkept reservation later => ?_
    exact reserved_lt blake3 (hbefore _ he) (hbefore _ hf) (step_of_mem_log he) (step_of_mem_log hf) hkept

end Runs

/-! ## A run -/

def clockDomain : ClockDomain := ⟨List.replicate 16 7, rfl⟩

def quietPort : TrustedClockStorePortV1 :=
  ⟨.ok (), .ok 0, .ok clockDomain, .ok (), .ok (), .ok (), .ok (), .ok ()⟩

/-- A store at time zero with an open latch. -/
def openStore : TrustedClockStore :=
  ⟨⟨[⟨trustedClockFormatVersionV1, clockDomain.1, 0, 0, 0⟩], [.unlatched]⟩, []⟩

def operator : Authority.PrincipalRefV1 := ⟨1, "local", by decide +kernel⟩

theorem assured : (1 : UInt8) ≠ 0 := by decide

def operatorSession : Authority.AuthenticatedPrincipalResultV1 :=
  ⟨⟨operator, "local", ⟨1, assured⟩, 1, 100_000_000, 51⟩, by decide +kernel⟩

def noteGrant : Consent.ConsentGrantedV1 := ⟨⟨1⟩, ⟨2⟩, 1, 9, false, false, 0, 70, 1⟩

def noteConsent : Authority.ConsentGrantRefV1 :=
  ⟨⟨1, ⟨1⟩, ⟨2⟩, ["note"], ["care"], ["local"], ["read"], 0, 80_000_000, "keep", 1, operator, 1, ⟨1⟩, 1, .active, none, 1⟩,
    by decide +kernel⟩

/-- Reserve at time zero. -/
def reserveCalls : List Move :=
  [.beginWrite (.ok true) (.ok ()) (.reserve trustedClockWaitBudget 0 none), .stage quietPort 0 (some 0), .commit (.ok ())]

/-- Open the guard of the first reservation under one lease, one consent grant, one consent reference and the
operator's access. -/
def guardCalls : List Move :=
  [.beginGuard 0 trustedClockWaitBudget 0 (.ok ()), .checkGuard 0 (.ok ()),
    .applicableExpiries ⟨[⟨90_000_000⟩], [noteGrant], [noteConsent], some operatorSession⟩]

def handoffCall (place : Nat) (postSample : Option Nat) : Move := .handoff place 0 (some 0) 0 postSample

theorem reserved_release_in_time :
    let guarded := final (System.exec spellingHash) (start openStore) (reserveCalls ++ guardCalls)
    (guarded.exec spellingHash (handoffCall 0 (some 1))).2 = .handedOff (.ok none) ∧
      ReleasedInTime ⟨guarded, handoffCall 0 (some 1), (guarded.exec spellingHash (handoffCall 0 (some 1))).2,
        (guarded.exec spellingHash (handoffCall 0 (some 1))).1⟩ := by
  have hreply : ((final (System.exec spellingHash) (start openStore) (reserveCalls ++ guardCalls)).exec
      spellingHash (handoffCall 0 (some 1))).2 = .handedOff (.ok none) := by rfl
  exact ⟨hreply, (release_never_outlives_expiry spellingHash openStore
    (reserveCalls ++ guardCalls ++ [handoffCall 0 (some 1)])).1 _ (mem_log_last _ _ _) none hreply⟩

end Piglor.Clock
