/-
The SQLite delivery journal follows the rows as well, so on both adapters each delivery has one owner over
every interleaving of calls, with old claims or new ones.
-/
import PiglorProofs.Delivery.MemoryOwner
import PiglorProofs.Delivery.SqliteJournal

namespace Piglor.Delivery

open Checked List MemoryJournal ForkDeliveryRowV1

variable {σ ς κ π ρ : Type} {port : AdmissionPort σ ς κ π ρ}

namespace SqliteJournal

variable {s s' : SqliteJournal σ} {claim : ForkDeliveryClaimV1} {row : ForkDeliveryRowV1}
  {touched : ForkDeliveryRowV1 → Bool}

def view (s : SqliteJournal σ) : Rows := ⟨fun row => row ∈ s.rows, s.lastFence⟩

/-- No two rows have one request, and the counter is a column value. -/
structure Keyed (s : SqliteJournal σ) : Prop where
  requests : (s.rows.map fun row => row.tuple.hostRequestId).Nodup
  inRange : s.lastFence ≤ i64Max

/-! ### Statements -/

/-- A statement on the row of one request. -/
def Touches (touched : ForkDeliveryRowV1 → Bool) (hostRequestId : Hash) : Prop :=
  ∀ row, touched row = true → row.tuple.hostRequestId = hostRequestId

theorem Keyed.eq_of_request (h : s.Keyed) {row' : ForkDeliveryRowV1} (hrow : row ∈ s.rows) (hrow' : row' ∈ s.rows)
    (heq : row.tuple.hostRequestId = row'.tuple.hostRequestId) : row = row' :=
  inj_on_of_nodup_map h.requests hrow hrow' heq

variable {k : Hash}

theorem Keyed.forkDeliveryRow_eq_some (h : s.Keyed) :
    s.forkDeliveryRow k = some row ↔ row ∈ s.rows ∧ row.tuple.hostRequestId = k := by
  constructor
  · intro hfind
    exact ⟨mem_of_find?_eq_some hfind, by simpa using find?_some hfind⟩
  · rintro ⟨hrow, rfl⟩
    have hsome : (s.forkDeliveryRow row.tuple.hostRequestId).isSome := by
      rw [forkDeliveryRow, find?_isSome]
      exact ⟨row, hrow, beq_self_eq_true _⟩
    obtain ⟨row', hrow'⟩ := Option.isSome_iff_exists.mp hsome
    rw [hrow', h.eq_of_request (mem_of_find?_eq_some hrow') hrow (by simpa using find?_some hrow')]

variable {s₁ : SqliteJournal σ} {alsoFrom : ForkDeliveryStateV1} {call : DeliveryCall σ ς κ π}

/-- A statement on one request touches one row when there is one to touch. -/
theorem Keyed.affectOne_eq_ok (h : s.Keyed) (hk : Touches touched k) :
    s.affectOne touched s₁ = .ok s' ↔ s' = s₁ ∧ ∃ row ∈ s.rows, touched row = true := by
  have hle : s.rows.countP touched ≤ 1 := by
    refine (countP_mono_left fun row _ hrow => beq_iff_eq.mpr (hk row hrow)).trans ?_
    have hcount := nodup_iff_count_le_one.mp h.requests k
    rwa [count, countP_map] at hcount
  unfold affectOne
  rw [← countP_pos_iff]
  split
  next hone => simp [hone, eq_comm]
  next hone =>
    have : ¬ 0 < s.rows.countP touched := by omega
    simp [this]

theorem affectOne_of_none (hnone : ∀ row ∈ s.rows, touched row = false) : s.affectOne touched s₁ = .error .fenced := by
  have hzero : s.rows.countP touched = 0 := by
    rw [countP_eq_zero]
    intro row hrow
    simp [hnone row hrow]
  simp [affectOne, hzero]

theorem Keyed.deleteWhere (h : s.Keyed) (touched : ForkDeliveryRowV1 → Bool) : (s.deleteWhere touched).Keyed :=
  ⟨h.requests.sublist (filter_sublist.map _), h.inRange⟩

theorem Keyed.setWhere (h : s.Keyed) (touched : ForkDeliveryRowV1 → Bool) (state : ForkDeliveryStateV1) :
    (s.setWhere touched state).Keyed := by
  have hmap : (s.setWhere touched state).rows.map (fun row => row.tuple.hostRequestId) =
      s.rows.map fun row => row.tuple.hostRequestId := by
    rw [SqliteJournal.setWhere, map_map]
    refine map_congr_left fun row _ => ?_
    simp only [Function.comp_apply]
    split <;> rfl
  exact ⟨hmap ▸ h.requests, h.inRange⟩

theorem Keyed.view_deleteWhere (h : s.Keyed) (hk : Touches touched k) (hrow : row ∈ s.rows)
    (htouched : touched row = true) : (s.deleteWhere touched).view = s.view.remove row := by
  refine congrArg (Rows.mk · _) (Set.ext fun r => ?_)
  refine mem_filter.trans ⟨?_, ?_⟩
  · rintro ⟨hr, hnot⟩
    refine ⟨hr, fun heq => ?_⟩
    rw [show r = row from heq, htouched] at hnot
    cases hnot
  · rintro ⟨hr, hne⟩
    refine ⟨hr, ?_⟩
    rw [Bool.not_eq_true', Bool.eq_false_iff]
    exact fun hr' => hne (h.eq_of_request hr hrow ((hk r hr').trans (hk row htouched).symm))

theorem Keyed.view_setWhere (h : s.Keyed) (hk : Touches touched k) (hrow : row ∈ s.rows)
    (htouched : touched row = true) (state : ForkDeliveryStateV1) :
    (s.setWhere touched state).view = s.view.advance row state := by
  have hother {r : ForkDeliveryRowV1} (hr : r ∈ s.rows) (hne : r ≠ row) : ¬ touched r = true :=
    fun hr' => hne (h.eq_of_request hr hrow ((hk r hr').trans (hk row htouched).symm))
  refine congrArg (Rows.mk · _) (Set.ext fun r => ?_)
  refine mem_map.trans ⟨?_, ?_⟩
  · rintro ⟨r₀, hr₀, rfl⟩
    by_cases heq : r₀ = row
    · subst heq
      rw [if_pos htouched]
      exact .inl rfl
    · rw [if_neg (hother hr₀ heq)]
      exact .inr ⟨hr₀, heq⟩
  · rintro (rfl | ⟨hr, hne⟩)
    · exact ⟨row, hrow, if_pos htouched⟩
    · exact ⟨r, hr, if_neg (hother hr hne)⟩

/-! ### Statements on a claim -/

theorem pendingOf_iff : pendingOf claim row = true ↔ row = claim.row .pending := matchesClaim_iff

theorem settable_iff : settable claim alsoFrom row = true ↔ row = claim.row .uncertain ∨ row = claim.row alsoFrom := by
  rw [settable, Bool.or_eq_true, matchesClaim_iff, matchesClaim_iff]

theorem touches_pendingOf (claim : ForkDeliveryClaimV1) : Touches (pendingOf claim) claim.tuple.hostRequestId := by
  intro row hrow
  rw [pendingOf_iff.mp hrow]
  rfl

theorem touches_settable (claim : ForkDeliveryClaimV1) (alsoFrom : ForkDeliveryStateV1) :
    Touches (settable claim alsoFrom) claim.tuple.hostRequestId := by
  intro row hrow
  rcases settable_iff.mp hrow with rfl | rfl
  · rfl
  · rfl

theorem touches_deliveredOf (tuple : ForkDeliveryTupleV1) : Touches (deliveredOf tuple) tuple.hostRequestId := by
  intro row hrow
  rw [deliveredOf, Bool.and_eq_true, beq_iff_eq] at hrow
  rw [hrow.1]

theorem Keyed.claimedRow_eq_ok (h : s.Keyed) : s.claimedRow claim = .ok () ↔ claim.row .pending ∈ s.rows := by
  have hfind : claim.row .pending ∈ s.rows ↔ s.forkDeliveryRow claim.tuple.hostRequestId = some (claim.row .pending) := by
    rw [h.forkDeliveryRow_eq_some]
    exact (and_iff_left rfl).symm
  rw [hfind, claimedRow]
  cases s.forkDeliveryRow claim.tuple.hostRequestId with
  | none => simp
  | some row => simp [refuseIf_eq_ok, matchesClaim_iff]

theorem Keyed.view_deletePending (h : s.Keyed) (hrow : claim.row .pending ∈ s.rows) :
    (s.deleteWhere (pendingOf claim)).view = s.view.remove (claim.row .pending) :=
  h.view_deleteWhere (touches_pendingOf claim) hrow (pendingOf_iff.mpr rfl)

theorem Keyed.deletePending_eq_ok (h : s.Keyed)
    (hok : s.affectOne (pendingOf claim) (s.deleteWhere (pendingOf claim)) = .ok s') :
    claim.row .pending ∈ s.rows ∧ s'.view = s.view.remove (claim.row .pending) ∧ s'.Keyed := by
  obtain ⟨rfl, row, hrow, htouched⟩ := (h.affectOne_eq_ok (touches_pendingOf claim)).mp hok
  obtain rfl := pendingOf_iff.mp htouched
  exact ⟨hrow, h.view_deletePending hrow, h.deleteWhere _⟩

variable {state : ForkDeliveryStateV1}

theorem Keyed.setForkDeliveryState_eq_ok (h : s.Keyed) (hok : s.setForkDeliveryState claim state alsoFrom = .ok s') :
    ∃ current, (current = .uncertain ∨ current = alsoFrom) ∧ claim.row current ∈ s.rows ∧
      s'.view = s.view.advance (claim.row current) state ∧ s'.Keyed := by
  obtain ⟨rfl, row, hrow, htouched⟩ := (h.affectOne_eq_ok (touches_settable claim alsoFrom)).mp hok
  have hview := h.view_setWhere (touches_settable claim alsoFrom) hrow htouched state
  rcases settable_iff.mp htouched with rfl | rfl
  · exact ⟨.uncertain, .inl rfl, hrow, hview, h.setWhere _ _⟩
  · exact ⟨alsoFrom, .inr rfl, hrow, hview, h.setWhere _ _⟩

/-- From the claim's Pending row. -/
theorem Keyed.setUncertain_eq_ok (h : s.Keyed) (hrow : claim.row .pending ∈ s.rows)
    (hok : s.setForkDeliveryState claim .uncertain .pending = .ok s') :
    s'.view = s.view.advance (claim.row .pending) .uncertain ∧ s'.Keyed := by
  obtain ⟨current, -, hcurrent, hview, hkeyed⟩ := h.setForkDeliveryState_eq_ok hok
  have hsame : claim.row current = claim.row .pending := h.eq_of_request hcurrent hrow rfl
  rw [hsame] at hview
  exact ⟨hview, hkeyed⟩

/-- What every call keeps. -/
structure Invariant (s : SqliteJournal σ) : Prop where
  keyed : s.Keyed
  wellFormed : s.view.WellFormed

/-! ### Calls that succeed -/

variable {session : ς} {tuple : ForkDeliveryTupleV1} {command : κ} {proof : π}

theorem claimAbsent_eq_ok (hkeyed : s.Keyed) (hfence : s.allocateFence = .ok s₁)
    (h : s₁.insertPendingForkDelivery tuple s₁.lastFence = .ok s') :
    (∀ r ∈ s.rows, r.tuple.hostRequestId ≠ tuple.hostRequestId) ∧ (∀ r ∈ s.rows, r.tuple.operation ≠ tuple.operation) ∧
      s₁.lastFence = s.view.lastFence + 1 ∧ s'.view = s.view.handOut tuple ∧ s'.Keyed := by
  unfold allocateFence at hfence
  split at hfence
  next hroom =>
    cases hfence
    unfold insertPendingForkDelivery at h
    split_ifs at h
    next hnone =>
      cases h
      have hfree : ∀ r ∈ s.rows, r.tuple.hostRequestId ≠ tuple.hostRequestId ∧ r.tuple.operation ≠ tuple.operation := by
        simpa [not_or] using hnone
      refine ⟨fun r hr => (hfree r hr).1, fun r hr => (hfree r hr).2, rfl, ?_, ?_⟩
      · refine congrArg (Rows.mk · _) (Set.ext fun r => ?_)
        refine mem_append.trans ⟨?_, ?_⟩
        · rintro (hr | hr)
          · exact .inr hr
          · exact .inl (mem_singleton.mp hr)
        · rintro (rfl | hr)
          · exact .inr (mem_singleton.mpr rfl)
          · exact .inl hr
      · refine ⟨?_, hroom.1⟩
        rw [map_append, map_singleton, nodup_append]
        refine ⟨hkeyed.requests, nodup_singleton _, ?_⟩
        intro k hk k' hk'
        obtain ⟨r, hr, rfl⟩ := mem_map.mp hk
        obtain rfl := mem_singleton.mp hk'
        exact (hfree r hr).1
  · cases hfence

theorem requireLive_eq (session : ς) : s.requireLive port session =
    if port.validateLiveSession s.admission session = true then .ok () else .error .corrupt :=
  ite_not ..

/-- A call does to the journal what its reply says. -/
def Follows (port : AdmissionPort σ ς κ π ρ) (s : SqliteJournal σ) (call : DeliveryCall σ ς κ π) : Prop :=
  Effect s.view call (s.exec port call).2 (s.exec port call).1.view ∧ (s.exec port call).1.Keyed

section

variable (hs : s.Invariant)

include hs

theorem follows_claim : Follows port s (.claim session tuple) := by
  refine Leads.settle hs.keyed (fun _ => trivial) fun outcome s' hresult => ?_
  have h := of_check hresult
  replace h := of_check h
  split at h
  · split at h
    · cases h
    · split at h
      · cases h
        exact Leads.quiet hs.keyed trivial
      · cases h
        exact Leads.quiet hs.keyed trivial
  · obtain ⟨s₁, hfence, h⟩ := bind_eq_ok.mp h
    obtain ⟨s₂, hinsert, h⟩ := bind_eq_ok.mp h
    cases h
    obtain ⟨hrequest, hoperation, hlast, hview, hkeyed⟩ := claimAbsent_eq_ok hs.keyed hfence hinsert
    refine ⟨?_, hkeyed⟩
    rw [hview, hlast]
    exact .handOut hrequest hoperation

theorem follows_cancel : Follows port s (.cancel session claim) := by
  refine Leads.settle_map hs.keyed (fun _ => trivial) fun s' hresult => ?_
  have h := of_check hresult
  replace h := of_check h
  obtain ⟨hrow, hview, hkeyed⟩ := hs.keyed.deletePending_eq_ok h
  refine ⟨?_, hkeyed⟩
  rw [hview]
  exact .cancel hrow

/-- Running the command of a claim, whichever way. -/
theorem effect_executeClaimed (hcall : call.executes? = some claim)
    {run : σ → σ × Except ForkAdmissionErrorV1 ρ} {onRejected : σ → σ → σ} {execution : ForkDeliveryExecutionV1 ρ}
    (h : s.executeClaimed claim run onRejected = .ok (execution, s')) :
    Effect s.view call (.executed (.ok execution)) s'.view ∧ s'.Keyed := by
  replace h := of_check h
  obtain ⟨⟨⟩, hrow, h⟩ := bind_eq_ok.mp h
  rw [hs.keyed.claimedRow_eq_ok] at hrow
  -- setting Uncertain, whatever the admission state has become
  have hretain {admission : σ} {s₁ : SqliteJournal σ} {outcome : ForkDeliveryExecutionV1 ρ}
      (hset : { s with admission := admission }.setForkDeliveryState claim .uncertain .pending = .ok s₁)
      (hkept : ∀ error, outcome ≠ .rejected error) : Effect s.view call (.executed (.ok outcome)) s₁.view ∧ s₁.Keyed := by
    have hkeyed : ({ s with admission := admission } : SqliteJournal σ).Keyed := ⟨hs.keyed.requests, hs.keyed.inRange⟩
    obtain ⟨hview, hkeyed'⟩ := hkeyed.setUncertain_eq_ok hrow hset
    rw [hview]
    exact ⟨.retain hcall hrow hkept, hkeyed'⟩
  dsimp only at h
  cases hexecution : forkDeliveryExecution (run s.admission).2 with
  | committed result | uncertain =>
    rw [hexecution] at h
    obtain ⟨s₁, hset, h⟩ := bind_eq_ok.mp h
    cases h
    exact hretain hset fun _ h => by cases h
  | rejected error =>
    rw [hexecution] at h
    cases h
    have hkeyed : ({ s with admission := onRejected s.admission (run s.admission).1 } : SqliteJournal σ).Keyed :=
      ⟨hs.keyed.requests, hs.keyed.inRange⟩
    rw [hkeyed.view_deletePending hrow]
    exact ⟨.reject hcall hrow, hkeyed.deleteWhere _⟩

theorem follows_executes (hcall : call.executes? = some claim) : Follows port s call := by
  cases call with
  | execute session held command | executeInTransition session held command =>
    obtain rfl := Option.some.inj hcall
    refine Leads.settle hs.keyed (fun _ => trivial) fun execution s' hresult => ?_
    have h := of_check hresult
    split at h
    · cases h
    · exact effect_executeClaimed hs hcall (guard_eq_ok.mp h).2
  | _ => cases hcall

theorem follows_markDelivered : Follows port s (.markDelivered session claim) := by
  refine Leads.settle_map hs.keyed (fun _ => trivial) fun s' hresult => ?_
  have h := of_check hresult
  replace h := of_check h
  obtain ⟨current, hcurrent, hrow, hview, hkeyed⟩ := hs.keyed.setForkDeliveryState_eq_ok h
  obtain rfl := or_self_iff.mp hcurrent
  refine ⟨?_, hkeyed⟩
  rw [hview]
  exact .deliver hrow

theorem follows_reconcileStartup : Follows port s (.reconcileStartup session tuple proof) := by
  refine Leads.settle hs.keyed (fun _ => trivial) fun outcome s' hresult => ?_
  have h := of_check hresult
  replace h := of_check h
  obtain ⟨row, -, h⟩ := bind_eq_ok.mp h
  -- both statements are on the claim of the row read
  have htuple : (ForkDeliveryClaimV1.mk tuple row.ownerFence).tuple = tuple := rfl
  split at h
  · obtain ⟨s₁, hset, h⟩ := bind_eq_ok.mp h
    cases h
    obtain ⟨current, hcurrent, hrow, hview, hkeyed⟩ := hs.keyed.setForkDeliveryState_eq_ok hset
    refine ⟨?_, hkeyed⟩
    rw [hview, ← htuple]
    refine .reconcile hrow ?_
    rcases hcurrent with rfl | rfl
    · exact .inl rfl
    · exact .inr rfl
  · split at h
    · obtain ⟨s₁, hdelete, h⟩ := map_eq_ok.mp h
      cases h
      obtain ⟨hrow, hview, hkeyed⟩ := hs.keyed.deletePending_eq_ok hdelete
      refine ⟨?_, hkeyed⟩
      rw [hview, ← htuple]
      exact .release hrow
    · cases h

theorem follows_purge : Follows port s (.purge session tuple) := by
  refine Leads.settle_map hs.keyed (fun _ => trivial) fun s' hresult => ?_
  have h := of_check hresult
  obtain ⟨rfl, row, hrow, htouched⟩ := (hs.keyed.affectOne_eq_ok (touches_deliveredOf tuple)).mp h
  have hview := hs.keyed.view_deleteWhere (touches_deliveredOf tuple) hrow htouched
  rw [deliveredOf, Bool.and_eq_true, beq_iff_eq, beq_iff_eq] at htouched
  obtain ⟨tuple', state, fence⟩ := row
  obtain ⟨rfl, rfl⟩ : tuple' = tuple ∧ state = .delivered := htouched
  have hclaim : (ForkDeliveryClaimV1.mk tuple' fence).row .delivered ∈ s.view.rows := hrow
  refine ⟨?_, hs.keyed.deleteWhere _⟩
  rw [hview]
  exact .purge hclaim

theorem follows (call : DeliveryCall σ ς κ π) : Follows port s call := by
  cases call with
  | claim => exact follows_claim hs
  | cancel => exact follows_cancel hs
  | execute | executeInTransition => exact follows_executes hs rfl
  | recover | reconcileJournal => exact Leads.quiet hs.keyed trivial
  | markUncertain session claim =>
    refine Leads.quiet hs.keyed ?_
    cases (journal port).markForkDeliveryUncertain s session claim with
    | error => trivial
    | ok => exact ⟨session, claim, rfl⟩
  | markDelivered => exact follows_markDelivered hs
  | reconcileStartup => exact follows_reconcileStartup hs
  | purge => exact follows_purge hs
  | other f => exact ⟨.quiet trivial, hs.keyed.requests, hs.keyed.inRange⟩

/-! ### Claims that own their row -/

theorem executeClaimed_of_owned (hrow : claim.row .pending ∈ s.rows)
    (run : σ → σ × Except ForkAdmissionErrorV1 ρ) (onRejected : σ → σ → σ) :
    ∃ result, s.executeClaimed claim run onRejected = .ok result := by
  have hfence : ownerFence claim = .ok () :=
    refuseIf_neg (not_lt.mpr ((hs.wellFormed.bounded hrow).trans hs.keyed.inRange))
  -- the statement that follows the command touches the row that was found
  have hset (admission : σ) :
      ({ s with admission := admission } : SqliteJournal σ).setForkDeliveryState claim .uncertain .pending =
      .ok (({ s with admission := admission } : SqliteJournal σ).setWhere (settable claim .pending) .uncertain) := by
    have hkeyed : ({ s with admission := admission } : SqliteJournal σ).Keyed := ⟨hs.keyed.requests, hs.keyed.inRange⟩
    exact (hkeyed.affectOne_eq_ok (touches_settable claim .pending)).mpr ⟨rfl, _, hrow, settable_iff.mpr (.inr rfl)⟩
  simp only [executeClaimed, hfence, hs.keyed.claimedRow_eq_ok.mpr hrow, ok_bind]
  cases forkDeliveryExecution (run s.admission).2 with
  | committed result =>
    simp only [hset, ok_bind]
    exact ⟨_, rfl⟩
  | rejected error => exact ⟨_, rfl⟩
  | uncertain =>
    simp only [hset s.admission, ok_bind]
    exact ⟨_, rfl⟩

theorem executed (h : call.Reaches port s.admission s.view) :
    ∃ execution, (s.exec port call).2 = .executed (.ok execution) := by
  cases call with
  | execute session held command =>
    obtain ⟨result, hresult⟩ := executeClaimed_of_owned hs h.2
      (fun admission => port.executeForkAdmissionCommand admission session command) (fun _ admission => admission)
    simp only [exec, JournalPort.exec, journal, executeClaimedForkDelivery, requireLive_eq,
      if_pos (port.live_of_verifyCommand h.1), ok_bind, h.1, ne_eq,
      not_true_eq_false, if_false, hresult]
    exact ⟨_, rfl⟩
  | executeInTransition session held command =>
    obtain ⟨result, hresult⟩ := executeClaimed_of_owned hs h.2
      (fun admission => port.executeInTopologyTransition admission session command) (fun before _ => before)
    simp only [exec, JournalPort.exec, journal, executeClaimedInTopologyTransition, requireLive_eq,
      if_pos (port.live_of_verifyCommand h.1.1), ok_bind, h.1.1, h.1.2,
      ne_eq, not_true_eq_false, or_self, if_false, hresult]
    exact ⟨_, rfl⟩
  | _ => exact h.elim

end

/-! ### Claims whose row is gone -/

theorem affectOne_of_lost (hlost : s.view.Lost claim)
    (htouched : ∀ row, touched row = true → ∃ state, row = claim.row state) : s.affectOne touched s₁ = .error .fenced := by
  refine affectOne_of_none fun row hrow => Bool.eq_false_iff.mpr fun htrue => ?_
  obtain ⟨state, rfl⟩ := htouched row htrue
  exact hlost state hrow

theorem setForkDeliveryState_of_lost (hlost : s.view.Lost claim) :
    s.setForkDeliveryState claim state alsoFrom = .error .fenced := by
  refine affectOne_of_lost hlost fun row hrow => ?_
  rcases settable_iff.mp hrow with rfl | rfl
  · exact ⟨_, rfl⟩
  · exact ⟨_, rfl⟩

/-- A fence out of range is refused as a stale one is. -/
theorem ownerFence_fenced {α : Type} : (ownerFence claim >>= fun _ => (.error .fenced : JournalResult α)) =
    .error .fenced := by
  unfold ownerFence refuseIf
  split <;> rfl

theorem executeClaimed_of_lost (hlost : s.view.Lost claim) (hs : s.Invariant) (run : σ → σ × Except ForkAdmissionErrorV1 ρ)
    (onRejected : σ → σ → σ) : s.executeClaimed claim run onRejected = .error .fenced := by
  have hclaimed : s.claimedRow claim = .error .fenced := by
    unfold claimedRow
    split
    next row hrow =>
      refine refuseIf_pos fun hmatch => hlost .pending ?_
      rw [← matchesClaim_iff.mp hmatch]
      exact (hs.keyed.forkDeliveryRow_eq_some.mp hrow).1
    · rfl
  simp only [executeClaimed, hclaimed, error_bind, ownerFence_fenced]

theorem stale (hs : s.Invariant) (hcall : call.claim? = some claim) (hlost : s.view.Lost claim) :
    s.exec port call = (s, staleReply port s.admission call) := by
  cases call with
  | cancel session held =>
    obtain rfl := Option.some.inj hcall
    have hfenced : s.affectOne (pendingOf held) (s.deleteWhere (pendingOf held)) = .error .fenced :=
      affectOne_of_lost hlost fun _ hrow => ⟨_, pendingOf_iff.mp hrow⟩
    simp only [exec, JournalPort.exec, journal, cancelPendingForkDelivery, requireLive_eq, hfenced, ownerFence_fenced,
      staleReply]
    split <;> rfl
  | execute session held command | executeInTransition session held command =>
    obtain rfl := Option.some.inj hcall
    simp only [exec, JournalPort.exec, journal, executeClaimedForkDelivery, executeClaimedInTopologyTransition,
      executeClaimed_of_lost hlost hs, staleReply, requireLive_eq]
    cases hverify : port.verifyCommand s.admission session command with
    | none =>
      split <;> rfl
    | some operation =>
      rw [if_pos (port.live_of_verifyCommand hverify)]
      simp only [ok_bind]
      split <;> rfl
  | markUncertain session held =>
    obtain rfl := Option.some.inj hcall
    simp only [exec, JournalPort.exec, journal, markForkDeliveryUncertain, requireLive_eq, setForkDeliveryState_of_lost hlost,
      Except.map, ownerFence_fenced, staleReply]
    split <;> rfl
  | markDelivered session held =>
    obtain rfl := Option.some.inj hcall
    simp only [exec, JournalPort.exec, journal, markForkDeliveryDelivered, requireLive_eq, setForkDeliveryState_of_lost hlost,
      ownerFence_fenced, staleReply]
    split <;> rfl
  | _ => cases hcall

theorem journaled : Journaled port (exec port) Invariant admission view where
  wellFormed h := h.wellFormed
  keeps _ call h := ⟨(follows h call).2, (follows h call).1.step.wellFormed h.wellFormed⟩
  effect h call := (follows h call).1
  executed h _ hreaches := executed h hreaches
  stale h _ _ hcall hlost := stale h hcall hlost

end SqliteJournal

/-! ## Both adapters -/

def MemoryJournal.new (admission : σ) : MemoryJournal σ := ⟨admission, ∅, 0⟩

def SqliteJournal.new (admission : σ) : SqliteJournal σ := ⟨admission, [], 0⟩

theorem MemoryJournal.invariant_new (admission : σ) : (new admission).Invariant := by
  have hnone (k : Hash) : (new admission).forkDeliveryJournal.lookup k = none := Finmap.lookup_empty k
  refine ⟨fun k row hrow => ?_, .of_empty fun row hrow => ?_⟩
  · rw [hnone] at hrow
    cases hrow
  · rw [mem_view, hnone] at hrow
    cases hrow

theorem SqliteJournal.invariant_new (admission : σ) : (SqliteJournal.new admission).Invariant :=
  ⟨⟨nodup_nil, Nat.zero_le _⟩, .of_empty fun _ => not_mem_nil⟩

/-- Each delivery has one owner, whoever calls with whatever claims. -/
theorem deliveries_have_one_owner (port : AdmissionPort σ ς κ π ρ) (admission : σ) (calls : List (DeliveryCall σ ς κ π)) :
    OneOwner port MemoryJournal.admission MemoryJournal.view
        (Runs.log (MemoryJournal.exec port) (MemoryJournal.new admission) calls) ∧
      OneOwner port SqliteJournal.admission SqliteJournal.view
        (Runs.log (SqliteJournal.exec port) (SqliteJournal.new admission) calls) :=
  ⟨journaled.oneOwner (invariant_new admission),
    SqliteJournal.journaled.oneOwner (SqliteJournal.invariant_new admission)⟩

/-- An admission whose commands and proofs are the operations themselves; a session is live or not. -/
def barePort : AdmissionPort Unit Bool (Option (ForkAdmissionOperationKindV1 × Hash)) Unit Unit where
  validateLiveSession _ session := session
  verifyCommand _ session command := if session then command else none
  executeForkAdmissionCommand s _ _ := (s, .ok ())
  executeInTopologyTransition s _ _ := (s, .ok ())
  verifyRecoveryProof _ _ _ := none
  recoverForkAdmissionCommand _ _ _ := .error .operationMissing
  deliveryResultMatchesPrincipal _ _ _ := true
  live_of_verifyCommand {s session command operation} h := by
    cases session with
    | false => cases h
    | true => rfl

/-- A delivery is claimed and cancelled; then its old claim comes back with its own command, with another
operation's, with one that does not verify, and from a session that is not live. -/
def afterCancel : List (DeliveryCall Unit Bool (Option (ForkAdmissionOperationKindV1 × Hash)) Unit) :=
  let claim : ForkDeliveryClaimV1 := ⟨⟨1, .fork, 7⟩, 1⟩
  [.claim true claim.tuple, .cancel true claim, .execute true claim (some (.fork, 7)), .execute true claim (some (.fork, 8)),
    .execute true claim none, .cancel false claim]

/-- What a call checks before the fence, it refuses first. -/
theorem old_claim_refused_before_fence :
    (Runs.log (MemoryJournal.exec barePort) (MemoryJournal.new ()) afterCancel).map Runs.Entry.reply =
        [.claimed (.ok (.owner ⟨⟨1, .fork, 7⟩, 1⟩)), .done (.ok ()), .executed (.error .fenced), .executed (.error .conflict),
          .executed (.error .corrupt), .done (.error .corrupt)] ∧
      (Runs.log (SqliteJournal.exec barePort) (SqliteJournal.new ()) afterCancel).map Runs.Entry.reply =
        [.claimed (.ok (.owner ⟨⟨1, .fork, 7⟩, 1⟩)), .done (.ok ()), .executed (.error .fenced), .executed (.error .conflict),
          .executed (.error .corrupt), .done (.error .corrupt)] := by
  decide +kernel

end Piglor.Delivery
