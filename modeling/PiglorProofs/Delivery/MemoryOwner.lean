/-
The in-memory delivery journal follows the rows: what each call does to its table, and how it answers a claim
whose row is gone.
-/
import PiglorProofs.Delivery.Ownership

namespace Piglor.Delivery

open Checked

variable {σ ς κ π ρ : Type} {port : AdmissionPort σ ς κ π ρ} {call : DeliveryCall σ ς κ π}

section Leads

variable {τ α : Type} {view : τ → Rows} {K : τ → Prop} {s : τ}

/-- A call does to the rows what its reply says, and keeps the table in order. -/
def Leads (view : τ → Rows) (K : τ → Prop) (s : τ) (call : DeliveryCall σ ς κ π) (done : τ × DeliveryReply ρ) : Prop :=
  Effect (view s) call done.2 (view done.1) ∧ K done.1

theorem Leads.quiet (hs : K s) {reply : DeliveryReply ρ} (hquiet : reply.Quiet call) : Leads view K s call (s, reply) :=
  ⟨.quiet hquiet, hs⟩

/-- A fallible change: its error leaves the rows. -/
theorem Leads.settle (hs : K s) {reply : JournalResult α → DeliveryReply ρ}
    {result : JournalResult (α × τ)} (hquiet : ∀ e, (reply (.error e)).Quiet call)
    (h : ∀ value s', result = .ok (value, s') → Leads view K s call (s', reply (.ok value))) :
    Leads view K s call (settle s reply result) := by
  rcases result with e | ⟨value, s'⟩
  · exact .quiet hs (hquiet e)
  · exact h value s' rfl

/-- A fallible change without a value. -/
theorem Leads.settle_map (hs : K s) {reply : JournalResult Unit → DeliveryReply ρ}
    {result : JournalResult τ} (hquiet : ∀ e, (reply (.error e)).Quiet call)
    (h : ∀ s', result = .ok s' → Leads view K s call (s', reply (.ok ()))) :
    Leads view K s call (Delivery.settle s reply (result.map ((), ·))) := by
  rcases result with e | s'
  · exact .quiet hs (hquiet e)
  · exact h s' rfl

end Leads

/-! ## In memory -/

namespace MemoryJournal

variable {s : MemoryJournal σ} {claim : ForkDeliveryClaimV1} {row : ForkDeliveryRowV1} {state : ForkDeliveryStateV1}

/-- The rows under their own request. -/
def view (s : MemoryJournal σ) : Rows :=
  ⟨fun row => s.forkDeliveryJournal.lookup row.tuple.hostRequestId = some row, s.forkDeliveryLastFence⟩

/-- Every row stands under its own request. -/
def Keyed (s : MemoryJournal σ) : Prop :=
  ∀ k row, s.forkDeliveryJournal.lookup k = some row → row.tuple.hostRequestId = k

theorem mem_view : row ∈ s.view.rows ↔ s.forkDeliveryJournal.lookup row.tuple.hostRequestId = some row := Iff.rfl

theorem Keyed.remove (h : s.Keyed) (k : Hash) : (s.remove k).Keyed :=
  fun j row hrow => h j row (Table.lookup_erase_eq_some.mp hrow).2

theorem Keyed.write (h : s.Keyed) (row : ForkDeliveryRowV1) : (s.write row).Keyed := by
  intro k row' hrow
  rcases Table.lookup_insert_eq_some.mp hrow with ⟨rfl, rfl⟩ | ⟨-, hrow⟩
  · rfl
  · exact h k row' hrow

theorem request_ne_iff {r : ForkDeliveryRowV1} (hrow : row ∈ s.view.rows) (hr : r ∈ s.view.rows) :
    r.tuple.hostRequestId ≠ row.tuple.hostRequestId ↔ r ≠ row := by
  refine not_congr ⟨fun heq => ?_, fun heq => heq ▸ rfl⟩
  rw [mem_view, heq, mem_view.mp hrow] at hr
  exact (Option.some.inj hr).symm

theorem view_remove (hrow : row ∈ s.view.rows) : (s.remove row.tuple.hostRequestId).view = s.view.remove row := by
  refine congrArg (Rows.mk · _) (Set.ext fun r => Table.lookup_erase_eq_some.trans ⟨?_, ?_⟩)
  · rintro ⟨hne, hr⟩
    exact ⟨hr, (request_ne_iff hrow hr).mp hne⟩
  · rintro ⟨hr, hne⟩
    exact ⟨(request_ne_iff hrow hr).mpr hne, hr⟩

theorem view_write (hrow : row ∈ s.view.rows) (state : ForkDeliveryStateV1) :
    (s.write { row with state := state }).view = s.view.advance row state := by
  refine congrArg (Rows.mk · _) (Set.ext fun r => Table.lookup_insert_eq_some.trans ⟨?_, ?_⟩)
  · rintro (⟨-, rfl⟩ | ⟨hne, hr⟩)
    · exact .inl rfl
    · exact .inr ⟨hr, (request_ne_iff hrow hr).mp hne⟩
  · rintro (rfl | ⟨hr, hne⟩)
    · exact .inl ⟨rfl, rfl⟩
    · exact .inr ⟨(request_ne_iff hrow hr).mpr hne, hr⟩

/-- A claim's row is found exactly when the claim owns it. -/
theorem claimedRow_eq_ok : s.claimedRow claim state = .ok () ↔ claim.row state ∈ s.view.rows := by
  rw [mem_view, claimedRow]
  show _ ↔ s.forkDeliveryJournal.lookup claim.tuple.hostRequestId = _
  cases s.forkDeliveryJournal.lookup claim.tuple.hostRequestId with
  | none => simp
  | some row => simp [refuseIf_eq_ok, ForkDeliveryRowV1.matchesClaim_iff]

theorem claimedRow_of_lost (h : s.view.Lost claim) : s.claimedRow claim state = .error .fenced := by
  unfold claimedRow
  split
  next row hrow =>
    refine refuseIf_pos fun hmatch => h state ?_
    rw [ForkDeliveryRowV1.matchesClaim_iff.mp hmatch] at hrow
    exact hrow
  · rfl

/-- What every call keeps. -/
structure Invariant (s : MemoryJournal σ) : Prop where
  keyed : s.Keyed
  wellFormed : s.view.WellFormed

/-! ### Calls that succeed -/

variable {s' : MemoryJournal σ} {session : ς} {tuple : ForkDeliveryTupleV1} {command : κ} {proof : π}

theorem claimAbsent_eq_ok {outcome : ForkDeliveryClaimOutcomeV1} (hkeyed : s.Keyed)
    (habsent : s.forkDeliveryJournal.lookup tuple.hostRequestId = none) (h : s.claimAbsent tuple = .ok (outcome, s')) :
    (∀ r ∈ s.view.rows, r.tuple.hostRequestId ≠ tuple.hostRequestId) ∧
      (∀ r ∈ s.view.rows, r.tuple.operation ≠ tuple.operation) ∧
      outcome = .owner ⟨tuple, s.view.lastFence + 1⟩ ∧ s'.view = s.view.handOut tuple ∧ s'.Keyed := by
  obtain ⟨⟨⟩, hoperation, h⟩ := bind_eq_ok.mp h
  rw [refuseIf_eq_ok, Table.any_iff] at hoperation
  unfold checkedAdd at h
  split at h
  · cases h
  next ownerFence hfence =>
    split at hfence
    · cases hfence
      cases h
      have hrequest : ∀ r ∈ s.view.rows, r.tuple.hostRequestId ≠ tuple.hostRequestId := by
        intro r hr heq
        rw [mem_view, heq, habsent] at hr
        cases hr
      refine ⟨hrequest, fun r hr heq => hoperation ⟨_, r, hr, ?_⟩, rfl, ?_, hkeyed.write _⟩
      · obtain ⟨hkind, hid⟩ := Prod.mk.inj heq
        simp [hkind, hid]
      · refine congrArg (Rows.mk · _) (Set.ext fun r => ?_)
        refine Table.lookup_insert_eq_some.trans ⟨?_, ?_⟩
        · rintro (⟨-, rfl⟩ | ⟨-, hr⟩)
          · exact .inl rfl
          · exact .inr hr
        · rintro (rfl | hr)
          · exact .inl ⟨rfl, rfl⟩
          · exact .inr ⟨hrequest r hr, hr⟩
    · cases hfence

/-- A call does to the journal what its reply says. -/
def Follows (port : AdmissionPort σ ς κ π ρ) (s : MemoryJournal σ) (call : DeliveryCall σ ς κ π) : Prop :=
  Effect s.view call (s.exec port call).2 (s.exec port call).1.view ∧ (s.exec port call).1.Keyed

section

variable (hs : s.Invariant)

include hs

theorem follows_claim : Follows port s (.claim session tuple) := by
  refine Leads.settle hs.keyed (fun _ => trivial) fun outcome s' hresult => ?_
  have h := of_check hresult
  replace h := of_check h
  split at h
  next row hrow =>
    split at h
    · cases h
    · split at h
      · cases h
        exact Leads.quiet hs.keyed trivial
      · cases h
        exact Leads.quiet hs.keyed trivial
  next habsent =>
    obtain ⟨hrequest, hoperation, rfl, hview, hkeyed⟩ := claimAbsent_eq_ok hs.keyed habsent h
    refine ⟨?_, hkeyed⟩
    rw [hview]
    exact .handOut hrequest hoperation

theorem follows_cancel : Follows port s (.cancel session claim) := by
  refine Leads.settle_map hs.keyed (fun _ => trivial) fun s' hresult => ?_
  have h := of_check hresult
  obtain ⟨⟨⟩, hrow, h⟩ := bind_eq_ok.mp h
  cases h
  rw [claimedRow_eq_ok] at hrow
  refine ⟨?_, hs.keyed.remove _⟩
  show Effect s.view _ _ (s.remove (claim.row .pending).tuple.hostRequestId).view
  rw [view_remove hrow]
  exact .cancel hrow

/-- Running the command of a claim, whichever way. -/
theorem effect_executeClaimed (hcall : call.executes? = some claim)
    {run : σ → σ × Except ForkAdmissionErrorV1 ρ} {execution : ForkDeliveryExecutionV1 ρ}
    (h : s.executeClaimed claim run = .ok (execution, s')) :
    Effect s.view call (.executed (.ok execution)) s'.view ∧ s'.Keyed := by
  obtain ⟨⟨⟩, hrow, h⟩ := bind_eq_ok.mp h
  rw [claimedRow_eq_ok] at hrow
  obtain ⟨rfl, rfl⟩ := Prod.mk.inj (Except.ok.inj h)
  generalize forkDeliveryExecution (run s.admission).2 = execution
  have hview : ({ s with admission := (run s.admission).1 }.write (claim.row .uncertain)).view =
      s.view.advance (claim.row .pending) .uncertain := view_write hrow .uncertain
  cases execution with
  | committed result | uncertain =>
    refine ⟨?_, hs.keyed.write _⟩
    show Effect s.view _ _ ({ s with admission := (run s.admission).1 }.write (claim.row .uncertain)).view
    rw [hview]
    exact .retain hcall hrow fun _ h => by cases h
  | rejected error =>
    refine ⟨?_, hs.keyed.remove _⟩
    show Effect s.view _ _ (s.remove (claim.row .pending).tuple.hostRequestId).view
    rw [view_remove hrow]
    exact .reject hcall hrow

theorem follows_executes (hcall : call.executes? = some claim) : Follows port s call := by
  cases call with
  | execute session held command =>
    obtain rfl := Option.some.inj hcall
    refine Leads.settle hs.keyed (fun _ => trivial) fun execution s' hresult => ?_
    change s.executeClaimedForkDelivery port session held command = .ok (execution, s') at hresult
    unfold executeClaimedForkDelivery at hresult
    split at hresult
    · cases hresult
    · exact effect_executeClaimed hs hcall (guard_eq_ok.mp hresult).2
  | executeInTransition session held command =>
    obtain rfl := Option.some.inj hcall
    refine Leads.settle hs.keyed (fun _ => trivial) fun execution s' hresult => ?_
    have h := of_check hresult
    split at h
    · cases h
    · exact effect_executeClaimed hs hcall (guard_eq_ok.mp h).2
  | _ => cases hcall

theorem follows_markDelivered : Follows port s (.markDelivered session claim) := by
  refine Leads.settle_map hs.keyed (fun _ => trivial) fun s' hresult => ?_
  have h := of_check hresult
  obtain ⟨⟨⟩, hrow, h⟩ := bind_eq_ok.mp h
  cases h
  rw [claimedRow_eq_ok] at hrow
  refine ⟨?_, hs.keyed.write _⟩
  show Effect s.view _ _ (s.write { claim.row .uncertain with state := .delivered }).view
  rw [view_write hrow]
  exact .deliver hrow

end

theorem undeliveredRow_eq_ok (h : s.undeliveredRow tuple = .ok row) :
    row ∈ s.view.rows ∧ row.tuple = tuple ∧ row.state.Moves .uncertain := by
  unfold undeliveredRow at h
  split at h
  · cases h
  next row' hrow =>
    split_ifs at h
    next hnot =>
      cases h
      rw [not_or, not_not] at hnot
      refine ⟨?_, hnot.1, ?_⟩
      · rw [mem_view, hnot.1]
        exact hrow
      · cases hstate : row.state with
        | pending => exact .inr rfl
        | uncertain => exact .inl rfl
        | delivered => exact absurd hstate hnot.2

theorem follows_reconcileStartup (hs : s.Invariant) : Follows port s (.reconcileStartup session tuple proof) := by
  refine Leads.settle hs.keyed (fun _ => trivial) fun outcome s' hresult => ?_
  have h := of_check hresult
  replace h := of_check h
  obtain ⟨⟨tuple', state, fence⟩, hrow, h⟩ := bind_eq_ok.mp h
  obtain ⟨hmem, rfl, hmoves⟩ := undeliveredRow_eq_ok hrow
  have hclaim : (ForkDeliveryClaimV1.mk tuple' fence).row state ∈ s.view.rows := hmem
  split at h
  · cases h
    refine ⟨?_, hs.keyed.write _⟩
    show Effect s.view _ _ (s.write { (ForkDeliveryClaimV1.mk tuple' fence).row state with state := .uncertain }).view
    rw [view_write hclaim]
    exact .reconcile hclaim hmoves
  · split at h
    next hstate =>
      cases h
      obtain rfl : state = .pending := hstate.2
      refine ⟨?_, hs.keyed.remove _⟩
      show Effect s.view _ _ (s.remove ((ForkDeliveryClaimV1.mk tuple' fence).row .pending).tuple.hostRequestId).view
      rw [view_remove hclaim]
      exact .release hclaim
    · cases h

theorem follows_purge (hs : s.Invariant) : Follows port s (.purge session tuple) := by
  refine Leads.settle_map hs.keyed (fun _ => trivial) fun s' hresult => ?_
  have h := of_check hresult
  obtain ⟨⟨⟩, hrow, h⟩ := bind_eq_ok.mp h
  cases h
  unfold deliveredRow at hrow
  split at hrow
  · cases hrow
  next row hlookup =>
    rw [refuseIf_eq_ok, not_not] at hrow
    obtain ⟨tuple', state, fence⟩ := row
    obtain ⟨rfl, rfl⟩ := hrow
    have hclaim : (ForkDeliveryClaimV1.mk tuple' fence).row .delivered ∈ s.view.rows := hlookup
    refine ⟨?_, hs.keyed.remove _⟩
    show Effect s.view _ _ (s.remove ((ForkDeliveryClaimV1.mk tuple' fence).row .delivered).tuple.hostRequestId).view
    rw [view_remove hclaim]
    exact .purge hclaim

theorem follows (hs : s.Invariant) (call : DeliveryCall σ ς κ π) : Follows port s call := by
  cases call with
  | claim => exact follows_claim hs
  | cancel => exact follows_cancel hs
  | execute | executeInTransition => exact follows_executes hs rfl
  | recover | reconcileJournal => exact Leads.quiet hs.keyed trivial
  | markUncertain session claim =>
    refine Leads.quiet hs.keyed ?_
    cases (journal port).markForkDeliveryUncertain s session claim with
    | error => trivial
    | ok => exact ⟨session, claim, rfl⟩
  | markDelivered => exact follows_markDelivered hs
  | reconcileStartup => exact follows_reconcileStartup hs
  | purge => exact follows_purge hs
  | other f => exact ⟨.quiet trivial, hs.keyed⟩

/-! ### Claims that own their row -/

theorem requireLive_eq (session : ς) : s.requireLive port session =
    if port.validateLiveSession s.admission session = true then .ok () else .error .corrupt :=
  ite_not ..

theorem executed (h : call.Reaches port s.admission s.view) :
    ∃ execution, (s.exec port call).2 = .executed (.ok execution) := by
  cases call with
  | execute session held command =>
    have hrow := claimedRow_eq_ok.mpr h.2
    simp only [exec, JournalPort.exec, journal, executeClaimedForkDelivery, h.1, ne_eq, not_true_eq_false, if_false,
      executeClaimed, hrow]
    exact ⟨_, rfl⟩
  | executeInTransition session held command =>
    have hrow := claimedRow_eq_ok.mpr h.2
    simp only [exec, JournalPort.exec, journal, executeClaimedInTopologyTransition, requireLive_eq,
      if_pos (port.live_of_verifyCommand h.1.1), ok_bind, h.1.1, h.1.2,
      ne_eq, not_true_eq_false, or_self, if_false, executeClaimed, hrow]
    exact ⟨_, rfl⟩
  | _ => exact h.elim

/-! ### Claims whose row is gone -/

theorem executeClaimed_of_lost (hlost : s.view.Lost claim) (run : σ → σ × Except ForkAdmissionErrorV1 ρ) :
    s.executeClaimed claim run = .error .fenced := by
  rw [executeClaimed, claimedRow_of_lost hlost, error_bind]

theorem stale (hcall : call.claim? = some claim) (hlost : s.view.Lost claim) :
    s.exec port call = (s, staleReply port s.admission call) := by
  cases call with
  | cancel session held | markUncertain session held | markDelivered session held =>
    obtain rfl := Option.some.inj hcall
    simp only [exec, JournalPort.exec, journal, cancelPendingForkDelivery, markForkDeliveryUncertain,
      markForkDeliveryDelivered, requireLive_eq, claimedRow_of_lost hlost, staleReply]
    split <;> rfl
  | execute session held command =>
    obtain rfl := Option.some.inj hcall
    simp only [exec, JournalPort.exec, journal, executeClaimedForkDelivery, executeClaimed_of_lost hlost, staleReply]
    cases port.verifyCommand s.admission session command with
    | none => rfl
    | some operation =>
      dsimp only
      split <;> rfl
  | executeInTransition session held command =>
    obtain rfl := Option.some.inj hcall
    simp only [exec, JournalPort.exec, journal, executeClaimedInTopologyTransition, executeClaimed_of_lost hlost, staleReply,
      requireLive_eq]
    cases hverify : port.verifyCommand s.admission session command with
    | none =>
      split <;> rfl
    | some operation =>
      rw [if_pos (port.live_of_verifyCommand hverify)]
      simp only [ok_bind]
      split <;> rfl
  | _ => cases hcall

theorem journaled : Journaled port (exec port) Invariant admission view where
  wellFormed h := h.wellFormed
  keeps _ call h := ⟨(follows h call).2, (follows h call).1.step.wellFormed h.wellFormed⟩
  effect h call := (follows h call).1
  executed _ _ hreaches := executed hreaches
  stale _ _ _ hcall hlost := stale hcall hlost

end MemoryJournal

end Piglor.Delivery
