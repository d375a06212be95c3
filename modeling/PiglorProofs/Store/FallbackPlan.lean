/-
Planning a declaration or an activation from a committed state that agrees with its fold. Such a plan
is a refusal of the request, the original ledger row of a repeat, or a commit whose row is the fold
of its own Event; it never finds the state corrupt and never has too many re-based entries.
-/
import PiglorProofs.Store.FallbackFold
import PiglorProofs.Store.FallbackPorts

namespace Piglor

open Checked FallbackActivatedPayloadV1

/-- The error refuses the request; it is no finding about the stored state. -/
def CompositionFallbackRegistryErrorV1.Refusal (e : CompositionFallbackRegistryErrorV1) : Prop :=
  e ≠ .corruptState ∧ e ≠ .invalidRecord (.invalidField .rebased)

instance (e : CompositionFallbackRegistryErrorV1) : Decidable e.Refusal := by
  unfold CompositionFallbackRegistryErrorV1.Refusal
  infer_instance

/-- Every error of the result refuses the request. -/
def FallbackRefuses {α : Type} (result : FallbackResult α) : Prop := ∀ e, result = .error e → e.Refusal

variable {stored : Option FallbackRegistryRowV1} {request : FallbackActivateRequestV1}
  {ledger : List FallbackLedgerRowV1} {policy : DomainFallbackPolicyV1} {codec : FallbackCodecV1}
  {reads : FallbackReadsV1} {fold : FallbackFoldV1} {found : CurrentV1} {write : WriteV1} {n : Nat}

namespace Fallback

variable {scope : String} {fold' : FallbackFoldV1} {α : Type}

theorem refuses_ok (a : α) : FallbackRefuses (.ok a : FallbackResult α) := by
  intro e h
  cases h

theorem refuses_error {e : CompositionFallbackRegistryErrorV1} (h : e.Refusal) :
    FallbackRefuses (.error e : FallbackResult α) := by
  intro e' he
  cases he
  exact h

theorem refuses_bind {β : Type} {x : FallbackResult α} {f : α → FallbackResult β} (hx : FallbackRefuses x)
    (hf : ∀ a, x = .ok a → FallbackRefuses (f a)) : FallbackRefuses (x >>= f) := by
  intro e h
  rcases bind_eq_error.mp h with h | ⟨a, ha, h⟩
  · exact hx e h
  · exact hf a ha e h

theorem refuses_check {condition : Bool} {error : CompositionFallbackRegistryErrorV1} (h : error.Refusal) :
    FallbackRefuses (check condition error) := by
  intro e he
  rw [(check_eq_error.mp he).2]
  exact h

/-! ## The checks of a request -/

theorem refuses_checkDeclaration (state : FallbackRegistryStateV1) (policy : DomainFallbackPolicyV1) :
    FallbackRefuses (checkDeclaration codec state policy) :=
  refuses_bind (refuses_check (by decide)) fun _ _ =>
    refuses_bind (refuses_check (by decide)) fun _ _ => refuses_check (by decide)

theorem refuses_transition (policy : DomainFallbackPolicyV1) (state : FallbackRegistryStateV1)
    (input : FallbackActivatedInputV1) : FallbackRefuses (transition codec policy state input) := by
  unfold transition
  split
  · split
    · refine refuses_bind (refuses_check (by decide)) fun _ _ => ?_
      dsimp only
      split
      · exact refuses_ok _
      · exact refuses_error (by decide)
    · exact refuses_error (by decide)
  · exact refuses_error (by decide)

theorem refuses_checkRules (change : TransitionV1) (input : FallbackActivatedInputV1) :
    FallbackRefuses (checkRules codec change input) := by
  refine refuses_bind ?_ fun _ _ => refuses_bind (refuses_check (by decide)) fun _ _ => refuses_check (by decide)
  cases input.triggerBasis.origin with
  | automatic => exact refuses_bind (refuses_check (by decide)) fun _ _ => refuses_check (by decide)
  | owner => exact refuses_ok ()

theorem refuses_activatedPayload (input : FallbackActivatedInputV1) :
    FallbackRefuses (ofRecord (new input)) := by
  unfold new
  split_ifs
  · exact refuses_ok _
  all_goals exact refuses_error (by decide)

theorem refuses_checkFresh (hhead : FallbackRefuses (reads.timelineHead write.target.timeline))
    (revision : Nat) : FallbackRefuses (write.checkFresh reads revision) :=
  refuses_bind (refuses_check (by decide)) fun _ _ => refuses_bind hhead fun _ _ => refuses_check (by decide)

/-! ## The commit of a fresh request -/

variable {result : Except FallbackRecordErrorV1 α} {payload : FallbackActivatedPayloadV1}

theorem checkDeclaration_eq_ok {state : FallbackRegistryStateV1} (h : checkDeclaration codec state policy = .ok ()) :
    policy.previousPolicyDigest = state.policyDigest ∧ state.primaryMismatch codec policy = false := by
  obtain ⟨⟨⟩, hprevious, h⟩ := bind_eq_ok.mp h
  replace h := of_check h
  exact ⟨by simpa using check_eq_ok.mp hprevious, by simpa using check_eq_ok.mp h⟩

theorem declareFresh_of_ok (hvalid : found.fold.Valid n) (write : WriteV1) (request : FallbackDeclareRequestV1)
    (h : checkDeclaration codec found.fold.state policy = .ok ()) : ∃ payload fold',
      payload.scope = policy.scope ∧ payload.policyDigest = policy.policyDigest ∧
      found.fold.applyDeclared codec payload policy = .ok fold' ∧
      declareFresh codec write found policy request = .ok (write.commit found policy.policyDigest fold'
        (EventDraft.new write.target.entity compositionFallbackDeclaredEventTypeV1 (codec.encodeDeclared payload))
        (.declaration (codec.conformanceDigest request.conformance))
        (some (policy.policyDigest, request.policyBytes))) := by
  obtain ⟨hprevious, hprimary⟩ := checkDeclaration_eq_ok h
  have hscope : textWithin policy.scope 128 = true := by
    have := policy.valid
    simp only [Bool.and_eq_true] at this
    exact this.1.1
  let payload : FallbackDeclaredPayloadV1 := ⟨policy.scope, policy.policyDigest, policy.previousPolicyDigest,
    found.fold.state.rebasedEntries, by rw [hscope, hvalid.rebased]; rfl⟩
  have hpayload : FallbackDeclaredPayloadV1.forPolicy policy found.fold.state.rebasedEntries = .ok payload := by
    rw [FallbackDeclaredPayloadV1.forPolicy, FallbackDeclaredPayloadV1.new, dif_pos hscope, dif_pos hvalid.rebased]
  have happly : found.fold.applyDeclared codec payload policy =
      .ok ⟨found.fold.state.declare codec policy, some policy⟩ := by
    refine applyDeclared_eq_ok.mpr ⟨?_, rfl⟩
    simp [declaredConsistent, payloadNamesPolicy, payload, hprevious, hprimary]
  refine ⟨payload, _, rfl, rfl, happly, ?_⟩
  rw [declareFresh, h, ok_bind, hpayload, ofRecord, ok_bind]
  rw [happly, ok_bind]

theorem refuses_declareFresh {request : FallbackDeclareRequestV1} (hvalid : found.fold.Valid n) :
    FallbackRefuses (declareFresh codec write found policy request) := by
  rcases unit_ok_or_error (checkDeclaration codec found.fold.state policy) with h | ⟨e, h⟩
  · obtain ⟨payload, fold', -, -, -, hok⟩ := declareFresh_of_ok hvalid write request h
    rw [hok]
    exact refuses_ok _
  · rw [declareFresh, h, error_bind]
    exact refuses_error (refuses_checkDeclaration _ _ e h)

theorem ofRecord_eq_ok {a : α} : ofRecord result = .ok a ↔ result = .ok a := by
  cases result <;> simp [ofRecord]

theorem refuses_ofRecord
    (h : ∀ e, result = .error e → e ≠ .invalidField .rebased) : FallbackRefuses (ofRecord result) := by
  cases result with
  | ok a => exact refuses_ok a
  | error e => exact refuses_error ⟨by simp, by simpa using h e rfl⟩

theorem asInput_of_new {input : FallbackActivatedInputV1}
    (h : new input = .ok payload) : payload.asInput = input := by
  unfold new at h
  split_ifs at h
  cases h
  rfl

/-- An activation that passes its checks commits the fold of its own payload. -/
theorem activateFresh_of_ok {change : TransitionV1} (hpolicy : found.fold.policy = some policy)
    (hpayload : new (activationInput request policy.policyDigest found.fold.state.activationOrdinal) = .ok payload)
    (hchange : transition codec policy found.fold.state payload.asInput = .ok change) :
    found.fold.applyActivated codec payload =
      .ok { found.fold with state := found.fold.state.activate payload.asInput change.next } := by
  refine applyActivated_eq_ok.mpr ⟨policy, change, hpolicy, ?_, hchange, ?_, rfl⟩
  · rw [asInput_of_new hpayload]
    rfl
  · rw [asInput_of_new hpayload]
    rfl

theorem refuses_activateFresh (write : WriteV1) (found : CurrentV1) (request : FallbackActivateRequestV1) :
    FallbackRefuses (activateFresh codec write found request) := by
  unfold activateFresh
  split
  · rename_i policy hpolicy
    refine refuses_bind (refuses_activatedPayload _) fun payload hpayload => ?_
    refine refuses_bind (refuses_transition _ _ _) fun change hchange => ?_
    refine refuses_bind (refuses_checkRules _ _) fun _ _ => ?_
    rw [activateFresh_of_ok hpolicy (ofRecord_eq_ok.mp hpayload) hchange, ok_bind]
    exact refuses_ok _
  · exact refuses_error (by decide)

theorem activateFresh_eq_ok {plan : FallbackPlanV1}
    (h : activateFresh codec write found request = .ok plan) : ∃ policy payload fold',
      found.fold.policy = some policy ∧
      payload.asInput = activationInput request policy.policyDigest found.fold.state.activationOrdinal ∧
      found.fold.applyActivated codec payload = .ok fold' ∧
      plan = write.commit found policy.policyDigest fold'
        (EventDraft.new write.target.entity compositionFallbackActivatedEventTypeV1 (codec.encodeActivated payload))
        (.activation request.entryKey request.closingTenureOrdinal (saturatingAdd found.fold.state.activationOrdinal 1)
          request.tick) none := by
  unfold activateFresh at h
  split at h
  · rename_i policy hpolicy
    obtain ⟨payload, hpayload, h⟩ := bind_eq_ok.mp h
    obtain ⟨change, hchange, h⟩ := bind_eq_ok.mp h
    replace h := of_check h
    obtain ⟨fold', hfold, h⟩ := bind_eq_ok.mp h
    cases h
    have hinput := asInput_of_new (ofRecord_eq_ok.mp hpayload)
    refine ⟨policy, payload, fold', hpolicy, hinput, hfold, ?_⟩
    rw [hinput]
    rfl
  · cases h

/-! ## The committed state -/

/-- The stored row and ledger of a scope on a Timeline agree with its fold. -/
structure Agrees (codec : FallbackCodecV1) (reads : FallbackReadsV1) (scope : String) (timeline : TimelineId)
    (stored : Option FallbackRegistryRowV1) (ledger : List FallbackLedgerRowV1) (fold : FallbackFoldV1) : Prop where
  readsRow : reads.storedRow scope timeline = .ok stored
  readsLedger : reads.storedLedger scope timeline = .ok ledger
  folds : foldTimeline codec reads scope timeline = .ok fold
  absent : stored = none → ledger = []
  state : ∀ row ∈ stored, row.state = fold.state
  last : ∀ row ∈ ledger.getLast?, row.stateRevision = fold.state.stateRevision

variable {timeline : TimelineId}

theorem Agrees.checkRow (h : Agrees codec reads scope timeline stored ledger fold) (entity : EntityId) :
    checkRow stored ledger fold.state entity = check (stored.all fun row => row.entity == entity) .entityMismatch := by
  unfold Fallback.checkRow
  cases hstored : stored with
  | none =>
    rw [h.absent hstored]
    rfl
  | some row =>
    have hfolded : (row.state == fold.state &&
        ledger.getLast?.all fun last => last.stateRevision == fold.state.stateRevision) = true := by
      rw [h.state row hstored, beq_self_eq_true, Bool.true_and, Option.all_eq_true]
      intro last hlast
      rw [beq_iff_eq]
      exact h.last last hlast
    dsimp only
    rw [check_eq_ok.mpr hfolded, ok_bind]
    rfl

/-- The state found is the fold, unless the row names another entity. -/
theorem Agrees.current (h : Agrees codec reads scope timeline stored ledger fold) (entity : EntityId) :
    current codec reads scope ⟨timeline, entity⟩ =
      (do check (stored.all fun row => row.entity == entity) .entityMismatch
          .ok ⟨fold, ledger⟩) := by
  rw [Fallback.current]
  rw [h.readsRow, ok_bind, h.readsLedger, ok_bind, h.folds, ok_bind, h.checkRow]

/-- A write names another entity, repeats or contradicts a row, or is planned afresh. -/
theorem Agrees.plan (h : Agrees codec reads write.scope write.target.timeline stored ledger fold)
    (occupies : FallbackLedgerRowV1 → Bool) (fresh : CurrentV1 → FallbackResult FallbackPlanV1) :
    write.plan codec reads occupies fresh =
      (do check (stored.all fun row => row.entity == write.target.entity) .entityMismatch
          match ledger.find? occupies with
          | some row => replay row write.requestDigest
          | none => do
            write.checkFresh reads fold.state.stateRevision
            fresh ⟨fold, ledger⟩) := by
  rw [WriteV1.plan, h.current write.target.entity]
  generalize check (stored.all fun row => row.entity == write.target.entity) .entityMismatch = checked
  cases checked <;> rfl

end Fallback

open Fallback

/-! ## Plans -/

variable {ports : FallbackPortsV1}

/-- What a request's plan can be: a repeat of its row, or a commit that nothing occupies yet. -/
structure FallbackPlanned (stored : Option FallbackRegistryRowV1) (ledger : List FallbackLedgerRowV1) (entity : EntityId)
    (occupies : FallbackLedgerRowV1 → Bool) (requestDigest : Hash) (Commits : FallbackCommitV1 → Prop)
    (plan : FallbackPlanV1) : Prop where
  entity : ∀ row ∈ stored, row.entity = entity
  outcome : (∃ row, ledger.find? occupies = some row ∧ row.requestDigest = requestDigest ∧ plan = .replay row) ∨
    ledger.find? occupies = none ∧ ∃ commit, Commits commit ∧ plan = .commit commit

variable {plan : FallbackPlanV1} {occupies : FallbackLedgerRowV1 → Bool}
  {fresh : CurrentV1 → FallbackResult FallbackPlanV1}

theorem Fallback.Agrees.planned
    (h : Agrees codec reads write.scope write.target.timeline stored ledger fold) {Commits : FallbackCommitV1 → Prop}
    (hfresh : ∀ plan, fresh ⟨fold, ledger⟩ = .ok plan → ∃ commit, Commits commit ∧ plan = .commit commit)
    (hplan : write.plan codec reads occupies fresh = .ok plan) :
    FallbackPlanned stored ledger write.target.entity occupies write.requestDigest Commits plan := by
  rw [h.plan] at hplan
  obtain ⟨⟨⟩, hentity, hplan⟩ := bind_eq_ok.mp hplan
  refine ⟨?_, ?_⟩
  · have hall := check_eq_ok.mp hentity
    intro row hrow
    rw [Option.all_eq_true] at hall
    simpa using hall row hrow
  · cases hfound : ledger.find? occupies with
    | some row =>
      rw [hfound] at hplan
      obtain ⟨⟨⟩, hdigest, hplan⟩ := bind_eq_ok.mp hplan
      cases hplan
      exact .inl ⟨row, rfl, by simpa using check_eq_ok.mp hdigest, rfl⟩
    | none =>
      rw [hfound] at hplan
      replace hplan := of_check hplan
      exact .inr ⟨rfl, hfresh plan hplan⟩

theorem Fallback.Agrees.refuses_plan (h : Agrees codec reads write.scope write.target.timeline stored ledger fold)
    (hhead : FallbackRefuses (reads.timelineHead write.target.timeline))
    (hfresh : FallbackRefuses (fresh ⟨fold, ledger⟩)) : FallbackRefuses (write.plan codec reads occupies fresh) := by
  rw [h.plan]
  refine refuses_bind (refuses_check (by decide)) fun _ _ => ?_
  split
  · exact refuses_bind (refuses_check (by decide)) fun _ _ => refuses_ok _
  · exact refuses_bind (refuses_checkFresh hhead _) fun _ _ => hfresh

/-- What declaring a policy commits: the fold of the declaration's payload and the policy's bytes. -/
structure CommitsDeclaration (ports : FallbackPortsV1) (request : FallbackDeclareRequestV1) (fold : FallbackFoldV1)
    (ledger : List FallbackLedgerRowV1) (policy : DomainFallbackPolicyV1) (commit : FallbackCommitV1) : Prop where
  payload : ∃ payload fold', payload.scope = request.scope ∧ payload.policyDigest = policy.policyDigest ∧
    fold.applyDeclared ports.toFallbackCodecV1 payload policy = .ok fold' ∧
    commit.draft = EventDraft.new request.target.entity compositionFallbackDeclaredEventTypeV1 (ports.encodeDeclared payload) ∧
    commit.row = ⟨request.target.entity, fold'.state⟩
  retained : commit.policy = some (policy.policyDigest, request.policyBytes)
  rowSeq : commit.rowSeq = nextRowSeq ledger
  policyDigest : commit.policyDigest = policy.policyDigest
  requestDigest : commit.requestDigest =
    ports.declareRequestDigest request.target.entity (ports.conformanceDigest request.conformance)
  body : commit.body = .declaration (ports.conformanceDigest request.conformance)

/-- What an activation commits: the fold of its payload. -/
structure CommitsActivation (ports : FallbackPortsV1) (request : FallbackActivateRequestV1) (fold : FallbackFoldV1)
    (ledger : List FallbackLedgerRowV1) (commit : FallbackCommitV1) : Prop where
  payload : ∃ policy payload fold', fold.policy = some policy ∧
    payload.asInput = activationInput request policy.policyDigest fold.state.activationOrdinal ∧
    fold.applyActivated ports.toFallbackCodecV1 payload = .ok fold' ∧
    commit.draft = EventDraft.new request.target.entity compositionFallbackActivatedEventTypeV1 (ports.encodeActivated payload) ∧
    commit.row = ⟨request.target.entity, fold'.state⟩
  retained : commit.policy = none
  rowSeq : commit.rowSeq = nextRowSeq ledger
  requestDigest : commit.requestDigest = ports.activateRequestDigest request
  body : commit.body = .activation request.entryKey request.closingTenureOrdinal
    (saturatingAdd fold.state.activationOrdinal 1) request.tick

theorem declareFresh_commits {request : FallbackDeclareRequestV1} (hvalid : found.fold.Valid n)
    (htarget : write.target = request.target) (hscope : policy.scope = request.scope)
    (hdigest : write.requestDigest =
      ports.declareRequestDigest request.target.entity (ports.conformanceDigest request.conformance))
    (h : declareFresh ports.toFallbackCodecV1 write found policy request = .ok plan) :
    ∃ commit, CommitsDeclaration ports request found.fold found.ledger policy commit ∧ plan = .commit commit := by
  obtain ⟨⟨⟩, hcheck, -⟩ := bind_eq_ok.mp h
  obtain ⟨payload, fold', hpayload, hnames, hfold, hok⟩ := declareFresh_of_ok hvalid write request hcheck
  rw [hok] at h
  cases h
  refine ⟨_, ⟨⟨payload, fold', hpayload.trans hscope, hnames, hfold, ?_, ?_⟩, rfl, rfl, rfl, hdigest, rfl⟩, rfl⟩ <;>
    rw [htarget]

theorem activateFresh_commits (htarget : write.target = request.target)
    (hdigest : write.requestDigest = ports.activateRequestDigest request)
    (h : activateFresh ports.toFallbackCodecV1 write found request = .ok plan) :
    ∃ commit, CommitsActivation ports request found.fold found.ledger commit ∧ plan = .commit commit := by
  obtain ⟨policy, payload, fold', hpolicy, hinput, hfold, rfl⟩ := activateFresh_eq_ok h
  refine ⟨_, ⟨⟨policy, payload, fold', hpolicy, hinput, hfold, ?_, ?_⟩, rfl, rfl, hdigest, rfl⟩, rfl⟩ <;> rw [htarget]

end Piglor
