/-
Repeats and conflicts of registry requests. A committed row keeps its place in the ledger, so the
request that wrote it finds it again at every later point of a run; a request for the same place under
another identity finds it too, and conflicts.
-/
import PiglorProofs.Store.FallbackRuns

namespace Piglor.RegistryStore

open Checked Fallback List DomainFallbackPolicyV1 Hasher

variable {x x' : RegistryStore} {F : CowForest TimelineId Event} {blake3 : ByteHash}
  {hashed : List (List UInt8)}
  {scope : String} {t : TimelineId}

structure Serves (x : RegistryStore) (t : TimelineId) : Prop where
  provisioned : x.compositionFallback.provisioned = true
  admits : x.store.Admits t

theorem Serves.later (h : x.Serves t) (hlater : Later x x') : x'.Serves t where
  provisioned := hlater.provisioned h.provisioned
  admits := by
    have hframe := hlater.frame
    rw [MemoryStore.Frame] at hframe
    rw [hframe]
    exact h.admits

variable {receipt : FallbackCommitReceiptV1} {row : FallbackLedgerRowV1} {request : FallbackDeclareRequestV1}
  {draw : Draw} {ports : FallbackPortsV1} {plan : FallbackReadsV1 → FallbackResult FallbackPlanV1}
  {occupies : FallbackLedgerRowV1 → Bool}

theorem serves_of_ok (h : (x.fencedFallbackOperation ports scope t plan draw).1 = .ok receipt) :
    x.Serves t ∧ ∃ planned, plan x.fallbackView = .ok planned := by
  unfold fencedFallbackOperation at h
  split at h
  · cases h
  rename_i hprovisioned
  split at h
  · cases h
  rename_i hfence
  split at h
  · cases h
  rename_i planned hplan
  exact ⟨⟨check_eq_ok.mp hprovisioned, hfence⟩, planned, hplan⟩

theorem Serves.operation (h : x.Serves t) (ports : FallbackPortsV1) (scope : String)
    (plan : FallbackReadsV1 → FallbackResult FallbackPlanV1) (draw : Draw) :
    x.fencedFallbackOperation ports scope t plan draw =
      match plan x.fallbackView with
      | .error e => (.error e, x)
      | .ok planned => x.writeFallbackPlan ports scope t planned draw := by
  have hprovisioned : x.compositionFallback.requireProvisioned = .ok () := check_eq_ok.mpr h.provisioned
  rewrite [fencedFallbackOperation, hprovisioned, h.admits]
  rfl

/-- What a write answers whose place in the ledger is taken. -/
def answer (row : FallbackLedgerRowV1) (entity : EntityId) (requestDigest : Hash) :
    FallbackResult FallbackCommitReceiptV1 :=
  if row.entity = entity then
    if row.requestDigest = requestDigest then .ok ⟨row, .idempotentReplay⟩ else .error .conflict
  else .error .entityMismatch

/-- The plan of such a write: the repeat of the row, or its error. -/
theorem Consistent.plan_found (hx : x.Consistent blake3 hashed F) {write : WriteV1}
    {fresh : CurrentV1 → FallbackResult FallbackPlanV1}
    (hfind : (x.compositionFallback.ledger write.scope write.target.timeline).find? occupies = some row) :
    write.plan (fallbackPorts blake3).toFallbackCodecV1 x.fallbackView occupies fresh =
      (answer row write.target.entity write.requestDigest).map fun receipt => .replay receipt.row := by
  have hmem := mem_of_find?_eq_some hfind
  obtain ⟨stored, hstored⟩ : ∃ stored,
      x.compositionFallback.rows.lookup (write.scope, write.target.timeline) = some stored := by
    cases hrow : x.compositionFallback.rows.lookup (write.scope, write.target.timeline) with
    | none =>
      rw [hx.absent hrow] at hmem
      cases hmem
    | some stored => exact ⟨stored, rfl⟩
  have hentity := (hx.ledgers hstored).entities row hmem
  -- the Timeline of a stored row is readable
  obtain ⟨hsound, h, fold, hh, hfold, -⟩ := hx.rows hstored
  have hcollect := hx.wf.collect hsound hh .all
  rw [MemoryStore.filter_all] at hcollect
  rcases hx.found write.scope write.target.timeline with hnone | ⟨_, fold', hfound⟩
  · rw [foldTimeline_of_collect hcollect, hfold] at hnone
    cases hnone
  · rw [hfound.agrees.plan, hstored, hfind, answer, hentity]
    simp only [Option.all_some, replay]
    by_cases hsame : stored.entity = write.target.entity
    · rw [if_pos hsame, beq_iff_eq.mpr hsame]
      by_cases hdigest : row.requestDigest = write.requestDigest
      · rw [if_pos hdigest, beq_iff_eq.mpr hdigest]
        rfl
      · rw [if_neg hdigest, beq_eq_false_iff_ne.mpr hdigest]
        rfl
    · rw [if_neg hsame, beq_eq_false_iff_ne.mpr hsame]
      rfl

theorem Serves.found (h : x.Serves t) {entity : EntityId} {requestDigest : Hash}
    (hplan : plan x.fallbackView = (answer row entity requestDigest).map fun receipt => .replay receipt.row)
    (ports : FallbackPortsV1) (scope : String) (draw : Draw) :
    x.fencedFallbackOperation ports scope t plan draw = (answer row entity requestDigest, x) := by
  rw [h.operation, hplan, answer]
  split_ifs <;> rfl

variable {policy : DomainFallbackPolicyV1}

theorem Consistent.declare_found (hx : x.Consistent blake3 hashed F) (hserves : x.Serves request.target.timeline)
    (hpolicy : fromCanonicalCbor blake3 request.policyBytes = .ok policy) (hscope : policy.scope = request.scope)
    (hfind : (x.compositionFallback.ledger request.scope request.target.timeline).find?
      (fun row => row.declares policy.policyDigest) = some row)
    (draw : Draw) : x.declare (fallbackPorts blake3) request draw = (answer row request.target.entity
      (declareRequestDigest blake3 request.target.entity (request.conformance.digest blake3)), x) := by
  refine hserves.found ?_ _ _ draw
  have hdecode : (fallbackPorts blake3).decodePolicy request.policyBytes = .ok policy := hpolicy
  rw [planDeclare, hdecode, ofRecord, ok_bind, hscope, beq_self_eq_true]
  exact hx.plan_found hfind

theorem Consistent.activate_found (hx : x.Consistent blake3 hashed F) {request : FallbackActivateRequestV1}
    (hserves : x.Serves request.target.timeline)
    (hfind : (x.compositionFallback.ledger request.scope request.target.timeline).find?
      (fun row => row.closes request.entryKey request.closingTenureOrdinal) = some row)
    (draw : Draw) : x.activate (fallbackPorts blake3) request draw =
      (answer row request.target.entity (request.digest blake3), x) :=
  hserves.found (hx.plan_found hfind) _ _ draw

/-! ## Later points of a run -/

theorem Later.find (h : Later x x') (hfind : (x.compositionFallback.ledger scope t).find? occupies = some row) :
    (x'.compositionFallback.ledger scope t).find? occupies = some row := by
  obtain ⟨rows, hrows⟩ := h.grows scope t
  rw [hrows, find?_append, hfind]
  rfl

theorem policy_of_planDeclare {reads : FallbackReadsV1} {plan : FallbackPlanV1}
    (h : planDeclare ports reads request = .ok plan) :
    ∃ policy, ports.decodePolicy request.policyBytes = .ok policy ∧ policy.scope = request.scope := by
  obtain ⟨policy, hpolicy, h⟩ := bind_eq_ok.mp h
  obtain ⟨⟨⟩, hscope, -⟩ := bind_eq_ok.mp h
  exact ⟨policy, ofRecord_eq_ok.mp hpolicy, beq_iff_eq.mp (check_eq_ok.mp hscope)⟩

variable {before middle after : List Operation}

section

variable (hfree : CollisionFree blake3 hashed)

include hfree

variable (hx : x.Consistent blake3 hashed F)

include hx

/-- Where a run stands after `before`, at `op` and after `op :: middle`. -/
theorem Consistent.through {op : Operation}
    (htakes : x.TakesAll (fallbackPorts blake3) (before ++ op :: (middle ++ after)))
    (hhashed : ∀ b ∈ (before ++ op :: (middle ++ after)).flatMap (Operation.hashed blake3), b ∈ hashed) :
    (∃ F', (x.run (fallbackPorts blake3) before).Consistent blake3 hashed F') ∧
    (x.run (fallbackPorts blake3) before).Takes op ∧
    (∃ F', (x.run (fallbackPorts blake3) (before ++ op :: middle)).Consistent blake3 hashed F') ∧
    Later ((x.run (fallbackPorts blake3) before).perform (fallbackPorts blake3) op).2
      (x.run (fallbackPorts blake3) (before ++ op :: middle)) := by
  obtain ⟨hbefore, hop, hrest⟩ := takesAll_append.mp htakes
  obtain ⟨hmiddle, -⟩ := takesAll_append.mp hrest
  rw [flatMap_append, flatMap_cons, flatMap_append, forall_mem_append, forall_mem_append,
    forall_mem_append] at hhashed
  obtain ⟨hbefore', hop', hmiddle', -⟩ := hhashed
  obtain ⟨⟨F', hz⟩, -⟩ := hx.run hfree hbefore hbefore'
  obtain ⟨F'', hz'⟩ := (hz.step hfree hop hop').consistent
  have hrun := hz'.run hfree hmiddle hmiddle'
  have heq : ((x.run (fallbackPorts blake3) before).perform (fallbackPorts blake3) op).2.run (fallbackPorts blake3) middle =
      x.run (fallbackPorts blake3) (before ++ op :: middle) := by
    rw [RegistryStore.run, RegistryStore.run, RegistryStore.run, foldl_append]
    rfl
  rw [heq] at hrun
  exact ⟨⟨F', hz⟩, hop, hrun.1, hrun.2⟩

variable {draw' : Draw}

/-- Later declarations of the declared policy are answered by the row of the first. -/
theorem Consistent.declare_again {request' : FallbackDeclareRequestV1} {policy' : DomainFallbackPolicyV1}
    (htakes : x.TakesAll (fallbackPorts blake3) (before ++ .declare request draw ::
      (middle ++ .declare request' draw' :: after)))
    (hhashed : ∀ b ∈ (before ++ .declare request draw :: (middle ++ .declare request' draw' :: after)).flatMap
      (Operation.hashed blake3), b ∈ hashed)
    (hok : ((x.run (fallbackPorts blake3) before).declare (fallbackPorts blake3) request draw).1 = .ok receipt)
    (hscope : request'.scope = request.scope) (htimeline : request'.target.timeline = request.target.timeline)
    (hpolicy : fromCanonicalCbor blake3 request.policyBytes = .ok policy)
    (hpolicy' : fromCanonicalCbor blake3 request'.policyBytes = .ok policy')
    (hdigest : policy'.policyDigest = policy.policyDigest) :
    (x.run (fallbackPorts blake3) (before ++ .declare request draw :: middle)).declare (fallbackPorts blake3) request' draw' =
      (answer receipt.row request'.target.entity
        (declareRequestDigest blake3 request'.target.entity (request'.conformance.digest blake3)),
        x.run (fallbackPorts blake3) (before ++ .declare request draw :: middle)) ∧
    receipt.row.entity = request.target.entity ∧
    receipt.row.requestDigest = declareRequestDigest blake3 request.target.entity (request.conformance.digest blake3) := by
  obtain ⟨⟨F₁, hz⟩, -, ⟨F₂, hy⟩, hlater⟩ := hx.through hfree htakes hhashed
  rw [flatMap_append, flatMap_cons, flatMap_append, flatMap_cons] at hhashed
  have hrequest : ∀ b ∈ request.hashed blake3, b ∈ hashed := fun b hb =>
    hhashed b (mem_append_right _ (mem_append_left _ hb))
  have hrequest' : ∀ b ∈ request'.hashed blake3, b ∈ hashed := fun b hb =>
    hhashed b (mem_append_right _ (mem_append_right _ (mem_append_right _ (mem_append_left _ hb))))
  obtain ⟨hserves, planned, hplanned⟩ := serves_of_ok hok
  obtain ⟨policy₀, hdecode, hpolicyScope⟩ := policy_of_planDeclare hplanned
  have hdecode : fromCanonicalCbor blake3 request.policyBytes = .ok policy₀ := hdecode
  rw [hpolicy] at hdecode
  cases hdecode
  -- one digest is one policy
  have hsame : policy' = policy := by
    have hbytes := FallbackDeclareRequestV1.policyBytes_eq hfree hrequest' hrequest hpolicy' hpolicy hdigest
    rw [hbytes, hpolicy] at hpolicy'
    exact (Except.ok.inj hpolicy').symm
  subst hsame
  have hperformed := (hz.declare hfree hrequest draw).2
  obtain ⟨hfind, hrequestDigest, hentity⟩ := hperformed.found receipt hok
  rw [request.occupies_eq hpolicy] at hfind
  have hserves' : (x.run (fallbackPorts blake3) (before ++ .declare request draw :: middle)).Serves request.target.timeline :=
    (hserves.later ⟨hperformed.grows, hperformed.frame, fun h => hperformed.provisioned.trans h⟩).later hlater
  refine ⟨hy.declare_found ?_ hpolicy' (hpolicyScope.trans hscope.symm) ?_ draw', hentity, hrequestDigest⟩
  · rw [htimeline]
    exact hserves'
  · rw [htimeline, hscope]
    exact hlater.find hfind

/-- Later activations that close the closed tenure are answered by the row of the first. -/
theorem Consistent.activate_again {request request' : FallbackActivateRequestV1}
    (htakes : x.TakesAll (fallbackPorts blake3) (before ++ .activate request draw ::
      (middle ++ .activate request' draw' :: after)))
    (hhashed : ∀ b ∈ (before ++ .activate request draw :: (middle ++ .activate request' draw' :: after)).flatMap
      (Operation.hashed blake3), b ∈ hashed)
    (hok : ((x.run (fallbackPorts blake3) before).activate (fallbackPorts blake3) request draw).1 = .ok receipt)
    (hscope : request'.scope = request.scope) (htimeline : request'.target.timeline = request.target.timeline)
    (hkey : request'.entryKey = request.entryKey) (hclosing : request'.closingTenureOrdinal = request.closingTenureOrdinal) :
    (x.run (fallbackPorts blake3) (before ++ .activate request draw :: middle)).activate (fallbackPorts blake3) request' draw' =
      (answer receipt.row request'.target.entity (request'.digest blake3),
        x.run (fallbackPorts blake3) (before ++ .activate request draw :: middle)) ∧
    receipt.row.entity = request.target.entity ∧ receipt.row.requestDigest = request.digest blake3 := by
  obtain ⟨⟨F₁, hz⟩, htyped, ⟨F₂, hy⟩, hlater⟩ := hx.through hfree htakes hhashed
  obtain ⟨hserves, -⟩ := serves_of_ok hok
  have hperformed := (hz.activate htyped draw).2
  obtain ⟨hfind, hrequestDigest, hentity⟩ := hperformed.found receipt hok
  have hserves' : (x.run (fallbackPorts blake3) (before ++ .activate request draw :: middle)).Serves request.target.timeline :=
    (hserves.later ⟨hperformed.grows, hperformed.frame, fun h => hperformed.provisioned.trans h⟩).later hlater
  refine ⟨hy.activate_found ?_ ?_ draw', hentity, hrequestDigest⟩
  · rw [htimeline]
    exact hserves'
  · rw [htimeline, hscope, hkey, hclosing]
    exact hlater.find hfind

end

/-- Over every run from an empty store without colliding digests, a committed request repeated at any
later point returns its own row and changes nothing. On its scope and Timeline and for its entity, a
declaration of the same policy with other conformance sets conflicts, and so does any other activation
that closes the same tenure. Every ledger is in sequence, with at most one row for each policy and tenure. -/
theorem requests_replay_or_conflict (blake3 : ByteHash) {x : RegistryStore} (hstore : x.store.Blank)
    (hregistry : x.compositionFallback = .default) {ops : List Operation}
    (htakes : x.TakesAll (fallbackPorts blake3) ops)
    (hfree : CollisionFree blake3 (ops.flatMap (Operation.hashed blake3))) :
    (∀ before request draw middle request' draw' after receipt,
      ops = before ++ .declare request draw :: (middle ++ .declare request' draw' :: after) →
      ((x.run (fallbackPorts blake3) before).declare (fallbackPorts blake3) request draw).1 = .ok receipt →
      ∀ y, y = x.run (fallbackPorts blake3) (before ++ .declare request draw :: middle) →
        (request' = request → y.declare (fallbackPorts blake3) request' draw' = (.ok ⟨receipt.row, .idempotentReplay⟩, y)) ∧
        (request'.scope = request.scope → request'.target = request.target →
          (∃ policy policy', DomainFallbackPolicyV1.fromCanonicalCbor blake3 request.policyBytes = .ok policy ∧
            DomainFallbackPolicyV1.fromCanonicalCbor blake3 request'.policyBytes = .ok policy' ∧
            policy'.policyDigest = policy.policyDigest) →
          request.conformance.Typed → request'.conformance.Typed → request'.conformance ≠ request.conformance →
          y.declare (fallbackPorts blake3) request' draw' = (.error .conflict, y))) ∧
    (∀ before request draw middle request' draw' after receipt,
      ops = before ++ .activate request draw :: (middle ++ .activate request' draw' :: after) →
      ((x.run (fallbackPorts blake3) before).activate (fallbackPorts blake3) request draw).1 = .ok receipt →
      ∀ y, y = x.run (fallbackPorts blake3) (before ++ .activate request draw :: middle) →
        (request' = request → y.activate (fallbackPorts blake3) request' draw' = (.ok ⟨receipt.row, .idempotentReplay⟩, y)) ∧
        (request'.scope = request.scope → request'.target = request.target → request'.entryKey = request.entryKey →
          request'.closingTenureOrdinal = request.closingTenureOrdinal → request' ≠ request →
          y.activate (fallbackPorts blake3) request' draw' = (.error .conflict, y))) ∧
    ∀ scope t ledger, ledger = (x.run (fallbackPorts blake3) ops).compositionFallback.ledger scope t →
      (∀ digest, ledger.countP (fun row => row.declares digest) ≤ 1) ∧
      (∀ key closing, ledger.countP (fun row => row.closes key closing) ≤ 1) ∧
      ledger.map FallbackLedgerRowV1.rowSeq = List.range' 1 ledger.length ∧
      ledger.IsChain (fun a b => b.stateRevision = a.stateRevision + 1) ∧
      (ledger.filterMap FallbackLedgerRowV1.activationOrdinal).IsChain fun a b => b = a + 1 := by
  have hblank : x.Consistent blake3 (ops.flatMap (Operation.hashed blake3)) _ := Consistent.blank hstore hregistry
  have hall : ∀ b ∈ ops.flatMap (Operation.hashed blake3), b ∈ ops.flatMap (Operation.hashed blake3) := fun _ h => h
  refine ⟨?_, ?_, ?_⟩
  · rintro before request draw middle request' draw' after receipt rfl hok _ rfl
    obtain ⟨-, planned, hplanned⟩ := serves_of_ok hok
    obtain ⟨policy, hpolicy, -⟩ := policy_of_planDeclare hplanned
    constructor
    · rintro rfl
      obtain ⟨hagain, hentity, hdigest⟩ := hblank.declare_again hfree htakes hall hok rfl rfl hpolicy hpolicy rfl
      rw [hagain, answer, if_pos hentity, if_pos hdigest]
    · rintro hscope htarget ⟨policy₁, policy₂, hpolicy₁, hpolicy₂, hsame⟩ htyped htyped' hne
      obtain ⟨hagain, hentity, hdigest⟩ := hblank.declare_again hfree htakes hall hok hscope
        (congrArg CompositionFallbackTargetV1.timeline htarget) hpolicy₁ hpolicy₂ hsame
      rw [hagain, answer, htarget, if_pos hentity, hdigest, if_neg]
      intro hidentity
      refine hne (FallbackDeclareRequestV1.identity_eq hfree ?_ ?_ htyped' htyped ?_).2
      · intro b hb
        exact mem_flatMap.mpr ⟨.declare request' draw', by simp, hb⟩
      · intro b hb
        exact mem_flatMap.mpr ⟨.declare request draw, by simp, hb⟩
      · rw [htarget]
        exact hidentity.symm
  · rintro before request draw middle request' draw' after receipt rfl hok _ rfl
    constructor
    · rintro rfl
      obtain ⟨hagain, hentity, hdigest⟩ := hblank.activate_again hfree htakes hall hok rfl rfl rfl rfl
      rw [hagain, answer, if_pos hentity, if_pos hdigest]
    · rintro hscope htarget hkey hclosing hne
      obtain ⟨hagain, hentity, hdigest⟩ := hblank.activate_again hfree htakes hall hok hscope
        (congrArg CompositionFallbackTargetV1.timeline htarget) hkey hclosing
      rw [hagain, answer, htarget, if_pos hentity, hdigest, if_neg]
      intro hidentity
      obtain ⟨-, htyped, hrest⟩ := takesAll_append.mp htakes
      obtain ⟨-, htyped', -⟩ := takesAll_append.mp hrest
      refine hne (FallbackActivateRequestV1.eq_of_digest hfree ?_ ?_ htyped' htyped
        (congrArg CompositionFallbackTargetV1.timeline htarget) hidentity.symm)
      · intro b hb
        exact mem_flatMap.mpr ⟨.activate request' draw', by simp, hb⟩
      · intro b hb
        exact mem_flatMap.mpr ⟨.activate request draw, by simp, hb⟩
  · rintro scope t _ rfl
    obtain ⟨⟨F', hy⟩, -⟩ := hblank.run hfree htakes hall
    cases hrow : (x.run (fallbackPorts blake3) ops).compositionFallback.rows.lookup (scope, t) with
    | none =>
      rw [hy.absent hrow]
      exact ⟨fun _ => Nat.zero_le _, fun _ _ => Nat.zero_le _, rfl, .nil, .nil⟩
    | some row =>
      have hledger := hy.ledgers hrow
      exact ⟨hledger.declarations, hledger.closings, hledger.seqs.map_eq, hledger.revisions, hledger.ordinals⟩

/-- The declaration again, after the activation. -/
def lampAgain : List Operation := lampRun ++ [.declare lampDeclaration ⟨⟨3⟩, 7⟩]

theorem lampAgain_taken : emptyRegistry.TakesAll (fallbackPorts spelling.hashPayload) lampAgain :=
  takesAll_append.mpr ⟨lampRun_taken, trivial, trivial⟩

theorem lampAgain_collisionFree : CollisionFree spelling.hashPayload
    (lampAgain.flatMap (Operation.hashed spelling.hashPayload)) := by
  decide +kernel

/-- It returns the first row of the ledger. -/
theorem lampAgain_replays : ∃ receipt : FallbackCommitReceiptV1, receipt.row.rowSeq = 1 ∧
    (emptyRegistry.run (fallbackPorts spellingHash) lampRun).declare
      (fallbackPorts spellingHash) lampDeclaration ⟨⟨3⟩, 7⟩ =
      (.ok ⟨receipt.row, .idempotentReplay⟩,
        emptyRegistry.run (fallbackPorts spellingHash) lampRun) := by
  have hfirst : ((emptyRegistry.run (fallbackPorts spelling.hashPayload) (lampRun.take 2)).declare
      (fallbackPorts spelling.hashPayload) lampDeclaration ⟨⟨1⟩, 5⟩).1.map (fun receipt => receipt.row.rowSeq) =
        .ok 1 := by
    decide +kernel
  obtain ⟨receipt, hreceipt, hseq⟩ := map_eq_ok.mp hfirst
  refine ⟨receipt, hseq, ?_⟩
  exact ((requests_replay_or_conflict spelling.hashPayload .empty rfl lampAgain_taken
    lampAgain_collisionFree).1 (lampRun.take 2) lampDeclaration ⟨⟨1⟩, 5⟩ [.activate lampActivation ⟨⟨2⟩, 6⟩]
    lampDeclaration ⟨⟨3⟩, 7⟩ [] receipt rfl hreceipt _ rfl).1 rfl

/-- Another declaration of the policy is a repeat when only its expectations differ, and another entity's mismatches. -/
theorem lampRun_other_requests :
    (((emptyRegistry.run (fallbackPorts spellingHash) lampRun).declare
      (fallbackPorts spellingHash) { lampDeclaration with expectedStateRevision := 2 } ⟨⟨3⟩, 7⟩).1.map
        FallbackCommitReceiptV1.outcome = .ok .idempotentReplay) ∧
    ((emptyRegistry.run (fallbackPorts spellingHash) lampRun).declare
      (fallbackPorts spellingHash) { lampDeclaration with target := ⟨⟨1⟩, ⟨2⟩⟩ } ⟨⟨3⟩, 7⟩).1 =
        .error .entityMismatch := by
  decide +kernel

end Piglor.RegistryStore
