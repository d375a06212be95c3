/-
What every delivery journal is for: a row is owned by the fence it was claimed with, fences only rise, a row
only moves on, and a claim whose row is gone is refused for ever. A journal that follows the steps of the rows
has these properties over every run.
-/
import PiglorProofs.Delivery.Journal

namespace Piglor.Delivery

/-! ## Rows -/

/-- Where a state stands on the way from Pending to Delivered. -/
def ForkDeliveryStateV1.stage : ForkDeliveryStateV1 → Nat
  | .pending => 0
  | .uncertain => 1
  | .delivered => 2

/-- A row keeps its state, or moves one stage on. -/
def ForkDeliveryStateV1.Moves (state state' : ForkDeliveryStateV1) : Prop :=
  state' = state ∨ state'.stage = state.stage + 1

/-- A journal as the rows it retains and the last fence it handed out. -/
structure Rows where
  rows : Set ForkDeliveryRowV1
  lastFence : Nat

variable {r : ForkDeliveryRowV1} {claim : ForkDeliveryClaimV1} {j j' : Rows}

namespace Rows

variable {j'' : Rows}

/-- Requests, operations and fences each name one row, and no fence is ahead of the counter. -/
structure WellFormed (j : Rows) : Prop where
  requests : ∀ {r r'}, r ∈ j.rows → r' ∈ j.rows → r.tuple.hostRequestId = r'.tuple.hostRequestId → r = r'
  operations : ∀ {r r'}, r ∈ j.rows → r' ∈ j.rows → r.tuple.operation = r'.tuple.operation → r = r'
  fences : ∀ {r r'}, r ∈ j.rows → r' ∈ j.rows → r.ownerFence = r'.ownerFence → r = r'
  bounded : ∀ {r}, r ∈ j.rows → r.ownerFence ≤ j.lastFence

theorem WellFormed.of_empty (h : ∀ r, r ∉ j.rows) : j.WellFormed where
  requests hr := absurd hr (h _)
  operations hr := absurd hr (h _)
  fences hr := absurd hr (h _)
  bounded hr := absurd hr (h _)

def handOut (j : Rows) (tuple : ForkDeliveryTupleV1) : Rows :=
  ⟨insert ⟨tuple, .pending, j.lastFence + 1⟩ j.rows, j.lastFence + 1⟩

def remove (j : Rows) (row : ForkDeliveryRowV1) : Rows := ⟨j.rows \ {row}, j.lastFence⟩

def advance (j : Rows) (row : ForkDeliveryRowV1) (state : ForkDeliveryStateV1) : Rows :=
  ⟨insert { row with state := state } (j.rows \ {row}), j.lastFence⟩

/-- The changes of a journal. -/
inductive Step (j : Rows) : Rows → Prop where
  | keep : Step j j
  | handOut {tuple : ForkDeliveryTupleV1} (request : ∀ r ∈ j.rows, r.tuple.hostRequestId ≠ tuple.hostRequestId)
      (operation : ∀ r ∈ j.rows, r.tuple.operation ≠ tuple.operation) : Step j (j.handOut tuple)
  | remove {row : ForkDeliveryRowV1} (retained : row ∈ j.rows) : Step j (j.remove row)
  | advance {row : ForkDeliveryRowV1} {state : ForkDeliveryStateV1} (retained : row ∈ j.rows)
      (moves : row.state.Moves state) : Step j (j.advance row state)

variable {row : ForkDeliveryRowV1} {state : ForkDeliveryStateV1}

theorem mem_handOut {tuple : ForkDeliveryTupleV1} :
    r ∈ (j.handOut tuple).rows ↔ r = ⟨tuple, .pending, j.lastFence + 1⟩ ∨ r ∈ j.rows := Iff.rfl

theorem mem_remove : r ∈ (j.remove row).rows ↔ r ∈ j.rows ∧ r ≠ row := Iff.rfl

theorem mem_advance : r ∈ (j.advance row state).rows ↔ r = { row with state := state } ∨ r ∈ j.rows ∧ r ≠ row := Iff.rfl

variable {r' : ForkDeliveryRowV1}

/-- A row of the journal after a step is new or comes from the row of its fence, no stage back. -/
theorem Step.origin (h : Step j j') (hr' : r' ∈ j'.rows) :
    (r'.ownerFence = j.lastFence + 1 ∧ r'.state = .pending) ∨
      ∃ r ∈ j.rows, r.ownerFence = r'.ownerFence ∧ r.tuple = r'.tuple ∧ r.state.Moves r'.state := by
  cases h with
  | keep => exact .inr ⟨r', hr', rfl, rfl, .inl rfl⟩
  | handOut =>
    rcases mem_handOut.mp hr' with rfl | hr'
    · exact .inl ⟨rfl, rfl⟩
    · exact .inr ⟨r', hr', rfl, rfl, .inl rfl⟩
  | remove => exact .inr ⟨r', (mem_remove.mp hr').1, rfl, rfl, .inl rfl⟩
  | advance retained moves =>
    rcases mem_advance.mp hr' with rfl | hr'
    · exact .inr ⟨_, retained, rfl, rfl, moves⟩
    · exact .inr ⟨r', hr'.1, rfl, rfl, .inl rfl⟩

theorem Step.lastFence_le (h : Step j j') : j.lastFence ≤ j'.lastFence := by
  cases h with
  | handOut => exact Nat.le_succ _
  | _ => exact le_rfl

/-- A key that names one row still does beside a row with a key of its own. -/
theorem unique_insert {α : Type} {rows : Set ForkDeliveryRowV1} {key : ForkDeliveryRowV1 → α}
    (hnew : ∀ r ∈ rows, key r ≠ key row) (h : ∀ {r r'}, r ∈ rows → r' ∈ rows → key r = key r' → r = r') :
    r ∈ insert row rows → r' ∈ insert row rows → key r = key r' → r = r' := by
  rintro (rfl | hr) (rfl | hr') heq
  · rfl
  · exact absurd heq.symm (hnew r' hr')
  · exact absurd heq (hnew r hr)
  · exact h hr hr' heq

theorem WellFormed.remove (hj : j.WellFormed) (row : ForkDeliveryRowV1) : (j.remove row).WellFormed where
  requests hr hr' := hj.requests hr.1 hr'.1
  operations hr hr' := hj.operations hr.1 hr'.1
  fences hr hr' := hj.fences hr.1 hr'.1
  bounded hr := hj.bounded hr.1

/-- A step keeps what names one row. -/
theorem Step.wellFormed (h : Step j j') (hj : j.WellFormed) : j'.WellFormed := by
  cases h with
  | keep => exact hj
  | handOut request operation =>
    refine ⟨unique_insert request hj.requests, unique_insert operation hj.operations,
      unique_insert (fun r hr => ?_) hj.fences, ?_⟩
    · exact Nat.ne_of_lt (Nat.lt_succ_of_le (hj.bounded hr))
    · rintro r (rfl | hr)
      · exact le_rfl
      · exact (hj.bounded hr).trans (Nat.le_succ _)
  | @remove row => exact hj.remove row
  | @advance row state retained =>
    -- the moved row takes the keys of the one it replaces
    have hrest := hj.remove row
    have hbound := hj.bounded retained
    refine ⟨unique_insert (fun r hr heq => hr.2 (hj.requests hr.1 retained heq)) hrest.requests,
      unique_insert (fun r hr heq => hr.2 (hj.operations hr.1 retained heq)) hrest.operations,
      unique_insert (fun r hr heq => hr.2 (hj.fences hr.1 retained heq)) hrest.fences, ?_⟩
    rintro r (rfl | hr)
    · exact hbound
    · exact hj.bounded hr.1

/-- What later journals are: the counter is no lower, and a row of an old fence comes from the row that had it. -/
structure Later (j j' : Rows) : Prop where
  lastFence : j.lastFence ≤ j'.lastFence
  origin : ∀ r' ∈ j'.rows, r'.ownerFence ≤ j.lastFence →
    ∃ r ∈ j.rows, r.ownerFence = r'.ownerFence ∧ r.tuple = r'.tuple ∧ r.state.stage ≤ r'.state.stage

theorem Later.refl (j : Rows) : Later j j := ⟨le_rfl, fun r hr _ => ⟨r, hr, rfl, rfl, le_rfl⟩⟩

theorem Later.trans (h : Later j j') (h' : Later j' j'') : Later j j'' := by
  refine ⟨h.lastFence.trans h'.lastFence, fun r'' hr'' hle => ?_⟩
  obtain ⟨r', hr', hfence', htuple', hstage'⟩ := h'.origin r'' hr'' (hle.trans h.lastFence)
  obtain ⟨r, hr, hfence, htuple, hstage⟩ := h.origin r' hr' (hfence' ▸ hle)
  exact ⟨r, hr, hfence.trans hfence', htuple.trans htuple', hstage.trans hstage'⟩

theorem Step.later (h : Step j j') : Later j j' := by
  refine ⟨h.lastFence_le, fun r' hr' hle => ?_⟩
  rcases h.origin hr' with ⟨hnew, -⟩ | ⟨r, hr, hfence, htuple, hmoves⟩
  · omega
  · refine ⟨r, hr, hfence, htuple, ?_⟩
    rcases hmoves with hstate | hstate
    · exact le_of_eq (congrArg _ hstate.symm)
    · omega

def Lost (j : Rows) (claim : ForkDeliveryClaimV1) : Prop := ∀ state, claim.row state ∉ j.rows

theorem Later.lost (h : Later j j') (hle : claim.ownerFence ≤ j.lastFence) (hlost : j.Lost claim) : j'.Lost claim := by
  intro state hrow
  obtain ⟨⟨tuple, state', fence⟩, hr, hfence, htuple, -⟩ := h.origin _ hrow hle
  obtain rfl : fence = claim.ownerFence := hfence
  obtain rfl : tuple = claim.tuple := htuple
  exact hlost state' hr

theorem WellFormed.lost_remove (hj : j.WellFormed)
    (hrow : claim.row state ∈ j.rows) : (j.remove (claim.row state)).Lost claim := by
  rintro state' ⟨hr, hne⟩
  exact hne (hj.fences hr hrow rfl)

end Rows

/-! ## Journals -/

variable {σ τ ς κ π ρ : Type}

def DeliveryCall.claim? : DeliveryCall σ ς κ π → Option ForkDeliveryClaimV1
  | .cancel _ held | .execute _ held _ | .executeInTransition _ held _ | .markUncertain _ held
  | .markDelivered _ held => some held
  | _ => none

/-- The claim whose command a call runs. -/
def DeliveryCall.executes? : DeliveryCall σ ς κ π → Option ForkDeliveryClaimV1
  | .execute _ held _ | .executeInTransition _ held _ => some held
  | _ => none

/-- A call gets through to the command: it verifies for the claimed operation, and the claim owns its Pending row. -/
def DeliveryCall.Reaches (port : AdmissionPort σ ς κ π ρ) (admission : σ) (j : Rows) : DeliveryCall σ ς κ π → Prop
  | .execute session held command =>
    port.verifyCommand admission session command = some held.tuple.operation ∧ held.row .pending ∈ j.rows
  | .executeInTransition session held command =>
    (port.verifyCommand admission session command = some held.tuple.operation ∧ held.tuple.operation.1 = .fork) ∧
      held.row .pending ∈ j.rows
  | _ => False

/-- The answer to a claim whose row is gone: Fenced, unless the session is not live or the command does not
verify for the claimed operation. -/
def staleReply (port : AdmissionPort σ ς κ π ρ) (admission : σ) : DeliveryCall σ ς κ π → DeliveryReply ρ
  | .cancel session _ | .markUncertain session _ | .markDelivered session _ =>
    .done (.error (if port.validateLiveSession admission session then .fenced else .corrupt))
  | .execute session claim command => .executed (.error (match port.verifyCommand admission session command with
    | none => .corrupt
    | some operation => if operation ≠ claim.tuple.operation then .conflict else .fenced))
  | .executeInTransition session claim command =>
    .executed (.error (match port.verifyCommand admission session command with
      | none => .corrupt
      | some operation => if operation.1 ≠ .fork ∨ operation ≠ claim.tuple.operation then .conflict else .fenced))
  | _ => .none

/-- A reply that comes with no change of the rows. -/
def DeliveryReply.Quiet (call : DeliveryCall σ ς κ π) : DeliveryReply ρ → Prop
  | .claimed (.ok (.owner _)) | .executed (.ok _) | .reconciled (.ok _) => False
  | .done (.ok _) => ∃ session claim, call = .markUncertain session claim
  | _ => True

/-- What a call does to the rows, by its reply. -/
inductive Effect (j : Rows) : DeliveryCall σ ς κ π → DeliveryReply ρ → Rows → Prop where
  | quiet {call : DeliveryCall σ ς κ π} {reply : DeliveryReply ρ} (quiet : reply.Quiet call) : Effect j call reply j
  | handOut {session : ς} {tuple : ForkDeliveryTupleV1}
      (request : ∀ r ∈ j.rows, r.tuple.hostRequestId ≠ tuple.hostRequestId)
      (operation : ∀ r ∈ j.rows, r.tuple.operation ≠ tuple.operation) :
      Effect j (.claim session tuple) (.claimed (.ok (.owner ⟨tuple, j.lastFence + 1⟩))) (j.handOut tuple)
  | cancel {session : ς} {claim : ForkDeliveryClaimV1} (retained : claim.row .pending ∈ j.rows) :
      Effect j (.cancel session claim) (.done (.ok ())) (j.remove (claim.row .pending))
  | reject {call : DeliveryCall σ ς κ π} {claim : ForkDeliveryClaimV1} {error : ForkAdmissionErrorV1}
      (executes : call.executes? = some claim) (retained : claim.row .pending ∈ j.rows) :
      Effect j call (.executed (.ok (.rejected error))) (j.remove (claim.row .pending))
  | retain {call : DeliveryCall σ ς κ π} {claim : ForkDeliveryClaimV1} {execution : ForkDeliveryExecutionV1 ρ}
      (executes : call.executes? = some claim) (retained : claim.row .pending ∈ j.rows)
      (kept : ∀ error, execution ≠ .rejected error) :
      Effect j call (.executed (.ok execution)) (j.advance (claim.row .pending) .uncertain)
  | deliver {session : ς} {claim : ForkDeliveryClaimV1} (retained : claim.row .uncertain ∈ j.rows) :
      Effect j (.markDelivered session claim) (.done (.ok ())) (j.advance (claim.row .uncertain) .delivered)
  | reconcile {session : ς} {claim : ForkDeliveryClaimV1} {state : ForkDeliveryStateV1} {proof : π}
      (retained : claim.row state ∈ j.rows) (moves : state.Moves .uncertain) :
      Effect j (.reconcileStartup session claim.tuple proof) (.reconciled (.ok .retainedUncertain))
        (j.advance (claim.row state) .uncertain)
  | release {session : ς} {claim : ForkDeliveryClaimV1} {proof : π} (retained : claim.row .pending ∈ j.rows) :
      Effect j (.reconcileStartup session claim.tuple proof) (.reconciled (.ok .releasedPending))
        (j.remove (claim.row .pending))
  | purge {session : ς} {claim : ForkDeliveryClaimV1} (retained : claim.row .delivered ∈ j.rows) :
      Effect j (.purge session claim.tuple) (.done (.ok ())) (j.remove (claim.row .delivered))

variable {call : DeliveryCall σ ς κ π} {reply : DeliveryReply ρ}

theorem Effect.step (h : Effect j call reply j') : Rows.Step j j' := by
  cases h with
  | quiet => exact .keep
  | handOut request operation => exact .handOut request operation
  | cancel retained | reject _ retained | release retained | purge retained => exact .remove retained
  | retain _ retained | deliver retained => exact .advance retained (.inr rfl)
  | reconcile retained moves => exact .advance retained moves

/-- A journal that follows the rows: what it keeps, what its calls do, and how it answers a claim whose row
is gone. -/
structure Journaled (port : AdmissionPort σ ς κ π ρ) (exec : τ → DeliveryCall σ ς κ π → τ × DeliveryReply ρ)
    (I : τ → Prop) (admission : τ → σ) (view : τ → Rows) : Prop where
  wellFormed : ∀ {s}, I s → (view s).WellFormed
  keeps : ∀ s call, I s → I (exec s call).1
  effect : ∀ {s}, I s → ∀ call, Effect (view s) call (exec s call).2 (view (exec s call).1)
  executed : ∀ {s}, I s → ∀ {call}, call.Reaches port (admission s) (view s) →
    ∃ execution, (exec s call).2 = .executed (.ok execution)
  stale : ∀ {s}, I s → ∀ {call claim}, call.claim? = some claim → (view s).Lost claim →
    exec s call = (s, staleReply port (admission s) call)

/-- The calls after which a claim's row is gone: cancelled, rejected, released, purged or claimed again. -/
inductive Ended (view : τ → Rows) (e : Runs.Entry τ (DeliveryCall σ ς κ π) (DeliveryReply ρ))
    (claim : ForkDeliveryClaimV1) : Prop where
  | cancelled {session : ς} (call : e.call = .cancel session claim) (reply : e.reply = .done (.ok ()))
  | rejected {error : ForkAdmissionErrorV1} (call : e.call.executes? = some claim)
      (reply : e.reply = .executed (.ok (.rejected error)))
  | released {session : ς} {proof : π} (call : e.call = .reconcileStartup session claim.tuple proof)
      (reply : e.reply = .reconciled (.ok .releasedPending)) (row : claim.row .pending ∈ (view e.before).rows)
  | purged {session : ς} (call : e.call = .purge session claim.tuple) (reply : e.reply = .done (.ok ()))
      (row : claim.row .delivered ∈ (view e.before).rows)
  | reclaimed {newer : ForkDeliveryClaimV1} (reply : e.reply = .claimed (.ok (.owner newer)))
      (request : newer.tuple.hostRequestId = claim.tuple.hostRequestId) (older : claim.ownerFence < newer.ownerFence)

/-- One owner for each delivery, over a run. -/
structure OneOwner (port : AdmissionPort σ ς κ π ρ) (admission : τ → σ) (view : τ → Rows)
    (log : List (Runs.Entry τ (DeliveryCall σ ς κ π) (DeliveryReply ρ))) : Prop where
  oneToOne : ∀ e ∈ log, ∀ r ∈ (view e.after).rows, ∀ r' ∈ (view e.after).rows,
    r.tuple.hostRequestId = r'.tuple.hostRequestId ∨ r.tuple.operation = r'.tuple.operation → r = r'
  executed : ∀ e ∈ log, e.call.Reaches port (admission e.before) (view e.before) →
    ∃ execution, e.reply = .executed (.ok execution)
  executesOnce : log.Pairwise fun e f => ∀ claim execution execution', e.call.executes? = some claim →
    e.reply = .executed (.ok execution) → f.call.executes? = some claim → f.reply ≠ .executed (.ok execution')
  stale : log.Pairwise fun e f => ∀ claim, Ended view e claim → f.call.claim? = some claim →
    f.reply = staleReply port (admission f.before) f.call ∧ f.after = f.before
  begins : ∀ e ∈ log, ∀ r' ∈ (view e.after).rows, (∀ r ∈ (view e.before).rows, r.ownerFence ≠ r'.ownerFence) →
    r'.state = .pending
  moves : ∀ e ∈ log, ∀ r ∈ (view e.before).rows, ∀ r' ∈ (view e.after).rows, r.ownerFence = r'.ownerFence →
    r.tuple = r'.tuple ∧ r.state.Moves r'.state
  fences : log.Pairwise fun e f => ∀ claim claim', e.reply = .claimed (.ok (.owner claim)) →
    f.reply = .claimed (.ok (.owner claim')) → claim.ownerFence < claim'.ownerFence

variable {port : AdmissionPort σ ς κ π ρ} {exec : τ → DeliveryCall σ ς κ π → τ × DeliveryReply ρ} {I : τ → Prop}
  {admission : τ → σ} {view : τ → Rows} {e : Runs.Entry τ (DeliveryCall σ ς κ π) (DeliveryReply ρ)}

theorem Effect.of_executed {execution : ForkDeliveryExecutionV1 ρ} (h : Effect j call (.executed (.ok execution)) j')
    (hcall : call.executes? = some claim) :
    claim.row .pending ∈ j.rows ∧ (j' = j.remove (claim.row .pending) ∨ j' = j.advance (claim.row .pending) .uncertain) := by
  cases h with
  | quiet quiet => exact quiet.elim
  | reject executes retained =>
    obtain rfl := Option.some.inj (executes.symm.trans hcall)
    exact ⟨retained, .inl rfl⟩
  | retain executes retained =>
    obtain rfl := Option.some.inj (executes.symm.trans hcall)
    exact ⟨retained, .inr rfl⟩

theorem Effect.of_handOut (h : Effect j call (.claimed (.ok (.owner claim)) : DeliveryReply ρ) j') :
    (∀ r ∈ j.rows, r.tuple.hostRequestId ≠ claim.tuple.hostRequestId) ∧ claim.ownerFence = j.lastFence + 1 ∧
      j' = j.handOut claim.tuple := by
  cases h with
  | quiet quiet => exact quiet.elim
  | handOut request => exact ⟨request, rfl, rfl⟩

/-- After a command has run, the claim owns no Pending row. -/
theorem Rows.WellFormed.not_pending (hj : j.WellFormed) (hrow : claim.row .pending ∈ j.rows)
    (h : j' = j.remove (claim.row .pending) ∨ j' = j.advance (claim.row .pending) .uncertain)
    (hr : r ∈ j'.rows) (hfence : r.ownerFence = claim.ownerFence) : r.state = .uncertain := by
  rcases h with rfl | rfl
  · exact absurd (hj.fences hr.1 hrow hfence) hr.2
  · rcases Rows.mem_advance.mp hr with rfl | ⟨hr, hne⟩
    · rfl
    · exact absurd (hj.fences hr hrow hfence) hne

/-- The row of an ended claim is gone, and its fence is not ahead of the counter. -/
theorem Ended.lost (hj : (view e.before).WellFormed) (heffect : Effect (view e.before) e.call e.reply (view e.after))
    (h : Ended view e claim) : (view e.after).Lost claim ∧ claim.ownerFence ≤ (view e.after).lastFence := by
  obtain ⟨before, call, reply, after⟩ := e
  dsimp only at hj heffect
  have hremoved {state : ForkDeliveryStateV1} (hrow : claim.row state ∈ (view before).rows) :
      ((view before).remove (claim.row state)).Lost claim ∧
        claim.ownerFence ≤ ((view before).remove (claim.row state)).lastFence :=
    ⟨hj.lost_remove hrow, hj.bounded hrow⟩
  generalize view after = j' at heffect ⊢
  cases h with
  | cancelled hcall hreply =>
    obtain rfl : call = _ := hcall
    obtain rfl : reply = _ := hreply
    cases heffect with
    | quiet quiet =>
      obtain ⟨_, _, h⟩ := quiet
      cases h
    | cancel retained => exact hremoved retained
  | rejected hcall hreply =>
    obtain rfl : reply = _ := hreply
    cases heffect with
    | quiet quiet => exact quiet.elim
    | reject executes retained =>
      obtain rfl := Option.some.inj (executes.symm.trans hcall)
      exact hremoved retained
    | retain _ _ kept => exact absurd rfl (kept _)
  | released hcall hreply hrow =>
    obtain rfl : call = _ := hcall
    obtain rfl : reply = _ := hreply
    generalize htuple : claim.tuple = tuple at heffect
    cases heffect with
    | quiet quiet => exact quiet.elim
    | release retained =>
      have hsame := hj.requests retained hrow (congrArg _ htuple.symm)
      rw [hsame]
      exact hremoved hrow
  | purged hcall hreply hrow =>
    obtain rfl : call = _ := hcall
    obtain rfl : reply = _ := hreply
    generalize htuple : claim.tuple = tuple at heffect
    cases heffect with
    | quiet quiet =>
      obtain ⟨_, _, h⟩ := quiet
      cases h
    | purge retained =>
      have hsame := hj.requests retained hrow (congrArg _ htuple.symm)
      rw [hsame]
      exact hremoved hrow
  | @reclaimed newer hreply request older =>
    obtain rfl : reply = _ := hreply
    obtain ⟨hrequest, hfence, hafter⟩ := heffect.of_handOut
    rw [hafter]
    refine ⟨fun state hrow => ?_, ?_⟩
    · rcases Rows.mem_handOut.mp hrow with heq | hrow
      · have := congrArg ForkDeliveryRowV1.ownerFence heq
        simp only [ForkDeliveryClaimV1.row] at this
        omega
      · exact hrequest _ hrow request.symm
    · show claim.ownerFence ≤ (view before).lastFence + 1
      omega

namespace Journaled

variable {calls : List (DeliveryCall σ ς κ π)} {s : τ} (h : Journaled port exec I admission view)

include h

theorem effect_of_mem_log (hs : I s) (he : e ∈ Runs.log exec s calls) :
    I e.before ∧ Effect (view e.before) e.call e.reply (view e.after) := by
  have hI := ((Runs.invariant h.keeps hs).1 e he).1
  have heffect := h.effect hI e.call
  rw [Runs.exec_of_mem_log he] at heffect
  exact ⟨hI, heffect⟩

/-- The rows of every entry are later than those of the entries before it. -/
theorem later (hs : I s) :
    (Runs.log exec s calls).Pairwise fun e f => (e ∈ Runs.log exec s calls ∧ f ∈ Runs.log exec s calls) ∧
      Rows.Later (view e.after) (view f.before) := by
  have hpairs : (Runs.log exec s calls).Pairwise fun e f =>
      Rows.Later (view e.after) (view f.before) ∧ Rows.Later (view e.after) (view f.after) :=
    (Runs.related (I := I) (R := fun s s' => Rows.Later (view s) (view s')) (fun s => .refl (view s)) .trans
      (fun s call hs => ⟨h.keeps s call hs, (h.effect hs call).step.later⟩) hs).2.1
  exact (List.Pairwise.and_mem.mp hpairs).imp fun hef => ⟨⟨hef.1, hef.2.1⟩, hef.2.2.1⟩

/-- A journal that follows the rows has one owner for each delivery. -/
theorem oneOwner (hs : I s) :
    OneOwner port admission view (Runs.log exec s calls) where
  oneToOne e he r hr r' hr' := by
    have hwf := h.wellFormed ((Runs.invariant h.keeps hs).1 e he).2
    rintro (heq | heq)
    · exact hwf.requests hr hr' heq
    · exact hwf.operations hr hr' heq
  executed e he hreaches := by
    have hI := ((Runs.invariant h.keeps hs).1 e he).1
    obtain ⟨execution, hreply⟩ := h.executed hI hreaches
    rw [Runs.exec_of_mem_log he] at hreply
    exact ⟨execution, hreply⟩
  executesOnce := by
    refine (h.later hs).imp fun {e f} hef claim execution execution' hcall hreply hcall' hreply' => ?_
    obtain ⟨hI, heffect⟩ := h.effect_of_mem_log hs hef.1.1
    obtain ⟨-, heffect'⟩ := h.effect_of_mem_log hs hef.1.2
    rw [hreply] at heffect
    rw [hreply'] at heffect'
    obtain ⟨hrow, hafter⟩ := heffect.of_executed hcall
    obtain ⟨hrow', -⟩ := heffect'.of_executed hcall'
    have hwf := h.wellFormed hI
    -- the later Pending row would come from a row that is Uncertain
    have hbound := (hwf.bounded hrow).trans heffect.step.lastFence_le
    obtain ⟨r, hr, hfence, -, hstage⟩ := hef.2.origin _ hrow' hbound
    rw [hwf.not_pending hrow hafter hr hfence] at hstage
    exact absurd hstage (Nat.not_succ_le_zero 0)
  stale := by
    refine (h.later hs).imp fun {e f} hef claim hended hclaim => ?_
    obtain ⟨hI, heffect⟩ := h.effect_of_mem_log hs hef.1.1
    obtain ⟨hlost, hbound⟩ := hended.lost (h.wellFormed hI) heffect
    obtain ⟨hI', -⟩ := h.effect_of_mem_log hs hef.1.2
    have hstale := h.stale hI' hclaim (hef.2.lost hbound hlost)
    rw [Runs.exec_of_mem_log hef.1.2] at hstale
    exact ⟨congrArg Prod.snd hstale, congrArg Prod.fst hstale⟩
  begins e he r' hr' hnew := by
    obtain ⟨-, heffect⟩ := h.effect_of_mem_log hs he
    rcases heffect.step.origin hr' with ⟨-, hstate⟩ | ⟨r, hr, hfence, -⟩
    · exact hstate
    · exact absurd hfence (hnew r hr)
  moves e he r hr r' hr' hfence := by
    obtain ⟨hI, heffect⟩ := h.effect_of_mem_log hs he
    have hwf := h.wellFormed hI
    rcases heffect.step.origin hr' with ⟨hnew, -⟩ | ⟨r₀, hr₀, hfence₀, htuple, hmoves⟩
    · have := hwf.bounded hr
      omega
    · obtain rfl := hwf.fences hr hr₀ (hfence.trans hfence₀.symm)
      exact ⟨htuple, hmoves⟩
  fences := by
    refine (h.later hs).imp fun {e f} hef claim claim' hreply hreply' => ?_
    obtain ⟨-, heffect⟩ := h.effect_of_mem_log hs hef.1.1
    obtain ⟨-, heffect'⟩ := h.effect_of_mem_log hs hef.1.2
    rw [hreply] at heffect
    rw [hreply'] at heffect'
    obtain ⟨-, hfence, hafter⟩ := heffect.of_handOut
    obtain ⟨-, hfence', -⟩ := heffect'.of_handOut
    have hle := hef.2.lastFence
    rw [hafter] at hle
    have : (view e.before).lastFence + 1 ≤ (view f.before).lastFence := hle
    omega

end Journaled

end Piglor.Delivery
