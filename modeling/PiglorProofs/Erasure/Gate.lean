/-
The containment gate (`ErasureContainmentGateV1`) and its calls, cut where a thread takes or releases
the fence. A protected effect and a durable transition hold the fence from their start to their end, so
they are two calls each, with any calls of any threads between them; a call that waits for the fence
changes nothing. A panic inside either unwinds through the guard and poisons the lock.
-/
import PiglorProofs.Erasure.Inventory
import PiglorProofs.Lib.Runs

namespace Piglor.Erasure

open Checked

abbrev Thread := Nat

/-- What the gate decides from; `states` is the map by request, in key order. -/
structure ErasureGateStateV1 where
  inventory : Option ErasureVerifiedInventoryV1
  timelineScopes : Table TimelineId ErasureReferenceV1
  verifiedUnaffected : Table TimelineId ErasureReferenceV1
  states : List ErasureVerifiedStateV1
  blockedTimelines : Finset TimelineId
  frozenTimelines : Finset TimelineId

/-- An authority with nothing but an inventory. -/
def ErasureGateStateV1.ofInventory (inventory : Option ErasureVerifiedInventoryV1) : ErasureGateStateV1 :=
  ⟨inventory, ∅, ∅, [], ∅, ∅⟩

/-- What runs under the fence: a protected effect or a durable transition. -/
inductive Frame where
  | effect (timeline : TimelineId)
  | transition
deriving DecidableEq

/-- The thread that holds the fence, with what it runs, innermost first. -/
structure Holder where
  thread : Thread
  frames : List Frame

structure ErasureContainmentGateV1 where
  authority : ErasureGateStateV1
  authorityPoisoned : Bool
  holder : Option Holder
  fencePoisoned : Bool
  failClosedUnbound : Bool
  poisoned : Bool

/-- What the gate reads of a state when it decides. -/
def ErasureVerifiedStateV1.reference (state : ErasureVerifiedStateV1) : ErasureReferenceV1 := state.request.reference

namespace ErasureContainmentGateV1

variable (gate : ErasureContainmentGateV1) (timeline : TimelineId)

/-- `new` and `new_fail_closed` with `true`, `new_test_open` with `false`. -/
def new (failClosedUnbound : Bool) : ErasureContainmentGateV1 where
  authority := .ofInventory none
  authorityPoisoned := false
  holder := none
  fencePoisoned := false
  failClosedUnbound := failClosedUnbound
  poisoned := false

/-! ## Decisions -/

def ensureAvailable : ContainmentResult Unit :=
  if gate.poisoned then .error .recoveryUnavailable else .ok ()

/-- The states in key order: each that contains the scope must permit it, and one must contain it. -/
def permitStates (scope : ErasureReferenceV1) : Bool → List ErasureVerifiedStateV1 → ContainmentResult Unit
  | matched, [] => if matched then .ok () else .error .recoveryUnavailable
  | matched, state :: rest =>
    if state.scopeContains scope then do
      state.permitProtectedOperation scope
      permitStates scope true rest
    else permitStates scope matched rest

def authorizeUnfrozenState (authority : ErasureGateStateV1) : ContainmentResult Unit :=
  match authority.inventory with
  | some inventory => inventory.authorize timeline
  | none =>
    if timeline ∈ authority.blockedTimelines then .error .recoveryUnavailable
    else match authority.timelineScopes.lookup timeline with
      | none => match authority.verifiedUnaffected.lookup timeline with
        | some manifest =>
          if authority.states.any fun state => state.manifestDigest == manifest then .ok ()
          else .error .recoveryUnavailable
        | none => if gate.failClosedUnbound then .error .recoveryUnavailable else .ok ()
      | some scope => permitStates scope false authority.states

def rejectFrozenTimeline (authority : ErasureGateStateV1) (timeline : TimelineId) : ContainmentResult Unit :=
  refuseIf (timeline ∈ authority.frozenTimelines) .accessFrozen

def authorizeState (authority : ErasureGateStateV1) : ContainmentResult Unit := do
  rejectFrozenTimeline authority timeline
  gate.authorizeUnfrozenState timeline authority

def authorizeFromAuthority : ContainmentResult Unit :=
  if gate.authorityPoisoned then .error .recoveryUnavailable else gate.authorizeState timeline gate.authority

/-- The answer to a caller that has the fence. -/
def verdict : ContainmentResult Unit := do
  gate.ensureAvailable
  gate.authorizeFromAuthority timeline

/-! ## Publishing -/

/-- Replace the authority through its lock. -/
def publish (authority : ErasureGateStateV1) : ContainmentResult ErasureContainmentGateV1 :=
  if gate.authorityPoisoned then .error .recoveryUnavailable else .ok { gate with authority := authority }

def validateInventorySuccessor (candidate : ErasureVerifiedInventoryV1) : ContainmentResult Unit :=
  if gate.authorityPoisoned then .error .recoveryUnavailable
  else match gate.authority.inventory with
    | none => .ok ()
    | some current => (current.validateFrozenMembershipSuccessor candidate).mapError fun _ => .recoveryUnavailable

/-- Put a candidate in the place of the whole authority. -/
def replaceInventory (candidate : ErasureVerifiedInventoryV1) : ContainmentResult ErasureContainmentGateV1 := do
  gate.validateInventorySuccessor candidate
  gate.publish (.ofInventory (some candidate))

/-- The bindings stay in the effective scope and cover it, and name each Timeline once. -/
def validateStateTopologyBindings (state : ErasureVerifiedStateV1) (bindings unaffected : List (TimelineId × ErasureReferenceV1)) :
    ContainmentResult Unit := do
  refuseIf ((bindings.any fun binding => !state.scopeContains binding.2) = true) .recoveryUnavailable
  (validateCommittedScopeTimelineBindings state bindings).mapError fun _ => .recoveryUnavailable
  let expectedScopes := (state.scope.map ErasureScopeCommitmentV1.scopeMembers).getD [] ++ state.scopeForks
  refuseIf (expectedScopes.toFinset ≠ (bindings.map Prod.snd).toFinset) .recoveryUnavailable
  refuseIf (¬ (bindings.map Prod.fst ++ unaffected.map Prod.fst).Nodup) .recoveryUnavailable

/-- `BTreeMap::insert` of each pair, in order. -/
def insertAll (table : Table TimelineId ErasureReferenceV1) (rows : List (TimelineId × ErasureReferenceV1)) :
    Table TimelineId ErasureReferenceV1 :=
  rows.foldl (fun table row => table.insert row.1 row.2) table

/-- The checks of `install_verified_state_with_bindings` against the installed authority, and the one it publishes. -/
def admitVerifiedState (authority : ErasureGateStateV1) (state : ErasureVerifiedStateV1)
    (bindings unaffected : List (TimelineId × ErasureReferenceV1)) : ContainmentResult ErasureGateStateV1 := do
  let existing := authority.states.find? fun existing => existing.reference == state.reference
  refuseIf ((existing.any fun existing =>
    decide (containmentRank existing.lifecycle > containmentRank state.lifecycle)) = true) .recoveryUnavailable
  refuseIf ((bindings.any fun row => (authority.timelineScopes.lookup row.1).any (· != row.2)) = true) .recoveryUnavailable
  refuseIf ((unaffected.any fun row => (authority.verifiedUnaffected.lookup row.1).any (· != row.2)) = true)
    .recoveryUnavailable
  .ok { authority with
    states := Ascending.insert ErasureVerifiedStateV1.reference state authority.states
    timelineScopes := insertAll authority.timelineScopes bindings
    verifiedUnaffected := insertAll authority.verifiedUnaffected unaffected }

def installVerifiedStateWithBindings (state : ErasureVerifiedStateV1)
    (bindings unaffected : List (TimelineId × ErasureReferenceV1)) :
    ContainmentResult ErasureContainmentGateV1 := do
  validateStateTopologyBindings state bindings unaffected
  refuseIf (gate.authorityPoisoned = true) .recoveryUnavailable
  let candidate ← admitVerifiedState gate.authority state bindings unaffected
  gate.publish candidate

/-- `bind_timeline` under the fence. -/
def bindTimeline (scope : ErasureReferenceV1) : ContainmentResult ErasureContainmentGateV1 := do
  refuseIf (gate.authorityPoisoned = true) .recoveryUnavailable
  refuseIf ((gate.authority.verifiedUnaffected.lookup timeline).isSome = true) .recoveryUnavailable
  match gate.authority.timelineScopes.lookup timeline with
  | some existing => if existing ≠ scope then .error .recoveryUnavailable else .ok gate
  | none => gate.publish { gate.authority with timelineScopes := gate.authority.timelineScopes.insert timeline scope }

/-- `install_verified_inventory` under the fence. -/
def installVerifiedInventory (candidate : ErasureVerifiedInventoryV1) :
    ContainmentResult ErasureContainmentGateV1 := do
  gate.ensureAvailable
  gate.replaceInventory candidate

/-- The end of `install_from_verified_inventory_transition`. -/
def completeInventoryTransition (outcome : ErasureResult ErasureVerifiedInventoryV1) :
    ContainmentResult ErasureContainmentGateV1 := do
  let candidate ← outcome.mapError fun _ => .recoveryUnavailable
  gate.replaceInventory candidate

/-- `block_timeline` under the fence; a poisoned lock makes it return at once. -/
def blockTimeline : ErasureContainmentGateV1 :=
  if gate.fencePoisoned || gate.authorityPoisoned then gate
  else { gate with authority :=
    { gate.authority with blockedTimelines := insert timeline gate.authority.blockedTimelines } }

end ErasureContainmentGateV1

/-! ## Calls -/

inductive GateCall where
  | authorize (thread : Thread) (timeline : TimelineId)
  | startEffect (thread : Thread) (timeline : TimelineId)
  | finishEffect (thread : Thread)
  | unwind (thread : Thread)
  | installVerifiedInventory (thread : Thread) (candidate : ErasureVerifiedInventoryV1) (limits : ErasureRecoveryLimitsV1)
  | beginTransition (thread : Thread)
  | completeTransition (thread : Thread) (outcome : ErasureResult ErasureVerifiedInventoryV1)
  | installVerifiedStateWithTopology (thread : Thread) (state : ErasureVerifiedStateV1)
      (proof : ErasureVerifiedTopologyProofV1)
  | bindTimeline (thread : Thread) (timeline : TimelineId) (scope : ErasureReferenceV1)
  | blockTimeline (thread : Thread) (timeline : TimelineId)
  | poison
  | poisonAuthority

/-- `waits` is a call that the fence keeps waiting, `idle` one that no thread is in a place to make. -/
inductive GateReply where
  | waits
  | idle
  | started
  | done
  | refused (error : ErasureContainmentErrorV1)
deriving DecidableEq

namespace ErasureContainmentGateV1

/-- A call that fails leaves the gate as it is. -/
def finish (gate : ErasureContainmentGateV1) (reply : GateReply) :
    ContainmentResult ErasureContainmentGateV1 → ErasureContainmentGateV1 × GateReply
  | .ok gate' => (gate', reply)
  | .error e => (gate, .refused e)

/-- Take the fence for one step and release it. A thread that asks again for a fence it holds waits for good. -/
def lockFence (gate : ErasureContainmentGateV1) (step : ErasureContainmentGateV1 × GateReply) :
    ErasureContainmentGateV1 × GateReply :=
  if gate.holder.isSome then (gate, .waits)
  else if gate.fencePoisoned then (gate, .refused .recoveryUnavailable)
  else step

/-- The frames of the fence, when the calling thread holds it. -/
def activeFrames (gate : ErasureContainmentGateV1) (thread : Thread) : Option (List Frame) :=
  match gate.holder with
  | some holder => if holder.thread = thread then some holder.frames else none
  | none => none

def exec (gate : ErasureContainmentGateV1) : GateCall → ErasureContainmentGateV1 × GateReply
  | .authorize thread timeline =>
    let answer := finish gate .done ((gate.verdict timeline).map fun _ => gate)
    match gate.activeFrames thread with
    | some _ => answer
    | none => gate.lockFence answer
  | .startEffect thread timeline =>
    let enter (frames : List Frame) := finish gate .started ((gate.verdict timeline).map fun _ =>
      { gate with holder := some ⟨thread, .effect timeline :: frames⟩ })
    match gate.activeFrames thread with
    | some frames => enter frames
    | none => gate.lockFence (enter [])
  | .finishEffect thread => match gate.activeFrames thread with
    | some (.effect _ :: rest) =>
      let released := { gate with holder := if rest = [] then none else some ⟨thread, rest⟩ }
      (released, match gate.ensureAvailable with
        | .ok () => .done
        | .error e => .refused e)
    | _ => (gate, .idle)
  | .unwind thread => match gate.activeFrames thread with
    | some _ => ({ gate with holder := none, fencePoisoned := true }, .done)
    | none => (gate, .idle)
  | .installVerifiedInventory _ candidate limits =>
    if candidate.isAdmittedBy limits then gate.lockFence (finish gate .done (gate.installVerifiedInventory candidate))
    else (gate, .refused .recoveryUnavailable)
  | .beginTransition thread => match gate.ensureAvailable with
    | .error e => (gate, .refused e)
    | .ok () => gate.lockFence ({ gate with holder := some ⟨thread, [.transition]⟩ }, .started)
  | .completeTransition thread outcome => match gate.activeFrames thread with
    | some [.transition] =>
      let released := { gate with holder := none }
      finish released .done (released.completeInventoryTransition outcome)
    | _ => (gate, .idle)
  | .installVerifiedStateWithTopology _ state proof =>
    if proof.manifestDigest ≠ state.manifestDigest then (gate, .refused .recoveryUnavailable)
    else gate.lockFence (finish gate .done (gate.installVerifiedStateWithBindings state proof.bindings
      (proof.unaffected.map fun timeline => (timeline, proof.manifestDigest))))
  | .bindTimeline _ timeline scope => gate.lockFence (finish gate .done (gate.bindTimeline timeline scope))
  | .blockTimeline _ timeline => if gate.holder.isSome then (gate, .waits) else (gate.blockTimeline timeline, .done)
  | .poison => ({ gate with poisoned := true }, .done)
  | .poisonAuthority => ({ gate with authorityPoisoned := true }, .done)

/-! ## What a call can change -/

/-- Two gates that decide alike: only who holds the fence, and whether its lock is poisoned, may differ. -/
structure DecidesAs (gate gate' : ErasureContainmentGateV1) : Prop where
  authority : gate'.authority = gate.authority
  authorityPoisoned : gate'.authorityPoisoned = gate.authorityPoisoned
  failClosedUnbound : gate'.failClosedUnbound = gate.failClosedUnbound
  poisoned : gate'.poisoned = gate.poisoned

theorem DecidesAs.refl (gate : ErasureContainmentGateV1) : DecidesAs gate gate := ⟨rfl, rfl, rfl, rfl⟩

variable {gate gate' : ErasureContainmentGateV1}

theorem DecidesAs.verdict (h : DecidesAs gate gate') (timeline : TimelineId) :
    gate'.verdict timeline = gate.verdict timeline := by
  have hstate : gate'.authorizeState timeline gate.authority = gate.authorizeState timeline gate.authority := by
    unfold authorizeState authorizeUnfrozenState
    rw [h.failClosedUnbound]
  unfold ErasureContainmentGateV1.verdict ensureAvailable authorizeFromAuthority
  rw [h.poisoned, h.authorityPoisoned, h.authority, hstate]

/-- How the authority may change: beside the inventory, or to a candidate that the inventory accepts. -/
inductive Follows (authority : ErasureGateStateV1) : ErasureGateStateV1 → Prop where
  | beside {authority' : ErasureGateStateV1} (inventory : authority'.inventory = authority.inventory)
      (frozen : authority'.frozenTimelines = authority.frozenTimelines) : Follows authority authority'
  | replaced (candidate : ErasureVerifiedInventoryV1)
      (accepted : ∀ current, authority.inventory = some current →
        current.validateFrozenMembershipSuccessor candidate = .ok ()) :
      Follows authority (.ofInventory (some candidate))

theorem lockFence_cases (gate : ErasureContainmentGateV1) (step : ErasureContainmentGateV1 × GateReply) :
    (gate.lockFence step).1 = gate ∧ (gate.lockFence step).2 ≠ .done ∨
      gate.holder = none ∧ gate.fencePoisoned = false ∧ gate.lockFence step = step := by
  unfold lockFence
  split
  · exact .inl ⟨rfl, by simp⟩
  · rename_i hheld
    split
    · exact .inl ⟨rfl, by simp⟩
    · rename_i hsound
      exact .inr ⟨Option.not_isSome_iff_eq_none.mp hheld, Bool.eq_false_iff.mpr hsound, rfl⟩

theorem lockFence_free (hfree : gate.holder = none) (hsound : gate.fencePoisoned = false)
    (step : ErasureContainmentGateV1 × GateReply) : gate.lockFence step = step := by
  rw [lockFence, hfree, hsound]
  rfl

theorem of_publish {authority : ErasureGateStateV1} (h : gate.publish authority = .ok gate') :
    gate' = { gate with authority := authority } := by
  unfold publish at h
  split_ifs at h
  exact (Except.ok.inj h).symm

theorem of_replaceInventory {candidate : ErasureVerifiedInventoryV1} (h : gate.replaceInventory candidate = .ok gate') :
    gate' = { gate with authority := .ofInventory (some candidate) } ∧
      ∀ current, gate.authority.inventory = some current →
        current.validateFrozenMembershipSuccessor candidate = .ok () := by
  obtain ⟨⟨⟩, hvalid, hpublish⟩ := bind_eq_ok.mp h
  refine ⟨of_publish hpublish, fun current hcurrent => ?_⟩
  unfold validateInventorySuccessor at hvalid
  split_ifs at hvalid
  rw [hcurrent] at hvalid
  exact mapError_eq_ok.mp hvalid

theorem of_installVerifiedState {state : ErasureVerifiedStateV1}
    {bindings unaffected : List (TimelineId × ErasureReferenceV1)}
    (h : gate.installVerifiedStateWithBindings state bindings unaffected = .ok gate') :
    validateStateTopologyBindings state bindings unaffected = .ok () ∧ gate' = { gate with authority :=
      { gate.authority with
        states := Ascending.insert ErasureVerifiedStateV1.reference state gate.authority.states
        timelineScopes := insertAll gate.authority.timelineScopes bindings
        verifiedUnaffected := insertAll gate.authority.verifiedUnaffected unaffected } } := by
  obtain ⟨⟨⟩, hvalid, h⟩ := bind_eq_ok.mp h
  obtain ⟨-, -, h⟩ := bind_eq_ok.mp h
  obtain ⟨candidate, hadmit, hpublish⟩ := bind_eq_ok.mp h
  obtain ⟨-, -, hadmit⟩ := bind_eq_ok.mp hadmit
  obtain ⟨-, -, hadmit⟩ := bind_eq_ok.mp hadmit
  obtain ⟨-, -, hadmit⟩ := bind_eq_ok.mp hadmit
  cases hadmit
  exact ⟨hvalid, of_publish hpublish⟩

/-- A binding changes no inventory. -/
theorem follows_of_bindTimeline {timeline : TimelineId} {scope : ErasureReferenceV1}
    (h : gate.bindTimeline timeline scope = .ok gate') : Follows gate.authority gate'.authority := by
  obtain ⟨-, -, h⟩ := bind_eq_ok.mp h
  obtain ⟨-, -, h⟩ := bind_eq_ok.mp h
  split at h
  · split_ifs at h
    cases h
    exact .beside rfl rfl
  · rw [of_publish h]
    exact .beside rfl rfl

section

variable (gate : ErasureContainmentGateV1)

/-- A call leaves the gate deciding as before, or it returns and the authority follows the one it found. -/
theorem exec_cases (call : GateCall) :
    DecidesAs gate (gate.exec call).1 ∨
      (gate.exec call).2 = .done ∧ Follows gate.authority (gate.exec call).1.authority := by
  have hrefl : DecidesAs gate gate := .refl gate
  -- a step under the fence changes nothing unless it runs
  have hlock (step : ErasureContainmentGateV1 × GateReply)
      (hstep : DecidesAs gate step.1 ∨ step.2 = .done ∧ Follows gate.authority step.1.authority) :
      DecidesAs gate (gate.lockFence step).1 ∨
        (gate.lockFence step).2 = .done ∧ Follows gate.authority (gate.lockFence step).1.authority := by
    rcases gate.lockFence_cases step with ⟨hsame, -⟩ | ⟨-, -, hrun⟩
    · rw [hsame]
      exact .inl hrefl
    · rw [hrun]
      exact hstep
  have hfinish (gate₀ : ErasureContainmentGateV1) (h₀ : DecidesAs gate gate₀)
      (result : ContainmentResult ErasureContainmentGateV1)
      (hresult : ∀ gate', result = .ok gate' → Follows gate.authority gate'.authority) :
      DecidesAs gate (gate₀.finish .done result).1 ∨
        (gate₀.finish .done result).2 = .done ∧ Follows gate.authority (gate₀.finish .done result).1.authority := by
    cases result with
    | ok gate' => exact .inr ⟨rfl, hresult gate' rfl⟩
    | error e => exact .inl h₀
  cases call with
  | authorize thread timeline =>
    have hanswer : DecidesAs gate (gate.finish .done ((gate.verdict timeline).map fun _ => gate)).1 := by
      cases gate.verdict timeline <;> exact hrefl
    simp only [exec]
    split
    · exact .inl hanswer
    · exact hlock _ (.inl hanswer)
  | startEffect thread timeline =>
    have henter (frames : List Frame) : DecidesAs gate (gate.finish .started ((gate.verdict timeline).map fun _ =>
        { gate with holder := some ⟨thread, .effect timeline :: frames⟩ })).1 := by
      cases gate.verdict timeline
      · exact hrefl
      · exact ⟨rfl, rfl, rfl, rfl⟩
    simp only [exec]
    split
    · exact .inl (henter _)
    · exact hlock _ (.inl (henter _))
  | finishEffect thread | unwind thread =>
    simp only [exec]
    split
    · exact .inl ⟨rfl, rfl, rfl, rfl⟩
    · exact .inl hrefl
  | installVerifiedInventory thread candidate limits =>
    simp only [exec]
    split
    · refine hlock _ (hfinish gate hrefl _ fun gate' hok => ?_)
      obtain ⟨-, -, hreplace⟩ := bind_eq_ok.mp hok
      obtain ⟨rfl, haccepted⟩ := of_replaceInventory hreplace
      exact .replaced candidate haccepted
    · exact .inl hrefl
  | beginTransition thread =>
    simp only [exec]
    split
    · exact .inl hrefl
    · exact hlock _ (.inl ⟨rfl, rfl, rfl, rfl⟩)
  | completeTransition thread outcome =>
    simp only [exec]
    split
    · refine hfinish { gate with holder := none } ⟨rfl, rfl, rfl, rfl⟩ _ fun gate' hok => ?_
      obtain ⟨candidate, -, hreplace⟩ := bind_eq_ok.mp hok
      obtain ⟨rfl, haccepted⟩ := of_replaceInventory hreplace
      exact .replaced candidate haccepted
    · exact .inl hrefl
  | installVerifiedStateWithTopology thread state proof =>
    simp only [exec]
    split
    · exact .inl hrefl
    · refine hlock _ (hfinish gate hrefl _ fun gate' hok => ?_)
      rw [(of_installVerifiedState hok).2]
      exact .beside rfl rfl
  | bindTimeline thread timeline scope =>
    exact hlock _ (hfinish gate hrefl _ fun gate' hok => follows_of_bindTimeline hok)
  | blockTimeline thread timeline =>
    simp only [exec, blockTimeline]
    split
    · exact .inl hrefl
    · split
      · exact .inl hrefl
      · exact .inr ⟨rfl, .beside rfl rfl⟩
  | poison | poisonAuthority => exact .inr ⟨rfl, .beside rfl rfl⟩

def answer (granted : GateReply) : ContainmentResult Unit → GateReply
  | .ok () => granted
  | .error e => .refused e

/-- A caller waits, finds the lock poisoned, or is answered by the verdict of the gate it finds. -/
theorem authorize_reply (thread : Thread) (timeline : TimelineId) :
    (gate.exec (.authorize thread timeline)).2 = .waits ∨
      (gate.exec (.authorize thread timeline)).2 = .refused .recoveryUnavailable ∨
      (gate.exec (.authorize thread timeline)).2 = answer .done (gate.verdict timeline) := by
  have hanswer : (gate.finish .done ((gate.verdict timeline).map fun _ => gate)).2 = answer .done (gate.verdict timeline) := by
    cases gate.verdict timeline <;> rfl
  simp only [exec, lockFence]
  repeat' split
  · exact .inr (.inr hanswer)
  · exact .inl rfl
  · exact .inr (.inl rfl)
  · exact .inr (.inr hanswer)

theorem startEffect_reply (thread : Thread) (timeline : TimelineId) :
    (gate.exec (.startEffect thread timeline)).2 = .waits ∨
      (gate.exec (.startEffect thread timeline)).2 = .refused .recoveryUnavailable ∨
      (gate.exec (.startEffect thread timeline)).2 = answer .started (gate.verdict timeline) := by
  have hanswer (gate' : ErasureContainmentGateV1) :
      (gate.finish .started ((gate.verdict timeline).map fun _ => gate')).2 = answer .started (gate.verdict timeline) := by
    cases gate.verdict timeline <;> rfl
  simp only [exec, lockFence]
  repeat' split
  · exact .inr (.inr (hanswer _))
  · exact .inl rfl
  · exact .inr (.inl rfl)
  · exact .inr (.inr (hanswer _))

end

theorem reply_of_free (hfree : gate.holder = none) (hsound : gate.fencePoisoned = false) (thread : Thread)
    (timeline : TimelineId) : (gate.exec (.authorize thread timeline)).2 = answer .done (gate.verdict timeline) ∧
      (gate.exec (.startEffect thread timeline)).2 = answer .started (gate.verdict timeline) := by
  simp only [exec, activeFrames, hfree, lockFence_free hfree hsound]
  cases gate.verdict timeline <;> exact ⟨rfl, rfl⟩

/-! ## The gate of a store -/

def inventoryGeneration (gate : ErasureContainmentGateV1) : ContainmentResult ErasureReferenceV1 := do
  gate.ensureAvailable
  if gate.authorityPoisoned then .error .recoveryUnavailable
  else match gate.authority.inventory with
    | some inventory => .ok inventory.generation
    | none => .error .recoveryUnavailable

def permitsUnverifiedTestFixture (gate : ErasureContainmentGateV1) : Bool :=
  !gate.failClosedUnbound && gate.ensureAvailable.isOk && !gate.authorityPoisoned && gate.authority.inventory.isNone

/-- What a store reads of the gate while nothing runs under the fence. -/
def view (gate : ErasureContainmentGateV1) : ErasureGateView :=
  ⟨gate.inventoryGeneration.toOption, gate.permitsUnverifiedTestFixture, gate.verdict⟩

theorem view_new : (new false).view = .newTestOpen := by
  refine congrArg (ErasureGateView.mk none true) (funext fun timeline => ?_)
  simp [verdict, ensureAvailable, authorizeFromAuthority, authorizeState, rejectFrozenTimeline, authorizeUnfrozenState,
    new, ErasureGateStateV1.ofInventory, refuseIf_neg]

/-- A store admits a Timeline when its binding to the gate holds and the gate grants the Timeline to whoever asks. -/
theorem admits_iff_granted {s : MemoryStore} (hgate : s.erasureGate = some gate.view) (hfree : gate.holder = none)
    (hsound : gate.fencePoisoned = false) (thread : Thread) (timeline : TimelineId) : s.Admits timeline ↔
      MemoryStore.validateBoundErasureInventoryGeneration s.erasureGateBound gate.view s.erasureInventoryGeneration =
        .ok () ∧ (gate.exec (.authorize thread timeline)).2 = .done := by
  have hanswer : answer .done (gate.verdict timeline) = .done ↔ gate.verdict timeline = .ok () := by
    rcases gate.verdict timeline <;> simp [answer]
  rw [(reply_of_free hfree hsound thread timeline).1, hanswer, MemoryStore.Admits, MemoryStore.erasureFence,
    MemoryStore.validatedErasureGate, hgate]
  simp only [bind_eq_ok, mapError_eq_ok, Unique.exists_iff, PUnit.default_eq_unit, Except.ok.injEq]
  constructor
  · rintro ⟨_, ⟨hbound, rfl⟩, hverdict⟩
    exact ⟨hbound, hverdict⟩
  · rintro ⟨hbound, hverdict⟩
    exact ⟨_, ⟨hbound, rfl⟩, hverdict⟩

end ErasureContainmentGateV1

end Piglor.Erasure
