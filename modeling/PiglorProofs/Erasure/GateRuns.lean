/-
The containment gate over whole runs: what an installed inventory has closed is never opened again, a
refused call changes no verdict, and a refusal given beside an installed inventory only takes effect
where the inventory refuses too.
-/
import PiglorProofs.Erasure.Gate

namespace Piglor.Erasure

open Piglor.Erasure.ErasureContainmentGateV1 Checked List Runs

abbrev GateEntry := Runs.Entry ErasureContainmentGateV1 GateCall GateReply

variable {timeline : TimelineId} {gate gate' : ErasureContainmentGateV1} {thread : Thread}

namespace ErasureContainmentGateV1

/-! ## Verdicts under an installed inventory -/

/-- The installed inventory closes the Timeline. -/
def Closed (gate : ErasureContainmentGateV1) (timeline : TimelineId) : Prop :=
  ∃ inventory, gate.authority.inventory = some inventory ∧ inventory.authorize timeline = .error .accessFrozen

/-- An available gate with an inventory answers as the inventory does. -/
theorem verdict_of_inventory {inventory : ErasureVerifiedInventoryV1} (hpoisoned : gate.poisoned = false)
    (hauthority : gate.authorityPoisoned = false) (hfrozen : gate.authority.frozenTimelines = ∅)
    (hinventory : gate.authority.inventory = some inventory) (timeline : TimelineId) :
    gate.verdict timeline = inventory.authorize timeline := by
  unfold verdict ensureAvailable authorizeFromAuthority authorizeState rejectFrozenTimeline authorizeUnfrozenState
  rw [hpoisoned, hauthority, hfrozen, hinventory]
  rfl

theorem available_of_verdict (h : gate.verdict timeline = .ok () ∨ gate.verdict timeline = .error .accessFrozen) :
    gate.poisoned = false ∧ gate.authorityPoisoned = false := by
  unfold verdict ensureAvailable authorizeFromAuthority at h
  cases hpoisoned : gate.poisoned <;> cases hauthority : gate.authorityPoisoned <;> simp [hpoisoned, hauthority] at h ⊢

theorem Closed.verdict_ne_ok (h : gate.Closed timeline)
    (hfrozen : gate.authority.frozenTimelines = ∅) : gate.verdict timeline ≠ .ok () := by
  intro hok
  obtain ⟨inventory, hinventory, hclosed⟩ := h
  obtain ⟨hpoisoned, hauthority⟩ := available_of_verdict (.inl hok)
  rw [verdict_of_inventory hpoisoned hauthority hfrozen hinventory, hclosed] at hok
  cases hok

/-! ## What a step keeps -/

theorem Follows.frozen {authority authority' : ErasureGateStateV1} (h : Follows authority authority')
    (hfrozen : authority.frozenTimelines = ∅) : authority'.frozenTimelines = ∅ := by
  cases h with
  | beside _ hkept => exact hkept.trans hfrozen
  | replaced => rfl

theorem Closed.follows (h : gate.Closed timeline)
    (hfollows : Follows gate.authority gate'.authority) : gate'.Closed timeline := by
  obtain ⟨inventory, hinventory, hclosed⟩ := h
  generalize hauthority' : gate'.authority = authority' at hfollows
  cases hfollows with
  | beside hkept => exact ⟨inventory, by rw [hauthority', hkept, hinventory], hclosed⟩
  | replaced candidate haccepted =>
    refine ⟨candidate, by rw [hauthority']; rfl, ?_⟩
    exact ErasureVerifiedInventoryV1.accessFrozen_of_successor (haccepted inventory hinventory) hclosed

theorem exec_follows (gate : ErasureContainmentGateV1) (call : GateCall) :
    Follows gate.authority (gate.exec call).1.authority := by
  rcases gate.exec_cases call with hsame | ⟨-, hfollows⟩
  · rw [hsame.authority]
    exact .beside rfl rfl
  · exact hfollows

theorem exec_keeps (gate : ErasureContainmentGateV1) (call : GateCall) (hfrozen : gate.authority.frozenTimelines = ∅) :
    (gate.exec call).1.authority.frozenTimelines = ∅ ∧
      ∀ timeline, gate.Closed timeline → (gate.exec call).1.Closed timeline :=
  ⟨(gate.exec_follows call).frozen hfrozen, fun _ hclosed => hclosed.follows (gate.exec_follows call)⟩

/-! ## The fence during a transition -/

/-- The thread is inside a durable transition, perhaps inside effects of its own. -/
def InTransition (gate : ErasureContainmentGateV1) (thread : Thread) : Prop :=
  ∃ inner, gate.holder = some ⟨thread, inner ++ [.transition]⟩

variable {call : GateCall}

theorem InTransition.activeFrames {other : Thread} (h : gate.InTransition thread) {frames : List Frame}
    (hactive : gate.activeFrames other = some frames) : other = thread ∧ ∃ inner, frames = inner ++ [.transition] := by
  obtain ⟨inner, hholder⟩ := h
  unfold ErasureContainmentGateV1.activeFrames at hactive
  rw [hholder] at hactive
  dsimp only at hactive
  split at hactive
  · rename_i hthread
    exact ⟨hthread.symm, inner, (Option.some.inj hactive).symm⟩
  · cases hactive

/-- Until the transition returns or unwinds, no call publishes anything. -/
theorem InTransition.exec (h : gate.InTransition thread)
    (hreturn : ∀ outcome, call ≠ .completeTransition thread outcome) (hunwind : call ≠ .unwind thread) :
    (gate.exec call).1.authority = gate.authority ∧ (gate.exec call).1.InTransition thread := by
  have hheld : gate.holder.isSome = true := by
    obtain ⟨inner, hholder⟩ := h
    rw [hholder]
    rfl
  have hwaits (step : ErasureContainmentGateV1 × GateReply) : gate.lockFence step = (gate, .waits) := by
    rw [lockFence, if_pos hheld]
  cases call with
  | authorize other timeline =>
    simp only [ErasureContainmentGateV1.exec]
    split
    · cases gate.verdict timeline <;> exact ⟨rfl, h⟩
    · rw [hwaits]
      exact ⟨rfl, h⟩
  | startEffect other timeline =>
    simp only [ErasureContainmentGateV1.exec]
    split
    · rename_i frames hactive
      obtain ⟨rfl, inner, rfl⟩ := h.activeFrames hactive
      cases gate.verdict timeline
      · exact ⟨rfl, h⟩
      · exact ⟨rfl, .effect timeline :: inner, rfl⟩
    · rw [hwaits]
      exact ⟨rfl, h⟩
  | finishEffect other =>
    simp only [ErasureContainmentGateV1.exec]
    split
    · rename_i timeline rest hactive
      obtain ⟨rfl, inner, hinner⟩ := h.activeFrames hactive
      -- the innermost frame is an effect, so the transition is still below it
      cases inner with
      | nil => cases hinner
      | cons frame inner =>
        obtain ⟨-, rfl⟩ := cons.inj hinner
        exact ⟨rfl, inner, if_neg (by simp)⟩
    · exact ⟨rfl, h⟩
  | unwind other =>
    simp only [ErasureContainmentGateV1.exec]
    split
    · rename_i hactive
      exact absurd (congrArg GateCall.unwind (h.activeFrames hactive).1) hunwind
    · exact ⟨rfl, h⟩
  | installVerifiedInventory other candidate limits | beginTransition other =>
    simp only [ErasureContainmentGateV1.exec, hwaits]
    split <;> exact ⟨rfl, h⟩
  | completeTransition other outcome =>
    simp only [ErasureContainmentGateV1.exec]
    split
    · rename_i hactive
      exact absurd (congrArg (GateCall.completeTransition · outcome) (h.activeFrames hactive).1) (hreturn outcome)
    · exact ⟨rfl, h⟩
  | installVerifiedStateWithTopology other state proof =>
    simp only [ErasureContainmentGateV1.exec, hwaits]
    split <;> exact ⟨rfl, h⟩
  | bindTimeline other timeline scope =>
    have hexec : gate.exec (.bindTimeline other timeline scope) = (gate, .waits) := hwaits _
    rw [hexec]
    exact ⟨rfl, h⟩
  | blockTimeline other timeline =>
    have hexec : gate.exec (.blockTimeline other timeline) = (gate, .waits) := if_pos hheld
    rw [hexec]
    exact ⟨rfl, h⟩
  | poison => exact ⟨rfl, h⟩
  | poisonAuthority => exact ⟨rfl, h⟩

/-- The calls of a run while a transition is open. -/
theorem InTransition.run : ∀ {calls : List GateCall} {gate : ErasureContainmentGateV1}, gate.InTransition thread →
    (∀ e ∈ log ErasureContainmentGateV1.exec gate calls,
      (∀ outcome, e.call ≠ .completeTransition thread outcome) ∧ e.call ≠ .unwind thread) →
    (final ErasureContainmentGateV1.exec gate calls).authority = gate.authority
  | [], _, _, _ => rfl
  | call :: calls, gate, h, hcalls => by
    obtain ⟨hcall, hrest⟩ := forall_mem_cons.mp hcalls
    obtain ⟨hauthority, hopen⟩ := h.exec hcall.1 hcall.2
    exact (hopen.run hrest).trans hauthority

theorem inTransition_of_started (h : (gate.exec (.beginTransition thread)).2 = .started) :
    (gate.exec (.beginTransition thread)).1.InTransition thread := by
  simp only [exec, lockFence] at h ⊢
  split
  · simp_all
  · repeat' split
    · simp_all
    · simp_all
    · exact ⟨[], rfl⟩

/-- A call that does not return leaves the gate deciding as before. -/
theorem decidesAs_of_ne_done (h : (gate.exec call).2 ≠ .done) : DecidesAs gate (gate.exec call).1 :=
  (gate.exec_cases call).resolve_right fun hdone => h hdone.1

end ErasureContainmentGateV1

/-! ## Permanence -/

/-- An `authorize` of the Timeline succeeds, or an effect for it starts. -/
def Grants (e : GateEntry) (timeline : TimelineId) : Prop :=
  ∃ thread, e.call = .authorize thread timeline ∧ e.reply = .done ∨
    e.call = .startEffect thread timeline ∧ e.reply = .started

/-- An `authorize` of the Timeline is answered `AccessFrozen` under an installed inventory. -/
def AnswersFrozen (e : GateEntry) (timeline : TimelineId) : Prop :=
  (∃ thread, e.call = .authorize thread timeline) ∧ e.reply = .refused .accessFrozen ∧
    e.before.authority.inventory.isSome = true

variable {state : ErasureVerifiedStateV1} {e : GateEntry}

theorem verdict_of_grants (hexec : e.before.exec e.call = (e.after, e.reply)) (h : Grants e timeline) :
    e.before.verdict timeline = .ok () := by
  have hgranted {granted : GateReply} (hanswer : e.reply = answer granted (e.before.verdict timeline))
      (hreply : ∀ error, e.reply ≠ .refused error) : e.before.verdict timeline = .ok () := by
    cases hverdict : e.before.verdict timeline with
    | ok _ => rfl
    | error error =>
      rw [hverdict] at hanswer
      exact absurd hanswer (hreply error)
  obtain ⟨thread, ⟨hcall, hreply⟩ | ⟨hcall, hreply⟩⟩ := h <;> rw [hcall] at hexec
  · have hcases := e.before.authorize_reply thread timeline
    rw [hexec] at hcases
    simp only [hreply, reduceCtorEq, false_or] at hcases
    exact hgranted (hreply.trans hcases) (by simp [hreply])
  · have hcases := e.before.startEffect_reply thread timeline
    rw [hexec] at hcases
    simp only [hreply, reduceCtorEq, false_or] at hcases
    exact hgranted (hreply.trans hcases) (by simp [hreply])

/-- Only an inventory that closes the Timeline has it answered `AccessFrozen`. -/
theorem closed_of_answersFrozen (hexec : e.before.exec e.call = (e.after, e.reply))
    (hfrozen : e.before.authority.frozenTimelines = ∅) (hanswer : AnswersFrozen e timeline) : e.before.Closed timeline := by
  obtain ⟨⟨thread, hcall⟩, hreply, hinstalled⟩ := hanswer
  obtain ⟨inventory, hinventory⟩ := Option.isSome_iff_exists.mp hinstalled
  rw [hcall] at hexec
  have hcases := e.before.authorize_reply thread timeline
  rw [hexec] at hcases
  simp only [hreply, reduceCtorEq, GateReply.refused.injEq, false_or] at hcases
  have hverdict : e.before.verdict timeline = .error .accessFrozen := by
    cases hverdict : e.before.verdict timeline <;> rw [hverdict] at hcases <;> cases hcases
    rfl
  obtain ⟨hpoisoned, hauthority⟩ := available_of_verdict (.inr hverdict)
  rw [verdict_of_inventory hpoisoned hauthority hfrozen hinventory] at hverdict
  exact ⟨inventory, hinventory, hverdict⟩

/-- The authority stands from the opening of a transition to its failure. -/
theorem authority_of_failed_transition {calls : List GateCall} {first between rest : List GateEntry}
    {opened closed : GateEntry} {error : ErasureContainmentErrorV1}
    (hlog : log exec gate calls = first ++ opened :: (between ++ closed :: rest))
    (hopen : opened.call = .beginTransition thread) (hstarted : opened.reply = .started)
    (hbetween : ∀ e ∈ between, (∀ outcome, e.call ≠ .completeTransition thread outcome) ∧ e.call ≠ .unwind thread)
    (hrefused : closed.reply = .refused error) : closed.after.authority = opened.before.authority := by
  obtain ⟨-, later, -, -, hopened, hlater⟩ := log_eq_append hlog
  obtain ⟨inside, -, rfl, hbefore, hclosed, -⟩ := log_eq_append hlater.symm
  have hbegin : (opened.before.exec (.beginTransition thread)).2 = .started := by rw [← hopen, hopened, hstarted]
  have hinside := inTransition_of_started hbegin
  have hkept : DecidesAs opened.before (opened.before.exec opened.call).1 :=
    decidesAs_of_ne_done (by rw [hopened, hstarted]; simp)
  have hend : DecidesAs closed.before (closed.before.exec closed.call).1 :=
    decidesAs_of_ne_done (by rw [hclosed, hrefused]; simp)
  rw [← hopen, hopened] at hinside
  rw [hclosed, hbefore] at hend
  rw [hopened] at hkept
  exact hend.authority.trans ((hinside.run hbetween).trans hkept.authority)

/-- An access freeze is permanent: a Timeline once answered `AccessFrozen` under an installed inventory, or
closed by one that is installed, is never granted again, by any thread; a refused call changes no verdict;
and a transition that fails leaves the authority it found. -/
theorem access_freeze_is_permanent (failClosedUnbound : Bool) (calls : List GateCall) :
    let log : List GateEntry := log exec (new failClosedUnbound) calls
    (∀ e ∈ log, ∀ timeline, AnswersFrozen e timeline → e.before.Closed timeline) ∧
      (log.Pairwise fun e f => ∀ timeline, AnswersFrozen e timeline ∨ e.after.Closed timeline → ¬ Grants f timeline) ∧
      (∀ e ∈ log, ∀ error, e.reply = .refused error → ∀ timeline, e.after.verdict timeline = e.before.verdict timeline) ∧
      ∀ thread first opened between closed rest outcome error, log = first ++ opened :: (between ++ closed :: rest) →
        opened.call = .beginTransition thread → opened.reply = .started →
        (∀ e ∈ between, (∀ outcome, e.call ≠ .completeTransition thread outcome) ∧ e.call ≠ .unwind thread) →
        closed.call = .completeTransition thread outcome → closed.reply = .refused error →
        closed.after.authority = opened.before.authority := by
  intro log
  have hexec : ∀ e ∈ log, e.before.exec e.call = (e.after, e.reply) := fun e he => exec_of_mem_log he
  have hstep (gate : ErasureContainmentGateV1) (call : GateCall) (hfrozen : gate.authority.frozenTimelines = ∅) :=
    gate.exec_keeps call hfrozen
  have hfrozen : (∀ e ∈ log, e.before.authority.frozenTimelines = ∅ ∧ e.after.authority.frozenTimelines = ∅) ∧ _ :=
    invariant (I := fun gate => gate.authority.frozenTimelines = ∅) (fun gate call h => (hstep gate call h).1) rfl
  have hclosed : ∀ e ∈ log, ∀ timeline, AnswersFrozen e timeline → e.before.Closed timeline := by
    intro e he timeline hanswer
    exact closed_of_answersFrozen (hexec e he) (hfrozen.1 e he).1 hanswer
  refine ⟨hclosed, ?_, ?_, ?_⟩
  · have hlater : _ ∧ (log.Pairwise fun e f => (∀ timeline, e.after.Closed timeline → f.before.Closed timeline) ∧ _) ∧ _ :=
      related (I := fun gate : ErasureContainmentGateV1 => gate.authority.frozenTimelines = ∅)
        (R := fun gate gate' => ∀ timeline, gate.Closed timeline → gate'.Closed timeline)
        (fun _ _ h => h) (fun hab hbc timeline h => hbc timeline (hab timeline h)) hstep rfl
    obtain ⟨-, hpairs, -⟩ := hlater
    refine Pairwise.imp_of_mem ?_ hpairs
    intro e f he hf hlater timeline hanswer hgrants
    have hafter : e.after.Closed timeline := by
      rcases hanswer with hanswer | hafter
      · have hkept := ((hstep e.before e.call (hfrozen.1 e he).1).2 timeline) (hclosed e he timeline hanswer)
        rw [hexec e he] at hkept
        exact hkept
      · exact hafter
    exact (hlater.1 timeline hafter).verdict_ne_ok (hfrozen.1 f hf).1 (verdict_of_grants (hexec f hf) hgrants)
  · intro e he error hrefused timeline
    have hsame : DecidesAs e.before (e.before.exec e.call).1 :=
      decidesAs_of_ne_done (by rw [hexec e he, hrefused]; simp)
    rw [hexec e he] at hsame
    exact hsame.verdict timeline
  · intro thread first opened between closed rest outcome error hlog hopen hstarted hbetween _ hrefused
    exact authority_of_failed_transition hlog hopen hstarted hbetween hrefused

def orchard : TimelineId := ⟨1⟩

/-- A request frozen at tick 4 over the orchard alone. -/
def orchardFrozen : ErasureVerifiedStateV1 where
  manifestDigest := 7
  request := ⟨9, 10, .privateSubjectData, [5], 11, 12, 13, 2, 4, 14⟩
  state := ⟨9, .accessFrozen, some 4, 15, [], [], .exact, some 16, 17, 18⟩
  scope := some ⟨9, [5], [orchard], 19, none, 20⟩
  scopeExtensions := []

def orchardProof : ErasureVerifiedTopologyProofV1 := ⟨7, [(orchard, 5)], []⟩

def orchardInventory (recovered : List Member) : ErasureResult ErasureVerifiedInventoryV1 :=
  ErasureVerifiedInventoryV1.fromVerifiedRecoveryWithLimits spellingHash recovered [orchard] .compiledMaximum

/-- The replies to a thread that installs an inventory of the orchard and makes some calls. -/
def orchardReplies (recovered : List Member) (calls : List GateCall) : ErasureResult (List GateReply) :=
  (orchardInventory recovered).map fun inventory => (Runs.log exec (new true)
    (.installVerifiedInventory 0 inventory .compiledMaximum :: calls)).map Runs.Entry.reply

/-- Under the inventory of its freeze the orchard is answered `AccessFrozen`, and never granted again. -/
theorem orchard_stays_frozen : ∃ inventory, orchardInventory [(orchardFrozen, orchardProof)] = .ok inventory ∧
    let gate := ((new true).exec (.installVerifiedInventory 0 inventory .compiledMaximum)).1
    (gate.exec (.authorize 0 orchard)).2 = .refused .accessFrozen ∧
      ∀ calls, ∀ f ∈ log exec (gate.exec (.authorize 0 orchard)).1 calls, ¬ Grants f orchard := by
  have hok : (orchardInventory [(orchardFrozen, orchardProof)]).map (fun inventory =>
      let gate := ((new true).exec (.installVerifiedInventory 0 inventory .compiledMaximum)).1
      ((gate.exec (.authorize 0 orchard)).2, gate.authority.inventory.isSome)) = .ok (.refused .accessFrozen, true) := by
    decide +kernel
  obtain ⟨inventory, hinventory, hanswer⟩ := map_eq_ok.mp hok
  obtain ⟨hreply, hinstalled⟩ := Prod.ext_iff.mp hanswer
  refine ⟨inventory, hinventory, hreply, fun calls f hf => ?_⟩
  obtain ⟨-, hpairs, -⟩ := access_freeze_is_permanent true
    (.installVerifiedInventory 0 inventory .compiledMaximum :: .authorize 0 orchard :: calls)
  exact (pairwise_cons.mp (pairwise_cons.mp hpairs).2).1 f hf orchard (.inl ⟨⟨0, rfl⟩, hreply, hinstalled⟩)

/-! ## Refusals beside an inventory -/

variable {scope : ErasureReferenceV1} {proof : ErasureVerifiedTopologyProofV1}

theorem lookup_insertAll {rows : List (TimelineId × ErasureReferenceV1)} :
    ∀ {table : Table TimelineId ErasureReferenceV1}, (rows.map Prod.fst).Nodup →
      ((timeline, scope) ∈ rows ∨ timeline ∉ rows.map Prod.fst ∧ table.lookup timeline = some scope) →
      (insertAll table rows).lookup timeline = some scope := by
  induction rows with
  | nil => exact fun _ h => (h.resolve_left not_mem_nil).2
  | cons row rows ih =>
    intro table hnodup h
    obtain ⟨hrow, hrest⟩ := nodup_cons.mp hnodup
    refine ih hrest ?_
    rcases h with hmem | ⟨hnot, htable⟩
    · rcases mem_cons.mp hmem with rfl | hmem
      · exact .inr ⟨hrow, Finmap.lookup_insert _⟩
      · exact .inl hmem
    · obtain ⟨hne, hnot⟩ := not_or.mp (fun h => hnot (mem_cons.mpr h))
      exact .inr ⟨hnot, (Finmap.lookup_insert_of_ne _ hne).trans htable⟩

theorem permitStates_ne_ok (hscope : state.scopeContains scope = true)
    (hrefuses : state.permitProtectedOperation scope ≠ .ok ()) :
    ∀ {states : List ErasureVerifiedStateV1} {matched : Bool}, state ∈ states → permitStates scope matched states ≠ .ok ()
  | first :: rest, matched, hmem, hok => by
    rw [permitStates] at hok
    rcases mem_cons.mp hmem with rfl | hmem
    · rw [if_pos hscope] at hok
      obtain ⟨⟨⟩, hpermit, -⟩ := bind_eq_ok.mp hok
      exact hrefuses hpermit
    · split at hok
      · replace hok := of_check hok
        exact permitStates_ne_ok hscope hrefuses hmem hok
      · exact permitStates_ne_ok hscope hrefuses hmem hok

/-- The gate is closed for good, or no installed inventory opens the Timeline. -/
def Unopened (gate : ErasureContainmentGateV1) (timeline : TimelineId) : Prop :=
  gate.poisoned = true ∨ ∀ inventory, gate.authority.inventory = some inventory → inventory.authorize timeline ≠ .ok ()

/-- Every thread that asks for the Timeline is refused, whether it only asks or wants an effect run. -/
def Refuses (gate : ErasureContainmentGateV1) (timeline : TimelineId) : Prop :=
  ∀ thread, (∃ error, (gate.exec (.authorize thread timeline)).2 = .refused error) ∧
    ∃ error, (gate.exec (.startEffect thread timeline)).2 = .refused error

theorem refuses_iff (hfree : gate.holder = none) (hsound : gate.fencePoisoned = false) (timeline : TimelineId) :
    Refuses gate timeline ↔ gate.verdict timeline ≠ .ok () := by
  have hreply (thread : Thread) := reply_of_free hfree hsound thread timeline
  unfold Refuses
  cases hverdict : gate.verdict timeline with
  | ok _ | error e => simp [hreply, hverdict, answer]

/-- A gate with the inventory of the one before it refuses exactly where that one is not opened, provided it
refuses without an inventory. -/
theorem refuses_iff_unopened (hfree : gate'.holder = none)
    (hsound : gate'.fencePoisoned = false) (hauthority : gate'.authorityPoisoned = false)
    (hfrozen : gate'.authority.frozenTimelines = ∅) (hpoisoned : gate'.poisoned = gate.poisoned)
    (hinventory : gate'.authority.inventory = gate.authority.inventory)
    (hnone : gate'.authority.inventory = none → gate'.authorizeUnfrozenState timeline gate'.authority ≠ .ok ()) :
    Refuses gate' timeline ↔ Unopened gate timeline := by
  rw [refuses_iff hfree hsound]
  cases hgate : gate.poisoned with
  | true =>
    refine iff_of_true ?_ (.inl hgate)
    rw [verdict, ensureAvailable, hpoisoned, hgate]
    simp
  | false =>
    have havailable : gate'.poisoned = false := hpoisoned.trans hgate
    cases hinstalled : gate'.authority.inventory with
    | none =>
      refine iff_of_true (fun hok => hnone hinstalled ?_) (.inr ?_)
      · replace hok := of_check hok
        rw [authorizeFromAuthority, if_neg (by simp [hauthority])] at hok
        replace hok := of_check hok
        exact hok
      · rw [← hinventory, hinstalled]
        simp
    | some inventory =>
      rw [verdict_of_inventory havailable hauthority hfrozen hinstalled, Unopened, hgate, ← hinventory, hinstalled]
      simp

theorem blockTimeline_refuses_iff (hfrozen : gate.authority.frozenTimelines = ∅) (hfree : gate.holder = none)
    (hsound : gate.fencePoisoned = false) (hauthority : gate.authorityPoisoned = false) (thread : Thread)
    (timeline : TimelineId) : Refuses (gate.exec (.blockTimeline thread timeline)).1 timeline ↔ Unopened gate timeline := by
  have hexec : (gate.exec (.blockTimeline thread timeline)).1 = { gate with authority :=
      { gate.authority with blockedTimelines := insert timeline gate.authority.blockedTimelines } } := by
    simp [exec, blockTimeline, hfree, hsound, hauthority]
  rw [hexec]
  refine refuses_iff_unopened hfree hsound hauthority hfrozen rfl rfl fun hnone => ?_
  dsimp only at hnone
  simp [authorizeUnfrozenState, hnone]

/-- What an installation that returned has checked and published. -/
theorem of_installState (hdone : (gate.exec (.installVerifiedStateWithTopology thread state proof)).2 = .done) :
    gate.holder = none ∧ gate.fencePoisoned = false ∧ gate.authorityPoisoned = false ∧
      gate.installVerifiedStateWithBindings state proof.bindings
        (proof.unaffected.map fun timeline => (timeline, proof.manifestDigest)) =
          .ok (gate.exec (.installVerifiedStateWithTopology thread state proof)).1 := by
  simp only [exec] at hdone ⊢
  split_ifs at hdone
  rename_i hmanifest
  rw [if_neg hmanifest]
  rcases gate.lockFence_cases (gate.finish .done (gate.installVerifiedStateWithBindings state proof.bindings
      (proof.unaffected.map fun timeline => (timeline, proof.manifestDigest)))) with ⟨-, hne⟩ | ⟨hfree, hsound, hrun⟩
  · exact absurd hdone hne
  · rw [hrun] at hdone ⊢
    cases hinstall : gate.installVerifiedStateWithBindings state proof.bindings
        (proof.unaffected.map fun timeline => (timeline, proof.manifestDigest)) with
    | error e =>
      rw [hinstall] at hdone
      cases hdone
    | ok gate' =>
      replace hinstall := of_check hinstall
      obtain ⟨⟨⟩, hauthority, -⟩ := bind_eq_ok.mp hinstall
      exact ⟨hfree, hsound, Bool.eq_false_iff.mpr (refuseIf_eq_ok.mp hauthority), rfl⟩

theorem installState_refuses_iff (hfrozen : gate.authority.frozenTimelines = ∅)
    (hdone : (gate.exec (.installVerifiedStateWithTopology thread state proof)).2 = .done)
    (hrank : 2 ≤ containmentRank state.lifecycle) (hbound : (timeline, scope) ∈ proof.bindings) :
    Refuses (gate.exec (.installVerifiedStateWithTopology thread state proof)).1 timeline ↔ Unopened gate timeline := by
  obtain ⟨hfree, hsound, hauthority, hinstall⟩ := of_installState hdone
  obtain ⟨hvalid, hexec⟩ := of_installVerifiedState hinstall
  obtain ⟨⟨⟩, hcontains, hvalid⟩ := bind_eq_ok.mp hvalid
  replace hvalid := of_check hvalid
  have hnodup := of_check hvalid
  have hscope : state.scopeContains scope = true := by
    by_contra hout
    exact refuseIf_eq_ok.mp hcontains (any_eq_true.mpr ⟨_, hbound, by simpa using hout⟩)
  have hnodup : (proof.bindings.map Prod.fst).Nodup :=
    (not_not.mp (refuseIf_eq_ok.mp hnodup)).sublist (sublist_append_left _ _)
  rw [hexec]
  refine refuses_iff_unopened hfree hsound hauthority hfrozen rfl rfl fun hnone => ?_
  dsimp only at hnone
  simp only [authorizeUnfrozenState, hnone, lookup_insertAll hnodup (Or.inl hbound)]
  split
  · simp
  · exact permitStates_ne_ok hscope (ErasureVerifiedStateV1.permitProtectedOperation_ne_ok hrank hscope)
      Ascending.mem_insert_self

/-- A refusal given to the gate takes effect exactly where no installed inventory opens the Timeline: the
decision returns the inventory's verdict before it reads the blocked Timelines or the states. -/
theorem refusals_take_effect_iff (failClosedUnbound : Bool) (calls : List GateCall) (timeline : TimelineId) :
    let gate := final exec (new failClosedUnbound) calls
    (∀ thread, gate.holder = none → gate.fencePoisoned = false → gate.authorityPoisoned = false →
      (Refuses (gate.exec (.blockTimeline thread timeline)).1 timeline ↔ Unopened gate timeline)) ∧
      ∀ thread state proof scope, (gate.exec (.installVerifiedStateWithTopology thread state proof)).2 = .done →
        2 ≤ containmentRank state.lifecycle → (timeline, scope) ∈ proof.bindings →
        (Refuses (gate.exec (.installVerifiedStateWithTopology thread state proof)).1 timeline ↔ Unopened gate timeline) := by
  intro gate
  have hfrozen : gate.authority.frozenTimelines = ∅ :=
    (invariant (I := fun gate : ErasureContainmentGateV1 => gate.authority.frozenTimelines = ∅)
      (fun gate call h => (gate.exec_keeps call h).1) rfl).2
  constructor
  · exact fun thread hfree hsound hauthority => blockTimeline_refuses_iff hfrozen hfree hsound hauthority thread timeline
  · exact fun thread state proof scope hdone hrank hbound => installState_refuses_iff hfrozen hdone hrank hbound

/-- Without an inventory the open fixture refuses the orchard once it is blocked or its freeze is installed. -/
theorem orchard_refused_without_inventory :
    Refuses ((new false).exec (.blockTimeline 0 orchard)).1 orchard ∧
      Refuses ((new false).exec (.installVerifiedStateWithTopology 0 orchardFrozen orchardProof)).1 orchard := by
  obtain ⟨hblock, hstate⟩ := refusals_take_effect_iff false [] orchard
  have hunopened : Unopened (new false) orchard := .inr fun _ h => by cases h
  exact ⟨(hblock 0 rfl rfl rfl).mpr hunopened,
    (hstate 0 orchardFrozen orchardProof 5 (by decide +kernel) (by decide) (by decide)).mpr hunopened⟩

/-! ### A Timeline an inventory lists as unaffected -/

/-- The orchard is blocked, or a freeze that binds it is installed, and it is granted all the same. -/
theorem orchard_granted_after_refusals :
    orchardReplies [] [.blockTimeline 0 orchard, .authorize 0 orchard, .startEffect 0 orchard] =
        .ok [.done, .done, .done, .started] ∧
      orchardReplies [] [.installVerifiedStateWithTopology 0 orchardFrozen orchardProof, .authorize 0 orchard,
        .startEffect 0 orchard] = .ok [.done, .done, .done, .started] := by
  constructor <;> decide +kernel

end Piglor.Erasure
