/-
The seeds of a frontier and the Interventions of its plan. An Intervention node above the cut is bound by
the plan, so when none is inherited the counts agree only if each Intervention has exactly one node; an
inherited Intervention node is one node too many.
-/
import PiglorProofs.Counterfactual.Nodes

namespace Piglor.Counterfactual

open Checked List

variable {blake3 : ByteHash} {plan : CounterfactualPlanV1} {bindings : PlanBindings}
  {nodes : List DependencyGraphNodeV1} {byDigest : Table Hash Nat} {entries : List (Hash × InterventionV1)}

/-! ## The plan -/

/-- The facts of a valid plan that its graph rests on. -/
structure PlanFacts (plan : CounterfactualPlanV1) : Prop where
  cut_nonzero : plan.parentCutDigest ≠ 0
  classification_nonzero : plan.classificationBundleDigest ≠ 0
  first : plan.firstTick = plan.parentCutTick + 1
  horizon : plan.firstTick ≤ plan.horizonTick
  nonempty : plan.interventions ≠ []
  bounded : plan.interventions.length ≤ maxInterventionsPerPlan
  window : ∀ intervention ∈ plan.interventions,
    plan.firstTick ≤ intervention.effectiveTick ∧ intervention.effectiveTick ≤ plan.horizonTick

theorem nonzero_iff {w : Nat} {field : BitVec w} : nonzero field = true ↔ field ≠ 0 := by
  simp [nonzero]

open CounterfactualPlanV1

theorem validateBounds_eq_ok (h : plan.validateBounds = .ok ()) :
    plan.parentCutDigest ≠ 0 ∧ plan.classificationBundleDigest ≠ 0 ∧ plan.firstTick = plan.parentCutTick + 1 ∧
      plan.firstTick ≤ plan.horizonTick := by
  unfold validateBounds at h
  split_ifs at h with hbounds
  simp only [Bool.and_eq_true] at hbounds
  obtain ⟨⟨⟨⟨⟨-, hdigests⟩, hticks⟩, -⟩, -⟩, -⟩ := hbounds
  simp only [validTickRange, Bool.and_eq_true, decide_eq_true_eq] at hticks
  simp only [nonzeroDigests, Bool.and_eq_true, all_eq_true, nonzero_iff] at hdigests
  obtain ⟨⟨-, hdigests⟩, -⟩ := hdigests
  exact ⟨hdigests _ (by simp), hdigests _ (by simp), hticks.1.2.symm, hticks.2⟩

theorem validatePlanInterventionsV1_eq_ok {interventions : List InterventionV1}
    (h : validatePlanInterventionsV1 interventions = .ok ()) :
    interventions ≠ [] ∧ interventions.length ≤ maxInterventionsPerPlan := by
  unfold validatePlanInterventionsV1 at h
  split at h
  · cases h
  · rename_i hcount
    simpa using hcount

theorem validateInterventionWindow_eq_ok (h : plan.validateInterventionWindow = .ok ()) :
    ∀ intervention ∈ plan.interventions,
      plan.firstTick ≤ intervention.effectiveTick ∧ intervention.effectiveTick ≤ plan.horizonTick := by
  unfold validateInterventionWindow at h
  split_ifs at h with hbefore hafter
  simp only [any_eq_true, decide_eq_true_eq, not_exists, not_and, not_lt] at hbefore hafter
  exact fun intervention hmem => ⟨hbefore intervention hmem, hafter intervention hmem⟩

theorem PlanFacts.of_validate (h : plan.validate blake3 = .ok ()) : PlanFacts plan := by
  obtain ⟨⟨⟩, hbounds, h⟩ := bind_eq_ok.mp h
  obtain ⟨⟨⟩, hinterventions, h⟩ := bind_eq_ok.mp h
  obtain ⟨⟨⟩, hwindow, h⟩ := bind_eq_ok.mp h
  obtain ⟨hcut, hclass, hfirst, hhorizon⟩ := validateBounds_eq_ok hbounds
  obtain ⟨hnonempty, hlength⟩ := validatePlanInterventionsV1_eq_ok (mapError_eq_ok.mp hinterventions)
  exact ⟨hcut, hclass, hfirst, hhorizon, hnonempty, hlength, validateInterventionWindow_eq_ok hwindow⟩

/-! ## The bindings -/

/-- The entries of the bindings: every Intervention with its digest, found by digest. -/
structure BindingEntries (blake3 : ByteHash) (bindings : PlanBindings)
    (entries : List (Hash × InterventionV1)) : Prop where
  interventions : entries.map Prod.snd = bindings.plan.interventions
  digest : ∀ entry ∈ entries, entry.2.digest blake3 = .ok entry.1
  lookup : ∀ ⦃d i⦄, bindings.interventions.lookup d = some i → (d, i) ∈ entries

variable {i : InterventionV1}

theorem lookup_foldl_insert {d : Hash} : ∀ {table : Table Hash InterventionV1},
      (entries.foldl (fun table entry => table.insert entry.1 entry.2) table).lookup d = some i →
        (d, i) ∈ entries ∨ table.lookup d = some i := by
  induction entries with
  | nil => exact .inr
  | cons entry entries ih =>
    intro table h
    rcases ih h with hmem | hlookup
    · exact .inl (mem_cons_of_mem _ hmem)
    · rcases Table.lookup_insert_eq_some.mp hlookup with ⟨rfl, rfl⟩ | ⟨-, hlookup⟩
      · exact .inl mem_cons_self
      · exact .inr hlookup

theorem PlanBindings.new_eq_ok (h : PlanBindings.new blake3 plan = .ok bindings) :
    bindings.plan = plan ∧ PlanFacts plan ∧ ∃ entries, BindingEntries blake3 bindings entries := by
  obtain ⟨⟨⟩, hvalid, h⟩ := bind_eq_ok.mp h
  obtain ⟨entries, hentries, h⟩ := bind_eq_ok.mp h
  cases h
  have hforall := mapM_eq_ok.mp (mapError_eq_ok.mp hentries)
  have hpair : ∀ {is : List InterventionV1} {es : List (Hash × InterventionV1)},
      Forall₂ (fun (i : InterventionV1) e => (i.digest blake3).map (fun id => (id, i)) = .ok e) is es →
        es.map Prod.snd = is ∧ ∀ e ∈ es, e.2.digest blake3 = .ok e.1 := by
    intro is es hall
    induction hall with
    | nil => exact ⟨rfl, fun _ he => absurd he not_mem_nil⟩
    | cons he _ ih =>
      obtain ⟨d, hd, rfl⟩ := map_eq_ok.mp he
      exact ⟨congrArg _ ih.1, forall_mem_cons.mpr ⟨hd, ih.2⟩⟩
  refine ⟨rfl, .of_validate hvalid, entries, (hpair hforall).1, (hpair hforall).2, ?_⟩
  intro d i hlookup
  exact (lookup_foldl_insert hlookup).resolve_right nofun

/-! ## Intervention nodes -/

/-- The node of an Intervention: its INT1 digest, at its effective Tick and target schema. -/
structure AssignedNode (blake3 : ByteHash) (nodes : List DependencyGraphNodeV1) (intervention : InterventionV1)
    (node : DependencyGraphNodeV1) : Prop where
  mem : node ∈ nodes
  assigned : node.nodeClass = .interventionAssigned
  digest : intervention.digest blake3 = .ok node.node.artifactDigest
  tick : node.node.tick = intervention.effectiveTick
  schema : node.node.schemaId = intervention.targetSchemaId

variable {node : DependencyGraphNodeV1}

theorem rootBinding_interventionAssigned
    (hclass : node.nodeClass = .interventionAssigned) (h : (bindings.rootBinding node).isSome = true) :
    ∃ i, bindings.interventions.lookup (digestOf node) = some i ∧ i.effectiveTick = node.node.tick ∧
      i.targetSchemaId = node.node.schemaId := by
  unfold PlanBindings.rootBinding at h
  simp only [hclass, Option.isSome_map, Option.isSome_filter] at h
  rcases hi : bindings.interventions.lookup node.node.artifactDigest with _ | i
  · rw [hi] at h
    cases h
  · rw [hi] at h
    exact ⟨i, hi, of_decide_eq_true h⟩

/-- Inherited Intervention nodes are never bound: an Intervention takes effect after the cut. -/
theorem rootBinding_committed (hentries : BindingEntries blake3 bindings entries)
    (hplan : PlanFacts bindings.plan) (hclass : node.nodeClass = .interventionAssigned)
    (htick : node.node.tick ≤ bindings.plan.parentCutTick) : bindings.rootBinding node = none := by
  rcases hbinding : bindings.rootBinding node with _ | binding
  · rfl
  · obtain ⟨i, hi, hat, -⟩ := rootBinding_interventionAssigned hclass (by rw [hbinding]; rfl)
    have hmem : i ∈ bindings.plan.interventions := by
      rw [← hentries.interventions]
      exact mem_map_of_mem (hentries.lookup hi)
    have hwindow := (hplan.window i hmem).1
    have hfirst := hplan.first
    omega

section Seeds

variable (hentries : BindingEntries blake3 bindings entries) (hnodes : NodesValid bindings nodes byDigest)
  (hprovisional : ∀ node ∈ nodes, node.nodeClass = .interventionAssigned → node.origin = .provisional)

include hentries hnodes hprovisional

/-- A provisional Intervention node is the node of an entry. -/
theorem exists_entry (hnode : node ∈ nodes) (hclass : node.nodeClass = .interventionAssigned) :
    ∃ i, (digestOf node, i) ∈ entries ∧ AssignedNode blake3 nodes i node := by
  have hbound : (bindings.rootBinding node).isSome = true :=
    (hnodes.valid node hnode).root_bound (by rw [hclass]; rfl) (hprovisional node hnode hclass)
  obtain ⟨i, hi, htick, hschema⟩ := rootBinding_interventionAssigned hclass hbound
  have hdigest := hentries.digest (digestOf node, i) (hentries.lookup hi)
  exact ⟨i, hentries.lookup hi, hnode, hclass, hdigest, htick.symm, hschema.symm⟩

/-- The Intervention nodes are as many as the entries, so their digests are the entries' digests. -/
theorem digests_perm : ((nodes.filter isInterventionNode).map digestOf).Perm (entries.map Prod.fst) := by
  have hsub : (nodes.filter isInterventionNode).map digestOf ⊆ entries.map Prod.fst := by
    intro d hd
    obtain ⟨node, hnode, rfl⟩ := mem_map.mp hd
    obtain ⟨hmem, hclass⟩ := mem_filter.mp hnode
    obtain ⟨i, hi, -⟩ := exists_entry hentries hnodes hprovisional hmem (of_decide_eq_true hclass)
    exact mem_map_of_mem hi
  have hnodup : ((nodes.filter isInterventionNode).map digestOf).Nodup :=
    hnodes.unique.sublist (filter_sublist.map _)
  refine (subperm_of_subset hnodup hsub).perm_of_length_le ?_
  rw [length_map, length_map, hnodes.count, ← hentries.interventions, length_map]

theorem existsUnique_assignedNode (hi : i ∈ bindings.plan.interventions) :
    ∃! node, AssignedNode blake3 nodes i node := by
  have hperm := digests_perm hentries hnodes hprovisional
  rw [← hentries.interventions] at hi
  obtain ⟨⟨d, i⟩, hentry, rfl⟩ := mem_map.mp hi
  obtain ⟨node, hnode, hd⟩ := mem_map.mp (hperm.mem_iff.mpr (mem_map_of_mem hentry))
  obtain ⟨hmem, hclass⟩ := mem_filter.mp hnode
  obtain ⟨j, hj, hassigned⟩ := exists_entry hentries hnodes hprovisional hmem (of_decide_eq_true hclass)
  -- the digests are distinct, so the node's entry is this one
  have hfst : (entries.map Prod.fst).Nodup :=
    hperm.nodup_iff.mp (hnodes.unique.sublist (filter_sublist.map _))
  cases inj_on_of_nodup_map hfst hj hentry hd
  refine ⟨node, hassigned, fun other hother => ?_⟩
  exact hnodes.digest_inj hother.mem hmem (Except.ok.inj (hother.digest.symm.trans hassigned.digest))

end Seeds

/-! ## Accepted graphs -/

section Accepted

variable {bounds : DependencyGraphBoundsV1} {edges : List InputDependencyV1} {graph : ValidatedDependencyGraphV1}

/-- The stages of a validation that succeeds. -/
theorem validateDependencyGraphV1_eq_ok (h : validateDependencyGraphV1 blake3 plan bounds nodes edges = .ok graph) :
    checkWorkBounds bounds nodes edges = .ok () ∧ ∃ bindings, PlanBindings.new blake3 plan = .ok bindings ∧
      validateNodes bindings nodes = .ok graph.byDigest ∧ ∃ scan, validateEdges blake3 bindings nodes graph.byDigest edges =
        .ok scan ∧ graph.outgoing = scan.outgoing ∧ graph.edgeDigests = scan.edgeDigests ∧
        missingEdges plan.unknownEdgePolicy nodes scan.outgoing scan.firstError = .ok graph.unknownEdgeCoordinates ∧
        graph.nodes = nodes ∧ graph.edges = edges ∧ graph.planDigest = plan.planDigest ∧
        graph.parentCutDigest = plan.parentCutDigest ∧
        graph.classificationBundleDigest = plan.classificationBundleDigest ∧ graph.firstTick = plan.firstTick ∧
        graph.horizonTick = plan.horizonTick := by
  obtain ⟨⟨⟩, hbounds, h⟩ := bind_eq_ok.mp h
  obtain ⟨bindings, hbindings, h⟩ := bind_eq_ok.mp h
  obtain ⟨byDigest, hnodes, h⟩ := bind_eq_ok.mp h
  obtain ⟨scan, hscan, h⟩ := bind_eq_ok.mp h
  obtain ⟨gaps, hgaps, h⟩ := bind_eq_ok.mp h
  cases h
  exact ⟨hbounds, bindings, mapError_eq_ok.mp hbindings, hnodes, scan, hscan, rfl, rfl, hgaps, rfl, rfl, rfl, rfl, rfl,
    rfl, rfl⟩

/-- A Committed Intervention root in canonical place, with a digest of its own and no input. -/
structure InheritedRoot (plan : CounterfactualPlanV1) (nodes nodes' : List DependencyGraphNodeV1)
    (root : DependencyGraphNodeV1) : Prop where
  assigned : root.nodeClass = .interventionAssigned
  committed : root.origin = .committed
  coordinate : root.node.isValidCoordinate = true
  tick : root.node.tick ≤ plan.parentCutTick
  inputs : root.inputDigests = []
  provenance : root.provenanceDigest ≠ 0
  fresh : ∀ node ∈ nodes, node.node.artifactDigest ≠ root.node.artifactDigest
  added : nodes'.Perm (root :: nodes)
  ascending : Ascending.Strict (fun node : DependencyGraphNodeV1 => node.node.coordinateKey) nodes'

theorem InheritedRoot.validateNode {nodes' : List DependencyGraphNodeV1} {root : DependencyGraphNodeV1}
    (h : InheritedRoot bindings.plan nodes nodes' root)
    (hentries : BindingEntries blake3 bindings entries) (hplan : PlanFacts bindings.plan) :
    validateNode bindings root = .ok () := by
  have hfields : validateNodeFields root = .ok () :=
    validateNodeFields_eq_ok.mpr ⟨h.coordinate, by simp [h.inputs], h.provenance, by rw [h.inputs]; exact .nil⟩
  have hrange : validateNodeRange bindings.plan root = .ok () :=
    validateNodeRange_eq_ok.mpr ⟨fun _ => h.tick, fun hp => by cases h.committed.symm.trans hp⟩
  have hbinding := rootBinding_committed hentries hplan h.assigned h.tick
  have hroot : validateRoot bindings root = .ok () := by
    unfold validateRoot
    rw [h.assigned, h.inputs, hbinding, h.committed]
    rfl
  unfold Counterfactual.validateNode
  rw [hfields, ok_bind, hrange, ok_bind, hroot]

/-- Without inherited Intervention nodes the seeds are exactly the nodes of the plan's Interventions, each
of which has one; and a graph that is accepted is refused once such a node is inherited. -/
theorem seeds_are_interventions (blake3 : ByteHash) (plan : CounterfactualPlanV1)
    (bounds : DependencyGraphBoundsV1) (nodes : List DependencyGraphNodeV1) (edges : List InputDependencyV1)
    (graph : ValidatedDependencyGraphV1) (h : validateDependencyGraphV1 blake3 plan bounds nodes edges = .ok graph) :
    ((∀ node ∈ nodes, node.nodeClass = .interventionAssigned → node.origin = .provisional) →
      (∀ i ∈ plan.interventions, ∃! node, AssignedNode blake3 nodes i node) ∧
      ∀ seed ∈ seeds graph, ∃ i ∈ plan.interventions, AssignedNode blake3 nodes i seed) ∧
    ∀ (root : DependencyGraphNodeV1) (nodes' : List DependencyGraphNodeV1) (bounds' : DependencyGraphBoundsV1),
      InheritedRoot plan nodes nodes' root → checkWorkBounds bounds' nodes' edges = .ok () →
        validateDependencyGraphV1 blake3 plan bounds' nodes' edges = .error .interventionNodeMissing := by
  obtain ⟨-, bindings, hbindings, hnodes, -, -, -, -, -, hgraph, -⟩ := validateDependencyGraphV1_eq_ok h
  obtain ⟨rfl, hplan, entries, hentries⟩ := PlanBindings.new_eq_ok hbindings
  obtain ⟨⟨-, hvalid, hnodup⟩, hnodes⟩ := validateNodes_eq_ok hnodes
  refine ⟨fun hprovisional => ⟨fun i hi => existsUnique_assignedNode hentries hnodes hprovisional hi, ?_⟩, ?_⟩
  · intro seed hseed
    rw [seeds, hgraph] at hseed
    obtain ⟨hmem, hclass⟩ := mem_filter.mp hseed
    obtain ⟨i, hi, hassigned⟩ := exists_entry hentries hnodes hprovisional hmem (of_decide_eq_true hclass)
    exact ⟨i, hentries.interventions ▸ mem_map_of_mem hi, hassigned⟩
  · intro root nodes' bounds' hroot hbounds'
    -- one Intervention node more than the plan has Interventions
    have hcount : (nodes'.filter isInterventionNode).length ≠ bindings.plan.interventions.length := by
      have hassigned : isInterventionNode root = true := decide_eq_true hroot.assigned
      rw [(hroot.added.filter _).length_eq, filter_cons_of_pos hassigned, length_cons, hnodes.count]
      exact Nat.succ_ne_self _
    have hsound : NodesSound bindings nodes' := by
      refine ⟨hroot.ascending, fun node hnode => ?_, ?_⟩
      · rcases mem_cons.mp (hroot.added.mem_iff.mp hnode) with rfl | hnode
        · exact hroot.validateNode hentries hplan
        · exact hvalid node hnode
      · refine (hroot.added.map digestOf).nodup_iff.mpr (nodup_cons.mpr ⟨?_, hnodup⟩)
        rintro hmem
        obtain ⟨node, hnode, hd⟩ := mem_map.mp hmem
        exact hroot.fresh node hnode hd
    unfold validateDependencyGraphV1
    rw [hbounds', ok_bind, hbindings]
    show validateNodes bindings nodes' >>= _ = _
    rw [validateNodes_count hsound hcount, error_bind]

end Accepted

def oneIntervention : InterventionV1 where
  interventionId := 1
  targetSchemaId := 7
  targetEntityId := "room"
  targetField := "light"
  operation := .assignValue
  valueDigest := 2
  effectiveTick := 11
  ordinal := 0
  principalId := "principal"
  capability := "intervene"
  consentEpoch := 1
  consentDecisionDigest := 3
  rationale := "what if"
  provenanceDigest := 4

def unsealedPlan : CounterfactualPlanV1 where
  planId := 1
  roomId := "room"
  roomDigest := 1
  parentTimelineId := 1
  parentCutSeq := 100
  parentCutTick := 10
  parentCutDigest := 1
  firstTick := 11
  horizonTick := 12
  interventions := [oneIntervention]
  exogenousDescriptors := []
  fixedPolicyDescriptors := []
  classificationBundleDigest := 1
  unknownEdgePolicy := .reject
  executionProfile := ⟨"profile", "1.0.0", 1⟩
  trustPolicy := ⟨"policy", 1, 1⟩
  pluginCompositionDigest := 1
  schedulerDigest := 1
  numericProfileDigest := 1
  budgetDigest := 1
  failurePolicyDigest := 1
  replayClaim := .exact
  previousPlanDigest := none
  planDigest := 0

/-- A plan with one Intervention. -/
def onePlan : CounterfactualPlanV1 :=
  { unsealedPlan with planDigest := (unsealedPlan.digest spellingHash).toOption.getD 0 }

/-- The node of the plan's Intervention. -/
def assignedNode : DependencyGraphNodeV1 where
  node := ⟨11, 0, "owner", 0, 7, (oneIntervention.digest spellingHash).toOption.getD 0⟩
  nodeClass := .interventionAssigned
  origin := .provisional
  inputDigests := []
  provenanceDigest := 4

/-- An Intervention node of the parent's own history. -/
def inheritedNode : DependencyGraphNodeV1 where
  node := ⟨10, 0, "owner", 0, 7, 5⟩
  nodeClass := .interventionAssigned
  origin := .committed
  inputDigests := []
  provenanceDigest := 6

/-- Adding an inherited Intervention node to an accepted graph makes it refused; standing in for the
plan's own node it is accepted, and then the Intervention has no node and the seed is not one. -/
theorem inheritedNode_seeds :
    ((validateDependencyGraphV1 spellingHash onePlan ⟨10, 10⟩ [assignedNode] []).map seeds = .ok [assignedNode] ∧
      (validateDependencyGraphV1 spellingHash onePlan ⟨10, 10⟩ [inheritedNode, assignedNode] []).map seeds =
        .error .interventionNodeMissing) ∧
    (validateDependencyGraphV1 spellingHash onePlan ⟨10, 10⟩ [inheritedNode] []).map seeds = .ok [inheritedNode] ∧
    ∀ i ∈ onePlan.interventions, ¬ ∃ node, AssignedNode spellingHash [inheritedNode] i node := by
  refine ⟨⟨by decide +kernel, by decide +kernel⟩, by decide +kernel, ?_⟩
  rintro i hi ⟨node, hnode⟩
  cases mem_singleton.mp hnode.mem
  cases mem_singleton.mp hi
  have htick : 10 = 11 := hnode.tick
  omega

theorem inheritedNode_root : InheritedRoot onePlan [assignedNode] [inheritedNode, assignedNode] inheritedNode where
  assigned := rfl
  committed := rfl
  coordinate := by decide +kernel
  tick := by decide
  inputs := rfl
  provenance := by decide
  fresh := by
    intro node hnode
    cases mem_singleton.mp hnode
    decide +kernel
  added := .refl _
  ascending := by
    unfold Ascending.Strict
    decide +kernel

theorem assignedNode_seeds : (∃ graph, validateDependencyGraphV1 spellingHash onePlan ⟨10, 10⟩ [assignedNode] [] = .ok graph ∧
      ∀ seed ∈ seeds graph, ∃ i ∈ onePlan.interventions, AssignedNode spellingHash [assignedNode] i seed) ∧
    validateDependencyGraphV1 spellingHash onePlan ⟨10, 10⟩ [inheritedNode, assignedNode] [] =
      .error .interventionNodeMissing := by
  have hok : (validateDependencyGraphV1 spellingHash onePlan ⟨10, 10⟩ [assignedNode] []).isOk = true := by decide +kernel
  rcases hgraph : validateDependencyGraphV1 spellingHash onePlan ⟨10, 10⟩ [assignedNode] [] with e | graph
  · rw [hgraph] at hok
    cases hok
  obtain ⟨hseeds, hroot⟩ := seeds_are_interventions spellingHash onePlan ⟨10, 10⟩ [assignedNode] [] graph hgraph
  have hprovisional : ∀ node ∈ [assignedNode], node.nodeClass = .interventionAssigned → node.origin = .provisional := by
    decide +kernel
  exact ⟨⟨graph, rfl, (hseeds hprovisional).2⟩,
    hroot inheritedNode [inheritedNode, assignedNode] ⟨10, 10⟩ inheritedNode_root (by decide +kernel)⟩

end Piglor.Counterfactual
