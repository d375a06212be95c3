/-
The presentation outputs that a recomputation makes stale. Roots have no edges in and presentation outputs
none to other classes, so a path from an affected node stays among affected nodes until it enters a
presentation output and never leaves them again; the second search finds the end of every such path.
-/
import PiglorProofs.Counterfactual.Suffix

namespace Piglor.Counterfactual

open Checked List

variable {bindings : PlanBindings} {graph : ValidatedDependencyGraphV1}

/-- An edge of the graph, by the coordinates it joins. -/
def Joins (graph : ValidatedDependencyGraphV1) (source consumer : DependencyNodeV1) : Prop :=
  ∃ edge ∈ graph.edges, edge.source = source ∧ edge.consumer = consumer

/-- A path of edges from an ancestor. -/
def Ancestor (graph : ValidatedDependencyGraphV1) : DependencyNodeV1 → DependencyNodeV1 → Prop :=
  Relation.TransGen (Joins graph)

/-- Presentation outputs that the search from the affected nodes enters. -/
def StaleOutputs (graph : ValidatedDependencyGraphV1) : Set DependencyGraphNodeV1 :=
  Layers.Reach (Enters graph .presentationOnly) {node | node ∈ affectedNodes graph}

/-- A node that a recomputation changes: it is affected, or a stale presentation output. -/
def Touched (graph : ValidatedDependencyGraphV1) (node : DependencyGraphNodeV1) : Prop :=
  node ∈ affectedNodes graph ∨ node.nodeClass = .presentationOnly ∧ node ∈ StaleOutputs graph

namespace GraphSound

variable (h : GraphSound bindings graph)

include h

variable {a c : DependencyNodeV1} {source consumer node : DependencyGraphNodeV1}

/-- What the edge rules leave: no edge into a root, and none from a presentation output to another class. -/
theorem of_joins (hjoins : Joins graph a c) : ∃ source ∈ graph.nodes, source.node = a ∧
    ∃ consumer ∈ graph.nodes, consumer.node = c ∧ consumer.nodeClass.isRoot = false ∧
      (source.nodeClass = .presentationOnly → consumer.nodeClass = .presentationOnly) := by
  obtain ⟨edge, hedge, rfl, rfl⟩ := hjoins
  obtain ⟨⟨s, t⟩, hok⟩ := h.accepted edge hedge
  obtain ⟨source, consumer, hs, hsource, ht, hconsumer, hinput, hrules⟩ := h.nodes.validateEdge_eq_ok.mp hok
  have hmem := mem_of_getElem? ht
  refine ⟨source, mem_of_getElem? hs, hsource, consumer, hmem, hconsumer, ?_, fun hclass => ?_⟩
  · rw [← Bool.not_eq_true]
    intro hroot
    rw [(h.nodes.valid consumer hmem).root_inputs hroot] at hinput
    cases hinput
  · by_contra hne
    unfold checkEdgeRules at hrules
    split_ifs at hrules with _ hrule
    exact hrule (.inr ⟨hclass, hne⟩)

theorem not_root_of_ancestor (hpath : Ancestor graph a consumer.node) (hconsumer : consumer ∈ graph.nodes) :
    consumer.nodeClass.isRoot = false := by
  obtain ⟨mid, -, hlast⟩ := Relation.TransGen.tail'_iff.mp hpath
  obtain ⟨-, -, -, consumer', hmem, hnode, hroot, -⟩ := h.of_joins hlast
  rwa [h.nodes.node_inj hconsumer hmem hnode.symm]

/-- Presentation outputs lead to presentation outputs only. -/
theorem presentationOnly_of_ancestor (hsource : source ∈ graph.nodes) (hclass : source.nodeClass = .presentationOnly)
    (hpath : Ancestor graph source.node c) : ∃ node ∈ graph.nodes, node.node = c ∧ node.nodeClass = .presentationOnly := by
  have hstep {mid : DependencyGraphNodeV1} (hmid : mid ∈ graph.nodes) (hmidClass : mid.nodeClass = .presentationOnly)
      {d : DependencyNodeV1} (hjoins : Joins graph mid.node d) :
      ∃ node ∈ graph.nodes, node.node = d ∧ node.nodeClass = .presentationOnly := by
    obtain ⟨mid', hmid', hnode, consumer, hconsumer, hd, -, hkeeps⟩ := h.of_joins hjoins
    obtain rfl := h.nodes.node_inj hmid hmid' hnode.symm
    exact ⟨consumer, hconsumer, hd, hkeeps hmidClass⟩
  induction hpath with
  | single hjoins => exact hstep hsource hclass hjoins
  | tail _ hjoins ih =>
    obtain ⟨mid, hmid, rfl, hmidClass⟩ := ih
    exact hstep hmid hmidClass hjoins

theorem touched_of_joins (hsource : Touched graph source) (hmem : source ∈ graph.nodes) (hjoins : Joins graph source.node c) :
    ∃ node ∈ graph.nodes, node.node = c ∧ Touched graph node := by
  obtain ⟨source', hsource', hnode, consumer, hconsumer, rfl, hroot, hkeeps⟩ := h.of_joins hjoins
  obtain rfl := h.nodes.node_inj hmem hsource' hnode.symm
  refine ⟨consumer, hconsumer, rfl, ?_⟩
  rcases hsource with hsource | ⟨hclass, first, hfirst, hpath⟩
  · cases hclass : consumer.nodeClass with
    | presentationOnly => exact .inr ⟨hclass, source, hsource, .single ⟨hconsumer, hclass, hjoins⟩⟩
    | endogenousRecomputed =>
      obtain ⟨seed, hseed, hpath⟩ := h.mem_affectedNodes.mp hsource
      exact .inl (h.mem_affectedNodes.mpr ⟨seed, hseed, hpath.tail ⟨hconsumer, hclass, hjoins⟩⟩)
    | exogenousFrozen | interventionAssigned | fixedPolicy =>
      rw [hclass] at hroot
      cases hroot
  · exact .inr ⟨hkeeps hclass, first, hfirst, hpath.tail ⟨hconsumer, hkeeps hclass, hjoins⟩⟩

theorem touched_of_ancestor (hsource : source ∈ affectedNodes graph) (hnode : node ∈ graph.nodes)
    (hpath : Ancestor graph source.node node.node) : Touched graph node := by
  have hend : ∃ node' ∈ graph.nodes, node'.node = node.node ∧ Touched graph node' := by
    generalize node.node = c at hpath
    induction hpath with
    | single hjoins => exact h.touched_of_joins (.inl hsource) (h.affectedNodes_subset source hsource) hjoins
    | tail _ hjoins ih =>
      obtain ⟨mid, hmid, rfl, htouched⟩ := ih
      exact h.touched_of_joins htouched hmid hjoins
  obtain ⟨node', hnode', heq, htouched⟩ := hend
  rwa [h.nodes.node_inj hnode hnode' heq.symm]

theorem affected_not_presentationOnly (hnode : node ∈ affectedNodes graph) : node.nodeClass ≠ .presentationOnly := by
  rcases (h.affected_cases hnode).2 with hclass | ⟨hclass, -⟩ <;> simp [hclass]

theorem ancestor_of_stale (hclass : node.nodeClass = .presentationOnly) (hnode : node ∈ StaleOutputs graph) :
    node ∈ graph.nodes ∧ ∃ source ∈ affectedNodes graph, Ancestor graph source.node node.node := by
  obtain ⟨source, hsource, hpath⟩ := hnode
  rcases Relation.reflTransGen_iff_eq_or_transGen.mp hpath with rfl | hpath
  · exact absurd hclass (h.affected_not_presentationOnly hsource)
  · obtain ⟨-, -, hmem, -⟩ := Relation.TransGen.tail'_iff.mp hpath
    exact ⟨hmem, source, hsource, hpath.lift DependencyGraphNodeV1.node fun _ _ henters => henters.2.2⟩

theorem mem_affectedPresentationOutputsV1 (hcomplete : graph.isComplete = true) :
    c ∈ affectedPresentationOutputsV1 graph ↔
      ∃ node, node.node = c ∧ node.nodeClass = .presentationOnly ∧ node ∈ StaleOutputs graph := by
  unfold affectedPresentationOutputsV1
  rw [if_pos hcomplete]
  have hreachable : ∀ node, node ∈ reachable graph (affectedNodes graph) .presentationOnly ↔ node ∈ StaleOutputs graph :=
    (h.mem_reachable h.affectedNodes_subset).1
  simp only [mem_map, mem_filter, hreachable, decide_eq_true_eq]
  exact ⟨fun ⟨node, ⟨hstale, hclass⟩, hc⟩ => ⟨node, hc, hclass, hstale⟩,
    fun ⟨node, hc, hclass, hstale⟩ => ⟨node, ⟨hstale, hclass⟩, hc⟩⟩

/-- A node that is neither returned nor affected, below an affected node: with missing edges every Provisional
presentation output is returned, so it is a Committed one. -/
theorem committed_of_kept (hnode : node ∈ graph.nodes) (hnot : node.node ∉ affectedPresentationOutputsV1 graph)
    (hnotAffected : node ∉ affectedNodes graph) (hsource : source ∈ affectedNodes graph)
    (hpath : Ancestor graph source.node node.node) :
    graph.isComplete = false ∧ node.nodeClass = .presentationOnly ∧ node.origin = .committed := by
  rcases h.touched_of_ancestor hsource hnode hpath with haffected | ⟨hclass, hstale⟩
  · exact absurd haffected hnotAffected
  cases hcomplete : graph.isComplete with
  | true => exact absurd ((h.mem_affectedPresentationOutputsV1 hcomplete).mpr ⟨node, rfl, hclass, hstale⟩) hnot
  | false =>
    refine ⟨rfl, hclass, ?_⟩
    cases horigin : node.origin with
    | committed => rfl
    | provisional =>
      refine absurd ?_ hnot
      unfold affectedPresentationOutputsV1
      rw [if_neg (by simp [hcomplete])]
      exact mem_map_of_mem (mem_filter.mpr ⟨hnode, decide_eq_true ⟨hclass, horigin⟩⟩)

theorem committed_not_returned (hcomplete : graph.isComplete ≠ true) (hnode : node ∈ graph.nodes)
    (horigin : node.origin = .committed) : node.node ∉ affectedPresentationOutputsV1 graph := by
  unfold affectedPresentationOutputsV1
  rw [if_neg hcomplete]
  intro hmem
  obtain ⟨other, hother, heq⟩ := mem_map.mp hmem
  obtain ⟨hother, hprovisional⟩ := mem_filter.mp hother
  obtain rfl := h.nodes.node_inj hnode hother heq.symm
  rw [horigin] at hprovisional
  exact absurd (of_decide_eq_true hprovisional).2 (by decide)

/-! ## Ancestors before the cut -/

theorem tick_le_of_ancestor (hpath : Ancestor graph a c) : a.tick ≤ c.tick := by
  have hstep {a c : DependencyNodeV1} (hjoins : Joins graph a c) : a.tick ≤ c.tick := by
    obtain ⟨edge, hedge, rfl, rfl⟩ := hjoins
    rcases Prod.Lex.le_iff.mp (h.forward edge hedge).le with hlt | ⟨heq, -⟩
    · exact hlt.le
    · exact heq.le
  induction hpath with
  | single hjoins => exact hstep hjoins
  | tail _ hjoins ih => exact ih.trans (hstep hjoins)

/-- Provisional nodes lie after the cut, so an ancestor of a Committed node is Committed. -/
theorem committed_of_ancestor (hfacts : PlanFacts bindings.plan) (hsource : source ∈ graph.nodes) (hnode : node ∈ graph.nodes)
    (horigin : node.origin = .committed) (hpath : Ancestor graph source.node node.node) : source.origin = .committed := by
  cases hprovisional : source.origin with
  | committed => rfl
  | provisional =>
    have hfirst := ((h.nodes.valid source hsource).provisional hprovisional).1
    have hcut := (h.nodes.valid node hnode).committed horigin
    have hle := h.tick_le_of_ancestor hpath
    have hnext := hfacts.first
    omega

/-- What lies below an affected node lies below a seed. -/
theorem seed_of_ancestor (hsource : source ∈ affectedNodes graph) (hpath : Ancestor graph source.node c) :
    ∃ seed ∈ graph.nodes, seed.nodeClass = .interventionAssigned ∧ Ancestor graph seed.node c := by
  obtain ⟨seed, ⟨hseed, hclass⟩, hreach⟩ := h.mem_affectedNodes.mp hsource
  refine ⟨seed, hseed, hclass, ?_⟩
  have hlift : Relation.ReflTransGen (Joins graph) seed.node source.node :=
    hreach.lift DependencyGraphNodeV1.node fun _ _ henters => henters.2.2
  exact .trans_right hlift hpath

end GraphSound

/-- No stale presentation output survives: on a complete graph exactly the presentation outputs below an affected
node are returned; whatever the graph, presentation outputs lead to no other class, roots have no ancestors, and a
node that is neither returned nor affected has no affected ancestor. -/
structure NoStaleOutput (graph : ValidatedDependencyGraphV1) : Prop where
  returned : graph.isComplete = true → ∀ output, output ∈ affectedPresentationOutputsV1 graph ↔
    ∃ node ∈ graph.nodes, node.node = output ∧ node.nodeClass = .presentationOnly ∧
      ∃ source ∈ affectedNodes graph, Ancestor graph source.node output
  closed : ∀ node ∈ graph.nodes, node.nodeClass = .presentationOnly → ∀ other ∈ graph.nodes,
    Ancestor graph node.node other.node → other.nodeClass = .presentationOnly
  roots : ∀ node ∈ graph.nodes, node.nodeClass.isRoot = true → ∀ ancestor, ¬ Ancestor graph ancestor node.node
  kept : ∀ node ∈ graph.nodes, node.node ∉ affectedPresentationOutputsV1 graph → node ∉ affectedNodes graph →
    ∀ source ∈ affectedNodes graph, ¬ Ancestor graph source.node node.node

/-- No Committed Intervention node has a path to a Committed presentation output. -/
def CommittedOutputsApart (graph : ValidatedDependencyGraphV1) : Prop :=
  ∀ seed ∈ graph.nodes, seed.nodeClass = .interventionAssigned → seed.origin = .committed → ∀ node ∈ graph.nodes,
    node.nodeClass = .presentationOnly → node.origin = .committed → ¬ Ancestor graph seed.node node.node

theorem GraphSound.noStaleOutput (h : GraphSound bindings graph) (hfacts : PlanFacts bindings.plan)
    (hcondition : graph.isComplete = true ∨ CommittedOutputsApart graph) : NoStaleOutput graph where
  returned hcomplete output := by
    rw [h.mem_affectedPresentationOutputsV1 hcomplete]
    constructor
    · rintro ⟨node, rfl, hclass, hstale⟩
      obtain ⟨hnode, hancestor⟩ := h.ancestor_of_stale hclass hstale
      exact ⟨node, hnode, rfl, hclass, hancestor⟩
    · rintro ⟨node, hnode, rfl, hclass, source, hsource, hpath⟩
      rcases h.touched_of_ancestor hsource hnode hpath with haffected | ⟨-, hstale⟩
      · exact absurd hclass (h.affected_not_presentationOnly haffected)
      · exact ⟨node, rfl, hclass, hstale⟩
  closed node hnode hclass other hother hpath := by
    obtain ⟨other', hother', heq, hclass'⟩ := h.presentationOnly_of_ancestor hnode hclass hpath
    rwa [h.nodes.node_inj hother hother' heq.symm]
  roots node hnode hroot ancestor hpath := by
    rw [h.not_root_of_ancestor hpath hnode] at hroot
    cases hroot
  kept node hnode hnot hnotAffected source hsource hpath := by
    obtain ⟨hincomplete, hclass, horigin⟩ := h.committed_of_kept hnode hnot hnotAffected hsource hpath
    rcases hcondition with hcomplete | hapart
    · rw [hcomplete] at hincomplete
      cases hincomplete
    · obtain ⟨seed, hseed, hassigned, hpath⟩ := h.seed_of_ancestor hsource hpath
      have hcommitted := h.committed_of_ancestor hfacts hseed hnode horigin hpath
      exact hapart seed hseed hassigned hcommitted node hnode hclass horigin hpath

/-- A stale presentation output survives exactly where edges are missing and a Committed Intervention node, which
validation counts as a node of the plan, has a path to a Committed presentation output. -/
theorem noStaleOutput_iff (blake3 : ByteHash) (plan : CounterfactualPlanV1) (bounds : DependencyGraphBoundsV1)
    (nodes : List DependencyGraphNodeV1) (edges : List InputDependencyV1) (graph : ValidatedDependencyGraphV1)
    (h : validateDependencyGraphV1 blake3 plan bounds nodes edges = .ok graph) :
    (NoStaleOutput graph ↔ graph.isComplete = true ∨ CommittedOutputsApart graph) ∧
    ((∀ node ∈ graph.nodes, node.nodeClass = .interventionAssigned → node.origin = .provisional) →
      NoStaleOutput graph) := by
  obtain ⟨bindings, hplan, hsound⟩ := GraphSound.of_validate h
  obtain ⟨hbound, hfacts, -⟩ := PlanBindings.new_eq_ok hplan
  rw [← hbound] at hfacts
  refine ⟨⟨fun hclean => ?_, hsound.noStaleOutput hfacts⟩, fun hprovisional => ?_⟩
  · by_cases hcomplete : graph.isComplete = true
    · exact .inl hcomplete
    refine .inr fun seed hseed hassigned _ node hnode hclass horigin => ?_
    exact hclean.kept node hnode (hsound.committed_not_returned hcomplete hnode horigin)
      (fun haffected => hsound.affected_not_presentationOnly haffected hclass) seed
      (hsound.mem_affectedNodes.mpr ⟨seed, ⟨hseed, hassigned⟩, .refl⟩)
  · refine hsound.noStaleOutput hfacts (.inr fun seed hseed hassigned hcommitted => ?_)
    rw [hprovisional seed hseed hassigned] at hcommitted
    cases hcommitted

/-- A presentation output of the recomputed node. -/
def presentedNode : DependencyGraphNodeV1 where
  node := ⟨12, 1, "owner", 0, 7, 10⟩
  nodeClass := .presentationOnly
  origin := .provisional
  inputDigests := [recomputedNode.node.artifactDigest]
  provenanceDigest := 9

def presentedEdge : InputDependencyV1 :=
  { causeEdge with
    consumer := presentedNode.node
    source := recomputedNode.node
    dependencyClass := .endogenousRecomputed }

/-- The plan, with the full suffix from the cut when an edge is missing. -/
def openPlan : CounterfactualPlanV1 :=
  let unsealed := { unsealedPlan with unknownEdgePolicy := .fullSuffixFromCut }
  { unsealed with planDigest := (unsealed.digest spellingHash).toOption.getD 0 }

/-- A committed presentation output of the inherited Intervention. -/
def keptNode : DependencyGraphNodeV1 where
  node := ⟨10, 1, "owner", 0, 7, 11⟩
  nodeClass := .presentationOnly
  origin := .committed
  inputDigests := [inheritedNode.node.artifactDigest]
  provenanceDigest := 9

def keptEdge : InputDependencyV1 :=
  { causeEdge with
    consumer := keptNode.node
    source := inheritedNode.node
    tickRange := ⟨10, 10⟩ }

/-- Where another output lacks its edge, the committed output below an affected node is not returned. -/
theorem keptNode_survives : ∃ graph, validateDependencyGraphV1 spellingHash openPlan ⟨10, 10⟩
      [inheritedNode, keptNode, presentedNode] [keptEdge] = .ok graph ∧
    keptNode.node ∉ affectedPresentationOutputsV1 graph ∧ keptNode ∈ graph.nodes ∧ keptNode ∉ affectedNodes graph ∧
      inheritedNode ∈ affectedNodes graph ∧ Ancestor graph inheritedNode.node keptNode.node := by
  have hok : (validateDependencyGraphV1 spellingHash openPlan ⟨10, 10⟩ [inheritedNode, keptNode, presentedNode]
      [keptEdge]).map (fun graph => decide (affectedPresentationOutputsV1 graph = [presentedNode.node]) &&
        decide (keptNode ∈ graph.nodes) && decide (affectedNodes graph = [inheritedNode]) &&
        decide (keptEdge ∈ graph.edges)) = .ok true := by
    decide +kernel
  obtain ⟨graph, hgraph, hchecks⟩ := map_eq_ok.mp hok
  simp only [Bool.and_eq_true, decide_eq_true_eq] at hchecks
  obtain ⟨⟨⟨houtputs, hnode⟩, haffected⟩, hedge⟩ := hchecks
  refine ⟨graph, hgraph, ?_⟩
  rw [houtputs, haffected]
  refine ⟨by decide +kernel, hnode, by decide +kernel, mem_singleton_self _, ?_⟩
  exact .single ⟨keptEdge, hedge, rfl, rfl⟩

theorem presentedNode_stale : ∃ graph, validateDependencyGraphV1 spellingHash onePlan ⟨10, 10⟩
      [assignedNode, recomputedNode, presentedNode] [causeEdge, presentedEdge] = .ok graph ∧
    affectedPresentationOutputsV1 graph = [presentedNode.node] ∧
      ∃ source ∈ affectedNodes graph, Ancestor graph source.node presentedNode.node := by
  have hok : (validateDependencyGraphV1 spellingHash onePlan ⟨10, 10⟩ [assignedNode, recomputedNode, presentedNode]
      [causeEdge, presentedEdge]).map (fun graph => graph.isComplete &&
        decide (affectedPresentationOutputsV1 graph = [presentedNode.node])) = .ok true := by
    decide +kernel
  obtain ⟨graph, hgraph, hchecks⟩ := map_eq_ok.mp hok
  obtain ⟨hcomplete, houtputs⟩ := Bool.and_eq_true_iff.mp hchecks
  have houtputs := of_decide_eq_true houtputs
  have hclean := (noStaleOutput_iff spellingHash onePlan ⟨10, 10⟩ _ _ graph hgraph).1.mpr (.inl hcomplete)
  have hmem : presentedNode.node ∈ affectedPresentationOutputsV1 graph := by
    rw [houtputs]
    exact mem_singleton.mpr rfl
  obtain ⟨-, -, -, -, hancestor⟩ := (hclean.returned hcomplete presentedNode.node).mp hmem
  exact ⟨graph, hgraph, houtputs, hancestor⟩

end Piglor.Counterfactual
