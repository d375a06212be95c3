/-
The recomputation frontier of a complete graph is its causal suffix: the affected nodes are what the
Interventions reach through recomputed nodes, each owner's frontier is its least affected coordinate, and
the derived record is in the order and the range that its own contract asks for.
-/
import PiglorProofs.Counterfactual.Search

namespace Piglor.Counterfactual

open Checked List

variable {blake3 : ByteHash} {plan : CounterfactualPlanV1} {bounds : DependencyGraphBoundsV1}
  {bindings : PlanBindings} {nodes : List DependencyGraphNodeV1} {edges : List InputDependencyV1}
  {graph : ValidatedDependencyGraphV1}

/-! ## Affected nodes -/

/-- What the Intervention nodes reach through recomputed nodes, they included. -/
def CausalSuffix (graph : ValidatedDependencyGraphV1) : Set DependencyGraphNodeV1 :=
  Layers.Reach (Enters graph .endogenousRecomputed)
    {node | node ∈ graph.nodes ∧ node.nodeClass = .interventionAssigned}

variable {node : DependencyGraphNodeV1}

namespace GraphSound

variable (h : GraphSound bindings graph)

theorem mem_seeds : node ∈ seeds graph ↔ node ∈ graph.nodes ∧ node.nodeClass = .interventionAssigned := by
  rw [seeds, mem_filter, isInterventionNode, decide_eq_true_eq]

include h

theorem mem_affectedNodes : node ∈ affectedNodes graph ↔ node ∈ CausalSuffix graph := by
  have hseeds : {node | node ∈ seeds graph} =
      {node | node ∈ graph.nodes ∧ node.nodeClass = .interventionAssigned} := Set.ext fun _ => mem_seeds
  rw [CausalSuffix, ← hseeds]
  exact (h.mem_reachable fun node hnode => (mem_seeds.mp hnode).1).1 node

theorem affected_cases (hnode : node ∈ affectedNodes graph) :
    node ∈ graph.nodes ∧ (node.nodeClass = .interventionAssigned ∨ node.nodeClass = .endogenousRecomputed ∧
      ∃ source ∈ affectedNodes graph, Feeds graph source node) := by
  obtain ⟨seed, ⟨hseed, hclass⟩, hpath⟩ := h.mem_affectedNodes.mp hnode
  cases hpath with
  | refl => exact ⟨hseed, .inl hclass⟩
  | tail hpath hlast =>
    obtain ⟨hmem, henter, hfeeds⟩ := hlast
    exact ⟨hmem, .inr ⟨henter, _, h.mem_affectedNodes.mpr ⟨seed, ⟨hseed, hclass⟩, hpath⟩, hfeeds⟩⟩

theorem affectedNodes_subset : ∀ node ∈ affectedNodes graph, node ∈ graph.nodes :=
  fun _ hnode => (h.affected_cases hnode).1

/-- The affected nodes stand in canonical order. -/
theorem strict_affectedNodes :
    Ascending.Strict (fun node : DependencyGraphNodeV1 => node.node.coordinateKey) (affectedNodes graph) :=
  h.canonical h.affectedNodes_subset (h.mem_reachable fun _ hnode => (mem_seeds.mp hnode).1).2

theorem affected_of_input (hcomplete : graph.isComplete = true) {source consumer : DependencyGraphNodeV1}
    (hsource : source ∈ affectedNodes graph) (hconsumer : consumer ∈ graph.nodes)
    (hclass : consumer.nodeClass = .endogenousRecomputed) (hinput : digestOf source ∈ consumer.inputDigests) :
    consumer ∈ affectedNodes graph := by
  have hfeeds := h.feeds_of_input hcomplete (h.affectedNodes_subset source hsource) hconsumer hinput
  obtain ⟨seed, hseed, hpath⟩ := h.mem_affectedNodes.mp hsource
  exact h.mem_affectedNodes.mpr ⟨seed, hseed, hpath.tail ⟨hconsumer, hclass, hfeeds⟩⟩

end GraphSound

/-! ## Owner frontiers -/

theorem firstOfEachOwner_sublist : ∀ (owners : List String) (affected : List DependencyGraphNodeV1),
    (firstOfEachOwner owners affected).Sublist affected
  | _, [] => .slnil
  | owners, node :: rest => by
    rw [firstOfEachOwner]
    split
    · exact (firstOfEachOwner_sublist owners rest).cons node
    · exact (firstOfEachOwner_sublist (node.node.ownerId :: owners) rest).cons_cons node

/-- In an ordered list the first node of an owner is its least. -/
theorem mem_firstOfEachOwner : ∀ {owners : List String} {affected : List DependencyGraphNodeV1},
      Ascending.Strict (fun node : DependencyGraphNodeV1 => node.node.coordinateKey) affected →
      (node ∈ firstOfEachOwner owners affected ↔ node ∈ affected ∧ node.node.ownerId ∉ owners ∧
        ∀ other ∈ affected, other.node.ownerId = node.node.ownerId → node.node.coordinateKey ≤ other.node.coordinateKey)
  | _, [], _ => by simp [firstOfEachOwner]
  | owners, first :: rest, hstrict => by
    obtain ⟨hfirst, hrest⟩ := pairwise_cons.mp hstrict
    rw [firstOfEachOwner]
    split
    · rename_i hseen
      rw [mem_firstOfEachOwner hrest]
      constructor
      · rintro ⟨hmem, hfresh, hleast⟩
        refine ⟨mem_cons_of_mem first hmem, hfresh, forall_mem_cons.mpr ⟨fun howner => ?_, hleast⟩⟩
        exact absurd (howner ▸ hseen) hfresh
      · rintro ⟨hmem, hfresh, hleast⟩
        rcases mem_cons.mp hmem with rfl | hmem
        · exact absurd hseen hfresh
        · exact ⟨hmem, hfresh, (forall_mem_cons.mp hleast).2⟩
    · rename_i hnew
      rw [mem_cons, mem_firstOfEachOwner hrest]
      constructor
      · rintro (rfl | ⟨hmem, hfresh, hleast⟩)
        · exact ⟨mem_cons_self, hnew, fun other hother _ => hstrict.head_le hother⟩
        · obtain ⟨hne, hfresh⟩ := ne_and_not_mem_of_not_mem_cons hfresh
          refine ⟨mem_cons_of_mem first hmem, hfresh, forall_mem_cons.mpr ⟨fun howner => ?_, hleast⟩⟩
          exact absurd howner.symm hne
      · rintro ⟨hmem, hfresh, hleast⟩
        rcases mem_cons.mp hmem with rfl | hmem
        · exact .inl rfl
        · obtain ⟨hhead, hleast⟩ := forall_mem_cons.mp hleast
          refine .inr ⟨hmem, not_mem_cons_of_ne_of_not_mem (fun howner => ?_) hfresh, hleast⟩
          exact absurd (hfirst node hmem) (not_lt.mpr (hhead howner.symm))

variable {affected : List DependencyGraphNodeV1}

/-- Each owner comes once. -/
theorem nodup_owners
    (hstrict : Ascending.Strict (fun node : DependencyGraphNodeV1 => node.node.coordinateKey) affected) :
    ((ownerFrontiers affected).map OwnerFrontierV1.ownerId).Nodup := by
  unfold ownerFrontiers
  rw [map_map]
  refine pairwise_map.mpr ?_
  refine Pairwise.imp_of_mem (fun {left right} hleft hright hlt howner => ?_)
    (hstrict.sublist (firstOfEachOwner_sublist [] affected))
  obtain ⟨hmem, -, -⟩ := (mem_firstOfEachOwner hstrict).mp hleft
  obtain ⟨-, -, hleast⟩ := (mem_firstOfEachOwner hstrict).mp hright
  exact absurd hlt (not_lt.mpr (hleast left hmem howner))

theorem exists_ownerFrontier
    (hstrict : Ascending.Strict (fun node : DependencyGraphNodeV1 => node.node.coordinateKey) affected)
    (hnode : node ∈ affected) :
    ∃ owner ∈ ownerFrontiers affected, owner.ownerId = node.node.ownerId := by
  have hown : node ∈ affected.filter fun other => decide (other.node.ownerId = node.node.ownerId) :=
    mem_filter.mpr ⟨hnode, decide_eq_true rfl⟩
  rcases hfilter : affected.filter fun other => decide (other.node.ownerId = node.node.ownerId) with _ | ⟨first, rest⟩
  · rw [hfilter] at hown
    cases hown
  · have hfirst : first ∈ affected.filter fun other => decide (other.node.ownerId = node.node.ownerId) :=
      hfilter ▸ mem_cons_self
    obtain ⟨hmem, howner⟩ := mem_filter.mp hfirst
    have howner : first.node.ownerId = node.node.ownerId := of_decide_eq_true howner
    have hordered := hstrict.sublist (hfilter ▸ filter_sublist : (first :: rest).Sublist affected)
    refine ⟨_, mem_map_of_mem ((mem_firstOfEachOwner hstrict).mpr ⟨hmem, not_mem_nil, ?_⟩), howner⟩
    intro other hother hsame
    refine hordered.head_le (hfilter ▸ mem_filter.mpr ⟨hother, decide_eq_true ?_⟩)
    rw [hsame, howner]

/-- An owner frontier of a graph: the owner's least affected coordinate, caused by the node itself when it
is an Intervention and by its affected inputs otherwise. -/
structure EarliestAt (graph : ValidatedDependencyGraphV1) (owner : OwnerFrontierV1) (node : DependencyGraphNodeV1) :
    Prop where
  affected : node ∈ affectedNodes graph
  coordinate : owner.coordinate = node.node.coordinateKey
  least : ∀ other ∈ affectedNodes graph, other.node.ownerId = owner.ownerId →
    owner.coordinate ≤ other.node.coordinateKey
  ascending : Ascending.Strict id owner.causeNodeDigests
  seed : node.nodeClass = .interventionAssigned → owner.causeNodeDigests = [digestOf node]
  recomputed : node.nodeClass ≠ .interventionAssigned → owner.causeNodeDigests ≠ [] ∧
    ∀ digest, digest ∈ owner.causeNodeDigests ↔
      digest ∈ node.inputDigests ∧ ∃ source ∈ affectedNodes graph, digestOf source = digest

namespace GraphSound

variable (h : GraphSound bindings graph)

include h

theorem causes_recomputed (hnode : node ∈ affectedNodes graph) (hclass : node.nodeClass ≠ .interventionAssigned) :
    (node.inputDigests.filter fun digest => ((affectedNodes graph).map digestOf).contains digest) ≠ [] := by
  obtain ⟨hmem, hseed | ⟨-, source, hsource, hfeeds⟩⟩ := h.affected_cases hnode
  · exact absurd hseed hclass
  · have hinput := h.input_of_feeds (h.affectedNodes_subset source hsource) hmem hfeeds
    exact ne_nil_of_mem (mem_filter.mpr ⟨hinput, contains_iff_mem.mpr (mem_map_of_mem hsource)⟩)

theorem earliestAt {owner : OwnerFrontierV1} (howner : owner ∈ ownerFrontiers (affectedNodes graph)) :
    ∃ node, EarliestAt graph owner node := by
  obtain ⟨node, hfirst, rfl⟩ := mem_map.mp howner
  obtain ⟨hnode, -, hleast⟩ := (mem_firstOfEachOwner h.strict_affectedNodes).mp hfirst
  have hvalid := h.nodes.valid node (h.affectedNodes_subset node hnode)
  refine ⟨node, hnode, rfl, hleast, ?_, fun hclass => ?_, fun hclass => ?_⟩
  · unfold ownerFrontier
    dsimp only
    split
    · exact pairwise_singleton _ _
    · exact hvalid.inputs_ascending.sublist filter_sublist
  · have hinputs : node.inputDigests = [] := hvalid.root_inputs (by rw [hclass]; rfl)
    unfold ownerFrontier
    rw [hinputs]
    rfl
  · have hcauses := h.causes_recomputed hnode hclass
    have heq : (ownerFrontier ((affectedNodes graph).map digestOf) node).causeNodeDigests =
        node.inputDigests.filter fun digest => ((affectedNodes graph).map digestOf).contains digest :=
      if_neg fun hempty => hcauses (isEmpty_iff.mp hempty)
    refine ⟨fun hnil => hcauses (heq.symm.trans hnil), fun digest => ?_⟩
    refine (Eq.to_iff (congrArg (digest ∈ ·) heq)).trans ?_
    rw [mem_filter, contains_iff_mem, mem_map]

end GraphSound

/-! ## The derived record -/

theorem counted_iff {length maximum : Nat} : counted length maximum = true ↔ length ≠ 0 ∧ length ≤ maximum := by
  rw [counted, Bool.and_eq_true, decide_eq_true_eq, decide_eq_true_eq]

theorem nonempty_of_isValidCoordinate {node : DependencyNodeV1} (h : node.isValidCoordinate = true) :
    node.ownerId.utf8ByteSize ≠ 0 ∧ node.ownerId.utf8ByteSize ≤ 128 ∧ node.artifactDigest ≠ 0 := by
  simp only [DependencyNodeV1.isValidCoordinate, Bool.and_eq_true, Bool.not_eq_true', decide_eq_true_eq, nonzero_iff] at h
  obtain ⟨⟨⟨hempty, hsize⟩, -⟩, hdigest⟩ := h
  exact ⟨by simpa [String.isEmpty] using hempty, hsize, hdigest⟩

/-- Owners in order, each once, with ascending causes, are accepted. -/
theorem validateOwners_eq_ok : ∀ {ownerIds : List String} {owners : List OwnerFrontierV1},
    (∀ owner ∈ owners, owner.ownerId ∉ ownerIds ∧ Ascending.Strict id owner.causeNodeDigests) →
    (owners.map OwnerFrontierV1.ownerId).Nodup → validateOwners ownerIds owners = .ok ()
  | _, [], _, _ => rfl
  | ownerIds, owner :: rest, howners, hnodup => by
    obtain ⟨⟨hfresh, hcauses⟩, hrest⟩ := forall_mem_cons.mp howners
    obtain ⟨hnew, hnodup⟩ := nodup_cons.mp hnodup
    rw [validateOwners, if_neg hfresh, ordered, (Ascending.check_eq_ok _ _).mpr hcauses, ok_bind]
    refine validateOwners_eq_ok (fun other hother => ⟨?_, (hrest other hother).2⟩) hnodup
    refine not_mem_cons_of_ne_of_not_mem (fun heq => hnew ?_) (hrest other hother).1
    exact heq ▸ mem_map_of_mem hother

theorem position_le {left right : DependencyNodeV1} (h : left.coordinateKey ≤ right.coordinateKey) :
    toLex (left.tick, left.schedulerPosition) ≤ toLex (right.tick, right.schedulerPosition) := by
  rcases Prod.Lex.le_iff.mp h with hlt | ⟨htick, hle⟩
  · exact Prod.Lex.le_iff.mpr (.inl hlt)
  · rcases Prod.Lex.le_iff.mp hle with hlt | ⟨hposition, -⟩
    · exact Prod.Lex.le_iff.mpr (.inr ⟨htick, hlt.le⟩)
    · exact Prod.Lex.le_iff.mpr (.inr ⟨htick, hposition.le⟩)

/-- The RCF1 contract of a complete graph's frontier, apart from the identifiers and the owner count. -/
structure FrontierContract (frontier : RecomputationFrontierV1) : Prop where
  seeds_count : counted frontier.interventionSeedNodes.length 1024 = true
  affected_count : counted frontier.affectedNodes.length 1000000 = true
  owners_nonempty : frontier.ownerFrontiers.length ≠ 0
  cut : frontier.parentCutDigest ≠ 0
  classification : frontier.classificationBundleDigest ≠ 0
  provenance : frontier.provenanceDigest ≠ 0
  seeds_valid : ∀ node ∈ frontier.interventionSeedNodes, node.isValidCoordinate = true
  affected_valid : ∀ node ∈ frontier.affectedNodes, node.isValidCoordinate = true
  owners_valid : ∀ owner ∈ frontier.ownerFrontiers, owner.isValid = true
  policy : frontier.unknownEdgePolicy = .reject
  unknown : frontier.unknownEdgeCoordinates = []
  seeds_ordered : Ascending.Strict id frontier.interventionSeedNodes
  affected_ordered : Ascending.Strict id frontier.affectedNodes
  owners_ordered : Ascending.Strict OwnerFrontierV1.coordinate frontier.ownerFrontiers
  owners_once : (frontier.ownerFrontiers.map OwnerFrontierV1.ownerId).Nodup
  causes_ordered : ∀ owner ∈ frontier.ownerFrontiers, Ascending.Strict id owner.causeNodeDigests
  suffix_end : frontier.globalFrontierTick ≤ frontier.endogenousSuffixEndTick
  owners_after : ∀ owner ∈ frontier.ownerFrontiers,
    toLex (frontier.globalFrontierTick, frontier.globalFrontierSchedulerPosition) ≤ owner.position

/-- The bounds and identifiers that the contract leaves open. -/
def WithinLimits (frontier : RecomputationFrontierV1) : Prop :=
  frontier.frontierId ≠ 0 ∧ frontier.planDigest ≠ 0 ∧ frontier.dependencyGraphDigest ≠ 0 ∧
    frontier.ownerFrontiers.length ≤ 4096

namespace FrontierContract

variable {frontier : RecomputationFrontierV1} (h : FrontierContract frontier)

include h

open RecomputationFrontierV1

theorem limits_iff : (frontier.countsWithinBounds && frontier.identifiersNonzero) = true ↔ WithinLimits frontier := by
  unfold countsWithinBounds identifiersNonzero WithinLimits
  rw [h.seeds_count, h.affected_count, h.unknown]
  simp only [counted_iff, Bool.and_eq_true, decide_eq_true_eq, nonzero_iff, all_cons, all_nil, Bool.true_and,
    length_nil, Bool.and_true]
  constructor
  · rintro ⟨⟨⟨-, howners⟩, -⟩, hid, hplan, -, hgraph, -⟩
    exact ⟨hid, hplan, hgraph, howners⟩
  · rintro ⟨hid, hplan, hgraph, howners⟩
    exact ⟨⟨⟨h.owners_nonempty, howners⟩, Nat.zero_le _⟩, hid, hplan, h.cut, hgraph, h.classification, h.provenance⟩

theorem validateRange_eq_ok : frontier.validateRange = .ok () := by
  refine if_neg ?_
  rintro (hend | hany)
  · exact absurd hend (not_lt.mpr h.suffix_end)
  · obtain ⟨owner, howner, hlt⟩ := any_eq_true.mp hany
    exact absurd (of_decide_eq_true hlt) (not_lt.mpr (h.owners_after owner howner))

theorem validateOwnerFrontiers_eq_ok : validateOwnerFrontiers frontier.ownerFrontiers = .ok () := by
  unfold validateOwnerFrontiers ordered
  rw [(Ascending.check_eq_ok _ _).mpr h.owners_ordered, ok_bind]
  exact validateOwners_eq_ok (fun owner howner => ⟨not_mem_nil, h.causes_ordered owner howner⟩) h.owners_once

/-- The fields are accepted exactly within the limits, and refused with one error beyond them. -/
theorem validateFields_eq (hlimits : WithinLimits frontier) : frontier.validateFields = .ok () := by
  obtain ⟨hcounts, hids⟩ := Bool.and_eq_true_iff.mp (h.limits_iff.mpr hlimits)
  have hseeds := all_eq_true.mpr h.seeds_valid
  have haffected := all_eq_true.mpr h.affected_valid
  have howners := all_eq_true.mpr h.owners_valid
  have hpolicy : frontier.unknownEdgesContradictPolicy = false := by
    unfold unknownEdgesContradictPolicy
    rw [h.policy, h.unknown]
    rfl
  unfold validateFields ordered
  rw [hcounts, hids, hseeds, haffected, howners, hpolicy, h.unknown, (Ascending.check_eq_ok _ _).mpr h.seeds_ordered,
    (Ascending.check_eq_ok _ _).mpr h.affected_ordered, h.validateOwnerFrontiers_eq_ok, h.validateRange_eq_ok]
  rfl

theorem validateFields_eq_error (hlimits : ¬ WithinLimits frontier) :
    frontier.validateFields = .error .fieldOutOfBounds := by
  refine if_pos ?_
  rw [← h.limits_iff, Bool.not_eq_true, Bool.and_eq_false_iff] at hlimits
  rcases hlimits with hfalse | hfalse <;> simp [hfalse]

/-- Sealing fails only beyond the limits or the size bound. -/
theorem sealRecord_eq_error {error : FrontierArtifactErrorV1} (herror : frontier.sealRecord blake3 = .error error) :
    error = .fieldOutOfBounds ∧ (WithinLimits frontier → maxRecomputationFrontierBytes < frontier.signedLength) := by
  unfold sealRecord at herror
  by_cases hlimits : WithinLimits frontier
  · rw [h.validateFields_eq hlimits, ok_bind] at herror
    split_ifs at herror with hsize
    exact ⟨(Except.error.inj herror).symm, fun _ => hsize⟩
  · rw [h.validateFields_eq_error hlimits, error_bind] at herror
    exact ⟨(Except.error.inj herror).symm, fun hwithin => absurd hwithin hlimits⟩

end FrontierContract

/-! ## Derivation -/

theorem checkWorkBounds_eq_ok (h : checkWorkBounds bounds nodes edges = .ok ()) :
    nodes.length ≤ maxDependencyGraphNodes ∧ ∀ node ∈ nodes, node.inputDigests.length ≤ maxCauseDigests := by
  unfold checkWorkBounds at h
  split_ifs at h with hmaximum hcounts
  simp only [not_or, not_lt, gt_iff_lt] at hmaximum hcounts
  obtain ⟨hnodes, -, hinputs, -⟩ := hcounts
  refine ⟨hnodes.trans hmaximum.1, fun node hnode => ?_⟩
  by_contra hlt
  exact hinputs (any_eq_true.mpr ⟨node, hnode, decide_eq_true (not_le.mp hlt)⟩)

/-- The facts of a graph that the record carries over. -/
structure GraphBounds (plan : CounterfactualPlanV1) (graph : ValidatedDependencyGraphV1) : Prop where
  facts : PlanFacts plan
  nodes_length : graph.nodes.length ≤ maxDependencyGraphNodes
  inputs_length : ∀ node ∈ graph.nodes, node.inputDigests.length ≤ maxCauseDigests
  cut : graph.parentCutDigest = plan.parentCutDigest
  classification : graph.classificationBundleDigest = plan.classificationBundleDigest
  horizon : graph.horizonTick = plan.horizonTick

theorem GraphBounds.of_validate (h : validateDependencyGraphV1 blake3 plan bounds nodes edges = .ok graph) :
    GraphBounds plan graph := by
  obtain ⟨hbounds, bindings, hplan, -, -, -, -, -, -, rfl, rfl, -, hcut, hclass, -, hhorizon⟩ :=
    validateDependencyGraphV1_eq_ok h
  obtain ⟨-, hfacts, -⟩ := PlanBindings.new_eq_ok hplan
  obtain ⟨hlength, hinputs⟩ := checkWorkBounds_eq_ok hbounds
  exact ⟨hfacts, hlength, hinputs, hcut, hclass, hhorizon⟩

namespace GraphSound

variable (h : GraphSound bindings graph) (hbounds : GraphBounds bindings.plan graph)

include h

theorem length_seeds : (seeds graph).length = bindings.plan.interventions.length := h.nodes.count

theorem isValid_ownerFrontier (hinputs : ∀ node ∈ graph.nodes, node.inputDigests.length ≤ maxCauseDigests)
    (hnode : node ∈ graph.nodes) (affected : List Hash) :
    (ownerFrontier affected node).isValid = true := by
  have hvalid := h.nodes.valid node hnode
  obtain ⟨hempty, hsize, hdigest⟩ := nonempty_of_isValidCoordinate hvalid.coordinate
  simp only [OwnerFrontierV1.isValid, ownerFrontier, counted_iff, Bool.and_eq_true, all_eq_true, nonzero_iff]
  refine ⟨⟨⟨hempty, hsize⟩, ?_⟩, ?_⟩
  · split
    · exact ⟨Nat.one_ne_zero, show 1 ≤ maxCauseDigests by decide⟩
    · rename_i hcauses
      refine ⟨fun hzero => hcauses (isEmpty_iff.mpr (eq_nil_of_length_eq_zero hzero)), ?_⟩
      exact (length_filter_le _ _).trans (hinputs node hnode)
  · intro digest hcause
    split at hcause
    · rw [mem_singleton.mp hcause]
      exact hdigest
    · rintro rfl
      exact hvalid.inputs_nonzero (mem_filter.mp hcause).1

include hbounds

theorem affectedNodes_ne_nil : affectedNodes graph ≠ [] := by
  have hcount : (seeds graph).length ≠ 0 := by
    rw [h.length_seeds]
    exact fun hzero => hbounds.facts.nonempty (eq_nil_of_length_eq_zero hzero)
  obtain ⟨seed, hseed⟩ := exists_mem_of_length_pos (Nat.pos_of_ne_zero hcount)
  exact ne_nil_of_mem (h.mem_affectedNodes.mpr ⟨seed, mem_seeds.mp hseed, .refl⟩)

/-- No node lies beyond the horizon. -/
theorem tick_le (hnode : node ∈ graph.nodes) : node.node.tick ≤ graph.horizonTick := by
  have hvalid := h.nodes.valid node hnode
  rw [hbounds.horizon]
  rcases horigin : node.origin with _ | _
  · have hcut := hvalid.committed horigin
    have hfirst := hbounds.facts.first
    have hhorizon := hbounds.facts.horizon
    omega
  · exact (hvalid.provisional horigin).2

end GraphSound

/-- The record of a complete graph whose first affected node is `earliest`. -/
def completeFrontier (blake3 : ByteHash) (graph : ValidatedDependencyGraphV1) (earliest : DependencyGraphNodeV1)
    (frontierId : Identifier) (provenanceDigest : Hash) : RecomputationFrontierV1 where
  frontierId := frontierId
  planDigest := graph.planDigest
  parentCutDigest := graph.parentCutDigest
  dependencyGraphDigest := dependencyGraphDigestV1 blake3 graph
  interventionSeedNodes := (seeds graph).map DependencyGraphNodeV1.node
  affectedNodes := (affectedNodes graph).map DependencyGraphNodeV1.node
  ownerFrontiers := ownerFrontiers (affectedNodes graph)
  globalFrontierTick := earliest.node.tick
  globalFrontierSchedulerPosition := earliest.node.schedulerPosition
  unknownEdgePolicy := .reject
  unknownEdgeCoordinates := []
  endogenousSuffixEndTick := graph.horizonTick
  classificationBundleDigest := graph.classificationBundleDigest
  provenanceDigest := provenanceDigest
  frontierDigest := 0

variable {earliest : DependencyGraphNodeV1}

theorem derivedFrontier_eq (hcomplete : graph.isComplete = true)
    (hfirst : (affectedNodes graph).head? = some earliest) (frontierId : Identifier) (provenanceDigest : Hash) :
    derivedFrontier blake3 graph frontierId provenanceDigest =
      some (completeFrontier blake3 graph earliest frontierId provenanceDigest) := by
  have hunknown : graph.unknownEdgeCoordinates = [] := isEmpty_iff.mp hcomplete
  unfold derivedFrontier unsealedFrontier completeFrontier
  dsimp only
  rw [hfirst, hcomplete, hunknown]
  rfl

namespace GraphSound

variable (h : GraphSound bindings graph) (hbounds : GraphBounds bindings.plan graph)

include h hbounds

theorem contract {rest : List DependencyGraphNodeV1}
    (haffected : affectedNodes graph = earliest :: rest) (frontierId : Identifier) {provenanceDigest : Hash}
    (hprovenance : provenanceDigest ≠ 0) :
    FrontierContract (completeFrontier blake3 graph earliest frontierId provenanceDigest) where
  seeds_count := by
    refine counted_iff.mpr ?_
    rw [completeFrontier, length_map, h.length_seeds]
    exact ⟨fun hzero => hbounds.facts.nonempty (eq_nil_of_length_eq_zero hzero), hbounds.facts.bounded⟩
  affected_count := by
    refine counted_iff.mpr ?_
    rw [completeFrontier, length_map]
    have hle := (subperm_of_subset h.strict_affectedNodes.nodup h.affectedNodes_subset).length_le
    refine ⟨?_, hle.trans hbounds.nodes_length⟩
    rw [haffected]
    exact Nat.succ_ne_zero _
  owners_nonempty := by
    have hmem : earliest ∈ affectedNodes graph := haffected ▸ mem_cons_self
    obtain ⟨owner, howner, -⟩ := exists_ownerFrontier h.strict_affectedNodes hmem
    exact fun hzero => ne_nil_of_mem howner (eq_nil_of_length_eq_zero hzero)
  cut := hbounds.cut.trans_ne hbounds.facts.cut_nonzero
  classification := hbounds.classification.trans_ne hbounds.facts.classification_nonzero
  provenance := hprovenance
  seeds_valid := by
    intro coordinate hmem
    obtain ⟨node, hnode, rfl⟩ := mem_map.mp hmem
    exact (h.nodes.valid node (mem_seeds.mp hnode).1).coordinate
  affected_valid := by
    intro coordinate hmem
    obtain ⟨node, hnode, rfl⟩ := mem_map.mp hmem
    exact (h.nodes.valid node (h.affectedNodes_subset node hnode)).coordinate
  owners_valid := by
    intro owner howner
    obtain ⟨node, hfirst, rfl⟩ := mem_map.mp howner
    have hnode := (firstOfEachOwner_sublist [] _).subset hfirst
    exact h.isValid_ownerFrontier hbounds.inputs_length (h.affectedNodes_subset node hnode) _
  policy := rfl
  unknown := rfl
  seeds_ordered := by
    refine pairwise_map.mpr (Pairwise.imp ?_ (h.nodes.ascending.sublist filter_sublist))
    exact fun hlt => DependencyNodeV1.lt_of_coordinateKey_lt hlt
  affected_ordered := by
    refine pairwise_map.mpr (h.strict_affectedNodes.imp ?_)
    exact fun hlt => DependencyNodeV1.lt_of_coordinateKey_lt hlt
  owners_ordered :=
    pairwise_map.mpr (h.strict_affectedNodes.sublist (firstOfEachOwner_sublist [] _))
  owners_once := nodup_owners h.strict_affectedNodes
  causes_ordered := by
    intro owner howner
    obtain ⟨node, hearliest⟩ := h.earliestAt howner
    exact hearliest.ascending
  suffix_end := h.tick_le hbounds (h.affectedNodes_subset earliest (haffected ▸ mem_cons_self))
  owners_after := by
    intro owner howner
    obtain ⟨node, hfirst, rfl⟩ := mem_map.mp howner
    have hnode := (firstOfEachOwner_sublist [] _).subset hfirst
    have hstrict := h.strict_affectedNodes
    rw [haffected] at hnode hstrict
    exact position_le (hstrict.head_le hnode)

end GraphSound

/-- The frontier of a complete graph is its exact causal suffix: the affected nodes, the owner frontiers
with their causes and the global frontier are what the graph's edges make them, and sealing the record
fails only on an identifier that is zero, the owner count or the size. -/
theorem frontier_is_causal_suffix (blake3 : ByteHash) (plan : CounterfactualPlanV1)
    (bounds : DependencyGraphBoundsV1) (nodes : List DependencyGraphNodeV1) (edges : List InputDependencyV1)
    (graph : ValidatedDependencyGraphV1) (h : validateDependencyGraphV1 blake3 plan bounds nodes edges = .ok graph)
    (hcomplete : graph.isComplete = true) :
    ((∀ node, node ∈ affectedNodes graph ↔ node ∈ CausalSuffix graph) ∧
      Ascending.Strict (fun node : DependencyGraphNodeV1 => node.node.coordinateKey) (affectedNodes graph)) ∧
    (∀ node ∈ graph.nodes, node.nodeClass = .endogenousRecomputed → node ∉ affectedNodes graph →
      ∀ source ∈ affectedNodes graph, digestOf source ∉ node.inputDigests) ∧
    ∀ (frontierId : Identifier) (provenanceDigest : Hash), provenanceDigest ≠ 0 → ∃ derived,
      deriveRecomputationFrontierV1 blake3 plan graph frontierId provenanceDigest =
        some ((derived.sealRecord blake3).mapError .frontier) ∧
      derivedFrontier blake3 graph frontierId provenanceDigest = some derived ∧
      derived.affectedNodes = (affectedNodes graph).map DependencyGraphNodeV1.node ∧
      (∀ owner ∈ derived.ownerFrontiers, ∃ node, EarliestAt graph owner node) ∧
      (∀ node ∈ affectedNodes graph, ∃! owner, owner ∈ derived.ownerFrontiers ∧ owner.ownerId = node.node.ownerId) ∧
      IsLeast {position | ∃ node ∈ affectedNodes graph, toLex (node.node.tick, node.node.schedulerPosition) = position}
        (toLex (derived.globalFrontierTick, derived.globalFrontierSchedulerPosition)) ∧
      ∀ error, derived.sealRecord blake3 = .error error → error = .fieldOutOfBounds ∧
        (frontierId = 0 ∨ graph.planDigest = 0 ∨ dependencyGraphDigestV1 blake3 graph = 0 ∨
          4096 < derived.ownerFrontiers.length ∨ maxRecomputationFrontierBytes < derived.signedLength) := by
  obtain ⟨bindings, hplan, hsound⟩ := GraphSound.of_validate h
  have hbounds := GraphBounds.of_validate h
  obtain ⟨-, -, -, -, -, -, -, -, -, -, -, hdigest, -⟩ := validateDependencyGraphV1_eq_ok h
  obtain ⟨rfl, -, -⟩ := PlanBindings.new_eq_ok hplan
  have hstrict := hsound.strict_affectedNodes
  refine ⟨⟨fun node => hsound.mem_affectedNodes, hstrict⟩, fun node hnode hclass hout source hsource hinput => ?_, ?_⟩
  · exact hout (hsound.affected_of_input hcomplete hsource hnode hclass hinput)
  intro frontierId provenanceDigest hprovenance
  obtain ⟨earliest, rest, haffected⟩ := exists_cons_of_ne_nil (hsound.affectedNodes_ne_nil hbounds)
  have hhead : (affectedNodes graph).head? = some earliest := by rw [haffected, head?_cons]
  have hderived : derivedFrontier blake3 graph frontierId provenanceDigest =
      some (completeFrontier blake3 graph earliest frontierId provenanceDigest) :=
    derivedFrontier_eq hcomplete hhead frontierId provenanceDigest
  have hcontract : FrontierContract (completeFrontier blake3 graph earliest frontierId provenanceDigest) :=
    hsound.contract hbounds haffected frontierId hprovenance
  refine ⟨_, ?_, hderived, rfl, fun owner howner => hsound.earliestAt howner, fun node hnode => ?_, ⟨?_, ?_⟩, ?_⟩
  · unfold deriveRecomputationFrontierV1 checkInputs
    rw [if_neg hprovenance, if_pos hdigest.symm, hderived]
    rfl
  · obtain ⟨owner, howner, hid⟩ := exists_ownerFrontier hstrict hnode
    refine ⟨owner, ⟨howner, hid⟩, fun other hother => ?_⟩
    exact inj_on_of_nodup_map hcontract.owners_once hother.1 howner (hother.2.trans hid.symm)
  · exact ⟨earliest, haffected ▸ mem_cons_self, rfl⟩
  · rintro position ⟨node, hnode, rfl⟩
    rw [haffected] at hstrict hnode
    exact position_le (hstrict.head_le hnode)
  · intro error herror
    obtain ⟨rfl, hlimits⟩ := hcontract.sealRecord_eq_error herror
    refine ⟨rfl, ?_⟩
    by_contra hnone
    simp only [not_or, not_lt] at hnone
    obtain ⟨hid, hplan, hgraph, howners, hsize⟩ := hnone
    exact absurd (hlimits ⟨hid, hplan, hgraph, howners⟩) (not_lt.mpr hsize)

/-- What a seal of the example graph's frontier comes to, within every bound. -/
def sealsWithin (frontierId : Identifier) (sealed : Except FrontierArtifactErrorV1 Unit)
    (graph : ValidatedDependencyGraphV1) : Bool :=
  graph.isComplete && (derivedFrontier spellingHash graph frontierId 4).any fun derived =>
    derived.countsWithinBounds && decide (derived.signedLength ≤ maxRecomputationFrontierBytes) &&
      decide ((derived.sealRecord spellingHash).map (fun _ => ()) = sealed)

/-- A zero frontier identifier is refused where every count and the size are within bounds. -/
theorem zeroFrontierId_refused :
    (validateDependencyGraphV1 spellingHash onePlan ⟨10, 10⟩ [assignedNode, recomputedNode] [causeEdge]).map
      (fun graph => sealsWithin 1 (.ok ()) graph && sealsWithin 0 (.error .fieldOutOfBounds) graph) = .ok true := by
  decide +kernel

theorem recomputedNode_suffix : ∃ graph,
    validateDependencyGraphV1 spellingHash onePlan ⟨10, 10⟩ [assignedNode, recomputedNode] [causeEdge] = .ok graph ∧
    affectedNodes graph = [assignedNode, recomputedNode] ∧ recomputedNode ∈ CausalSuffix graph ∧
    ∃ derived, derivedFrontier spellingHash graph 1 4 = some derived ∧
      ∀ owner ∈ derived.ownerFrontiers, ∃ node, EarliestAt graph owner node := by
  have hok : (validateDependencyGraphV1 spellingHash onePlan ⟨10, 10⟩ [assignedNode, recomputedNode] [causeEdge]).map
      (fun graph => graph.isComplete && decide (affectedNodes graph = [assignedNode, recomputedNode])) = .ok true := by
    decide +kernel
  obtain ⟨graph, hgraph, hchecks⟩ := map_eq_ok.mp hok
  obtain ⟨hcomplete, haffected⟩ := Bool.and_eq_true_iff.mp hchecks
  have haffected := of_decide_eq_true haffected
  obtain ⟨⟨hsuffix, -⟩, -, hderive⟩ :=
    frontier_is_causal_suffix spellingHash onePlan ⟨10, 10⟩ _ [causeEdge] graph hgraph hcomplete
  obtain ⟨derived, -, hderived, -, howners, -⟩ := hderive 1 4 (by decide)
  refine ⟨graph, hgraph, haffected, (hsuffix recomputedNode).mp ?_, derived, hderived, howners⟩
  rw [haffected]
  exact mem_cons_of_mem _ mem_cons_self

end Piglor.Counterfactual
