/-
The layered search over an accepted graph. The consumer index lists exactly the accepted edges, so a
layer is the set of unvisited consumers of the one before; the search visits what is reachable, and ends
because every turn visits a node more.
-/
import PiglorProofs.Counterfactual.Verdict
import PiglorProofs.Lib.Layers
import PiglorProofs.Lib.Runs

namespace Piglor.Counterfactual

open Checked List

variable {blake3 : ByteHash} {plan : CounterfactualPlanV1} {bounds : DependencyGraphBoundsV1}
  {bindings : PlanBindings} {nodes : List DependencyGraphNodeV1} {edges : List InputDependencyV1}
  {graph : ValidatedDependencyGraphV1}

/-! ## Accepted graphs -/

/-- What an accepted graph holds: valid nodes, accepted forward edges, a sorted index of them and the gaps. -/
structure GraphSound (bindings : PlanBindings) (graph : ValidatedDependencyGraphV1) : Prop where
  nodes : NodesValid bindings graph.nodes graph.byDigest
  accepted : ∀ edge ∈ graph.edges, ∃ pair, validateEdge bindings graph.nodes graph.byDigest edge = .ok pair
  outgoing : ∀ pair, pair ∈ graph.outgoing ↔
    ∃ edge ∈ graph.edges, validateEdge bindings graph.nodes graph.byDigest edge = .ok pair
  sorted : graph.outgoing.Pairwise fun left right => left.1 ≤ right.1
  gaps : ∀ key, key ∈ graph.unknownEdgeCoordinates ↔ Gap bindings graph.nodes graph.byDigest graph.edges key
  forward : ∀ edge ∈ graph.edges, edge.source.coordinateKey < edge.consumer.coordinateKey

/-- An edge that has a digest goes forward. -/
theorem forward_of_digest {edge : InputDependencyV1} {digest : Hash} (h : edge.digest blake3 = .ok digest) :
    edge.source.coordinateKey < edge.consumer.coordinateKey := by
  obtain ⟨⟨⟩, hvalid, -⟩ := bind_eq_ok.mp h
  unfold InputDependencyV1.validate at hvalid
  split_ifs at hvalid with _ hlt
  exact hlt

/-- No edge is refused when the gap stage succeeds, and the gaps are recorded in full. -/
theorem missingEdges_eq_ok {policy : UnknownEdgePolicyV1} {outgoing : List (Nat × Nat)}
    {first : Option KeyedEdgeError} {unknown : List UnknownEdgeCoordinateV1}
    (h : missingEdges policy nodes outgoing first = .ok unknown) :
    first = none ∧ unknown = nodes.flatMap (nodeGaps (presentEdges nodes outgoing)) := by
  cases policy with
  | reject =>
    unfold missingEdges at h
    generalize nodes.flatMap (nodeGaps (presentEdges nodes outgoing)) = gaps at h ⊢
    rcases first with _ | ⟨key, error⟩ <;> rcases gaps with _ | ⟨gap, gaps⟩
    · exact ⟨rfl, (Except.ok.inj h).symm⟩
    · cases h
    · cases h
    · dsimp only [head?_cons, Option.map_some] at h
      split_ifs at h
  | fullSuffixFromCut =>
    rcases first with _ | ⟨key, error⟩
    · rw [missingEdges_fullSuffixFromCut rfl] at h
      split_ifs at h
      exact ⟨rfl, (Except.ok.inj h).symm⟩
    · cases h

theorem GraphSound.of_validate (h : validateDependencyGraphV1 blake3 plan bounds nodes edges = .ok graph) :
    ∃ bindings, PlanBindings.new blake3 plan = .ok bindings ∧ GraphSound bindings graph := by
  obtain ⟨-, bindings, hplan, hnodes, scan, hscan, hout, -, hmissing, rfl, rfl, -⟩ := validateDependencyGraphV1_eq_ok h
  obtain ⟨-, hvalid⟩ := validateNodes_eq_ok hnodes
  obtain ⟨digests, hdigests, hscan⟩ := bind_eq_ok.mp hscan
  replace hscan := of_check hscan
  cases hscan
  obtain ⟨hfirst, hunknown⟩ := missingEdges_eq_ok hmissing
  have hmem : ∀ pair, pair ∈ graph.outgoing ↔
      ∃ edge ∈ graph.edges, validateEdge bindings graph.nodes graph.byDigest edge = .ok pair := by
    intro pair
    rw [hout, mem_insertionSort]
    exact mem_outgoing_scan graph.edges
  refine ⟨bindings, hplan, hvalid, fun edge hedge => ?_, hmem, ?_, fun key => ?_, fun edge hedge => ?_⟩
  · have hnone : LeastRefused bindings graph.nodes graph.byDigest graph.edges none := hfirst ▸ leastRefused_scan graph.edges
    rcases ok_or_error (validateEdge bindings graph.nodes graph.byDigest edge) with hok | ⟨error, herror⟩
    · exact hok
    · exact absurd ⟨hedge, herror⟩ (hnone edge error)
  · rw [hout]
    refine (pairwise_insertionSort _ _).imp fun hle => ?_
    rcases Prod.Lex.le_iff.mp hle with hlt | ⟨heq, -⟩
    · exact hlt.le
    · exact heq.le
  · rw [hunknown, ← hout]
    exact mem_gaps hvalid hmem
  · obtain ⟨digest, -, hdigest⟩ := Runs.exists_of_forall₂ (mapM_eq_ok.mp (mapError_eq_ok.mp hdigests)) hedge
    exact forward_of_digest hdigest

/-! ## Consumers -/

/-- An edge of the graph from one node to another. -/
def Feeds (graph : ValidatedDependencyGraphV1) (source consumer : DependencyGraphNodeV1) : Prop :=
  ∃ edge ∈ graph.edges, edge.source = source.node ∧ edge.consumer = consumer.node

/-- The step of a search: to a consumer of the class that it enters. -/
def Enters (graph : ValidatedDependencyGraphV1) (enter : DependencyClassV1)
    (source consumer : DependencyGraphNodeV1) : Prop :=
  consumer ∈ graph.nodes ∧ consumer.nodeClass = enter ∧ Feeds graph source consumer

namespace GraphSound

variable (h : GraphSound bindings graph)

include h

variable {source consumer node : DependencyGraphNodeV1} {visited : NodeSet}

theorem feeds_iff {s c : Nat} (hs : graph.nodes[s]? = some source) (hc : graph.nodes[c]? = some consumer) :
    Feeds graph source consumer ↔ (s, c) ∈ graph.outgoing := by
  rw [h.outgoing]
  constructor
  · rintro ⟨edge, hedge, hsource, hconsumer⟩
    obtain ⟨⟨s', c'⟩, hok⟩ := h.accepted edge hedge
    obtain ⟨source', consumer', hs', hsource', hc', hconsumer', -⟩ := h.nodes.validateEdge_eq_ok.mp hok
    cases h.nodes.position_inj hs hs' (hsource.symm.trans hsource'.symm)
    cases h.nodes.position_inj hc hc' (hconsumer.symm.trans hconsumer'.symm)
    exact ⟨edge, hedge, hok⟩
  · rintro ⟨edge, hedge, hok⟩
    obtain ⟨source', consumer', hs', hsource, hc', hconsumer, -⟩ := h.nodes.validateEdge_eq_ok.mp hok
    cases hs.symm.trans hs'
    cases hc.symm.trans hc'
    exact ⟨edge, hedge, hsource.symm, hconsumer.symm⟩

/-- The index lists the consumers of a declared node. -/
theorem mem_consumers (hsource : source ∈ graph.nodes) :
    consumer ∈ graph.consumers (digestOf source) ↔ consumer ∈ graph.nodes ∧ Feeds graph source consumer := by
  obtain ⟨s, hs⟩ := mem_iff_getElem?.mp hsource
  have hlookup : graph.byDigest.lookup (digestOf source) = some s := (h.nodes.index _ _).mpr ⟨source, hs, rfl⟩
  have hsorted : graph.outgoing.Pairwise fun left right => WithBot.some left.1 ≤ WithBot.some right.1 :=
    h.sorted.imp fun hle => WithBot.coe_le_coe.mpr hle
  unfold ValidatedDependencyGraphV1.consumers
  rw [hlookup, mem_filterMap]
  constructor
  · rintro ⟨⟨s', c⟩, hpair, hc⟩
    obtain ⟨hmem, hkey⟩ := (Bisect.mem_segment hsorted).mp hpair
    cases WithBot.coe_inj.mp hkey
    exact ⟨mem_of_getElem? hc, (h.feeds_iff hs hc).mpr hmem⟩
  · rintro ⟨hconsumer, hfeeds⟩
    obtain ⟨c, hc⟩ := mem_iff_getElem?.mp hconsumer
    exact ⟨(s, c), (Bisect.mem_segment hsorted).mpr ⟨(h.feeds_iff hs hc).mp hfeeds, rfl⟩, hc⟩

/-- An edge comes from a declared input of its consumer. -/
theorem input_of_feeds (hsource : source ∈ graph.nodes) (hconsumer : consumer ∈ graph.nodes)
    (hfeeds : Feeds graph source consumer) : digestOf source ∈ consumer.inputDigests := by
  obtain ⟨edge, hedge, hs, hc⟩ := hfeeds
  obtain ⟨⟨s, c⟩, hok⟩ := h.accepted edge hedge
  obtain ⟨source', consumer', hs', hsource', hc', hconsumer', hinput, -⟩ := h.nodes.validateEdge_eq_ok.mp hok
  cases h.nodes.node_inj (mem_of_getElem? hs') hsource (hsource'.trans hs)
  cases h.nodes.node_inj (mem_of_getElem? hc') hconsumer (hconsumer'.trans hc)
  exact hinput

/-- In a complete graph every declared input comes with its edge. -/
theorem feeds_of_input (hcomplete : graph.isComplete = true) (hsource : source ∈ graph.nodes)
    (hconsumer : consumer ∈ graph.nodes) (hinput : digestOf source ∈ consumer.inputDigests) : Feeds graph source consumer := by
  have hnone : graph.unknownEdgeCoordinates = [] := isEmpty_iff.mp hcomplete
  have hgap : ¬ Gap bindings graph.nodes graph.byDigest graph.edges ⟨consumer.node, some (digestOf source)⟩ := by
    rw [← h.gaps, hnone]
    exact not_mem_nil
  by_contra hfeeds
  refine hgap ⟨consumer, hconsumer, rfl, hinput, fun edge ⟨hedge, ⟨s, c⟩, hok⟩ hc hdigest => hfeeds ?_⟩
  obtain ⟨source', consumer', hs', hsource', -⟩ := h.nodes.validateEdge_eq_ok.mp hok
  have hsame : source' = source :=
    h.nodes.digest_inj (mem_of_getElem? hs') hsource (by rw [digestOf, hsource', hdigest])
  exact ⟨edge, hedge, by rw [← hsource', hsame], hc⟩

/-! ## Layers -/

section

variable (hvisited : ∀ node ∈ visited, node ∈ graph.nodes)

include hvisited

theorem containsKey_iff (hnode : node ∈ graph.nodes) :
    visited.containsKey node.node = true ↔ node ∈ visited := by
  unfold NodeSet.containsKey
  rw [any_eq_true]
  constructor
  · rintro ⟨other, hother, heq⟩
    rw [← h.nodes.node_inj (hvisited other hother) hnode (of_decide_eq_true heq)]
    exact hother
  · exact fun hmem => ⟨node, hmem, decide_eq_true rfl⟩

theorem mem_extend {entries : List DependencyGraphNodeV1} (hentries : ∀ node ∈ entries, node ∈ graph.nodes) :
    node ∈ visited.extend entries ↔ node ∈ visited ∨ node ∈ entries := by
  refine Ascending.mem_extend fun a ha b hb hkey => h.nodes.node_inj (hentries a ha) ?_ hkey
  exact hb.elim (hvisited b) (hentries b)

variable {enter : DependencyClassV1}

/-- The next layer holds the unvisited consumers that the search enters. -/
theorem mem_nextLayer {layer : List DependencyGraphNodeV1}
    (hlayer : ∀ node ∈ layer, node ∈ graph.nodes) :
    node ∈ nextLayer graph enter visited layer ↔
      node ∉ visited ∧ ∃ source ∈ layer, Enters graph enter source node := by
  have hentries : ∀ {consumer}, consumer ∈ (layer.flatMap fun node => graph.consumers node.node.artifactDigest).filter
      (fun consumer => decide (consumer.nodeClass = enter) && !visited.containsKey consumer.node) ↔
        consumer ∉ visited ∧ ∃ source ∈ layer, Enters graph enter source consumer := by
    intro consumer
    rw [mem_filter, mem_flatMap, Bool.and_eq_true, decide_eq_true_eq, Bool.not_eq_true']
    constructor
    · rintro ⟨⟨source, hsource, hconsumer⟩, hclass, hfresh⟩
      obtain ⟨hmem, hfeeds⟩ := (h.mem_consumers (hlayer source hsource)).mp hconsumer
      refine ⟨fun hin => ?_, source, hsource, hmem, hclass, hfeeds⟩
      exact Bool.false_ne_true (hfresh.symm.trans ((h.containsKey_iff hvisited hmem).mpr hin))
    · rintro ⟨hfresh, source, hsource, hmem, hclass, hfeeds⟩
      refine ⟨⟨source, hsource, (h.mem_consumers (hlayer source hsource)).mpr ⟨hmem, hfeeds⟩⟩, hclass, ?_⟩
      exact Bool.eq_false_iff.mpr fun hin => hfresh ((h.containsKey_iff hvisited hmem).mp hin)
  refine (h.mem_extend (fun _ hnil => absurd hnil not_mem_nil) fun consumer hconsumer => ?_).trans ?_
  · obtain ⟨-, source, -, hmem, -⟩ := hentries.mp hconsumer
    exact hmem
  · rw [or_iff_right not_mem_nil, hentries]

end

/-! ## The loop -/

/-- The loop visits what is reachable: the fuel left always covers the nodes not visited yet. -/
theorem mem_reachableLoop {start : Set DependencyGraphNodeV1} :
    ∀ (fuel : Nat) {visited : NodeSet} {layer : List DependencyGraphNodeV1},
      (∀ node ∈ visited, node ∈ graph.nodes) → Ascending.Strict NodeSet.key visited →
      Layers.Search (Enters graph enter) start {node | node ∈ visited} {node | node ∈ layer} →
      (layer ≠ [] → graph.nodes.length + 1 ≤ visited.length + fuel) →
      {node | node ∈ reachableLoop graph enter fuel visited layer} = Layers.Reach (Enters graph enter) start ∧
        Ascending.Strict NodeSet.key (reachableLoop graph enter fuel visited layer)
  | 0, visited, layer, hvisited, hstrict, hsearch, hfuel => by
    have hempty : layer = [] := by
      by_contra hne
      have hroom := hfuel hne
      have hle := (subperm_of_subset hstrict.nodup hvisited).length_le
      omega
    exact ⟨hsearch.complete (by simp [hempty]), hstrict⟩
  | fuel + 1, visited, layer, hvisited, hstrict, hsearch, hfuel => by
    rw [reachableLoop]
    rcases hlayer : layer with _ | ⟨first, rest⟩
    · exact ⟨hsearch.complete (by simp [hlayer]), hstrict⟩
    rw [← hlayer, if_neg (by simp [hlayer])]
    have hpending : ∀ node ∈ layer, node ∈ graph.nodes := fun node hnode => hvisited node (hsearch.pending hnode)
    have hnext : ∀ node, node ∈ nextLayer graph enter visited layer ↔
        node ∉ visited ∧ ∃ source ∈ layer, Enters graph enter source node := fun node => h.mem_nextLayer hvisited hpending
    have hdeclared : ∀ node ∈ nextLayer graph enter visited layer, node ∈ graph.nodes := by
      intro node hnode
      obtain ⟨-, source, -, hmem, -⟩ := (hnext node).mp hnode
      exact hmem
    have hmem : ∀ node, node ∈ visited.extend (nextLayer graph enter visited layer) ↔
        node ∈ visited ∨ node ∈ nextLayer graph enter visited layer := fun node => h.mem_extend hvisited hdeclared
    refine mem_reachableLoop fuel (fun node hnode => ?_) hstrict.extend ?_ fun hne => ?_
    · exact ((hmem node).mp hnode).elim (hvisited node) (hdeclared node)
    · have hunion : {node | node ∈ visited.extend (nextLayer graph enter visited layer)} =
          {node | node ∈ visited} ∪ {node | node ∈ nextLayer graph enter visited layer} := Set.ext hmem
      rw [hunion]
      exact hsearch.step hnext
    · -- a node of the next layer was not visited before
      obtain ⟨new, hnew⟩ := exists_mem_of_ne_nil _ hne
      have hsub : new :: visited ⊆ visited.extend (nextLayer graph enter visited layer) := by
        intro node hnode
        rcases mem_cons.mp hnode with rfl | hnode
        · exact (hmem node).mpr (.inr hnew)
        · exact (hmem node).mpr (.inl hnode)
      have hgrown := (subperm_of_subset (nodup_cons.mpr ⟨((hnext new).mp hnew).1, hstrict.nodup⟩) hsub).length_le
      have hroom := hfuel (by simp [hlayer])
      rw [length_cons] at hgrown
      omega

/-- A search visits exactly what is reachable from its start, in order. -/
theorem mem_reachable {start : List DependencyGraphNodeV1} (hstart : ∀ node ∈ start, node ∈ graph.nodes) :
    (∀ node, node ∈ reachable graph start enter ↔ node ∈ Layers.Reach (Enters graph enter) {node | node ∈ start}) ∧
      Ascending.Strict NodeSet.key (reachable graph start enter) := by
  have hmem : ∀ node, node ∈ NodeSet.collect start ↔ node ∈ start := by
    intro node
    refine (h.mem_extend (fun _ hnil => absurd hnil not_mem_nil) hstart).trans ?_
    rw [or_iff_right not_mem_nil]
  have hcollected : {node | node ∈ NodeSet.collect start} = {node | node ∈ start} := Set.ext hmem
  have hsearch : Layers.Search (Enters graph enter) {node | node ∈ start} {node | node ∈ NodeSet.collect start}
      {node | node ∈ start} := by
    rw [hcollected]
    exact .init _ _
  have hloop := h.mem_reachableLoop (graph.nodes.length + 1) (fun node hnode => hstart node ((hmem node).mp hnode))
    (Ascending.Strict.extend .nil) hsearch fun _ => Nat.le_add_left _ _
  exact ⟨Set.ext_iff.mp hloop.1, hloop.2⟩

/-- The order of the coordinates is the canonical order of the nodes. -/
theorem canonical (hvisited : ∀ node ∈ visited, node ∈ graph.nodes) (hstrict : Ascending.Strict NodeSet.key visited) :
    Ascending.Strict (fun node : DependencyGraphNodeV1 => node.node.coordinateKey) visited := by
  refine Pairwise.imp_of_mem (fun {left right} hleft hright hlt => ?_) hstrict
  refine lt_of_le_of_ne (DependencyNodeV1.coordinateKey_le hlt.le) fun heq => ?_
  cases h.nodes.ascending.key_inj (hvisited left hleft) (hvisited right hright) heq
  exact lt_irrefl _ hlt

end GraphSound

end Piglor.Counterfactual
