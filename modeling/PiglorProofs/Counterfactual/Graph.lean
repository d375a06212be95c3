/-
The closed dependency graph of a plan: the node and edge declarations, their validation against the plan
in the order of the source, and the index of consumers that the frontier is derived from.
-/
import PiglorProofs.Counterfactual.FrontierArtifacts
import PiglorProofs.Lib.Bisect
import PiglorProofs.Lib.Table

namespace Piglor.Counterfactual

def maxDependencyGraphNodes : Nat := 1000000

def maxDependencyGraphEdges : Nat := 4000000

inductive DependencyGraphErrorV1 where
  | fieldOutOfBounds
  | resourceLimitExceeded
  | plan (error : CounterfactualPlanContractErrorV1)
  | dependency (error : InputDependencyContractErrorV1)
  | nonCanonicalOrder
  | duplicateIdentity
  | provenanceMissing
  | outOfRange
  | rootNotInPlan
  | unclosedEndogenousInput
  | interventionNodeMissing
  | unknownDependencyEdge (coordinate : UnknownEdgeCoordinateV1)
  | classRuleViolation (coordinate : UnknownEdgeCoordinateV1)
  | unauthorizedDependency (coordinate : UnknownEdgeCoordinateV1)
  | dependencyGraphIncomplete (coordinate : UnknownEdgeCoordinateV1)
deriving DecidableEq

abbrev GraphResult := Except DependencyGraphErrorV1

structure DependencyGraphBoundsV1 where
  maxNodes : Nat
  maxEdges : Nat

inductive DependencyGraphNodeOriginV1 where
  | committed
  | provisional
deriving DecidableEq

structure DependencyGraphNodeV1 where
  node : DependencyNodeV1
  nodeClass : DependencyClassV1
  origin : DependencyGraphNodeOriginV1
  inputDigests : List Hash
  provenanceDigest : Hash
deriving DecidableEq

/-- A graph that passed every rule of its plan. -/
structure ValidatedDependencyGraphV1 where
  planDigest : Hash
  parentCutDigest : Hash
  classificationBundleDigest : Hash
  firstTick : Nat
  horizonTick : Nat
  unknownEdgePolicy : UnknownEdgePolicyV1
  nodes : List DependencyGraphNodeV1
  edges : List InputDependencyV1
  edgeDigests : List Hash
  unknownEdgeCoordinates : List UnknownEdgeCoordinateV1
  byDigest : Table Hash Nat
  outgoing : List (Nat × Nat)

namespace ValidatedDependencyGraphV1

/-- Whether fine-grained reachability may be claimed. -/
def isComplete (graph : ValidatedDependencyGraphV1) : Bool := graph.unknownEdgeCoordinates.isEmpty

/-- The direct consumers of a node, in canonical order. -/
def consumers (graph : ValidatedDependencyGraphV1) (sourceDigest : Hash) : List DependencyGraphNodeV1 :=
  let source : WithBot Nat := graph.byDigest.lookup sourceDigest
  (Bisect.segment (fun pair : Nat × Nat => WithBot.some pair.1) source graph.outgoing).filterMap fun pair =>
    graph.nodes[pair.2]?

end ValidatedDependencyGraphV1

/-! ## Work bounds -/

def declaredInputs (nodes : List DependencyGraphNodeV1) : Nat :=
  nodes.foldl (fun total node => total + node.inputDigests.length) 0

def checkWorkBounds (bounds : DependencyGraphBoundsV1) (nodes : List DependencyGraphNodeV1)
    (edges : List InputDependencyV1) : GraphResult Unit :=
  if bounds.maxNodes > maxDependencyGraphNodes ∨ bounds.maxEdges > maxDependencyGraphEdges then .error .fieldOutOfBounds
  else if nodes.length > bounds.maxNodes ∨ edges.length > bounds.maxEdges ∨
      (nodes.any fun node => decide (node.inputDigests.length > maxCauseDigests)) ∨
      declaredInputs nodes > bounds.maxEdges then .error .resourceLimitExceeded
  else .ok ()

/-! ## Plan bindings -/

structure RootBinding where
  authorizationDigest : Hash
  provenanceDigest : Hash

/-- The plan with its Interventions by INT1 digest. -/
structure PlanBindings where
  plan : CounterfactualPlanV1
  interventions : Table Hash InterventionV1

namespace PlanBindings

def new (blake3 : ByteHash) (plan : CounterfactualPlanV1) :
    Except CounterfactualPlanContractErrorV1 PlanBindings := do
  plan.validate blake3
  let entries ← (plan.interventions.mapM fun intervention : InterventionV1 =>
    (intervention.digest blake3).map fun id => (id, intervention)).mapError .intervention
  .ok ⟨plan, entries.foldl (fun interventions entry => interventions.insert entry.1 entry.2) ∅⟩

def descriptorBinding (descriptors : List FrozenArtifactDescriptorV1) (coordinate : DependencyNodeV1) :
    Option RootBinding := do
  let position ← Bisect.binarySearchBy (fun descriptor : FrozenArtifactDescriptorV1 =>
    cmp descriptor.key (toLex (coordinate.schemaId, coordinate.artifactDigest))) descriptors
  let descriptor ← descriptors[position]?
  some ⟨descriptor.authorizationDigest, descriptor.provenanceDigest⟩

def rootBinding (bindings : PlanBindings) (node : DependencyGraphNodeV1) : Option RootBinding :=
  let coordinate := node.node
  match node.nodeClass with
  | .exogenousFrozen => descriptorBinding bindings.plan.exogenousDescriptors coordinate
  | .fixedPolicy => descriptorBinding bindings.plan.fixedPolicyDescriptors coordinate
  | .interventionAssigned =>
    ((bindings.interventions.lookup coordinate.artifactDigest).filter fun intervention =>
      decide (intervention.effectiveTick = coordinate.tick ∧ intervention.targetSchemaId = coordinate.schemaId)).map
      fun intervention => ⟨intervention.consentDecisionDigest, intervention.provenanceDigest⟩
  | .endogenousRecomputed | .presentationOnly => none

end PlanBindings

/-! ## Nodes -/

def DependencyClassV1.isRoot : DependencyClassV1 → Bool
  | .exogenousFrozen | .fixedPolicy | .interventionAssigned => true
  | .endogenousRecomputed | .presentationOnly => false

def validateNodeFields (node : DependencyGraphNodeV1) : GraphResult Unit :=
  if !node.node.isValidCoordinate || decide (0 ∈ node.inputDigests) then .error .fieldOutOfBounds
  else if node.provenanceDigest = 0 then .error .provenanceMissing
  else Ascending.check .duplicateIdentity .nonCanonicalOrder id node.inputDigests

def validateNodeRange (plan : CounterfactualPlanV1) (node : DependencyGraphNodeV1) :
    GraphResult Unit :=
  let tick := node.node.tick
  let inRange := match node.origin with
    | .committed => decide (tick ≤ plan.parentCutTick)
    | .provisional => decide (plan.firstTick ≤ tick ∧ tick ≤ plan.horizonTick)
  if inRange then .ok () else .error .outOfRange

def validateRoot (bindings : PlanBindings) (node : DependencyGraphNodeV1) : GraphResult Unit :=
  if !node.nodeClass.isRoot then .ok ()
  else if !node.inputDigests.isEmpty then .error .unclosedEndogenousInput
  else
    let acceptsUnbound := decide (node.origin = .committed)
    let matchesPlan := match bindings.rootBinding node with
      | none => acceptsUnbound
      | some binding => decide (binding.provenanceDigest = node.provenanceDigest)
    if matchesPlan then .ok () else .error .rootNotInPlan

def validateNode (bindings : PlanBindings) (node : DependencyGraphNodeV1) : GraphResult Unit := do
  validateNodeFields node
  validateNodeRange bindings.plan node
  validateRoot bindings node

/-- One turn of the node loop: the node is valid and its digest new. -/
def indexNode (bindings : PlanBindings) (byDigest : Table Hash Nat) (entry : DependencyGraphNodeV1 × Nat) :
    GraphResult (Table Hash Nat) := do
  validateNode bindings entry.1
  if (byDigest.lookup entry.1.node.artifactDigest).isSome then .error .duplicateIdentity
  else .ok (byDigest.insert entry.1.node.artifactDigest entry.2)

def isInterventionNode (node : DependencyGraphNodeV1) : Bool := decide (node.nodeClass = .interventionAssigned)

def validateNodes (bindings : PlanBindings) (nodes : List DependencyGraphNodeV1) :
    GraphResult (Table Hash Nat) := do
  Ascending.check .duplicateIdentity .nonCanonicalOrder (fun node : DependencyGraphNodeV1 => node.node.coordinateKey) nodes
  let byDigest ← nodes.zipIdx.foldlM (indexNode bindings) ∅
  if (nodes.filter isInterventionNode).length = bindings.plan.interventions.length then .ok byDigest
  else .error .interventionNodeMissing

/-! ## Edges -/

def edgeCoordinate (edge : InputDependencyV1) : UnknownEdgeCoordinateV1 :=
  ⟨edge.consumer, some edge.source.artifactDigest⟩

/-- The declared node whose exact coordinate is given, with its position. -/
def declared (nodes : List DependencyGraphNodeV1) (byDigest : Table Hash Nat) (coordinate : DependencyNodeV1) :
    Option (Nat × DependencyGraphNodeV1) := do
  let position ← byDigest.lookup coordinate.artifactDigest
  let node ← nodes[position]?
  if node.node = coordinate then some (position, node) else none

def checkEdgeRules (bindings : PlanBindings) (consumer source : DependencyGraphNodeV1) (edge : InputDependencyV1) :
    GraphResult Unit :=
  if edge.tickRange.lastTick > bindings.plan.horizonTick then .error .outOfRange
  else if edge.dependencyClass ≠ source.nodeClass ∨
      (source.nodeClass = .presentationOnly ∧ consumer.nodeClass ≠ .presentationOnly) then
    .error (.classRuleViolation (edgeCoordinate edge))
  else if (bindings.rootBinding source).any fun binding =>
      decide (binding.authorizationDigest ≠ edge.authorizationDigest) then
    .error (.unauthorizedDependency (edgeCoordinate edge))
  else .ok ()

/-- The positions of a valid edge's source and consumer. -/
def validateEdge (bindings : PlanBindings) (nodes : List DependencyGraphNodeV1) (byDigest : Table Hash Nat)
    (edge : InputDependencyV1) : GraphResult (Nat × Nat) :=
  match declared nodes byDigest edge.consumer, declared nodes byDigest edge.source with
  | some (consumer, consumerNode), some (source, sourceNode) =>
    if (Bisect.binarySearchBy (fun digest => cmp digest edge.source.artifactDigest) consumerNode.inputDigests).isSome then
      (checkEdgeRules bindings consumerNode sourceNode edge).map fun _ => (source, consumer)
    else .error (.unknownDependencyEdge (edgeCoordinate edge))
  | _, _ => .error (.unknownDependencyEdge (edgeCoordinate edge))

abbrev KeyedEdgeError := UnknownEdgeCoordinateV1 × DependencyGraphErrorV1

structure EdgeScan where
  edgeDigests : List Hash
  outgoing : List (Nat × Nat)
  firstError : Option KeyedEdgeError

/-- One turn of the edge loop: a valid edge is recorded, an error with a smaller key kept. -/
def scanEdge (bindings : PlanBindings) (nodes : List DependencyGraphNodeV1) (byDigest : Table Hash Nat)
    (state : List (Nat × Nat) × Option KeyedEdgeError) (edge : InputDependencyV1) :
    List (Nat × Nat) × Option KeyedEdgeError :=
  match validateEdge bindings nodes byDigest edge with
  | .ok positions => (state.1 ++ [positions], state.2)
  | .error error =>
    let key := edgeCoordinate edge
    if state.2.all fun first => decide (key < first.1) then (state.1, some (key, error)) else state

def validateEdges (blake3 : ByteHash) (bindings : PlanBindings) (nodes : List DependencyGraphNodeV1)
    (byDigest : Table Hash Nat) (edges : List InputDependencyV1) : GraphResult EdgeScan := do
  let edgeDigests ← (edges.mapM (InputDependencyV1.digest blake3)).mapError .dependency
  (validateInputDependencyListOrderV1 edges).mapError .dependency
  let (outgoing, firstError) := edges.foldl (scanEdge bindings nodes byDigest) ([], none)
  .ok ⟨edgeDigests, outgoing.insertionSort fun left right => toLex left ≤ toLex right, firstError⟩

/-! ## Missing edges -/

def gap (node : DependencyGraphNodeV1) (source : Option Hash) : UnknownEdgeCoordinateV1 := ⟨node.node, source⟩

def nodeGaps (present : List (Hash × Hash)) (node : DependencyGraphNodeV1) : List UnknownEdgeCoordinateV1 :=
  let unknownClosure := decide (node.nodeClass = .endogenousRecomputed) && decide (node.origin = .provisional) &&
    node.inputDigests.isEmpty
  (if unknownClosure then [gap node none] else []) ++
    (node.inputDigests.filter fun source => decide ((node.node.artifactDigest, source) ∉ present)).map fun source =>
      gap node (some source)

/-- The consumer and source digests of the valid edges. -/
def presentEdges (nodes : List DependencyGraphNodeV1) (outgoing : List (Nat × Nat)) : List (Hash × Hash) :=
  outgoing.filterMap fun pair => do
    let consumer ← nodes[pair.2]?
    let source ← nodes[pair.1]?
    some (consumer.node.artifactDigest, source.node.artifactDigest)

def missingEdges (policy : UnknownEdgePolicyV1) (nodes : List DependencyGraphNodeV1) (outgoing : List (Nat × Nat))
    (firstError : Option KeyedEdgeError) : GraphResult (List UnknownEdgeCoordinateV1) :=
  let gaps := nodes.flatMap (nodeGaps (presentEdges nodes outgoing))
  match policy, firstError with
  | .reject, firstError =>
    let firstGap := gaps.head?.map fun gap => (gap, DependencyGraphErrorV1.dependencyGraphIncomplete gap)
    match firstError, firstGap with
    | none, none => .ok []
    | some (_, error), none => .error error
    | none, some (_, error) => .error error
    | some (edgeKey, edgeError), some (gapKey, gapError) =>
      -- the edge error wins a tie
      if gapKey < edgeKey then .error gapError else .error edgeError
  | .fullSuffixFromCut, some (_, error) => .error error
  | .fullSuffixFromCut, none =>
    let recorded := gaps.take (maxUnknownEdgeCoordinates + 1)
    if recorded.length > maxUnknownEdgeCoordinates then .error .resourceLimitExceeded else .ok recorded

/-! ## Validation -/

def validateDependencyGraphV1 (blake3 : ByteHash) (plan : CounterfactualPlanV1)
    (bounds : DependencyGraphBoundsV1) (nodes : List DependencyGraphNodeV1) (edges : List InputDependencyV1) :
    GraphResult ValidatedDependencyGraphV1 := do
  checkWorkBounds bounds nodes edges
  let bindings ← (PlanBindings.new blake3 plan).mapError .plan
  let byDigest ← validateNodes bindings nodes
  let scan ← validateEdges blake3 bindings nodes byDigest edges
  let unknownEdgeCoordinates ← missingEdges plan.unknownEdgePolicy nodes scan.outgoing scan.firstError
  .ok {
    planDigest := plan.planDigest
    parentCutDigest := plan.parentCutDigest
    classificationBundleDigest := plan.classificationBundleDigest
    firstTick := plan.firstTick
    horizonTick := plan.horizonTick
    unknownEdgePolicy := plan.unknownEdgePolicy
    nodes := nodes
    edges := edges
    edgeDigests := scan.edgeDigests
    unknownEdgeCoordinates := unknownEdgeCoordinates
    byDigest := byDigest
    outgoing := scan.outgoing }

end Piglor.Counterfactual
