/-
The recomputation frontier of a validated graph: the layered search from the Intervention nodes, the
owner frontiers with their causes, the graph digest and the sealed RCF1 record.
-/
import PiglorProofs.Counterfactual.Graph

namespace Piglor.Counterfactual

inductive RecomputationFrontierErrorV1 where
  | planMismatch
  | provenanceMissing
  | frontier (error : FrontierArtifactErrorV1)
deriving DecidableEq

/-! ## Search -/

/-- The Intervention nodes, in canonical order. -/
def seeds (graph : ValidatedDependencyGraphV1) : List DependencyGraphNodeV1 := graph.nodes.filter isInterventionNode

/-- Nodes kept in the order of their coordinates. -/
abbrev NodeSet := List DependencyGraphNodeV1

namespace NodeSet

def key (node : DependencyGraphNodeV1) : DependencyNodeV1 := node.node

def containsKey (nodes : NodeSet) (coordinate : DependencyNodeV1) : Bool :=
  nodes.any fun node => decide (node.node = coordinate)

def extend (nodes : NodeSet) (entries : List DependencyGraphNodeV1) : NodeSet := Ascending.extend key nodes entries

def collect (entries : List DependencyGraphNodeV1) : NodeSet := extend [] entries

end NodeSet

/-- The consumers of a layer that the search enters. -/
def nextLayer (graph : ValidatedDependencyGraphV1) (enter : DependencyClassV1) (visited : NodeSet)
    (layer : List DependencyGraphNodeV1) : NodeSet :=
  NodeSet.collect ((layer.flatMap fun node => graph.consumers node.node.artifactDigest).filter fun consumer =>
    decide (consumer.nodeClass = enter) && !visited.containsKey consumer.node)

/-- The loop over layers; the fuel bounds the turns. -/
def reachableLoop (graph : ValidatedDependencyGraphV1) (enter : DependencyClassV1) :
    Nat → NodeSet → List DependencyGraphNodeV1 → NodeSet
  | 0, visited, _ => visited
  | fuel + 1, visited, layer =>
    if layer.isEmpty then visited
    else
      let next := nextLayer graph enter visited layer
      reachableLoop graph enter fuel (visited.extend next) next

/-- The start and every node of class `enter` reachable from it through such nodes. -/
def reachable (graph : ValidatedDependencyGraphV1) (start : List DependencyGraphNodeV1) (enter : DependencyClassV1) :
    NodeSet :=
  reachableLoop graph enter (graph.nodes.length + 1) (NodeSet.collect start) start

def affectedNodes (graph : ValidatedDependencyGraphV1) : List DependencyGraphNodeV1 :=
  reachable graph (seeds graph) .endogenousRecomputed

/-- The presentation outputs that recomputing the frontier makes stale. -/
def affectedPresentationOutputsV1 (graph : ValidatedDependencyGraphV1) : List DependencyNodeV1 :=
  let outputs := if graph.isComplete then
      (reachable graph (affectedNodes graph) .presentationOnly).filter fun node =>
        decide (node.nodeClass = .presentationOnly)
    else graph.nodes.filter fun node => decide (node.nodeClass = .presentationOnly ∧ node.origin = .provisional)
  outputs.map DependencyGraphNodeV1.node

/-! ## Owner frontiers -/

def firstOfEachOwner : List String → List DependencyGraphNodeV1 → List DependencyGraphNodeV1
  | _, [] => []
  | owners, node :: rest =>
    if node.node.ownerId ∈ owners then firstOfEachOwner owners rest
    else node :: firstOfEachOwner (node.node.ownerId :: owners) rest

/-- An owner's lowest coordinate and its affected direct inputs, or the node itself when it has none. -/
def ownerFrontier (affected : List Hash) (node : DependencyGraphNodeV1) : OwnerFrontierV1 :=
  let causes := node.inputDigests.filter fun digest => affected.contains digest
  { ownerId := node.node.ownerId
    earliestTick := node.node.tick
    earliestSchedulerPosition := node.node.schedulerPosition
    earliestOutputOrdinal := node.node.outputOrdinal
    causeNodeDigests := if causes.isEmpty then [node.node.artifactDigest] else causes }

def ownerFrontiers (affected : List DependencyGraphNodeV1) : List OwnerFrontierV1 :=
  let digests := affected.map fun node => node.node.artifactDigest
  (firstOfEachOwner [] affected).map (ownerFrontier digests)

/-! ## Derivation -/

def nodeFrame (node : DependencyGraphNodeV1) : List UInt8 :=
  let coordinate := node.node
  beBytes 8 coordinate.tick ++ beBytes 4 coordinate.schedulerPosition ++ beBytes 8 coordinate.ownerId.utf8ByteSize ++
    coordinate.ownerId.toUTF8.data.toList ++ beBytes 4 coordinate.outputOrdinal ++ beBytes 4 coordinate.schemaId ++
    hashBytes coordinate.artifactDigest ++ [UInt8.ofNat node.nodeClass.wireCode] ++
    beBytes 8 node.inputDigests.length ++ node.inputDigests.flatMap hashBytes ++ hashBytes node.provenanceDigest

def dependencyGraphDigestV1 (blake3 : ByteHash) (graph : ValidatedDependencyGraphV1) : Hash :=
  blake3 ("PiglorOS.CounterfactualDependencyGraph.v1".toUTF8.data.toList ++ [0] ++ hashBytes graph.planDigest ++
    beBytes 8 graph.nodes.length ++ graph.nodes.flatMap nodeFrame ++ beBytes 8 graph.edgeDigests.length ++
    graph.edgeDigests.flatMap hashBytes)

/-- Every derived field; `none` where indexing the first affected node would panic. -/
def unsealedFrontier (graph : ValidatedDependencyGraphV1) : Option RecomputationFrontierV1 :=
  let affected := affectedNodes graph
  affected.head?.map fun earliest =>
    { frontierId := 0
      planDigest := graph.planDigest
      parentCutDigest := graph.parentCutDigest
      dependencyGraphDigest := 0
      interventionSeedNodes := (seeds graph).map DependencyGraphNodeV1.node
      affectedNodes := affected.map DependencyGraphNodeV1.node
      ownerFrontiers := ownerFrontiers affected
      globalFrontierTick := if graph.isComplete then earliest.node.tick else graph.firstTick
      globalFrontierSchedulerPosition := if graph.isComplete then earliest.node.schedulerPosition else 0
      unknownEdgePolicy := if graph.isComplete then .reject else .fullSuffixFromCut
      unknownEdgeCoordinates := graph.unknownEdgeCoordinates
      endogenousSuffixEndTick := graph.horizonTick
      classificationBundleDigest := graph.classificationBundleDigest
      provenanceDigest := 0
      frontierDigest := 0 }

def checkInputs (plan : CounterfactualPlanV1) (graph : ValidatedDependencyGraphV1) (provenanceDigest : Hash) :
    Except RecomputationFrontierErrorV1 Unit :=
  if provenanceDigest = 0 then .error .provenanceMissing
  else if plan.planDigest = graph.planDigest then .ok ()
  else .error .planMismatch

/-- The record to seal, with the caller's identifier and provenance. -/
def derivedFrontier (blake3 : ByteHash) (graph : ValidatedDependencyGraphV1) (frontierId : Identifier)
    (provenanceDigest : Hash) : Option RecomputationFrontierV1 :=
  (unsealedFrontier graph).map fun unsealed => { unsealed with
    frontierId := frontierId
    dependencyGraphDigest := dependencyGraphDigestV1 blake3 graph
    provenanceDigest := provenanceDigest }

/-- The sealed frontier; `none` stands for a panic. -/
def deriveRecomputationFrontierV1 (blake3 : ByteHash) (plan : CounterfactualPlanV1)
    (graph : ValidatedDependencyGraphV1) (frontierId : Identifier) (provenanceDigest : Hash) :
    Option (Except RecomputationFrontierErrorV1 RecomputationFrontierV1) :=
  match checkInputs plan graph provenanceDigest with
  | .error error => some (.error error)
  | .ok _ => (derivedFrontier blake3 graph frontierId provenanceDigest).map fun derived =>
    (derived.sealRecord blake3).mapError .frontier

end Piglor.Counterfactual
