/-
What the validation of a node list accepts: canonical order, valid nodes, one node for each digest, an
index that finds a node by its digest, and as many Intervention nodes as the plan has Interventions.
-/
import PiglorProofs.Counterfactual.Frontier
import PiglorProofs.Lib.Checked

namespace Piglor.Counterfactual

open Checked List

/-! ## Single nodes -/

/-- The facts a valid node carries. -/
structure NodeValid (bindings : PlanBindings) (node : DependencyGraphNodeV1) : Prop where
  coordinate : node.node.isValidCoordinate = true
  inputs_nonzero : 0 ∉ node.inputDigests
  provenance : node.provenanceDigest ≠ 0
  inputs_ascending : Ascending.Strict id node.inputDigests
  committed : node.origin = .committed → node.node.tick ≤ bindings.plan.parentCutTick
  provisional : node.origin = .provisional →
    bindings.plan.firstTick ≤ node.node.tick ∧ node.node.tick ≤ bindings.plan.horizonTick
  root_inputs : node.nodeClass.isRoot = true → node.inputDigests = []
  root_bound : node.nodeClass.isRoot = true → node.origin = .provisional → (bindings.rootBinding node).isSome = true

variable {bindings : PlanBindings} {node : DependencyGraphNodeV1} {nodes : List DependencyGraphNodeV1}
  {byDigest : Table Hash Nat}

theorem validateNodeFields_eq_ok : validateNodeFields node = .ok () ↔ node.node.isValidCoordinate = true ∧
    0 ∉ node.inputDigests ∧ node.provenanceDigest ≠ 0 ∧ Ascending.Strict id node.inputDigests := by
  unfold validateNodeFields
  split
  · rename_i h
    simp only [Bool.or_eq_true, Bool.not_eq_true', decide_eq_true_eq] at h
    constructor
    · exact fun herr => (by cases herr)
    · rintro ⟨hcoord, hzero, -⟩
      rcases h with h | h
      · exact absurd (h.symm.trans hcoord) Bool.false_ne_true
      · exact absurd h hzero
  · rename_i h
    simp only [Bool.or_eq_true, Bool.not_eq_true', decide_eq_true_eq, not_or, Bool.not_eq_false] at h
    split
    · rename_i hprov
      exact ⟨fun herr => (by cases herr), fun hok => absurd hprov hok.2.2.1⟩
    · rename_i hprov
      rw [Ascending.check_eq_ok]
      exact ⟨fun hasc => ⟨h.1, h.2, hprov, hasc⟩, fun hok => hok.2.2.2⟩

theorem validateNodeRange_eq_ok {plan : CounterfactualPlanV1} : validateNodeRange plan node = .ok () ↔
    (node.origin = .committed → node.node.tick ≤ plan.parentCutTick) ∧
      (node.origin = .provisional → plan.firstTick ≤ node.node.tick ∧ node.node.tick ≤ plan.horizonTick) := by
  unfold validateNodeRange
  cases node.origin <;> simp

theorem validateRoot_of_eq_ok (h : validateRoot bindings node = .ok ()) (hroot : node.nodeClass.isRoot = true) :
    node.inputDigests = [] ∧ (node.origin = .provisional → (bindings.rootBinding node).isSome = true) := by
  unfold validateRoot at h
  rw [hroot] at h
  simp only [Bool.not_true, Bool.false_eq_true, if_false] at h
  split at h
  · cases h
  rename_i hinputs
  refine ⟨by simpa using hinputs, fun hprov => ?_⟩
  rcases hbinding : bindings.rootBinding node with _ | binding
  · rw [hbinding, hprov] at h
    cases h
  · rfl

theorem NodeValid.of_validateNode (h : validateNode bindings node = .ok ()) : NodeValid bindings node := by
  obtain ⟨⟨⟩, hfields, h⟩ := bind_eq_ok.mp h
  obtain ⟨⟨⟩, hrange, hroot⟩ := bind_eq_ok.mp h
  obtain ⟨hcoord, hzero, hprov, hasc⟩ := validateNodeFields_eq_ok.mp hfields
  obtain ⟨hcommitted, hprovisional⟩ := validateNodeRange_eq_ok.mp hrange
  exact ⟨hcoord, hzero, hprov, hasc, hcommitted, hprovisional, fun hr => (validateRoot_of_eq_ok hroot hr).1,
    fun hr => (validateRoot_of_eq_ok hroot hr).2⟩

/-! ## The index -/

def digestOf (node : DependencyGraphNodeV1) : Hash := node.node.artifactDigest

theorem indexNode_eq_ok {entry : DependencyGraphNodeV1 × Nat} {byDigest' : Table Hash Nat} :
    indexNode bindings byDigest entry = .ok byDigest' ↔ validateNode bindings entry.1 = .ok () ∧
      byDigest.lookup (digestOf entry.1) = none ∧ byDigest' = byDigest.insert (digestOf entry.1) entry.2 := by
  unfold indexNode digestOf
  rw [bind_eq_ok]
  rcases byDigest.lookup entry.1.node.artifactDigest with _ | position
  · constructor
    · rintro ⟨⟨⟩, hvalid, h⟩
      cases h
      exact ⟨hvalid, rfl, rfl⟩
    · rintro ⟨hvalid, -, rfl⟩
      exact ⟨(), hvalid, rfl⟩
  · simp

/-- The loop succeeds exactly on valid nodes with new digests. -/
theorem exists_foldlM_indexNode : ∀ (nodes : List DependencyGraphNodeV1) (k : Nat) (byDigest : Table Hash Nat),
    (∃ byDigest', (nodes.zipIdx k).foldlM (indexNode bindings) byDigest = .ok byDigest') ↔
      (∀ node ∈ nodes, validateNode bindings node = .ok ()) ∧ (nodes.map digestOf).Nodup ∧
        ∀ node ∈ nodes, byDigest.lookup (digestOf node) = none
  | [], _, byDigest => by simp [pure, Except.pure]
  | node :: nodes, k, byDigest => by
    have hstep : (∃ byDigest', ((node :: nodes).zipIdx k).foldlM (indexNode bindings) byDigest = .ok byDigest') ↔
        (validateNode bindings node = .ok () ∧ byDigest.lookup (digestOf node) = none) ∧
          ∃ byDigest', (nodes.zipIdx (k + 1)).foldlM (indexNode bindings) (byDigest.insert (digestOf node) k) =
            .ok byDigest' := by
      rw [zipIdx_cons]
      simp only [foldlM_cons, bind_eq_ok, indexNode_eq_ok]
      constructor
      · rintro ⟨byDigest', -, ⟨hvalid, hnew, rfl⟩, h⟩
        exact ⟨⟨hvalid, hnew⟩, byDigest', h⟩
      · rintro ⟨⟨hvalid, hnew⟩, byDigest', h⟩
        exact ⟨byDigest', _, ⟨hvalid, hnew, rfl⟩, h⟩
    rw [hstep, exists_foldlM_indexNode nodes (k + 1), map_cons, nodup_cons, forall_mem_cons,
      forall_mem_cons]
    simp only [Table.lookup_insert_eq_none, mem_map, not_exists, not_and]
    constructor
    · rintro ⟨⟨hvalid, hnew⟩, hvalids, hnodup, hnews⟩
      exact ⟨⟨hvalid, hvalids⟩, ⟨fun other hother => (hnews other hother).1, hnodup⟩, hnew,
        fun other hother => (hnews other hother).2⟩
    · rintro ⟨⟨hvalid, hvalids⟩, ⟨hne, hnodup⟩, hnew, hnews⟩
      exact ⟨⟨hvalid, hnew⟩, hvalids, hnodup, fun other hother => ⟨hne other hother, hnews other hother⟩⟩

/-- The index of a digest is the position of the one node that has it. -/
theorem lookup_foldlM_indexNode : ∀ (nodes : List DependencyGraphNodeV1) (k : Nat) {byDigest byDigest' : Table Hash Nat},
    (nodes.zipIdx k).foldlM (indexNode bindings) byDigest = .ok byDigest' → ∀ d p, byDigest'.lookup d = some p ↔
      byDigest.lookup d = some p ∨ ∃ i node, nodes[i]? = some node ∧ digestOf node = d ∧ p = k + i
  | [], _, byDigest, byDigest', h, d, p => by
    cases h
    simp
  | node :: nodes, k, byDigest, byDigest', h, d, p => by
    rw [zipIdx_cons, foldlM_cons] at h
    obtain ⟨table, hindex, h⟩ := bind_eq_ok.mp h
    obtain ⟨-, hnew, rfl⟩ := indexNode_eq_ok.mp hindex
    rw [lookup_foldlM_indexNode nodes (k + 1) h, Table.lookup_insert_eq_some]
    constructor
    · rintro ((⟨rfl, rfl⟩ | ⟨-, hp⟩) | ⟨i, other, hother, rfl, rfl⟩)
      · exact .inr ⟨0, node, rfl, rfl, rfl⟩
      · exact .inl hp
      · exact .inr ⟨i + 1, other, hother, rfl, by omega⟩
    · rintro (hp | ⟨i, other, hother, rfl, rfl⟩)
      · refine .inl (.inr ⟨?_, hp⟩)
        rintro rfl
        cases hnew.symm.trans hp
      · rcases i with _ | i
        · cases hother
          exact .inl (.inl ⟨rfl, rfl⟩)
        · exact .inr ⟨i, other, hother, rfl, by omega⟩

/-! ## Node lists -/

/-- What an accepted node list satisfies. -/
structure NodesValid (bindings : PlanBindings) (nodes : List DependencyGraphNodeV1) (byDigest : Table Hash Nat) :
    Prop where
  ascending : Ascending.Strict (fun node : DependencyGraphNodeV1 => node.node.coordinateKey) nodes
  valid : ∀ node ∈ nodes, NodeValid bindings node
  unique : (nodes.map digestOf).Nodup
  index : ∀ d p, byDigest.lookup d = some p ↔ ∃ node, nodes[p]? = some node ∧ digestOf node = d
  count : (nodes.filter isInterventionNode).length = bindings.plan.interventions.length

/-- The conditions on a node list apart from the count of its Intervention nodes. -/
def NodesSound (bindings : PlanBindings) (nodes : List DependencyGraphNodeV1) : Prop :=
  Ascending.Strict (fun node : DependencyGraphNodeV1 => node.node.coordinateKey) nodes ∧
    (∀ node ∈ nodes, validateNode bindings node = .ok ()) ∧ (nodes.map digestOf).Nodup

theorem validateNodes_eq_ok (h : validateNodes bindings nodes = .ok byDigest) :
    NodesSound bindings nodes ∧ NodesValid bindings nodes byDigest := by
  obtain ⟨⟨⟩, hasc, h⟩ := bind_eq_ok.mp h
  rw [Ascending.check_eq_ok] at hasc
  obtain ⟨table, hindex, h⟩ := bind_eq_ok.mp h
  split_ifs at h with hcount
  cases h
  obtain ⟨hvalid, hnodup, -⟩ := (exists_foldlM_indexNode nodes 0 ∅).mp ⟨_, hindex⟩
  refine ⟨⟨hasc, hvalid, hnodup⟩, hasc, fun node hnode => .of_validateNode (hvalid node hnode), hnodup, ?_, hcount⟩
  intro d p
  rw [lookup_foldlM_indexNode nodes 0 hindex]
  simp

/-- A sound list with another number of Intervention nodes is refused for that number. -/
theorem validateNodes_count (h : NodesSound bindings nodes)
    (hcount : (nodes.filter isInterventionNode).length ≠ bindings.plan.interventions.length) :
    validateNodes bindings nodes = .error .interventionNodeMissing := by
  obtain ⟨hasc, hvalid, hnodup⟩ := h
  obtain ⟨table, hindex⟩ := (exists_foldlM_indexNode nodes 0 ∅).mpr ⟨hvalid, hnodup, fun _ _ => rfl⟩
  unfold validateNodes
  rw [(Ascending.check_eq_ok _ _).mpr hasc, ok_bind, hindex, ok_bind, if_neg hcount]

namespace NodesValid

variable (h : NodesValid bindings nodes byDigest)

include h

variable {a b : DependencyGraphNodeV1}

theorem digest_inj (ha : a ∈ nodes) (hb : b ∈ nodes) (hd : digestOf a = digestOf b) : a = b :=
  inj_on_of_nodup_map h.unique ha hb hd

theorem node_inj (ha : a ∈ nodes) (hb : b ∈ nodes) (hnode : a.node = b.node) : a = b :=
  h.digest_inj ha hb (congrArg DependencyNodeV1.artifactDigest hnode)

theorem position_inj {p q : Nat} (ha : nodes[p]? = some a) (hb : nodes[q]? = some b)
    (hnode : a.node = b.node) : p = q := by
  cases h.node_inj (mem_of_getElem? ha) (mem_of_getElem? hb) hnode
  have hp := (h.index (digestOf a) p).mpr ⟨a, ha, rfl⟩
  have hq := (h.index (digestOf a) q).mpr ⟨a, hb, rfl⟩
  exact Option.some.inj (hp.symm.trans hq)

theorem declared_eq_some {coordinate : DependencyNodeV1} {p : Nat} :
    declared nodes byDigest coordinate = some (p, node) ↔ nodes[p]? = some node ∧ node.node = coordinate := by
  unfold declared
  simp only [Option.bind_eq_bind, Option.bind_eq_some_iff, Option.ite_none_right_eq_some, Option.some.injEq,
    Prod.mk.injEq]
  constructor
  · rintro ⟨q, -, other, hother, hcoord, rfl, rfl⟩
    exact ⟨hother, hcoord⟩
  · rintro ⟨hp, rfl⟩
    exact ⟨p, (h.index _ p).mpr ⟨node, hp, rfl⟩, node, hp, rfl, rfl, rfl⟩

end NodesValid

end Piglor.Counterfactual
