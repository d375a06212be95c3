/-
The verdict on the edges of a graph. An edge that its rules refuse and a declared input without an
accepted edge share one key order; the scan keeps the least refused edge, the gaps come out of the nodes
in key order, so the least of both is found by comparing two keys.
-/
import PiglorProofs.Counterfactual.Seeds

namespace Piglor.Counterfactual

open Checked List

variable {blake3 : ByteHash} {bindings : PlanBindings} {nodes : List DependencyGraphNodeV1}
  {byDigest : Table Hash Nat} {edges : List InputDependencyV1}

/-! ## Edges -/

section

variable (bindings nodes byDigest edges)

def Accepted (edge : InputDependencyV1) : Prop :=
  edge ∈ edges ∧ ∃ positions, validateEdge bindings nodes byDigest edge = .ok positions

def Refused (edge : InputDependencyV1) (error : DependencyGraphErrorV1) : Prop :=
  edge ∈ edges ∧ validateEdge bindings nodes byDigest edge = .error error

/-- The key of a required edge that no accepted edge stands for. -/
def Gap (key : UnknownEdgeCoordinateV1) : Prop :=
  ∃ node ∈ nodes, key.consumer = node.node ∧ match key.missingSourceDigest with
    | none => node.nodeClass = .endogenousRecomputed ∧ node.origin = .provisional ∧ node.inputDigests = []
    | some source => source ∈ node.inputDigests ∧
      ∀ edge, Accepted bindings nodes byDigest edges edge → edge.consumer = node.node →
        edge.source.artifactDigest ≠ source

end

variable {edge : InputDependencyV1}

/-- An accepted edge joins two declared nodes, the source among the consumer's inputs. -/
theorem NodesValid.validateEdge_eq_ok (h : NodesValid bindings nodes byDigest) {s c : Nat} :
    validateEdge bindings nodes byDigest edge = .ok (s, c) ↔ ∃ source consumer, nodes[s]? = some source ∧
      source.node = edge.source ∧ nodes[c]? = some consumer ∧ consumer.node = edge.consumer ∧
      digestOf source ∈ consumer.inputDigests ∧ checkEdgeRules bindings consumer source edge = .ok () := by
  unfold validateEdge
  constructor
  · intro hok
    rcases hconsumer : declared nodes byDigest edge.consumer with _ | ⟨c', consumer⟩
    · rw [hconsumer] at hok
      cases hok
    rcases hsource : declared nodes byDigest edge.source with _ | ⟨s', source⟩
    · rw [hconsumer, hsource] at hok
      cases hok
    rw [hconsumer, hsource] at hok
    obtain ⟨hc, hcnode⟩ := h.declared_eq_some.mp hconsumer
    obtain ⟨hs, hsnode⟩ := h.declared_eq_some.mp hsource
    by_cases hinput : (Bisect.binarySearchBy (fun digest => cmp digest edge.source.artifactDigest)
        consumer.inputDigests).isSome = true
    · obtain ⟨⟨⟩, hrules, hpair⟩ := map_eq_ok.mp ((if_pos hinput).symm.trans hok)
      cases hpair
      have hasc := (h.valid consumer (mem_of_getElem? hc)).inputs_ascending
      obtain ⟨d, hd, hdigest⟩ := (Bisect.binarySearchBy_isSome (hasc.imp le_of_lt)).mp hinput
      refine ⟨source, consumer, hs, hsnode, hc, hcnode, ?_, hrules⟩
      rw [digestOf, hsnode]
      exact hdigest ▸ hd
    · cases (if_neg hinput).symm.trans hok
  · rintro ⟨source, consumer, hs, hsnode, hc, hcnode, hinput, hrules⟩
    rw [h.declared_eq_some.mpr ⟨hc, hcnode⟩, h.declared_eq_some.mpr ⟨hs, hsnode⟩]
    have hasc := (h.valid consumer (mem_of_getElem? hc)).inputs_ascending
    have hfound : (Bisect.binarySearchBy (fun digest => cmp digest edge.source.artifactDigest)
        consumer.inputDigests).isSome = true :=
      (@Bisect.binarySearchBy_isSome Hash Hash _ _ id _ (hasc.imp le_of_lt)).mpr
        ⟨_, hinput, by rw [id, digestOf, hsnode]⟩
    dsimp only
    rw [if_pos hfound, hrules]
    rfl

/-! ## The scan -/

/-- The scan keeps the refused edge of the least key. -/
def LeastRefused (bindings : PlanBindings) (nodes : List DependencyGraphNodeV1) (byDigest : Table Hash Nat)
    (edges : List InputDependencyV1) : Option KeyedEdgeError → Prop
  | none => ∀ edge error, ¬ Refused bindings nodes byDigest edges edge error
  | some (key, error) => (∃ edge, Refused bindings nodes byDigest edges edge error ∧ edgeCoordinate edge = key) ∧
    ∀ edge error', Refused bindings nodes byDigest edges edge error' → key ≤ edgeCoordinate edge

variable {error : DependencyGraphErrorV1} {outgoing : List (Nat × Nat)} {key : UnknownEdgeCoordinateV1}
  {present : List (Hash × Hash)} {node : DependencyGraphNodeV1} {other : InputDependencyV1}

theorem refused_concat :
    Refused bindings nodes byDigest (edges ++ [edge]) other error ↔ Refused bindings nodes byDigest edges other error ∨
      (other = edge ∧ validateEdge bindings nodes byDigest edge = .error error) := by
  unfold Refused
  rw [mem_append, mem_singleton]
  constructor
  · rintro ⟨hmem | rfl, herror⟩
    · exact .inl ⟨hmem, herror⟩
    · exact .inr ⟨rfl, herror⟩
  · rintro (⟨hmem, herror⟩ | ⟨rfl, herror⟩)
    · exact ⟨.inl hmem, herror⟩
    · exact ⟨.inr rfl, herror⟩

theorem leastRefused_scan (edges : List InputDependencyV1) :
    LeastRefused bindings nodes byDigest edges (edges.foldl (scanEdge bindings nodes byDigest) ([], none)).2 := by
  induction edges using reverseRecOn with
  | nil => exact fun edge error h => absurd h.1 not_mem_nil
  | append_singleton edges edge ih =>
    rw [foldl_append, foldl_cons, foldl_nil, scanEdge]
    generalize edges.foldl (scanEdge bindings nodes byDigest) ([], none) = state at ih ⊢
    obtain ⟨outgoing, first⟩ := state
    rcases hedge : validateEdge bindings nodes byDigest edge with error | positions
    · -- a refused edge: the new key is less than all before it, or the old one stays
      have hnew : Refused bindings nodes byDigest (edges ++ [edge]) edge error :=
        refused_concat.mpr (.inr ⟨rfl, hedge⟩)
      rcases first with _ | ⟨key, first⟩
      · refine ⟨⟨edge, hnew, rfl⟩, fun other error' hother => ?_⟩
        rcases refused_concat.mp hother with hother | ⟨rfl, -⟩
        · exact absurd hother (ih other error')
        · exact le_refl _
      · obtain ⟨⟨old, hold, rfl⟩, hleast⟩ := ih
        by_cases hlt : edgeCoordinate edge < edgeCoordinate old
        · simp only [Option.all_some, decide_eq_true hlt, if_true]
          refine ⟨⟨edge, hnew, rfl⟩, fun other error' hother => ?_⟩
          rcases refused_concat.mp hother with hother | ⟨rfl, -⟩
          · exact hlt.le.trans (hleast other error' hother)
          · exact le_refl _
        · simp only [Option.all_some, decide_eq_false hlt, Bool.false_eq_true, if_false]
          refine ⟨⟨old, refused_concat.mpr (.inl hold), rfl⟩, fun other error' hother => ?_⟩
          rcases refused_concat.mp hother with hother | ⟨rfl, -⟩
          · exact hleast other error' hother
          · exact not_lt.mp hlt
    · have hold : ∀ other error, Refused bindings nodes byDigest (edges ++ [edge]) other error ↔
          Refused bindings nodes byDigest edges other error := by
        intro other error
        rw [refused_concat, or_iff_left]
        rintro ⟨-, herror⟩
        cases hedge.symm.trans herror
      rcases first with _ | ⟨key, first⟩
      · exact fun other error hother => ih other error ((hold other error).mp hother)
      · obtain ⟨⟨old, hrefused, hkey⟩, hleast⟩ := ih
        exact ⟨⟨old, (hold old first).mpr hrefused, hkey⟩,
          fun other error' hother => hleast other error' ((hold other error').mp hother)⟩

/-- The scan records the positions of the accepted edges. -/
theorem mem_outgoing_scan {pair : Nat × Nat} (edges : List InputDependencyV1) :
    pair ∈ (edges.foldl (scanEdge bindings nodes byDigest) ([], none)).1 ↔
      ∃ edge ∈ edges, validateEdge bindings nodes byDigest edge = .ok pair := by
  induction edges using reverseRecOn with
  | nil => simp
  | append_singleton edges edge ih =>
    rw [foldl_append, foldl_cons, foldl_nil, scanEdge]
    generalize edges.foldl (scanEdge bindings nodes byDigest) ([], none) = state at ih ⊢
    have hconcat : (∃ other ∈ edges ++ [edge], validateEdge bindings nodes byDigest other = .ok pair) ↔
        pair ∈ state.1 ∨ validateEdge bindings nodes byDigest edge = .ok pair := by
      rw [ih]
      simp [or_and_right, exists_or]
    rw [hconcat]
    rcases validateEdge bindings nodes byDigest edge with error | positions
    · dsimp only
      split <;> simp
    · simp [eq_comm]

theorem validateEdges_eq {digests : List Hash} (hdigests : edges.mapM (InputDependencyV1.digest blake3) = .ok digests)
    (horder : validateInputDependencyListOrderV1 edges = .ok ()) :
    validateEdges blake3 bindings nodes byDigest edges = .ok ⟨digests,
      (edges.foldl (scanEdge bindings nodes byDigest) ([], none)).1.insertionSort fun left right => toLex left ≤ toLex right,
      (edges.foldl (scanEdge bindings nodes byDigest) ([], none)).2⟩ := by
  unfold validateEdges
  rw [hdigests, horder]
  rfl

/-! ## The gaps -/

theorem mem_presentEdges (h : NodesValid bindings nodes byDigest)
    (hout : ∀ pair, pair ∈ outgoing ↔ ∃ edge ∈ edges, validateEdge bindings nodes byDigest edge = .ok pair)
    {consumer source : Hash} : (consumer, source) ∈ presentEdges nodes outgoing ↔
      ∃ edge, Accepted bindings nodes byDigest edges edge ∧ edge.consumer.artifactDigest = consumer ∧
        edge.source.artifactDigest = source := by
  unfold presentEdges
  rw [mem_filterMap]
  constructor
  · rintro ⟨⟨s, c⟩, hpair, hsome⟩
    obtain ⟨edge, hedge, hok⟩ := (hout _).mp hpair
    obtain ⟨sn, cn, hs, hsnode, hc, hcnode, -, -⟩ := h.validateEdge_eq_ok.mp hok
    rw [hs, hc] at hsome
    cases hsome
    exact ⟨edge, ⟨hedge, _, hok⟩, by rw [hcnode], by rw [hsnode]⟩
  · rintro ⟨edge, ⟨hedge, ⟨s, c⟩, hok⟩, rfl, rfl⟩
    obtain ⟨sn, cn, hs, hsnode, hc, hcnode, -, -⟩ := h.validateEdge_eq_ok.mp hok
    refine ⟨(s, c), (hout _).mpr ⟨edge, hedge, hok⟩, ?_⟩
    rw [hs, hc, ← hcnode, ← hsnode]
    rfl

open UnknownEdgeCoordinateV1

theorem mem_nodeGaps : key ∈ nodeGaps present node ↔ key.consumer = node.node ∧ match key.missingSourceDigest with
      | none => node.nodeClass = .endogenousRecomputed ∧ node.origin = .provisional ∧ node.inputDigests = []
      | some source => source ∈ node.inputDigests ∧ (node.node.artifactDigest, source) ∉ present := by
  obtain ⟨consumer, source⟩ := key
  unfold nodeGaps gap
  rw [mem_append]
  rcases source with _ | source
  · by_cases hclosure : node.nodeClass = .endogenousRecomputed ∧ node.origin = .provisional ∧ node.inputDigests = []
    · obtain ⟨hclass, horigin, hinputs⟩ := hclosure
      simp [hclass, horigin, hinputs]
    · have hfalse : (decide (node.nodeClass = .endogenousRecomputed) && decide (node.origin = .provisional) &&
          node.inputDigests.isEmpty) = false := by
        simpa [and_assoc] using hclosure
      simp [hfalse, hclosure]
  · have hno : (⟨consumer, some source⟩ : UnknownEdgeCoordinateV1) ∉
        (if decide (node.nodeClass = .endogenousRecomputed) && decide (node.origin = .provisional) &&
          node.inputDigests.isEmpty then [(⟨node.node, none⟩ : UnknownEdgeCoordinateV1)] else []) := by
      split <;> simp
    simp only [hno, false_or, mem_map, mem_filter, decide_eq_true_eq, mk.injEq,
      Option.some.injEq]
    constructor
    · rintro ⟨d, ⟨hd, hpresent⟩, rfl, rfl⟩
      exact ⟨rfl, hd, hpresent⟩
    · rintro ⟨rfl, hd, hpresent⟩
      exact ⟨source, ⟨hd, hpresent⟩, rfl, rfl⟩

theorem mem_gaps (h : NodesValid bindings nodes byDigest)
    (hout : ∀ pair, pair ∈ outgoing ↔ ∃ edge ∈ edges, validateEdge bindings nodes byDigest edge = .ok pair) :
    key ∈ nodes.flatMap (nodeGaps (presentEdges nodes outgoing)) ↔
      Gap bindings nodes byDigest edges key := by
  rw [mem_flatMap]
  refine exists_congr fun node => and_congr_right fun hnode => ?_
  rw [mem_nodeGaps]
  refine and_congr_right fun _ => ?_
  rcases key.missingSourceDigest with _ | source
  · exact Iff.rfl
  · refine and_congr_right fun _ => ?_
    rw [mem_presentEdges h hout]
    constructor
    · intro hnone edge haccepted hconsumer hsource
      exact hnone ⟨edge, haccepted, by rw [hconsumer], hsource⟩
    · rintro hnone ⟨edge, haccepted, hconsumer, hsource⟩
      -- the accepted edge's consumer has this digest, so it is this node
      obtain ⟨hedge, ⟨s, c⟩, hok⟩ := haccepted
      obtain ⟨sn, cn, -, -, hc, hcnode, -, -⟩ := h.validateEdge_eq_ok.mp hok
      have hcn : cn = node := h.digest_inj (mem_of_getElem? hc) hnode (by rw [digestOf, hcnode, hconsumer]; rfl)
      exact hnone edge ⟨hedge, _, hok⟩ (by rw [← hcnode, hcn]) hsource

/-- Within one node the unidentified source stands alone, the others ascend by digest. -/
theorem strict_nodeGaps (h : Ascending.Strict id node.inputDigests) : Ascending.Strict id (nodeGaps present node) := by
  have hsources : Ascending.Strict id ((node.inputDigests.filter fun source =>
      decide ((node.node.artifactDigest, source) ∉ present)).map fun source => gap node (some source)) := by
    refine pairwise_map.mpr ((h.sublist filter_sublist).imp fun hlt => ?_)
    exact lt_iff.mpr (.inr ⟨rfl, WithBot.coe_lt_coe.mpr hlt⟩)
  unfold nodeGaps
  rcases hinputs : node.inputDigests with _ | ⟨digest, digests⟩
  · rw [filter_nil, map_nil, append_nil]
    split
    · exact pairwise_singleton _ _
    · exact .nil
  · rw [hinputs] at hsources
    simpa using hsources

theorem strict_gaps (h : NodesValid bindings nodes byDigest) (present : List (Hash × Hash)) :
    Ascending.Strict id (nodes.flatMap (nodeGaps present)) := by
  refine pairwise_flatMap.mpr ⟨fun node hnode => strict_nodeGaps (h.valid node hnode).inputs_ascending, ?_⟩
  refine h.ascending.imp fun hlt left hleft right hright => lt_iff.mpr (.inl ?_)
  show left.consumer < right.consumer
  rw [(mem_nodeGaps.mp hleft).1, (mem_nodeGaps.mp hright).1]
  exact DependencyNodeV1.lt_of_coordinateKey_lt hlt

/-! ## The verdict -/

section

variable (bindings nodes byDigest edges)

/-- The verdict at a key: the error of the edge refused there, or else of the gap there. -/
def Verdict (key : UnknownEdgeCoordinateV1) (error : DependencyGraphErrorV1) : Prop :=
  (∃ edge, Refused bindings nodes byDigest edges edge error ∧ edgeCoordinate edge = key) ∨
    Gap bindings nodes byDigest edges key ∧ error = .dependencyGraphIncomplete key ∧
      ∀ edge error', Refused bindings nodes byDigest edges edge error' → edgeCoordinate edge ≠ key

def LeastVerdict (key : UnknownEdgeCoordinateV1) (error : DependencyGraphErrorV1) : Prop :=
  Verdict bindings nodes byDigest edges key error ∧
    ∀ key' error', Verdict bindings nodes byDigest edges key' error' → key ≤ key'

end

variable {key' : UnknownEdgeCoordinateV1}

theorem Verdict.key_le (h : Verdict bindings nodes byDigest edges key' error)
    (hrefused : ∀ edge error', Refused bindings nodes byDigest edges edge error' → key ≤ edgeCoordinate edge)
    (hgaps : ∀ gap, Gap bindings nodes byDigest edges gap → key ≤ gap) : key ≤ key' := by
  rcases h with ⟨edge, hedge, rfl⟩ | ⟨hgap, -, -⟩
  · exact hrefused edge error hedge
  · exact hgaps key' hgap

section

variable (horder : Ascending.Strict InputDependencyV1.edgeOrderKey edges)

include horder

/-- The order of the edge list gives no key twice. -/
theorem edgeCoordinate_inj (hedge : edge ∈ edges) (hother : other ∈ edges)
    (hkey : edgeCoordinate edge = edgeCoordinate other) : edge = other := by
  obtain ⟨hconsumer, hsource⟩ := mk.inj hkey
  refine horder.key_inj hedge hother ?_
  rw [InputDependencyV1.edgeOrderKey, InputDependencyV1.edgeOrderKey, hconsumer, Option.some.inj hsource]

variable {error' : DependencyGraphErrorV1}

theorem Verdict.error_eq
    (h : Verdict bindings nodes byDigest edges key error) (h' : Verdict bindings nodes byDigest edges key error') :
    error = error' := by
  rcases h with ⟨edge, hedge, hkey⟩ | ⟨-, rfl, hno⟩ <;> rcases h' with ⟨edge', hedge', hkey'⟩ | ⟨-, rfl, hno'⟩
  · cases edgeCoordinate_inj horder hedge.1 hedge'.1 (hkey.trans hkey'.symm)
    exact Except.error.inj (hedge.2.symm.trans hedge'.2)
  · exact absurd hkey (hno' edge error hedge)
  · exact absurd hkey' (hno edge' error' hedge')
  · rfl

theorem LeastVerdict.error_eq
    (h : LeastVerdict bindings nodes byDigest edges key error) (h' : LeastVerdict bindings nodes byDigest edges key' error') :
    error = error' := by
  have hkey : key = key' := le_antisymm (h.2 key' error' h'.1) (h'.2 key error h.1)
  subst hkey
  exact h.1.error_eq horder h'.1

end

section Missing

variable {first : Option KeyedEdgeError} (hfirst : LeastRefused bindings nodes byDigest edges first)
  (hgaps : ∀ key, key ∈ nodes.flatMap (nodeGaps (presentEdges nodes outgoing)) ↔ Gap bindings nodes byDigest edges key)
  (hstrict : Ascending.Strict id (nodes.flatMap (nodeGaps (presentEdges nodes outgoing))))

include hfirst hgaps hstrict

/-- Comparing the least refused edge with the first gap finds the least verdict. -/
theorem missingEdges_reject :
    (missingEdges .reject nodes outgoing first = .ok [] ∧
      (∀ edge error, ¬ Refused bindings nodes byDigest edges edge error) ∧
      ∀ key, ¬ Gap bindings nodes byDigest edges key) ∨
    ∃ key error, missingEdges .reject nodes outgoing first = .error error ∧
      LeastVerdict bindings nodes byDigest edges key error := by
  unfold missingEdges
  generalize nodes.flatMap (nodeGaps (presentEdges nodes outgoing)) = gaps at hgaps hstrict ⊢
  rcases first with _ | ⟨edgeKey, edgeError⟩ <;> rcases gaps with _ | ⟨gapKey, gaps⟩
  · exact .inl ⟨rfl, hfirst, fun key hkey => not_mem_nil ((hgaps key).mpr hkey)⟩
  · refine .inr ⟨gapKey, _, rfl, .inr ⟨(hgaps gapKey).mp mem_cons_self, rfl, ?_⟩, fun key' error' h => ?_⟩
    · exact fun edge error hedge => absurd hedge (hfirst edge error)
    · refine h.key_le (fun edge error hedge => absurd hedge (hfirst edge error)) fun gap hgap => ?_
      exact hstrict.head_le ((hgaps gap).mpr hgap)
  · refine .inr ⟨edgeKey, edgeError, rfl, .inl hfirst.1, fun key' error' h => ?_⟩
    exact h.key_le hfirst.2 fun gap hgap => absurd ((hgaps gap).mpr hgap) not_mem_nil
  · have hhead : ∀ gap, Gap bindings nodes byDigest edges gap → gapKey ≤ gap :=
      fun gap hgap => hstrict.head_le ((hgaps gap).mpr hgap)
    by_cases hlt : gapKey < edgeKey
    · refine .inr ⟨gapKey, _, if_pos hlt, .inr ⟨(hgaps gapKey).mp mem_cons_self, rfl, ?_⟩, fun key' error' h => ?_⟩
      · rintro edge error hedge rfl
        exact absurd hlt (not_lt.mpr (hfirst.2 edge error hedge))
      · exact h.key_le (fun edge error hedge => hlt.le.trans (hfirst.2 edge error hedge)) hhead
    · refine .inr ⟨edgeKey, edgeError, if_neg hlt, .inl hfirst.1, fun key' error' h => ?_⟩
      exact h.key_le hfirst.2 fun gap hgap => (not_lt.mp hlt).trans (hhead gap hgap)

end Missing

theorem missingEdges_fullSuffixFromCut {gaps : List UnknownEdgeCoordinateV1}
    (hgaps : nodes.flatMap (nodeGaps (presentEdges nodes outgoing)) = gaps) :
    missingEdges .fullSuffixFromCut nodes outgoing none =
      if maxUnknownEdgeCoordinates < gaps.length then .error .resourceLimitExceeded else .ok gaps := by
  unfold missingEdges
  dsimp only
  rw [hgaps, length_take]
  by_cases hlength : maxUnknownEdgeCoordinates < gaps.length
  · rw [if_pos hlength, if_pos]
    exact lt_min (Nat.lt_succ_self _) hlength
  · rw [if_neg hlength, if_neg, take_of_length_le (by omega)]
    exact fun h => hlength (h.trans_le (Nat.min_le_right _ _))

/-- Edges in order reach the gap stage with the least refused edge and the accepted positions. -/
theorem validateDependencyGraphV1_eq {plan : CounterfactualPlanV1} {bounds : DependencyGraphBoundsV1}
    (hbounds : checkWorkBounds bounds nodes edges = .ok ()) (hplan : PlanBindings.new blake3 plan = .ok bindings)
    (hnodes : validateNodes bindings nodes = .ok byDigest) (hedges : validateInputDependencyOrderV1 edges = .ok ()) :
    ∃ (outgoing : List (Nat × Nat)) (first : Option KeyedEdgeError)
      (graph : List UnknownEdgeCoordinateV1 → ValidatedDependencyGraphV1),
      (∀ pair, pair ∈ outgoing ↔ ∃ edge ∈ edges, validateEdge bindings nodes byDigest edge = .ok pair) ∧
      LeastRefused bindings nodes byDigest edges first ∧ (∀ gaps, (graph gaps).unknownEdgeCoordinates = gaps) ∧
      validateDependencyGraphV1 blake3 plan bounds nodes edges =
        (missingEdges plan.unknownEdgePolicy nodes outgoing first).map graph := by
  obtain ⟨⟨⟩, hvalid, horder⟩ := bind_eq_ok.mp hedges
  have hdigests : edges.mapM (InputDependencyV1.digest blake3) = .ok (edges.map fun edge =>
      domainDigest blake3 "PiglorOS.InputDependency.v1" (encodeValue edge.encode)) := by
    refine mapM_eq_ok.mpr (forall₂_map_right_iff.mpr (forall₂_same.mpr fun edge hedge => ?_))
    rw [InputDependencyV1.digest, forM_eq_ok.mp hvalid edge hedge, ok_bind]
  unfold validateDependencyGraphV1
  rw [hbounds, hplan]
  simp only [Except.mapError, ok_bind, hnodes, validateEdges_eq hdigests horder]
  refine ⟨_, _, _, fun pair => ?_, leastRefused_scan edges, fun _ => rfl, bind_pure_comp _ _⟩
  rw [mem_insertionSort]
  exact mem_outgoing_scan edges

/-- The verdict on the edges does not depend on the scan: refusal reports the least key of a refused edge
or a gap, the edge first; the full suffix reports the least refused edge and otherwise records the gaps. -/
theorem canonical_edge_verdict (blake3 : ByteHash) (plan : CounterfactualPlanV1)
    (bounds : DependencyGraphBoundsV1) (nodes : List DependencyGraphNodeV1) (edges : List InputDependencyV1)
    (bindings : PlanBindings) (byDigest : Table Hash Nat) (hplan : PlanBindings.new blake3 plan = .ok bindings)
    (hnodes : validateNodes bindings nodes = .ok byDigest) (hedges : validateInputDependencyOrderV1 edges = .ok ()) :
    (∀ error, checkWorkBounds bounds nodes edges = .error error →
      validateDependencyGraphV1 blake3 plan bounds nodes edges = .error error) ∧
    (checkWorkBounds bounds nodes edges = .ok () →
      (plan.unknownEdgePolicy = .reject →
        ((∃ graph, validateDependencyGraphV1 blake3 plan bounds nodes edges = .ok graph) ↔
          (∀ edge error, ¬ Refused bindings nodes byDigest edges edge error) ∧
            ∀ key, ¬ Gap bindings nodes byDigest edges key) ∧
        ∀ error, validateDependencyGraphV1 blake3 plan bounds nodes edges = .error error ↔
          ∃ key, LeastVerdict bindings nodes byDigest edges key error) ∧
      (plan.unknownEdgePolicy = .fullSuffixFromCut →
        ((∃ edge error, Refused bindings nodes byDigest edges edge error) →
          ∃ key error, LeastRefused bindings nodes byDigest edges (some (key, error)) ∧
            validateDependencyGraphV1 blake3 plan bounds nodes edges = .error error) ∧
        ((∀ edge error, ¬ Refused bindings nodes byDigest edges edge error) →
          ∃ gaps, Ascending.Strict id gaps ∧ (∀ key, key ∈ gaps ↔ Gap bindings nodes byDigest edges key) ∧
            (validateDependencyGraphV1 blake3 plan bounds nodes edges = .error .resourceLimitExceeded ↔
              maxUnknownEdgeCoordinates < gaps.length) ∧
            (gaps.length ≤ maxUnknownEdgeCoordinates → ∃ graph,
              validateDependencyGraphV1 blake3 plan bounds nodes edges = .ok graph ∧
                graph.unknownEdgeCoordinates = gaps)))) := by
  refine ⟨fun error hbounds => ?_, fun hbounds => ?_⟩
  · unfold validateDependencyGraphV1
    rw [hbounds, error_bind]
  obtain ⟨outgoing, first, graph, hout, hfirst, hgraph, hvalidate⟩ :=
    validateDependencyGraphV1_eq hbounds hplan hnodes hedges
  obtain ⟨-, hvalid⟩ := validateNodes_eq_ok hnodes
  have horder := of_check hedges
  have horder := (Ascending.check_eq_ok _ _).mp horder
  have hgaps : ∀ key, key ∈ nodes.flatMap (nodeGaps (presentEdges nodes outgoing)) ↔
      Gap bindings nodes byDigest edges key := fun key => mem_gaps hvalid hout
  have hstrict := strict_gaps hvalid (presentEdges nodes outgoing)
  rw [hvalidate]
  refine ⟨fun hpolicy => ?_, fun hpolicy => ?_⟩
  · rw [hpolicy]
    rcases missingEdges_reject hfirst hgaps hstrict with ⟨hok, hnone, hno⟩ | ⟨key, error, herror, hleast⟩
    · rw [hok]
      refine ⟨⟨fun _ => ⟨hnone, hno⟩, fun _ => ⟨_, rfl⟩⟩, fun error => ⟨fun h => (by cases h), ?_⟩⟩
      rintro ⟨key, ⟨edge, hedge, -⟩ | ⟨hgap, -⟩, -⟩
      · exact absurd hedge (hnone edge error)
      · exact absurd hgap (hno key)
    · rw [herror]
      refine ⟨⟨fun ⟨_, h⟩ => (by cases h), fun ⟨hnone, hno⟩ => ?_⟩, fun error' => ⟨fun h => ?_, ?_⟩⟩
      · rcases hleast.1 with ⟨edge, hedge, -⟩ | ⟨hgap, -⟩
        · exact absurd hedge (hnone edge error)
        · exact absurd hgap (hno key)
      · cases h
        exact ⟨key, hleast⟩
      · rintro ⟨key', hleast'⟩
        rw [hleast.error_eq horder hleast']
        rfl
  · rw [hpolicy]
    rcases first with _ | ⟨key, error⟩
    · refine ⟨fun ⟨edge, error, hedge⟩ => absurd hedge (hfirst edge error), fun _ => ⟨_, hstrict, hgaps, ?_⟩⟩
      rw [missingEdges_fullSuffixFromCut rfl]
      split_ifs with hlength
      · exact ⟨⟨fun _ => hlength, fun _ => rfl⟩, fun h => absurd hlength (not_lt.mpr h)⟩
      · exact ⟨⟨fun h => (by cases h), fun h => absurd h hlength⟩, fun _ => ⟨_, rfl, hgraph _⟩⟩
    · obtain ⟨edge, hedge, -⟩ := hfirst.1
      exact ⟨fun _ => ⟨key, error, hfirst, rfl⟩, fun hnone => absurd hedge (hnone edge error)⟩

def recomputedNode : DependencyGraphNodeV1 where
  node := ⟨12, 0, "owner", 0, 7, 8⟩
  nodeClass := .endogenousRecomputed
  origin := .provisional
  inputDigests := [assignedNode.node.artifactDigest]
  provenanceDigest := 9

/-- The edge that the node declares. -/
def causeEdge : InputDependencyV1 where
  consumer := recomputedNode.node
  source := assignedNode.node
  dependencyClass := .interventionAssigned
  tickRange := ⟨11, 12⟩
  authorizationDigest := 3
  classificationRule := ⟨"rule", 1⟩
  provenanceDigest := 9

/-- The edge under a class that its source does not have. -/
def misclassifiedEdge : InputDependencyV1 := { causeEdge with dependencyClass := .fixedPolicy }

/-- A misclassified edge leaves a gap at its own key, and its error wins. -/
theorem misclassifiedEdge_verdict : ∃ bindings byDigest,
    PlanBindings.new spellingHash onePlan = .ok bindings ∧
    validateNodes bindings [assignedNode, recomputedNode] = .ok byDigest ∧
    (∃ key, LeastVerdict bindings [assignedNode, recomputedNode] byDigest [misclassifiedEdge] key
      (.classRuleViolation (edgeCoordinate causeEdge))) ∧
    ∀ key, ¬ Gap bindings [assignedNode, recomputedNode] byDigest [causeEdge] key := by
  have haccepted : ((PlanBindings.new spellingHash onePlan).map fun bindings =>
      (validateNodes bindings [assignedNode, recomputedNode]).isOk) = .ok true := by decide +kernel
  obtain ⟨bindings, hplan, hok⟩ := map_eq_ok.mp haccepted
  rcases hnodes : validateNodes bindings [assignedNode, recomputedNode] with error | byDigest
  · rw [hnodes] at hok
    cases hok
  refine ⟨bindings, byDigest, hplan, hnodes, ?_, ?_⟩
  · have hverdict := (canonical_edge_verdict spellingHash onePlan ⟨10, 10⟩ _ [misclassifiedEdge] bindings byDigest hplan
      hnodes (by decide +kernel)).2 (by decide +kernel)
    have herror : (validateDependencyGraphV1 spellingHash onePlan ⟨10, 10⟩ [assignedNode, recomputedNode]
        [misclassifiedEdge]).map (fun _ => ()) = .error (.classRuleViolation (edgeCoordinate causeEdge)) := by
      decide +kernel
    refine ((hverdict.1 rfl).2 _).mp ?_
    generalize validateDependencyGraphV1 spellingHash onePlan ⟨10, 10⟩ _ [misclassifiedEdge] = result at herror ⊢
    cases result with
    | error error => exact congrArg _ (Except.error.inj herror)
    | ok graph => cases herror
  · have hverdict := (canonical_edge_verdict spellingHash onePlan ⟨10, 10⟩ _ [causeEdge] bindings byDigest hplan
      hnodes (by decide +kernel)).2 (by decide +kernel)
    have hok : (validateDependencyGraphV1 spellingHash onePlan ⟨10, 10⟩ [assignedNode, recomputedNode]
        [causeEdge]).map (fun _ => ()) = .ok () := by
      decide +kernel
    obtain ⟨graph, hgraph, -⟩ := map_eq_ok.mp hok
    exact ((hverdict.1 rfl).1.mp ⟨graph, hgraph⟩).2

end Piglor.Counterfactual
