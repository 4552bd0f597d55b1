import Mathlib.Data.List.Sort
import Unimatrix.Graph.Typed
import Unimatrix.Lib.F64

/-!
# Personalized PageRank

Model of `personalized_pagerank` of `graph_ppr.rs`. Sums are made in the order the program makes them, since
nothing is assumed of addition.

The scores are those of the nodes of the graph: **`personalizedPagerank_node`**.
-/

namespace Unimatrix

open TypedRelationGraph

section

variable {F : Type} [F64 F]

/-- The relation types the scores flow along, in the order the program sums over them. -/
def pprTypes : List RelationType := [.supports, .coAccess, .prerequisite, .informs, .relatedTo]

/-- The edges of those types that leave a node. -/
def pprEdges (graph : TypedRelationGraph) (o : EdgeOrder) (nodeIdx : Nat) : List IndexedEdge :=
  pprTypes.flatMap fun t => graph.edgesOfType o nodeIdx t .outgoing

/-- `positive_out_degree_weight`. -/
def positiveOutDegreeWeight (graph : TypedRelationGraph) (o : EdgeOrder) (nodeIdx : Nat) : F :=
  (pprEdges graph o nodeIdx).foldl (fun total e => total + F64.ofF32 e.2.weight) 0

/-- `outgoing_contribution`. -/
def outgoingContribution (currentScores : HashMap Nat F) (e : IndexedEdge) (outDegree : F)
    (graph : TypedRelationGraph) : F :=
  let targetScore := (currentScores.lookup (graph.idAt e.1.2)).getD 0
  if targetScore = 0 then 0 else targetScore * F64.ofF32 e.2.weight / outDegree

/-- What flows to a node. -/
def neighborContribution (graph : TypedRelationGraph) (o : EdgeOrder) (currentScores : HashMap Nat F)
    (nodeIdx : Nat) : F :=
  let outDegree := positiveOutDegreeWeight graph o nodeIdx
  if 0 < outDegree then
    (pprEdges graph o nodeIdx).foldl
      (fun sum e => sum + outgoingContribution currentScores e outDegree graph) 0
  else 0

/-- The next score of a node; `none` would be an id without a node. -/
def nextScore (graph : TypedRelationGraph) (o : EdgeOrder) (seedScores : HashMap Nat F) (alpha : F)
    (currentScores : HashMap Nat F) (nodeId : Nat) : Option (Nat × F) :=
  (graph.nodeIndexFor nodeId).map fun nodeIdx =>
    (nodeId, (1 - alpha) * (seedScores.lookup nodeId).getD 0 +
      alpha * neighborContribution graph o currentScores nodeIdx)

/-- `all_node_ids`. -/
def allNodeIds (graph : TypedRelationGraph) : List Nat := graph.nodeIndex.keys.insertionSort (· ≤ ·)

/-- One iteration. -/
def pprStep (graph : TypedRelationGraph) (o : EdgeOrder) (seedScores : HashMap Nat F) (alpha : F)
    (currentScores : HashMap Nat F) : HashMap Nat F :=
  HashMap.collect ((allNodeIds graph).filterMap (nextScore graph o seedScores alpha currentScores))

/-- `personalized_pagerank`. -/
def personalizedPagerank (graph : TypedRelationGraph) (o : EdgeOrder) (seedScores : HashMap Nat F)
    (alpha : F) (iterations : Nat) : HashMap Nat F :=
  if seedScores.entries.isEmpty ∨ graph.nodeIndex.entries.isEmpty then ∅
  else
    (pprStep graph o seedScores alpha)^[iterations]
      (HashMap.collect ((allNodeIds graph).map fun id => (id, (seedScores.lookup id).getD 0)))

/-! ## What has a score -/

/-- Only nodes have a score. -/
def ScoresNodes (graph : TypedRelationGraph) (scores : HashMap Nat F) : Prop :=
  ∀ id score, scores.lookup id = some score → (graph.nodeIndexFor id).isSome = true

theorem pprStep_scoresNodes (graph : TypedRelationGraph) (o : EdgeOrder) (seedScores : HashMap Nat F)
    (alpha : F) (currentScores : HashMap Nat F) :
    ScoresNodes graph (pprStep graph o seedScores alpha currentScores) := by
  intro id score h
  obtain ⟨nodeId, -, hnext⟩ := List.mem_filterMap.mp (HashMap.mem_of_lookup_collect h)
  unfold nextScore at hnext
  obtain ⟨nodeIdx, hidx, heq⟩ := Option.map_eq_some_iff.mp hnext
  cases heq
  rw [hidx, Option.isSome_some]

/-- **A score is the score of a node.** -/
theorem personalizedPagerank_node {graph : TypedRelationGraph} {o : EdgeOrder}
    {seedScores : HashMap Nat F} {alpha : F} {iterations : Nat} :
    ScoresNodes graph (personalizedPagerank graph o seedScores alpha iterations) := by
  unfold personalizedPagerank
  split
  · intro id score h
    cases h
  · cases iterations with
    | zero =>
      intro id score h
      obtain ⟨nodeId, hmem, heq⟩ := List.mem_map.mp (HashMap.mem_of_lookup_collect h)
      cases heq
      rw [allNodeIds, List.mem_insertionSort] at hmem
      exact AList.lookup_isSome.mpr hmem
    | succ n =>
      rw [Function.iterate_succ_apply']
      exact pprStep_scoresNodes graph o seedScores alpha _

end

end Unimatrix
