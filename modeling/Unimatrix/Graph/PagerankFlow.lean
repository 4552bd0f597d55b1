import Unimatrix.Graph.ExpandLayers
import Unimatrix.Graph.Pagerank
import Unimatrix.Graph.Terminal
import Mathlib.Algebra.BigOperators.Group.List.Basic
import Mathlib.Algebra.BigOperators.Ring.List
import Mathlib.Algebra.Order.BigOperators.Group.List
import Mathlib.Algebra.Order.Field.Basic
import Mathlib.Tactic.Linarith
import Mathlib.Tactic.Ring
import Mathlib.Data.Finset.Max

/-!
# Where the scores of PageRank come from

`personalized_pagerank` over ℚ.

* `weightedMean`: what flows to a node is a mean of the scores it points to, or nothing where the weights
  are all zero.
* `idFlows`: the edges a score flows along, by ids, so that their order does not matter
  (`nextScore_eq`).
* **`personalizedPagerank_spec`**: scores stay between 0 and the largest seed score; a node scores after `k`
  iterations exactly if a path of at most `k` edges of positive weight leads from it to a seed that scores
  (`FlowEdge`); the order in which nodes and edges were added does not matter. An edge of weight zero carries
  nothing (`zeroWeight_carries_nothing`).
-/

namespace Unimatrix

open Digraph TypedRelationGraph

/-! ## Weighted means -/

section Mean

variable {α : Type} {l l' : List α} {w s : α → Rat}

/-- The mean of `s` with the weights `w`; zero where no weight is positive. -/
def weightedMean (l : List α) (w s : α → Rat) : Rat :=
  if 0 < (l.map w).sum then (l.map fun e => s e * w e / (l.map w).sum).sum else 0

theorem weightedMean_perm (h : l.Perm l') : weightedMean l w s = weightedMean l' w s := by
  unfold weightedMean
  rw [(h.map w).sum_eq, (h.map fun e => s e * w e / (l'.map w).sum).sum_eq]

theorem weightedMean_nonneg (hw : ∀ e ∈ l, 0 ≤ w e) (hs : ∀ e ∈ l, 0 ≤ s e) : 0 ≤ weightedMean l w s := by
  unfold weightedMean
  split
  · rename_i hpos
    refine List.sum_nonneg fun x hx => ?_
    obtain ⟨e, he, rfl⟩ := List.mem_map.mp hx
    exact div_nonneg (mul_nonneg (hs e he) (hw e he)) hpos.le
  · exact le_refl _

/-- A mean does not exceed a bound on what it is taken of. -/
theorem weightedMean_le {bound : Rat} (hb : 0 ≤ bound) (hw : ∀ e ∈ l, 0 ≤ w e)
    (hs : ∀ e ∈ l, s e ≤ bound) : weightedMean l w s ≤ bound := by
  unfold weightedMean
  split
  · rename_i hpos
    have hsplit : (l.map fun e => s e * w e / (l.map w).sum).sum =
        (l.map fun e => s e * w e).sum / (l.map w).sum := by
      simp only [div_eq_mul_inv]
      exact List.sum_map_mul_right _ _ _
    have hle : (l.map fun e => s e * w e).sum ≤ bound * (l.map w).sum := by
      rw [← List.sum_map_mul_left]
      exact List.sum_le_sum fun e he => mul_le_mul_of_nonneg_right (hs e he) (hw e he)
    rw [hsplit, div_le_iff₀ hpos]
    exact hle
  · exact hb

/-- A mean is zero unless something with a positive weight is not. -/
theorem weightedMean_ne_zero_iff (hw : ∀ e ∈ l, 0 ≤ w e) (hs : ∀ e ∈ l, 0 ≤ s e) :
    weightedMean l w s ≠ 0 ↔ ∃ e ∈ l, 0 < w e ∧ s e ≠ 0 := by
  constructor
  · intro hne
    by_contra hnone
    push Not at hnone
    apply hne
    unfold weightedMean
    split
    · refine List.sum_eq_zero fun x hx => ?_
      obtain ⟨e, he, rfl⟩ := List.mem_map.mp hx
      rcases (hw e he).eq_or_lt with hzero | hpos
      · rw [← hzero, mul_zero, zero_div]
      · rw [hnone e he hpos, zero_mul, zero_div]
    · rfl
  · rintro ⟨e, he, hpos, hne⟩
    have hwl : ∀ x ∈ l.map w, 0 ≤ x := by
      intro x hx
      obtain ⟨e, he, rfl⟩ := List.mem_map.mp hx
      exact hw e he
    have hsum : 0 < (l.map w).sum :=
      hpos.trans_le (List.single_le_sum hwl _ (List.mem_map_of_mem he))
    have hterms : ∀ x ∈ l.map fun e => s e * w e / (l.map w).sum, 0 ≤ x := by
      intro x hx
      obtain ⟨e, he, rfl⟩ := List.mem_map.mp hx
      exact div_nonneg (mul_nonneg (hs e he) (hw e he)) hsum.le
    have hterm : 0 < s e * w e / (l.map w).sum :=
      div_pos (mul_pos ((hs e he).lt_of_ne (Ne.symm hne)) hpos) hsum
    unfold weightedMean
    rw [if_pos hsum]
    exact (hterm.trans_le (List.single_le_sum hterms _ (List.mem_map_of_mem he))).ne'

end Mean

/-! ## Flows -/

section Flow

variable {graph : TypedRelationGraph} {o : EdgeOrder}

/-- The weight of an edge. -/
def flowWeight (e : IdEdge) : Rat := F64.ofF32 e.2.weight

/-- The edges a score flows along to the node, by ids. -/
def idFlows (graph : TypedRelationGraph) (id : Nat) : List IdEdge :=
  pprTypes.flatMap fun t => graph.edgesById.filter fun e => e.1.1 = id ∧ e.2.relationType = t.asStr

theorem pprEdges_perm (hg : graph.Keyed) {id i : Nat} (hi : graph.nodeIndexFor id = some i) :
    ((pprEdges graph o i).map fun e => ((graph.idAt e.1.1, graph.idAt e.1.2), e.2)).Perm
      (idFlows graph id) := by
  unfold pprEdges idFlows
  rw [List.map_flatMap]
  refine List.Perm.flatMap_left _ fun t _ => ?_
  unfold edgesOfType edgesById
  rw [List.filter_map]
  refine List.Perm.map _ ?_
  refine (((o.perm _).filter _).trans ?_)
  rw [List.filter_filter]
  refine List.Perm.of_eq (List.filter_congr fun e he => ?_)
  have hend : graph.idAt e.1.1 = id ↔ e.1.1 = i := by
    have hidx := hg.nodeIndexFor_idAt (hg.ends e he).1
    constructor
    · intro heq
      rw [heq, hi] at hidx
      exact (Option.some.inj hidx).symm
    · intro heq
      rw [heq]
      exact hg.idAt hi
  unfold touches
  simp only [Function.comp_apply, hend, Bool.decide_and, Bool.and_comm]

/-- A score, zero where there is none. -/
def scoreOf (scores : HashMap Nat Rat) (id : Nat) : Rat := (scores.lookup id).getD 0

/-- What flows to a node, by ids. -/
def flowTo (graph : TypedRelationGraph) (scores : HashMap Nat Rat) (id : Nat) : Rat :=
  weightedMean (idFlows graph id) flowWeight fun e => scoreOf scores e.1.2

theorem foldl_add_eq_sum {α : Type} (f : α → Rat) (l : List α) (a : Rat) :
    l.foldl (fun sum e => sum + f e) a = a + (l.map f).sum := by
  induction l generalizing a with
  | nil => simp
  | cons e l ih =>
    rw [List.foldl_cons, ih, List.map_cons, List.sum_cons, add_assoc]

theorem outgoingContribution_eq (scores : HashMap Nat Rat) (e : IndexedEdge) (outDegree : Rat) :
    outgoingContribution scores e outDegree graph =
      scoreOf scores (graph.idAt e.1.2) * F64.ofF32 e.2.weight / outDegree := by
  unfold outgoingContribution scoreOf
  dsimp only
  split
  · rename_i h
    have hzero : (0 : Rat) * F64.ofF32 e.2.weight / outDegree = 0 := by rw [zero_mul, zero_div]
    rw [h]
    exact hzero.symm
  · rfl

/-- What flows to a node is a mean over its edges. -/
theorem neighborContribution_eq (hg : graph.Keyed) {id i : Nat} (hi : graph.nodeIndexFor id = some i)
    (scores : HashMap Nat Rat) : neighborContribution graph o scores i = flowTo graph scores id := by
  have hdeg : positiveOutDegreeWeight graph o i =
      ((pprEdges graph o i).map fun e => (F64.ofF32 e.2.weight : Rat)).sum := by
    unfold positiveOutDegreeWeight
    exact (foldl_add_eq_sum (fun e : IndexedEdge => (F64.ofF32 e.2.weight : Rat)) _ 0).trans (zero_add _)
  have hsum : ∀ d : Rat, (pprEdges graph o i).foldl
      (fun sum e => sum + outgoingContribution scores e d graph) 0 =
        ((pprEdges graph o i).map fun e => outgoingContribution scores e d graph).sum := fun d =>
    (foldl_add_eq_sum (fun e : IndexedEdge => outgoingContribution scores e d graph) _ 0).trans (zero_add _)
  unfold flowTo
  rw [← weightedMean_perm (pprEdges_perm (o := o) hg hi)]
  unfold weightedMean neighborContribution
  rw [List.map_map, List.map_map, hdeg]
  dsimp only
  rw [hsum]
  simp only [outgoingContribution_eq]
  rfl

/-! ## Iterations -/

theorem mem_allNodeIds (hg : graph.Keyed) {id : Nat} : id ∈ allNodeIds graph ↔ id ∈ graph.nodes := by
  unfold allNodeIds
  rw [List.mem_insertionSort, hg.mem_nodes_iff, ← Option.isSome_iff_exists]
  exact AList.lookup_isSome.symm

/-- The next score of a node. -/
def nextValue (graph : TypedRelationGraph) (seedScores : HashMap Nat Rat) (alpha : Rat)
    (scores : HashMap Nat Rat) (id : Nat) : Rat :=
  (1 - alpha) * scoreOf seedScores id + alpha * flowTo graph scores id

theorem nextScore_eq (hg : graph.Keyed) {id : Nat} (hid : id ∈ graph.nodes)
    (seedScores scores : HashMap Nat Rat) (alpha : Rat) :
    nextScore graph o seedScores alpha scores id = some (id, nextValue graph seedScores alpha scores id) := by
  obtain ⟨i, hi⟩ := hg.mem_nodes_iff.mp hid
  unfold nextScore nextValue
  rw [hi, Option.map_some, neighborContribution_eq hg hi]
  rfl

theorem lookup_pprStep (hg : graph.Keyed) (seedScores scores : HashMap Nat Rat) (alpha : Rat) (id : Nat) :
    (pprStep graph o seedScores alpha scores).lookup id =
      if id ∈ graph.nodes then some (nextValue graph seedScores alpha scores id) else none := by
  have hmap : (allNodeIds graph).filterMap (nextScore graph o seedScores alpha scores) =
      (allNodeIds graph).map fun id => (id, nextValue graph seedScores alpha scores id) := by
    rw [← List.filterMap_eq_map]
    refine List.filterMap_congr fun id hid => ?_
    rw [nextScore_eq hg ((mem_allNodeIds hg).mp hid)]
    rfl
  unfold pprStep
  rw [hmap, HashMap.lookup_collect_keyed]
  simp only [mem_allNodeIds hg]

/-- The scores after `k` iterations, where something is to be scored. -/
def pprScores (graph : TypedRelationGraph) (o : EdgeOrder) (seedScores : HashMap Nat Rat) (alpha : Rat)
    (k : Nat) : HashMap Nat Rat :=
  (pprStep graph o seedScores alpha)^[k]
    (HashMap.collect ((allNodeIds graph).map fun id => (id, (seedScores.lookup id).getD 0)))

/-- The scores after `k` iterations, by ids. -/
def pprValue (graph : TypedRelationGraph) (seedScores : HashMap Nat Rat) (alpha : Rat) : Nat → Nat → Rat
  | 0, id => if id ∈ graph.nodes then scoreOf seedScores id else 0
  | k + 1, id =>
    if id ∈ graph.nodes then
      (1 - alpha) * scoreOf seedScores id +
        alpha * weightedMean (idFlows graph id) flowWeight fun e =>
          pprValue graph seedScores alpha k e.1.2
    else 0

theorem lookup_pprScores (hg : graph.Keyed) (seedScores : HashMap Nat Rat) (alpha : Rat) (k id : Nat) :
    (pprScores graph o seedScores alpha k).lookup id =
      if id ∈ graph.nodes then some (pprValue graph seedScores alpha k id) else none := by
  induction k generalizing id with
  | zero =>
    unfold pprScores
    rw [Function.iterate_zero_apply, HashMap.lookup_collect_keyed (fun id => (seedScores.lookup id).getD 0)]
    simp only [mem_allNodeIds hg]
    unfold pprValue scoreOf
    by_cases hid : id ∈ graph.nodes <;> simp [hid]
  | succ k ih =>
    have hstep : pprScores graph o seedScores alpha (k + 1) =
        pprStep graph o seedScores alpha (pprScores graph o seedScores alpha k) :=
      Function.iterate_succ_apply' _ _ _
    have hscore : ∀ id, scoreOf (pprScores graph o seedScores alpha k) id =
        pprValue graph seedScores alpha k id := by
      intro id
      unfold scoreOf
      rw [ih]
      by_cases hid : id ∈ graph.nodes
      · simp [hid]
      · cases k <;> simp [hid, pprValue]
    rw [hstep, lookup_pprStep hg]
    unfold nextValue flowTo
    by_cases hid : id ∈ graph.nodes
    · rw [if_pos hid, if_pos hid]
      conv_rhs => rw [pprValue, if_pos hid]
      simp only [hscore]
    · rw [if_neg hid, if_neg hid]

/-! ## Bounds and support -/

theorem mem_idFlows {id : Nat} {e : IdEdge} :
    e ∈ idFlows graph id ↔
      e ∈ graph.edgesById ∧ e.1.1 = id ∧ ∃ t ∈ pprTypes, e.2.relationType = RelationType.asStr t := by
  unfold idFlows
  simp only [List.mem_flatMap, List.mem_filter, decide_eq_true_eq]
  constructor
  · rintro ⟨t, ht, he, hid, htype⟩
    exact ⟨he, hid, t, ht, htype⟩
  · rintro ⟨he, hid, t, ht, htype⟩
    exact ⟨t, ht, he, hid, htype⟩

theorem Keyed.end_mem_nodes (hg : graph.Keyed) {e : IdEdge} (he : e ∈ graph.edgesById) :
    e.1.2 ∈ graph.nodes := by
  obtain ⟨e', he', rfl⟩ := List.mem_map.mp he
  exact hg.mem_nodes_iff.mpr ⟨_, hg.nodeIndexFor_idAt (hg.ends e' he').2⟩

/-- A positive edge with a positive weight leads from `u` to `w`. -/
def FlowEdge (graph : TypedRelationGraph) (u w : Nat) : Prop :=
  ∃ e ∈ idFlows graph u, e.1.2 = w ∧ 0 < flowWeight e

/-- No weight is negative. -/
def Weighted (graph : TypedRelationGraph) : Prop :=
  ∀ e ∈ graph.edges, 0 ≤ (F64.ofF32 e.2.weight : Rat)

theorem Weighted.flowWeight_nonneg (hw : Weighted graph) {id : Nat} :
    ∀ e ∈ idFlows graph id, 0 ≤ flowWeight e := by
  intro e he
  obtain ⟨e', he', rfl⟩ := List.mem_map.mp (mem_idFlows.mp he).1
  exact hw e' he'

variable {seedScores : HashMap Nat Rat} {alpha : Rat}

theorem pprValue_nonneg (hw : Weighted graph) (hs : ∀ id, 0 ≤ scoreOf seedScores id) (h0 : 0 < alpha)
    (h1 : alpha < 1) (k id : Nat) : 0 ≤ pprValue graph seedScores alpha k id := by
  induction k generalizing id with
  | zero =>
    unfold pprValue
    split
    · exact hs id
    · exact le_refl _
  | succ k ih =>
    unfold pprValue
    split
    · refine add_nonneg (mul_nonneg (sub_nonneg.mpr h1.le) (hs id)) (mul_nonneg h0.le ?_)
      exact weightedMean_nonneg hw.flowWeight_nonneg fun e _ => ih e.1.2
    · exact le_refl _

/-- Each score is a mean of scores, so it stays within a bound on the seeds. -/
theorem pprValue_le (hw : Weighted graph) {bound : Rat} (hb : 0 ≤ bound)
    (hs : ∀ id, scoreOf seedScores id ≤ bound) (h0 : 0 < alpha) (h1 : alpha < 1) (k id : Nat) :
    pprValue graph seedScores alpha k id ≤ bound := by
  induction k generalizing id with
  | zero =>
    unfold pprValue
    split
    · exact hs id
    · exact hb
  | succ k ih =>
    unfold pprValue
    split
    · have hseed : (1 - alpha) * scoreOf seedScores id ≤ (1 - alpha) * bound :=
        mul_le_mul_of_nonneg_left (hs id) (sub_nonneg.mpr h1.le)
      have hflow := mul_le_mul_of_nonneg_left
        (weightedMean_le (l := idFlows graph id) hb hw.flowWeight_nonneg fun e _ => ih e.1.2) h0.le
      calc _ ≤ (1 - alpha) * bound + alpha * bound := add_le_add hseed hflow
        _ = bound := by ring
    · exact hb

/-- **What scores**: by induction on the iterations, one edge for each. -/
theorem pprValue_ne_zero_iff (hg : graph.Keyed) (hw : Weighted graph) (hs : ∀ id, 0 ≤ scoreOf seedScores id) (h0 : 0 < alpha)
    (h1 : alpha < 1) (k id : Nat) :
    pprValue graph seedScores alpha k id ≠ 0 ↔ id ∈ graph.nodes ∧ ∃ n ≤ k, ∃ seed, seed ∈ graph.nodes ∧
      scoreOf seedScores seed ≠ 0 ∧ Walk (FlowEdge graph) id n seed := by
  induction k generalizing id with
  | zero =>
    unfold pprValue
    by_cases hid : id ∈ graph.nodes
    · rw [if_pos hid]
      constructor
      · exact fun hne => ⟨hid, 0, le_refl _, id, hid, hne, .refl⟩
      · rintro ⟨-, n, hn, seed, -, hne, hwalk⟩
        obtain rfl := Nat.le_zero.mp hn
        rwa [walk_zero_iff.mp hwalk] at hne
    · simp [hid]
  | succ k ih =>
    unfold pprValue
    by_cases hid : id ∈ graph.nodes
    · rw [if_pos hid]
      have hflow : 0 ≤ weightedMean (idFlows graph id) flowWeight
          fun e => pprValue graph seedScores alpha k e.1.2 :=
        weightedMean_nonneg hw.flowWeight_nonneg fun e _ => pprValue_nonneg hw hs h0 h1 k e.1.2
      have hsplit : (1 - alpha) * scoreOf seedScores id + alpha * weightedMean (idFlows graph id) flowWeight
            (fun e => pprValue graph seedScores alpha k e.1.2) ≠ 0 ↔
          scoreOf seedScores id ≠ 0 ∨ weightedMean (idFlows graph id) flowWeight
            (fun e => pprValue graph seedScores alpha k e.1.2) ≠ 0 := by
        rw [Ne, add_eq_zero_iff_of_nonneg (mul_nonneg (sub_nonneg.mpr h1.le) (hs id))
          (mul_nonneg h0.le hflow), mul_eq_zero, mul_eq_zero, sub_eq_zero, not_and_or, not_or, not_or]
        simp [h0.ne', h1.ne']
      rw [hsplit, weightedMean_ne_zero_iff hw.flowWeight_nonneg
        fun e _ => pprValue_nonneg hw hs h0 h1 k e.1.2]
      constructor
      · rintro (hne | ⟨e, he, hpos, hne⟩)
        · exact ⟨hid, 0, Nat.zero_le _, id, hid, hne, .refl⟩
        · obtain ⟨-, n, hn, seed, hseed, hscore, hwalk⟩ := (ih e.1.2).mp hne
          exact ⟨hid, n + 1, Nat.succ_le_succ hn, seed, hseed, hscore, hwalk.cons ⟨e, he, rfl, hpos⟩⟩
      · rintro ⟨-, n, hn, seed, hseed, hscore, hwalk⟩
        cases n with
        | zero =>
          rw [walk_zero_iff.mp hwalk] at hscore
          exact .inl hscore
        | succ n =>
          obtain ⟨w, ⟨e, he, rfl, hpos⟩, hrest⟩ := hwalk.uncons
          have hend : e.1.2 ∈ graph.nodes := Keyed.end_mem_nodes hg (mem_idFlows.mp he).1
          exact .inr ⟨e, he, hpos, (ih _).mpr ⟨hend, n, by omega, seed, hseed, hscore, hrest⟩⟩
    · simp [hid]

/-! ## The order of nodes and edges -/

theorem idFlows_perm {graph' : TypedRelationGraph} (h : SameGraph graph graph') (id : Nat) :
    (idFlows graph id).Perm (idFlows graph' id) :=
  List.Perm.flatMap_left _ fun _ _ => h.edges.filter _

theorem pprValue_sameGraph {graph' : TypedRelationGraph} (h : SameGraph graph graph') (k id : Nat) :
    pprValue graph seedScores alpha k id = pprValue graph' seedScores alpha k id := by
  induction k generalizing id with
  | zero =>
    unfold pprValue
    simp only [h.nodes.mem_iff]
  | succ k ih =>
    unfold pprValue
    simp only [h.nodes.mem_iff, weightedMean_perm (idFlows_perm h id), ih]

end Flow

/-! ## PageRank -/

/-- Non-negative scores of the seeds, with sum 1. -/
structure SeedScores where
  scores : HashMap Nat Rat
  nonneg : ∀ id score, scores.lookup id = some score → 0 ≤ score
  sum : (scores.pairs.map Prod.snd).sum = 1

namespace SeedScores

variable (seeds : SeedScores)

theorem pairs_ne_nil : seeds.scores.pairs ≠ [] := by
  intro hnil
  have hsum := seeds.sum
  rw [hnil] at hsum
  exact absurd hsum (by decide)

theorem scoreOf_nonneg (id : Nat) : 0 ≤ scoreOf seeds.scores id := by
  unfold scoreOf
  cases h : seeds.scores.lookup id with
  | none => exact le_refl _
  | some score => exact seeds.nonneg id score h

/-- Some seed has the largest score. -/
theorem exists_largest : ∃ seed m, seeds.scores.lookup seed = some m ∧
    ∀ id, scoreOf seeds.scores id ≤ m := by
  obtain ⟨⟨seed, m⟩, hmem, hmax⟩ :=
    seeds.scores.pairs.toFinset.exists_max_image Prod.snd (List.toFinset_nonempty_iff _ |>.mpr seeds.pairs_ne_nil)
  have hseed := HashMap.mem_pairs.mp (List.mem_toFinset.mp hmem)
  refine ⟨seed, m, hseed, fun id => ?_⟩
  unfold scoreOf
  cases h : seeds.scores.lookup id with
  | none => exact seeds.nonneg seed m hseed
  | some score => exact hmax (id, score) (List.mem_toFinset.mpr (HashMap.mem_pairs.mpr h))

end SeedScores

/-- A damping factor. -/
structure Damping where
  alpha : Rat
  pos : 0 < alpha
  lt_one : alpha < 1

/-- A graph without negative weights. -/
structure WeightedGraph extends KeyedGraph where
  weighted : Weighted graph

theorem lookup_personalizedPagerank {graph : TypedRelationGraph} (hg : graph.Keyed) (o : EdgeOrder)
    (seeds : SeedScores) (alpha : Rat) (k id : Nat) :
    (personalizedPagerank graph o seeds.scores alpha k).lookup id =
      if id ∈ graph.nodes then some (pprValue graph seeds.scores alpha k id) else none := by
  have hseeds : ¬ seeds.scores.entries.isEmpty = true := by
    intro hempty
    apply seeds.pairs_ne_nil
    unfold HashMap.pairs
    rw [List.isEmpty_iff.mp hempty, List.map_nil]
  unfold personalizedPagerank
  by_cases hnodes : graph.nodes = []
  · rw [if_pos (.inr (hg.nodeIndex_isEmpty_iff.mpr hnodes)), if_neg]
    · rfl
    · rw [hnodes]
      exact List.not_mem_nil
  · have hindex := mt hg.nodeIndex_isEmpty_iff.mp hnodes
    rw [if_neg (not_or.mpr ⟨hseeds, hindex⟩)]
    exact lookup_pprScores hg seeds.scores alpha k id

/-- **The scores of PageRank** over ℚ: exactly the nodes have one, it is at least zero and at most that of
some seed, it is not zero exactly on the nodes from which at most `k` edges of positive weight lead to a seed
that scores, and it does not depend on the order of nodes and edges. -/
theorem personalizedPagerank_spec (g : WeightedGraph) (o : EdgeOrder) (seeds : SeedScores) (d : Damping)
    (k : Nat) :
    (∀ id, id ∈ g.graph.nodes ↔
      ∃ score, (personalizedPagerank g.graph o seeds.scores d.alpha k).lookup id = some score) ∧
    (∀ id score, (personalizedPagerank g.graph o seeds.scores d.alpha k).lookup id = some score →
      0 ≤ score ∧ (∃ seed m, seeds.scores.lookup seed = some m ∧ score ≤ m) ∧
      (score ≠ 0 ↔ ∃ n ≤ k, ∃ seed, seed ∈ g.graph.nodes ∧ scoreOf seeds.scores seed ≠ 0 ∧
        Walk (FlowEdge g.graph) id n seed)) ∧
    ∀ (g' : WeightedGraph) (o' : EdgeOrder), SameGraph g.graph g'.graph → ∀ id,
      (personalizedPagerank g.graph o seeds.scores d.alpha k).lookup id =
        (personalizedPagerank g'.graph o' seeds.scores d.alpha k).lookup id := by
  obtain ⟨seed, m, hseed, hmax⟩ := seeds.exists_largest
  refine ⟨fun id => ?_, fun id score hscore => ?_, fun g' o' hsame id => ?_⟩
  · rw [lookup_personalizedPagerank g.keyed]
    by_cases hid : id ∈ g.graph.nodes <;> simp [hid]
  · rw [lookup_personalizedPagerank g.keyed] at hscore
    obtain ⟨hid, hvalue⟩ := Option.ite_none_right_eq_some.mp hscore
    cases hvalue
    have hiff := pprValue_ne_zero_iff g.keyed g.weighted seeds.scoreOf_nonneg d.pos d.lt_one k id
    refine ⟨pprValue_nonneg g.weighted seeds.scoreOf_nonneg d.pos d.lt_one k id, ⟨seed, m, hseed, ?_⟩, ?_⟩
    · exact pprValue_le g.weighted (seeds.nonneg seed m hseed) hmax d.pos d.lt_one k id
    · rw [hiff]
      exact and_iff_right hid
  · rw [lookup_personalizedPagerank g.keyed, lookup_personalizedPagerank g'.keyed, pprValue_sameGraph hsame]
    simp only [hsame.nodes.mem_iff]

/-! ## An edge without weight -/

/-- Entry 1 supports entry 2, with weight zero. -/
def zeroWeight : WeightedGraph where
  graph := assemble [version 1 .active none none, version 2 .active none none]
    [⟨1, 2, "Supports", 0, 0, "", "", false⟩]
  keyed := keyed_assemble (by decide)
  weighted := by
    unfold Weighted
    decide +kernel

/-- Entry 2 is the only seed. -/
def soleSeed : SeedScores where
  scores := HashMap.collect [(2, 1)]
  nonneg := by
    intro id score h
    have heq := List.mem_singleton.mp (HashMap.mem_of_lookup_collect h)
    rw [(Prod.mk.inj heq).2]
    decide
  sum := by decide +kernel

/-- A positive edge leads from entry 1 to the seed, and nothing flows along it. -/
theorem zeroWeight_carries_nothing :
    ¬ ∀ (g : WeightedGraph) (o : EdgeOrder) (seeds : SeedScores) (d : Damping) (k id : Nat) (score : Rat),
      (personalizedPagerank g.graph o seeds.scores d.alpha k).lookup id = some score →
      (score ≠ 0 ↔ ∃ n ≤ k, ∃ seed, seed ∈ g.graph.nodes ∧ scoreOf seeds.scores seed ≠ 0 ∧
        Walk (PositiveEdge g.graph) id n seed) := by
  intro hclaim
  have hiff := hclaim zeroWeight .stored soleSeed ⟨1 / 2, by decide +kernel, by decide +kernel⟩ 1 1 0
    (by decide +kernel)
  have hedge : PositiveEdge zeroWeight.graph 1 2 :=
    ⟨((1, 2), ⟨"Supports", 0, 0, "", "", false⟩), by decide +kernel, rfl, .supports, by decide, by decide⟩
  exact hiff.mpr ⟨1, le_refl _, 2, by decide +kernel, by decide +kernel, .snoc .refl hedge⟩ rfl

end Unimatrix
