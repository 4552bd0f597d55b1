import Unimatrix.Graph.Build
import Unimatrix.Graph.Expand
import Unimatrix.Lib.Layers
import Mathlib.Data.Set.Card

/-!
# What an expansion leaves out

`graph_expand` as a breadth-first search over ids (`PositiveEdge`), against `Layers`.

* `expandNeighbors_eq`: the neighbors of a node are a function of the edges, in whatever order they come, so
  the loop is one of the graph as a set of nodes and edges (`graphExpand_congr`).
* **`graphExpand_closest`**: within the budget the expansion is the set of nodes 1 to `depth` edges away from
  the seeds. Beyond it, it fills the budget with nodes of that set, and none that it leaves out is nearer
  than one it returns.
-/

namespace Unimatrix

open Digraph TypedRelationGraph

/-! ## Sorted ids -/

theorem destutter_spec {a : Nat} {l : List Nat} (h : (a :: l).Pairwise (· ≤ ·)) :
    (l.destutter' (· ≠ ·) a).Pairwise (· < ·) ∧ ∀ x, x ∈ l.destutter' (· ≠ ·) a ↔ x ∈ a :: l := by
  induction l generalizing a with
  | nil => exact ⟨List.pairwise_singleton _ _, fun _ => Iff.rfl⟩
  | cons b l ih =>
    obtain ⟨ha, hl⟩ := List.pairwise_cons.mp h
    by_cases hab : a = b
    · subst hab
      have hneg : ¬ a ≠ a := fun hne => hne rfl
      rw [List.destutter'_cons_neg (h := hneg)]
      refine ⟨(ih hl).1, fun x => ?_⟩
      rw [(ih hl).2]
      simp
    · rw [List.destutter'_cons_pos (h := hab)]
      obtain ⟨hsorted, hmem⟩ := ih hl
      refine ⟨List.pairwise_cons.mpr ⟨fun x hx => ?_, hsorted⟩, fun x => ?_⟩
      · have hb : b ≤ x := by
          rcases List.mem_cons.mp ((hmem x).mp hx) with rfl | hx
          · exact Nat.le_refl _
          · exact List.rel_of_pairwise_cons hl hx
        have hle := ha b List.mem_cons_self
        omega
      · rw [List.mem_cons, hmem, List.mem_cons (b := a)]

theorem sortDedup_spec (ids : List Nat) :
    (sortDedup ids).Pairwise (· < ·) ∧ ∀ x, x ∈ sortDedup ids ↔ x ∈ ids := by
  have hsorted := List.pairwise_insertionSort (· ≤ ·) ids
  have hmem : ∀ x, x ∈ ids.insertionSort (· ≤ ·) ↔ x ∈ ids := fun x => List.mem_insertionSort _
  unfold sortDedup
  cases hl : ids.insertionSort (· ≤ ·) with
  | nil =>
    rw [hl] at hmem
    exact ⟨List.Pairwise.nil, hmem⟩
  | cons a l =>
    rw [hl] at hsorted hmem
    obtain ⟨h₁, h₂⟩ := destutter_spec hsorted
    exact ⟨h₁, fun x => (h₂ x).trans (hmem x)⟩

/-! ## Positive edges -/

/-- An edge of a type that the expansion follows leads from `u` to `w`. -/
def PositiveEdge (graph : TypedRelationGraph) (u w : Nat) : Prop :=
  ∃ e ∈ graph.edgesById, e.1 = (u, w) ∧ ∃ t ∈ expandTypes, e.2.relationType = RelationType.asStr t

theorem mem_expandNeighbors {graph : TypedRelationGraph} (hg : graph.Keyed) {o : EdgeOrder} {u i w : Nat}
    (hi : graph.nodeIndexFor u = some i) : w ∈ expandNeighbors graph o i ↔ PositiveEdge graph u w := by
  unfold expandNeighbors PositiveEdge
  rw [(sortDedup_spec _).2]
  simp only [List.mem_map, List.mem_flatMap, mem_edgesOfType]
  constructor
  · rintro ⟨e, ⟨t, ht, hmem, htouch, htype⟩, rfl⟩
    have hend : e.1.1 = i := of_decide_eq_true htouch
    refine ⟨_, List.mem_map_of_mem hmem, ?_, t, ht, htype⟩
    dsimp only
    rw [hend, hg.idAt hi]
  · rintro ⟨_, hmem, heq, t, ht, htype⟩
    obtain ⟨e, he, rfl⟩ := List.mem_map.mp hmem
    obtain ⟨hu, hw⟩ := Prod.mk.inj heq
    refine ⟨e, ⟨t, ht, he, decide_eq_true ?_, htype⟩, hw⟩
    have hidx := hg.nodeIndexFor_idAt (hg.ends e he).1
    rw [hu, hi] at hidx
    exact (Option.some.inj hidx).symm

/-- A positive edge starts at a node. -/
theorem PositiveEdge.node {graph : TypedRelationGraph} (hg : graph.Keyed) {u w : Nat}
    (h : PositiveEdge graph u w) : ∃ i, graph.nodeIndexFor u = some i := by
  obtain ⟨_, hmem, heq, -⟩ := h
  obtain ⟨e, he, rfl⟩ := List.mem_map.mp hmem
  obtain ⟨rfl, -⟩ := Prod.mk.inj heq
  exact ⟨_, hg.nodeIndexFor_idAt (hg.ends e he).1⟩

/-! ## One node -/

section Search

variable {graph : TypedRelationGraph} {o : EdgeOrder} {seedIds : List Nat} {depth maxCandidates : Nat}

/-- The search of an expansion, with the node that is being expanded still at the head of its queue. -/
abbrev Expanding (graph : TypedRelationGraph) (seedIds : List Nat) (depth : Nat) (queue : List (Nat × Nat))
    (s : Expansion) : Prop :=
  Layers (PositiveEdge graph) (· ∈ seedIds) depth queue (· ∈ s.visited)

/-- What was visited is a seed or a result. -/
def Expansion.Accounted (seedIds : List Nat) (s : Expansion) : Prop :=
  ∀ v, v ∈ s.visited ↔ v ∈ seedIds ∨ v ∈ s.result

theorem Expansion.Accounted.add {s : Expansion} (h : s.Accounted seedIds) (d w : Nat) :
    (s.add d w).Accounted seedIds := by
  intro v
  unfold Expansion.add
  rw [List.mem_cons, List.mem_append, List.mem_singleton, h v]
  tauto

variable (maxCandidates) in
/-- The `for` over the neighbors of the head: all of them were visited, or the budget is spent. -/
theorem expandScan_layers {v d : Nat} (hd : d < depth) {neighbors : List Nat} {s : Expansion}
    (hs : Expanding graph seedIds depth ((v, d) :: s.queue) s) (hacc : s.Accounted seedIds)
    (hedges : ∀ w ∈ neighbors, PositiveEdge graph v w) :
    Expanding graph seedIds depth ((v, d) :: (expandScan maxCandidates d neighbors s).1.queue)
        (expandScan maxCandidates d neighbors s).1 ∧
      (expandScan maxCandidates d neighbors s).1.Accounted seedIds ∧
      (∀ u ∈ s.visited, u ∈ (expandScan maxCandidates d neighbors s).1.visited) ∧
      ((expandScan maxCandidates d neighbors s).2 = true →
        maxCandidates ≤ (expandScan maxCandidates d neighbors s).1.result.length) ∧
      ((expandScan maxCandidates d neighbors s).2 = false →
        ∀ w ∈ neighbors, w ∈ (expandScan maxCandidates d neighbors s).1.visited) := by
  induction neighbors generalizing s with
  | nil =>
    unfold expandScan
    exact ⟨hs, hacc, fun _ hu => hu, (fun h => by cases h), fun _ w hw => absurd hw List.not_mem_nil⟩
  | cons w neighbors ih =>
    have hrest : ∀ w ∈ neighbors, PositiveEdge graph v w := fun x hx => hedges x (List.mem_cons_of_mem _ hx)
    unfold expandScan
    by_cases hfull : maxCandidates ≤ s.result.length
    · rw [if_pos hfull]
      exact ⟨hs, hacc, fun _ hu => hu, fun _ => hfull, (fun h => by cases h)⟩
    · rw [if_neg hfull]
      by_cases hw : w ∈ s.visited
      · rw [if_pos (List.contains_iff_mem.mpr hw)]
        obtain ⟨hlayers, hacc', hkept, hbroke, hall⟩ := ih hs hacc hrest
        refine ⟨hlayers, hacc', hkept, hbroke, fun h => List.forall_mem_cons.mpr ⟨hkept w hw, hall h⟩⟩
      · rw [if_neg (fun hc => hw (List.contains_iff_mem.mp hc))]
        have hadd : Expanding graph seedIds depth ((v, d) :: (s.add (d + 1) w).queue) (s.add (d + 1) w) :=
          (hs.visit (hedges w List.mem_cons_self) hw hd).of_iff fun u => by
            unfold Expansion.add
            rw [List.mem_cons, or_comm]
        obtain ⟨hlayers, hacc', hkept, hbroke, hall⟩ := ih hadd (hacc.add _ _) hrest
        refine ⟨hlayers, hacc', fun u hu => hkept u (List.mem_cons_of_mem _ hu), hbroke, fun h => ?_⟩
        exact List.forall_mem_cons.mpr ⟨hkept w List.mem_cons_self, hall h⟩

/-! ## The loop -/

/-- A node 1 to `depth` edges away from the seeds. -/
def Near (graph : TypedRelationGraph) (seedIds : List Nat) (depth id : Nat) : Prop :=
  ∃ n, 1 ≤ n ∧ n ≤ depth ∧ Depth (PositiveEdge graph) (· ∈ seedIds) n id

/-- How an expansion ends: it has everything, or its budget is spent on what is nearest. -/
def Ended (graph : TypedRelationGraph) (seedIds : List Nat) (depth maxCandidates : Nat)
    (result : List Nat) : Prop :=
  (∀ id ∈ result, Near graph seedIds depth id) ∧
    ((∀ id, Near graph seedIds depth id → id ∈ result) ∨
      maxCandidates ≤ result.length ∧ ∀ id ∈ result, ∀ other m n, Near graph seedIds depth other →
        other ∉ result → Depth (PositiveEdge graph) (· ∈ seedIds) m id →
        Depth (PositiveEdge graph) (· ∈ seedIds) n other → m ≤ n)

theorem near_of_layers {queue : List (Nat × Nat)} {s : Expansion}
    (hs : Expanding graph seedIds depth queue s) (hacc : s.Accounted seedIds)
    (hseeds : ∀ id ∈ seedIds, id ∉ s.result) {id : Nat} (hid : id ∈ s.result) :
    Near graph seedIds depth id := by
  obtain ⟨n, hn, hdepth, -⟩ := hs.near id ((hacc id).mpr (.inr hid))
  refine ⟨n, ?_, hn, hdepth⟩
  by_contra hzero
  obtain rfl : n = 0 := by omega
  exact hseeds id (depth_zero_iff.mp hdepth) hid

theorem Near.not_seed {id : Nat} (h : Near graph seedIds depth id) : id ∉ seedIds := by
  obtain ⟨n, hone, -, hdepth⟩ := h
  intro hseed
  have := hdepth.2 0 (reaches_zero_iff.mpr hseed)
  omega

theorem ended_of_exhausted {s : Expansion} (hs : Expanding graph seedIds depth [] s)
    (hacc : s.Accounted seedIds) (hseeds : ∀ id ∈ seedIds, id ∉ s.result) :
    Ended graph seedIds depth maxCandidates s.result := by
  refine ⟨fun id hid => near_of_layers hs hacc hseeds hid, .inl fun id hnear => ?_⟩
  have hnot := hnear.not_seed
  obtain ⟨n, -, hn, hdepth⟩ := hnear
  exact ((hacc id).mp (hs.exhausted.mpr ⟨n, hn, hdepth.1⟩)).resolve_left hnot

theorem ended_of_spent {v d : Nat} {s : Expansion}
    (hs : Expanding graph seedIds depth ((v, d) :: s.queue) s) (hacc : s.Accounted seedIds)
    (hseeds : ∀ id ∈ seedIds, id ∉ s.result) (hfull : maxCandidates ≤ s.result.length) :
    Ended graph seedIds depth maxCandidates s.result := by
  refine ⟨fun id hid => near_of_layers hs hacc hseeds hid, .inr ⟨hfull, ?_⟩⟩
  intro id hid other m n hnear hout hm hn
  have hnot : other ∉ s.visited := fun hv =>
    ((hacc other).mp hv).elim hnear.not_seed hout
  obtain ⟨k, -, hk, hdepth⟩ := hnear
  obtain rfl := hdepth.unique hn
  exact hs.nearer ((hacc id).mpr (.inr hid)) hnot hm hdepth hk

theorem expandLoop_ended (hg : graph.Keyed) {fuel : Nat} {s : Expansion} {result : List Nat}
    (hs : Expanding graph seedIds depth s.queue s) (hacc : s.Accounted seedIds)
    (hinv : s.Inv seedIds maxCandidates)
    (h : expandLoop graph o depth maxCandidates fuel s = some result) :
    Ended graph seedIds depth maxCandidates result := by
  induction fuel generalizing s with
  | zero => cases h
  | succ fuel ih =>
    unfold expandLoop at h
    cases hq : s.queue with
    | nil =>
      rw [hq] at h hs
      cases h
      exact ended_of_exhausted hs hacc fun id hid => (hinv.seeds id hid).2
    | cons p rest =>
      obtain ⟨v, d⟩ := p
      rw [hq] at h hs
      dsimp only at h
      have hrest : ({ s with queue := rest } : Expansion).Inv seedIds maxCandidates :=
        ⟨hinv.nodup, hinv.visited, hinv.seeds, hinv.budget⟩
      cases hv : graph.nodeIndexFor v with
      | none =>
        rw [hv] at h
        refine ih (s := { s with queue := rest }) (hs.pop (.inr fun w he => ?_)) hacc hrest h
        obtain ⟨i, hi⟩ := he.node hg
        rw [hv] at hi
        cases hi
      | some i =>
        rw [hv] at h
        dsimp only at h
        by_cases hd : depth ≤ d
        · rw [if_pos hd] at h
          exact ih (s := { s with queue := rest }) (hs.pop (.inl hd)) hacc hrest h
        · rw [if_neg hd] at h
          obtain ⟨hlayers, hacc', -, hbroke, hall⟩ := expandScan_layers maxCandidates
            (s := { s with queue := rest }) (lt_of_not_ge hd) hs hacc
            fun w hw => (mem_expandNeighbors (o := o) hg hv).mp hw
          obtain ⟨hinv', -⟩ := expandScan_spec d (expandNeighbors graph o i) hrest
          have hseeds := fun id hid => (hinv'.seeds id hid).2
          split at h
          · rename_i hb
            cases h
            exact ended_of_spent hlayers hacc' hseeds (hbroke hb)
          · rename_i hb
            refine ih (hlayers.pop (.inr fun w he => ?_)) hacc' hinv' h
            exact hall (Bool.not_eq_true _ ▸ hb) w ((mem_expandNeighbors hg hv).mpr he)

theorem expandStart_layers (hg : graph.Keyed) (seedIds : List Nat) (depth : Nat) :
    Expanding graph seedIds depth (expandStart graph seedIds).queue (expandStart graph seedIds) := by
  refine Layers.start (fun p hp => ?_) fun v hv => ?_
  · obtain ⟨id, hid, rfl⟩ := List.mem_map.mp hp
    exact ⟨List.mem_of_mem_filter hid, rfl⟩
  · cases hi : graph.nodeIndexFor v with
    | none =>
      refine .inr fun w he => ?_
      obtain ⟨i, hi'⟩ := he.node hg
      rw [hi] at hi'
      cases hi'
    | some i =>
      refine .inl (List.mem_map.mpr ⟨v, List.mem_filter.mpr ⟨hv, ?_⟩, rfl⟩)
      rw [hi]
      rfl

theorem graphExpand_ended (hg : graph.Keyed) (o : EdgeOrder) (seedIds : List Nat)
    (depth maxCandidates : Nat) :
    Ended graph seedIds depth maxCandidates (graphExpand graph o seedIds depth maxCandidates) := by
  unfold graphExpand
  split
  · rename_i hguard
    refine ⟨fun id hid => absurd hid List.not_mem_nil, .inl fun id hnear => ?_⟩
    obtain ⟨n, hone, hn, hdepth⟩ := hnear
    obtain ⟨k, rfl⟩ := Nat.exists_eq_add_of_le' hone
    obtain ⟨s, hs, hw⟩ := hdepth.1
    obtain ⟨u, he, -⟩ := hw.uncons
    rcases hguard with hguard | hguard | hguard
    · rw [List.isEmpty_iff.mp hguard] at hs
      cases hs
    · have hmem := hg.mem_nodes_iff.mpr (he.node hg)
      rw [hg.nodeIndex_isEmpty_iff.mp hguard] at hmem
      cases hmem
    · omega
  · obtain ⟨result, heq, -⟩ := expandLoop_isSome graph o seedIds depth maxCandidates
    rw [heq]
    exact expandLoop_ended hg (expandStart_layers hg seedIds depth) (fun v => by simp [expandStart])
      (expandStart_inv graph seedIds maxCandidates) heq

end Search

/-! ## Insertion order -/

section Order

variable {g g' : TypedRelationGraph}

theorem SameGraph.positiveEdge_iff (h : SameGraph g g') {u w : Nat} :
    PositiveEdge g u w ↔ PositiveEdge g' u w := by
  unfold PositiveEdge
  exact exists_congr fun e => and_congr_left fun _ => h.edges.mem_iff

/-- **The neighbors of a node do not depend on the order.** -/
theorem expandNeighbors_eq (h : SameGraph g g') (hg : g.Keyed) (hg' : g'.Keyed) (o o' : EdgeOrder)
    {id i i' : Nat} (hi : g.nodeIndexFor id = some i) (hi' : g'.nodeIndexFor id = some i') :
    expandNeighbors g o i = expandNeighbors g' o' i' := by
  have hmem : ∀ w, w ∈ expandNeighbors g o i ↔ w ∈ expandNeighbors g' o' i' := by
    intro w
    rw [mem_expandNeighbors hg hi, mem_expandNeighbors hg' hi', h.positiveEdge_iff]
  exact (sortDedup_spec _).1.eq_of_mem_iff (sortDedup_spec _).1 hmem

theorem expandLoop_congr (h : SameGraph g g') (hg : g.Keyed) (hg' : g'.Keyed) (o o' : EdgeOrder)
    (depth maxCandidates fuel : Nat) (s : Expansion) :
    expandLoop g o depth maxCandidates fuel s = expandLoop g' o' depth maxCandidates fuel s := by
  induction fuel generalizing s with
  | zero => rfl
  | succ fuel ih =>
    unfold expandLoop
    cases s.queue with
    | nil => rfl
    | cons p rest =>
      obtain ⟨id, d⟩ := p
      dsimp only
      have hsome := h.nodeIndexFor_isSome hg hg' id
      cases hi : g.nodeIndexFor id with
      | none =>
        rw [hi] at hsome
        have hnone : g'.nodeIndexFor id = none := by
          rw [← Option.not_isSome_iff_eq_none, ← hsome]
          exact Bool.false_ne_true
        rw [hnone]
        exact ih _
      | some i =>
        rw [hi] at hsome
        obtain ⟨i', hi'⟩ := Option.isSome_iff_exists.mp hsome.symm
        rw [hi']
        dsimp only
        rw [expandNeighbors_eq h hg hg' o o' hi hi']
        simp only [ih]

/-- **The expansion does not depend on the order.** -/
theorem graphExpand_congr (h : SameGraph g g') (hg : g.Keyed) (hg' : g'.Keyed) (o o' : EdgeOrder)
    (seedIds : List Nat) (depth maxCandidates : Nat) :
    graphExpand g o seedIds depth maxCandidates = graphExpand g' o' seedIds depth maxCandidates := by
  have hempty : g.nodeIndex.entries.isEmpty = true ↔ g'.nodeIndex.entries.isEmpty = true := by
    rw [hg.nodeIndex_isEmpty_iff, hg'.nodeIndex_isEmpty_iff]
    exact ⟨fun hn => (hn ▸ h.nodes).nil_eq.symm, fun hn => (hn ▸ h.nodes).eq_nil⟩
  have hstart : expandStart g seedIds = expandStart g' seedIds := by
    unfold expandStart
    simp only [h.nodeIndexFor_isSome hg hg']
  unfold graphExpand
  rw [hstart, expandLoop_congr h hg hg' o o']
  simp only [hempty]

end Order

theorem encard_of_nodup {l : List Nat} (h : l.Nodup) : Set.encard {id | id ∈ l} = l.length := by
  have heq : {id | id ∈ l} = (l.toFinset : Set Nat) := by
    ext id
    simp
  rw [heq, Set.encard_coe_eq_coe_finsetCard, List.toFinset_card_of_nodup h]

/-- **What an expansion returns.** -/
theorem graphExpand_closest (g : KeyedGraph) (o : EdgeOrder) (seedIds : List Nat)
    (depth maxCandidates : Nat) :
    (∀ id ∈ seedIds, id ∉ graphExpand g.graph o seedIds depth maxCandidates) ∧
    (graphExpand g.graph o seedIds depth maxCandidates).Nodup ∧
    (Set.encard {id | Near g.graph seedIds depth id} ≤ maxCandidates →
      ∀ id, id ∈ graphExpand g.graph o seedIds depth maxCandidates ↔ Near g.graph seedIds depth id) ∧
    (maxCandidates < Set.encard {id | Near g.graph seedIds depth id} →
      (graphExpand g.graph o seedIds depth maxCandidates).length = maxCandidates ∧
      (∀ id ∈ graphExpand g.graph o seedIds depth maxCandidates, Near g.graph seedIds depth id) ∧
      ∀ id ∈ graphExpand g.graph o seedIds depth maxCandidates, ∀ other m n,
        Near g.graph seedIds depth other →
        other ∉ graphExpand g.graph o seedIds depth maxCandidates →
        Depth (PositiveEdge g.graph) (· ∈ seedIds) m id →
        Depth (PositiveEdge g.graph) (· ∈ seedIds) n other → m ≤ n) ∧
    ∀ (g' : KeyedGraph) (o' : EdgeOrder), SameGraph g.graph g'.graph →
      graphExpand g'.graph o' seedIds depth maxCandidates =
        graphExpand g.graph o seedIds depth maxCandidates := by
  obtain ⟨hnodup, hseeds, hbudget⟩ := graphExpand_spec g.graph o seedIds depth maxCandidates
  obtain ⟨hnear, hend⟩ := graphExpand_ended g.keyed o seedIds depth maxCandidates
  refine ⟨hseeds, hnodup, fun hle => ?_, fun hlt => ?_, fun g' o' hsame => ?_⟩
  · rcases hend with hall | ⟨hfull, -⟩
    · exact fun id => ⟨hnear id, hall id⟩
    · have hcard : Set.encard {id | Near g.graph seedIds depth id} ≤
          Set.encard {id | id ∈ graphExpand g.graph o seedIds depth maxCandidates} := by
        rw [encard_of_nodup hnodup]
        exact hle.trans (Nat.cast_le.mpr hfull)
      have hsub : {id | id ∈ graphExpand g.graph o seedIds depth maxCandidates} ⊆
          {id | Near g.graph seedIds depth id} := hnear
      have heq := (List.finite_toSet _).eq_of_subset_of_encard_le hsub hcard
      exact fun id => Set.ext_iff.mp heq id
  · rcases hend with hall | ⟨hfull, hclosest⟩
    · have heq : {id | Near g.graph seedIds depth id} =
          {id | id ∈ graphExpand g.graph o seedIds depth maxCandidates} :=
        Set.ext fun id => ⟨hall id, hnear id⟩
      rw [heq, encard_of_nodup hnodup, Nat.cast_lt] at hlt
      omega
    · exact ⟨Nat.le_antisymm hbudget hfull, hnear, hclosest⟩
  · exact (graphExpand_congr hsame g.keyed g'.keyed o o' seedIds depth maxCandidates).symm

end Unimatrix
