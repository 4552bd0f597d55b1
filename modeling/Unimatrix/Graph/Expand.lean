import Mathlib.Data.List.Destutter
import Mathlib.Data.List.Sort
import Unimatrix.Graph.Typed

/-!
# Expanding a seed set

Model of `graph_expand` of `graph_expand.rs`.

* The result, a `HashSet` of the program, is the list of its elements as they were inserted.
* The loop takes `fuel`, the passes it may still make. A pass takes a node from the queue, and a node is queued
  for a seed or for an element of the result, so `seedIds.length + maxCandidates + 1` passes are enough
  (`expandLoop_isSome`).

**`graphExpand_spec`**: the result has no seed, nothing twice and no more than `maxCandidates` elements.
-/

namespace Unimatrix

open TypedRelationGraph

/-- The relation types the expansion follows, in the order it asks for them. -/
def expandTypes : List RelationType := [.coAccess, .supports, .informs, .prerequisite, .relatedTo]

/-- `sort_unstable`, then `dedup`. -/
def sortDedup (ids : List Nat) : List Nat := (ids.insertionSort (· ≤ ·)).destutter (· ≠ ·)

/-- The `neighbors` of a node. -/
def expandNeighbors (graph : TypedRelationGraph) (o : EdgeOrder) (nodeIdx : Nat) : List Nat :=
  sortDedup ((expandTypes.flatMap fun t => graph.edgesOfType o nodeIdx t .outgoing).map fun e =>
    graph.idAt e.1.2)

/-- The variables of the loop. -/
structure Expansion where
  visited : List Nat
  result : List Nat
  queue : List (Nat × Nat)

/-- A neighbor that was not visited is a result, and is queued. -/
def Expansion.add (s : Expansion) (depth neighborId : Nat) : Expansion :=
  ⟨neighborId :: s.visited, s.result ++ [neighborId], s.queue ++ [(neighborId, depth)]⟩

/-- The `for` over the neighbors, and whether it broke off the outer loop. -/
def expandScan (maxCandidates depth : Nat) : List Nat → Expansion → Expansion × Bool
  | [], s => (s, false)
  | neighborId :: neighbors, s =>
    if maxCandidates ≤ s.result.length then (s, true)
    else if s.visited.contains neighborId then expandScan maxCandidates depth neighbors s
    else expandScan maxCandidates depth neighbors (s.add (depth + 1) neighborId)

/-- The `while`. -/
def expandLoop (graph : TypedRelationGraph) (o : EdgeOrder) (depth maxCandidates : Nat) :
    Nat → Expansion → Option (List Nat)
  | 0, _ => none
  | fuel + 1, s =>
    match s.queue with
    | [] => some s.result
    | (currentId, currentDepth) :: rest =>
      match graph.nodeIndexFor currentId with
      | none => expandLoop graph o depth maxCandidates fuel { s with queue := rest }
      | some nodeIdx =>
        if depth ≤ currentDepth then expandLoop graph o depth maxCandidates fuel { s with queue := rest }
        else
          let (s', broke) := expandScan maxCandidates currentDepth (expandNeighbors graph o nodeIdx)
            { s with queue := rest }
          if broke then some s'.result else expandLoop graph o depth maxCandidates fuel s'

/-- What the loop starts with. A seed that is no node is not queued. -/
def expandStart (graph : TypedRelationGraph) (seedIds : List Nat) : Expansion where
  visited := seedIds
  result := []
  queue := (seedIds.filter fun id => (graph.nodeIndexFor id).isSome).map fun id => (id, 0)

/-- `graph_expand`. -/
def graphExpand (graph : TypedRelationGraph) (o : EdgeOrder) (seedIds : List Nat)
    (depth maxCandidates : Nat) : List Nat :=
  if seedIds.isEmpty ∨ graph.nodeIndex.entries.isEmpty ∨ depth = 0 then []
  else
    (expandLoop graph o depth maxCandidates (seedIds.length + maxCandidates + 1)
      (expandStart graph seedIds)).getD []

/-! ## What the loop keeps -/

/-- What was inserted is visited, as the seeds are; nothing was inserted twice or beyond the budget. -/
structure Expansion.Inv (seedIds : List Nat) (maxCandidates : Nat) (s : Expansion) : Prop where
  nodup : s.result.Nodup
  visited : ∀ id ∈ s.result, id ∈ s.visited
  seeds : ∀ id ∈ seedIds, id ∈ s.visited ∧ id ∉ s.result
  budget : s.result.length ≤ maxCandidates

variable {graph : TypedRelationGraph} {o : EdgeOrder} {seedIds : List Nat} {depth maxCandidates : Nat}
  {s : Expansion}

theorem Expansion.Inv.add (h : s.Inv seedIds maxCandidates) {id : Nat} (hid : id ∉ s.visited)
    (hroom : s.result.length < maxCandidates) (d : Nat) : (s.add d id).Inv seedIds maxCandidates where
  nodup := by
    refine List.nodup_append.mpr ⟨h.nodup, List.nodup_singleton id, fun a ha b hb heq => ?_⟩
    rw [List.mem_singleton.mp hb] at heq
    exact hid (heq ▸ h.visited a ha)
  visited a ha := by
    rcases List.mem_append.mp ha with ha | ha
    · exact List.mem_cons_of_mem _ (h.visited a ha)
    · rw [List.mem_singleton.mp ha]
      exact List.mem_cons_self
  seeds a ha := by
    obtain ⟨hvisited, hresult⟩ := h.seeds a ha
    refine ⟨List.mem_cons_of_mem _ hvisited, fun hmem => ?_⟩
    rcases List.mem_append.mp hmem with hmem | hmem
    · exact hresult hmem
    · exact hid (List.mem_singleton.mp hmem ▸ hvisited)
  budget := by
    unfold Expansion.add
    simp only [List.length_append, List.length_singleton]
    omega

/-- What is left to do: the queue, and what may still be queued. -/
def Expansion.left (maxCandidates : Nat) (s : Expansion) : Nat :=
  s.queue.length + (maxCandidates - s.result.length)

theorem expandScan_spec (d : Nat) (neighbors : List Nat) (h : s.Inv seedIds maxCandidates) :
    (expandScan maxCandidates d neighbors s).1.Inv seedIds maxCandidates ∧
      (expandScan maxCandidates d neighbors s).1.left maxCandidates = s.left maxCandidates := by
  induction neighbors generalizing s with
  | nil => exact ⟨h, rfl⟩
  | cons id ids ih =>
    unfold expandScan
    split
    · exact ⟨h, rfl⟩
    · rename_i hroom
      split
      · exact ih h
      · rename_i hid
        rw [List.contains_iff_mem] at hid
        obtain ⟨hinv, hleft⟩ := ih (h.add hid (lt_of_not_ge hroom) (d + 1))
        refine ⟨hinv, hleft.trans ?_⟩
        unfold Expansion.left Expansion.add
        simp only [List.length_append, List.length_singleton]
        omega

theorem expandLoop_spec {fuel : Nat} (h : s.Inv seedIds maxCandidates)
    (hfuel : s.left maxCandidates < fuel) :
    ∃ result, expandLoop graph o depth maxCandidates fuel s = some result ∧
      result.Nodup ∧ (∀ id ∈ seedIds, id ∉ result) ∧ result.length ≤ maxCandidates := by
  induction fuel generalizing s with
  | zero => exact absurd hfuel (Nat.not_lt_zero _)
  | succ fuel ih =>
    unfold expandLoop
    split
    · exact ⟨s.result, rfl, h.nodup, fun id hid => (h.seeds id hid).2, h.budget⟩
    · rename_i currentId currentDepth rest hqueue
      -- the node was taken from the queue, whatever becomes of it
      have hrest : ({ s with queue := rest } : Expansion).Inv seedIds maxCandidates :=
        ⟨h.nodup, h.visited, h.seeds, h.budget⟩
      have hless : ({ s with queue := rest } : Expansion).left maxCandidates < fuel := by
        unfold Expansion.left at hfuel ⊢
        rw [hqueue, List.length_cons] at hfuel
        dsimp only
        omega
      split
      · exact ih hrest hless
      · rename_i nodeIdx _
        split
        · exact ih hrest hless
        · obtain ⟨hinv, hleft⟩ := expandScan_spec currentDepth (expandNeighbors graph o nodeIdx) hrest
          dsimp only
          split
          · exact ⟨_, rfl, hinv.nodup, fun id hid => (hinv.seeds id hid).2, hinv.budget⟩
          · exact ih hinv (hleft ▸ hless)

theorem expandStart_inv (graph : TypedRelationGraph) (seedIds : List Nat) (maxCandidates : Nat) :
    (expandStart graph seedIds).Inv seedIds maxCandidates where
  nodup := List.nodup_nil
  visited _ h := absurd h List.not_mem_nil
  seeds _ h := ⟨h, List.not_mem_nil⟩
  budget := Nat.zero_le _

/-- The fuel is enough. -/
theorem expandLoop_isSome (graph : TypedRelationGraph) (o : EdgeOrder) (seedIds : List Nat)
    (depth maxCandidates : Nat) :
    ∃ result, expandLoop graph o depth maxCandidates (seedIds.length + maxCandidates + 1)
        (expandStart graph seedIds) = some result ∧
      result.Nodup ∧ (∀ id ∈ seedIds, id ∉ result) ∧ result.length ≤ maxCandidates := by
  refine expandLoop_spec (expandStart_inv graph seedIds maxCandidates) ?_
  have hqueue : (expandStart graph seedIds).queue.length ≤ seedIds.length := by
    unfold expandStart
    rw [List.length_map]
    exact List.length_filter_le _ _
  have hresult : (expandStart graph seedIds).result.length = 0 := rfl
  unfold Expansion.left
  omega

/-- **What an expansion returns.** -/
theorem graphExpand_spec (graph : TypedRelationGraph) (o : EdgeOrder) (seedIds : List Nat)
    (depth maxCandidates : Nat) :
    (graphExpand graph o seedIds depth maxCandidates).Nodup ∧
      (∀ id ∈ seedIds, id ∉ graphExpand graph o seedIds depth maxCandidates) ∧
      (graphExpand graph o seedIds depth maxCandidates).length ≤ maxCandidates := by
  unfold graphExpand
  split
  · exact ⟨List.nodup_nil, fun _ _ => List.not_mem_nil, Nat.zero_le _⟩
  · obtain ⟨result, heq, hspec⟩ := expandLoop_isSome graph o seedIds depth maxCandidates
    rw [heq]
    exact hspec

end Unimatrix
