import Unimatrix.Graph.Path
import Unimatrix.Lib.CappedSearch
import Unimatrix.Lib.StableSort
import Mathlib.Data.Prod.Lex

/-!
# Subgraphs around some entries

Model of `handle_subgraph`, `subgraph_via_db`, `fetch_nodes_batch` and `sort_subgraph_output` of
`graph_read_subgraph.rs`.

* Both searches are `CappedSearch.search`: what differs is what a node leads to and which node is queued for an
  entry (`subgraphEdges`, `liveEdges`). At depth 1 the rows are read whatever the state of the graph.
* `visited` and `collected_node_ids` hold the same ids, and `edge_set` holds the stored edges of those collected:
  one list each here.
* `fetch_edge_metadata` is any query that may fail (`MetadataQuery`).

An edge is recorded with the end it was followed to resolved, and told apart by what is stored: two edges to
versions of one entry are returned as one and the same. **`handleSubgraph_spec`** says what is returned
(`SubgraphOf`), **`subgraph_differs`** where that is not what one would expect.
-/

namespace Unimatrix

open Digraph TypedRelationGraph

/-! ## The request and its answer -/

/-- `DEFAULT_MAX_DEPTH`. -/
def defaultMaxDepth : Nat := 3

/-- `MAX_NODES_UPPER`, which is `DEFAULT_MAX_NODES` too. -/
def maxNodesUpper : Nat := 200

/-- `MAX_EDGES_UPPER`. -/
def maxEdgesUpper : Nat := 1000

/-- The check of `seed_ids`. -/
def subgraphSeeds : Option (List Nat) → Except String (List Nat)
  | some (id :: ids) => .ok (id :: ids)
  | _ => .error "subgraph mode requires at least one entry ID in seed_ids"

/-- The check of `max_depth`. -/
def subgraphDepth : Option Nat → Except String Nat
  | none => .ok defaultMaxDepth
  | some d =>
    if 1 ≤ d ∧ d ≤ maxDepthUpper then .ok d
    else .error ("max_depth must be in range 1..=10, got " ++ toString d)

/-- The check of `max_nodes`. -/
def subgraphNodes : Option Nat → Except String Nat
  | none => .ok maxNodesUpper
  | some n =>
    if 1 ≤ n ∧ n ≤ maxNodesUpper then .ok n
    else .error ("max_nodes must be in range 1..=200, got " ++ toString n)

/-- The check of `direction`. -/
def subgraphDirection (direction : Option String) : Except String NeighborDirection :=
  match direction.getD "both" with
  | "incoming" => .ok .incoming
  | "outgoing" => .ok .outgoing
  | "both" => .ok .both
  | other => .error ("direction must be one of: incoming, outgoing, both; got '" ++ other ++ "'")

/-- The check of `edge_types`. -/
def subgraphTypes : Option (List String) → Except String (List RelationType) := selectedTypes "edge_type"

/-- An edge met from an entry: as it is stored, along which direction, and what its far end resolves to. -/
structure MetEdge where
  key : EdgeKey
  dir : Direction
  effectiveNeighbor : Nat
  deriving DecidableEq, Repr

/-- A tuple of `collected_edges`. -/
structure CollectedEdge where
  sourceId : Nat
  targetId : Nat
  relationType : String
  depth : Nat
  deriving DecidableEq, Repr

/-- What is recorded of an edge: its far end is the resolved one. -/
def MetEdge.record (m : MetEdge) (depth : Nat) : CollectedEdge :=
  match m.dir with
  | .outgoing => ⟨m.key.sourceId, m.effectiveNeighbor, m.key.relationType, depth⟩
  | .incoming => ⟨m.effectiveNeighbor, m.key.targetId, m.key.relationType, depth⟩

/-- `EdgeRecord`, with its metadata. -/
structure SubgraphEdge extends EdgeRecord where
  metadata : Option String
  deriving DecidableEq, Repr

/-- What an edge is sorted by. -/
def SubgraphEdge.triple (e : SubgraphEdge) : ℕ ×ₗ ℕ ×ₗ String :=
  toLex (e.sourceId, toLex (e.targetId, e.relationType))

/-- `SubgraphResponse`. -/
structure SubgraphResponse where
  nodes : List EntryRecord
  edges : List SubgraphEdge
  truncated : Bool
  seedIds : List Nat
  depthReached : Nat

/-- `fetch_edge_metadata`: the metadata of the edges there are, unless the query fails. -/
abbrev MetadataQuery : Type := List CollectedEdge → Except String (EdgeKey → Option String)

/-- `fetch_nodes_batch`: the rows come in any order. -/
def fetchNodesBatch (s : Store) (o : HashMap.IterOrder Nat EntryRow) (nodeIds : List Nat) : List EntryRecord :=
  (s.allEntries o).filter fun e => nodeIds.contains e.id

/-- The filter for dangling edges. -/
def CollectedEdge.within (nodeIds : List Nat) (e : CollectedEdge) : Bool :=
  nodeIds.contains e.sourceId && nodeIds.contains e.targetId

/-- An `EdgeRecord` as step 10 builds it. -/
def toSubgraphEdge (metadata : EdgeKey → Option String) (e : CollectedEdge) : SubgraphEdge :=
  ⟨⟨e.sourceId, e.targetId, e.relationType, "outgoing", e.depth⟩,
    metadata ⟨e.sourceId, e.targetId, e.relationType⟩⟩

/-- Steps 7 to 11, with `sort_subgraph_output`. -/
def subgraphResponse (s : Store) (oNodes : HashMap.IterOrder Nat EntryRow) (fetchEdgeMetadata : MetadataQuery)
    (seedIds collectedNodeIds : List Nat) (collectedEdges : List CollectedEdge) (truncated : Bool) :
    Except String SubgraphResponse := do
  let nodes := fetchNodesBatch s oNodes collectedNodeIds
  let metadata ← if collectedEdges.isEmpty then .ok fun _ => none else fetchEdgeMetadata collectedEdges
  let depthReached := (collectedEdges.map CollectedEdge.depth).foldl max 0
  let edges := collectedEdges.map (toSubgraphEdge metadata)
  return ⟨StableSort.sortBy EntryRecord.id nodes, StableSort.sortBy SubgraphEdge.triple edges, truncated,
    seedIds, depthReached⟩

/-! ## The two searches -/

/-- The edges of a node. -/
def subgraphEdges (s : Store) (g : TypedRelationGraph) (o : EdgeOrder) (types : List RelationType)
    (direction : NeighborDirection) (resolveSupersessions : Bool) (currentIdx : Nat) : List MetEdge :=
  types.flatMap fun relType => direction.dirs.flatMap fun dir =>
    (g.edgesOfType o currentIdx relType dir).filterMap fun e => do
      let edgeSrc ← g.nodeIdForIndex e.1.1
      let edgeTgt ← g.nodeIdForIndex e.1.2
      let key : EdgeKey := ⟨edgeSrc, edgeTgt, relType.asStr⟩
      return ⟨key, dir, resolveEndpoint s resolveSupersessions (key.far dir)⟩

/-- `neighbor_dir`. -/
def Direction.toNeighbor : Direction → NeighborDirection
  | .outgoing => .outgoing
  | .incoming => .incoming

/-- A row as an edge. -/
def RawEdgeRow.key (row : RawEdgeRow) : EdgeKey := ⟨row.sourceId, row.targetId, row.relationType⟩

/-- The rows of an entry. -/
def liveEdges (s : Store) (t : EdgeTable) (o : RowOrders) (types : List RelationType)
    (direction : NeighborDirection) (resolveSupersessions : Bool) (currentId : Nat) : List MetEdge :=
  direction.dirs.flatMap fun dir =>
    ((queryDirectNeighbors t o currentId (types.map RelationType.asStr) dir.toNeighbor).take
        maxDbNeighborsPerNode).map fun row =>
      ⟨row.key, dir, resolveEndpoint s resolveSupersessions (row.key.far dir)⟩

/-- The edges collected whose ends both are. -/
def keptEdges (r : CappedSearch.State Nat Nat MetEdge) : List CollectedEdge :=
  (r.met.map fun m => m.1.record m.2).filter (CollectedEdge.within r.nodes)

/-- A search that never ran out of fuel. -/
def searched (r : Option (CappedSearch.State Nat Nat MetEdge × Bool)) :
    CappedSearch.State Nat Nat MetEdge × Bool := r.getD (⟨[], [], []⟩, false)

/-- `subgraph_via_db`. -/
def subgraphViaDb (s : Store) (t : EdgeTable) (o : RowOrders) (oNodes : HashMap.IterOrder Nat EntryRow)
    (fetchEdgeMetadata : MetadataQuery) (seedIds : List Nat) (maxDepth maxNodes : Nat)
    (direction : NeighborDirection) (types : List RelationType) (resolveSupersessions : Bool) :
    Except String SubgraphResponse :=
  let r := searched (CappedSearch.search some (liveEdges s t o types direction resolveSupersessions)
    MetEdge.effectiveNeighbor MetEdge.key maxDepth maxNodes (seedIds.map (resolveEndpoint s resolveSupersessions)))
  subgraphResponse s oNodes fetchEdgeMetadata seedIds r.1.nodes ((keptEdges r.1).take maxEdgesUpper) r.2

/-- `handle_subgraph`, from step 3 on. -/
def subgraphBfs (s : Store) (g : TypedRelationGraph) (oGraph : EdgeOrder)
    (oNodes : HashMap.IterOrder Nat EntryRow) (fetchEdgeMetadata : MetadataQuery) (seedIds : List Nat)
    (maxDepth maxNodes : Nat) (direction : NeighborDirection) (types : List RelationType)
    (resolveSupersessions : Bool) : Except String SubgraphResponse :=
  let r := searched (CappedSearch.search g.nodeIndexFor
    (subgraphEdges s g oGraph types direction resolveSupersessions) MetEdge.effectiveNeighbor MetEdge.key
    maxDepth maxNodes (seedIds.map (resolveEndpoint s resolveSupersessions)))
  subgraphResponse s oNodes fetchEdgeMetadata seedIds r.1.nodes (keptEdges r.1) r.2

/-- `handle_subgraph`. -/
def handleSubgraph (s : Store) (t : EdgeTable) (state : TypedGraphState) (oGraph : EdgeOrder) (o : RowOrders)
    (oNodes : HashMap.IterOrder Nat EntryRow) (fetchEdgeMetadata : MetadataQuery) (params : GraphParams) :
    Except String SubgraphResponse := do
  let seedIds ← subgraphSeeds params.seedIds
  let maxDepth ← subgraphDepth params.maxDepth
  let maxNodes ← subgraphNodes params.maxNodes
  let direction ← subgraphDirection params.direction
  let types ← subgraphTypes params.edgeTypes
  let resolveSupersessions := params.resolveSupersessions.getD true
  if maxDepth = 1 ∨ state.useFallback = true then
    subgraphViaDb s t o oNodes fetchEdgeMetadata seedIds maxDepth maxNodes direction types resolveSupersessions
  else
    subgraphBfs s state.typedGraph oGraph oNodes fetchEdgeMetadata seedIds maxDepth maxNodes direction types
      resolveSupersessions

/-! ## What the searches walk along -/

/-- An edge is met from `u`: it is listed there, of a selected type, along a wanted direction, and its far end
resolves to where it leads. -/
structure Meets (listed : Nat → Direction → EdgeKey → Prop) (s : Store) (types : List RelationType)
    (direction : NeighborDirection) (resolveSupersessions : Bool) (u : Nat) (m : MetEdge) : Prop where
  listed : listed u m.dir m.key
  typed : ∃ relType ∈ types, m.key.relationType = relType.asStr
  wanted : m.dir ∈ direction.dirs
  near : m.key.near m.dir = u
  resolves : m.effectiveNeighbor = resolveEndpoint s resolveSupersessions (m.key.far m.dir)

/-- The edges of a graph. -/
def GraphListed (g : TypedRelationGraph) (_ : Nat) (_ : Direction) (key : EdgeKey) : Prop :=
  ∃ e ∈ g.edgesById, e.1 = (key.sourceId, key.targetId) ∧ e.2.relationType = key.relationType

/-- The rows a query returns for an entry, up to the limit. -/
def LiveListed (t : EdgeTable) (o : RowOrders) (types : List RelationType) (u : Nat) (dir : Direction)
    (key : EdgeKey) : Prop :=
  ∃ row ∈ (queryDirectNeighbors t o u (types.map RelationType.asStr) dir.toNeighbor).take maxDbNeighborsPerNode,
    row.key = key

section Hops

variable {s : Store} {types : List RelationType} {direction : NeighborDirection} {resolveSupersessions : Bool}

/-- **What the search in memory follows from a node.** -/
theorem mem_subgraphEdges {g : TypedRelationGraph} (hg : g.Keyed) {o : EdgeOrder} {u i : Nat}
    (hi : g.nodeIndexFor u = some i) {m : MetEdge} :
    m ∈ subgraphEdges s g o types direction resolveSupersessions i ↔
      Meets (GraphListed g) s types direction resolveSupersessions u m := by
  have hid : ∀ {j}, j < g.nodes.length → g.nodeIdForIndex j = some (g.idAt j) := by
    intro j hj
    exact (hg.index _ _).mp (hg.nodeIndexFor_idAt hj)
  -- an edge of the node, in the direction it is met, by the ids of its ends
  have htouch : ∀ dir (e : IndexedEdge), e ∈ g.edges →
      (touches i dir e = true ↔ (⟨g.idAt e.1.1, g.idAt e.1.2, e.2.relationType⟩ : EdgeKey).near dir = u) := by
    intro dir e he
    obtain ⟨hsource, htarget⟩ := hg.ends e he
    have hsame : ∀ {j}, j < g.nodes.length → (j = i ↔ g.idAt j = u) := by
      intro j hj
      constructor
      · rintro rfl
        exact hg.idAt hi
      · intro hj'
        have hidx := hg.nodeIndexFor_idAt hj
        rw [hj', hi] at hidx
        exact (Option.some.inj hidx).symm
    cases dir with
    | outgoing => exact decide_eq_true_iff.trans (hsame hsource)
    | incoming => exact decide_eq_true_iff.trans (hsame htarget)
  unfold subgraphEdges
  simp only [List.mem_flatMap, List.mem_filterMap, mem_edgesOfType]
  constructor
  · rintro ⟨relType, htypes, dir, hdir, e, ⟨hmem, htouches, htype⟩, hm⟩
    obtain ⟨hsource, htarget⟩ := hg.ends e hmem
    rw [hid hsource, hid htarget] at hm
    cases hm
    have hnear := (htouch dir e hmem).mp htouches
    rw [htype] at hnear
    exact ⟨⟨_, List.mem_map_of_mem hmem, rfl, htype⟩, ⟨relType, htypes, rfl⟩, hdir, hnear, rfl⟩
  · rintro ⟨⟨_, hmem, hends, hname⟩, ⟨relType, htypes, htype⟩, hdir, hnear, hresolves⟩
    obtain ⟨e, he, rfl⟩ := List.mem_map.mp hmem
    obtain ⟨hsource, htarget⟩ := hg.ends e he
    obtain ⟨⟨a, b, name⟩, dir, w⟩ := m
    obtain ⟨rfl, rfl⟩ := Prod.mk.inj hends
    obtain rfl : e.2.relationType = name := hname
    dsimp only at hresolves
    subst hresolves
    refine ⟨relType, htypes, dir, hdir, e, ⟨he, (htouch dir e he).mpr hnear, htype⟩, ?_⟩
    rw [hid hsource, hid htarget]
    dsimp only at htype
    rw [htype]
    rfl

theorem leads_subgraphEdges {g : TypedRelationGraph} (hg : g.Keyed) (o : EdgeOrder) :
    Digraph.Leads g.nodeIndexFor (subgraphEdges s g o types direction resolveSupersessions) =
      Meets (GraphListed g) s types direction resolveSupersessions := by
  funext u m
  refine propext ⟨?_, fun hmeets => ?_⟩
  · rintro ⟨i, hi, hm⟩
    exact (mem_subgraphEdges hg hi).mp hm
  · have hnode : u ∈ g.nodes := by
      obtain ⟨_, hmem, hends, -⟩ := hmeets.listed
      obtain ⟨e, he, rfl⟩ := List.mem_map.mp hmem
      obtain ⟨hsource, htarget⟩ := hg.ends e he
      obtain ⟨hsource', htarget'⟩ := Prod.mk.inj hends
      have hsourceIdx := hg.nodeIndexFor_idAt hsource
      have htargetIdx := hg.nodeIndexFor_idAt htarget
      rw [hsource'] at hsourceIdx
      rw [htarget'] at htargetIdx
      rw [hg.mem_nodes_iff, ← hmeets.near]
      cases m.dir with
      | outgoing => exact ⟨e.1.1, hsourceIdx⟩
      | incoming => exact ⟨e.1.2, htargetIdx⟩
    obtain ⟨i, hi⟩ := hg.mem_nodes_iff.mp hnode
    exact ⟨i, hi, (mem_subgraphEdges hg hi).mpr hmeets⟩

/-- **What the database search follows from an entry.** -/
theorem leads_liveEdges {t : EdgeTable} {o : RowOrders} (hne : types ≠ []) :
    Digraph.Leads some (liveEdges s t o types direction resolveSupersessions) =
      Meets (LiveListed t o types) s types direction resolveSupersessions := by
  have hrow : ∀ {u dir} {row : RawEdgeRow},
      row ∈ queryDirectNeighbors t o u (types.map RelationType.asStr) (Direction.toNeighbor dir) →
        (∃ relType ∈ types, row.key.relationType = relType.asStr) ∧ row.key.near dir = u := by
    intro u dir row hrow
    obtain ⟨dir', key, columns, -, hjoins, rfl⟩ := (mem_queryDirectNeighbors hne).mp hrow
    have hdir : dir' = dir := by
      have := hjoins.wanted
      cases dir <;> exact List.mem_singleton.mp this
    exact ⟨hjoins.typed, hdir ▸ hjoins.near⟩
  funext u m
  unfold Digraph.Leads liveEdges
  simp only [List.mem_flatMap, List.mem_map]
  refine propext ⟨?_, ?_⟩
  · rintro ⟨_, hu, dir, hdir, row, hmem, rfl⟩
    cases hu
    obtain ⟨htyped, hnear⟩ := hrow (List.mem_of_mem_take hmem)
    exact ⟨⟨row, hmem, rfl⟩, htyped, hdir, hnear, rfl⟩
  · rintro ⟨⟨row, hmem, hkey⟩, -, hdir, -, hresolves⟩
    obtain ⟨key, dir, w⟩ := m
    obtain rfl : row.key = key := hkey
    dsimp only at hresolves
    subst hresolves
    exact ⟨u, rfl, dir, hdir, row, hmem, rfl⟩

/-- Where no rows are cut off the rows of the table are those listed. -/
theorem liveListed_iff {t : EdgeTable} {o : RowOrders} (hne : types ≠ []) {u : Nat} {dir : Direction}
    (hfanOut : (queryDirectNeighbors t o u (types.map RelationType.asStr) dir.toNeighbor).length ≤
      maxDbNeighborsPerNode) {key : EdgeKey} (hnear : key.near dir = u)
    (htyped : ∃ relType ∈ types, key.relationType = relType.asStr) :
    LiveListed t o types u dir key ↔ ∃ columns, t.lookup key = some columns := by
  unfold LiveListed
  rw [List.take_of_length_le hfanOut]
  constructor
  · rintro ⟨row, hrow, rfl⟩
    obtain ⟨-, key, columns, hkey, -, rfl⟩ := (mem_queryDirectNeighbors hne).mp hrow
    exact ⟨columns, hkey⟩
  · rintro ⟨columns, hkey⟩
    have hwanted : dir ∈ dir.toNeighbor.dirs := by cases dir <;> exact List.mem_singleton_self _
    exact ⟨mapEdgeRow (key, columns), (mem_queryDirectNeighbors hne).mpr ⟨dir, key, columns, hkey,
      ⟨⟨columns, hkey⟩, htyped, hwanted, hnear⟩, rfl⟩, rfl⟩

end Hops

/-! ## What is returned -/

/-- A returned edge as it was collected. -/
def SubgraphEdge.collected (e : SubgraphEdge) : CollectedEdge :=
  ⟨e.sourceId, e.targetId, e.relationType, e.depth⟩

/-- `id` is at most `maxDepth` hops away from the seeds. -/
abbrev WithinHops (Hop : Nat → MetEdge → Prop) (seeds : List Nat) (maxDepth id : Nat) : Prop :=
  CappedSearch.Within Hop MetEdge.effectiveNeighbor seeds maxDepth id

/-- What a search around `seeds` returns, that has collected the ids `collected`: the entries of these, and edges
between them, each recorded from a stored edge of its own. -/
structure SubgraphOf (s : Store) (Hop : Nat → MetEdge → Prop) (seeds : List Nat) (maxDepth maxNodes : Nat)
    (collected : List Nat) (r : SubgraphResponse) : Prop where
  collected_nodup : collected.Nodup
  collected_le : collected.length ≤ maxNodes
  collected_within : ∀ id ∈ collected, WithinHops Hop seeds maxDepth id
  complete : r.truncated = false → ∀ id, WithinHops Hop seeds maxDepth id → id ∈ collected
  truncated_iff : r.truncated = true ↔
    maxNodes ≤ seeds.dedup.length ∨ ∃ id, WithinHops Hop seeds maxDepth id ∧ id ∉ collected
  nodes_iff : ∀ e, e ∈ r.nodes ↔ s.find e.id = some e ∧ e.id ∈ collected
  nodes_nodup : (r.nodes.map EntryRecord.id).Nodup
  nodes_le : r.nodes.length ≤ maxNodes
  ends : ∀ e ∈ r.edges, e.sourceId ∈ collected ∧ e.targetId ∈ collected
  once : ∃ met : List (MetEdge × Nat), (met.map fun m => m.1.key).Nodup ∧
    (∀ m ∈ met, 1 ≤ m.2 ∧ m.2 ≤ maxDepth ∧ ∃ u ∈ collected, Hop u m.1) ∧
    (r.edges.map SubgraphEdge.collected).Perm (met.map fun m => m.1.record m.2)

theorem mem_fetchNodesBatch {s : Store} {o : HashMap.IterOrder Nat EntryRow} {ids : List Nat} {e : EntryRecord} :
    e ∈ fetchNodesBatch s o ids ↔ s.find e.id = some e ∧ e.id ∈ ids := by
  unfold fetchNodesBatch
  rw [List.mem_filter, Store.mem_allEntries, List.contains_iff_mem]

theorem fetchNodesBatch_nodup (s : Store) (o : HashMap.IterOrder Nat EntryRow) (ids : List Nat) :
    ((fetchNodesBatch s o ids).map EntryRecord.id).Nodup :=
  (Store.allEntries_ids_nodup s o).sublist (List.filter_sublist.map _)

/-- No more entries are fetched than ids are asked for. -/
theorem fetchNodesBatch_length_le (s : Store) (o : HashMap.IterOrder Nat EntryRow) (ids : List Nat) :
    (fetchNodesBatch s o ids).length ≤ ids.length := by
  rw [← List.length_map EntryRecord.id]
  refine ((fetchNodesBatch_nodup s o ids).subperm fun id hid => ?_).length_le
  obtain ⟨e, he, rfl⟩ := List.mem_map.mp hid
  exact (mem_fetchNodesBatch.mp he).2

/-- What a search ended with, and a part of the edges it kept. -/
structure Collected (Hop : Nat → MetEdge → Prop) (seeds : List Nat) (maxDepth maxNodes : Nat)
    (r : CappedSearch.State Nat Nat MetEdge × Bool) (edges : List CollectedEdge) : Prop where
  outcome : CappedSearch.Outcome Hop MetEdge.effectiveNeighbor MetEdge.key maxDepth maxNodes seeds r.1.nodes
    r.1.met r.2
  kept : edges.Sublist (keptEdges r.1)

theorem Collected.once {Hop : Nat → MetEdge → Prop} {seeds : List Nat} {maxDepth maxNodes : Nat}
    {r : CappedSearch.State Nat Nat MetEdge × Bool} {edges : List CollectedEdge}
    (h : Collected Hop seeds maxDepth maxNodes r edges) :
    ∃ met : List (MetEdge × Nat), (met.map fun m => m.1.key).Nodup ∧
      (∀ m ∈ met, 1 ≤ m.2 ∧ m.2 ≤ maxDepth ∧ ∃ u ∈ r.1.nodes, Hop u m.1) ∧
      edges = met.map fun m => m.1.record m.2 := by
  obtain ⟨met, hmet, rfl⟩ := List.sublist_map_iff.mp (h.kept.trans List.filter_sublist)
  exact ⟨met, h.outcome.once.sublist (hmet.map _), fun m hm => h.outcome.hops m (hmet.subset hm), rfl⟩

/-- **The response to a search**, unless the metadata cannot be read. -/
theorem subgraphResponse_spec (s : Store) (oNodes : HashMap.IterOrder Nat EntryRow)
    (fetchEdgeMetadata : MetadataQuery) (seedIds : List Nat) {seeds : List Nat} {Hop : Nat → MetEdge → Prop}
    {maxDepth maxNodes : Nat} {c : CappedSearch.State Nat Nat MetEdge × Bool} {edges : List CollectedEdge}
    (h : Collected Hop seeds maxDepth maxNodes c edges) :
    (∃ text, edges ≠ [] ∧ fetchEdgeMetadata edges = .error text ∧
        subgraphResponse s oNodes fetchEdgeMetadata seedIds c.1.nodes edges c.2 = .error text) ∨
      ∃ r, subgraphResponse s oNodes fetchEdgeMetadata seedIds c.1.nodes edges c.2 = .ok r ∧
        SubgraphOf s Hop seeds maxDepth maxNodes c.1.nodes r := by
  have hok : ∀ metadata : EdgeKey → Option String, ∀ depthReached,
      SubgraphOf s Hop seeds maxDepth maxNodes c.1.nodes
        ⟨StableSort.sortBy EntryRecord.id (fetchNodesBatch s oNodes c.1.nodes),
          StableSort.sortBy SubgraphEdge.triple (edges.map (toSubgraphEdge metadata)), c.2, seedIds,
          depthReached⟩ := by
    intro metadata depthReached
    have hnodes := StableSort.sortBy_perm EntryRecord.id (fetchNodesBatch s oNodes c.1.nodes)
    have hsorted := StableSort.sortBy_perm SubgraphEdge.triple (edges.map (toSubgraphEdge metadata))
    have hcollected : (edges.map (toSubgraphEdge metadata)).map SubgraphEdge.collected = edges := by
      rw [List.map_map]
      exact List.map_id _
    refine ⟨h.outcome.nodup, h.outcome.length_le, h.outcome.within, h.outcome.complete,
      h.outcome.truncated_iff, fun e => ?_, ?_, ?_, fun e he => ?_, ?_⟩
    · exact hnodes.mem_iff.trans mem_fetchNodesBatch
    · exact ((hnodes.map EntryRecord.id).nodup_iff).mpr (fetchNodesBatch_nodup s oNodes c.1.nodes)
    · dsimp only
      rw [hnodes.length_eq]
      exact (fetchNodesBatch_length_le s oNodes c.1.nodes).trans h.outcome.length_le
    · obtain ⟨e', he', rfl⟩ := List.mem_map.mp (hsorted.mem_iff.mp he)
      have hwithin := (List.mem_filter.mp (h.kept.subset he')).2
      unfold CollectedEdge.within at hwithin
      rw [Bool.and_eq_true, List.contains_iff_mem, List.contains_iff_mem] at hwithin
      exact hwithin
    · obtain ⟨met, honce, hhops, hedges⟩ := h.once
      have hperm := hsorted.map SubgraphEdge.collected
      rw [hcollected, hedges] at hperm
      exact ⟨met, honce, hhops, hedges ▸ hperm⟩
  unfold subgraphResponse
  cases hempty : edges.isEmpty with
  | true => exact .inr ⟨_, rfl, hok (fun _ => none) _⟩
  | false =>
    rw [if_neg Bool.false_ne_true]
    cases hfetch : fetchEdgeMetadata edges with
    | error text =>
      refine .inl ⟨text, ?_, rfl, rfl⟩
      rintro rfl
      cases hempty
    | ok metadata => exact .inr ⟨_, rfl, hok metadata _⟩

/-! ## A request -/

/-- A request that passes the checks of `handle_subgraph`. -/
structure SubgraphRequest where
  params : GraphParams
  seedIds : List Nat
  maxDepth : Nat
  maxNodes : Nat
  direction : NeighborDirection
  types : List RelationType
  seeds_eq : subgraphSeeds params.seedIds = .ok seedIds
  depth_eq : subgraphDepth params.maxDepth = .ok maxDepth
  nodes_eq : subgraphNodes params.maxNodes = .ok maxNodes
  direction_eq : subgraphDirection params.direction = .ok direction
  types_eq : subgraphTypes params.edgeTypes = .ok types

namespace SubgraphRequest

/-- Superseded entries are resolved unless the request says otherwise. -/
def resolves (q : SubgraphRequest) : Bool := q.params.resolveSupersessions.getD true

/-- The resolved seeds. -/
def seeds (q : SubgraphRequest) (s : Store) : List Nat := q.seedIds.map (resolveEndpoint s q.resolves)

/-- What the request walks along: the rows at depth 1 and as long as there is no graph, else the graph. -/
def Hop (q : SubgraphRequest) (s : Store) (t : EdgeTable) (o : RowOrders) (state : TypedGraphState) :
    Nat → MetEdge → Prop :=
  if q.maxDepth = 1 ∨ state.useFallback = true then
    Meets (LiveListed t o q.types) s q.types q.direction q.resolves
  else Meets (GraphListed state.typedGraph) s q.types q.direction q.resolves

theorem Hop.resolves {q : SubgraphRequest} {s : Store} {t : EdgeTable} {o : RowOrders} {state : TypedGraphState}
    {u : Nat} {m : MetEdge} (h : q.Hop s t o state u m) :
    m.effectiveNeighbor = resolveEndpoint s q.resolves (m.key.far m.dir) := by
  unfold SubgraphRequest.Hop at h
  split at h
  · exact Meets.resolves h
  · exact Meets.resolves h

theorem handleSubgraph_eq (q : SubgraphRequest) (s : Store) (t : EdgeTable) (state : TypedGraphState)
    (oGraph : EdgeOrder) (o : RowOrders) (oNodes : HashMap.IterOrder Nat EntryRow)
    (fetchEdgeMetadata : MetadataQuery) :
    handleSubgraph s t state oGraph o oNodes fetchEdgeMetadata q.params =
      if q.maxDepth = 1 ∨ state.useFallback = true then
        subgraphViaDb s t o oNodes fetchEdgeMetadata q.seedIds q.maxDepth q.maxNodes q.direction q.types q.resolves
      else subgraphBfs s state.typedGraph oGraph oNodes fetchEdgeMetadata q.seedIds q.maxDepth q.maxNodes
        q.direction q.types q.resolves := by
  unfold handleSubgraph
  rw [q.seeds_eq, q.depth_eq, q.nodes_eq, q.direction_eq, q.types_eq]
  rfl

end SubgraphRequest

/-- A search ends with what `searched` takes from it. -/
theorem searched_outcome {enter : Nat → Option Nat} {expand : Nat → List MetEdge} (node : Nat → Nat)
    (hnode : ∀ v q, enter v = some q → node q = v) (maxDepth maxNodes : Nat) (seeds : List Nat) :
    let r := searched (CappedSearch.search enter expand MetEdge.effectiveNeighbor MetEdge.key maxDepth maxNodes
      seeds)
    CappedSearch.Outcome (Digraph.Leads enter expand) MetEdge.effectiveNeighbor MetEdge.key maxDepth maxNodes
      seeds r.1.nodes r.1.met r.2 := by
  intro r
  have hsome : (CappedSearch.search enter expand MetEdge.effectiveNeighbor MetEdge.key maxDepth maxNodes
    seeds).isSome = true := CappedSearch.search_isSome seeds
  obtain ⟨r', hr'⟩ := Option.isSome_iff_exists.mp hsome
  have heq : r = r' := by
    unfold r searched
    rw [hr']
    rfl
  rw [heq]
  exact CappedSearch.search_outcome hnode hr'

/-- Where nothing is resolved an edge is recorded as it is stored. -/
theorem MetEdge.record_stored {m : MetEdge} (h : m.effectiveNeighbor = m.key.far m.dir) (depth : Nat) :
    m.record depth = ⟨m.key.sourceId, m.key.targetId, m.key.relationType, depth⟩ := by
  obtain ⟨key, dir, w⟩ := m
  dsimp only at h
  unfold MetEdge.record
  cases dir with
  | outgoing =>
    dsimp only
    rw [h]
    rfl
  | incoming =>
    dsimp only
    rw [h]
    rfl

/-- Where nothing is resolved no edge is returned twice. -/
theorem SubgraphOf.triples_nodup {s : Store} {Hop : Nat → MetEdge → Prop} {seeds : List Nat}
    {maxDepth maxNodes : Nat} {collected : List Nat} {r : SubgraphResponse}
    (h : SubgraphOf s Hop seeds maxDepth maxNodes collected r)
    (hstored : ∀ u m, Hop u m → m.effectiveNeighbor = m.key.far m.dir) :
    (r.edges.map SubgraphEdge.triple).Nodup := by
  obtain ⟨met, honce, hhops, hperm⟩ := h.once
  let ends : CollectedEdge → EdgeKey := fun e => ⟨e.sourceId, e.targetId, e.relationType⟩
  have hends : (r.edges.map SubgraphEdge.collected).map ends = r.edges.map fun e => ends e.collected :=
    List.map_map
  have hkeys : (met.map fun m => m.1.record m.2).map ends = met.map fun m => m.1.key := by
    rw [List.map_map]
    refine List.map_congr_left fun m hm => ?_
    obtain ⟨-, -, u, -, hhop⟩ := hhops m hm
    simp only [Function.comp_apply]
    rw [MetEdge.record_stored (hstored u m.1 hhop)]
  have hnodup : (r.edges.map fun e => ends e.collected).Nodup := by
    rw [← hends, (hperm.map ends).nodup_iff, hkeys]
    exact honce
  refine List.Nodup.of_map (fun t : ℕ ×ₗ ℕ ×ₗ String =>
    (⟨(ofLex t).1, (ofLex (ofLex t).2).1, (ofLex (ofLex t).2).2⟩ : EdgeKey)) ?_
  rw [List.map_map]
  exact hnodup

/-- **What a subgraph request returns**, unless the metadata cannot be read. -/
theorem handleSubgraph_spec (s : Store) (t : EdgeTable) (graph : KeyedGraph) (allEntries : List EntryRecord)
    (useFallback : Bool) (oGraph : EdgeOrder) (o : RowOrders) (oNodes : HashMap.IterOrder Nat EntryRow)
    (fetchEdgeMetadata : MetadataQuery) (q : SubgraphRequest) :
    let state : TypedGraphState := ⟨graph.graph, allEntries, useFallback⟩
    let answer := handleSubgraph s t state oGraph o oNodes fetchEdgeMetadata q.params
    (∃ edges text, edges ≠ [] ∧ fetchEdgeMetadata edges = .error text ∧ answer = .error text) ∨
      ∃ r collected, answer = .ok r ∧
        SubgraphOf s (q.Hop s t o state) (q.seeds s) q.maxDepth q.maxNodes collected r ∧
        (q.resolves = false → (r.edges.map SubgraphEdge.triple).Nodup) := by
  intro state answer
  have hne : q.types ≠ [] := selectedTypes_ne_nil q.types_eq
  have hanswer : ∃ (c : CappedSearch.State Nat Nat MetEdge × Bool) (edges : List CollectedEdge),
      Collected (q.Hop s t o state) (q.seeds s) q.maxDepth q.maxNodes c edges ∧
        answer = subgraphResponse s oNodes fetchEdgeMetadata q.seedIds c.1.nodes edges c.2 := by
    unfold answer
    rw [q.handleSubgraph_eq]
    unfold SubgraphRequest.Hop
    by_cases hlive : q.maxDepth = 1 ∨ state.useFallback = true
    · rw [if_pos hlive, if_pos hlive, ← leads_liveEdges hne]
      exact ⟨_, _, ⟨searched_outcome id (fun v q h => (Option.some.inj h).symm) _ _ _,
        List.take_sublist _ _⟩, rfl⟩
    · rw [if_neg hlive, if_neg hlive, ← leads_subgraphEdges graph.keyed oGraph]
      exact ⟨_, _, ⟨searched_outcome graph.graph.idAt (fun v q h => graph.keyed.idAt h) _ _ _,
        List.Sublist.refl _⟩, rfl⟩
  obtain ⟨c, edges, hcollected, heq⟩ := hanswer
  rw [heq]
  rcases subgraphResponse_spec s oNodes fetchEdgeMetadata q.seedIds hcollected with
    ⟨text, hedges, hfetch, herror⟩ | ⟨r, hr, hof⟩
  · exact .inl ⟨edges, text, hedges, hfetch, herror⟩
  · refine .inr ⟨r, c.1.nodes, hr, hof, fun hraw => hof.triples_nodup fun u m hhop => ?_⟩
    have hresolves := SubgraphRequest.Hop.resolves hhop
    rw [hraw] at hresolves
    exact hresolves

/-! ## What one would not expect -/

/-- The nodes and edges of a response over a graph and a table, and whether it is truncated. -/
def sampleSubgraph (s : Store) (graphKeys rowKeys : List EdgeKey) (params : GraphParams) :
    Option (List Nat × List CollectedEdge × Bool) :=
  match handleSubgraph s (sampleEdges rowKeys) ⟨(sampleGraph s graphKeys).graph, [], false⟩ .stored
      (fun _ _ => .stored) .stored (fun _ => .ok fun _ => none) params with
  | .ok r => some (r.nodes.map EntryRecord.id, r.edges.map SubgraphEdge.collected, r.truncated)
  | .error _ => none

/-- One entry. -/
def loneEntry : Store := Store.linkStore [(1, Store.linkRow .active none none)]

/-- Entry 3 supersedes entry 2, entry 4 entry 3. -/
def correctedTwice : Store :=
  Store.linkStore [(1, Store.linkRow .active none none), (2, Store.linkRow .deprecated none (some 3)),
    (3, Store.linkRow .deprecated (some 2) (some 4)), (4, Store.linkRow .active (some 3) none)]

/-- Seeds that fill `max_nodes` are reported as truncated though they are all there is; two edges to versions of
one entry are returned as one and the same; the end of an edge that was deleted is not returned; and at depth 1
the rows are read, not the graph. -/
theorem subgraph_differs :
    (¬ ∀ (s : Store) (t : EdgeTable) (graph : KeyedGraph) (allEntries : List EntryRecord) (useFallback : Bool)
      (oGraph : EdgeOrder) (o : RowOrders) (oNodes : HashMap.IterOrder Nat EntryRow)
      (fetchEdgeMetadata : MetadataQuery) (q : SubgraphRequest) (r : SubgraphResponse),
      handleSubgraph s t ⟨graph.graph, allEntries, useFallback⟩ oGraph o oNodes fetchEdgeMetadata q.params =
        .ok r →
      (r.truncated = true ↔
        ∃ id, WithinHops (q.Hop s t o ⟨graph.graph, allEntries, useFallback⟩) (q.seeds s) q.maxDepth id ∧
          id ∉ r.nodes.map EntryRecord.id)) ∧
    sampleSubgraph correctedTwice [⟨1, 2, "Supports"⟩, ⟨1, 3, "Supports"⟩] [] { seedIds := some [1] } =
      some ([1, 4], [⟨1, 4, "Supports", 1⟩, ⟨1, 4, "Supports", 1⟩], false) ∧
    sampleSubgraph correctedTwice [] [⟨1, 9, "Supports"⟩] { seedIds := some [1], maxDepth := some 1 } =
      some ([1], [⟨1, 9, "Supports", 1⟩], false) ∧
    sampleSubgraph correctedTwice [⟨1, 4, "Supports"⟩] [] { seedIds := some [1], maxDepth := some 1 } =
      some ([1], [], false) := by
  refine ⟨fun hclaim => ?_, by decide +kernel, by decide +kernel, by decide +kernel⟩
  have hrun : sampleSubgraph loneEntry [] [] { seedIds := some [1], maxNodes := some 1 } =
      some ([1], [], true) := by decide +kernel
  unfold sampleSubgraph at hrun
  split at hrun
  · rename_i r hr
    obtain ⟨hnodes, hrest⟩ := Prod.mk.inj (Option.some.inj hrun)
    obtain ⟨-, htruncated⟩ := Prod.mk.inj hrest
    obtain ⟨id, ⟨n, -, seed, hseed, hwalk⟩, hout⟩ := (hclaim loneEntry (sampleEdges []) (sampleGraph loneEntry [])
      [] false .stored (fun _ _ => .stored) .stored (fun _ => .ok fun _ => none)
      ⟨{ seedIds := some [1], maxNodes := some 1 }, [1], 3, 1, .both, allNonSupersedesTypes, rfl, rfl, rfl, rfl,
        rfl⟩ r hr).mp htruncated
    have hedges : (sampleGraph loneEntry []).graph.edgesById = [] := by decide +kernel
    have hself : seed = 1 := List.mem_singleton.mp hseed
    obtain ⟨-, rfl⟩ := hwalk.of_sink fun w hedge => by
      obtain ⟨m, hmeets, -⟩ := hedge
      obtain ⟨e, he, -⟩ := Meets.listed hmeets
      dsimp only at he
      rw [hedges] at he
      cases he
    rw [hnodes, hself] at hout
    exact hout List.mem_cons_self
  · cases hrun

end Unimatrix
