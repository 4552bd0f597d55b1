import Unimatrix.Graph.Typed
import Unimatrix.Lib.Bfs
import Unimatrix.Store.Lineage

/-!
# Neighbors of an entry, in memory and in the database

Model of `neighbors_bfs`, `neighbors_via_db` and the type filter of `handle_neighbors` of
`graph_read_neighbors.rs`, of `query_direct_neighbors` of `graph_queries.rs` and of
`TypedGraphState::rebuild` of `typed_graph.rs`.

* `graph_edges` is unique on its ends and its type, which are its key here. A query without an `ORDER BY`
  returns its rows in any order, of its own for every node (`RowOrders`).
* Both searches are `Bfs.search`: what differs is what a node leads to and which node is queued for an entry
  (`bfsExpand`, `dbExpand`).

Over a table whose ends are entries that are not quarantined both searches walk along one relation,
`Reaches`, and record every entry in reach at its distance (`Answers`: **`neighborsBfs_answers`**,
**`neighborsViaDb_answers`**). **`neighbors_agree`** says what they have in common; they differ where several
edges lead to an entry, and the database search records superseded ends as they are stored.
-/

namespace Unimatrix

open Digraph

/-! ## The table -/

/-- What is unique in `graph_edges`. -/
structure EdgeKey where
  sourceId : Nat
  targetId : Nat
  relationType : String
  deriving DecidableEq, Repr

/-- The other columns of `graph_edges`. -/
structure EdgeColumns where
  weight : UInt32
  createdAt : Int
  createdBy : String
  source : String
  bootstrapOnly : Bool
  deriving DecidableEq, Repr

/-- The `graph_edges` table. -/
abbrev EdgeTable : Type := HashMap EdgeKey EdgeColumns

/-- The order in which a query returns rows of `graph_edges`. -/
abbrev TableOrder : Type := HashMap.IterOrder EdgeKey EdgeColumns

/-- A row as the engine takes it. -/
def toGraphEdgeRow (e : EdgeKey × EdgeColumns) : GraphEdgeRow where
  sourceId := e.1.sourceId
  targetId := e.1.targetId
  relationType := e.1.relationType
  weight := e.2.weight
  createdAt := e.2.createdAt
  createdBy := e.2.createdBy
  source := e.2.source
  bootstrapOnly := e.2.bootstrapOnly

/-- `query_graph_edges`. -/
def queryGraphEdges (t : EdgeTable) (o : TableOrder) : List GraphEdgeRow :=
  (t.iter o).map toGraphEdgeRow

/-! ## The graph in memory -/

/-- `TypedGraphState`. -/
structure TypedGraphState where
  typedGraph : TypedRelationGraph
  allEntries : List EntryRecord
  useFallback : Bool

/-- `TypedGraphState::rebuild`. -/
def TypedGraphState.rebuild (s : Store) (oEntries : HashMap.IterOrder Nat EntryRow) (t : EdgeTable)
    (oEdges : TableOrder) : Except StoreError TypedGraphState :=
  let allEntries := (s.allEntries oEntries).filter fun e => e.status ≠ .quarantined
  match buildTypedRelationGraph allEntries (queryGraphEdges t oEdges) with
  | .ok typedGraph => .ok ⟨typedGraph, allEntries, false⟩
  | .error .cycleDetected => .error (.invalidInput "supersedes" "supersession cycle detected")

/-! ## The queries -/

/-- `NeighborDirection`. -/
inductive NeighborDirection where
  | outgoing
  | incoming
  | both
  deriving DecidableEq, Repr

/-- `petgraph_dirs`. -/
def NeighborDirection.dirs : NeighborDirection → List Direction
  | .outgoing => [.outgoing]
  | .incoming => [.incoming]
  | .both => [.outgoing, .incoming]

/-- `RawEdgeRow`, with the confidence the plain path leaves out. -/
structure RawEdgeRow where
  sourceId : Nat
  targetId : Nat
  relationType : String
  source : String
  targetConfidence : Option UInt64
  deriving DecidableEq, Repr

/-- The orders of the queries, for the node and the direction asked for. -/
abbrev RowOrders : Type := Nat → Direction → TableOrder

/-- `relation_type IN (..)`; with no types, `relation_type != 'Supersedes'`. -/
def typeMatches (edgeTypes : List String) (relationType : String) : Bool :=
  if edgeTypes.isEmpty then relationType ≠ "Supersedes" else edgeTypes.contains relationType

/-- `map_edge_row`. -/
def mapEdgeRow (e : EdgeKey × EdgeColumns) : RawEdgeRow :=
  ⟨e.1.sourceId, e.1.targetId, e.1.relationType, e.2.source, none⟩

/-- The rows with one end at the entry. -/
def runQuery (t : EdgeTable) (o : TableOrder) (endpoint : EdgeKey → Nat) (id : Nat)
    (edgeTypes : List String) : List RawEdgeRow :=
  ((t.iter o).filter fun e => endpoint e.1 = id && typeMatches edgeTypes e.1.relationType).map
    mapEdgeRow

/-- `run_outgoing_query`. -/
def runOutgoingQuery (t : EdgeTable) (o : RowOrders) (id : Nat) : List String → List RawEdgeRow :=
  runQuery t (o id .outgoing) EdgeKey.sourceId id

/-- `run_incoming_query`. -/
def runIncomingQuery (t : EdgeTable) (o : RowOrders) (id : Nat) : List String → List RawEdgeRow :=
  runQuery t (o id .incoming) EdgeKey.targetId id

/-- `query_direct_neighbors`. -/
def queryDirectNeighbors (t : EdgeTable) (o : RowOrders) (id : Nat) (edgeTypes : List String)
    (direction : NeighborDirection) : List RawEdgeRow :=
  match direction with
  | .outgoing => runOutgoingQuery t o id edgeTypes
  | .incoming => runIncomingQuery t o id edgeTypes
  | .both => runOutgoingQuery t o id edgeTypes ++ runIncomingQuery t o id edgeTypes

/-! ## The type filter -/

/-- `all_non_supersedes_types`. -/
def allNonSupersedesTypes : List RelationType :=
  [.contradicts, .supports, .coAccess, .prerequisite, .informs, .advances, .motivates, .cites,
    .asserts, .mentions, .refutes, .tests, .derivedFrom, .about, .relatedTo]

/-- `eq_ignore_ascii_case`. -/
def eqIgnoreAsciiCase (a b : String) : Bool := a.map Char.toLower = b.map Char.toLower

/-- One type of the filter, or the text of the error. -/
def resolveEdgeType (s : String) : Except String RelationType :=
  if eqIgnoreAsciiCase s "Supersedes" then
    .error ("Supersedes edges are not traversable via neighbors mode — use chain or current modes " ++
      "for supersession navigation")
  else match RelationType.fromStr s with
    | some relType => .ok relType
    | none => .error ("unknown edge type '" ++ s ++ "' — valid types: Advances, Asserts, About, Cites, " ++
        "CoAccess, Contradicts, DerivedFrom, Informs, Mentions, Motivates, Prerequisite, Refutes, " ++
        "RelatedTo, Supports, Tests")

/-- Step 3 of `handle_neighbors`. -/
def requestedTypes (edgeTypes : Option (List String)) : Except String (List RelationType) :=
  match edgeTypes with
  | none => .ok allNonSupersedesTypes
  | some [] => .ok allNonSupersedesTypes
  | some typeStrings => typeStrings.mapM resolveEdgeType

/-! ## The two searches -/

/-- `EdgeRecord`, without its `metadata`, which is always absent. -/
structure EdgeRecord where
  sourceId : Nat
  targetId : Nat
  relationType : String
  direction : String
  depth : Nat
  deriving DecidableEq, Repr

/-- `follow_to_current(..).unwrap_or(neighbor_id)` if requested. -/
def resolveEndpoint (s : Store) (resolveSupersessions : Bool) (id : Nat) : Nat :=
  if resolveSupersessions then (s.followToCurrent id).getD id else id

/-- `MAX_DB_NEIGHBORS_PER_NODE`. -/
def maxDbNeighborsPerNode : Nat := 1000

/-- The neighbor of a row and what is recorded of it: its direction and the stored ends. -/
def rawNeighbor (currentId : Nat) (row : RawEdgeRow) : Nat × String × Nat × Nat :=
  if row.sourceId = currentId then (row.targetId, "outgoing", currentId, row.targetId)
  else (row.sourceId, "incoming", row.sourceId, currentId)

/-- What the rows of an entry lead to. -/
def dbExpand (s : Store) (t : EdgeTable) (o : RowOrders) (types : List RelationType)
    (direction : NeighborDirection) (resolveSupersessions : Bool) (currentId : Nat) :
    List (Nat × (Nat → EdgeRecord)) :=
  ((queryDirectNeighbors t o currentId (types.map RelationType.asStr) direction).take
      maxDbNeighborsPerNode).map fun row =>
    let (neighborId, edgeDirStr, recordSrc, recordTgt) := rawNeighbor currentId row
    (resolveEndpoint s resolveSupersessions neighborId,
      fun hopDepth => ⟨recordSrc, recordTgt, row.relationType, edgeDirStr, hopDepth⟩)

/-- The entries a row can lead to. -/
def dbEntries (s : Store) (t : EdgeTable) (resolveSupersessions : Bool) : List Nat :=
  t.pairs.flatMap fun e => [resolveEndpoint s resolveSupersessions e.1.sourceId,
    resolveEndpoint s resolveSupersessions e.1.targetId]

/-- `neighbors_via_db`. -/
def neighborsViaDb (s : Store) (t : EdgeTable) (o : RowOrders) (id : Nat)
    (types : List RelationType) (direction : NeighborDirection) (depth : Nat)
    (resolveSupersessions : Bool) : List EdgeRecord :=
  (Bfs.search some (dbExpand s t o types direction resolveSupersessions) depth
    ((dbEntries s t resolveSupersessions).length + 2) id id).getD []

/-- The far end of an edge. -/
def farIndex (dir : Direction) (e : IndexedEdge) : Nat :=
  match dir with
  | .outgoing => e.1.2
  | .incoming => e.1.1

/-- What is recorded of an edge found in memory. -/
def bfsRecord (currentId effectiveId : Nat) (relType : RelationType) (dir : Direction)
    (hopDepth : Nat) : EdgeRecord :=
  match dir with
  | .outgoing => ⟨currentId, effectiveId, relType.asStr, "outgoing", hopDepth⟩
  | .incoming => ⟨effectiveId, currentId, relType.asStr, "incoming", hopDepth⟩

/-- What the edges of a node lead to. -/
def bfsExpand (s : Store) (g : TypedRelationGraph) (o : EdgeOrder) (types : List RelationType)
    (direction : NeighborDirection) (resolveSupersessions : Bool) (current : Nat × Nat) :
    List (Nat × (Nat → EdgeRecord)) :=
  types.flatMap fun relType => direction.dirs.flatMap fun dir =>
    (g.edgesOfType o current.1 relType dir).filterMap fun e =>
      (g.nodeIdForIndex (farIndex dir e)).map fun neighborId =>
        (resolveEndpoint s resolveSupersessions neighborId,
          bfsRecord current.2 (resolveEndpoint s resolveSupersessions neighborId) relType dir)

/-- The node queued for an entry. -/
def bfsEnter (g : TypedRelationGraph) (id : Nat) : Option (Nat × Nat) :=
  (g.nodeIndexFor id).map fun idx => (idx, id)

theorem bfsEnter_eq_some {g : TypedRelationGraph} {id : Nat} {p : Nat × Nat} :
    bfsEnter g id = some p ↔ g.nodeIndexFor id = some p.1 ∧ p.2 = id := by
  obtain ⟨idx, v⟩ := p
  unfold bfsEnter
  rw [Option.map_eq_some_iff]
  constructor
  · rintro ⟨i, hi, heq⟩
    obtain ⟨rfl, rfl⟩ := Prod.mk.inj heq
    exact ⟨hi, rfl⟩
  · rintro ⟨hi, rfl⟩
    exact ⟨idx, hi, rfl⟩

/-- `neighbors_bfs`. -/
def neighborsBfs (s : Store) (t : EdgeTable) (state : TypedGraphState) (oGraph : EdgeOrder)
    (o : RowOrders) (id : Nat) (types : List RelationType) (direction : NeighborDirection)
    (depth : Nat) (resolveSupersessions : Bool) : List EdgeRecord :=
  if state.useFallback then neighborsViaDb s t o id types direction depth resolveSupersessions
  else match state.typedGraph.nodeIndexFor id with
    | none => []
    | some startNode =>
      (Bfs.search (bfsEnter state.typedGraph)
        (bfsExpand s state.typedGraph oGraph types direction resolveSupersessions) depth
        (state.typedGraph.nodes.length + 2) id (startNode, id)).getD []

/-! ## What both searches walk along -/

/-- The end of an edge it leaves along a direction. -/
def EdgeKey.near (key : EdgeKey) : Direction → Nat
  | .outgoing => key.sourceId
  | .incoming => key.targetId

/-- The end of an edge it leads to along a direction. -/
def EdgeKey.far (key : EdgeKey) : Direction → Nat
  | .outgoing => key.targetId
  | .incoming => key.sourceId

/-- A row of a wanted type leads away from `u`. -/
structure Joins (t : EdgeTable) (types : List RelationType) (direction : NeighborDirection) (u : Nat)
    (dir : Direction) (key : EdgeKey) : Prop where
  stored : ∃ columns, t.lookup key = some columns
  typed : ∃ relType ∈ types, key.relationType = relType.asStr
  wanted : dir ∈ direction.dirs
  near : key.near dir = u

/-- An edge of a wanted type leads from `u` to an entry that `w` stands for. -/
def Reaches (s : Store) (t : EdgeTable) (types : List RelationType) (direction : NeighborDirection)
    (resolveSupersessions : Bool) (u w : Nat) : Prop :=
  ∃ dir key, Joins t types direction u dir key ∧
    resolveEndpoint s resolveSupersessions (key.far dir) = w

/-- An entry that is not quarantined. -/
def Store.Present (s : Store) (id : Nat) : Prop :=
  ∃ e, s.find id = some e ∧ e.status ≠ .quarantined

/-- No row is bootstrap only, and both ends of every row are present. -/
structure PlainTable (s : Store) (t : EdgeTable) : Prop where
  plain : ∀ key columns, t.lookup key = some columns → columns.bootstrapOnly = false
  source : ∀ key columns, t.lookup key = some columns → s.Present key.sourceId
  target : ∀ key columns, t.lookup key = some columns → s.Present key.targetId

theorem PlainTable.near {s : Store} {t : EdgeTable} (h : PlainTable s t) {key : EdgeKey}
    {columns : EdgeColumns} (hkey : t.lookup key = some columns) (dir : Direction) :
    s.Present (key.near dir) := by
  cases dir with
  | outgoing => exact h.source key columns hkey
  | incoming => exact h.target key columns hkey

/-- **Resolving twice is resolving once.** -/
theorem resolveEndpoint_idem (s : Store) (resolveSupersessions : Bool) (id : Nat) :
    resolveEndpoint s resolveSupersessions (resolveEndpoint s resolveSupersessions id) =
      resolveEndpoint s resolveSupersessions id := by
  unfold resolveEndpoint
  split
  · cases hf : s.followToCurrent id with
    | none => rw [Option.getD_none, hf, Option.getD_none]
    | some t =>
      obtain ⟨ht, -⟩ := Store.followToCurrent_eq_some.mp hf
      have hself : s.followToCurrent t = some t :=
        Store.followToCurrent_eq_some.mpr ⟨ht, 0, by omega, .refl⟩
      rw [Option.getD_some, hself, Option.getD_some]
  · rfl

/-! ## The type filter -/

theorem resolveEdgeType_ne {text : String} {relType : RelationType}
    (h : resolveEdgeType text = .ok relType) : relType ≠ .supersedes := by
  unfold resolveEdgeType at h
  split at h
  · cases h
  · rename_i hne
    split at h
    · rename_i r hr
      cases h
      rintro rfl
      rw [RelationType.eq_asStr_of_fromStr hr] at hne
      exact absurd (decide_eq_true rfl) hne
    · cases h

/-- What `mapM` returns is what the function returns at each element. -/
theorem forall₂_of_mapM {α β ε : Type} {f : α → Except ε β} {l : List α} {l' : List β} (h : l.mapM f = .ok l') :
    List.Forall₂ (fun a b => f a = .ok b) l l' := by
  induction l generalizing l' with
  | nil =>
    rw [List.mapM_nil] at h
    cases h
    exact .nil
  | cons a l ih =>
    rw [List.mapM_cons] at h
    cases hhead : f a with
    | error e =>
      rw [hhead] at h
      cases h
    | ok b =>
      cases htail : l.mapM f with
      | error e =>
        rw [hhead, htail] at h
        cases h
      | ok rest =>
        rw [hhead, htail] at h
        cases h
        exact .cons hhead (ih htail)

/-- **What the filter asks for**: some types, and never `Supersedes`. -/
theorem requestedTypes_spec {edgeTypes : Option (List String)} {types : List RelationType}
    (h : requestedTypes edgeTypes = .ok types) :
    types ≠ [] ∧ ∀ relType ∈ types, relType ≠ .supersedes := by
  unfold requestedTypes at h
  split at h
  · cases h
    exact ⟨by decide, by decide⟩
  · cases h
    exact ⟨by decide, by decide⟩
  · rename_i texts hne
    have hall := forall₂_of_mapM h
    have hfound : List.Forall₂ (fun relType text => relType ≠ .supersedes ∧ resolveEdgeType text = .ok relType)
        types texts := hall.flip.imp fun _ _ hr => ⟨resolveEdgeType_ne hr, hr⟩
    refine ⟨?_, ((List.forall₂_and_left _ _).mp hfound).1⟩
    rintro rfl
    exact hne (List.eq_nil_of_length_eq_zero hall.length_eq)

/-! ## What an entry leads to in the database -/

/-- What the database search records of an edge it found from `u`. -/
def dbRecord (u : Nat) (key : EdgeKey) (hopDepth : Nat) : EdgeRecord :=
  ⟨key.sourceId, key.targetId, key.relationType,
    if key.sourceId = u then "outgoing" else "incoming", hopDepth⟩

theorem typeMatches_iff {types : List RelationType} (hne : types ≠ []) {relationType : String} :
    typeMatches (types.map RelationType.asStr) relationType = true ↔
      ∃ relType ∈ types, relationType = relType.asStr := by
  unfold typeMatches
  rw [if_neg (by simpa using hne), List.contains_iff_mem, List.mem_map]
  constructor
  · rintro ⟨relType, hr, rfl⟩
    exact ⟨relType, hr, rfl⟩
  · rintro ⟨relType, hr, rfl⟩
    exact ⟨relType, hr, rfl⟩

/-- The rows of one query. -/
theorem mem_runQuery {t : EdgeTable} {o : TableOrder} {dir : Direction} {u : Nat}
    {types : List RelationType} (hne : types ≠ []) {row : RawEdgeRow} :
    row ∈ runQuery t o (fun key => key.near dir) u (types.map RelationType.asStr) ↔
      ∃ key columns, t.lookup key = some columns ∧ key.near dir = u ∧
        (∃ relType ∈ types, key.relationType = relType.asStr) ∧ row = mapEdgeRow (key, columns) := by
  unfold runQuery
  rw [List.mem_map]
  constructor
  · rintro ⟨⟨key, columns⟩, hmem, rfl⟩
    rw [List.mem_filter, Bool.and_eq_true, decide_eq_true_eq, HashMap.mem_iter,
      typeMatches_iff hne] at hmem
    exact ⟨key, columns, hmem.1, hmem.2.1, hmem.2.2, rfl⟩
  · rintro ⟨key, columns, hkey, hnear, htype, rfl⟩
    refine ⟨(key, columns), ?_, rfl⟩
    rw [List.mem_filter, Bool.and_eq_true, decide_eq_true_eq, HashMap.mem_iter, typeMatches_iff hne]
    exact ⟨hkey, hnear, htype⟩

/-- **The rows of an entry.** -/
theorem mem_queryDirectNeighbors {t : EdgeTable} {o : RowOrders} {u : Nat} {types : List RelationType}
    (hne : types ≠ []) {direction : NeighborDirection} {row : RawEdgeRow} :
    row ∈ queryDirectNeighbors t o u (types.map RelationType.asStr) direction ↔
      ∃ dir key columns, t.lookup key = some columns ∧ Joins t types direction u dir key ∧
        row = mapEdgeRow (key, columns) := by
  have hquery : ∀ dir, row ∈ runQuery t (o u dir) (fun key => key.near dir) u
      (types.map RelationType.asStr) ∧ dir ∈ direction.dirs ↔
      ∃ key columns, t.lookup key = some columns ∧ Joins t types direction u dir key ∧
        row = mapEdgeRow (key, columns) := by
    intro dir
    rw [mem_runQuery hne]
    constructor
    · rintro ⟨⟨key, columns, hkey, hnear, htype, hrow⟩, hdir⟩
      exact ⟨key, columns, hkey, ⟨⟨columns, hkey⟩, htype, hdir, hnear⟩, hrow⟩
    · rintro ⟨key, columns, hkey, hjoins, hrow⟩
      exact ⟨⟨key, columns, hkey, hjoins.near, hjoins.typed, hrow⟩, hjoins.wanted⟩
  have hunion : row ∈ queryDirectNeighbors t o u (types.map RelationType.asStr) direction ↔
      ∃ dir, row ∈ runQuery t (o u dir) (fun key => key.near dir) u
        (types.map RelationType.asStr) ∧ dir ∈ direction.dirs := by
    have hout : ∀ types, runOutgoingQuery t o u types =
        runQuery t (o u .outgoing) (fun key => key.near .outgoing) u types := fun _ => rfl
    have hin : ∀ types, runIncomingQuery t o u types =
        runQuery t (o u .incoming) (fun key => key.near .incoming) u types := fun _ => rfl
    unfold queryDirectNeighbors NeighborDirection.dirs
    constructor
    · cases direction with
      | outgoing => exact fun h => ⟨.outgoing, h, List.mem_singleton_self _⟩
      | incoming => exact fun h => ⟨.incoming, h, List.mem_singleton_self _⟩
      | both =>
        intro h
        rcases List.mem_append.mp h with h | h
        · exact ⟨.outgoing, h, by simp⟩
        · exact ⟨.incoming, h, by simp⟩
    · rintro ⟨dir, h, hdir⟩
      cases direction <;> cases dir <;> simp at hdir ⊢
      · exact h
      · exact h
      · exact .inl h
      · exact .inr h
  rw [hunion]
  exact exists_congr hquery

theorem rawNeighbor_eq {key : EdgeKey} {columns : EdgeColumns} {dir : Direction} {u : Nat}
    (hnear : key.near dir = u) :
    rawNeighbor u (mapEdgeRow (key, columns)) =
      (key.far dir, if key.sourceId = u then "outgoing" else "incoming", key.sourceId,
        key.targetId) := by
  unfold rawNeighbor mapEdgeRow
  dsimp only
  cases dir with
  | outgoing =>
    have hsource : key.sourceId = u := hnear
    rw [if_pos hsource, if_pos hsource, ← hsource]
    rfl
  | incoming =>
    have htarget : key.targetId = u := hnear
    split
    · rename_i hsource
      rw [← hsource]
      unfold EdgeKey.far
      dsimp only
      rw [htarget, hsource]
    · rw [← htarget]
      rfl

/-- **What the database search finds from an entry**, as long as no rows are cut off. -/
theorem mem_dbExpand {s : Store} {t : EdgeTable} {o : RowOrders} {types : List RelationType}
    (hne : types ≠ []) {direction : NeighborDirection} {resolveSupersessions : Bool} {u : Nat}
    (hfanOut : (queryDirectNeighbors t o u (types.map RelationType.asStr) direction).length ≤
      maxDbNeighborsPerNode) {w : Nat} {rec : Nat → EdgeRecord} :
    (w, rec) ∈ dbExpand s t o types direction resolveSupersessions u ↔
      ∃ dir key, Joins t types direction u dir key ∧
        resolveEndpoint s resolveSupersessions (key.far dir) = w ∧ rec = dbRecord u key := by
  unfold dbExpand
  rw [List.take_of_length_le hfanOut, List.mem_map]
  constructor
  · rintro ⟨row, hrow, heq⟩
    obtain ⟨dir, key, columns, -, hjoins, rfl⟩ := (mem_queryDirectNeighbors hne).mp hrow
    rw [rawNeighbor_eq hjoins.near] at heq
    obtain ⟨rfl, rfl⟩ := Prod.mk.inj heq
    exact ⟨dir, key, hjoins, rfl, rfl⟩
  · rintro ⟨dir, key, hjoins, rfl, rfl⟩
    obtain ⟨columns, hkey⟩ := hjoins.stored
    refine ⟨mapEdgeRow (key, columns), ?_, ?_⟩
    · exact (mem_queryDirectNeighbors hne).mpr ⟨dir, key, columns, hkey, hjoins, rfl⟩
    · rw [rawNeighbor_eq hjoins.near]
      rfl

/-! ## What an entry leads to in the graph -/

section Graph

variable {s : Store} {oEntries : HashMap.IterOrder Nat EntryRow} {t : EdgeTable} {oEdges : TableOrder}
  {state : TypedGraphState} {types : List RelationType} {direction : NeighborDirection}
  {resolveSupersessions : Bool}

/-- The graph was built from what is present and from the whole table. -/
theorem build_of_rebuild (h : TypedGraphState.rebuild s oEntries t oEdges = .ok state) :
    buildTypedRelationGraph ((s.allEntries oEntries).filter fun e => e.status ≠ .quarantined)
        (queryGraphEdges t oEdges) = .ok state.typedGraph ∧ state.useFallback = false := by
  unfold TypedGraphState.rebuild at h
  dsimp only at h
  split at h
  · rename_i g hg
    cases h
    exact ⟨hg, rfl⟩
  · cases h

theorem isSome_of_present (h : TypedGraphState.rebuild s oEntries t oEdges = .ok state) {id : Nat} :
    (state.typedGraph.nodeIndexFor id).isSome = true ↔ s.Present id := by
  rw [TypedRelationGraph.nodeIndexFor_isSome (build_of_rebuild h).1, List.mem_map]
  constructor
  · rintro ⟨e, he, rfl⟩
    rw [List.mem_filter, Store.mem_allEntries, decide_eq_true_eq] at he
    exact ⟨e, he⟩
  · rintro ⟨e, hfind, hstatus⟩
    obtain rfl := Store.id_of_find hfind
    refine ⟨e, ?_, rfl⟩
    rw [List.mem_filter, Store.mem_allEntries, decide_eq_true_eq]
    exact ⟨hfind, hstatus⟩

/-- **The edges of one type are the rows of that type.** -/
theorem mem_edges_of_rebuild (h : TypedGraphState.rebuild s oEntries t oEdges = .ok state)
    (hplain : PlainTable s t) {relType : RelationType} (hrel : relType ≠ .supersedes)
    {e : IndexedEdge} :
    (e ∈ state.typedGraph.edges ∧ e.2.relationType = relType.asStr) ↔
      ∃ key columns, t.lookup key = some columns ∧ key.relationType = relType.asStr ∧
        state.typedGraph.nodeIndexFor key.sourceId = some e.1.1 ∧
        state.typedGraph.nodeIndexFor key.targetId = some e.1.2 ∧
        e.2 = ⟨key.relationType, columns.weight, columns.createdAt, columns.createdBy,
          columns.source, false⟩ := by
  have hname : relType.asStr ≠ "Supersedes" := fun heq => hrel (RelationType.asStr_inj heq)
  rw [TypedRelationGraph.edges_of_build (build_of_rebuild h).1, List.mem_append, List.mem_filterMap,
    List.mem_filterMap]
  constructor
  · rintro ⟨⟨entry, -, hedge⟩ | ⟨row, hrow, hedge⟩, htype⟩
    · exact absurd (htype.symm.trans (TypedRelationGraph.supersedesEdge_eq_some hedge).1) hname
    · obtain ⟨⟨key, columns⟩, hmem, rfl⟩ := List.mem_map.mp hrow
      obtain ⟨-, hsource, htarget, he⟩ := TypedRelationGraph.rowEdge_eq_some.mp hedge
      refine ⟨key, columns, HashMap.mem_iter.mp hmem, ?_, hsource, htarget, he⟩
      rw [he] at htype
      exact htype
  · rintro ⟨key, columns, hkey, htype, hsource, htarget, he⟩
    refine ⟨.inr ⟨toGraphEdgeRow (key, columns), List.mem_map_of_mem (HashMap.mem_iter.mpr hkey), ?_⟩, ?_⟩
    · refine TypedRelationGraph.rowEdge_eq_some.mpr ⟨⟨?_, ?_, ?_⟩, hsource, htarget, he⟩
      · exact hplain.plain key columns hkey
      · exact fun heq => hname (htype.symm.trans heq)
      · change (RelationType.fromStr key.relationType).isSome = true
        rw [htype, RelationType.fromStr_asStr]
        rfl
    · rw [he]
      exact htype

/-- The two ends of an edge, in the direction it is met. -/
theorem ends_of_touches (idx : Nat) (dir : Direction) {e : IndexedEdge} {key : EdgeKey}
    {g : TypedRelationGraph} (hsource : g.nodeIndexFor key.sourceId = some e.1.1)
    (htarget : g.nodeIndexFor key.targetId = some e.1.2) :
    (TypedRelationGraph.touches idx dir e = true ↔ g.nodeIndexFor (key.near dir) = some idx) ∧
      g.nodeIndexFor (key.far dir) = some (farIndex dir e) := by
  cases dir with
  | outgoing =>
    refine ⟨?_, htarget⟩
    unfold TypedRelationGraph.touches EdgeKey.near
    simp [hsource]
  | incoming =>
    refine ⟨?_, hsource⟩
    unfold TypedRelationGraph.touches EdgeKey.near
    simp [htarget]

/-- **What the search in memory finds from an entry.** -/
theorem mem_bfsExpand (h : TypedGraphState.rebuild s oEntries t oEdges = .ok state)
    (hplain : PlainTable s t) (hrel : ∀ relType ∈ types, relType ≠ .supersedes) {o : EdgeOrder}
    {u idx : Nat} (hu : state.typedGraph.nodeIndexFor u = some idx) {w : Nat}
    {rec : Nat → EdgeRecord} :
    (w, rec) ∈ bfsExpand s state.typedGraph o types direction resolveSupersessions (idx, u) ↔
      ∃ dir key, Joins t types direction u dir key ∧
        resolveEndpoint s resolveSupersessions (key.far dir) = w ∧
        ∃ relType, key.relationType = relType.asStr ∧ rec = bfsRecord u w relType dir := by
  have hbuild := (build_of_rebuild h).1
  have hindexed := TypedRelationGraph.indexed_of_build hbuild
  unfold bfsExpand
  simp only [List.mem_flatMap, List.mem_filterMap, TypedRelationGraph.mem_edgesOfType,
    Option.map_eq_some_iff]
  constructor
  · rintro ⟨relType, htypes, dir, hdir, e, ⟨hmem, htouches, htype⟩, m, hm, heq⟩
    obtain ⟨key, columns, hkey, hkeyType, hsource, htarget, -⟩ :=
      (mem_edges_of_rebuild h hplain (hrel relType htypes)).mp ⟨hmem, htype⟩
    obtain ⟨hnear, hfar⟩ := ends_of_touches idx dir hsource htarget
    obtain rfl : m = key.far dir := by
      rw [hindexed _ _ hfar] at hm
      exact (Option.some.inj hm).symm
    obtain ⟨rfl, rfl⟩ := Prod.mk.inj heq
    refine ⟨dir, key, ⟨⟨columns, hkey⟩, ⟨relType, htypes, hkeyType⟩, hdir, ?_⟩, rfl, relType, hkeyType, rfl⟩
    exact TypedRelationGraph.nodeIndexFor_inj hbuild (hnear.mp htouches) hu
  · rintro ⟨dir, key, hjoins, rfl, relType', hkeyType', rfl⟩
    obtain ⟨columns, hkey⟩ := hjoins.stored
    obtain ⟨relType, htypes, hkeyType⟩ := hjoins.typed
    obtain rfl : relType' = relType := RelationType.asStr_inj (hkeyType'.symm.trans hkeyType)
    obtain ⟨i, hi⟩ := Option.isSome_iff_exists.mp
      ((isSome_of_present h).mpr (hplain.source key columns hkey))
    obtain ⟨j, hj⟩ := Option.isSome_iff_exists.mp
      ((isSome_of_present h).mpr (hplain.target key columns hkey))
    let e : IndexedEdge := ((i, j), ⟨key.relationType, columns.weight, columns.createdAt,
      columns.createdBy, columns.source, false⟩)
    obtain ⟨hnear, hfar⟩ := ends_of_touches idx dir (e := e) hi hj
    obtain ⟨hmem, htype⟩ := (mem_edges_of_rebuild h hplain (hrel relType' htypes)).mpr
      ⟨key, columns, hkey, hkeyType, hi, hj, (rfl : e.2 = _)⟩
    refine ⟨relType', htypes, dir, hjoins.wanted, e, ⟨hmem, ?_, htype⟩, key.far dir,
      hindexed _ _ hfar, rfl⟩
    rw [hnear, hjoins.near]
    exact hu

end Graph

/-! ## What the two searches record -/

/-- An edge from an entry at distance `n` to one a step further. -/
structure Found (s : Store) (t : EdgeTable) (types : List RelationType)
    (direction : NeighborDirection) (resolveSupersessions : Bool) (a n w u : Nat) (dir : Direction)
    (key : EdgeKey) : Prop where
  from_dist : Dist (Reaches s t types direction resolveSupersessions) a n u
  to_dist : Dist (Reaches s t types direction resolveSupersessions) a (n + 1) w
  joins : Joins t types direction u dir key
  resolves : resolveEndpoint s resolveSupersessions (key.far dir) = w

/-- What the search in memory records of an edge it found from `u` to `w`. -/
def foundRecord (u w : Nat) (dir : Direction) (key : EdgeKey) (hopDepth : Nat) : EdgeRecord :=
  match dir with
  | .outgoing => ⟨u, w, key.relationType, "outgoing", hopDepth⟩
  | .incoming => ⟨w, u, key.relationType, "incoming", hopDepth⟩

theorem bfsRecord_eq_foundRecord {u w : Nat} {relType : RelationType} {dir : Direction} {key : EdgeKey}
    (h : key.relationType = relType.asStr) : bfsRecord u w relType dir = foundRecord u w dir key := by
  funext hopDepth
  unfold bfsRecord foundRecord
  rw [h]

/-- A search up to `depth`, that records an edge as `record` has it: a record is made along an edge a step
further, and every entry in reach has one. -/
structure Answers (s : Store) (t : EdgeTable) (types : List RelationType)
    (direction : NeighborDirection) (resolveSupersessions : Bool) (a depth : Nat)
    (record : Nat → Nat → Direction → EdgeKey → Nat → EdgeRecord) (out : List EdgeRecord) : Prop where
  sound : ∀ r ∈ out, ∃ n w u dir key, n < depth ∧
    Found s t types direction resolveSupersessions a n w u dir key ∧ r = record u w dir key (n + 1)
  complete : ∀ n w, n < depth → Dist (Reaches s t types direction resolveSupersessions) a (n + 1) w →
    ∃ u dir key, Found s t types direction resolveSupersessions a n w u dir key ∧
      record u w dir key (n + 1) ∈ out

section Searches

variable {s : Store} {t : EdgeTable} {types : List RelationType} {direction : NeighborDirection}
  {resolveSupersessions : Bool} {a depth : Nat}
  {record : Nat → Nat → Direction → EdgeKey → Nat → EdgeRecord}

/-- **A search over the edges of the table answers.** -/
theorem answers_of_search {Q : Type} {enter : Nat → Option Q}
    {expand : Q → List (Nat × (Nat → EdgeRecord))} (node : Q → Nat) {U : List Nat} {q : Q}
    (hnode : ∀ v q, enter v = some q → node q = v)
    (hall : ∀ u dir key, Joins t types direction u dir key → (enter u).isSome = true)
    (hexpand : ∀ u q w rec, enter u = some q → ((w, rec) ∈ expand q ↔
      ∃ dir key, Joins t types direction u dir key ∧
        resolveEndpoint s resolveSupersessions (key.far dir) = w ∧ rec = record u w dir key))
    (hU : ∀ q w rec, (w, rec) ∈ expand q → (enter w).isSome = true → w ∈ U)
    (henter : enter a = some q) :
    Answers s t types direction resolveSupersessions a depth record
      ((Bfs.search enter expand depth (U.length + 2) a q).getD []) := by
  have hedge : Bfs.Edge enter expand = Reaches s t types direction resolveSupersessions := by
    funext u w
    refine propext ⟨?_, ?_⟩
    · rintro ⟨q, hq, rec, hr⟩
      obtain ⟨dir, key, hjoins, hw, -⟩ := (hexpand u q w rec hq).mp hr
      exact ⟨dir, key, hjoins, hw⟩
    · rintro ⟨dir, key, hjoins, hw⟩
      obtain ⟨q, hq⟩ := Option.isSome_iff_exists.mp (hall u dir key hjoins)
      exact ⟨q, hq, record u w dir key, (hexpand u q w _ hq).mpr ⟨dir, key, hjoins, hw, rfl⟩⟩
  have hfound : ∀ n w rec, Bfs.Candidate enter expand a n w rec ↔
      ∃ u dir key, Found s t types direction resolveSupersessions a n w u dir key ∧
        rec = record u w dir key := by
    intro n w rec
    unfold Bfs.Candidate
    rw [hedge]
    constructor
    · rintro ⟨u, q, hu, hw, hq, hr⟩
      obtain ⟨dir, key, hjoins, hres, hrec⟩ := (hexpand u q w rec hq).mp hr
      exact ⟨u, dir, key, ⟨hu, hw, hjoins, hres⟩, hrec⟩
    · rintro ⟨u, dir, key, h, hrec⟩
      obtain ⟨q, hq⟩ := Option.isSome_iff_exists.mp (hall u dir key h.joins)
      exact ⟨u, q, h.from_dist, h.to_dist, hq,
        (hexpand u q w rec hq).mpr ⟨dir, key, h.joins, h.resolves, hrec⟩⟩
  obtain ⟨out, hout⟩ := Option.isSome_iff_exists.mp (Bfs.search_isSome hU depth a q)
  rw [hout, Option.getD_some]
  constructor
  · intro r hr
    obtain ⟨n, w, rec, hn, hcand, rfl⟩ := Bfs.search_sound hnode henter hout hr
    obtain ⟨u, dir, key, h, rfl⟩ := (hfound n w rec).mp hcand
    exact ⟨n, w, u, dir, key, hn, h, rfl⟩
  · intro n w hn hw
    obtain ⟨rec, hcand, hr⟩ := Bfs.search_complete hnode henter hout hn (hedge ▸ hw)
    obtain ⟨u, dir, key, h, rfl⟩ := (hfound n w rec).mp hcand
    exact ⟨u, dir, key, h, hr⟩

/-- **The database search answers with the stored ends.** -/
theorem neighborsViaDb_answers (hne : types ≠ []) {o : RowOrders}
    (hfanOut : ∀ u, (queryDirectNeighbors t o u (types.map RelationType.asStr) direction).length ≤
      maxDbNeighborsPerNode) :
    Answers s t types direction resolveSupersessions a depth (fun u _ _ key => dbRecord u key)
      (neighborsViaDb s t o a types direction depth resolveSupersessions) := by
  unfold neighborsViaDb
  refine answers_of_search id (fun v q h => (Option.some.inj h).symm) (fun _ _ _ _ => rfl)
    (fun u q w rec h => ?_) (fun q w rec hr _ => ?_) rfl
  · obtain rfl := Option.some.inj h
    exact mem_dbExpand hne (hfanOut u)
  · obtain ⟨dir, key, hjoins, rfl, -⟩ := (mem_dbExpand hne (hfanOut q)).mp hr
    obtain ⟨columns, hkey⟩ := hjoins.stored
    refine List.mem_flatMap.mpr ⟨(key, columns), HashMap.mem_pairs.mpr hkey, ?_⟩
    cases dir <;> simp [EdgeKey.far]

/-- **The search in memory answers with the ends the searches walk along.** -/
theorem neighborsBfs_answers {oEntries : HashMap.IterOrder Nat EntryRow} {oEdges : TableOrder}
    {state : TypedGraphState} (h : TypedGraphState.rebuild s oEntries t oEdges = .ok state)
    (hplain : PlainTable s t) (hrel : ∀ relType ∈ types, relType ≠ .supersedes) {oGraph : EdgeOrder}
    {o : RowOrders} :
    Answers s t types direction resolveSupersessions a depth foundRecord
      (neighborsBfs s t state oGraph o a types direction depth resolveSupersessions) := by
  obtain ⟨hbuild, hwarm⟩ := build_of_rebuild h
  have hpresent : ∀ {u dir key}, Joins t types direction u dir key →
      (state.typedGraph.nodeIndexFor u).isSome = true := by
    intro u dir key hjoins
    obtain ⟨columns, hkey⟩ := hjoins.stored
    exact (isSome_of_present h).mpr (hjoins.near ▸ hplain.near hkey dir)
  unfold neighborsBfs
  rw [hwarm, if_neg Bool.false_ne_true]
  cases hstart : state.typedGraph.nodeIndexFor a with
  | none =>
    refine ⟨fun r hr => absurd hr List.not_mem_nil, fun n w hn hw => ?_⟩
    obtain ⟨v, ⟨dir, key, hjoins, -⟩, -⟩ := hw.1.uncons
    have := hpresent hjoins
    rw [hstart] at this
    cases this
  | some startNode =>
    refine answers_of_search Prod.snd (fun v q hq => (bfsEnter_eq_some.mp hq).2)
      (fun u dir key hjoins => ?_) (fun u q w rec hq => ?_) (fun q w rec _ hw => ?_)
      (bfsEnter_eq_some.mpr ⟨hstart, rfl⟩)
    · obtain ⟨i, hi⟩ := Option.isSome_iff_exists.mp (hpresent hjoins)
      have hq : bfsEnter state.typedGraph u = some (i, u) := bfsEnter_eq_some.mpr ⟨hi, rfl⟩
      rw [hq]
      rfl
    · obtain ⟨idx, v⟩ := q
      obtain ⟨hidx, rfl⟩ := bfsEnter_eq_some.mp hq
      rw [mem_bfsExpand h hplain hrel hidx]
      refine exists_congr fun dir => exists_congr fun key => and_congr_right fun hjoins =>
        and_congr_right fun _ => ?_
      constructor
      · rintro ⟨relType, htype, rfl⟩
        exact bfsRecord_eq_foundRecord htype
      · rintro rfl
        obtain ⟨relType, -, htype⟩ := hjoins.typed
        exact ⟨relType, htype, (bfsRecord_eq_foundRecord htype).symm⟩
    · obtain ⟨⟨idx, v⟩, hq⟩ := Option.isSome_iff_exists.mp hw
      obtain ⟨hidx, rfl⟩ := bfsEnter_eq_some.mp hq
      have hnode := TypedRelationGraph.indexed_of_build hbuild _ _ hidx
      exact List.mem_of_getElem? hnode

end Searches

/-! ## What they have in common -/

namespace EdgeRecord

/-- The entry an edge was found to lead to. -/
def far (e : EdgeRecord) : Nat := if e.direction = "outgoing" then e.targetId else e.sourceId

/-- An edge and its depth, without the direction it was met in. -/
def edge (e : EdgeRecord) : Nat × Nat × String × Nat := (e.sourceId, e.targetId, e.relationType, e.depth)

/-- An edge with its far end resolved. -/
def resolved (s : Store) (resolveSupersessions : Bool) (e : EdgeRecord) : EdgeRecord :=
  if e.direction = "outgoing" then
    { e with targetId := resolveEndpoint s resolveSupersessions e.targetId }
  else { e with sourceId := resolveEndpoint s resolveSupersessions e.sourceId }

theorem resolved_far (s : Store) (resolveSupersessions : Bool) (e : EdgeRecord) :
    (e.resolved s resolveSupersessions).far = resolveEndpoint s resolveSupersessions e.far := by
  unfold resolved far
  by_cases h : e.direction = "outgoing" <;> simp [h]

theorem resolved_depth (s : Store) (resolveSupersessions : Bool) (e : EdgeRecord) :
    (e.resolved s resolveSupersessions).depth = e.depth := by
  unfold resolved
  split <;> rfl

end EdgeRecord

theorem foundRecord_far (u w : Nat) (dir : Direction) (key : EdgeKey) (hopDepth : Nat) :
    (foundRecord u w dir key hopDepth).far = w := by
  cases dir <;> simp [foundRecord, EdgeRecord.far]

theorem foundRecord_depth (u w : Nat) (dir : Direction) (key : EdgeKey) (hopDepth : Nat) :
    (foundRecord u w dir key hopDepth).depth = hopDepth := by
  cases dir <;> rfl

theorem dbRecord_far {u : Nat} {dir : Direction} {key : EdgeKey} (hnear : key.near dir = u)
    (hopDepth : Nat) : (dbRecord u key hopDepth).far = key.far dir := by
  unfold dbRecord EdgeRecord.far
  cases dir with
  | outgoing =>
    have hsource : key.sourceId = u := hnear
    simp [hsource, EdgeKey.far]
  | incoming =>
    have htarget : key.targetId = u := hnear
    by_cases hsource : key.sourceId = u
    · simp [hsource, htarget, EdgeKey.far]
    · simp [hsource, EdgeKey.far]

/-- On an edge that is no loop the two record the same, but for the far end. -/
theorem dbRecord_resolved {s : Store} {resolveSupersessions : Bool} {u w : Nat} {dir : Direction}
    {key : EdgeKey} (hnear : key.near dir = u) (hloop : key.sourceId ≠ key.targetId)
    (hw : resolveEndpoint s resolveSupersessions (key.far dir) = w) (hopDepth : Nat) :
    (dbRecord u key hopDepth).resolved s resolveSupersessions = foundRecord u w dir key hopDepth := by
  subst hw hnear
  unfold dbRecord foundRecord EdgeRecord.resolved
  cases dir with
  | outgoing => simp [EdgeKey.near, EdgeKey.far]
  | incoming => simp [EdgeKey.near, EdgeKey.far, hloop]

theorem EdgeRecord.resolved_of_far {s : Store} {resolveSupersessions : Bool} {e : EdgeRecord}
    (h : resolveEndpoint s resolveSupersessions e.far = e.far) :
    e.resolved s resolveSupersessions = e := by
  unfold EdgeRecord.far at h
  unfold EdgeRecord.resolved
  split
  · rename_i hdir
    rw [if_pos hdir] at h
    rw [h]
  · rename_i hdir
    rw [if_neg hdir] at h
    rw [h]

section Agree

variable {s : Store} {t : EdgeTable} {types : List RelationType} {direction : NeighborDirection}
  {resolveSupersessions : Bool} {a depth : Nat}
  {record : Nat → Nat → Direction → EdgeKey → Nat → EdgeRecord} {out : List EdgeRecord}

/-- **The entries in reach are recorded, at their distances.** -/
theorem Answers.distances
    (h : Answers s t types direction resolveSupersessions a depth record out) {f : EdgeRecord → Nat}
    (hfar : ∀ n w u dir key, Found s t types direction resolveSupersessions a n w u dir key →
      f (record u w dir key (n + 1)) = w)
    (hdepth : ∀ u w dir key n, (record u w dir key n).depth = n) (w k : Nat) :
    (∃ e ∈ out, f e = w ∧ e.depth = k) ↔ 0 < k ∧ k ≤ depth ∧
      Dist (Reaches s t types direction resolveSupersessions) a k w := by
  constructor
  · rintro ⟨e, he, hfe, hde⟩
    obtain ⟨n, w', u, dir, key, hn, hfound, rfl⟩ := h.sound e he
    rw [hfar n w' u dir key hfound] at hfe
    rw [hdepth] at hde
    subst hfe hde
    exact ⟨Nat.succ_pos n, hn, hfound.to_dist⟩
  · rintro ⟨hpos, hk, hw⟩
    obtain ⟨n, rfl⟩ := Nat.exists_eq_succ_of_ne_zero hpos.ne'
    obtain ⟨u, dir, key, hfound, hr⟩ := h.complete n w hk hw
    exact ⟨_, hr, hfar n w u dir key hfound, hdepth _ _ _ _ _⟩

/-- The entry is reached from one step nearer along one edge only, which is no loop. -/
def OneEdge (s : Store) (t : EdgeTable) (types : List RelationType) (direction : NeighborDirection)
    (resolveSupersessions : Bool) (a w : Nat) : Prop :=
  ∃ dir key, key.sourceId ≠ key.targetId ∧ ∀ n u dir' key',
    Found s t types direction resolveSupersessions a n w u dir' key' → dir' = dir ∧ key' = key

/-- **Where there is one edge, its record is the only one.** -/
theorem Answers.mem_iff (h : Answers s t types direction resolveSupersessions a depth record out)
    {f : EdgeRecord → EdgeRecord} {n w : Nat} (hn : n < depth)
    (hw : Dist (Reaches s t types direction resolveSupersessions) a (n + 1) w)
    (hone : OneEdge s t types direction resolveSupersessions a w)
    (hf : ∀ n w u dir key, Found s t types direction resolveSupersessions a n w u dir key →
      (f (record u w dir key (n + 1))).far = w)
    (heq : ∀ u dir key, key.sourceId ≠ key.targetId →
      Found s t types direction resolveSupersessions a n w u dir key →
      f (record u w dir key (n + 1)) = foundRecord u w dir key (n + 1)) {e : EdgeRecord} (he : e.far = w) :
    e ∈ out.map f ↔ ∃ u dir key, Found s t types direction resolveSupersessions a n w u dir key ∧
      e = foundRecord u w dir key (n + 1) := by
  obtain ⟨dir₀, key₀, hloop, honly⟩ := hone
  have hrec : ∀ u dir key, Found s t types direction resolveSupersessions a n w u dir key →
      f (record u w dir key (n + 1)) = foundRecord u w dir key (n + 1) := by
    intro u dir key hfound
    obtain ⟨rfl, rfl⟩ := honly n u dir key hfound
    exact heq u _ _ hloop hfound
  rw [List.mem_map]
  constructor
  · rintro ⟨r, hr, rfl⟩
    obtain ⟨m, w', u, dir, key, -, hfound, rfl⟩ := h.sound r hr
    rw [hf m w' u dir key hfound] at he
    subst he
    obtain rfl : m = n := Nat.succ.inj (hfound.to_dist.unique hw)
    exact ⟨u, dir, key, hfound, hrec u dir key hfound⟩
  · rintro ⟨u, dir, key, hfound, rfl⟩
    obtain ⟨u', dir', key', hfound', hr⟩ := h.complete n w hn hw
    refine ⟨_, hr, ?_⟩
    rw [hrec u' dir' key' hfound']
    obtain ⟨rfl, rfl⟩ := honly n u dir key hfound
    obtain ⟨rfl, rfl⟩ := honly n u' dir' key' hfound'
    rw [← hfound.joins.near, ← hfound'.joins.near]

/-- Two answers with the same entries at the same depths agree on an edge if they do when its far end is
at its depth. -/
theorem mem_iff_of_distances {l l' : List EdgeRecord} {D : Nat → Nat → Prop}
    (hl : ∀ w k, (∃ e ∈ l, e.far = w ∧ e.depth = k) ↔ 0 < k ∧ k ≤ depth ∧ D k w)
    (hl' : ∀ w k, (∃ e ∈ l', e.far = w ∧ e.depth = k) ↔ 0 < k ∧ k ≤ depth ∧ D k w) {e : EdgeRecord}
    (h : ∀ n, n < depth → D (n + 1) e.far → (e ∈ l ↔ e ∈ l')) : e ∈ l ↔ e ∈ l' := by
  have hat : 0 < e.depth ∧ e.depth ≤ depth ∧ D e.depth e.far → (e ∈ l ↔ e ∈ l') := by
    rintro ⟨hpos, hle, hdist⟩
    obtain ⟨n, hn⟩ := Nat.exists_eq_succ_of_ne_zero hpos.ne'
    rw [hn] at hle hdist
    exact h n hle hdist
  constructor
  · intro he
    exact (hat ((hl _ _).mp ⟨e, he, rfl, rfl⟩)).mp he
  · intro he
    exact (hat ((hl' _ _).mp ⟨e, he, rfl, rfl⟩)).mpr he

/-! What the database search records, with its far ends resolved. -/

theorem Found.resolved_far {n w u : Nat} {dir : Direction} {key : EdgeKey}
    (h : Found s t types direction resolveSupersessions a n w u dir key) (hopDepth : Nat) :
    ((dbRecord u key hopDepth).resolved s resolveSupersessions).far = w := by
  rw [EdgeRecord.resolved_far, dbRecord_far h.joins.near, h.resolves]

theorem Answers.resolved_distances
    (h : Answers s t types direction resolveSupersessions a depth (fun u _ _ key => dbRecord u key) out)
    (w k : Nat) :
    (∃ e ∈ out.map (EdgeRecord.resolved s resolveSupersessions), e.far = w ∧ e.depth = k) ↔
      0 < k ∧ k ≤ depth ∧ Dist (Reaches s t types direction resolveSupersessions) a k w := by
  rw [← h.distances (f := fun e => (e.resolved s resolveSupersessions).far)
    (fun n _ _ _ _ hfound => hfound.resolved_far (n + 1)) (fun _ _ _ _ _ => rfl)]
  constructor
  · rintro ⟨e, he, hfar, hdepth⟩
    obtain ⟨r, hr, rfl⟩ := List.mem_map.mp he
    exact ⟨r, hr, hfar, (EdgeRecord.resolved_depth s resolveSupersessions r).symm.trans hdepth⟩
  · rintro ⟨r, hr, hfar, hdepth⟩
    exact ⟨_, List.mem_map_of_mem hr, hfar,
      (EdgeRecord.resolved_depth s resolveSupersessions r).trans hdepth⟩

/-- Where no edge leads to a superseded entry they are resolved already. -/
theorem Answers.map_resolved
    (h : Answers s t types direction resolveSupersessions a depth (fun u _ _ key => dbRecord u key) out)
    (hcurrent : ∀ dir key columns, t.lookup key = some columns →
      resolveEndpoint s resolveSupersessions (key.far dir) = key.far dir) :
    out.map (EdgeRecord.resolved s resolveSupersessions) = out := by
  refine (List.map_congr_left fun e he => ?_).trans (List.map_id out)
  obtain ⟨n, w, u, dir, key, -, hfound, rfl⟩ := h.sound e he
  obtain ⟨columns, hkey⟩ := hfound.joins.stored
  refine EdgeRecord.resolved_of_far ?_
  rw [dbRecord_far hfound.joins.near, hcurrent dir key columns hkey]

end Agree

/-- **Both searches record the same entries at the same depths**; where one edge leads to an entry they
record that edge, and where this holds of every entry in reach and no edge leads to a superseded one they
return the same edges. -/
theorem neighbors_agree {s : Store} {oEntries : HashMap.IterOrder Nat EntryRow} {t : EdgeTable}
    {oEdges : TableOrder} {state : TypedGraphState}
    (h : TypedGraphState.rebuild s oEntries t oEdges = .ok state) (hplain : PlainTable s t)
    {edgeTypes : Option (List String)} {types : List RelationType}
    (htypes : requestedTypes edgeTypes = .ok types) {direction : NeighborDirection} {o : RowOrders}
    (hfanOut : ∀ u, (queryDirectNeighbors t o u (types.map RelationType.asStr) direction).length ≤
      maxDbNeighborsPerNode) (oGraph : EdgeOrder) (o' : RowOrders) (id depth : Nat)
    (resolveSupersessions : Bool) :
    let bfs := neighborsBfs s t state oGraph o' id types direction depth resolveSupersessions
    let db := neighborsViaDb s t o id types direction depth resolveSupersessions
    let resolved := db.map (EdgeRecord.resolved s resolveSupersessions)
    (∀ w k, (∃ e ∈ bfs, e.far = w ∧ e.depth = k) ↔ ∃ e ∈ resolved, e.far = w ∧ e.depth = k) ∧
      (∀ w, OneEdge s t types direction resolveSupersessions id w →
        ∀ e, e.far = w → (e ∈ bfs ↔ e ∈ resolved)) ∧
      ((∀ n w, n < depth → Dist (Reaches s t types direction resolveSupersessions) id (n + 1) w →
          OneEdge s t types direction resolveSupersessions id w) →
        (∀ dir key columns, t.lookup key = some columns →
          resolveEndpoint s resolveSupersessions (key.far dir) = key.far dir) →
        ∀ x, x ∈ bfs.map EdgeRecord.edge ↔ x ∈ db.map EdgeRecord.edge) := by
  intro bfs db resolved
  obtain ⟨hne, hrel⟩ := requestedTypes_spec htypes
  have hbfs : Answers s t types direction resolveSupersessions id depth foundRecord bfs :=
    neighborsBfs_answers h hplain hrel
  have hdb : Answers s t types direction resolveSupersessions id depth (fun u _ _ key => dbRecord u key) db :=
    neighborsViaDb_answers hne hfanOut
  have hbfsDist := hbfs.distances (f := EdgeRecord.far)
    (fun n w u dir key _ => foundRecord_far u w dir key (n + 1)) foundRecord_depth
  have hdbDist : ∀ w k, (∃ e ∈ resolved, e.far = w ∧ e.depth = k) ↔ 0 < k ∧ k ≤ depth ∧
      Dist (Reaches s t types direction resolveSupersessions) id k w := hdb.resolved_distances
  have hone : ∀ w, OneEdge s t types direction resolveSupersessions id w →
      ∀ e, e.far = w → (e ∈ bfs ↔ e ∈ resolved) := by
    intro w hw e he
    refine mem_iff_of_distances hbfsDist hdbDist fun n hn hdist => ?_
    rw [he] at hdist
    rw [← List.map_id bfs, hbfs.mem_iff hn hdist hw
      (fun n w u dir key _ => foundRecord_far u w dir key (n + 1)) (fun _ _ _ _ _ => rfl) he]
    exact (hdb.mem_iff hn hdist hw (fun n _ _ _ _ hfound => hfound.resolved_far (n + 1))
      (fun u dir key hloop hfound => dbRecord_resolved hfound.joins.near hloop hfound.resolves (n + 1)) he).symm
  refine ⟨fun w k => (hbfsDist w k).trans (hdbDist w k).symm, hone, fun hall hcurrent x => ?_⟩
  have hsame : resolved = db := hdb.map_resolved hcurrent
  have hmem : ∀ e, e ∈ bfs ↔ e ∈ db := by
    intro e
    rw [← hsame]
    exact mem_iff_of_distances hbfsDist hdbDist fun n hn hdist =>
      hone e.far (hall n e.far hn hdist) e rfl
  rw [List.mem_map, List.mem_map]
  exact exists_congr fun e => and_congr_left fun _ => hmem e

/-- The rows of an entry are rows of the table, once for each of its ends at most. -/
theorem queryDirectNeighbors_length_le (t : EdgeTable) (o : RowOrders) (u : Nat)
    (edgeTypes : List String) (direction : NeighborDirection) :
    (queryDirectNeighbors t o u edgeTypes direction).length ≤ 2 * t.pairs.length := by
  have hquery : ∀ (o : TableOrder) endpoint,
      (runQuery t o endpoint u edgeTypes).length ≤ t.pairs.length := by
    intro o endpoint
    unfold runQuery
    rw [List.length_map, ← (t.iter_perm o).length_eq]
    exact List.length_filter_le _ _
  have hout := hquery (o u .outgoing) EdgeKey.sourceId
  have hin := hquery (o u .incoming) EdgeKey.targetId
  unfold queryDirectNeighbors runOutgoingQuery runIncomingQuery
  cases direction with
  | outgoing => exact hout.trans (by omega)
  | incoming => exact hin.trans (by omega)
  | both =>
    rw [List.length_append]
    omega

/-- A table of edges of weight 1. -/
def sampleEdges (keys : List EdgeKey) : EdgeTable :=
  HashMap.collect (keys.map fun key => (key, ⟨0x3F800000, 0, "agent", "", false⟩))

/-- What both searches return, of every type there is. -/
def comparison (s : Store) (t : EdgeTable) (id depth : Nat) (resolveSupersessions : Bool) :
    Option (List EdgeRecord × List EdgeRecord) :=
  match TypedGraphState.rebuild s .stored t .stored with
  | .ok state => some
      (neighborsBfs s t state .stored (fun _ _ => .stored) id allNonSupersedesTypes .both depth
        resolveSupersessions,
       neighborsViaDb s t (fun _ _ => .stored) id allNonSupersedesTypes .both depth
        resolveSupersessions)
  | .error _ => none

/-- Entry 3 supersedes entry 2. -/
def supersededNeighbor : Store :=
  Store.linkStore [(1, Store.linkRow .active none none), (2, Store.linkRow .deprecated none (some 3)),
    (3, Store.linkRow .active (some 2) none)]

theorem supersededNeighbor_present {id : Nat} (h : id = 1 ∨ id = 2 ∨ id = 3) :
    supersededNeighbor.Present id := by
  rcases h with rfl | rfl | rfl
  · exact ⟨_, rfl, by decide⟩
  · exact ⟨_, rfl, by decide⟩
  · exact ⟨_, rfl, by decide⟩

/-- The edges of a sample lie between given entries. -/
theorem lookup_sampleEdges {keys : List EdgeKey} {key : EdgeKey} {columns : EdgeColumns}
    (h : (sampleEdges keys).lookup key = some columns) : key ∈ keys ∧ columns.bootstrapOnly = false := by
  obtain ⟨key', hmem, heq⟩ := List.mem_map.mp (HashMap.mem_of_lookup_collect h)
  cases heq
  exact ⟨hmem, rfl⟩

theorem supersededNeighbor_plain {keys : List EdgeKey}
    (hkeys : ∀ key ∈ keys, (key.sourceId = 1 ∨ key.sourceId = 2 ∨ key.sourceId = 3) ∧
      (key.targetId = 1 ∨ key.targetId = 2 ∨ key.targetId = 3)) :
    PlainTable supersededNeighbor (sampleEdges keys) where
  plain _ _ h := (lookup_sampleEdges h).2
  source key _ h := supersededNeighbor_present (hkeys key (lookup_sampleEdges h).1).1
  target key _ h := supersededNeighbor_present (hkeys key (lookup_sampleEdges h).1).2

theorem neighbors_agree_supersededNeighbor :
    ∃ state, TypedGraphState.rebuild supersededNeighbor .stored (sampleEdges [⟨1, 2, "Supports"⟩])
        .stored = .ok state ∧
      ∀ w k,
        (∃ e ∈ neighborsBfs supersededNeighbor (sampleEdges [⟨1, 2, "Supports"⟩]) state .stored
            (fun _ _ => .stored) 1 allNonSupersedesTypes .both 2 true, e.far = w ∧ e.depth = k) ↔
          ∃ e ∈ (neighborsViaDb supersededNeighbor (sampleEdges [⟨1, 2, "Supports"⟩])
              (fun _ _ => .stored) 1 allNonSupersedesTypes .both 2 true).map
            (EdgeRecord.resolved supersededNeighbor true), e.far = w ∧ e.depth = k := by
  have hok : (TypedGraphState.rebuild supersededNeighbor .stored (sampleEdges [⟨1, 2, "Supports"⟩])
    .stored).toOption.isSome = true := by decide +kernel
  cases hrebuild : TypedGraphState.rebuild supersededNeighbor .stored
      (sampleEdges [⟨1, 2, "Supports"⟩]) .stored with
  | error e =>
    rw [hrebuild] at hok
    cases hok
  | ok state =>
    refine ⟨state, rfl, (neighbors_agree hrebuild (supersededNeighbor_plain (by decide))
      (rfl : requestedTypes none = .ok allNonSupersedesTypes) (fun u => ?_) .stored (fun _ _ => .stored) 1 2 true).1⟩
    exact (queryDirectNeighbors_length_le _ _ _ _ _).trans (by decide)

/-- The database search records a superseded neighbor as stored; where several edges lead to an entry each
search records the one it meets first; and an edge to an entry that does not exist is in the table only. -/
theorem neighbors_differ :
    (¬ ∀ (s : Store) (oEntries : HashMap.IterOrder Nat EntryRow) (t : EdgeTable) (oEdges : TableOrder)
      (state : TypedGraphState) (edgeTypes : Option (List String)) (types : List RelationType)
      (direction : NeighborDirection) (oGraph : EdgeOrder) (o : RowOrders) (id depth : Nat)
      (resolveSupersessions : Bool),
      TypedGraphState.rebuild s oEntries t oEdges = .ok state →
      (∀ key columns, t.lookup key = some columns → columns.bootstrapOnly = false) →
      (∀ key columns e, t.lookup key = some columns →
        s.find key.sourceId = some e ∨ s.find key.targetId = some e → e.status ≠ .quarantined) →
      requestedTypes edgeTypes = .ok types → 2 ≤ depth →
      (∀ u, (queryDirectNeighbors t o u (types.map RelationType.asStr) direction).length ≤
        maxDbNeighborsPerNode) →
      ∀ x, x ∈ (neighborsBfs s t state oGraph o id types direction depth
          resolveSupersessions).map EdgeRecord.edge ↔
        x ∈ (neighborsViaDb s t o id types direction depth resolveSupersessions).map EdgeRecord.edge) ∧
    comparison supersededNeighbor (sampleEdges [⟨1, 2, "Supports"⟩]) 1 2 true =
      some ([⟨1, 3, "Supports", "outgoing", 1⟩], [⟨1, 2, "Supports", "outgoing", 1⟩]) ∧
    comparison supersededNeighbor (sampleEdges [⟨1, 3, "Supports"⟩, ⟨1, 3, "Informs"⟩]) 1 2 false =
      some ([⟨1, 3, "Supports", "outgoing", 1⟩], [⟨1, 3, "Informs", "outgoing", 1⟩]) ∧
    comparison supersededNeighbor (sampleEdges [⟨1, 9, "Supports"⟩]) 1 2 false =
      some ([], [⟨1, 9, "Supports", "outgoing", 1⟩]) := by
  have hrun : comparison supersededNeighbor (sampleEdges [⟨1, 2, "Supports"⟩]) 1 2 true =
      some ([⟨1, 3, "Supports", "outgoing", 1⟩], [⟨1, 2, "Supports", "outgoing", 1⟩]) := by
    decide +kernel
  refine ⟨fun hclaim => ?_, hrun, by decide +kernel, by decide +kernel⟩
  unfold comparison at hrun
  split at hrun
  · rename_i state hrebuild
    obtain ⟨hbfs, hdb⟩ := Prod.mk.inj (Option.some.inj hrun)
    have hplain : PlainTable supersededNeighbor (sampleEdges [⟨1, 2, "Supports"⟩]) :=
      supersededNeighbor_plain (by decide)
    have hsame := hclaim supersededNeighbor .stored _ .stored state none allNonSupersedesTypes .both .stored
      (fun _ _ => .stored) 1 2 true hrebuild hplain.plain ?_ rfl (Nat.le_refl 2)
      (fun u => (queryDirectNeighbors_length_le _ _ _ _ _).trans (by decide)) (1, 3, "Supports", 1)
    · rw [hbfs, hdb] at hsame
      exact absurd (hsame.mp (by decide)) (by decide)
    · rintro key columns e hkey (he | he)
      · obtain ⟨e', he', hstatus⟩ := hplain.source key columns hkey
        rw [he] at he'
        cases he'
        exact hstatus
      · obtain ⟨e', he', hstatus⟩ := hplain.target key columns hkey
        rw [he] at he'
        cases he'
        exact hstatus
  · cases hrun

end Unimatrix
