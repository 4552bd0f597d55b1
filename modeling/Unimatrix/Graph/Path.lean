import Unimatrix.Graph.Build
import Unimatrix.Graph.Neighbors
import Unimatrix.Lib.ShortestPath

/-!
# Shortest paths, in memory and in the database

Model of `handle_path`, `path_via_db` and `parse_relation_types` of `graph_read_path.rs`.

* Both searches are `ShortestPath.search`: what differs is what a node leads to and which node is queued for
  an entry (`pathExpand`, `dbHops`).
* An edge is followed to the entry its target resolves to (`GraphHop`, `RowHop`); where the rows mirror the
  graph the two are one relation (`MirroringRows`).

In memory nothing is searched unless both ends are in the snapshot and differ; the database search compares
neither. **`handlePath_shortest`**: where they differ and the target is in the snapshot, a path is found iff one
is short enough, it is a shortest one, and the database search finds one of the same length.
-/

namespace Unimatrix

open Digraph ShortestPath TypedRelationGraph

/-! ## The request and its answer -/

/-- `GraphParams`, as far as path and subgraph mode read it. -/
structure GraphParams where
  direction : Option String := none
  edgeTypes : Option (List String) := none
  depth : Option Nat := none
  resolveSupersessions : Option Bool := none
  seedIds : Option (List Nat) := none
  maxNodes : Option Nat := none
  fromId : Option Nat := none
  toId : Option Nat := none
  maxDepth : Option Nat := none
  deriving DecidableEq, Repr

/-- `PathHop`. -/
structure PathHop where
  entryId : Nat
  relationType : String
  deriving DecidableEq, Repr

/-- `PathResponse`. -/
structure PathResponse where
  found : Bool
  fromId : Nat
  toId : Nat
  hops : List PathHop
  length : Nat
  deriving DecidableEq, Repr

/-- `DEFAULT_DEPTH` of path mode. -/
def defaultPathDepth : Nat := 5

/-- `MAX_DEPTH_UPPER`. -/
def maxDepthUpper : Nat := 10

/-- Step 4 of `handle_path`. -/
def pathDepth : Option Nat → Except String Nat
  | none => .ok defaultPathDepth
  | some d =>
    if 1 ≤ d ∧ d ≤ maxDepthUpper then .ok d
    else .error ("depth must be in range 1..=10, got " ++ toString d)

/-- One name of the filter, which the error calls `what`. -/
def parseRelationType (what t : String) : Except String RelationType :=
  match RelationType.fromStr t with
  | some relType => .ok relType
  | none => .error ("unrecognized " ++ what ++ " '" ++ t ++ "' — recognized types: " ++
      "About, Advances, Asserts, Cites, CoAccess, Contradicts, DerivedFrom, Informs, Mentions, " ++
      "Motivates, Prerequisite, Refutes, RelatedTo, Supersedes, Supports, Tests")

/-- The types a filter selects: all but `Supersedes` if it names none. -/
def selectedTypes (what : String) : Option (List String) → Except String (List RelationType)
  | none => .ok allNonSupersedesTypes
  | some [] => .ok allNonSupersedesTypes
  | some types => types.mapM (parseRelationType what)

/-- Step 5 of `handle_path`, with `parse_relation_types`. -/
def pathTypes : Option (List String) → Except String (List RelationType) := selectedTypes "edge type"

theorem pathDepth_le {depth : Option Nat} {maxDepth : Nat} (h : pathDepth depth = .ok maxDepth) :
    maxDepth ≤ maxDepthUpper := by
  unfold pathDepth at h
  split at h
  · cases h
    decide
  · split at h
    · rename_i hd
      cases h
      exact hd.2
    · cases h

/-- A filter selects some type. -/
theorem selectedTypes_ne_nil {what : String} {edgeTypes : Option (List String)} {types : List RelationType}
    (h : selectedTypes what edgeTypes = .ok types) : types ≠ [] := by
  unfold selectedTypes at h
  split at h
  · cases h
    decide
  · cases h
    decide
  · rename_i names hne
    rintro rfl
    exact hne (List.eq_nil_of_length_eq_zero (forall₂_of_mapM h).length_eq)

/-! ## The two searches -/

/-- What the outgoing edges of a node lead to. -/
def pathExpand (s : Store) (g : TypedRelationGraph) (o : EdgeOrder) (types : List RelationType)
    (resolveSupersessions : Bool) (currentIdx : Nat) : List PathHop :=
  types.flatMap fun relType => (g.edgesOfType o currentIdx relType .outgoing).filterMap fun e =>
    (g.nodeIdForIndex e.1.2).map fun rawNeighborId =>
      ⟨resolveEndpoint s resolveSupersessions rawNeighborId, relType.asStr⟩

/-- What the outgoing rows of an entry lead to. -/
def dbHops (s : Store) (t : EdgeTable) (o : RowOrders) (types : List RelationType)
    (resolveSupersessions : Bool) (currentId : Nat) : List PathHop :=
  ((queryDirectNeighbors t o currentId (types.map RelationType.asStr) .outgoing).take
      maxDbNeighborsPerNode).map fun row =>
    ⟨resolveEndpoint s resolveSupersessions row.targetId, row.relationType⟩

/-- The response when no path is found. -/
def PathResponse.notFound (fromId toId : Nat) : PathResponse := ⟨false, fromId, toId, [], 0⟩

/-- The response to what a search returned. The length is a `u8`. -/
def PathResponse.of (fromId toId : Nat) : Option (List PathHop) → PathResponse
  | some hops => ⟨true, fromId, toId, hops, hops.length % 256⟩
  | none => .notFound fromId toId

/-- `path_via_db`. -/
def pathViaDb (s : Store) (t : EdgeTable) (o : RowOrders) (effectiveFrom effectiveTo : Nat)
    (types : List RelationType) (maxDepth : Nat) (resolveSupersessions : Bool) : PathResponse :=
  .of effectiveFrom effectiveTo
    (ShortestPath.search some (dbHops s t o types resolveSupersessions) PathHop.entryId maxDepth effectiveTo
      ((dbEntries s t resolveSupersessions).length + 2) effectiveFrom effectiveFrom).join

/-- Step 10 of `handle_path`. -/
def pathBfs (s : Store) (g : TypedRelationGraph) (o : EdgeOrder) (effectiveFrom fromIdx effectiveTo : Nat)
    (types : List RelationType) (maxDepth : Nat) (resolveSupersessions : Bool) : PathResponse :=
  .of effectiveFrom effectiveTo
    (ShortestPath.search g.nodeIndexFor (pathExpand s g o types resolveSupersessions) PathHop.entryId maxDepth
      effectiveTo (g.nodes.length + 2) effectiveFrom fromIdx).join

/-- `handle_path`, from step 6 on. -/
def pathBetween (s : Store) (t : EdgeTable) (state : TypedGraphState) (oGraph : EdgeOrder) (o : RowOrders)
    (effectiveFrom effectiveTo : Nat) (types : List RelationType) (maxDepth : Nat)
    (resolveSupersessions : Bool) : PathResponse :=
  if state.useFallback then pathViaDb s t o effectiveFrom effectiveTo types maxDepth resolveSupersessions
  else match state.typedGraph.nodeIndexFor effectiveFrom with
    | none => .notFound effectiveFrom effectiveTo
    | some fromIdx => match state.typedGraph.nodeIndexFor effectiveTo with
      | none => .notFound effectiveFrom effectiveTo
      | some toIdx =>
        if fromIdx = toIdx then .notFound effectiveFrom effectiveTo
        else pathBfs s state.typedGraph oGraph effectiveFrom fromIdx effectiveTo types maxDepth
          resolveSupersessions

/-- `handle_path`. The ends are compared as they were given before anything else is checked. -/
def handlePath (s : Store) (t : EdgeTable) (state : TypedGraphState) (oGraph : EdgeOrder) (o : RowOrders)
    (params : GraphParams) : Except String PathResponse :=
  match params.fromId with
  | none => .error "path mode requires from_id"
  | some fromId => match params.toId with
    | none => .error "path mode requires to_id"
    | some toId =>
      if fromId = toId then .ok (.notFound fromId toId)
      else do
        let maxDepth ← pathDepth params.depth
        let types ← pathTypes params.edgeTypes
        let resolveSupersessions := params.resolveSupersessions.getD true
        return pathBetween s t state oGraph o (resolveEndpoint s resolveSupersessions fromId)
          (resolveEndpoint s resolveSupersessions toId) types maxDepth resolveSupersessions

/-! ## What the searches walk along -/

/-- An edge of a selected type leads from `u` to what its target resolves to. -/
def GraphHop (s : Store) (g : TypedRelationGraph) (types : List RelationType) (resolveSupersessions : Bool)
    (u : Nat) (h : PathHop) : Prop :=
  ∃ e ∈ g.edgesById, e.1.1 = u ∧ (∃ relType ∈ types, e.2.relationType = relType.asStr) ∧
    h = ⟨resolveEndpoint s resolveSupersessions e.1.2, e.2.relationType⟩

instance instDecidableGraphHop (s : Store) (g : TypedRelationGraph) (types : List RelationType)
    (resolveSupersessions : Bool) (u : Nat) (h : PathHop) :
    Decidable (GraphHop s g types resolveSupersessions u h) :=
  inferInstanceAs (Decidable (∃ e ∈ g.edgesById, _))

/-- A row of a selected type leads from `u` to what its target resolves to. -/
def RowHop (s : Store) (t : EdgeTable) (types : List RelationType) (resolveSupersessions : Bool) (u : Nat)
    (h : PathHop) : Prop :=
  ∃ key, Joins t types .outgoing u .outgoing key ∧
    h = ⟨resolveEndpoint s resolveSupersessions key.targetId, key.relationType⟩

section Hops

variable {s : Store} {types : List RelationType} {resolveSupersessions : Bool}

/-- **What the search in memory follows from a node.** -/
theorem mem_pathExpand {g : TypedRelationGraph} (hg : g.Keyed) {o : EdgeOrder} {u i : Nat}
    (hi : g.nodeIndexFor u = some i) {h : PathHop} :
    h ∈ pathExpand s g o types resolveSupersessions i ↔ GraphHop s g types resolveSupersessions u h := by
  unfold pathExpand GraphHop
  simp only [List.mem_flatMap, List.mem_filterMap, mem_edgesOfType, Option.map_eq_some_iff]
  constructor
  · rintro ⟨relType, htypes, e, ⟨hmem, htouch, htype⟩, raw, hraw, rfl⟩
    have hend : e.1.1 = i := of_decide_eq_true htouch
    refine ⟨_, List.mem_map_of_mem hmem, ?_, ⟨relType, htypes, htype⟩, ?_⟩
    · rw [hend]
      exact hg.idAt hi
    · have hid : g.idAt e.1.2 = raw := by
        unfold TypedRelationGraph.idAt
        rw [hraw]
        rfl
      dsimp only
      rw [hid, htype]
  · rintro ⟨_, hmem, hu, ⟨relType, htypes, htype⟩, rfl⟩
    obtain ⟨e, he, rfl⟩ := List.mem_map.mp hmem
    obtain ⟨hsource, htarget⟩ := hg.ends e he
    have hidx := hg.nodeIndexFor_idAt hsource
    dsimp only at hu htype
    rw [hu, hi] at hidx
    refine ⟨relType, htypes, e, ⟨he, decide_eq_true (Option.some.inj hidx).symm, htype⟩, g.idAt e.1.2, ?_, ?_⟩
    · exact (hg.index _ _).mp (hg.nodeIndexFor_idAt htarget)
    · dsimp only
      rw [htype]

theorem leads_pathExpand {g : TypedRelationGraph} (hg : g.Keyed) (o : EdgeOrder) :
    Digraph.Leads g.nodeIndexFor (pathExpand s g o types resolveSupersessions) =
      GraphHop s g types resolveSupersessions := by
  funext u h
  refine propext ⟨?_, fun hhop => ?_⟩
  · rintro ⟨i, hi, hm⟩
    exact (mem_pathExpand hg hi).mp hm
  · have hcopy := hhop
    obtain ⟨_, hmem, hu, -⟩ := hcopy
    obtain ⟨e, he, rfl⟩ := List.mem_map.mp hmem
    have hi := hg.nodeIndexFor_idAt (hg.ends e he).1
    dsimp only at hu
    rw [hu] at hi
    exact ⟨e.1.1, hi, (mem_pathExpand hg hi).mpr hhop⟩

/-- **What the database search follows from an entry**, as long as no rows are cut off. -/
theorem mem_dbHops {t : EdgeTable} {o : RowOrders} (hne : types ≠ []) {u : Nat}
    (hfanOut : (queryDirectNeighbors t o u (types.map RelationType.asStr) .outgoing).length ≤
      maxDbNeighborsPerNode) {h : PathHop} :
    h ∈ dbHops s t o types resolveSupersessions u ↔ RowHop s t types resolveSupersessions u h := by
  unfold dbHops RowHop
  rw [List.take_of_length_le hfanOut, List.mem_map]
  constructor
  · rintro ⟨row, hrow, rfl⟩
    obtain ⟨dir, key, columns, -, hjoins, rfl⟩ := (mem_queryDirectNeighbors hne).mp hrow
    obtain rfl : dir = .outgoing := List.mem_singleton.mp hjoins.wanted
    exact ⟨key, hjoins, rfl⟩
  · rintro ⟨key, hjoins, rfl⟩
    obtain ⟨columns, hkey⟩ := hjoins.stored
    exact ⟨mapEdgeRow (key, columns), (mem_queryDirectNeighbors hne).mpr ⟨.outgoing, key, columns, hkey,
      hjoins, rfl⟩, rfl⟩

end Hops

/-! ## What a search reports -/

/-- A response that is found iff there is a path of 1 to `cap` hops, and then has a shortest one. -/
structure ReportsPath (Hop : Nat → PathHop → Prop) (cap a b : Nat) (r : PathResponse) : Prop where
  found_iff : r.found = true ↔
    ∃ p, IsPath Hop PathHop.entryId a p b ∧ 1 ≤ p.length ∧ p.length ≤ cap
  shortest : r.found = true → Shortest Hop PathHop.entryId cap a b r.hops
  absent : r.found = false → r.hops = []
  length : r.length = r.hops.length

/-- Responses about the same hops agree on whether there is a path, and on how long it is. -/
theorem ReportsPath.agree {Hop : Nat → PathHop → Prop} {cap a b : Nat} {r r' : PathResponse}
    (h : ReportsPath Hop cap a b r) (h' : ReportsPath Hop cap a b r') :
    r.found = r'.found ∧ r.length = r'.length := by
  have hfound : r.found = r'.found := by
    rw [Bool.eq_iff_iff, h.found_iff, h'.found_iff]
  refine ⟨hfound, ?_⟩
  rw [h.length, h'.length]
  cases hr : r.found with
  | false => rw [h.absent hr, h'.absent (hfound ▸ hr)]
  | true =>
    have hs := h.shortest hr
    have hs' := h'.shortest (hfound ▸ hr)
    exact Nat.le_antisymm (hs.least _ hs'.path hs'.pos) (hs'.least _ hs.path hs.pos)

/-- **The response to a search.** -/
theorem reportsPath_of_search {Q : Type} {enter : Nat → Option Q} {expand : Q → List PathHop} (node : Q → Nat)
    {U : List Nat} {cap a b : Nat} {q : Q} (hnode : ∀ v q, enter v = some q → node q = v)
    (hU : ∀ q, ∀ h ∈ expand q, (enter h.entryId).isSome = true → h.entryId ∈ U) (hcap : cap ≤ maxDepthUpper)
    (henter : enter a = some q) :
    ReportsPath (Digraph.Leads enter expand) cap a b
      (.of a b (ShortestPath.search enter expand PathHop.entryId cap b (U.length + 2) a q).join) := by
  obtain ⟨found, hfound⟩ := Option.isSome_iff_exists.mp (ShortestPath.search_isSome hU cap b a q)
  obtain ⟨hsome, hnone⟩ := ShortestPath.search_spec hnode henter hfound
  rw [hfound]
  cases found with
  | none =>
    refine ⟨⟨fun h => (by cases h), ?_⟩, fun h => (by cases h), fun _ => rfl, rfl⟩
    rintro ⟨p, hp, hpos, hle⟩
    have := hnone rfl p hp hpos
    omega
  | some path =>
    have hshort := hsome path rfl
    have hbound : path.length ≤ 10 := hshort.le_cap.trans hcap
    refine ⟨⟨fun _ => ⟨path, hshort.path, hshort.pos, hshort.le_cap⟩, fun _ => rfl⟩, fun _ => hshort,
      fun h => (by cases h), ?_⟩
    exact Nat.mod_eq_of_lt (by omega)

section Searches

variable {s : Store} {types : List RelationType} {resolveSupersessions : Bool} {cap a b : Nat}

/-- **The database search reports on the rows**, also where it leads back to its start. -/
theorem pathViaDb_reports {t : EdgeTable} {o : RowOrders} (hne : types ≠ [])
    (hfanOut : ∀ u, (queryDirectNeighbors t o u (types.map RelationType.asStr) .outgoing).length ≤
      maxDbNeighborsPerNode) (hcap : cap ≤ maxDepthUpper) :
    ReportsPath (RowHop s t types resolveSupersessions) cap a b
      (pathViaDb s t o a b types cap resolveSupersessions) := by
  have hleads : Digraph.Leads some (dbHops s t o types resolveSupersessions) =
      RowHop s t types resolveSupersessions := by
    funext u h
    refine propext ⟨?_, fun hhop => ⟨u, rfl, (mem_dbHops hne (hfanOut u)).mpr hhop⟩⟩
    rintro ⟨_, hu, hm⟩
    cases hu
    exact (mem_dbHops hne (hfanOut u)).mp hm
  rw [← hleads]
  unfold pathViaDb
  refine reportsPath_of_search id (fun v q h => (Option.some.inj h).symm) (fun q h hm _ => ?_) hcap
    rfl
  obtain ⟨key, hjoins, rfl⟩ := (mem_dbHops hne (hfanOut q)).mp hm
  obtain ⟨columns, hkey⟩ := hjoins.stored
  refine List.mem_flatMap.mpr ⟨(key, columns), HashMap.mem_pairs.mpr hkey, ?_⟩
  exact List.mem_cons_of_mem _ List.mem_cons_self

theorem pathBfs_reports {g : TypedRelationGraph} (hg : g.Keyed) (o : EdgeOrder) {fromIdx : Nat}
    (ha : g.nodeIndexFor a = some fromIdx) (hcap : cap ≤ maxDepthUpper) :
    ReportsPath (GraphHop s g types resolveSupersessions) cap a b
      (pathBfs s g o a fromIdx b types cap resolveSupersessions) := by
  rw [← leads_pathExpand hg o]
  unfold pathBfs
  refine reportsPath_of_search g.idAt (fun v q h => hg.idAt h) (fun q h _ hw => ?_) hcap ha
  exact hg.mem_nodes_iff.mpr (Option.isSome_iff_exists.mp hw)

variable {t : EdgeTable} {allEntries : List EntryRecord} {oGraph : EdgeOrder} {o : RowOrders}

/-- **In memory the graph is reported on**, where the ends differ and the target is in it. -/
theorem pathBetween_reports {g : TypedRelationGraph} (hg : g.Keyed) (hab : a ≠ b) (hb : b ∈ g.nodes)
    (hcap : cap ≤ maxDepthUpper) :
    ReportsPath (GraphHop s g types resolveSupersessions) cap a b
      (pathBetween s t ⟨g, allEntries, false⟩ oGraph o a b types cap resolveSupersessions) := by
  obtain ⟨j, hj⟩ := hg.mem_nodes_iff.mp hb
  unfold pathBetween
  rw [if_neg Bool.false_ne_true]
  dsimp only
  cases ha : g.nodeIndexFor a with
  | none =>
    refine ⟨⟨fun h => (by cases h), ?_⟩, fun h => (by cases h), fun _ => rfl, rfl⟩
    rintro ⟨p, hp, hpos, -⟩
    cases p with
    | nil => exact absurd hpos (Nat.not_succ_le_zero 0)
    | cons h p =>
      obtain ⟨_, hmem, hu, -⟩ := hp.1
      obtain ⟨e, he, rfl⟩ := List.mem_map.mp hmem
      have hidx := hg.nodeIndexFor_idAt (hg.ends e he).1
      dsimp only at hu
      rw [hu, ha] at hidx
      cases hidx
  | some i =>
    have hij : i ≠ j := by
      rintro rfl
      exact hab ((hg.idAt ha).symm.trans (hg.idAt hj))
    rw [hj]
    dsimp only
    rw [if_neg hij]
    exact pathBfs_reports hg oGraph ha hcap

/-- In memory nothing is found otherwise. -/
theorem pathBetween_eq_notFound {g : TypedRelationGraph} (hg : g.Keyed) (h : ¬ (a ≠ b ∧ b ∈ g.nodes)) :
    pathBetween s t ⟨g, allEntries, false⟩ oGraph o a b types cap resolveSupersessions =
      .notFound a b := by
  unfold pathBetween
  rw [if_neg Bool.false_ne_true]
  dsimp only
  cases ha : g.nodeIndexFor a with
  | none => rfl
  | some i =>
    cases hb : g.nodeIndexFor b with
    | none => rfl
    | some j =>
      dsimp only
      by_cases hab : a = b
      · subst hab
        rw [ha] at hb
        rw [if_pos (Option.some.inj hb)]
      · exact absurd ⟨hab, hg.mem_nodes_iff.mpr ⟨j, hb⟩⟩ h

end Searches

/-! ## A request -/

/-- A request that passes the checks of `handle_path`. -/
structure PathRequest where
  params : GraphParams
  fromId : Nat
  toId : Nat
  maxDepth : Nat
  types : List RelationType
  from_eq : params.fromId = some fromId
  to_eq : params.toId = some toId
  depth_eq : pathDepth params.depth = .ok maxDepth
  types_eq : pathTypes params.edgeTypes = .ok types

namespace PathRequest

/-- Superseded entries are resolved unless the request says otherwise. -/
def resolves (q : PathRequest) : Bool := q.params.resolveSupersessions.getD true

/-- `effective_from`. -/
def source (q : PathRequest) (s : Store) : Nat := resolveEndpoint s q.resolves q.fromId

/-- `effective_to`. -/
def target (q : PathRequest) (s : Store) : Nat := resolveEndpoint s q.resolves q.toId

theorem maxDepth_le (q : PathRequest) : q.maxDepth ≤ maxDepthUpper := pathDepth_le q.depth_eq

theorem types_ne_nil (q : PathRequest) : q.types ≠ [] := selectedTypes_ne_nil q.types_eq

/-- **A request that passes is answered.** -/
theorem handlePath_eq (q : PathRequest) (s : Store) (t : EdgeTable) (state : TypedGraphState)
    (oGraph : EdgeOrder) (o : RowOrders) :
    handlePath s t state oGraph o q.params = .ok
      (if q.fromId = q.toId then .notFound q.fromId q.toId
      else pathBetween s t state oGraph o (q.source s) (q.target s) q.types q.maxDepth q.resolves) := by
  unfold handlePath
  rw [q.from_eq, q.to_eq]
  dsimp only
  split
  · rfl
  · rw [q.depth_eq, q.types_eq]
    rfl

end PathRequest

/-- Rows that mirror a graph in the selected types, none of whose entries has more than a query returns. -/
structure MirroringRows (g : TypedRelationGraph) (types : List RelationType) where
  table : EdgeTable
  orders : RowOrders
  mirrors : ∀ u w, ∀ relType ∈ types, (∃ columns, table.lookup ⟨u, w, relType.asStr⟩ = some columns) ↔
    ∃ e ∈ g.edgesById, e.1 = (u, w) ∧ e.2.relationType = relType.asStr
  fanOut : ∀ u, (queryDirectNeighbors table orders u (types.map RelationType.asStr) .outgoing).length ≤
    maxDbNeighborsPerNode

theorem MirroringRows.rowHop_eq {g : TypedRelationGraph} {types : List RelationType}
    (rows : MirroringRows g types) (s : Store) (resolveSupersessions : Bool) :
    RowHop s rows.table types resolveSupersessions = GraphHop s g types resolveSupersessions := by
  funext u h
  refine propext ⟨?_, ?_⟩
  · rintro ⟨⟨u', w, name⟩, ⟨hstored, ⟨relType, htypes, htype⟩, -, hnear⟩, rfl⟩
    obtain rfl : u' = u := hnear
    obtain rfl : name = relType.asStr := htype
    obtain ⟨e, he, hends, htype⟩ := (rows.mirrors u' w relType htypes).mp hstored
    refine ⟨e, he, by rw [hends], ⟨relType, htypes, htype⟩, ?_⟩
    rw [hends, htype]
  · rintro ⟨e, he, hu, ⟨relType, htypes, htype⟩, rfl⟩
    have hstored := (rows.mirrors u e.1.2 relType htypes).mpr ⟨e, he, by rw [← hu], htype⟩
    refine ⟨⟨u, e.1.2, relType.asStr⟩, ⟨hstored, ⟨relType, htypes, rfl⟩, List.mem_singleton_self _, rfl⟩, ?_⟩
    rw [htype]

/-- **The table mirrors the graph that was built from it.** -/
def MirroringRows.ofRebuild {s : Store} {oEntries : HashMap.IterOrder Nat EntryRow} {t : EdgeTable}
    {oEdges : TableOrder} {state : TypedGraphState} {types : List RelationType}
    (h : TypedGraphState.rebuild s oEntries t oEdges = .ok state) (hplain : PlainTable s t)
    (hrel : ∀ relType ∈ types, relType ≠ .supersedes) (o : RowOrders)
    (hfanOut : ∀ u, (queryDirectNeighbors t o u (types.map RelationType.asStr) .outgoing).length ≤
      maxDbNeighborsPerNode) : MirroringRows state.typedGraph types where
  table := t
  orders := o
  fanOut := hfanOut
  mirrors u w relType htypes := by
    have hid : ∀ {id i}, state.typedGraph.nodeIndexFor id = some i → state.typedGraph.idAt i = id := by
      intro id i hi
      unfold TypedRelationGraph.idAt
      rw [TypedRelationGraph.indexed_of_build (build_of_rebuild h).1 _ _ hi]
      rfl
    constructor
    · rintro ⟨columns, hkey⟩
      obtain ⟨i, hi⟩ := Option.isSome_iff_exists.mp ((isSome_of_present h).mpr (hplain.source _ _ hkey))
      obtain ⟨j, hj⟩ := Option.isSome_iff_exists.mp ((isSome_of_present h).mpr (hplain.target _ _ hkey))
      let e : IndexedEdge := ((i, j), ⟨relType.asStr, columns.weight, columns.createdAt, columns.createdBy,
        columns.source, false⟩)
      obtain ⟨hmem, htype⟩ := (mem_edges_of_rebuild h hplain (hrel relType htypes) (e := e)).mpr
        ⟨_, columns, hkey, rfl, hi, hj, rfl⟩
      refine ⟨_, List.mem_map_of_mem hmem, ?_, htype⟩
      exact Prod.ext (hid hi) (hid hj)
    · rintro ⟨_, hmem, hends, htype⟩
      obtain ⟨e, he, rfl⟩ := List.mem_map.mp hmem
      obtain ⟨⟨u', w', name⟩, columns, hkey, hname, hsource, htarget, -⟩ :=
        (mem_edges_of_rebuild h hplain (hrel relType htypes)).mp ⟨he, htype⟩
      obtain ⟨rfl, rfl⟩ := Prod.mk.inj hends
      obtain rfl : name = relType.asStr := hname
      rw [hid hsource, hid htarget]
      exact ⟨columns, hkey⟩

/-- **What a path request reports.** In memory a path is found iff the ends differ, the target is in the graph
and 1 to `max_depth` hops lead there; its hops are a shortest path and its length is their number. Between two
such ends the database search finds a path of the same length, if its rows mirror the graph. -/
theorem handlePath_shortest (s : Store) (t : EdgeTable) (graph : KeyedGraph) (allEntries : List EntryRecord)
    (oGraph : EdgeOrder) (o : RowOrders) (q : PathRequest) :
    ∃ r, handlePath s t ⟨graph.graph, allEntries, false⟩ oGraph o q.params = .ok r ∧
      (r.found = true ↔ (q.source s ≠ q.target s ∧ q.target s ∈ graph.graph.nodes) ∧
        ∃ p, IsPath (GraphHop s graph.graph q.types q.resolves) PathHop.entryId (q.source s) p (q.target s) ∧
          1 ≤ p.length ∧ p.length ≤ q.maxDepth) ∧
      (r.found = true → Shortest (GraphHop s graph.graph q.types q.resolves) PathHop.entryId q.maxDepth
        (q.source s) (q.target s) r.hops) ∧
      r.length = r.hops.length ∧
      ∀ rows : MirroringRows graph.graph q.types,
        q.source s ≠ q.target s → q.target s ∈ graph.graph.nodes →
        let db := pathViaDb s rows.table rows.orders (q.source s) (q.target s) q.types q.maxDepth q.resolves
        (∀ g entries, handlePath s rows.table ⟨g, entries, true⟩ oGraph rows.orders q.params = .ok db) ∧
          db.found = r.found ∧ db.length = r.length := by
  have hraw : q.source s ≠ q.target s → q.fromId ≠ q.toId := by
    intro hne heq
    unfold PathRequest.source PathRequest.target at hne
    rw [heq] at hne
    exact hne rfl
  by_cases hends : q.source s ≠ q.target s ∧ q.target s ∈ graph.graph.nodes
  · have hreports : ReportsPath (GraphHop s graph.graph q.types q.resolves) q.maxDepth (q.source s)
        (q.target s) (pathBetween s t ⟨graph.graph, allEntries, false⟩ oGraph o (q.source s) (q.target s)
          q.types q.maxDepth q.resolves) :=
      pathBetween_reports graph.keyed hends.1 hends.2 q.maxDepth_le
    refine ⟨_, ?_, ?_, hreports.shortest, hreports.length, fun rows hne hb => ⟨fun g entries => ?_, ?_⟩⟩
    · rw [q.handlePath_eq, if_neg (hraw hends.1)]
    · rw [hreports.found_iff]
      exact (and_iff_right hends).symm
    · rw [q.handlePath_eq, if_neg (hraw hends.1)]
      rfl
    · have hdb : ReportsPath (RowHop s rows.table q.types q.resolves) q.maxDepth (q.source s) (q.target s)
          (pathViaDb s rows.table rows.orders (q.source s) (q.target s) q.types q.maxDepth q.resolves) :=
        pathViaDb_reports q.types_ne_nil rows.fanOut q.maxDepth_le
      rw [rows.rowHop_eq] at hdb
      exact hdb.agree hreports
  · have hno : ∃ a b, (if q.fromId = q.toId then PathResponse.notFound q.fromId q.toId
        else .notFound (q.source s) (q.target s)) = .notFound a b := by
      split <;> exact ⟨_, _, rfl⟩
    obtain ⟨a, b, hr⟩ := hno
    refine ⟨.notFound a b, ?_, iff_of_false Bool.false_ne_true fun h => hends h.1, fun h => (by cases h), rfl,
      fun rows hne hb => absurd ⟨hne, hb⟩ hends⟩
    rw [q.handlePath_eq, pathBetween_eq_notFound graph.keyed hends, hr]

/-- The graph of some entries and edges. -/
def sampleGraph (s : Store) (keys : List EdgeKey) : KeyedGraph :=
  ⟨assemble (s.allEntries .stored) (queryGraphEdges (sampleEdges keys) .stored),
    keyed_assemble (Store.allEntries_ids_nodup s .stored)⟩

/-- Two entries. -/
def twoEntries : Store :=
  Store.linkStore [(1, Store.linkRow .active none none), (2, Store.linkRow .active none none)]

/-- An edge each way. -/
def bothWays : List EdgeKey := [⟨1, 2, "Supports"⟩, ⟨2, 1, "Supports"⟩]

/-- From an entry to itself no path is found, though one may lead back to it. -/
theorem handlePath_misses_cycle :
    ¬ ∀ (s : Store) (t : EdgeTable) (graph : KeyedGraph) (allEntries : List EntryRecord) (oGraph : EdgeOrder)
      (o : RowOrders) (q : PathRequest),
      ∃ r, handlePath s t ⟨graph.graph, allEntries, false⟩ oGraph o q.params = .ok r ∧
        (r.found = true ↔ ∃ p, IsPath (GraphHop s graph.graph q.types q.resolves) PathHop.entryId (q.source s) p
          (q.target s) ∧ 1 ≤ p.length ∧ p.length ≤ q.maxDepth) := by
  intro hclaim
  obtain ⟨r, hr, hfound⟩ := hclaim twoEntries (sampleEdges bothWays) (sampleGraph twoEntries bothWays) [] .stored
    (fun _ _ => .stored) ⟨{ fromId := some 1, toId := some 1 }, 1, 1, 5, allNonSupersedesTypes, rfl, rfl, rfl, rfl⟩
  have hno : r = .notFound 1 1 := (Except.ok.inj hr).symm
  rw [hno] at hfound
  refine absurd (hfound.mpr ⟨[⟨2, "Supports"⟩, ⟨1, "Supports"⟩], ?_, by decide, by decide⟩) Bool.false_ne_true
  decide +kernel

end Unimatrix
