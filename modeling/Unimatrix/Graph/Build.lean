import Unimatrix.Graph.Typed

/-!
# What `build_typed_relation_graph` returns

`Typed.lean` describes the graph by its indices. Here it is described by the ids of the entries. The slice
is read from the `entries` table, whose key they are (`EntrySlice`).

* **`buildTypedRelationGraph_spec`**: the build fails exactly where the supersession links inside the slice
  (`SupersedesLink`) have a cycle. Otherwise the nodes are the entries in their order, and the edges, read by
  ids (`edgesById`), are one per link and one per row that is kept and has both ends in the slice.
-/

namespace Unimatrix

open Digraph
open TypedRelationGraph

namespace TypedRelationGraph

/-! ## The edges by their ids -/

/-- An edge with the ids of its ends. -/
abbrev IdEdge : Type := (Nat × Nat) × RelationEdge

/-- The edges, each with the ids of its ends. -/
def edgesById (g : TypedRelationGraph) : List IdEdge :=
  g.edges.map fun e => ((g.idAt e.1.1, g.idAt e.1.2), e.2)

/-- The index is the inverse of the list of nodes, and every edge joins two nodes. -/
structure Keyed (g : TypedRelationGraph) : Prop where
  index : ∀ id i, g.nodeIndexFor id = some i ↔ g.nodeIdForIndex i = some id
  ends : ∀ e ∈ g.edges, e.1.1 < g.nodes.length ∧ e.1.2 < g.nodes.length

theorem Keyed.idAt {g : TypedRelationGraph} (h : g.Keyed) {id i : Nat}
    (hi : g.nodeIndexFor id = some i) : g.idAt i = id := by
  unfold TypedRelationGraph.idAt
  rw [(h.index id i).mp hi]
  rfl

/-- A node is known under the id it holds. -/
theorem Keyed.nodeIndexFor_idAt {g : TypedRelationGraph} (h : g.Keyed) {i : Nat}
    (hi : i < g.nodes.length) : g.nodeIndexFor (g.idAt i) = some i := by
  have hid : g.nodeIdForIndex i = some g.nodes[i] := List.getElem?_eq_getElem hi
  unfold TypedRelationGraph.idAt
  rw [hid, h.index]
  exact hid

theorem Keyed.mem_nodes_iff {g : TypedRelationGraph} (h : g.Keyed) {id : Nat} :
    id ∈ g.nodes ↔ ∃ i, g.nodeIndexFor id = some i := by
  rw [List.mem_iff_getElem?]
  exact exists_congr fun i => (h.index id i).symm

theorem Keyed.nodeIndex_isEmpty_iff {g : TypedRelationGraph} (hg : g.Keyed) :
    g.nodeIndex.entries.isEmpty = true ↔ g.nodes = [] := by
  rw [List.isEmpty_iff]
  constructor
  · intro hempty
    refine List.eq_nil_iff_forall_not_mem.mpr fun id hid => ?_
    obtain ⟨i, hi⟩ := hg.mem_nodes_iff.mp hid
    have hmem := HashMap.mem_pairs.mpr hi
    unfold HashMap.pairs at hmem
    rw [hempty] at hmem
    cases hmem
  · intro hnil
    refine List.eq_nil_iff_forall_not_mem.mpr fun e he => ?_
    have hmem : (e.1, e.2) ∈ HashMap.pairs g.nodeIndex := List.mem_map.mpr ⟨e, he, rfl⟩
    have hid := hg.mem_nodes_iff.mpr ⟨e.2, HashMap.mem_pairs.mp hmem⟩
    rw [hnil] at hid
    cases hid

end TypedRelationGraph

/-- A typed relation graph as a build leaves it. -/
structure KeyedGraph where
  graph : TypedRelationGraph
  keyed : graph.Keyed

/-- The same nodes and edges, added in another order. -/
structure SameGraph (g g' : TypedRelationGraph) : Prop where
  nodes : g.nodes.Perm g'.nodes
  edges : g.edgesById.Perm g'.edgesById

theorem SameGraph.nodeIndexFor_isSome {g g' : TypedRelationGraph} (h : SameGraph g g') (hg : g.Keyed)
    (hg' : g'.Keyed) (id : Nat) : (g.nodeIndexFor id).isSome = (g'.nodeIndexFor id).isSome := by
  rw [Bool.eq_iff_iff, Option.isSome_iff_exists, Option.isSome_iff_exists, ← hg.mem_nodes_iff,
    ← hg'.mem_nodes_iff]
  exact h.nodes.mem_iff

/-- A slice of entries with distinct ids. -/
structure EntrySlice where
  entries : List EntryRecord
  distinct : (entries.map EntryRecord.id).Nodup

/-- `s` supersedes `p`, and both are entries of the slice. -/
def SupersedesLink (entries : List EntryRecord) (p s : Nat) : Prop :=
  ∃ entry ∈ entries, entry.id = s ∧ entry.supersedes = some p ∧ p ∈ entries.map EntryRecord.id

/-- The edge of an entry that supersedes one of the slice. -/
def linkEdge (entries : List EntryRecord) (entry : EntryRecord) : Option IdEdge :=
  entry.supersedes.bind fun predId =>
    if predId ∈ entries.map EntryRecord.id then
      some ((predId, entry.id), ⟨"Supersedes", 0x3F800000, 0, "bootstrap", "entries.supersedes", false⟩)
    else none

instance instDecidableKept (row : GraphEdgeRow) : Decidable (Kept row) :=
  inferInstanceAs (Decidable (_ ∧ _ ∧ _))

/-- The edge of a row that is kept and has both ends in the slice. -/
def rowLink (entries : List EntryRecord) (row : GraphEdgeRow) : Option IdEdge :=
  if Kept row ∧ row.sourceId ∈ entries.map EntryRecord.id ∧ row.targetId ∈ entries.map EntryRecord.id then
    some ((row.sourceId, row.targetId),
      ⟨row.relationType, row.weight, row.createdAt, row.createdBy, row.source, false⟩)
  else none

theorem linkEdge_eq_some {entries : List EntryRecord} {entry : EntryRecord} {p s : Nat}
    {w : RelationEdge} :
    linkEdge entries entry = some ((p, s), w) ↔
      (entry.id = s ∧ entry.supersedes = some p ∧ p ∈ entries.map EntryRecord.id) ∧
        w = ⟨"Supersedes", 0x3F800000, 0, "bootstrap", "entries.supersedes", false⟩ := by
  unfold linkEdge
  rw [Option.bind_eq_some_iff]
  constructor
  · rintro ⟨p', hp', h⟩
    split at h
    · rename_i hmem
      cases h
      exact ⟨⟨rfl, hp', hmem⟩, rfl⟩
    · cases h
  · rintro ⟨⟨rfl, hp, hmem⟩, rfl⟩
    refine ⟨p, hp, ?_⟩
    rw [if_pos hmem]

theorem type_of_rowLink {entries : List EntryRecord} {row : GraphEdgeRow} {e : IdEdge}
    (h : rowLink entries row = some e) : e.2.relationType ≠ "Supersedes" := by
  unfold rowLink at h
  split at h
  · rename_i hk
    cases h
    exact hk.1.2.1
  · cases h

namespace TypedRelationGraph

/-! ## Indices and ids -/

theorem nodes_nodesOf (entries : List EntryRecord) :
    (nodesOf entries).nodes = entries.map EntryRecord.id := by
  induction entries using List.reverseRecOn with
  | nil => rfl
  | append_singleton entries e ih =>
    rw [nodesOf_concat, List.map_append, List.map_singleton, ← ih]
    rfl

variable {entries : List EntryRecord} {rows : List GraphEdgeRow} {g : TypedRelationGraph}

theorem nodes_assemble : (assemble entries rows).nodes = entries.map EntryRecord.id := by
  rw [assemble_eq]
  exact nodes_nodesOf entries

theorem nodeIndexFor_assemble_isSome {id : Nat} :
    ((assemble entries rows).nodeIndexFor id).isSome = true ↔ id ∈ entries.map EntryRecord.id := by
  rw [assemble_eq]
  exact nodesOf_isSome

theorem indexed_assemble : (assemble entries rows).Indexed := by
  rw [assemble_eq]
  exact nodesOf_indexed entries

theorem Indexed.lt {id i : Nat} (h : g.Indexed) (hi : g.nodeIndexFor id = some i) :
    i < g.nodes.length := (List.getElem?_eq_some_iff.mp (h id i hi)).1

/-- With distinct ids the index is the position of the id, and nothing else. -/
theorem nodeIndexFor_assemble_iff (hids : (entries.map EntryRecord.id).Nodup) {id i : Nat} :
    (assemble entries rows).nodeIndexFor id = some i ↔
      (assemble entries rows).nodeIdForIndex i = some id := by
  constructor
  · exact indexed_assemble id i
  · intro hi
    have hmem : id ∈ (assemble entries rows).nodes := List.mem_of_getElem? hi
    rw [nodes_assemble] at hmem
    obtain ⟨j, hj⟩ := Option.isSome_iff_exists.mp (nodeIndexFor_assemble_isSome.mpr hmem)
    have hpos := indexed_assemble id j hj
    unfold nodeIdForIndex at hi hpos
    rw [nodes_assemble] at hi hpos
    rw [hj, (List.getElem?_inj (List.getElem?_eq_some_iff.mp hpos).1 hids).mp (hpos.trans hi.symm)]

/-! ## What the passes add -/

theorem edges_assemble :
    (assemble entries rows).edges =
      entries.filterMap (supersedesEdge (assemble entries rows).nodeIndex) ++
        rows.filterMap (rowEdge (assemble entries rows).nodeIndex) := by
  rw [assemble_eq]

theorem lt_of_mem_assemble {e : IndexedEdge} (he : e ∈ (assemble entries rows).edges) :
    e.1.1 < (assemble entries rows).nodes.length ∧ e.1.2 < (assemble entries rows).nodes.length := by
  obtain ⟨⟨i, j⟩, w⟩ := e
  rw [edges_assemble, List.mem_append, List.mem_filterMap, List.mem_filterMap] at he
  rcases he with ⟨entry, -, hedge⟩ | ⟨row, -, hedge⟩
  · obtain ⟨-, hj, p, -, hi⟩ := supersedesEdge_eq_some hedge
    exact ⟨indexed_assemble.lt hi, indexed_assemble.lt hj⟩
  · obtain ⟨-, hi, hj, -⟩ := rowEdge_eq_some.mp hedge
    exact ⟨indexed_assemble.lt hi, indexed_assemble.lt hj⟩

theorem keyed_assemble (hids : (entries.map EntryRecord.id).Nodup) : (assemble entries rows).Keyed where
  index := fun _ _ => nodeIndexFor_assemble_iff hids
  ends := fun _ => lt_of_mem_assemble

/-- Pass 2a, for an entry of the slice. -/
theorem supersedesEdge_toId {entry : EntryRecord} (hentry : entry ∈ entries)
    (hg : g.Keyed) (hsome : ∀ id, (g.nodeIndexFor id).isSome = true ↔ id ∈ entries.map EntryRecord.id) :
    (supersedesEdge g.nodeIndex entry).map (fun e => ((g.idAt e.1.1, g.idAt e.1.2), e.2)) =
      linkEdge entries entry := by
  obtain ⟨j, hj⟩ := Option.isSome_iff_exists.mp ((hsome entry.id).mpr (List.mem_map_of_mem hentry))
  have hjid := hg.idAt hj
  unfold nodeIndexFor at hj
  unfold supersedesEdge linkEdge
  cases entry.supersedes with
  | none => rfl
  | some p =>
    cases hp : g.nodeIndexFor p with
    | none =>
      have hnot : p ∉ entries.map EntryRecord.id := by
        rw [← hsome, hp]
        exact Bool.false_ne_true
      unfold nodeIndexFor at hp
      simp only [Option.bind_eq_bind, Option.bind_some, hp, Option.bind_none, Option.map_none,
        if_neg hnot]
    | some i =>
      have hmem : p ∈ entries.map EntryRecord.id := by
        rw [← hsome, hp]
        rfl
      have hiid := hg.idAt hp
      unfold nodeIndexFor at hp
      simp only [Option.bind_eq_bind, Option.bind_some, hp, hj, Option.pure_def, Option.map_some, hiid,
        hjid, if_pos hmem]

/-- Pass 2b. -/
theorem rowEdge_toId (row : GraphEdgeRow) (hg : g.Keyed)
    (hsome : ∀ id, (g.nodeIndexFor id).isSome = true ↔ id ∈ entries.map EntryRecord.id) :
    (rowEdge g.nodeIndex row).map (fun e => ((g.idAt e.1.1, g.idAt e.1.2), e.2)) =
      rowLink entries row := by
  unfold rowLink
  by_cases h : Kept row ∧ row.sourceId ∈ entries.map EntryRecord.id ∧
      row.targetId ∈ entries.map EntryRecord.id
  · obtain ⟨i, hi⟩ := Option.isSome_iff_exists.mp ((hsome row.sourceId).mpr h.2.1)
    obtain ⟨j, hj⟩ := Option.isSome_iff_exists.mp ((hsome row.targetId).mpr h.2.2)
    have hrow : rowEdge g.nodeIndex row = some ((i, j),
        ⟨row.relationType, row.weight, row.createdAt, row.createdBy, row.source, false⟩) :=
      rowEdge_eq_some.mpr ⟨h.1, hi, hj, rfl⟩
    rw [if_pos h, hrow, Option.map_some, hg.idAt hi, hg.idAt hj]
  · rw [if_neg h, Option.map_eq_none_iff, Option.eq_none_iff_forall_ne_some]
    intro e he
    obtain ⟨hk, hi, hj, -⟩ := rowEdge_eq_some.mp he
    refine h ⟨hk, (hsome _).mp ?_, (hsome _).mp ?_⟩
    · unfold nodeIndexFor
      rw [hi]
      rfl
    · unfold nodeIndexFor
      rw [hj]
      rfl

/-- **The edges of the passes, by ids.** -/
theorem edgesById_assemble (hids : (entries.map EntryRecord.id).Nodup) :
    (assemble entries rows).edgesById =
      entries.filterMap (linkEdge entries) ++ rows.filterMap (rowLink entries) := by
  have hsome : ∀ id, ((assemble entries rows).nodeIndexFor id).isSome = true ↔
      id ∈ entries.map EntryRecord.id := fun _ => nodeIndexFor_assemble_isSome
  unfold edgesById
  rw [edges_assemble, List.map_append, List.map_filterMap, List.map_filterMap]
  congr 1
  · exact List.filterMap_congr fun entry hentry => supersedesEdge_toId hentry (keyed_assemble hids) hsome
  · exact List.filterMap_congr fun row _ => rowEdge_toId row (keyed_assemble hids) hsome

/-! ## Pass 3 -/

/-- The edges pass 3 looks at are the links: no row adds one. -/
theorem mem_supersedesPairs_assemble (hids : (entries.map EntryRecord.id).Nodup) {p s : Nat} :
    (p, s) ∈ (assemble entries rows).supersedesPairs ↔ SupersedesLink entries p s := by
  have hpairs : (p, s) ∈ (assemble entries rows).supersedesPairs ↔
      ∃ w, ((p, s), w) ∈ (assemble entries rows).edgesById ∧ w.relationType = "Supersedes" := by
    unfold supersedesPairs edgesById
    simp only [List.mem_map, List.mem_filter, decide_eq_true_eq, Prod.mk.injEq]
    constructor
    · rintro ⟨e, ⟨he, htype⟩, hp, hs⟩
      exact ⟨e.2, ⟨e, he, ⟨hp, hs⟩, rfl⟩, htype⟩
    · rintro ⟨w, ⟨e, he, ⟨hp, hs⟩, rfl⟩, htype⟩
      exact ⟨e, ⟨he, htype⟩, hp, hs⟩
  rw [hpairs, edgesById_assemble hids]
  simp only [List.mem_append, List.mem_filterMap]
  constructor
  · rintro ⟨w, ⟨entry, hentry, h⟩ | ⟨row, -, h⟩, htype⟩
    · exact ⟨entry, hentry, (linkEdge_eq_some.mp h).1⟩
    · exact absurd htype (type_of_rowLink h)
  · rintro ⟨entry, hentry, h⟩
    exact ⟨_, .inl ⟨entry, hentry, linkEdge_eq_some.mpr ⟨h, rfl⟩⟩, rfl⟩

/-- **The build fails exactly on a cycle of links.** -/
theorem build_eq_error_iff (rows : List GraphEdgeRow) (hids : (entries.map EntryRecord.id).Nodup) :
    buildTypedRelationGraph entries rows = .error .cycleDetected ↔
      ∃ id n, Walk (SupersedesLink entries) id (n + 1) id := by
  have hrel : (fun p s => (p, s) ∈ (assemble entries rows).supersedesPairs) = SupersedesLink entries := by
    funext p s
    exact propext (mem_supersedesPairs_assemble hids)
  have hcyc : isCyclic (assemble entries rows).supersedesPairs = true ↔
      ∃ id n, Walk (SupersedesLink entries) id (n + 1) id := by
    rw [isCyclic_iff, hrel]
    unfold Acyclic
    push Not
    rfl
  rw [← hcyc]
  unfold buildTypedRelationGraph
  split <;> simp [*]

end TypedRelationGraph

theorem build_eq_ok_iff {entries : List EntryRecord} {rows : List GraphEdgeRow} {g : TypedRelationGraph} :
    buildTypedRelationGraph entries rows = .ok g ↔
      g = assemble entries rows ∧ buildTypedRelationGraph entries rows ≠ .error .cycleDetected := by
  unfold buildTypedRelationGraph
  split
  · simp
  · simp [eq_comm]

/-- **What the build returns**, for a slice of entries with distinct ids. -/
theorem buildTypedRelationGraph_spec (slice : EntrySlice) (rows : List GraphEdgeRow) :
    (buildTypedRelationGraph slice.entries rows = .error .cycleDetected ↔
      ∃ id n, Walk (SupersedesLink slice.entries) id (n + 1) id) ∧
    ((¬ ∃ id n, Walk (SupersedesLink slice.entries) id (n + 1) id) →
      ∃ g, buildTypedRelationGraph slice.entries rows = .ok g ∧ g.Keyed ∧
        g.nodes = slice.entries.map EntryRecord.id ∧
        g.edgesById = slice.entries.filterMap (linkEdge slice.entries) ++
          rows.filterMap (rowLink slice.entries)) := by
  refine ⟨build_eq_error_iff rows slice.distinct, fun hacyclic => ?_⟩
  refine ⟨assemble slice.entries rows, ?_, keyed_assemble slice.distinct, nodes_assemble,
    edgesById_assemble slice.distinct⟩
  rw [← build_eq_error_iff rows slice.distinct] at hacyclic
  exact build_eq_ok_iff.mpr ⟨rfl, hacyclic⟩

end Unimatrix
