import Unimatrix.Lib.Digraph
import Unimatrix.Store.Schema

/-!
# The typed relation graph

Model of `RelationType`, `TypedRelationGraph` and `build_typed_relation_graph` of `graph.rs`.

* A node index is a position in the list of nodes, an edge a pair of indices with its weight, in the order
  the edges were added. `edges_directed` lists the edges of a node in an order of its own: any rearrangement
  (`HashMap.IterOrder`).
* An `f32` weight is its bits. `is_cyclic_directed` is `Digraph.isCyclic`.

**`mem_edges_of_build`** says which edges a graph that was built has; its supersession edges make a forest
(`supersedesEdge_unique`, `supersedesEdge_acyclic`).
-/

namespace Unimatrix

open Digraph

/-! ## Relation types -/

/-- `RelationType`. -/
inductive RelationType where
  | supersedes
  | contradicts
  | supports
  | coAccess
  | prerequisite
  | informs
  | advances
  | motivates
  | cites
  | asserts
  | mentions
  | refutes
  | tests
  | derivedFrom
  | about
  | relatedTo
  deriving DecidableEq, Repr

namespace RelationType

/-- `RelationType::as_str`. -/
def asStr : RelationType → String
  | supersedes => "Supersedes"
  | contradicts => "Contradicts"
  | supports => "Supports"
  | coAccess => "CoAccess"
  | prerequisite => "Prerequisite"
  | informs => "Informs"
  | advances => "Advances"
  | motivates => "Motivates"
  | cites => "Cites"
  | asserts => "Asserts"
  | mentions => "Mentions"
  | refutes => "Refutes"
  | tests => "Tests"
  | derivedFrom => "DerivedFrom"
  | about => "About"
  | relatedTo => "RelatedTo"

/-- `RelationType::from_str`. -/
def fromStr (s : String) : Option RelationType :=
  match s with
  | "Supersedes" => some supersedes
  | "Contradicts" => some contradicts
  | "Supports" => some supports
  | "CoAccess" => some coAccess
  | "Prerequisite" => some prerequisite
  | "Informs" => some informs
  | "Advances" => some advances
  | "Motivates" => some motivates
  | "Cites" => some cites
  | "Asserts" => some asserts
  | "Mentions" => some mentions
  | "Refutes" => some refutes
  | "Tests" => some tests
  | "DerivedFrom" => some derivedFrom
  | "About" => some about
  | "RelatedTo" => some relatedTo
  | _ => none

@[simp] theorem fromStr_asStr (t : RelationType) : fromStr t.asStr = some t := by
  cases t <;> rfl

theorem eq_asStr_of_fromStr {s : String} {t : RelationType} (h : fromStr s = some t) :
    s = t.asStr := by
  unfold fromStr at h
  split at h <;> cases h <;> rfl

theorem asStr_inj {t t' : RelationType} (h : t.asStr = t'.asStr) : t = t' := by
  have hs : fromStr t.asStr = fromStr t'.asStr := by rw [h]
  simpa using hs

end RelationType

/-! ## The graph -/

/-- `RelationEdge`. -/
structure RelationEdge where
  relationType : String
  weight : UInt32
  createdAt : Int
  createdBy : String
  source : String
  bootstrapOnly : Bool
  deriving DecidableEq, Repr

/-- `GraphEdgeRow`: a row of `graph_edges`. -/
structure GraphEdgeRow where
  sourceId : Nat
  targetId : Nat
  relationType : String
  weight : UInt32
  createdAt : Int
  createdBy : String
  source : String
  bootstrapOnly : Bool
  deriving DecidableEq, Repr

/-- `petgraph::Direction`. -/
inductive Direction where
  | outgoing
  | incoming
  deriving DecidableEq, Repr

/-- An edge: the indices of its ends, and its weight. -/
abbrev IndexedEdge : Type := (Nat × Nat) × RelationEdge

/-- The order in which `edges_directed` lists the edges of a node. -/
abbrev EdgeOrder : Type := HashMap.IterOrder (Nat × Nat) RelationEdge

/-- `TypedRelationGraph`. -/
structure TypedRelationGraph where
  nodes : List Nat
  edges : List IndexedEdge
  nodeIndex : HashMap Nat Nat

namespace TypedRelationGraph

/-- `TypedRelationGraph::empty`. -/
def empty : TypedRelationGraph := ⟨[], [], ∅⟩

/-- `node_index_for`. -/
def nodeIndexFor (g : TypedRelationGraph) (id : Nat) : Option Nat := g.nodeIndex.lookup id

/-- `node_id_for_index`. -/
def nodeIdForIndex (g : TypedRelationGraph) (idx : Nat) : Option Nat := g.nodes[idx]?

/-- `graph.inner[idx]`. The index is one of a node wherever this is read. -/
def idAt (g : TypedRelationGraph) (idx : Nat) : Nat := (g.nodeIdForIndex idx).getD 0

/-- The edge leaves or enters the node. -/
def touches (idx : Nat) (dir : Direction) (e : IndexedEdge) : Bool :=
  match dir with
  | .outgoing => e.1.1 = idx
  | .incoming => e.1.2 = idx

/-- `edges_of_type`. -/
def edgesOfType (g : TypedRelationGraph) (o : EdgeOrder) (idx : Nat) (type : RelationType)
    (dir : Direction) : List IndexedEdge :=
  (o.arrange (g.edges.filter (touches idx dir))).filter fun e => e.2.relationType = type.asStr

/-! ## Building it -/

/-- Pass 1, for one entry. -/
def addNode (g : TypedRelationGraph) (id : Nat) : TypedRelationGraph :=
  { g with nodes := g.nodes ++ [id], nodeIndex := g.nodeIndex.insert id g.nodes.length }

/-- Pass 1. -/
def nodesOf (entries : List EntryRecord) : TypedRelationGraph :=
  entries.foldl (fun g entry => g.addNode entry.id) empty

/-- The edge of an entry that supersedes one of the graph. -/
def supersedesEdge (index : HashMap Nat Nat) (entry : EntryRecord) : Option IndexedEdge := do
  let predId ← entry.supersedes
  let predIdx ← index.lookup predId
  let succIdx ← index.lookup entry.id
  return ((predIdx, succIdx), ⟨"Supersedes", 0x3F800000, 0, "bootstrap", "entries.supersedes", false⟩)

/-- The edge of a row, unless pass 2b skips the row. -/
def rowEdge (index : HashMap Nat Nat) (row : GraphEdgeRow) : Option IndexedEdge :=
  if row.bootstrapOnly then none
  else if row.relationType = "Supersedes" then none
  else if (RelationType.fromStr row.relationType).isNone then none
  else do
    let sourceIdx ← index.lookup row.sourceId
    let targetIdx ← index.lookup row.targetId
    return ((sourceIdx, targetIdx),
      ⟨row.relationType, row.weight, row.createdAt, row.createdBy, row.source, false⟩)

/-- `add_edge`, for an edge that was not skipped. -/
def pushEdge (g : TypedRelationGraph) (e : Option IndexedEdge) : TypedRelationGraph :=
  { g with edges := g.edges ++ e.toList }

/-- Passes 1, 2a and 2b. -/
def assemble (entries : List EntryRecord) (rows : List GraphEdgeRow) : TypedRelationGraph :=
  rows.foldl (fun g row => g.pushEdge (rowEdge g.nodeIndex row))
    (entries.foldl (fun g entry => g.pushEdge (supersedesEdge g.nodeIndex entry)) (nodesOf entries))

/-- The edges of the temporary graph of pass 3. -/
def supersedesPairs (g : TypedRelationGraph) : List (Nat × Nat) :=
  (g.edges.filter fun e => e.2.relationType = "Supersedes").map fun e => (g.idAt e.1.1, g.idAt e.1.2)

end TypedRelationGraph

/-- `GraphError`. -/
inductive GraphError where
  | cycleDetected
  deriving DecidableEq, Repr

open TypedRelationGraph in
/-- `build_typed_relation_graph`. -/
def buildTypedRelationGraph (entries : List EntryRecord) (rows : List GraphEdgeRow) :
    Except GraphError TypedRelationGraph :=
  if isCyclic (assemble entries rows).supersedesPairs then .error .cycleDetected
  else .ok (assemble entries rows)

/-- `entry_by_id`. -/
def entryById (id : Nat) (entries : List EntryRecord) : Option EntryRecord :=
  entries.find? fun e => e.id = id

namespace TypedRelationGraph

/-! ## What was built -/

/-- Every index leads to its node. -/
def Indexed (g : TypedRelationGraph) : Prop :=
  ∀ id i, g.nodeIndexFor id = some i → g.nodeIdForIndex i = some id

theorem Indexed.addNode {g : TypedRelationGraph} (h : g.Indexed) (id : Nat) :
    (g.addNode id).Indexed := by
  intro id' i hi
  unfold nodeIndexFor TypedRelationGraph.addNode at hi
  rw [HashMap.lookup_insert_eq] at hi
  unfold nodeIdForIndex TypedRelationGraph.addNode
  split at hi
  · rename_i heq
    cases hi
    rw [heq]
    exact List.getElem?_concat_length
  · have hold := h id' i hi
    unfold nodeIdForIndex at hold
    have hlt := (List.getElem?_eq_some_iff.mp hold).1
    rw [List.getElem?_append_left hlt, hold]

theorem foldl_pushEdge {α : Type} (f : HashMap Nat Nat → α → Option IndexedEdge) (l : List α)
    (g : TypedRelationGraph) :
    l.foldl (fun g a => g.pushEdge (f g.nodeIndex a)) g =
      { g with edges := g.edges ++ l.filterMap (f g.nodeIndex) } := by
  induction l generalizing g with
  | nil =>
    rw [List.filterMap_nil, List.append_nil]
    rfl
  | cons a l ih =>
    rw [List.foldl_cons, ih]
    unfold pushEdge
    cases hf : f g.nodeIndex a with
    | none => simp [hf]
    | some e => simp [hf]

theorem nodesOf_concat (entries : List EntryRecord) (e : EntryRecord) :
    nodesOf (entries ++ [e]) = (nodesOf entries).addNode e.id := by
  unfold nodesOf
  rw [List.foldl_append]
  rfl

theorem nodesOf_indexed (entries : List EntryRecord) : (nodesOf entries).Indexed := by
  induction entries using List.reverseRecOn with
  | nil =>
    intro id i hi
    cases hi
  | append_singleton entries e ih =>
    rw [nodesOf_concat]
    exact ih.addNode e.id

/-- The entries are the nodes. -/
theorem nodesOf_isSome {entries : List EntryRecord} {id : Nat} :
    ((nodesOf entries).nodeIndexFor id).isSome = true ↔ id ∈ entries.map EntryRecord.id := by
  induction entries using List.reverseRecOn with
  | nil =>
    constructor
    · intro h
      cases h
    · intro h
      cases h
  | append_singleton entries e ih =>
    rw [nodesOf_concat, List.map_append, List.map_singleton, List.mem_append, List.mem_singleton, ← ih]
    unfold nodeIndexFor addNode
    rw [HashMap.lookup_insert_eq]
    split
    · rename_i heq
      simp [heq]
    · rename_i hne
      simp [hne]

theorem nodesOf_edges (entries : List EntryRecord) : (nodesOf entries).edges = [] := by
  induction entries using List.reverseRecOn with
  | nil => rfl
  | append_singleton entries e ih =>
    rw [nodesOf_concat]
    exact ih

theorem assemble_eq (entries : List EntryRecord) (rows : List GraphEdgeRow) :
    assemble entries rows =
      { nodesOf entries with
        edges := entries.filterMap (supersedesEdge (nodesOf entries).nodeIndex) ++
          rows.filterMap (rowEdge (nodesOf entries).nodeIndex) } := by
  unfold assemble
  rw [foldl_pushEdge supersedesEdge, foldl_pushEdge rowEdge]
  simp only [nodesOf_edges, List.nil_append]

theorem supersedesEdge_eq_some {index : HashMap Nat Nat} {entry : EntryRecord} {i j : Nat}
    {w : RelationEdge} (h : supersedesEdge index entry = some ((i, j), w)) :
    w.relationType = "Supersedes" ∧ index.lookup entry.id = some j ∧
      ∃ p, entry.supersedes = some p ∧ index.lookup p = some i := by
  unfold supersedesEdge at h
  simp only [Option.bind_eq_bind, Option.bind_eq_some_iff, Option.pure_def, Option.some.injEq] at h
  obtain ⟨p, hp, i', hi, j', hj, heq⟩ := h
  cases heq
  exact ⟨rfl, hj, p, hp, hi⟩

/-- Pass 2b does not skip the row. -/
def Kept (row : GraphEdgeRow) : Prop :=
  row.bootstrapOnly = false ∧ row.relationType ≠ "Supersedes" ∧
    (RelationType.fromStr row.relationType).isSome = true

theorem rowEdge_eq_some {index : HashMap Nat Nat} {row : GraphEdgeRow} {e : IndexedEdge} :
    rowEdge index row = some e ↔ Kept row ∧ index.lookup row.sourceId = some e.1.1 ∧
      index.lookup row.targetId = some e.1.2 ∧
      e.2 = ⟨row.relationType, row.weight, row.createdAt, row.createdBy, row.source, false⟩ := by
  obtain ⟨⟨i, j⟩, w⟩ := e
  unfold rowEdge Kept
  split
  · rename_i hb
    simp [hb]
  · rename_i hb
    split
    · rename_i hs
      simp [hs]
    · rename_i hs
      split
      · rename_i hn
        rw [Option.isNone_iff_eq_none] at hn
        simp [hn]
      · rename_i hn
        simp only [Option.bind_eq_bind, Option.bind_eq_some_iff, Option.pure_def, Option.some.injEq,
          Prod.mk.injEq]
        rw [Bool.not_eq_true] at hb
        rw [Option.isNone_iff_eq_none] at hn
        constructor
        · rintro ⟨i', hi, j', hj, ⟨rfl, rfl⟩, rfl⟩
          exact ⟨⟨hb, hs, Option.isSome_iff_ne_none.mpr hn⟩, hi, hj, rfl⟩
        · rintro ⟨-, hi, hj, rfl⟩
          exact ⟨i, hi, j, hj, ⟨rfl, rfl⟩, rfl⟩

variable {entries : List EntryRecord} {rows : List GraphEdgeRow} {g : TypedRelationGraph}

theorem eq_assemble (hg : buildTypedRelationGraph entries rows = .ok g) :
    g = assemble entries rows ∧ isCyclic g.supersedesPairs = false := by
  unfold buildTypedRelationGraph at hg
  split at hg
  · cases hg
  · rename_i h
    cases hg
    exact ⟨rfl, Bool.not_eq_true _ ▸ h⟩

theorem nodeIndex_of_build (hg : buildTypedRelationGraph entries rows = .ok g) :
    g.nodeIndex = (nodesOf entries).nodeIndex ∧ g.nodes = (nodesOf entries).nodes := by
  rw [(eq_assemble hg).1, assemble_eq]
  exact ⟨rfl, rfl⟩

theorem indexed_of_build (hg : buildTypedRelationGraph entries rows = .ok g) : g.Indexed := by
  obtain ⟨hidx, hnodes⟩ := nodeIndex_of_build hg
  intro id i hi
  unfold nodeIndexFor at hi
  rw [hidx] at hi
  unfold nodeIdForIndex
  rw [hnodes]
  exact nodesOf_indexed entries id i hi

/-- **The nodes of the graph are the entries.** -/
theorem nodeIndexFor_isSome (hg : buildTypedRelationGraph entries rows = .ok g) {id : Nat} :
    (g.nodeIndexFor id).isSome = true ↔ id ∈ entries.map EntryRecord.id := by
  unfold nodeIndexFor
  rw [(nodeIndex_of_build hg).1]
  exact nodesOf_isSome

/-- No two ids share a node. -/
theorem nodeIndexFor_inj (hg : buildTypedRelationGraph entries rows = .ok g) {id id' i : Nat}
    (h : g.nodeIndexFor id = some i) (h' : g.nodeIndexFor id' = some i) : id = id' := by
  have hi := indexed_of_build hg id i h
  rw [indexed_of_build hg id' i h'] at hi
  exact (Option.some.inj hi).symm

/-- **The edges of the graph**: the supersessions of the entries, then the rows that were kept. -/
theorem edges_of_build (hg : buildTypedRelationGraph entries rows = .ok g) :
    g.edges = entries.filterMap (supersedesEdge g.nodeIndex) ++
      rows.filterMap (rowEdge g.nodeIndex) := by
  rw [(nodeIndex_of_build hg).1, (eq_assemble hg).1, assemble_eq]

/-! ## Supersession edges -/

/-- A supersession leads from `i` to `j`. -/
def SupersedesEdge (g : TypedRelationGraph) (i j : Nat) : Prop :=
  ∃ w, ((i, j), w) ∈ g.edges ∧ w.relationType = "Supersedes"

theorem origin_of_supersedesEdge (hg : buildTypedRelationGraph entries rows = .ok g) {i j : Nat}
    (h : g.SupersedesEdge i j) :
    ∃ e ∈ entries, g.nodeIndexFor e.id = some j ∧
      ∃ p, e.supersedes = some p ∧ g.nodeIndexFor p = some i := by
  obtain ⟨w, hmem, htype⟩ := h
  rw [edges_of_build hg, List.mem_append, List.mem_filterMap, List.mem_filterMap] at hmem
  rcases hmem with ⟨e, he, hedge⟩ | ⟨row, -, hedge⟩
  · obtain ⟨-, hj, hp⟩ := supersedesEdge_eq_some hedge
    exact ⟨e, he, hj, hp⟩
  · obtain ⟨hkept, -, -, hw⟩ := rowEdge_eq_some.mp hedge
    dsimp only at hw
    rw [hw] at htype
    exact absurd htype hkept.2.1

/-- **With distinct ids a node is superseded into by at most one other.** -/
theorem supersedesEdge_unique (hids : (entries.map EntryRecord.id).Nodup)
    (hg : buildTypedRelationGraph entries rows = .ok g) ⦃i i' j : Nat⦄
    (h : g.SupersedesEdge i j) (h' : g.SupersedesEdge i' j) : i = i' := by
  obtain ⟨e, he, hj, p, hp, hi⟩ := origin_of_supersedesEdge hg h
  obtain ⟨e', he', hj', p', hp', hi'⟩ := origin_of_supersedesEdge hg h'
  obtain rfl := List.inj_on_of_nodup_map hids he he' (nodeIndexFor_inj hg hj hj')
  rw [hp] at hp'
  cases hp'
  rw [hi] at hi'
  exact Option.some.inj hi'

/-- **A graph that was built has no supersession cycle.** -/
theorem supersedesEdge_acyclic (hg : buildTypedRelationGraph entries rows = .ok g) :
    Acyclic g.SupersedesEdge := by
  intro i n hw
  have hcyc : ¬ isCyclic g.supersedesPairs = true := by
    rw [(eq_assemble hg).2]
    exact Bool.false_ne_true
  rw [isCyclic_iff, not_not] at hcyc
  refine hcyc (g.idAt i) n (hw.map g.idAt ?_)
  rintro a b ⟨w, hmem, htype⟩
  refine List.mem_map.mpr ⟨((a, b), w), ?_, rfl⟩
  rw [List.mem_filter, decide_eq_true_eq]
  exact ⟨hmem, htype⟩

theorem mem_edgesOfType {o : EdgeOrder} {idx : Nat} {type : RelationType} {dir : Direction}
    {e : IndexedEdge} :
    e ∈ g.edgesOfType o idx type dir ↔
      e ∈ g.edges ∧ touches idx dir e = true ∧ e.2.relationType = type.asStr := by
  unfold edgesOfType
  rw [List.mem_filter, (o.perm _).mem_iff, List.mem_filter, decide_eq_true_eq, and_assoc]

end TypedRelationGraph
end Unimatrix
