import Unimatrix.Lib.HashMap
import Unimatrix.Lib.Query

/-!
# The vector index

Model of `VectorIndex` of `index.rs`, of its dump and load in `persistence.rs`, and of the `vector_map` table.

* The HNSW graph is the list of its points, each a data id and a vector. What a search finds of it is left to the
  library; a point that is found is reported under the entry that its data id has (`reportedAs`). The points are
  iterated layer by layer, which is some order (`Query.Arrangement`).
* `Config`: which vectors pass `validate_dimension` and `validate_embedding`, and how long they are.
* Data ids count modulo 2 ^ 64, as `fetch_add` does.
* `vector_map` is a map from entries to data ids: `entry_id` is its `PRIMARY KEY`.
-/

namespace Unimatrix.Vector

variable {V : Type}

/-- What is known of a vector. -/
structure Config (V : Type) where
  valid : V → Bool
  len : V → Nat

/-! ## The id map -/

/-- `IdMap`. -/
structure IdMap where
  dataToEntry : HashMap Nat Nat
  entryToData : HashMap Nat Nat

namespace IdMap

/-- `IdMap::new`. -/
def new : IdMap := ⟨∅, ∅⟩

/-- The update of the map in `insert` and `insert_hnsw_only`. -/
def insert (m : IdMap) (entryId dataId : Nat) : IdMap where
  dataToEntry := (HashMap.eraseOpt m.dataToEntry (m.entryToData.lookup entryId)).insert dataId entryId
  entryToData := m.entryToData.insert entryId dataId

/-- The update of the map in `remove_entry`. -/
def remove (m : IdMap) (entryId : Nat) : IdMap :=
  match m.entryToData.lookup entryId with
  | some dataId => ⟨m.dataToEntry.erase dataId, m.entryToData.erase entryId⟩
  | none => m

/-- The map that `from_parts` and `compact` build of pairs of an entry and a data id. -/
def ofPairs (l : List (Nat × Nat)) : IdMap := ⟨HashMap.collect (l.map Prod.swap), HashMap.collect l⟩

/-- Each of the two maps is the inverse of the other. -/
def Inverse (m : IdMap) : Prop := HashMap.Inverse m.entryToData m.dataToEntry

theorem inverse_new : new.Inverse := HashMap.inverse_empty

theorem Inverse.insert {m : IdMap} (h : m.Inverse) {e d : Nat}
    (hd : ∀ e', m.dataToEntry.lookup d = some e' → e' = e) : (m.insert e d).Inverse :=
  HashMap.Inverse.insert h hd

theorem Inverse.remove {m : IdMap} (h : m.Inverse) (e : Nat) : (m.remove e).Inverse := by
  unfold IdMap.remove
  cases hold : m.entryToData.lookup e with
  | none => exact h
  | some d => exact HashMap.Inverse.erase h hold

theorem inverse_ofPairs {l : List (Nat × Nat)} (hentries : (l.map Prod.fst).Nodup)
    (hdata : (l.map Prod.snd).Nodup) : (ofPairs l).Inverse :=
  HashMap.inverse_collect hentries hdata

@[simp] theorem entryToData_insert (m : IdMap) (e d e' : Nat) :
    (m.insert e d).entryToData.lookup e' = if e' = e then some d else m.entryToData.lookup e' :=
  HashMap.lookup_insert_eq _ _ _ _

theorem entryToData_remove (m : IdMap) (e e' : Nat) :
    (m.remove e).entryToData.lookup e' = if e' = e then none else m.entryToData.lookup e' := by
  unfold remove
  cases hold : m.entryToData.lookup e with
  | none =>
    by_cases h : e' = e
    · subst h
      simpa using hold
    · simp [h]
  | some d => exact HashMap.lookup_erase_eq _ _ _

theorem entryToData_ofPairs {l : List (Nat × Nat)} (hentries : (l.map Prod.fst).Nodup) (e d : Nat) :
    (ofPairs l).entryToData.lookup e = some d ↔ (e, d) ∈ l := HashMap.lookup_collect hentries

end IdMap

/-! ## The index -/

/-- `VectorIndex`, but for its store and its configuration. -/
structure VectorIndex (V : Type) where
  hnsw : List (Nat × V)
  nextDataId : Nat
  idMap : IdMap

namespace VectorIndex

/-- `VectorIndex::new`. -/
def new : VectorIndex V := ⟨[], 0, .new⟩

/-- `next_data_id.fetch_add(1)`: the id to use, and the index after. This is all `allocate_data_id` does. -/
def allocateDataId (x : VectorIndex V) : Nat × VectorIndex V :=
  (x.nextDataId, { x with nextDataId := (x.nextDataId + 1) % 0x10000000000000000 })

/-- `hnsw.insert_slice`. -/
def insertSlice (x : VectorIndex V) (dataId : Nat) (embedding : V) : VectorIndex V :=
  { x with hnsw := x.hnsw ++ [(dataId, embedding)] }

/-- The update of the id map of `insert` and `insert_hnsw_only`. -/
def publish (x : VectorIndex V) (entryId dataId : Nat) : VectorIndex V :=
  { x with idMap := x.idMap.insert entryId dataId }

/-- `insert_hnsw_only`: `none` where the embedding is refused. -/
def insertHnswOnly (cfg : Config V) (x : VectorIndex V) (entryId dataId : Nat) (embedding : V) :
    Option (VectorIndex V) :=
  if cfg.valid embedding then some ((x.insertSlice dataId embedding).publish entryId dataId) else none

/-- `remove_entry`. -/
def removeEntry (x : VectorIndex V) (entryId : Nat) : VectorIndex V :=
  { x with idMap := x.idMap.remove entryId }

/-- `contains`. -/
def contains (x : VectorIndex V) (entryId : Nat) : Bool := (x.idMap.entryToData.lookup entryId).isSome

/-- `get_embedding`: the first point with the data id of the entry, as the layers are iterated. -/
def getEmbedding (o : Query.Arrangement (Nat × V)) (x : VectorIndex V) (entryId : Nat) : Option V :=
  (x.idMap.entryToData.lookup entryId).bind fun dataId =>
    ((o.arrange x.hnsw).find? fun p => p.1 == dataId).map Prod.snd

/-- The entry that `map_neighbours_to_results` reports a hit on a point under. -/
def reportedAs (x : VectorIndex V) (dataId : Nat) : Option Nat := x.idMap.dataToEntry.lookup dataId

/-- The data ids of the points. -/
def labels (x : VectorIndex V) : List Nat := x.hnsw.map Prod.fst

/-- A point may be added under a data id that labels no other. -/
theorem labels_insertSlice_nodup {x : VectorIndex V} {d : Nat} {v : V} :
    (x.insertSlice d v).labels.Nodup ↔ x.labels.Nodup ∧ d ∉ x.labels := by
  have hlabels : (x.insertSlice d v).labels = x.labels ++ [d] := List.map_append
  rw [hlabels, ← List.concat_eq_append, List.nodup_concat]
  exact and_comm

/-- With one point a data id, the order of the layers does not matter. -/
theorem getEmbedding_eq {x : VectorIndex V} (hlabels : x.labels.Nodup) {e d : Nat} {v : V}
    (hd : x.idMap.entryToData.lookup e = some d) (hv : (d, v) ∈ x.hnsw) (o : Query.Arrangement (Nat × V)) :
    x.getEmbedding o e = some v := by
  have hmem : (d, v) ∈ o.arrange x.hnsw := (o.perm x.hnsw).mem_iff.mpr hv
  unfold getEmbedding
  rw [hd, Option.bind_some]
  cases hfind : (o.arrange x.hnsw).find? fun p => p.1 == d with
  | none => exact absurd (beq_self_eq_true d) (List.find?_eq_none.mp hfind (d, v) hmem)
  | some p =>
    have hp : p.1 = d := by simpa using List.find?_some hfind
    have hin : p ∈ x.hnsw := (o.perm x.hnsw).mem_iff.mp (List.mem_of_find?_eq_some hfind)
    have heq : p = (d, v) := List.inj_on_of_nodup_map hlabels hin hv hp
    rw [heq]
    rfl

/-! ## Compaction -/

/-- The points of the graph that `compact` builds. -/
def rebuilt (embeddings : List (Nat × V)) : List (Nat × V) := embeddings.zipIdx.map fun p => (p.2, p.1.2)

/-- The data ids that `compact` gives. -/
def renumbered (embeddings : List (Nat × V)) : List (Nat × Nat) := embeddings.zipIdx.map fun p => (p.1.1, p.2)

/-- The swap of the graph and of the id map. -/
def swap (x : VectorIndex V) (embeddings : List (Nat × V)) : VectorIndex V :=
  { x with hnsw := rebuilt embeddings, idMap := .ofPairs (renumbered embeddings) }

/-- `next_data_id.store`. -/
def resetNextDataId (x : VectorIndex V) (embeddings : List (Nat × V)) : VectorIndex V :=
  { x with nextDataId := embeddings.length }

theorem labels_rebuilt (embeddings : List (Nat × V)) :
    (rebuilt embeddings).map Prod.fst = List.range embeddings.length := by
  unfold rebuilt
  rw [List.map_map]
  exact List.zipIdx_map_snd 0 embeddings |>.trans (List.range_eq_range').symm

theorem entries_renumbered (embeddings : List (Nat × V)) :
    (renumbered embeddings).map Prod.fst = embeddings.map Prod.fst := by
  unfold renumbered
  rw [List.map_map]
  have hcomp : (Prod.fst ∘ fun p : (Nat × V) × Nat => (p.1.1, p.2)) = Prod.fst ∘ Prod.fst := rfl
  rw [hcomp, ← List.map_map, List.zipIdx_map_fst]

theorem data_renumbered (embeddings : List (Nat × V)) :
    (renumbered embeddings).map Prod.snd = List.range embeddings.length := by
  unfold renumbered
  rw [List.map_map]
  exact List.zipIdx_map_snd 0 embeddings |>.trans (List.range_eq_range').symm

theorem labels_rebuilt_nodup (embeddings : List (Nat × V)) : ((rebuilt embeddings).map Prod.fst).Nodup := by
  rw [labels_rebuilt]
  exact List.nodup_range

theorem data_renumbered_nodup (embeddings : List (Nat × V)) : ((renumbered embeddings).map Prod.snd).Nodup := by
  rw [data_renumbered]
  exact List.nodup_range

/-- The point under the data id that an entry is given carries the vector it is given. -/
theorem mem_rebuilt {embeddings : List (Nat × V)} {d : Nat} {v : V} :
    (d, v) ∈ rebuilt embeddings ↔ ∃ e, embeddings[d]? = some (e, v) := by
  unfold rebuilt
  simp only [List.mem_map, Prod.mk.injEq]
  constructor
  · rintro ⟨⟨⟨e, v'⟩, d'⟩, hmem, rfl, rfl⟩
    exact ⟨e, List.mk_mem_zipIdx_iff_getElem?.mp hmem⟩
  · rintro ⟨e, he⟩
    exact ⟨((e, v), d), List.mk_mem_zipIdx_iff_getElem?.mpr he, rfl, rfl⟩

theorem mem_renumbered {embeddings : List (Nat × V)} {e d : Nat} :
    (e, d) ∈ renumbered embeddings ↔ ∃ v, embeddings[d]? = some (e, v) := by
  unfold renumbered
  simp only [List.mem_map, Prod.mk.injEq]
  constructor
  · rintro ⟨⟨⟨e', v⟩, d'⟩, hmem, rfl, rfl⟩
    exact ⟨v, List.mk_mem_zipIdx_iff_getElem?.mp hmem⟩
  · rintro ⟨v, hv⟩
    exact ⟨((e, v), d), List.mk_mem_zipIdx_iff_getElem?.mpr hv, rfl, rfl⟩

/-- An entry that comes once is found first with the vector of its point. -/
theorem find?_of_renumbered {embeddings : List (Nat × V)} (hkeys : (embeddings.map Prod.fst).Nodup) {e d : Nat}
    {v : V} (he : (e, d) ∈ renumbered embeddings) (hv : (d, v) ∈ rebuilt embeddings) :
    (embeddings.find? fun p => p.1 == e) = some (e, v) := by
  obtain ⟨w, hw⟩ := mem_renumbered.mp he
  obtain ⟨e', he'⟩ := mem_rebuilt.mp hv
  obtain ⟨rfl, rfl⟩ := Prod.mk.inj (Option.some.inj (hw.symm.trans he'))
  have hmem : (e, w) ∈ embeddings := List.mem_of_getElem? hw
  cases hfind : embeddings.find? fun p => p.1 == e with
  | none => exact absurd (beq_self_eq_true e) (List.find?_eq_none.mp hfind (e, w) hmem)
  | some p =>
    have hp : p.1 = e := by simpa using List.find?_some hfind
    rw [List.inj_on_of_nodup_map hkeys (List.mem_of_find?_eq_some hfind) hmem hp]

end VectorIndex

/-! ## The table -/

/-- `vector_map`: the data id of each entry. -/
abbrev VectorMap : Type := HashMap Nat Nat

/-- `rewrite_vector_map`: plain inserts after a `DELETE`, which a repeated key makes fail as a whole. -/
def rewriteVectorMap (mappings : List (Nat × Nat)) : Option VectorMap :=
  if (mappings.map Prod.fst).Nodup then some (HashMap.collect mappings) else none

theorem rewriteVectorMap_eq_some {mappings : List (Nat × Nat)} {table : VectorMap}
    (h : rewriteVectorMap mappings = some table) :
    (mappings.map Prod.fst).Nodup ∧ table = HashMap.collect mappings := by
  unfold rewriteVectorMap at h
  split_ifs at h with hnodup
  exact ⟨hnodup, (Option.some.inj h).symm⟩

end Unimatrix.Vector
