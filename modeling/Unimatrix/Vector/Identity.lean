import Unimatrix.Lib.Runs
import Unimatrix.Vector.Index

/-!
# Which vector an entry has

Runs of the operations on the vector index, one at a time, over the store and the directory that the index is dumped
to. An operation takes the store calls of it that fail.

* `System.latest` is the vector inserted last for each entry; the code has no such field.
* `Identity`: the id map is one to one, no data id labels two points, and each entry has the vector inserted last.
* `Permitted`: a data id is given to a point that labels no other and is recorded for no other entry (`Free`), and a
  load finds under the recorded data ids the points that memory has there.
* **`vectorIdentity`**: throughout a run of permitted operations, `Identity` holds.
* `vectorIdentity_healed`: one entry is stored and then healed. Its row says `embedding_dim = 0`, as `Store::insert`
  writes it, so the heal pass inserts a second point under the recorded data id.
-/

namespace Unimatrix.Vector

/-! ## The system -/

/-- What the heal pass reads of a row of `entries`. -/
structure EntryRow where
  active : Bool
  embeddingDim : Nat
  deriving DecidableEq, Repr

/-- The dump: the points and `next_data_id`. -/
structure Dump (V : Type) where
  hnsw : List (Nat × V)
  nextDataId : Nat

/-- The index in memory, the store, and the directory of the index. -/
structure System (V : Type) where
  index : VectorIndex V
  vectorMap : VectorMap
  entries : HashMap Nat EntryRow
  disk : Option (Dump V)
  latest : Nat → Option V

/-- How far a caller of `allocate_data_id` gets. -/
inductive Reach where
  | allocated
  | entered
  | mapped
  | finished
  deriving DecidableEq, Repr

/-- What a heal pass is given, and what of it fails. `embed` is `none` where no embedding comes back. -/
structure Heal (V : Type) where
  batch : Nat
  activeEntries : List (Nat × Nat)
  order : HashMap.IterOrder Nat EntryRow
  embed : Nat → Option V
  queryFails : Bool := false
  getFails : Nat → Bool := fun _ => false
  putFails : Nat → Bool := fun _ => false
  updateFails : Nat → Bool := fun _ => false

/-- The operations. -/
inductive Op (V : Type) where
  | insert (entryId : Nat) (embedding : V) (putFails : Bool)
  | store (entryId : Nat) (embedding : V) (row : EntryRow) (reach : Reach)
  | removeEntry (entryId : Nat)
  | prune (entryId : Nat) (deleteFails : Bool)
  | compact (embeddings : List (Nat × V)) (rewriteFails : Bool)
  | heal (h : Heal V)
  | dump
  | load (fails : Bool)
  | entries (table : HashMap Nat EntryRow)

variable {V : Type}

namespace System

variable (cfg : Config V) (s : System V)

/-- Before any operation. -/
def start : System V := ⟨.new, ∅, ∅, none, fun _ => none⟩

/-- The vector is inserted for the entry. -/
def note (e : Nat) (v : V) : Nat → Option V := Function.update s.latest e (some v)

/-- `put_vector_mapping`. -/
def putVectorMapping (e d : Nat) : System V := { s with vectorMap := s.vectorMap.insert e d }

/-- `insert_hnsw_only`. -/
def insertHnswOnly (e d : Nat) (v : V) : System V :=
  match s.index.insertHnswOnly cfg e d v with
  | some x => { s with index := x, latest := s.note e v }
  | none => s

/-- `insert`. -/
def insert (e : Nat) (v : V) (putFails : Bool) : System V :=
  if cfg.valid v then
    let (d, x) := s.index.allocateDataId
    let s := { s with index := x.insertSlice d v }
    if putFails then s
    else { s.putVectorMapping e d with index := s.index.publish e d, latest := s.note e v }
  else s

/-- `allocate_data_id` and what the caller does with the data id: the row of the entry, the mapping, and
`insert_hnsw_only`. -/
def store (e : Nat) (v : V) (row : EntryRow) (reach : Reach) : System V :=
  let (d, x) := s.index.allocateDataId
  let s := { s with index := x }
  match reach with
  | .allocated => s
  | .entered => { s with entries := s.entries.insert e row }
  | .mapped => putVectorMapping { s with entries := s.entries.insert e row } e d
  | .finished => (putVectorMapping { s with entries := s.entries.insert e row } e d).insertHnswOnly cfg e d v

/-- The prune pass at an entry. -/
def prune (e : Nat) (deleteFails : Bool) : System V :=
  if deleteFails then s else { s with vectorMap := s.vectorMap.erase e, index := s.index.removeEntry e }

/-- `compact`. -/
def compact (embeddings : List (Nat × V)) (rewriteFails : Bool) : System V :=
  if embeddings.all (cfg.valid ·.2) then
    match if rewriteFails then none else rewriteVectorMap (VectorIndex.renumbered embeddings) with
    | some table =>
      { s with
        vectorMap := table
        index := (s.index.swap embeddings).resetNextDataId embeddings
        latest := fun e => ((embeddings.find? fun p => p.1 == e).map Prod.snd).or (s.latest e) }
    | none => s
  else s

/-! ### The heal pass -/

/-- The entries that a heal pass selects. -/
def toHeal (h : Heal V) : List Nat :=
  let unembedded := if h.queryFails then [] else
    (((s.entries.iter h.order).filter fun r => r.2.active && r.2.embeddingDim == 0).map Prod.fst).take h.batch
  let missing :=
    ((h.activeEntries.filter fun r => 0 < r.2 && !s.index.contains r.1).map Prod.fst).take h.batch
  (missing.foldl (fun ids id => if id ∈ ids then ids else ids ++ [id]) unembedded).take h.batch

/-- `update_embedding_dim`. -/
def updateEmbeddingDim (e dim : Nat) : System V :=
  match s.entries.lookup e with
  | some row => { s with entries := s.entries.insert e { row with embeddingDim := dim } }
  | none => s

/-- The end of the loop body: `insert_hnsw_only`, and where it succeeds the confirmation. -/
def confirm (h : Heal V) (e d : Nat) (v : V) : System V :=
  if cfg.valid v && !h.updateFails e then (s.insertHnswOnly cfg e d v).updateEmbeddingDim e (cfg.len v % 65536)
  else s.insertHnswOnly cfg e d v

/-- The data id that the heal pass finds recorded for an entry. -/
def recordedId (h : Heal V) (e : Nat) : Option Nat := if h.getFails e then none else s.vectorMap.lookup e

/-- The loop body of the heal pass. -/
def healEntry (h : Heal V) (e : Nat) : System V :=
  match h.embed e with
  | none => s
  | some v =>
    match s.recordedId h e with
    | some d => s.confirm cfg h e d v
    | none =>
      let (d, x) := s.index.allocateDataId
      let s := { s with index := x }
      if h.putFails e then s else (s.putVectorMapping e d).confirm cfg h e d v

/-- The heal pass. -/
def heal (h : Heal V) : System V := (s.toHeal h).foldl (fun s e => s.healEntry cfg h e) s

/-! ### Dump and load -/

/-- `dump`. -/
def dump : System V := { s with disk := some ⟨s.index.hnsw, s.index.nextDataId⟩ }

/-- `iter_vector_mappings`: the rows, by entry. -/
def iterVectorMappings : List (Nat × Nat) :=
  Query.orderBy .stored (fun a b => decide (a.1 ≤ b.1)) (HashMap.pairs s.vectorMap)

/-- `load`: the id map has the rows whose data id labels a point. -/
def loaded (d : Dump V) : VectorIndex V :=
  if d.hnsw.isEmpty then .new
  else
    { hnsw := d.hnsw
      nextDataId := d.nextDataId
      idMap := .ofPairs (s.iterVectorMappings.filter fun r => decide (r.2 ∈ d.hnsw.map Prod.fst)) }

/-- A crash and a start: the index is loaded, and is a new one where there is none or the load fails. -/
def load (fails : Bool) : System V :=
  { s with
    index := match s.disk with
      | some d => if fails then .new else s.loaded d
      | none => .new }

/-! ### Runs -/

/-- One operation. -/
def step : Op V → System V
  | .insert e v putFails => s.insert cfg e v putFails
  | .store e v row reach => s.store cfg e v row reach
  | .removeEntry e => { s with index := s.index.removeEntry e }
  | .prune e deleteFails => s.prune e deleteFails
  | .compact embeddings rewriteFails => s.compact cfg embeddings rewriteFails
  | .heal h => s.heal cfg h
  | .dump => s.dump
  | .load fails => s.load fails
  | .entries table => { s with entries := table }

end System

/-! ## What is asked, and when it holds -/

/-- The identity of entries and points. -/
structure Identity (s : System V) : Prop where
  inverse : s.index.idMap.Inverse
  labels : s.index.labels.Nodup
  embedding : ∀ e, s.index.contains e = true →
    ∃ v, s.latest e = some v ∧ ∀ o, s.index.getEmbedding o e = some v
  hit : ∀ e d, s.index.idMap.entryToData.lookup e = some d → s.index.reportedAs d = some e

section Conditions

variable (cfg : Config V) (s : System V)

/-- The data id labels no point, and is recorded for no other entry. -/
def Free (e d : Nat) : Prop := d ∉ s.index.labels ∧ ∀ e', s.vectorMap.lookup e' = some d → e' = e

/-- The loop body of the heal pass gives a free data id. -/
def HealPermitted (h : Heal V) (s : System V) (e : Nat) : Prop :=
  ∀ v, h.embed e = some v →
    (∀ d, s.recordedId h e = some d → cfg.valid v = true → Free s e d) ∧
      (s.recordedId h e = none → h.putFails e = false → Free s e s.index.nextDataId)

/-- Under the recorded data ids the dump has points that memory has there too. -/
def DumpAgrees (d : Dump V) : Prop :=
  ∀ e dataId v, s.vectorMap.lookup e = some dataId → (dataId, v) ∈ d.hnsw → (dataId, v) ∈ s.index.hnsw

/-- The condition of an operation on the state it meets. -/
def Permitted : Op V → Prop
  | .insert e v putFails => cfg.valid v = true →
    Free s e s.index.nextDataId ∧ (putFails = true → s.vectorMap.lookup e ≠ some s.index.nextDataId)
  | .store e _ _ reach => reach = .mapped ∨ reach = .finished → Free s e s.index.nextDataId
  | .heal h => Runs.Throughout (fun s e => s.healEntry cfg h e) (HealPermitted cfg h) s (s.toHeal h)
  | .load fails => fails = false → ∀ d, s.disk = some d → DumpAgrees s d
  | _ => True

end Conditions

/-! ## The invariant -/

/-- What permitted operations keep. -/
structure Inv (s : System V) : Prop where
  inverse : s.index.idMap.Inverse
  labels : s.index.labels.Nodup
  point : ∀ e d, s.index.idMap.entryToData.lookup e = some d →
    ∃ v, (d, v) ∈ s.index.hnsw ∧ s.latest e = some v
  recorded_inj : ∀ e e' d, s.vectorMap.lookup e = some d → s.vectorMap.lookup e' = some d → e = e'
  recorded : ∀ e d v, s.vectorMap.lookup e = some d → (d, v) ∈ s.index.hnsw → s.latest e = some v
  dumped : ∀ d, s.disk = some d → (d.hnsw.map Prod.fst).Nodup

theorem Inv.start : Inv (System.start : System V) where
  inverse := IdMap.inverse_new
  labels := List.nodup_nil
  point := fun _ _ h => by cases h
  recorded_inj := fun _ _ _ h => by cases h
  recorded := fun _ _ _ h => by cases h
  dumped := fun _ h => by cases h

section Steps

variable {cfg : Config V} {s : System V}

/-- **The invariant says what is asked.** -/
theorem Inv.identity (h : Inv s) : Identity s where
  inverse := h.inverse
  labels := h.labels
  embedding e he := by
    obtain ⟨d, hd⟩ := Option.isSome_iff_exists.mp he
    obtain ⟨v, hv, hlatest⟩ := h.point e d hd
    exact ⟨v, hlatest, VectorIndex.getEmbedding_eq h.labels hd hv⟩
  hit e d hd := (h.inverse e d).mp hd

theorem not_mem_labels {x : VectorIndex V} {d : Nat} : d ∉ x.labels ↔ ∀ v, (d, v) ∉ x.hnsw := by
  unfold VectorIndex.labels
  simp

/-- Only the points, the id map, the table, the dump and what was inserted matter. -/
theorem Inv.congr (h : Inv s) {s' : System V} (hhnsw : s'.index.hnsw = s.index.hnsw)
    (hidMap : s'.index.idMap = s.index.idMap) (htable : s'.vectorMap = s.vectorMap) (hdisk : s'.disk = s.disk)
    (hlatest : s'.latest = s.latest) : Inv s' := by
  obtain ⟨hinv, hlab, hpoint, hinj, hrec, hdump⟩ := h
  refine ⟨hidMap ▸ hinv, ?_, ?_, htable ▸ hinj, ?_, hdisk ▸ hdump⟩
  · unfold VectorIndex.labels at hlab ⊢
    rwa [hhnsw]
  · rw [hidMap, hhnsw, hlatest]
    exact hpoint
  · rw [htable, hhnsw, hlatest]
    exact hrec

/-- A free data id is recorded for the entry. -/
theorem Inv.putVectorMapping (h : Inv s) {e d : Nat} (hfree : Free s e d) : Inv (s.putVectorMapping e d) where
  inverse := h.inverse
  labels := h.labels
  point := h.point
  recorded_inj := by
    intro e₁ e₂ d' h₁ h₂
    unfold System.putVectorMapping at h₁ h₂
    rw [HashMap.lookup_insert_eq] at h₁ h₂
    split_ifs at h₁ h₂ with hc₁ hc₂ hc₂
    · rw [hc₁, hc₂]
    · rw [hc₁]
      exact (hfree.2 e₂ (h₂.trans h₁.symm)).symm
    · rw [hc₂]
      exact hfree.2 e₁ (h₁.trans h₂.symm)
    · exact h.recorded_inj e₁ e₂ d' h₁ h₂
  recorded := by
    intro e' d' v hd hv
    unfold System.putVectorMapping at hd
    rw [HashMap.lookup_insert_eq] at hd
    split_ifs at hd with hc
    · cases hd
      exact absurd hv (not_mem_labels.mp hfree.1 v)
    · exact h.recorded e' d' v hd hv
  dumped := h.dumped

theorem Free.putVectorMapping {e d : Nat} (hfree : Free s e d) : Free (s.putVectorMapping e d) e d := by
  refine ⟨hfree.1, fun e' he' => ?_⟩
  unfold System.putVectorMapping at he'
  rw [HashMap.lookup_insert_eq] at he'
  split_ifs at he' with hc
  · exact hc
  · exact hfree.2 e' he'

/-- **A point is added for an entry** under the data id that is recorded for it. -/
theorem Inv.add (h : Inv s) {e d : Nat} (hfree : Free s e d) (hrow : s.vectorMap.lookup e = some d) (v : V) :
    Inv { s with index := (s.index.insertSlice d v).publish e d, latest := s.note e v } where
  inverse := by
    refine h.inverse.insert fun e' he' => ?_
    obtain ⟨w, hw, -⟩ := h.point e' d ((h.inverse e' d).mpr he')
    exact absurd hw (not_mem_labels.mp hfree.1 w)
  labels := VectorIndex.labels_insertSlice_nodup.mpr ⟨h.labels, hfree.1⟩
  point := by
    intro e' d' hd
    have hd' : (s.index.idMap.insert e d).entryToData.lookup e' = some d' := hd
    rw [IdMap.entryToData_insert] at hd'
    simp only [VectorIndex.publish, VectorIndex.insertSlice, List.mem_append, System.note, Function.update_apply]
    split_ifs at hd' ⊢ with hc
    · cases hd'
      exact ⟨v, .inr (List.mem_singleton_self _), rfl⟩
    · obtain ⟨w, hw, hlatest⟩ := h.point e' d' hd'
      exact ⟨w, .inl hw, hlatest⟩
  recorded_inj := h.recorded_inj
  recorded := by
    intro e' d' w hd hw
    simp only [VectorIndex.publish, VectorIndex.insertSlice, List.mem_append, System.note,
      Function.update_apply] at hw ⊢
    split_ifs with hc
    · subst hc
      obtain rfl := Option.some.inj (hrow.symm.trans hd)
      rcases hw with hw | hw
      · exact absurd hw (not_mem_labels.mp hfree.1 w)
      · rw [List.mem_singleton, Prod.mk.injEq] at hw
        rw [hw.2]
    · rcases hw with hw | hw
      · exact h.recorded e' d' w hd hw
      · rw [List.mem_singleton, Prod.mk.injEq] at hw
        exact absurd (hfree.2 e' (hw.1 ▸ hd)) hc
  dumped := h.dumped

theorem Inv.insertHnswOnly (h : Inv s) {e d : Nat} (hrow : s.vectorMap.lookup e = some d) {v : V}
    (hfree : cfg.valid v = true → Free s e d) : Inv (s.insertHnswOnly cfg e d v) := by
  unfold System.insertHnswOnly VectorIndex.insertHnswOnly
  by_cases hvalid : cfg.valid v = true
  · rw [if_pos hvalid]
    exact h.add (hfree hvalid) hrow v
  · rw [if_neg hvalid]
    exact h

/-! ### One operation -/

theorem Inv.insert (h : Inv s) {e : Nat} {v : V} {putFails : Bool}
    (hop : Permitted cfg s (.insert e v putFails)) : Inv (s.insert cfg e v putFails) := by
  unfold System.insert
  by_cases hvalid : cfg.valid v = true
  · obtain ⟨hfree, hunrecorded⟩ := hop hvalid
    rw [if_pos hvalid]
    cases putFails with
    | false =>
      have hput := h.putVectorMapping hfree
      have hrow : (s.putVectorMapping e s.index.nextDataId).vectorMap.lookup e = some s.index.nextDataId :=
        AList.lookup_insert _
      exact (hput.add hfree.putVectorMapping hrow v).congr rfl rfl rfl rfl rfl
    | true =>
      -- the point has no entry: no row has its data id
      have hno : ∀ e', s.vectorMap.lookup e' ≠ some s.index.nextDataId := by
        intro e' he'
        exact hunrecorded rfl (hfree.2 e' he' ▸ he')
      refine ⟨h.inverse, VectorIndex.labels_insertSlice_nodup.mpr ⟨h.labels, hfree.1⟩, ?_, h.recorded_inj, ?_,
        h.dumped⟩
      · intro e' d hd
        obtain ⟨w, hw, hlatest⟩ := h.point e' d hd
        exact ⟨w, List.mem_append_left _ hw, hlatest⟩
      · intro e' d w hd hw
        rcases List.mem_append.mp hw with hw | hw
        · exact h.recorded e' d w hd hw
        · rw [List.mem_singleton, Prod.mk.injEq] at hw
          exact absurd (hw.1 ▸ hd) (hno e')
  · rw [if_neg hvalid]
    exact h

theorem Inv.store (h : Inv s) {e : Nat} {v : V} {row : EntryRow} {reach : Reach}
    (hop : Permitted cfg s (.store e v row reach)) : Inv (s.store cfg e v row reach) := by
  cases reach with
  | allocated => exact h.congr rfl rfl rfl rfl rfl
  | entered => exact h.congr rfl rfl rfl rfl rfl
  | mapped => exact (h.putVectorMapping (hop (.inl rfl))).congr rfl rfl rfl rfl rfl
  | finished =>
    have hfree := hop (.inr rfl)
    let t : System V := { s with index := s.index.allocateDataId.2, entries := s.entries.insert e row }
    have ht : Inv t := h.congr rfl rfl rfl rfl rfl
    have hfree' : Free t e s.index.nextDataId := hfree
    exact (ht.putVectorMapping hfree').insertHnswOnly (AList.lookup_insert _) fun _ => hfree'.putVectorMapping

theorem Inv.removeEntry (h : Inv s) (e : Nat) : Inv { s with index := s.index.removeEntry e } where
  inverse := h.inverse.remove e
  labels := h.labels
  point := by
    intro e' d hd
    have hd' : (s.index.idMap.remove e).entryToData.lookup e' = some d := hd
    rw [IdMap.entryToData_remove] at hd'
    split_ifs at hd'
    exact h.point e' d hd'
  recorded_inj := h.recorded_inj
  recorded := h.recorded
  dumped := h.dumped

theorem Inv.prune (h : Inv s) (e : Nat) (deleteFails : Bool) : Inv (s.prune e deleteFails) := by
  unfold System.prune
  split
  · exact h
  · have hsub : ∀ e' d, (s.vectorMap.erase e).lookup e' = some d → s.vectorMap.lookup e' = some d := by
      intro e' d hd
      rw [HashMap.lookup_erase_eq] at hd
      split_ifs at hd
      exact hd
    obtain ⟨hinv, hlab, hpoint, -, -, hdump⟩ := h.removeEntry e
    exact ⟨hinv, hlab, hpoint, fun e₁ e₂ d h₁ h₂ => h.recorded_inj e₁ e₂ d (hsub _ _ h₁) (hsub _ _ h₂),
      fun e' d v hd hv => h.recorded e' d v (hsub _ _ hd) hv, hdump⟩

/-- **A compaction starts afresh**: every data id it gives is new, and recorded with its point. -/
theorem Inv.compact (h : Inv s) (embeddings : List (Nat × V)) (rewriteFails : Bool) :
    Inv (s.compact cfg embeddings rewriteFails) := by
  unfold System.compact
  by_cases hvalid : (embeddings.all (cfg.valid ·.2)) = true
  · rw [if_pos hvalid]
    cases htable : (if rewriteFails then none else rewriteVectorMap (VectorIndex.renumbered embeddings)) with
    | none => exact h
    | some table =>
      have hrewrite : rewriteVectorMap (VectorIndex.renumbered embeddings) = some table := by
        split_ifs at htable
        exact htable
      obtain ⟨hentries, rfl⟩ := rewriteVectorMap_eq_some hrewrite
      have hdata := VectorIndex.data_renumbered_nodup embeddings
      have hkeys : (embeddings.map Prod.fst).Nodup := by rwa [VectorIndex.entries_renumbered] at hentries
      have hlatest : ∀ e d v, (e, d) ∈ VectorIndex.renumbered embeddings → (d, v) ∈ VectorIndex.rebuilt embeddings →
          ((embeddings.find? fun p => p.1 == e).map Prod.snd).or (s.latest e) = some v := by
        intro e d v he hv
        rw [VectorIndex.find?_of_renumbered hkeys he hv]
        rfl
      refine ⟨IdMap.inverse_ofPairs hentries hdata, VectorIndex.labels_rebuilt_nodup embeddings, ?_, ?_, ?_,
        h.dumped⟩
      · intro e d hd
        have he := (IdMap.entryToData_ofPairs hentries e d).mp hd
        obtain ⟨v, hv⟩ := VectorIndex.mem_renumbered.mp he
        have hmem : (d, v) ∈ VectorIndex.rebuilt embeddings := VectorIndex.mem_rebuilt.mpr ⟨e, hv⟩
        exact ⟨v, hmem, hlatest e d v he hmem⟩
      · intro e e' d he he'
        rw [HashMap.lookup_collect hentries] at he he'
        exact congrArg Prod.fst (List.inj_on_of_nodup_map hdata he he' rfl)
      · intro e d v hd hv
        rw [HashMap.lookup_collect hentries] at hd
        exact hlatest e d v hd hv
  · rw [if_neg hvalid]
    exact h

theorem Inv.updateEmbeddingDim (h : Inv s) (e dim : Nat) : Inv (s.updateEmbeddingDim e dim) := by
  unfold System.updateEmbeddingDim
  split
  · exact h.congr rfl rfl rfl rfl rfl
  · exact h

theorem Inv.confirm (h : Inv s) {heal : Heal V} {e d : Nat} (hrow : s.vectorMap.lookup e = some d) {v : V}
    (hfree : cfg.valid v = true → Free s e d) : Inv (s.confirm cfg heal e d v) := by
  unfold System.confirm
  split
  · exact (h.insertHnswOnly hrow hfree).updateEmbeddingDim e _
  · exact h.insertHnswOnly hrow hfree

/-- The loop body of the heal pass. -/
theorem Inv.healEntry (h : Inv s) {heal : Heal V} {e : Nat} (hop : HealPermitted cfg heal s e) :
    Inv (s.healEntry cfg heal e) := by
  unfold System.healEntry
  cases hembed : heal.embed e with
  | none => exact h
  | some v =>
    obtain ⟨hrecorded, hfresh⟩ := hop v hembed
    cases hid : s.recordedId heal e with
    | some d =>
      have hrow : s.vectorMap.lookup e = some d := by
        unfold System.recordedId at hid
        split_ifs at hid
        exact hid
      exact h.confirm hrow (hrecorded d hid)
    | none =>
      have hallocated : Inv { s with index := s.index.allocateDataId.2 } := h.congr rfl rfl rfl rfl rfl
      dsimp only
      cases hput : heal.putFails e with
      | true => exact hallocated
      | false =>
        have hfree : Free { s with index := s.index.allocateDataId.2 } e s.index.nextDataId := hfresh hid hput
        exact (hallocated.putVectorMapping hfree).confirm (AList.lookup_insert _) fun _ => hfree.putVectorMapping

theorem Inv.heal (h : Inv s) {heal : Heal V} (hop : Permitted cfg s (.heal heal)) : Inv (s.heal cfg heal) :=
  hop.invariant (fun _ _ h hstep => h.healEntry hstep) h

theorem Inv.dump (h : Inv s) : Inv s.dump := by
  refine ⟨h.inverse, h.labels, h.point, h.recorded_inj, h.recorded, fun d hd => ?_⟩
  obtain rfl := Option.some.inj hd
  exact h.labels

/-- An index that starts empty. -/
theorem Inv.new (h : Inv s) : Inv { s with index := .new } where
  inverse := IdMap.inverse_new
  labels := List.nodup_nil
  point := by
    intro _ _ hd
    cases hd
  recorded_inj := h.recorded_inj
  recorded := by
    intro _ _ _ _ hv
    cases hv
  dumped := h.dumped

/-- **A dump that agrees with memory** can take its place. -/
theorem Inv.loaded (h : Inv s) {d : Dump V} (hdisk : s.disk = some d) (hagrees : DumpAgrees s d) :
    Inv { s with index := s.loaded d } := by
  unfold System.loaded
  by_cases hempty : d.hnsw.isEmpty = true
  · rw [if_pos hempty]
    exact h.new
  · rw [if_neg hempty]
    have hrows : ∀ r, r ∈ s.iterVectorMappings ↔ s.vectorMap.lookup r.1 = some r.2 := fun r =>
      (Query.orderBy_perm _ _ _).mem_iff.trans HashMap.mem_pairs
    have hkeys : ((s.iterVectorMappings.filter fun r => decide (r.2 ∈ d.hnsw.map Prod.fst)).map Prod.fst).Nodup :=
      ((((Query.orderBy_perm _ _ _).map Prod.fst).nodup_iff).mpr (HashMap.pairs_keys_nodup _)).sublist
        (List.filter_sublist.map _)
    have hdata : ((s.iterVectorMappings.filter fun r => decide (r.2 ∈ d.hnsw.map Prod.fst)).map Prod.snd).Nodup := by
      refine List.Nodup.map_on (fun a ha b hb heq => ?_) (List.Nodup.of_map Prod.fst hkeys)
      have ha' := (hrows a).mp (List.mem_of_mem_filter ha)
      have hb' := (hrows b).mp (List.mem_of_mem_filter hb)
      exact Prod.ext (h.recorded_inj a.1 b.1 a.2 ha' (heq ▸ hb')) heq
    refine ⟨IdMap.inverse_ofPairs hkeys hdata, h.dumped d hdisk, ?_, h.recorded_inj, ?_, h.dumped⟩
    · intro e dataId hd
      obtain ⟨hmem, hlabel⟩ := List.mem_filter.mp ((IdMap.entryToData_ofPairs hkeys e dataId).mp hd)
      obtain ⟨p, hp, rfl⟩ := List.mem_map.mp (of_decide_eq_true hlabel)
      have hrow : s.vectorMap.lookup e = some p.1 := (hrows _).mp hmem
      exact ⟨p.2, hp, h.recorded e p.1 p.2 hrow (hagrees e p.1 p.2 hrow hp)⟩
    · intro e dataId v hd hv
      exact h.recorded e dataId v hd (hagrees e dataId v hd hv)

theorem Inv.load (h : Inv s) {fails : Bool} (hop : Permitted cfg s (.load fails)) : Inv (s.load fails) := by
  unfold System.load
  split
  · rename_i d hdisk
    split
    · exact h.new
    · rename_i hfails
      exact h.loaded hdisk (hop (Bool.not_eq_true _ ▸ hfails) d hdisk)
  · exact h.new

/-- **A permitted operation keeps the invariant.** -/
theorem Inv.step (h : Inv s) {op : Op V} (hop : Permitted cfg s op) : Inv (s.step cfg op) := by
  cases op with
  | insert e v putFails => exact h.insert hop
  | store e v row reach => exact h.store hop
  | removeEntry e => exact h.removeEntry e
  | prune e deleteFails => exact h.prune e deleteFails
  | compact embeddings rewriteFails => exact h.compact embeddings rewriteFails
  | heal heal => exact h.heal hop
  | dump => exact h.dump
  | load fails => exact h.load hop
  | entries table => exact h.congr rfl rfl rfl rfl rfl

end Steps

/-- **Runs of permitted operations**: throughout, each entry has the vector inserted last, under a data id of its
own. -/
theorem vectorIdentity (cfg : Config V) (ops : List (Op V))
    (hops : Runs.Throughout (System.step cfg) (Permitted cfg) System.start ops) :
    ∀ done, done <+: ops → Identity (done.foldl (System.step cfg) System.start) := by
  intro done hdone
  obtain ⟨rest, rfl⟩ := hdone
  have hbefore : Runs.Throughout (System.step cfg) (Permitted cfg) System.start done := by
    generalize (System.start : System V) = s at hops ⊢
    induction done generalizing s with
    | nil => trivial
    | cons op done ih => exact ⟨hops.1, ih _ hops.2⟩
  exact (hbefore.invariant (fun _ _ h hop => h.step hop) Inv.start).identity

/-- A data id that labels a point already is not to be inserted under. -/
theorem not_identity_of_labelled {cfg : Config V} {s : System V} {e d : Nat} {v : V} (hvalid : cfg.valid v = true)
    (hd : d ∈ s.index.labels) : ¬ Identity (s.insertHnswOnly cfg e d v) := by
  intro h
  have hlabels : (s.insertHnswOnly cfg e d v).index.labels = (s.index.insertSlice d v).labels := by
    unfold System.insertHnswOnly VectorIndex.insertHnswOnly
    rw [if_pos hvalid]
    rfl
  have hnodup := h.labels
  rw [hlabels, VectorIndex.labels_insertSlice_nodup] at hnodup
  exact hnodup.2 hd

/-- Vectors told apart by a number, all valid. -/
def numbered : Config Nat := ⟨fun _ => true, fun _ => 384⟩

/-- A heal pass in which every entry has the same embedding and nothing fails. -/
def healAll (v : Nat) : Heal Nat where
  batch := 20
  activeEntries := []
  order := .stored
  embed := fun _ => some v

/-- Two entries are inserted, the index is dumped, and loaded after a crash. -/
theorem vectorIdentity_dumped :
    Identity (([.insert 1 7 false, .insert 2 8 false, .dump, .load false] : List (Op Nat)).foldl
      (System.step numbered) System.start) := by
  have hops : Runs.Throughout (System.step numbered) (Permitted numbered) System.start
      [.insert 1 7 false, .insert 2 8 false, .dump, .load false] := by
    refine ⟨fun _ => ⟨⟨by decide, fun e h => ?_⟩, by decide⟩, fun _ => ⟨⟨by decide, fun e h => ?_⟩, by decide⟩,
      trivial, fun _ d hd => ?_, trivial⟩
    · cases h
    · have hrow : (if e = 1 then some 0 else (none : Option Nat)) = some 1 :=
        (HashMap.lookup_insert_eq (∅ : HashMap Nat Nat) e 1 0).symm.trans h
      split_ifs at hrow
      cases hrow
    · cases hd
      exact fun _ _ _ _ h => h
  exact vectorIdentity numbered _ hops _ (List.prefix_refl _)

/-- An entry is stored, as `context_store` does it, and the next maintenance heals it: two points have the data id 0. -/
theorem vectorIdentity_healed :
    ¬ Identity (([.store 1 7 ⟨true, 0⟩ .finished, .heal (healAll 7)] : List (Op Nat)).foldl
      (System.step numbered) System.start) := by
  intro h
  have hlabels : (([.store 1 7 ⟨true, 0⟩ .finished, .heal (healAll 7)] : List (Op Nat)).foldl
      (System.step numbered) System.start).index.labels = [0, 0] := by decide
  have hnodup := h.labels
  rw [hlabels] at hnodup
  exact absurd hnodup (by decide)

end Unimatrix.Vector
