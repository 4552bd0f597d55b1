import Unimatrix.Graph.Expand
import Unimatrix.Graph.Neighbors
import Unimatrix.Graph.Pagerank
import Unimatrix.Graph.Penalty

/-!
# The candidates of a search

Model of steps 6 to 6d of `SearchService::search` of `search.rs`.

* A `Search` is the service, the parameters and all that the run reads. What the vector search returned is read
  too: the steps before 6 decide nothing else.
* `f64` is an `F64`. Embeddings are `f64` here, and a `get` that fails is one of an entry that is not there.
* The checks of a loop that pushes onto the pool look at sets made before the loop, so the loop appends a
  `filterMap`.

**`pool_entries`**: the candidates are those of four stages, one after the other: the hits that pass the status
filter, the terminals of superseded hits, the entries the graph expands to, and those only the PageRank knows.
-/

namespace Unimatrix

open TypedRelationGraph

/-! ## What a search reads -/

/-- `RetrievalMode`. -/
inductive RetrievalMode where
  | strict
  | flexible
  deriving DecidableEq, Repr

/-- `QueryFilter`, of which only this field is read after the vector search. -/
structure QueryFilter where
  status : Option Status

/-- `ServiceSearchParams`. -/
structure ServiceSearchParams (F : Type) where
  k : Nat
  filters : Option QueryFilter
  similarityFloor : Option F
  confidenceFloor : Option F
  retrievalMode : RetrievalMode
  categoryHistogram : Option (HashMap String UInt32)
  currentPhase : Option String

/-- `FusionWeights`. -/
structure FusionWeights (F : Type) where
  wSim : F
  wNli : F
  wConf : F
  wCoac : F
  wUtil : F
  wProv : F
  wPhaseHistogram : F
  wPhaseExplicit : F

/-- `SearchService`: its configuration. -/
structure SearchService (F : Type) where
  fusionWeights : FusionWeights F
  boostedCategories : List String
  nliEnabled : Bool
  pprAlpha : F
  pprIterations : Nat
  pprInclusionThreshold : F
  pprBlendWeight : F
  pprMaxExpand : Nat
  pprExpanderEnabled : Bool
  expansionDepth : Nat
  maxExpansionCandidates : Nat
  graphPenaltyParams : GraphPenaltyParams F

/-- The service as it is configured by default. -/
def SearchService.default {F : Type} [F64 F] : SearchService F where
  fusionWeights := ⟨0.50, 0, 0.35, 0, 0, 0, 0.02, 0.05⟩
  boostedCategories := ["lesson-learned"]
  nliEnabled := false
  pprAlpha := 0.85
  pprIterations := 20
  pprInclusionThreshold := 0.05
  pprBlendWeight := 0.15
  pprMaxExpand := 50
  pprExpanderEnabled := false
  expansionDepth := 2
  maxExpansionCandidates := 200
  graphPenaltyParams := .default

/-- `SearchResult`: a hit of the vector search. -/
structure SearchResult (F : Type) where
  entryId : Nat
  similarity : F

/-- `PhaseFreqTable`. The scores are the bits of an `f32`. -/
structure PhaseFreqTable where
  table : HashMap (String × String) (List (Nat × UInt32))
  useFallback : Bool

/-- `EffectivenessCategory`. -/
inductive EffectivenessCategory where
  | effective
  | settled
  | unmatched
  | ineffective
  | noisy
  deriving DecidableEq, Repr

/-- `NliScores`: the bits of the score that is read. -/
structure NliScores where
  entailment : UInt32

/-- A search: the service, the parameters and what the run reads. `getEmbedding`, `computeSearchBoost` and
`tryNliRerank` are the answers of other parts of the program, `pprOrder` the order in which the scores of the
PageRank are listed. -/
structure Search (F : Type) where
  service : SearchService F
  params : ServiceSearchParams F
  store : Store
  graphState : TypedGraphState
  edgeOrder : EdgeOrder
  embedding : List F
  getEmbedding : Nat → Option (List F)
  searchResults : List (SearchResult F)
  phaseFreqTable : PhaseFreqTable
  pprOrder : HashMap.IterOrder Nat F
  categories : HashMap Nat EffectivenessCategory
  computeSearchBoost : List Nat → List Nat → List Nat → HashMap Nat F
  tryNliRerank : List (EntryRecord × F) → Option (List NliScores)

/-- A candidate: an entry and its similarity. -/
abbrev Candidate (F : Type) : Type := EntryRecord × F

/-- `is_quarantined`. -/
def isQuarantined (status : Status) : Bool := status = .quarantined

/-- The entry is Active and not superseded. -/
def EntryRecord.isLive (e : EntryRecord) : Bool := e.status = .active ∧ e.supersededBy = none

/-- The entry is superseded or Deprecated: the condition under which it is penalised. -/
def EntryRecord.isStale (e : EntryRecord) : Bool := e.supersededBy.isSome ∨ e.status = .deprecated

/-- `cosine_similarity`. -/
def cosineSimilarity {F : Type} [F64 F] (a b : List F) : F :=
  if a.length ≠ b.length ∨ a.isEmpty then 0
  else
    let dot := (a.zip b).foldl (fun sum p => sum + p.1 * p.2) 0
    let normA := F64.sqrt (a.foldl (fun sum x => sum + x * x) 0)
    let normB := F64.sqrt (b.foldl (fun sum x => sum + x * x) 0)
    if normA = 0 ∨ normB = 0 then 0 else F64.clamp (dot / (normA * normB)) 0 1

namespace Search

variable {F : Type} [F64 F] (s : Search F)

/-- The ids of candidates. -/
def ids (pool : List (Candidate F)) : List Nat := pool.map fun c => c.1.id

/-- `entry_store.get`, for an entry that is not quarantined. -/
def getUnquarantined (id : Nat) : Option EntryRecord :=
  (s.store.find id).filter fun entry => !isQuarantined entry.status

/-! ## Steps 6 and 6a: the hits -/

/-- Step 6. -/
def fetched : List (Candidate F) :=
  s.searchResults.filterMap fun sr =>
    (s.getUnquarantined sr.entryId).map fun entry => (entry, sr.similarity)

/-- `explicit_status_filter`. -/
def explicitStatusFilter : Option Status :=
  (s.params.filters.bind QueryFilter.status).filter fun status => status ≠ .active

/-- Step 6a: the hits that are left. -/
def hits : List (Candidate F) :=
  match s.params.retrievalMode with
  | .strict => s.fetched.filter fun c => c.1.isLive
  | .flexible => s.fetched

/-- The penalty of a status. -/
def statusPenalty (id : Nat) : F :=
  if s.graphState.useFallback then s.service.graphPenaltyParams.fallback
  else graphPenaltyWith id s.graphState.typedGraph s.edgeOrder s.graphState.allEntries
    s.service.graphPenaltyParams

/-- Step 6a: `penalty_map`. -/
def penaltyMap : HashMap Nat F :=
  match s.params.retrievalMode with
  | .strict => ∅
  | .flexible =>
    if s.explicitStatusFilter.isNone then
      HashMap.collect ((s.fetched.filter fun c => c.1.isStale).map fun c =>
        (c.1.id, s.statusPenalty c.1.id))
    else ∅

/-! ## Step 6b: the terminals of superseded hits -/

/-- `terminal_id`. -/
def terminalId (entry : EntryRecord) : Option Nat :=
  if s.graphState.useFallback then entry.supersededBy
  else findTerminalActive entry.id s.graphState.typedGraph s.edgeOrder s.graphState.allEntries

/-- What a superseded hit injects. -/
def injectTerminal (entry : EntryRecord) : Option (Candidate F) := do
  let terminalId ← s.terminalId entry
  if (ids s.hits).contains terminalId then none
  else
    let terminal ← s.store.find terminalId
    if terminal.isLive then
      let emb ← s.getEmbedding terminalId
      return (terminal, cosineSimilarity s.embedding emb)
    else none

/-- Step 6b: what is injected. -/
def terminals : List (Candidate F) :=
  if s.explicitStatusFilter = some .deprecated then []
  else ((s.hits.map Prod.fst).filter fun e => e.supersededBy.isSome).filterMap s.injectTerminal

/-- The pool after step 6b. -/
def withTerminals : List (Candidate F) := s.hits ++ s.terminals

/-! ## Step 6d, phase 0: expansion -/

/-- `seed_ids`. -/
def seedIds : List Nat := ids (s.withTerminals.filter fun c => c.1.status = .active)

/-- `expanded_ids`. -/
def expandedIds : List Nat :=
  graphExpand s.graphState.typedGraph s.edgeOrder s.seedIds s.service.expansionDepth
    s.service.maxExpansionCandidates

/-- What an expanded id adds. The pool it must not be in is taken to be the seeds. -/
def addExpanded (expandedId : Nat) : Option (Candidate F) :=
  if s.seedIds.contains expandedId then none
  else do
    let entry ← s.getUnquarantined expandedId
    let emb ← s.getEmbedding expandedId
    return (entry, cosineSimilarity s.embedding emb)

/-- Phase 0: what is added. -/
def expansion : List (Candidate F) :=
  if s.service.pprExpanderEnabled then
    (s.expandedIds.insertionSort (· ≤ ·)).filterMap s.addExpanded
  else []

/-- The pool after phase 0. -/
def withExpansion : List (Candidate F) := s.withTerminals ++ s.expansion

/-! ## Step 6d, phases 1 to 5: PageRank -/

/-- `phase_snapshot`: the buckets of the phase, by category. -/
def phaseSnapshot : Option (String → Option (List (Nat × UInt32))) :=
  s.params.currentPhase.bind fun phase =>
    if s.phaseFreqTable.useFallback then none
    else some fun category => s.phaseFreqTable.table.lookup (phase, category)

/-- The score of an entry in the snapshot; 1 for an entry that is not there. -/
def snapshotScore (snapshot : String → Option (List (Nat × UInt32))) (entry : EntryRecord) : F :=
  match (snapshot entry.category).bind fun bucket => bucket.find? fun e => e.1 = entry.id with
  | some (_, score) => F64.ofF32 score
  | none => 1

/-- `weighted`: the similarity times the affinity. -/
def weighted (c : Candidate F) : F :=
  match s.phaseSnapshot with
  | some snapshot => c.2 * snapshotScore snapshot c.1
  | none => c.2 * 1

/-- `total`. -/
def total : F := s.withExpansion.foldl (fun total c => total + s.weighted c) 0

/-- `seed_scores`, divided by the total. -/
def seedScores : HashMap Nat F :=
  HashMap.collect (s.withExpansion.map fun c => (c.1.id, s.weighted c / s.total))

/-- Phase 2: `ppr_scores`. -/
def pprScores : HashMap Nat F :=
  personalizedPagerank s.graphState.typedGraph s.edgeOrder s.seedScores s.service.pprAlpha
    s.service.pprIterations

/-- Phase 3, for one candidate. -/
def blend (c : Candidate F) : Candidate F :=
  match s.pprScores.lookup c.1.id with
  | some pprScore =>
    (c.1, (1 - s.service.pprBlendWeight) * c.2 + s.service.pprBlendWeight * pprScore)
  | none => c

/-- The order of phase 4: by score, the largest first, then by id. -/
def pprBefore (a b : Nat × F) : Prop := b.2 < a.2 ∨ a.2 = b.2 ∧ a.1 ≤ b.1

instance : DecidableRel (pprBefore (F := F)) := fun a b =>
  inferInstanceAs (Decidable (b.2 < a.2 ∨ a.2 = b.2 ∧ a.1 ≤ b.1))

/-- Phase 4: `ppr_only_candidates`. -/
def pprOnlyCandidates : List (Nat × F) :=
  (((s.pprScores.iter s.pprOrder).filter fun e =>
    !(ids s.withExpansion).contains e.1 && decide (s.service.pprInclusionThreshold < e.2)).insertionSort
      pprBefore).take s.service.pprMaxExpand

/-- What a candidate of phase 4 adds. -/
def addPprOnly (e : Nat × F) : Option (Candidate F) :=
  (s.getUnquarantined e.1).map fun entry => (entry, s.service.pprBlendWeight * e.2)

/-- Phase 5: what is added. -/
def pprOnly : List (Candidate F) := s.pprOnlyCandidates.filterMap s.addPprOnly

/-- The candidates, after step 6d. -/
def pool : List (Candidate F) :=
  if s.graphState.useFallback then s.withTerminals
  else if 0 < s.total then s.withExpansion.map s.blend ++ s.pprOnly
  else s.withExpansion

/-! ## The stages -/

/-- What phase 0 adds in this search. -/
def expansionStage : List (Candidate F) := if s.graphState.useFallback then [] else s.expansion

/-- What phase 5 adds in this search. -/
def pprStage : List (Candidate F) :=
  if s.graphState.useFallback then [] else if 0 < s.total then s.pprOnly else []

theorem blend_fst (c : Candidate F) : (s.blend c).1 = c.1 := by
  unfold blend
  split <;> rfl

/-- **The candidates are those of the four stages**, as far as their entries go. -/
theorem pool_entries :
    s.pool.map Prod.fst = (s.hits ++ s.terminals ++ s.expansionStage ++ s.pprStage).map Prod.fst := by
  unfold pool expansionStage pprStage
  split
  · simp only [withTerminals, List.append_nil]
  · split
    · have hblend : (s.withExpansion.map s.blend).map Prod.fst = s.withExpansion.map Prod.fst := by
        rw [List.map_map]
        exact List.map_congr_left fun c _ => s.blend_fst c
      rw [List.map_append, hblend, ← List.map_append, withExpansion, withTerminals]
    · rw [withExpansion, withTerminals, List.append_nil]

theorem pool_ids :
    ids s.pool = ids s.hits ++ ids s.terminals ++ ids s.expansionStage ++ ids s.pprStage := by
  have h := congrArg (List.map EntryRecord.id) s.pool_entries
  simp only [List.map_append, List.map_map] at h
  exact h

/-- The candidate is the entry the store has under its id, and is not quarantined. -/
def Stored (c : Candidate F) : Prop := s.store.find c.1.id = some c.1 ∧ c.1.status ≠ .quarantined

variable {s}

section Hits

omit [F64 F]

theorem getUnquarantined_eq_some {id : Nat} {e : EntryRecord} :
    s.getUnquarantined id = some e ↔ s.store.find id = some e ∧ e.status ≠ .quarantined := by
  unfold getUnquarantined isQuarantined
  rw [Option.filter_eq_some_iff]
  simp

theorem stored_of_getUnquarantined {id : Nat} {e : EntryRecord} (sim : F)
    (h : s.getUnquarantined id = some e) : s.Stored (e, sim) ∧ e.id = id := by
  obtain ⟨hfind, hstatus⟩ := getUnquarantined_eq_some.mp h
  have hid := Store.id_of_find hfind
  exact ⟨⟨hid ▸ hfind, hstatus⟩, hid⟩

/-- Where every key adds an entry of its own id, the ids added are keys. -/
theorem ids_filterMap_sublist {α : Type} {key : α → Nat} {f : α → Option (Candidate F)}
    (hf : ∀ a c, f a = some c → c.1.id = key a) (l : List α) :
    (ids (l.filterMap f)).Sublist (l.map key) := by
  induction l with
  | nil => exact List.Sublist.refl _
  | cons a l ih =>
    rw [List.filterMap_cons]
    split
    · exact ih.cons _
    · rename_i c hc
      rw [ids, List.map_cons, List.map_cons, hf a c hc]
      exact ih.cons_cons _

/-! ### Hits -/

theorem stored_of_mem_fetched {c : Candidate F} (hc : c ∈ s.fetched) : s.Stored c := by
  obtain ⟨sr, -, hget⟩ := List.mem_filterMap.mp hc
  obtain ⟨entry, hentry, rfl⟩ := Option.map_eq_some_iff.mp hget
  exact (stored_of_getUnquarantined sr.similarity hentry).1

theorem hits_sublist : s.hits.Sublist s.fetched := by
  unfold hits
  split
  · exact List.filter_sublist
  · exact List.Sublist.refl _

theorem stored_of_mem_hits {c : Candidate F} (hc : c ∈ s.hits) : s.Stored c :=
  stored_of_mem_fetched (hits_sublist.subset hc)

theorem isLive_of_strict (h : s.params.retrievalMode = .strict) {c : Candidate F} (hc : c ∈ s.hits) :
    c.1.isLive = true := by
  unfold hits at hc
  rw [h] at hc
  exact (List.mem_filter.mp hc).2

theorem ids_fetched_sublist : (ids s.fetched).Sublist (s.searchResults.map SearchResult.entryId) := by
  refine ids_filterMap_sublist (fun sr c hc => ?_) _
  obtain ⟨entry, hentry, rfl⟩ := Option.map_eq_some_iff.mp hc
  exact (stored_of_getUnquarantined sr.similarity hentry).2

theorem ids_hits_nodup (h : (s.searchResults.map SearchResult.entryId).Nodup) : (ids s.hits).Nodup :=
  (h.sublist ids_fetched_sublist).sublist (hits_sublist.map _)

end Hits

/-! ### Terminals -/

/-- A superseded hit leads to an entry that is injected: a live one with an embedding, that is no hit. -/
def Injects (s : Search F) (entry : EntryRecord) (id : Nat) : Prop :=
  s.terminalId entry = some id ∧ id ∉ ids s.hits ∧ (s.getEmbedding id).isSome = true ∧
    ∃ terminal, s.store.find id = some terminal ∧ terminal.isLive = true

theorem injectTerminal_eq_some {entry : EntryRecord} {c : Candidate F}
    (h : s.injectTerminal entry = some c) :
    s.Injects entry c.1.id ∧ s.Stored c ∧ c.1.isLive = true := by
  unfold injectTerminal at h
  obtain ⟨id, hid, h⟩ := Option.bind_eq_some_iff.mp h
  split at h
  · cases h
  · rename_i hnew
    obtain ⟨terminal, hfind, h⟩ := Option.bind_eq_some_iff.mp h
    split at h
    · rename_i hlive
      obtain ⟨emb, hemb, h⟩ := Option.bind_eq_some_iff.mp h
      cases h
      obtain rfl := Store.id_of_find hfind
      rw [List.contains_iff_mem] at hnew
      refine ⟨⟨hid, hnew, Option.isSome_of_eq_some hemb, terminal, hfind, hlive⟩, ⟨hfind, ?_⟩, hlive⟩
      have hactive := (of_decide_eq_true hlive).1
      rw [hactive]
      exact Status.noConfusion
    · cases h

theorem injectTerminal_of_injects {entry : EntryRecord} {id : Nat} (h : s.Injects entry id) :
    ∃ c, s.injectTerminal entry = some c ∧ c.1.id = id := by
  obtain ⟨hid, hnew, hemb, terminal, hfind, hlive⟩ := h
  obtain ⟨emb, hemb⟩ := Option.isSome_iff_exists.mp hemb
  refine ⟨(terminal, cosineSimilarity s.embedding emb), ?_, Store.id_of_find hfind⟩
  unfold injectTerminal
  simp [hid, hnew, hfind, hlive, hemb]

theorem mem_terminals {c : Candidate F} (hc : c ∈ s.terminals) :
    s.Stored c ∧ c.1.isLive = true ∧ c.1.id ∉ ids s.hits := by
  unfold terminals at hc
  split at hc
  · cases hc
  · obtain ⟨entry, -, hinject⟩ := List.mem_filterMap.mp hc
    obtain ⟨hinjects, hstored, hlive⟩ := injectTerminal_eq_some hinject
    exact ⟨hstored, hlive, hinjects.2.1⟩

/-! ### Expansion -/

theorem addExpanded_eq_some {id : Nat} {c : Candidate F} :
    s.addExpanded id = some c ↔ id ∉ s.seedIds ∧ ∃ entry emb, s.getUnquarantined id = some entry ∧
      s.getEmbedding id = some emb ∧ c = (entry, cosineSimilarity s.embedding emb) := by
  unfold addExpanded
  by_cases hseed : id ∈ s.seedIds
  · simp [hseed]
  · simp only [List.contains_iff_mem, hseed, if_false, not_false_eq_true, true_and, Option.bind_eq_bind,
      Option.bind_eq_some_iff, Option.pure_def, Option.some.injEq, eq_comm (a := c), exists_and_left]

theorem mem_expansion {c : Candidate F} (hc : c ∈ s.expansion) :
    s.Stored c ∧ c.1.id ∈ s.expandedIds ∧ c.1.id ∉ s.seedIds ∧ (s.getEmbedding c.1.id).isSome = true := by
  unfold expansion at hc
  split at hc
  · obtain ⟨id, hid, hadd⟩ := List.mem_filterMap.mp hc
    obtain ⟨hseed, entry, emb, hentry, hemb, rfl⟩ := addExpanded_eq_some.mp hadd
    obtain ⟨hstored, rfl⟩ := stored_of_getUnquarantined (cosineSimilarity s.embedding emb) hentry
    exact ⟨hstored, (List.mem_insertionSort _).mp hid, hseed, Option.isSome_of_eq_some hemb⟩
  · cases hc

/-- An entry the graph expands to is added, unless it is quarantined or has no embedding. -/
theorem mem_ids_expansion {id : Nat} (henabled : s.service.pprExpanderEnabled = true)
    (hid : id ∈ s.expandedIds) {entry : EntryRecord} (hentry : s.getUnquarantined id = some entry)
    (hemb : (s.getEmbedding id).isSome = true) : ∃ c ∈ s.expansion, c.1 = entry := by
  obtain ⟨emb, hemb⟩ := Option.isSome_iff_exists.mp hemb
  have hseed : id ∉ s.seedIds := fun h => (graphExpand_spec _ _ _ _ _).2.1 id h hid
  refine ⟨(entry, cosineSimilarity s.embedding emb), ?_, rfl⟩
  unfold expansion
  rw [if_pos henabled]
  exact List.mem_filterMap.mpr ⟨id, (List.mem_insertionSort _).mpr hid,
    addExpanded_eq_some.mpr ⟨hseed, entry, emb, hentry, hemb, rfl⟩⟩

theorem ids_expansion_nodup : (ids s.expansion).Nodup := by
  unfold expansion
  split
  · have hnodup : ((s.expandedIds.insertionSort (· ≤ ·)).map id).Nodup := by
      rw [List.map_id, (List.perm_insertionSort _ _).nodup_iff]
      exact (graphExpand_spec _ _ _ _ _).1
    refine hnodup.sublist (ids_filterMap_sublist (fun id c hc => ?_) _)
    obtain ⟨-, entry, emb, hentry, -, rfl⟩ := addExpanded_eq_some.mp hc
    exact Store.id_of_find (getUnquarantined_eq_some.mp hentry).1
  · exact List.nodup_nil

/-! ### PageRank -/

theorem addPprOnly_eq_some {e : Nat × F} {c : Candidate F} (h : s.addPprOnly e = some c) :
    s.getUnquarantined e.1 = some c.1 ∧ s.Stored c ∧ c.1.id = e.1 := by
  unfold addPprOnly at h
  obtain ⟨entry, hentry, rfl⟩ := Option.map_eq_some_iff.mp h
  exact ⟨hentry, stored_of_getUnquarantined _ hentry⟩

theorem mem_pprOnlyCandidates {e : Nat × F} (he : e ∈ s.pprOnlyCandidates) :
    e.1 ∉ ids s.withExpansion := by
  unfold pprOnlyCandidates at he
  have hmem := (List.mem_insertionSort _).mp (List.mem_of_mem_take he)
  have hnew := (Bool.and_eq_true_iff.mp (List.mem_filter.mp hmem).2).1
  simpa using hnew

theorem mem_pprOnly {c : Candidate F} (hc : c ∈ s.pprOnly) :
    s.Stored c ∧ c.1.id ∉ ids s.withExpansion := by
  obtain ⟨e, he, hadd⟩ := List.mem_filterMap.mp hc
  obtain ⟨-, hstored, hid⟩ := addPprOnly_eq_some hadd
  exact ⟨hstored, hid ▸ mem_pprOnlyCandidates he⟩

theorem ids_pprOnly_nodup : (ids s.pprOnly).Nodup := by
  have hnodup : (s.pprOnlyCandidates.map Prod.fst).Nodup := by
    unfold pprOnlyCandidates
    refine List.Nodup.sublist ((List.take_sublist _ _).map _) ?_
    rw [((List.perm_insertionSort _ _).map Prod.fst).nodup_iff]
    exact (HashMap.iter_keys_nodup _ _).sublist (List.filter_sublist.map _)
  exact hnodup.sublist (ids_filterMap_sublist (fun e c hc => (addPprOnly_eq_some hc).2.2) _)

/-! ### All stages -/

theorem mem_expansionStage {c : Candidate F} :
    c ∈ s.expansionStage ↔ s.graphState.useFallback = false ∧ c ∈ s.expansion := by
  unfold expansionStage
  cases s.graphState.useFallback <;> simp

theorem mem_pprStage {c : Candidate F} :
    c ∈ s.pprStage ↔ s.graphState.useFallback = false ∧ 0 < s.total ∧ c ∈ s.pprOnly := by
  unfold pprStage
  cases s.graphState.useFallback
  · by_cases htotal : 0 < s.total <;> simp [htotal]
  · simp

/-- A candidate's entry comes from one of the stages. -/
theorem mem_stages {c : Candidate F} (hc : c ∈ s.pool) :
    ∃ c', c'.1 = c.1 ∧ (c' ∈ s.hits ∨ c' ∈ s.terminals ∨ c' ∈ s.expansionStage ∨ c' ∈ s.pprStage) := by
  have hmem := List.mem_map_of_mem (f := Prod.fst) hc
  rw [pool_entries] at hmem
  obtain ⟨c', hc', heq⟩ := List.mem_map.mp hmem
  simp only [List.mem_append, or_assoc] at hc'
  exact ⟨c', heq, hc'⟩

/-- A candidate of any stage has its entry in the pool. -/
theorem mem_pool_of_stage {c : Candidate F}
    (hc : c ∈ s.hits ∨ c ∈ s.terminals ∨ c ∈ s.expansionStage ∨ c ∈ s.pprStage) :
    ∃ c' ∈ s.pool, c'.1 = c.1 := by
  have hmem : c.1 ∈ s.pool.map Prod.fst := by
    rw [pool_entries]
    refine List.mem_map_of_mem ?_
    simp only [List.mem_append, or_assoc]
    exact hc
  obtain ⟨c', hc', heq⟩ := List.mem_map.mp hmem
  exact ⟨c', hc', heq⟩

/-- **Every candidate is the entry the store has under its id, and is not quarantined.** -/
theorem stored_of_mem_pool {c : Candidate F} (hc : c ∈ s.pool) : s.Stored c := by
  obtain ⟨c', heq, hstage⟩ := mem_stages hc
  have hstored : s.Stored c' := by
    rcases hstage with h | h | h | h
    · exact stored_of_mem_hits h
    · exact (mem_terminals h).1
    · exact (mem_expansion (mem_expansionStage.mp h).2).1
    · exact (mem_pprOnly (mem_pprStage.mp h).2.2).1
  unfold Stored at hstored ⊢
  rwa [heq] at hstored

end Search
end Unimatrix
