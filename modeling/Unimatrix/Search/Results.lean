import Unimatrix.Search.Rank

/-!
# What a search returns: which entries

No more than `k` entries are returned and none of them is quarantined, whatever the search reads. That none is
returned twice depends on how the candidates came together (`EnteredOnce`): two superseded hits may lead to one
terminal, which each of them then injects, and phase 0, which takes the Active candidates for the whole pool, may
add a hit again that is not Active.

**`resultSet`**: hits of distinct entries that enter once give distinct results; where nothing is cut, only they
do.
-/

namespace Unimatrix.Search

variable {F : Type} [F64 F] (s : Search F)

/-- No entry enters the candidates twice. -/
structure EnteredOnce : Prop where
  /-- Different hits inject different terminals. -/
  terminals : s.explicitStatusFilter ≠ some .deprecated → ∀ a ∈ s.hits, ∀ b ∈ s.hits,
    a.1.supersededBy.isSome = true → b.1.supersededBy.isSome = true → a.1.id ≠ b.1.id →
      ∀ id, s.Injects a.1 id → ¬ s.Injects b.1 id
  /-- The graph does not expand to a hit, unless it is Active or has no embedding. -/
  expansion : s.graphState.useFallback = false → s.service.pprExpanderEnabled = true → ∀ c ∈ s.hits,
    c.1.status ≠ .active → c.1.id ∈ s.expandedIds → s.getEmbedding c.1.id = none

variable {s}

/-! ## The terminals -/

/-- Over elements with distinct keys, a symmetric relation holds of every pair when it holds of all elements
with different keys. -/
theorem pairwise_iff_of_keys {α : Type} {key : α → Nat} {R : α → α → Prop} (hR : ∀ a b, R a b → R b a)
    {l : List α} (hl : (l.map key).Nodup) :
    l.Pairwise R ↔ ∀ a ∈ l, ∀ b ∈ l, key a ≠ key b → R a b := by
  constructor
  · intro h a ha b hb hne
    have : Std.Symm R := ⟨hR⟩
    exact h.forall ha hb fun heq => hne (congrArg key heq)
  · intro h
    exact (List.pairwise_map.mp hl).imp_of_mem fun ha hb hne => h _ ha _ hb hne

theorem ids_terminals_nodup_iff (hhits : (ids s.hits).Nodup)
    (hinject : s.explicitStatusFilter ≠ some .deprecated) :
    (ids s.terminals).Nodup ↔ ∀ a ∈ s.hits, ∀ b ∈ s.hits,
      a.1.supersededBy.isSome = true → b.1.supersededBy.isSome = true → a.1.id ≠ b.1.id →
        ∀ id, s.Injects a.1 id → ¬ s.Injects b.1 id := by
  have hkeys : (((s.hits.map Prod.fst).filter fun e => e.supersededBy.isSome).map
      EntryRecord.id).Nodup := by
    refine List.Nodup.sublist (List.filter_sublist.map _) ?_
    rw [List.map_map]
    exact hhits
  unfold ids terminals
  rw [if_neg hinject, List.nodup_iff_pairwise_ne, List.pairwise_map, List.pairwise_filterMap,
    pairwise_iff_of_keys (fun a b h c hc d hd => (h d hd c hc).symm) hkeys]
  constructor
  · intro h a ha b hb hsa hsb hne id hia hib
    obtain ⟨c, hc, hcid⟩ := injectTerminal_of_injects hia
    obtain ⟨d, hd, hdid⟩ := injectTerminal_of_injects hib
    exact h a.1 (List.mem_filter.mpr ⟨List.mem_map_of_mem ha, hsa⟩) b.1
      (List.mem_filter.mpr ⟨List.mem_map_of_mem hb, hsb⟩) hne c hc d hd (hcid.trans hdid.symm)
  · intro h a ha b hb hne c hc d hd heq
    obtain ⟨ha, hsa⟩ := List.mem_filter.mp ha
    obtain ⟨hb, hsb⟩ := List.mem_filter.mp hb
    obtain ⟨a', ha', rfl⟩ := List.mem_map.mp ha
    obtain ⟨b', hb', rfl⟩ := List.mem_map.mp hb
    exact h a' ha' b' hb' hsa hsb hne c.1.id (injectTerminal_eq_some hc).1
      (heq ▸ (injectTerminal_eq_some hd).1)

/-! ## The expansion -/

theorem mem_seedIds {c : Candidate F} (hc : c ∈ s.withTerminals) (hactive : c.1.status = .active) :
    c.1.id ∈ s.seedIds :=
  List.mem_map.mpr ⟨c, List.mem_filter.mpr ⟨hc, decide_eq_true hactive⟩, rfl⟩

theorem status_of_mem_terminals {c : Candidate F} (hc : c ∈ s.terminals) : c.1.status = .active :=
  (of_decide_eq_true (mem_terminals hc).2.1).1

/-- The expansion meets the pool in hits that are not Active. -/
theorem expansion_disjoint_iff (henabled : s.service.pprExpanderEnabled = true) :
    (ids s.withTerminals).Disjoint (ids s.expansion) ↔
      ∀ c ∈ s.hits, c.1.status ≠ .active → c.1.id ∈ s.expandedIds → s.getEmbedding c.1.id = none := by
  constructor
  · intro h c hc hstatus hid
    by_contra hemb
    obtain ⟨hfind, hquarantined⟩ := stored_of_mem_hits hc
    obtain ⟨d, hd, heq⟩ := mem_ids_expansion henabled hid
      (getUnquarantined_eq_some.mpr ⟨hfind, hquarantined⟩) (Option.isSome_iff_ne_none.mpr hemb)
    refine h (a := c.1.id) (List.mem_map_of_mem (List.mem_append_left _ hc)) ?_
    exact List.mem_map.mpr ⟨d, hd, by rw [heq]⟩
  · intro h id hid hexp
    obtain ⟨c, hc, rfl⟩ := List.mem_map.mp hid
    obtain ⟨d, hd, heq⟩ := List.mem_map.mp hexp
    obtain ⟨-, hexpanded, hseed, hemb⟩ := mem_expansion hd
    rw [heq] at hexpanded hseed hemb
    have hactive : c.1.status ≠ .active := fun hactive => hseed (mem_seedIds hc hactive)
    rcases List.mem_append.mp hc with hc | hc
    · rw [h c hc hactive hexpanded] at hemb
      cases hemb
    · exact hactive (status_of_mem_terminals hc)

/-! ## The candidates -/

theorem disjoint_terminals : (ids s.hits).Disjoint (ids s.terminals) := by
  intro id hid hmem
  obtain ⟨c, hc, rfl⟩ := List.mem_map.mp hmem
  exact (mem_terminals hc).2.2 hid

theorem ids_expansionStage_nodup : (ids s.expansionStage).Nodup := by
  unfold expansionStage
  split
  · exact List.nodup_nil
  · exact ids_expansion_nodup

theorem ids_pprStage_nodup : (ids s.pprStage).Nodup := by
  unfold pprStage
  split
  · exact List.nodup_nil
  · split
    · exact ids_pprOnly_nodup
    · exact List.nodup_nil

theorem disjoint_pprStage :
    (ids s.hits ++ ids s.terminals ++ ids s.expansionStage).Disjoint (ids s.pprStage) := by
  intro id hid hmem
  obtain ⟨c, hc, rfl⟩ := List.mem_map.mp hmem
  obtain ⟨hbuilt, -, hc⟩ := mem_pprStage.mp hc
  refine (mem_pprOnly hc).2 ?_
  rw [expansionStage, if_neg (by simp [hbuilt])] at hid
  simpa only [withExpansion, withTerminals, ids, List.map_append] using hid

/-- **The candidates are distinct exactly when each entered once.** -/
theorem pool_nodup_iff (hhits : (ids s.hits).Nodup) : (ids s.pool).Nodup ↔ s.EnteredOnce := by
  have hstages : (ids s.pool).Nodup ↔
      (ids s.terminals).Nodup ∧ (ids s.withTerminals).Disjoint (ids s.expansionStage) := by
    rw [pool_ids, List.nodup_append', List.nodup_append', List.nodup_append']
    have hids : ids s.withTerminals = ids s.hits ++ ids s.terminals := List.map_append
    simp only [hhits, disjoint_terminals, ids_expansionStage_nodup, ids_pprStage_nodup, disjoint_pprStage,
      hids, true_and, and_true]
  have hterminals : (ids s.terminals).Nodup ↔ (s.explicitStatusFilter ≠ some .deprecated →
      ∀ a ∈ s.hits, ∀ b ∈ s.hits, a.1.supersededBy.isSome = true → b.1.supersededBy.isSome = true →
        a.1.id ≠ b.1.id → ∀ id, s.Injects a.1 id → ¬ s.Injects b.1 id) := by
    by_cases hinject : s.explicitStatusFilter = some .deprecated
    · refine iff_of_true ?_ fun h => absurd hinject h
      rw [terminals, if_pos hinject]
      exact List.nodup_nil
    · rw [ids_terminals_nodup_iff hhits hinject]
      exact ⟨fun h _ => h, fun h => h hinject⟩
  have hexpansion : (ids s.withTerminals).Disjoint (ids s.expansionStage) ↔
      (s.graphState.useFallback = false → s.service.pprExpanderEnabled = true → ∀ c ∈ s.hits,
        c.1.status ≠ .active → c.1.id ∈ s.expandedIds → s.getEmbedding c.1.id = none) := by
    by_cases hruns : s.graphState.useFallback = false ∧ s.service.pprExpanderEnabled = true
    · obtain ⟨hbuilt, henabled⟩ := hruns
      rw [expansionStage, if_neg (by simp [hbuilt]), expansion_disjoint_iff henabled]
      exact ⟨fun h _ _ => h, fun h => h hbuilt henabled⟩
    · refine iff_of_true ?_ fun hbuilt henabled => absurd ⟨hbuilt, henabled⟩ hruns
      have hnil : s.expansionStage = [] := by
        unfold expansionStage expansion
        split
        · rfl
        · rename_i hbuilt
          rw [if_neg fun henabled => hruns ⟨Bool.not_eq_true _ ▸ hbuilt, henabled⟩]
      rw [hnil]
      exact List.disjoint_nil_right _
  rw [hstages, hterminals, hexpansion]
  exact ⟨fun h => ⟨h.1, h.2⟩, fun h => ⟨h.terminals, h.expansion⟩⟩

/-- In Strict mode the hits are live, and every candidate enters once. -/
theorem enteredOnce_of_strict (h : s.params.retrievalMode = .strict) : s.EnteredOnce where
  terminals _ a ha _ _ hsuperseded := by
    have hlive := (of_decide_eq_true (isLive_of_strict h ha)).2
    rw [hlive] at hsuperseded
    cases hsuperseded
  expansion _ _ c hc hstatus := absurd (of_decide_eq_true (isLive_of_strict h hc)).1 hstatus

/-! ## The results -/

/-- **The results of a search.** There are no more than `k`, none of them quarantined; they are distinct where
each candidate entered once and, where nothing is cut, only there. -/
theorem resultSet (s : Search F) (hhits : (s.searchResults.map SearchResult.entryId).Nodup) :
    s.results.length ≤ s.params.k ∧ (∀ r ∈ s.results, r.entry.status ≠ .quarantined) ∧
      (s.EnteredOnce → s.resultIds.Nodup) ∧ (s.Uncut → (s.resultIds.Nodup ↔ s.EnteredOnce)) := by
  have hpool := pool_nodup_iff (ids_hits_nodup hhits)
  refine ⟨length_results_le, fun r hr => ?_, fun honce => ?_, fun huncut => ?_⟩
  · obtain ⟨p, hp, rfl⟩ := List.mem_map.mp hr
    exact (stored_of_mem_pool (mem_pool_of_mem_scored (mem_scored_of_mem_delivered hp))).2
  · have hscored : (s.scored.map fun c => c.entry.id).Nodup := by
      rw [scored_ids]
      exact hpool.mpr honce
    have hranked : (s.ranked.map fun c => c.entry.id).Nodup := by
      have hsort := (List.perm_insertionSort (F64.descending Scored.finalScore) s.scored).map fun c => c.entry.id
      exact (hsort.nodup_iff.mpr hscored).sublist ((List.take_sublist _ _).map _)
    rw [resultIds_eq]
    exact hranked.sublist (delivered_sublist_ranked.map _)
  · rw [huncut.resultIds_perm.nodup_iff, hpool]

/-! ## Two versions found, the current one not -/

/-- A search that asks for nothing but `k` entries. -/
def plainParams (k : Nat) (retrievalMode : RetrievalMode) : ServiceSearchParams Rat where
  k
  filters := none
  similarityFloor := none
  confidenceFloor := none
  retrievalMode
  categoryHistogram := none
  currentPhase := none

/-- A search over a store, with the hits given. No co-access was recorded, no phase and no effectiveness. -/
def sample (params : ServiceSearchParams Rat) (store : Store) (graphState : TypedGraphState)
    (getEmbedding : Nat → Option (List Rat)) (searchResults : List (SearchResult Rat)) : Search Rat where
  service := .default
  params
  store
  graphState
  edgeOrder := .stored
  embedding := [1, 0]
  getEmbedding
  searchResults
  phaseFreqTable := ⟨∅, true⟩
  pprOrder := .stored
  categories := ∅
  computeSearchBoost := fun _ _ _ => ∅
  tryNliRerank := fun _ => none

/-- Entry 3 supersedes entry 2, which supersedes entry 1. The two nearest entries are the two old ones. -/
def oldVersions : Search Rat :=
  sample (plainParams 2 .flexible) Store.threeVersions ⟨TypedRelationGraph.assemble corrections [], corrections, false⟩
    (fun _ => some [3 / 5, 4 / 5]) [⟨1, 9 / 10⟩, ⟨2, 4 / 5⟩]

theorem resultSet_oldVersions :
    oldVersions.results.length ≤ oldVersions.params.k ∧
      (∀ r ∈ oldVersions.results, r.entry.status ≠ .quarantined) ∧
      (oldVersions.EnteredOnce → oldVersions.resultIds.Nodup) ∧
      (oldVersions.Uncut → (oldVersions.resultIds.Nodup ↔ oldVersions.EnteredOnce)) :=
  resultSet oldVersions (by decide)

/-- Both old versions lead to the current one, and each injects it. -/
theorem resultSet_twice :
    ¬ ∀ s : Search Rat, (s.searchResults.map SearchResult.entryId).Nodup →
      s.resultIds.Nodup ∧ s.results.length ≤ s.params.k ∧
        ∀ r ∈ s.results, r.entry.status ≠ .quarantined := by
  intro hclaim
  have hnodup := (hclaim oldVersions (by decide)).1
  have hids : oldVersions.resultIds = [3, 3] := by decide +kernel
  rw [hids] at hnodup
  exact absurd hnodup (by decide)

/-- Entry 1 is Active, entry 2 Deprecated. Both are found, and co-access leads from entry 1 to entry 2. -/
def deprecatedNeighbor : Search Rat :=
  { sample (plainParams 5 .flexible)
      (Store.linkStore [(1, Store.linkRow .active none none), (2, Store.linkRow .deprecated none none)])
      ⟨TypedRelationGraph.assemble [version 1 .active none none, version 2 .deprecated none none]
        [⟨1, 2, "CoAccess", 0x3F800000, 0, "", "", false⟩],
        [version 1 .active none none, version 2 .deprecated none none], false⟩
      (fun _ => some [3 / 5, 4 / 5]) [⟨1, 9 / 10⟩, ⟨2, 4 / 5⟩] with
    service := { SearchService.default with pprExpanderEnabled := true } }

example : deprecatedNeighbor.resultIds = [1, 2, 2] := by decide +kernel

end Unimatrix.Search
