import Unimatrix.Search.Results

/-!
# What a search returns: the status of the entries

The hits pass the filter of Strict mode and are marked with a penalty in Flexible mode, and the terminals of step
6b are live. What step 6d adds (`Adds`) is checked for quarantine only.

**`statusDiscipline`** says what holds of the rest, and how what is added is scored. What was to hold of all
results (`Disciplined`) holds where step 6d adds nothing that breaks it and, where nothing is cut, only there
(**`Uncut.disciplined_iff`**).
-/

namespace Unimatrix.Search

variable {F : Type} [F64 F] (s : Search F)

/-! ## The discipline -/

/-- What is returned in Strict mode is Active and not superseded. -/
def OnlyLive : Prop := ∀ r ∈ s.results, r.entry.status = .active ∧ r.entry.supersededBy = none

/-- What is returned and is Deprecated or superseded was scored with the penalty of its status. -/
def Penalised : Prop :=
  ∀ p ∈ s.delivered, p.1.entry.isStale = true → p.1.penalty = s.statusPenalty p.1.entry.id

/-- The discipline of both modes. -/
structure Disciplined : Prop where
  strict : s.params.retrievalMode = .strict → s.OnlyLive
  flexible : s.params.retrievalMode = .flexible → s.explicitStatusFilter = none → s.Penalised

/-- Step 6d adds the entry: the graph expands to it and it has an embedding, or it is one of the best entries
that only the PageRank knows. -/
def Adds (e : EntryRecord) : Prop :=
  s.graphState.useFallback = false ∧ s.getUnquarantined e.id = some e ∧
    (s.service.pprExpanderEnabled = true ∧ e.id ∈ s.expandedIds ∧ (s.getEmbedding e.id).isSome = true ∨
      0 < s.total ∧ e.id ∈ s.pprOnlyCandidates.map Prod.fst)

/-- What step 6d adds keeps to the discipline: in Strict mode it is live; in Flexible mode, if it is Deprecated
or superseded, then it is a hit as well, or its penalty is 1. -/
structure AddsDisciplined : Prop where
  strict : s.params.retrievalMode = .strict → ∀ e, s.Adds e → e.status = .active ∧ e.supersededBy = none
  flexible : s.params.retrievalMode = .flexible → s.explicitStatusFilter = none → ∀ e, s.Adds e →
    e.isStale = true → e.id ∈ ids s.hits ∨ s.statusPenalty e.id = 1

variable {s}

/-! ## What step 6d adds -/

theorem adds_iff {e : EntryRecord} :
    s.Adds e ↔ ∃ c, (c ∈ s.expansionStage ∨ c ∈ s.pprStage) ∧ c.1 = e := by
  constructor
  · rintro ⟨hbuilt, hget, ⟨henabled, hid, hemb⟩ | ⟨htotal, hid⟩⟩
    · obtain ⟨c, hc, heq⟩ := mem_ids_expansion henabled hid hget hemb
      exact ⟨c, .inl (mem_expansionStage.mpr ⟨hbuilt, hc⟩), heq⟩
    · obtain ⟨⟨id, score⟩, hmem, rfl⟩ := List.mem_map.mp hid
      refine ⟨(e, s.service.pprBlendWeight * score), .inr (mem_pprStage.mpr ⟨hbuilt, htotal, ?_⟩), rfl⟩
      refine List.mem_filterMap.mpr ⟨(e.id, score), hmem, ?_⟩
      rw [addPprOnly, hget]
      rfl
  · rintro ⟨c, hc | hc, rfl⟩
    · obtain ⟨hbuilt, hc⟩ := mem_expansionStage.mp hc
      obtain ⟨hstored, hid, -, hemb⟩ := mem_expansion hc
      refine ⟨hbuilt, getUnquarantined_eq_some.mpr hstored, .inl ⟨?_, hid, hemb⟩⟩
      by_contra henabled
      rw [expansion, if_neg henabled] at hc
      cases hc
    · obtain ⟨hbuilt, htotal, hc⟩ := mem_pprStage.mp hc
      obtain ⟨p, hp, hadd⟩ := List.mem_filterMap.mp hc
      obtain ⟨hget, -, hid⟩ := addPprOnly_eq_some hadd
      exact ⟨hbuilt, hid ▸ hget, .inr ⟨htotal, hid ▸ List.mem_map_of_mem hp⟩⟩

/-- A candidate is a hit, a live entry or an entry that step 6d adds. -/
theorem origin_of_mem_scored {c : Scored F} (hc : c ∈ s.scored) :
    c.entry ∈ s.hits.map Prod.fst ∨ c.entry.isLive = true ∨ s.Adds c.entry := by
  obtain ⟨c', heq, hstage⟩ := mem_stages (mem_pool_of_mem_scored hc)
  rw [← (show c'.1 = c.entry from heq)]
  rcases hstage with h | h | h | h
  · exact .inl (List.mem_map_of_mem h)
  · exact .inr (.inl (mem_terminals h).2.1)
  · exact .inr (.inr (adds_iff.mpr ⟨c', .inl h, rfl⟩))
  · exact .inr (.inr (adds_iff.mpr ⟨c', .inr h, rfl⟩))

/-- Where nothing is cut, an entry that step 6d adds is returned. -/
theorem Uncut.returned (h : s.Uncut) {e : EntryRecord} (he : s.Adds e) :
    ∃ p ∈ s.delivered, p.1.entry = e := by
  obtain ⟨c, hc, rfl⟩ := adds_iff.mp he
  obtain ⟨c', hmem, heq⟩ := mem_pool_of_stage (.inr (.inr hc))
  rw [← scored_candidates] at hmem
  obtain ⟨sc, hsc, hcand⟩ := List.mem_map.mp hmem
  obtain ⟨p, hp, hfst⟩ := List.mem_map.mp (h.delivered_perm.mem_iff.mpr hsc)
  exact ⟨p, hp, by rw [hfst, ← heq, ← hcand]⟩

/-! ## Penalties -/

theorem not_isStale_of_isLive {e : EntryRecord} (h : e.isLive = true) : ¬ e.isStale = true := by
  obtain ⟨hstatus, hsuperseded⟩ := of_decide_eq_true h
  simp [EntryRecord.isStale, hstatus, hsuperseded]

omit [F64 F] in
theorem hits_of_flexible (hmode : s.params.retrievalMode = .flexible) : s.hits = s.fetched := by
  unfold hits
  rw [hmode]

/-- The map has the penalties of the hits that are Deprecated or superseded. -/
theorem penaltyMap_lookup (hmode : s.params.retrievalMode = .flexible)
    (hfilter : s.explicitStatusFilter = none) (id : Nat) :
    s.penaltyMap.lookup id =
      if id ∈ ids (s.hits.filter fun c => c.1.isStale) then some (s.statusPenalty id) else none := by
  rw [← HashMap.lookup_collect_keyed, hits_of_flexible hmode]
  unfold penaltyMap ids
  rw [hmode, hfilter, List.map_map]
  rfl

/-- A Deprecated or superseded candidate has the penalty of its status if it is a hit, and else none. -/
theorem penalty_of_isStale (hmode : s.params.retrievalMode = .flexible)
    (hfilter : s.explicitStatusFilter = none) {c : Scored F} (hc : c ∈ s.scored)
    (hstale : c.entry.isStale = true) :
    c.penalty = if c.entry.id ∈ ids s.hits then s.statusPenalty c.entry.id else 1 := by
  have hmem : c.entry.id ∈ ids (s.hits.filter fun c => c.1.isStale) ↔ c.entry.id ∈ ids s.hits := by
    constructor
    · intro h
      exact (List.filter_sublist.map _).subset h
    · intro h
      obtain ⟨d, hd, heq⟩ := List.mem_map.mp h
      -- the store has one entry under the id
      have hsame : d.1 = c.entry := by
        have hfind := (stored_of_mem_hits hd).1
        rw [heq, (stored_of_mem_pool (mem_pool_of_mem_scored hc)).1] at hfind
        exact (Option.some.inj hfind).symm
      exact List.mem_map.mpr ⟨d, List.mem_filter.mpr ⟨hd, hsame ▸ hstale⟩, heq⟩
  rw [penalty_of_mem_scored hc, penaltyMap_lookup hmode hfilter]
  simp only [hmem]
  split <;> rfl

/-! ## The modes -/

/-- In Strict mode a candidate is live, unless step 6d adds it. -/
theorem live_or_adds (hmode : s.params.retrievalMode = .strict) {c : Scored F} (hc : c ∈ s.scored) :
    (c.entry.status = .active ∧ c.entry.supersededBy = none) ∨ s.Adds c.entry := by
  rcases origin_of_mem_scored hc with hhit | hlive | hadds
  · obtain ⟨d, hd, heq⟩ := List.mem_map.mp hhit
    exact .inl (of_decide_eq_true (heq ▸ isLive_of_strict hmode hd))
  · exact .inl (of_decide_eq_true hlive)
  · exact .inr hadds

/-- A candidate that is Deprecated or superseded is a hit, unless step 6d adds it. -/
theorem hit_or_adds {c : Scored F} (hc : c ∈ s.scored) (hstale : c.entry.isStale = true) :
    c.entry.id ∈ ids s.hits ∨ s.Adds c.entry := by
  rcases origin_of_mem_scored hc with hhit | hlive | hadds
  · obtain ⟨d, hd, heq⟩ := List.mem_map.mp hhit
    exact .inl (List.mem_map.mpr ⟨d, hd, by rw [heq]⟩)
  · exact absurd hstale (not_isStale_of_isLive hlive)
  · exact .inr hadds

/-- **The status of what is returned.** In Strict mode what step 6d did not add is live. In Flexible mode a
Deprecated or superseded hit has its penalty, and what only step 6d brought in has none. -/
theorem statusDiscipline (s : Search F) :
    (s.params.retrievalMode = .strict → ∀ r ∈ s.results, ¬ s.Adds r.entry →
        r.entry.status = .active ∧ r.entry.supersededBy = none) ∧
      (s.params.retrievalMode = .flexible → s.explicitStatusFilter = none → ∀ p ∈ s.delivered,
        p.1.entry.isStale = true →
          p.1.penalty = if p.1.entry.id ∈ ids s.hits then s.statusPenalty p.1.entry.id else 1) := by
  constructor
  · intro hmode r hr hadds
    obtain ⟨p, hp, rfl⟩ := List.mem_map.mp hr
    exact (live_or_adds hmode (mem_scored_of_mem_delivered hp)).resolve_right hadds
  · intro hmode hfilter p hp hstale
    exact penalty_of_isStale hmode hfilter (mem_scored_of_mem_delivered hp) hstale

/-! ## When the discipline is kept -/

theorem disciplined_of_adds (h : s.AddsDisciplined) : s.Disciplined where
  strict hmode r hr := by
    obtain ⟨p, hp, rfl⟩ := List.mem_map.mp hr
    exact (live_or_adds hmode (mem_scored_of_mem_delivered hp)).elim id (h.strict hmode _)
  flexible hmode hfilter p hp hstale := by
    have hscored := mem_scored_of_mem_delivered hp
    rw [penalty_of_isStale hmode hfilter hscored hstale]
    split
    · rfl
    · rename_i hnew
      have hadds := (hit_or_adds hscored hstale).resolve_left hnew
      exact ((h.flexible hmode hfilter _ hadds hstale).resolve_left hnew).symm

/-- **Where nothing is cut, the discipline is kept exactly where step 6d keeps it.** -/
theorem Uncut.disciplined_iff (huncut : s.Uncut) : s.Disciplined ↔ s.AddsDisciplined := by
  refine ⟨fun h => ⟨fun hmode e he => ?_, fun hmode hfilter e he hstale => ?_⟩, disciplined_of_adds⟩
  · obtain ⟨p, hp, rfl⟩ := huncut.returned he
    exact h.strict hmode _ (List.mem_map_of_mem hp)
  · obtain ⟨p, hp, rfl⟩ := huncut.returned he
    by_contra hnot
    obtain ⟨hnew, hpenalty⟩ := not_or.mp hnot
    have hscored := h.flexible hmode hfilter p hp hstale
    rw [penalty_of_isStale hmode hfilter (mem_scored_of_mem_delivered hp) hstale, if_neg hnew] at hscored
    exact hpenalty hscored.symm

/-! ## An entry that supports a hit -/

/-- Entry 2 is Deprecated and supports entry 1, the only hit. -/
def deprecatedSupport (retrievalMode : RetrievalMode) : Search Rat :=
  sample (plainParams 5 retrievalMode)
    (Store.linkStore [(1, Store.linkRow .active none none), (2, Store.linkRow .deprecated none none)])
    ⟨TypedRelationGraph.assemble [version 1 .active none none, version 2 .deprecated none none]
      [⟨2, 1, "Supports", 0x3F800000, 0, "", "", false⟩],
      [version 1 .active none none, version 2 .deprecated none none], false⟩
    (fun _ => none) [⟨1, 9 / 10⟩]

/-- The PageRank adds the Deprecated entry. In Strict mode it is returned, in Flexible mode without a penalty. -/
theorem statusDiscipline_support :
    ¬ (∀ s : Search Rat, s.params.retrievalMode = .strict → s.OnlyLive) ∧
      ¬ ∀ s : Search Rat, s.params.retrievalMode = .flexible → s.explicitStatusFilter = none →
        s.Penalised := by
  constructor
  · intro hclaim
    have hstatus : (deprecatedSupport .strict).results.map (fun r => r.entry.status) =
        [.active, .deprecated] := by decide +kernel
    have hmem : Status.deprecated ∈ (deprecatedSupport .strict).results.map fun r => r.entry.status := by
      rw [hstatus]
      decide
    obtain ⟨r, hr, heq⟩ := List.mem_map.mp hmem
    have hactive := (hclaim (deprecatedSupport .strict) rfl r hr).1
    rw [heq] at hactive
    cases hactive
  · intro hclaim
    have hscores : (deprecatedSupport .flexible).delivered.map
        (fun p => (p.1.entry.id, p.1.entry.isStale, p.1.penalty)) = [(1, false, 1), (2, true, 1)] := by
      decide +kernel
    have hmem : (2, true, (1 : Rat)) ∈ (deprecatedSupport .flexible).delivered.map
        fun p => (p.1.entry.id, p.1.entry.isStale, p.1.penalty) := by
      rw [hscores]
      decide
    obtain ⟨p, hp, heq⟩ := List.mem_map.mp hmem
    simp only [Prod.mk.injEq] at heq
    obtain ⟨hid, hstale, hpenalty⟩ := heq
    have hscored := hclaim (deprecatedSupport .flexible) rfl rfl p hp hstale
    have horphan : (deprecatedSupport .flexible).statusPenalty 2 = 3 / 4 := by decide +kernel
    rw [hpenalty, hid, horphan] at hscored
    exact absurd hscored (by decide +kernel)

end Unimatrix.Search
