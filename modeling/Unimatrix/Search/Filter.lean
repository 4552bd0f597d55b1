import Unimatrix.Search.Discipline

/-!
# What a search returns: the filter

Step 5 of `SearchService::search` runs the store's `query` for the filter and restricts the vector search to the ids it
returns. Nothing later reads the filter again, except for its status.

* `query` of `read.rs` is the scan of the table with a `where_clause`, a list of conditions that all have to hold. A
  `u64` bound is bound as an `i64`.
* `Store.mem_query` says what a filter admits: a list of tags with a repetition admits nothing, a time range that ends
  before it starts is no condition, and with no condition at all only Active entries are admitted.
* The hits are the filter's. The entries that steps 6b and 6d fetch by id are not checked against it.

**`filterSoundness`**: what is returned and is not admitted was brought in by one of these steps, and where nothing is
cut the filter is kept exactly if they bring in nothing else.
-/

namespace Unimatrix

/-! ## The query of the store -/

/-- `TimeRange`. -/
structure TimeRange where
  start : UInt64
  end_ : UInt64

/-- `QueryFilter`, with the fields that only the query of the store reads. -/
structure StoreFilter extends QueryFilter where
  topic : Option String
  category : Option String
  tags : Option (List String)
  timeRange : Option TimeRange

namespace StoreFilter

/-- `is_empty`. -/
def isEmpty (f : StoreFilter) : Bool :=
  f.topic.isNone && f.category.isNone && f.tags.isNone && f.status.isNone && f.timeRange.isNone

/-- `effective_status`. -/
def effectiveStatus (f : StoreFilter) : Option Status := if f.isEmpty then some .active else f.status

/-- `created_at >= ?1 AND created_at <= ?2`. -/
def createdWithin (range : TimeRange) (e : EntryRecord) : Bool :=
  decide (range.start.toInt64.toInt ≤ e.createdAt) && decide (e.createdAt ≤ range.end_.toInt64.toInt)

/-- `id IN (.. GROUP BY entry_id HAVING COUNT(DISTINCT tag) = ?)`. -/
def tagged (tags : List String) (e : EntryRecord) : Bool :=
  (e.tags.filter fun tag => tags.contains tag).dedup.length == tags.length

/-- `conditions`. -/
def conditions (f : StoreFilter) : List (EntryRecord → Bool) :=
  (f.topic.toList.map fun topic e => e.topic == topic) ++
    (f.category.toList.map fun category e => e.category == category) ++
    (f.effectiveStatus.toList.map fun status e => e.status == status) ++
    ((f.timeRange.filter fun range => decide (range.start ≤ range.end_)).toList.map createdWithin) ++
    ((f.tags.filter fun tags => !tags.isEmpty).toList.map tagged)

/-- `where_clause`. -/
def whereClause (f : StoreFilter) (e : EntryRecord) : Bool :=
  if f.conditions.isEmpty then e.status == .active else f.conditions.all fun condition => condition e

/-- What the filter asks of an entry. -/
structure Admits (f : StoreFilter) (e : EntryRecord) : Prop where
  topic : ∀ topic, f.topic = some topic → e.topic = topic
  category : ∀ category, f.category = some category → e.category = category
  status : ∀ status, f.status = some status → e.status = status
  timeRange : ∀ range, f.timeRange = some range → range.start ≤ range.end_ →
    range.start.toInt64.toInt ≤ e.createdAt ∧ e.createdAt ≤ range.end_.toInt64.toInt
  tags : ∀ tags, f.tags = some tags → tags.Nodup ∧ ∀ tag ∈ tags, tag ∈ e.tags
  default : (f.isEmpty = true ∨ f.conditions = []) → e.status = .active

/-- As many distinct tags are found as are asked for if none is asked for twice and all are there. -/
theorem tagged_iff {tags : List String} {e : EntryRecord} :
    tagged tags e = true ↔ tags.Nodup ∧ ∀ tag ∈ tags, tag ∈ e.tags := by
  have hmem : ∀ tag, tag ∈ (e.tags.filter fun tag => tags.contains tag).dedup ↔
      tag ∈ e.tags ∧ tag ∈ tags := fun tag => by
    rw [List.mem_dedup, List.mem_filter, List.contains_iff_mem]
  have hsub : (e.tags.filter fun tag => tags.contains tag).dedup.Subperm tags :=
    (List.nodup_dedup _).subperm fun tag h => ((hmem tag).mp h).2
  unfold tagged
  rw [beq_iff_eq]
  constructor
  · intro hlen
    have hperm := hsub.perm_of_length_le hlen.ge
    exact ⟨hperm.nodup_iff.mp (List.nodup_dedup _), fun tag h => ((hmem tag).mp (hperm.mem_iff.mpr h)).1⟩
  · rintro ⟨hnodup, hall⟩
    have hsup : tags.Subperm (e.tags.filter fun tag => tags.contains tag).dedup :=
      hnodup.subperm fun tag h => (hmem tag).mpr ⟨hall tag h, h⟩
    exact Nat.le_antisymm hsub.length_le hsup.length_le

/-- All conditions hold, whatever they are, if those of each field do. -/
theorem all_conditions {f : StoreFilter} {e : EntryRecord} :
    (f.conditions.all fun condition => condition e) = true ↔
      (∀ topic, f.topic = some topic → e.topic = topic) ∧
        (∀ category, f.category = some category → e.category = category) ∧
        (∀ status, f.effectiveStatus = some status → e.status = status) ∧
        (∀ range, f.timeRange = some range → range.start ≤ range.end_ →
          range.start.toInt64.toInt ≤ e.createdAt ∧ e.createdAt ≤ range.end_.toInt64.toInt) ∧
        ∀ tags, f.tags = some tags → tags.Nodup ∧ ∀ tag ∈ tags, tag ∈ e.tags := by
  have htags : (((f.tags.filter fun tags => !tags.isEmpty).toList.map tagged).all fun c => c e) = true ↔
      ∀ tags, f.tags = some tags → tags.Nodup ∧ ∀ tag ∈ tags, tag ∈ e.tags := by
    cases f.tags with
    | none => simp
    | some tags =>
      cases tags with
      | nil => simp
      | cons tag tags =>
        have hkept : (some (tag :: tags)).filter (fun tags => !tags.isEmpty) = some (tag :: tags) := rfl
        rw [hkept]
        simp only [Option.toList_some, List.map_cons, List.map_nil, List.all_cons, List.all_nil,
          Bool.and_true, tagged_iff, Option.some.injEq, forall_eq']
  unfold conditions
  simp only [List.all_append, Bool.and_eq_true, htags, and_assoc]
  refine and_congr ?_ (and_congr ?_ (and_congr ?_ (and_congr_left' ?_)))
  · cases f.topic <;> simp
  · cases f.category <;> simp
  · cases f.effectiveStatus <;> simp
  · cases f.timeRange with
    | none => simp
    | some range => by_cases h : range.start ≤ range.end_ <;> simp [Option.filter_some, h, createdWithin]

/-- A status that is asked for is the effective one. -/
theorem effectiveStatus_of_status {f : StoreFilter} {status : Status} (h : f.status = some status) :
    f.effectiveStatus = some status := by
  have hfull : f.isEmpty = false := by
    unfold isEmpty
    simp [h]
  unfold effectiveStatus
  rw [hfull, if_neg Bool.false_ne_true, h]

/-- **What the `WHERE` clause admits.** -/
theorem whereClause_iff {f : StoreFilter} {e : EntryRecord} : f.whereClause e = true ↔ f.Admits e := by
  have hall := all_conditions (f := f) (e := e)
  unfold whereClause
  constructor
  · intro h
    have hconds : (f.conditions.all fun condition => condition e) = true := by
      split at h
      · rename_i hnil
        rw [List.isEmpty_iff.mp hnil]
        rfl
      · exact h
    obtain ⟨htopic, hcategory, hstatus, hrange, htags⟩ := hall.mp hconds
    refine ⟨htopic, hcategory, fun status hs => hstatus status (effectiveStatus_of_status hs), hrange,
      htags, ?_⟩
    rintro (hempty | hnil)
    · exact hstatus .active (if_pos hempty)
    · rw [hnil] at h
      exact beq_iff_eq.mp h
  · intro h
    split
    · rename_i hnil
      exact beq_iff_eq.mpr (h.default (.inr (List.isEmpty_iff.mp hnil)))
    · refine hall.mpr ⟨h.topic, h.category, fun status hs => ?_, h.timeRange, h.tags⟩
      unfold effectiveStatus at hs
      split at hs
      · rename_i hempty
        exact Option.some.inj hs ▸ h.default (.inl hempty)
      · exact h.status status hs

end StoreFilter

/-- `query`, for a scan of the table in the order `o`. -/
def Store.query (s : Store) (o : HashMap.IterOrder Nat EntryRow) (f : StoreFilter) : List EntryRecord :=
  (s.allEntries o).filter f.whereClause

/-- **The query returns the entries the filter admits.** -/
theorem Store.mem_query {s : Store} {o : HashMap.IterOrder Nat EntryRow} {f : StoreFilter}
    {e : EntryRecord} : e ∈ s.query o f ↔ s.find e.id = some e ∧ f.Admits e := by
  unfold Store.query
  rw [List.mem_filter, Store.mem_allEntries, StoreFilter.whereClause_iff]

/-! ## What is returned -/

namespace Search

variable {F : Type} [F64 F] (s : Search F)

/-- The search has the filter, and the vector search was restricted to the ids the query returned. -/
structure Filtered (o : HashMap.IterOrder Nat EntryRow) (f : StoreFilter) : Prop where
  filter : s.params.filters = some f.toQueryFilter
  allowed : ∀ sr ∈ s.searchResults, sr.entryId ∈ (s.store.query o f).map EntryRecord.id

/-- Step 6b injects the entry: a superseded hit leads to it. -/
def Redirects (e : EntryRecord) : Prop :=
  s.explicitStatusFilter ≠ some .deprecated ∧ s.store.find e.id = some e ∧
    ∃ hit ∈ s.hits, hit.1.supersededBy.isSome = true ∧ s.Injects hit.1 e.id

/-- A later step fetches the entry by its id. -/
def FetchedById (e : EntryRecord) : Prop := s.Redirects e ∨ s.Adds e

variable {s}

theorem redirects_iff {e : EntryRecord} : s.Redirects e ↔ ∃ c ∈ s.terminals, c.1 = e := by
  unfold terminals
  constructor
  · rintro ⟨hfilter, hfind, hit, hhit, hsup, hinjects⟩
    obtain ⟨c, hc, hid⟩ := injectTerminal_of_injects hinjects
    refine ⟨c, ?_, ?_⟩
    · rw [if_neg hfilter]
      exact List.mem_filterMap.mpr
        ⟨hit.1, List.mem_filter.mpr ⟨List.mem_map_of_mem hhit, hsup⟩, hc⟩
    · have hstored := (injectTerminal_eq_some hc).2.1.1
      rw [hid, hfind] at hstored
      exact (Option.some.inj hstored).symm
  · rintro ⟨c, hc, rfl⟩
    split at hc
    · cases hc
    · rename_i hfilter
      obtain ⟨entry, hentry, hinject⟩ := List.mem_filterMap.mp hc
      obtain ⟨hmem, hsup⟩ := List.mem_filter.mp hentry
      obtain ⟨hit, hhit, rfl⟩ := List.mem_map.mp hmem
      obtain ⟨hinjects, hstored, -⟩ := injectTerminal_eq_some hinject
      exact ⟨hfilter, hstored.1, hit, hhit, hsup, hinjects⟩

omit [F64 F] in
/-- The hits are entries the query returned. -/
theorem Filtered.query_of_hit {o : HashMap.IterOrder Nat EntryRow} {f : StoreFilter} (h : s.Filtered o f)
    {c : Candidate F} (hc : c ∈ s.hits) : c.1 ∈ s.store.query o f := by
  obtain ⟨sr, hsr, hget⟩ := List.mem_filterMap.mp (hits_sublist.subset hc)
  obtain ⟨entry, hentry, rfl⟩ := Option.map_eq_some_iff.mp hget
  obtain ⟨⟨hfind, -⟩, hid⟩ := stored_of_getUnquarantined sr.similarity hentry
  obtain ⟨e, he, heq⟩ := List.mem_map.mp (h.allowed sr hsr)
  -- the store has one entry under the id
  have hsame : e = entry := by
    have hfind' := (Store.mem_query.mp he).1
    rw [heq, ← hid, hfind] at hfind'
    exact (Option.some.inj hfind').symm
  exact hsame ▸ he

theorem Filtered.origin {o : HashMap.IterOrder Nat EntryRow} {f : StoreFilter} (h : s.Filtered o f)
    {c : Scored F} (hc : c ∈ s.scored) : c.entry ∈ s.store.query o f ∨ s.FetchedById c.entry := by
  obtain ⟨c', heq, hstage⟩ := mem_stages (mem_pool_of_mem_scored hc)
  rw [← (show c'.1 = c.entry from heq)]
  rcases hstage with hhit | hterminal | hexpand | hppr
  · exact .inl (h.query_of_hit hhit)
  · exact .inr (.inl (redirects_iff.mpr ⟨c', hterminal, rfl⟩))
  · exact .inr (.inr (adds_iff.mpr ⟨c', .inl hexpand, rfl⟩))
  · exact .inr (.inr (adds_iff.mpr ⟨c', .inr hppr, rfl⟩))

/-- Where nothing is cut, an entry that is fetched by its id is returned. -/
theorem Uncut.fetched_returned (h : s.Uncut) {e : EntryRecord} (he : s.FetchedById e) :
    ∃ r ∈ s.results, r.entry = e := by
  have hpool : ∃ c ∈ s.pool, c.1 = e := by
    rcases he with he | he
    · obtain ⟨c, hc, rfl⟩ := redirects_iff.mp he
      exact mem_pool_of_stage (.inr (.inl hc))
    · obtain ⟨c, hc, rfl⟩ := adds_iff.mp he
      exact mem_pool_of_stage (.inr (.inr hc))
  obtain ⟨c, hc, rfl⟩ := hpool
  rw [← scored_candidates] at hc
  obtain ⟨sc, hsc, hcand⟩ := List.mem_map.mp hc
  obtain ⟨p, hp, hfst⟩ := List.mem_map.mp (h.delivered_perm.mem_iff.mpr hsc)
  exact ⟨_, List.mem_map_of_mem hp, by rw [← hcand, ← hfst]⟩

/-- **The filter is kept by what was not fetched by its id**: a superseded hit's terminal, which is live, or what step
6d adds. Where nothing is cut, the filter is kept exactly if these are admitted as well. -/
theorem filterSoundness (s : Search F) (o : HashMap.IterOrder Nat EntryRow) (f : StoreFilter)
    (h : s.Filtered o f) :
    (∀ r ∈ s.results, r.entry ∈ s.store.query o f ∨ s.FetchedById r.entry) ∧
      (∀ e, s.Redirects e → e.status = .active ∧ e.supersededBy = none) ∧
      (s.Uncut → ((∀ r ∈ s.results, r.entry ∈ s.store.query o f) ↔
        ∀ e, s.FetchedById e → e ∈ s.store.query o f)) := by
  have horigin : ∀ r ∈ s.results, r.entry ∈ s.store.query o f ∨ s.FetchedById r.entry := by
    intro r hr
    obtain ⟨p, hp, rfl⟩ := List.mem_map.mp hr
    exact h.origin (mem_scored_of_mem_delivered hp)
  refine ⟨horigin, fun e he => ?_, fun huncut => ⟨fun hall e he => ?_, fun hall r hr => ?_⟩⟩
  · obtain ⟨c, hc, rfl⟩ := redirects_iff.mp he
    exact of_decide_eq_true (mem_terminals hc).2.1
  · obtain ⟨r, hr, rfl⟩ := huncut.fetched_returned he
    exact hall r hr
  · exact (horigin r hr).elim id (hall r.entry)

/-! ## A neighbour of another topic -/

/-- Entry 2, of another topic, supports entry 1, the only hit. -/
def topicNeighbor : Search Rat :=
  sample { plainParams 5 .flexible with filters := some ⟨none⟩ }
    (Store.linkStore [(1, { Store.linkRow .active none none with topic := "k8s" }),
      (2, { Store.linkRow .active none none with topic := "ref" })])
    ⟨TypedRelationGraph.assemble [{ version 1 .active none none with topic := "k8s" },
        { version 2 .active none none with topic := "ref" }]
      [⟨2, 1, "Supports", 0x3F800000, 0, "", "", false⟩],
      [{ version 1 .active none none with topic := "k8s" },
        { version 2 .active none none with topic := "ref" }], false⟩
    (fun _ => none) [⟨1, 9 / 10⟩]

/-- The filter on the topic of entry 1. -/
def topicFilter : StoreFilter where
  status := none
  topic := some "k8s"
  category := none
  tags := none
  timeRange := none

theorem topicNeighbor_filtered : topicNeighbor.Filtered .stored topicFilter where
  filter := rfl
  allowed := by
    have hids : (topicNeighbor.store.query .stored topicFilter).map EntryRecord.id = [1] := by
      decide +kernel
    rw [hids]
    decide

theorem filterSoundness_topicNeighbor :
    (∀ r ∈ topicNeighbor.results, r.entry ∈ topicNeighbor.store.query .stored topicFilter ∨
        topicNeighbor.FetchedById r.entry) ∧
      (∀ e, topicNeighbor.Redirects e → e.status = .active ∧ e.supersededBy = none) ∧
      (topicNeighbor.Uncut →
        ((∀ r ∈ topicNeighbor.results, r.entry ∈ topicNeighbor.store.query .stored topicFilter) ↔
          ∀ e, topicNeighbor.FetchedById e → e ∈ topicNeighbor.store.query .stored topicFilter)) :=
  filterSoundness topicNeighbor .stored topicFilter topicNeighbor_filtered

/-- The PageRank adds entry 2, which is returned. -/
theorem topicNeighbor_returned :
    ¬ ∀ (s : Search Rat) (o : HashMap.IterOrder Nat EntryRow) (f : StoreFilter), s.Filtered o f →
      ∀ r ∈ s.results, r.entry ∈ s.store.query o f := by
  intro hclaim
  have htopics : topicNeighbor.results.map (fun r => r.entry.topic) = ["k8s", "ref"] := by decide +kernel
  have hmem : "ref" ∈ topicNeighbor.results.map fun r => r.entry.topic := by
    rw [htopics]
    decide
  obtain ⟨r, hr, heq⟩ := List.mem_map.mp hmem
  have hquery := hclaim topicNeighbor .stored topicFilter topicNeighbor_filtered r hr
  have htopic := (Store.mem_query.mp hquery).2.topic "k8s" rfl
  rw [heq] at htopic
  exact absurd htopic (by decide)

end Search
end Unimatrix
