import Unimatrix.Lib.StableSort
import Unimatrix.Search.Results

/-!
# The briefing index

Model of `IndexBriefingService::index`, which searches and returns the first `k` entries that are Active.

* `search` is any search, of which only the ranking is known: its entries descend by `final_score` (`Outcome`).
  `Search.outcome` is what the search service returns.
* The scores are no NaN, so `partial_cmp` always compares.

The entries come ranked by their fused score and are sorted again, by the `similarity` that became `confidence`.

**`index_iff`**: the result is the first `k` Active entries, in their order, exactly if these descend by similarity and no
Active entry behind them is more similar than one of them.
-/

namespace Unimatrix.Briefing

variable {F : Type} [F64 F]

/-! ## The code -/

/-- `SNIPPET_CHARS`. -/
def snippetChars : Nat := 150

/-- `default_k`. -/
def defaultK : Nat := 20

/-- `IndexBriefingParams`: what is read of it here. -/
structure IndexBriefingParams where
  k : Nat
  categoryHistogram : Option (HashMap String UInt32)

/-- `IndexEntry`. -/
structure IndexEntry (F : Type) where
  id : Nat
  topic : String
  category : String
  confidence : F
  snippet : List Char
  deriving DecidableEq

/-- Step 1: `effective_k`. -/
def effectiveK (k : Nat) : Nat := if k = 0 then defaultK else k

/-- Step 2: `service_params`. -/
def serviceParams (params : IndexBriefingParams) : ServiceSearchParams F where
  k := effectiveK params.k
  filters := none
  similarityFloor := none
  confidenceFloor := none
  retrievalMode := .strict
  categoryHistogram := params.categoryHistogram
  currentPhase := none

/-- Step 5: `active_entries`. -/
def activeEntries (entries : List (ScoredEntry F)) : List (ScoredEntry F) :=
  entries.filter fun se => se.entry.status = .active

/-- Step 6, for one entry. -/
def toIndexEntry (se : ScoredEntry F) : IndexEntry F where
  id := se.entry.id
  topic := se.entry.topic
  category := se.entry.category
  confidence := se.similarity
  snippet := se.entry.content.toList.take snippetChars

/-- Steps 5 to 8. -/
def indexEntries (entries : List (ScoredEntry F)) (effectiveK : Nat) : List (IndexEntry F) :=
  (((activeEntries entries).map toIndexEntry).insertionSort (F64.descending IndexEntry.confidence)).take effectiveK

/-- `IndexBriefingService::index`. -/
def index {E : Type} (search : ServiceSearchParams F → Except E (List (ScoredEntry F))) (params : IndexBriefingParams) :
    Except E (List (IndexEntry F)) :=
  (search (serviceParams params)).map fun entries => indexEntries entries (effectiveK params.k)

/-! ## What it is for -/

/-- What a search returns. -/
structure Outcome (F : Type) [F64 F] where
  entries : List (ScoredEntry F)
  descends : entries.Pairwise fun a b => b.finalScore ≤ a.finalScore

namespace Outcome

variable (o : Outcome F) (k : Nat)

/-- The first `k` Active entries. -/
def firstActive : List (ScoredEntry F) := (activeEntries o.entries).take k

/-- The first `k` Active entries descend by similarity, and no other Active entry is more similar than one of them. -/
structure Similar : Prop where
  descends : (o.firstActive k).Pairwise fun a b => b.similarity ≤ a.similarity
  others : ∀ a ∈ o.firstActive k, ∀ b ∈ (activeEntries o.entries).drop k, b.similarity ≤ a.similarity

end Outcome

/-- The briefing has the first `k` Active entries of the search, in their order. -/
def Ranked {E : Type} (search : ServiceSearchParams F → Except E (Outcome F)) (params : IndexBriefingParams) : Prop :=
  index (fun p => (search p).map Outcome.entries) params =
    (search (serviceParams params)).map fun o => (o.firstActive (effectiveK params.k)).map toIndexEntry

/-! ## The order -/

theorem indexEntries_eq_iff (o : Outcome F) (k : Nat) :
    indexEntries o.entries k = (o.firstActive k).map toIndexEntry ↔ o.Similar k := by
  unfold indexEntries Outcome.firstActive
  rw [List.map_take, StableSort.take_insertionSort_eq_iff, ← List.map_take, ← List.map_drop, List.pairwise_map]
  constructor
  · rintro ⟨hdescends, hothers⟩
    exact ⟨hdescends, fun a ha b hb => hothers _ (List.mem_map_of_mem ha) _ (List.mem_map_of_mem hb)⟩
  · intro h
    refine ⟨h.descends, fun _ hfirst _ hother => ?_⟩
    obtain ⟨a, ha, rfl⟩ := List.mem_map.mp hfirst
    obtain ⟨b, hb, rfl⟩ := List.mem_map.mp hother
    exact h.others a ha b hb

/-- **The briefing keeps the order of the search exactly if similarity has the same order.** -/
theorem index_iff {E : Type} (search : ServiceSearchParams F → Except E (Outcome F)) (params : IndexBriefingParams) :
    Ranked search params ↔
      ∀ o, search (serviceParams params) = .ok o → o.Similar (effectiveK params.k) := by
  unfold Ranked index
  dsimp only
  cases search (serviceParams params) with
  | error e => exact ⟨fun _ o ho => (by cases ho), fun _ => rfl⟩
  | ok o =>
    constructor
    · intro h o' ho'
      cases ho'
      exact (indexEntries_eq_iff o _).mp (Except.ok.inj h)
    · intro h
      exact congrArg Except.ok ((indexEntries_eq_iff o _).mpr (h o rfl))

/-! ## The search service -/

/-- What is returned descends by the scores that are returned. -/
theorem results_descend (s : Search F) : s.results.Pairwise fun a b => b.finalScore ≤ a.finalScore := by
  have hscores : s.finalScores.Pairwise fun x y => y ≤ x := List.pairwise_map.mpr Search.ranked_pairwise
  have hzip : ((s.floored.zip s.finalScores).map Prod.snd).Sublist s.finalScores := by
    rw [List.zip_eq_zip_take_min, List.map_snd_zip (by simp)]
    exact List.take_sublist _ _
  have hsub : (s.delivered.map Prod.snd).Sublist s.finalScores := by
    unfold Search.delivered Search.unsuppressed
    split
    · exact hzip
    · rw [List.zip_unzip]
      have hkept := (List.filter_sublist (l := (s.floored.zip s.finalScores).zip s.keepMask) (p := Prod.snd)).map Prod.fst
      rw [List.map_fst_zip Search.length_keepMask.le] at hkept
      exact (hkept.map Prod.snd).trans hzip
  unfold Search.results
  rw [List.pairwise_map]
  exact List.pairwise_map.mp (hscores.sublist hsub)

/-- `SearchService::search` with other parameters. -/
def searchOutcome (s : Search F) (params : ServiceSearchParams F) : Outcome F :=
  ⟨{ s with params }.results, results_descend _⟩

/-- Entry 1 is nearer, entry 2 is trusted. -/
def trustedBehind : Search Rat :=
  Search.sample (Search.plainParams 5 .strict)
    (Store.linkStore [(1, Store.linkRow .active none none),
      (2, { Store.linkRow .active none none with confidence := 0x3FF0000000000000 })])
    ⟨.empty, [], true⟩ (fun _ => none) [⟨1, 9 / 10⟩, ⟨2, 4 / 5⟩]

/-- The search ranks entry 2 above entry 1, the briefing has entry 1 first. -/
theorem trustedBehind_first : ¬ ∀ (s : Search Rat) (params : IndexBriefingParams),
    Ranked (fun p => (Except.ok (searchOutcome s p) : Except String (Outcome Rat))) params := by
  intro h
  have hids := congrArg (List.map IndexEntry.id) (Except.ok.inj (h trustedBehind ⟨5, none⟩))
  have hindex : (indexEntries (searchOutcome trustedBehind (serviceParams ⟨5, none⟩)).entries 5).map IndexEntry.id =
      [1, 2] := by decide +kernel
  have hranked : (((searchOutcome trustedBehind (serviceParams ⟨5, none⟩)).firstActive 5).map toIndexEntry).map
      IndexEntry.id = [2, 1] := by decide +kernel
  exact absurd (hindex.symm.trans (hids.trans hranked)) (by decide)

end Unimatrix.Briefing
