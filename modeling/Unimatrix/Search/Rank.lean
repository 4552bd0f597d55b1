import Unimatrix.Graph.Suppress
import Unimatrix.Lib.Ranking
import Unimatrix.Search.Pool

/-!
# Ranking the candidates

Model of steps 6c to 11 of `SearchService::search`, with `FusionWeights::effective`, `compute_fused_score` and
`utility_delta`.

* A `Scored` candidate keeps the fused score and the penalty its final score is the product of. From step 10 on
  the program has the entries and similarities in one vector and the final scores in another; here the
  candidates stay whole, and the vector of scores is `finalScores`.
* `delivered` pairs what is returned with the score that is returned for it.

**`ranked_pairwise`**: the ranking descends. **`mem_delivered_iff`** says what is returned, position by position;
where nothing is cut (`Uncut`), it is all candidates (**`Uncut.delivered_perm`**).
-/

namespace Unimatrix

section

variable {F : Type} [F64 F]

/-! ## The fused score -/

/-- `MAX_CO_ACCESS_BOOST`. -/
def maxCoAccessBoost : F := 0.03

/-- `UTILITY_BOOST`. -/
def utilityBoost : F := 0.05

/-- `SETTLED_BOOST`. -/
def settledBoost : F := 0.01

/-- `UTILITY_PENALTY`. -/
def utilityPenalty : F := 0.05

/-- `PROVENANCE_BOOST`. -/
def provenanceBoost : F := 0.02

/-- `FusionWeights::effective`. -/
def FusionWeights.effective (w : FusionWeights F) (nliAvailable : Bool) : FusionWeights F :=
  if w.wNli = 0 then w
  else if nliAvailable then w
  else
    let denom := w.wSim + w.wConf + w.wCoac + w.wUtil + w.wProv
    if denom = 0 then
      { w with wSim := 0, wNli := 0, wConf := 0, wCoac := 0, wUtil := 0, wProv := 0 }
    else
      { w with
        wSim := w.wSim / denom
        wNli := 0
        wConf := w.wConf / denom
        wCoac := w.wCoac / denom
        wUtil := w.wUtil / denom
        wProv := w.wProv / denom }

/-- `FusedScoreInputs`. -/
structure FusedScoreInputs (F : Type) where
  similarity : F
  nliEntailment : F
  confidence : F
  coacNorm : F
  utilNorm : F
  provNorm : F
  phaseHistogramNorm : F
  phaseExplicitNorm : F

/-- `compute_fused_score`. -/
def computeFusedScore (inputs : FusedScoreInputs F) (weights : FusionWeights F) : F :=
  weights.wSim * inputs.similarity + weights.wNli * inputs.nliEntailment +
    weights.wConf * inputs.confidence + weights.wCoac * inputs.coacNorm +
    weights.wUtil * inputs.utilNorm + weights.wProv * inputs.provNorm +
    weights.wPhaseHistogram * inputs.phaseHistogramNorm +
    weights.wPhaseExplicit * inputs.phaseExplicitNorm

/-- `utility_delta`. -/
def utilityDelta : Option EffectivenessCategory → F
  | some .effective => utilityBoost
  | some .settled => settledBoost
  | some .ineffective => -utilityPenalty
  | some .noisy => -utilityPenalty
  | some .unmatched => 0
  | none => 0

end

/-- `histogram_total`, which saturates. -/
def histogramTotal (h : HashMap String UInt32) : Nat :=
  h.pairs.foldl (fun acc e => min (acc + e.2.toNat) 4294967295) 0

/-- A candidate that was scored. -/
structure Scored (F : Type) where
  entry : EntryRecord
  sim : F
  fused : F
  penalty : F

/-- `final_score`. -/
def Scored.finalScore {F : Type} [F64 F] (c : Scored F) : F := c.fused * c.penalty

/-- `ScoredEntry`. -/
structure ScoredEntry (F : Type) where
  entry : EntryRecord
  finalScore : F
  similarity : F
  confidence : F

namespace Search

variable {F : Type} [F64 F] (s : Search F)

/-! ## Steps 6c and 7: scoring -/

/-- Step 6c: `boost_map`. -/
def boostMap : HashMap Nat F :=
  if 1 < s.pool.length then
    s.computeSearchBoost (ids (s.pool.take 3)) (ids s.pool)
      (ids (s.pool.filter fun c => c.1.status = .deprecated))
  else ∅

/-- `nli_scores`. -/
def nliScores : Option (List NliScores) := if s.service.nliEnabled then s.tryNliRerank s.pool else none

/-- `nli_entailment` of the candidate at a position. -/
def nliEntailment (i : Nat) : F :=
  match s.nliScores.bind fun scores => scores[i]? with
  | some score => if Ieee.isNan32 score.entailment then 0 else F64.ofF32 score.entailment
  | none => 0

/-- `coac_norm`. -/
def coacNorm (entry : EntryRecord) : F := min ((s.boostMap.lookup entry.id).getD 0 / maxCoAccessBoost) 1

/-- `util_norm`. -/
def utilNorm (entry : EntryRecord) : F :=
  (utilityDelta (s.categories.lookup entry.id) + utilityPenalty) / (utilityBoost + utilityPenalty)

/-- `prov_norm`. -/
def provNorm (entry : EntryRecord) : F :=
  let rawProv : F := if s.service.boostedCategories.contains entry.category then provenanceBoost else 0
  if (provenanceBoost : F) = 0 then 0 else rawProv / provenanceBoost

/-- `phase_histogram_norm`. -/
def phaseHistogramNorm (entry : EntryRecord) : F :=
  match s.params.categoryHistogram with
  | none => 0
  | some h =>
    if 0 < histogramTotal h then
      (((h.lookup entry.category).getD 0).toNat : F) / (histogramTotal h : F)
    else 0

/-- `phase_explicit_norm`. -/
def phaseExplicitNorm (entry : EntryRecord) : F :=
  match s.phaseSnapshot with
  | none => 0
  | some snapshot => snapshotScore snapshot entry

/-- The inputs of a candidate's score. -/
def fusedScoreInputs (i : Nat) (c : Candidate F) : FusedScoreInputs F where
  similarity := c.2
  nliEntailment := s.nliEntailment i
  confidence := F64.ofBits c.1.confidence
  coacNorm := s.coacNorm c.1
  utilNorm := s.utilNorm c.1
  provNorm := s.provNorm c.1
  phaseHistogramNorm := s.phaseHistogramNorm c.1
  phaseExplicitNorm := s.phaseExplicitNorm c.1

/-- The body of the scoring loop, for the candidate at position `i`. -/
def score (i : Nat) (c : Candidate F) : Scored F where
  entry := c.1
  sim := c.2
  fused := computeFusedScore (s.fusedScoreInputs i c) (s.service.fusionWeights.effective s.nliScores.isSome)
  penalty := (s.penaltyMap.lookup c.1.id).getD 1

/-- The candidates with their scores. -/
def scored : List (Scored F) := s.pool.mapIdx s.score

/-- Step 7: sorted by score, the largest first, and cut to `k`. -/
def ranked : List (Scored F) :=
  (s.scored.insertionSort (F64.descending Scored.finalScore)).take s.params.k

/-- `final_scores`. -/
def finalScores : List F := s.ranked.map Scored.finalScore

/-! ## Steps 10 to 11: what is returned -/

/-- The candidate reaches the floor, if there is one. -/
def reaches (floor : Option F) (x : F) : Bool := floor.all fun f => decide (f ≤ x)

/-- The candidate passes both floors. -/
def passes (c : Scored F) : Bool :=
  reaches s.params.similarityFloor c.sim && reaches s.params.confidenceFloor (F64.ofBits c.entry.confidence)

/-- Step 10. -/
def floored : List (Scored F) :=
  (s.ranked.filter fun c => reaches s.params.similarityFloor c.sim).filter fun c =>
    reaches s.params.confidenceFloor (F64.ofBits c.entry.confidence)

/-- `keep_mask`. -/
def keepMask : List Bool :=
  (suppressContradicts (s.floored.map fun c => c.entry.id) s.graphState.typedGraph s.edgeOrder).1

/-- Step 10b: the results and the scores that are left. -/
def unsuppressed : List (Scored F) × List F :=
  if s.graphState.useFallback then (s.floored, s.finalScores)
  else List.unzip ((((s.floored.zip s.finalScores).zip s.keepMask).filter Prod.snd).map Prod.fst)

/-- What is returned, each with the score that is returned for it. -/
def delivered : List (Scored F × F) := s.unsuppressed.1.zip s.unsuppressed.2

/-- Step 11: the entries that are returned. -/
def results : List (ScoredEntry F) :=
  s.delivered.map fun c => ⟨c.1.entry, c.2, c.1.sim, F64.ofBits c.1.entry.confidence⟩

/-! ## The ranking -/

/-- The ids of what is returned. -/
def resultIds : List Nat := s.results.map fun r => r.entry.id

theorem scored_candidates : s.scored.map (fun c => (c.entry, c.sim)) = s.pool := by
  unfold scored
  refine List.ext_getElem? fun i => ?_
  rw [List.getElem?_map, List.getElem?_mapIdx]
  cases s.pool[i]? <;> rfl

theorem scored_ids : s.scored.map (fun c => c.entry.id) = ids s.pool := by
  unfold ids
  rw [← scored_candidates, List.map_map]
  rfl

variable {s}

/-- A scored candidate carries the penalty that the map has for its id. -/
theorem penalty_of_mem_scored {c : Scored F} (hc : c ∈ s.scored) :
    c.penalty = (s.penaltyMap.lookup c.entry.id).getD 1 := by
  obtain ⟨i, hi, rfl⟩ := List.mem_mapIdx.mp hc
  rfl

theorem mem_pool_of_mem_scored {c : Scored F} (hc : c ∈ s.scored) : (c.entry, c.sim) ∈ s.pool := by
  rw [← scored_candidates]
  exact List.mem_map_of_mem hc

theorem ranked_subperm : s.ranked.Subperm s.scored :=
  (List.take_sublist _ _).subperm.trans (List.perm_insertionSort _ _).subperm

/-- **The ranking descends.** -/
theorem ranked_pairwise : s.ranked.Pairwise fun a b => b.finalScore ≤ a.finalScore :=
  (List.pairwise_insertionSort (F64.descending Scored.finalScore) s.scored).sublist (List.take_sublist _ _)

theorem length_ranked_le : s.ranked.length ≤ s.params.k := List.length_take_le _ _

theorem floored_eq : s.floored = s.ranked.filter s.passes := by
  unfold floored passes
  rw [List.filter_filter]
  exact List.filter_congr fun c _ => Bool.and_comm _ _

theorem length_finalScores : s.finalScores.length = s.ranked.length := List.length_map _

theorem length_floored_le : s.floored.length ≤ s.finalScores.length := by
  rw [length_finalScores, floored_eq]
  exact List.length_filter_le _ _

/-! ## What is returned -/

variable (s) in
/-- Contradictions do not suppress the result at a position of what passes the floors. -/
def Keeps (i : Nat) : Prop := s.graphState.useFallback = true ∨ s.keepMask[i]? = some true

/-- What is returned, by positions. -/
theorem mem_delivered_iff {c : Scored F} {score : F} :
    (c, score) ∈ s.delivered ↔
      ∃ i, s.floored[i]? = some c ∧ s.finalScores[i]? = some score ∧ s.Keeps i := by
  unfold delivered unsuppressed Keeps
  split
  · rename_i hfallback
    rw [List.mem_iff_getElem?]
    simp [List.getElem?_zip_eq_some, hfallback]
  · rename_i hbuilt
    rw [List.zip_unzip, List.mem_map]
    constructor
    · rintro ⟨⟨c', keep⟩, hmem, rfl⟩
      obtain ⟨hmem, hkeep⟩ := List.mem_filter.mp hmem
      obtain rfl : keep = true := hkeep
      obtain ⟨i, hi⟩ := List.mem_iff_getElem?.mp hmem
      simp only [List.getElem?_zip_eq_some] at hi
      exact ⟨i, hi.1.1, hi.1.2, .inr hi.2⟩
    · rintro ⟨i, hc, hscore, hkeep⟩
      refine ⟨((c, score), true), List.mem_filter.mpr ⟨List.mem_iff_getElem?.mpr ⟨i, ?_⟩, rfl⟩, rfl⟩
      simp only [List.getElem?_zip_eq_some]
      exact ⟨⟨hc, hscore⟩, hkeep.resolve_left hbuilt⟩

theorem floored_zip : (s.floored.zip s.finalScores).map Prod.fst = s.floored :=
  List.map_fst_zip length_floored_le

theorem length_keepMask : (s.floored.zip s.finalScores).length = s.keepMask.length := by
  rw [keepMask, length_suppressContradicts, List.length_map, List.length_zip]
  exact min_eq_left length_floored_le

/-- What is returned is left of the ranking, in its order. -/
theorem delivered_sublist : (s.delivered.map Prod.fst).Sublist s.floored := by
  unfold delivered unsuppressed
  split
  · rw [floored_zip]
  · rw [List.zip_unzip]
    have hkept := (List.filter_sublist (l := (s.floored.zip s.finalScores).zip s.keepMask)
      (p := Prod.snd)).map Prod.fst
    rw [List.map_fst_zip length_keepMask.le] at hkept
    have hsub := hkept.map Prod.fst
    rwa [floored_zip] at hsub

theorem delivered_sublist_ranked : (s.delivered.map Prod.fst).Sublist s.ranked := by
  refine delivered_sublist.trans ?_
  rw [floored_eq]
  exact List.filter_sublist

theorem mem_scored_of_mem_delivered {p : Scored F × F} (hp : p ∈ s.delivered) : p.1 ∈ s.scored :=
  ranked_subperm.subset (delivered_sublist_ranked.subset (List.mem_map_of_mem hp))

theorem length_results_le : s.results.length ≤ s.params.k := by
  have hlen : (s.delivered.map Prod.fst).length ≤ s.ranked.length := delivered_sublist_ranked.length_le
  rw [List.length_map] at hlen
  unfold results
  rw [List.length_map]
  exact hlen.trans length_ranked_le

theorem resultIds_eq : s.resultIds = (s.delivered.map Prod.fst).map fun c => c.entry.id := by
  unfold resultIds results
  simp only [List.map_map]
  rfl

/-! ## Where nothing is cut -/

variable (s) in
/-- Every candidate is returned: there is room for all of them, no floor, and nothing that contradicts. -/
structure Uncut : Prop where
  room : s.pool.length ≤ s.params.k
  similarityFloor : s.params.similarityFloor = none
  confidenceFloor : s.params.confidenceFloor = none
  agreed : s.graphState.useFallback = true ∨ NoContradicts s.graphState.typedGraph

theorem Uncut.floored (h : s.Uncut) : s.floored = s.ranked := by
  rw [floored_eq, List.filter_eq_self]
  intro c _
  unfold passes
  rw [h.similarityFloor, h.confidenceFloor]
  rfl

theorem Uncut.delivered_eq (h : s.Uncut) : s.delivered.map Prod.fst = s.floored := by
  unfold delivered unsuppressed
  split
  · exact floored_zip
  · rename_i hbuilt
    have hmask : s.keepMask = List.replicate s.floored.length true := by
      rw [keepMask, suppressContradicts_of_no_edge (h.agreed.resolve_left hbuilt), List.length_map]
    have hall : ((s.floored.zip s.finalScores).zip s.keepMask).filter Prod.snd =
        (s.floored.zip s.finalScores).zip s.keepMask := by
      rw [List.filter_eq_self]
      intro c hc
      have hkeep := (List.of_mem_zip (a := c.1) (b := c.2) hc).2
      rw [hmask] at hkeep
      exact List.eq_of_mem_replicate hkeep
    rw [List.zip_unzip, hall, List.map_fst_zip length_keepMask.le, floored_zip]

/-- **Where nothing is cut, the candidates are returned**, each as often as it is one. -/
theorem Uncut.delivered_perm (h : s.Uncut) : (s.delivered.map Prod.fst).Perm s.scored := by
  have hsort := List.perm_insertionSort (F64.descending Scored.finalScore) s.scored
  have hlen : s.scored.length = s.pool.length := List.length_mapIdx
  rw [h.delivered_eq, h.floored, ranked, List.take_of_length_le]
  · exact hsort
  · rw [hsort.length_eq, hlen]
    exact h.room

theorem Uncut.resultIds_perm (h : s.Uncut) : s.resultIds.Perm (ids s.pool) := by
  rw [resultIds_eq, ← scored_ids]
  exact h.delivered_perm.map _

end Search
end Unimatrix
