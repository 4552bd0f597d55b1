import Unimatrix.Search.Results

/-!
# What a search returns: the scores

The floors of step 10 remove entries from the results and not from `final_scores`, so an entry below a removed one
is returned with the score of an entry that ranks higher.

**`scoreAlignment`**: every entry is returned with its own score exactly when, for each that is returned, as many
entries above it pass the floors as have a greater score. The entries themselves always descend by their own
scores.
-/

namespace Unimatrix.Search

variable {F : Type} [F64 F] (s : Search F)

/-- Every entry is returned with the score that was computed for it, the fused score times the penalty. -/
def OwnScores : Prop := ∀ p ∈ s.delivered, p.2 = p.1.fused * p.1.penalty

/-- What is returned descends by the scores that were computed for it. -/
def Descends : Prop := (s.delivered.map fun p => p.1.fused * p.1.penalty).Pairwise fun a b => b ≤ a

/-- Above every entry of the ranking that passes the floors and is not suppressed, as many pass the floors as have
a greater score. -/
def FloorsSpare : Prop :=
  ∀ (j : Nat) (c : Scored F), s.ranked[j]? = some c → s.passes c = true →
    s.Keeps ((s.ranked.take j).countP s.passes) →
      (s.ranked.countP fun d => c.finalScore < d.finalScore) ≤ (s.ranked.take j).countP s.passes

variable {s}

theorem descends (s : Search F) : s.Descends := by
  have hsub := (delivered_sublist_ranked (s := s)).map Scored.finalScore
  rw [List.map_map] at hsub
  exact (List.pairwise_map.mpr ranked_pairwise).sublist hsub

/-- An entry of the ranking that is returned: its score is that of the entry at the position that the floors leave
to it. -/
theorem mem_delivered_of_ranked {j : Nat} {a c : Scored F} (hc : s.ranked[j]? = some c)
    (hpasses : s.passes c = true) (hkeeps : s.Keeps ((s.ranked.take j).countP s.passes))
    (ha : s.ranked[(s.ranked.take j).countP s.passes]? = some a) : (c, a.finalScore) ∈ s.delivered := by
  refine mem_delivered_iff.mpr ⟨(s.ranked.take j).countP s.passes, ?_, ?_, hkeeps⟩
  · rw [floored_eq]
    exact Ranking.getElem?_filter_of_getElem? hc hpasses
  · rw [finalScores, List.getElem?_map, ha]
    rfl

theorem ranked_of_mem_delivered {c : Scored F} {score : F} (h : (c, score) ∈ s.delivered) :
    ∃ j a, s.ranked[j]? = some c ∧ s.passes c = true ∧ s.Keeps ((s.ranked.take j).countP s.passes) ∧
      s.ranked[(s.ranked.take j).countP s.passes]? = some a ∧ a.finalScore = score := by
  obtain ⟨i, hfloored, hscore, hkeeps⟩ := mem_delivered_iff.mp h
  rw [floored_eq] at hfloored
  obtain ⟨j, hj, rfl⟩ := Ranking.getElem?_of_getElem?_filter hfloored
  rw [finalScores, List.getElem?_map] at hscore
  obtain ⟨a, ha, rfl⟩ := Option.map_eq_some_iff.mp hscore
  exact ⟨j, a, hj, (List.mem_filter.mp (List.mem_of_getElem? hfloored)).2, hkeeps, ha, rfl⟩

/-- **The scores of a search.** Every entry is returned with its own score, in the order of these, exactly when
the floors spare what ranks above the entries that are returned. -/
theorem scoreAlignment (s : Search F) : s.OwnScores ∧ s.Descends ↔ s.FloorsSpare := by
  rw [and_iff_left s.descends]
  constructor
  · intro h j c hc hpasses hkeeps
    have hlt : (s.ranked.take j).countP s.passes < s.ranked.length :=
      (Ranking.countP_take_le j).trans_lt (List.getElem?_eq_some_iff.mp hc).1
    have ha := List.getElem?_eq_getElem hlt
    have hown := h _ (mem_delivered_of_ranked hc hpasses hkeeps ha)
    exact (Ranking.eq_iff_countP_le ranked_pairwise s.passes hc ha).mp hown
  · rintro h ⟨c, score⟩ hp
    obtain ⟨j, a, hc, hpasses, hkeeps, ha, rfl⟩ := ranked_of_mem_delivered hp
    exact (Ranking.eq_iff_countP_le ranked_pairwise s.passes hc ha).mpr (h j c hc hpasses hkeeps)

/-- A floor that removes nothing spares everything. -/
theorem floorsSpare_of_passes (h : ∀ c ∈ s.ranked, s.passes c = true) : s.FloorsSpare := by
  intro j c hc _ _
  have hall : (s.ranked.take j).countP s.passes = j := by
    rw [List.countP_eq_length.mpr fun d hd => h d (List.mem_of_mem_take hd), List.length_take]
    exact min_eq_left (List.getElem?_eq_some_iff.mp hc).1.le
  rw [hall, ← not_lt, ← Ranking.lt_iff_lt_countP ranked_pairwise _ hc]
  exact lt_irrefl _

/-- Where nothing is suppressed: no floor removes an entry whose score is above that of one which is returned. -/
theorem floorsSpare_iff (h : ∀ i, s.Keeps i) :
    s.FloorsSpare ↔ ∀ c ∈ s.ranked, s.passes c = true → ∀ d ∈ s.ranked,
      c.finalScore < d.finalScore → s.passes d = true := by
  rw [← Ranking.countP_le_iff ranked_pairwise s.passes]
  constructor
  · intro hspare j c hc hpasses
    exact hspare j c hc hpasses (h _)
  · intro hcount j c hc hpasses _
    exact hcount j c hc hpasses

/-! ## A floor above an entry -/

/-- Entry 1 is nearer and has no confidence, entry 2 has confidence 1/2. The floor is 1/10. -/
def unsureFirst : Search Rat :=
  sample { plainParams 5 .flexible with confidenceFloor := some (1 / 10) }
    (Store.linkStore [(1, Store.linkRow .active none none),
      (2, { Store.linkRow .active none none with confidence := 0x3FE0000000000000 })])
    ⟨.empty, [], true⟩ (fun _ => none) [⟨1, 9 / 10⟩, ⟨2, 1 / 5⟩]

/-- Entry 2 alone is returned, with the score of entry 1. -/
theorem scoreAlignment_unsureFirst : ¬ ∀ s : Search Rat, s.OwnScores ∧ s.Descends := by
  intro hclaim
  have hscores : unsureFirst.delivered.map (fun p => (p.2, p.1.fused * p.1.penalty)) =
      [(9 / 20, 11 / 40)] := by decide +kernel
  have hmem : ((9 / 20 : Rat), (11 / 40 : Rat)) ∈
      unsureFirst.delivered.map fun p => (p.2, p.1.fused * p.1.penalty) := by
    rw [hscores]
    exact List.mem_singleton_self _
  obtain ⟨p, hp, heq⟩ := List.mem_map.mp hmem
  have hown := (hclaim unsureFirst).1 p hp
  rw [(Prod.mk.inj heq).1, (Prod.mk.inj heq).2] at hown
  exact absurd hown (by decide +kernel)

end Unimatrix.Search
