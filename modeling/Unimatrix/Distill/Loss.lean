import Mathlib.Algebra.Order.BigOperators.Group.List
import Mathlib.Data.List.Perm.Basic
import Unimatrix.Distill.Retrieve
import Unimatrix.Lib.Budget

/-!
# What the caps and the filter drop

* A cap keeps what fits, from the start on (`lt_length_keepEarliest_iff`, `sum_keepEarliest_le`). In chronological order that
  says which sessions lose a candidate (`exists_dropped_iff`).
* **`applyScopeFilter_perm`**: the filter keeps what is in scope (`InScopeAt`), but not what has a timestamp that does not
  parse (`Malformed`) when there are time bounds.
* **`find?_mergeCycleDrop`**: the loss row of a session after the drops of the cycle cap.
-/

namespace Unimatrix.Distill

/-! ## Caps -/

/-- The bytes of some candidates. -/
def totalLen (candidates : List TranscriptCandidate) : Nat := (candidates.map fun c => len c.text).sum

theorem totalLen_perm {l l' : List TranscriptCandidate} (h : l.Perm l') : totalLen l = totalLen l' :=
  (h.map _).sum_eq

theorem totalLen_le_of_sublist {l l' : List TranscriptCandidate} (h : l.Sublist l') : totalLen l ≤ totalLen l' :=
  (h.map _).sum_le_sum fun _ _ => Nat.zero_le _

theorem keepEarliestFrom_none (total : Nat) (candidates : List TranscriptCandidate) :
    keepEarliestFrom none total candidates = candidates := by
  induction candidates generalizing total with
  | nil => rfl
  | cons c candidates ih =>
    rw [keepEarliestFrom, if_neg (by simp), ih]

theorem selectCandidates_some (crates : Crates) (bytes : List UInt8) (sessionId : Str) (baseOffset cap : Nat) :
    selectCandidates crates bytes sessionId baseOffset (some cap) =
      keepEarliestFrom (some cap) 0 (selectCandidates crates bytes sessionId baseOffset none) := by
  unfold selectCandidates keepEarliestWithin
  rw [keepEarliestFrom_none]

/-- A cap spends what it allows, from the start on. -/
theorem keepEarliestFrom_eq_spend (cap total : Nat) (candidates : List TranscriptCandidate) :
    keepEarliestFrom (some cap) total candidates = Budget.spend (fun c => len c.text) cap total candidates := by
  induction candidates generalizing total with
  | nil => rfl
  | cons c candidates ih =>
    rw [keepEarliestFrom, Budget.spend, ih]
    by_cases h : cap < total + len c.text
    · rw [if_pos h, if_pos (by simpa using h)]
    · rw [if_neg h, if_neg (by simpa using h)]

theorem prefix_keepEarliestFrom (cap : Option Nat) (total : Nat) (candidates : List TranscriptCandidate) :
    keepEarliestFrom cap total candidates <+: candidates := by
  cases cap with
  | none =>
    rw [keepEarliestFrom_none]
  | some cap =>
    rw [keepEarliestFrom_eq_spend]
    exact Budget.spend_isPrefix _ _ _ _

/-- What is kept fits. -/
theorem sum_keepEarliest_le {cap total : Nat} (h : total ≤ cap) (candidates : List TranscriptCandidate) :
    total + totalLen (keepEarliestFrom (some cap) total candidates) ≤ cap := by
  rw [keepEarliestFrom_eq_spend]
  exact Budget.spend_within _ _ h candidates

/-- A candidate is kept if it fits with all before it. -/
theorem lt_length_keepEarliest_iff {cap total i : Nat} {candidates : List TranscriptCandidate}
    (hi : i < candidates.length) :
    i < (keepEarliestFrom (some cap) total candidates).length ↔
      total + totalLen (candidates.take (i + 1)) ≤ cap := by
  rw [keepEarliestFrom_eq_spend]
  exact Budget.lt_length_spend_iff _ _ hi

/-- All are kept if all fit. -/
theorem keepEarliest_eq_self {cap total : Nat} {candidates : List TranscriptCandidate}
    (h : total + totalLen candidates ≤ cap) : keepEarliestFrom (some cap) total candidates = candidates := by
  rw [keepEarliestFrom_eq_spend]
  exact Budget.spend_eq_self _ _ h

/-- A session loses a candidate to a cap if one of its candidates does not fit with all that are not later. -/
theorem exists_dropped_iff {candidates : List TranscriptCandidate}
    (hsorted : candidates.Pairwise fun a b => chronological a ≤ chronological b) (cap : Nat) (sid : Str) :
    (∃ c ∈ candidates.drop (keepEarliestFrom (some cap) 0 candidates).length, c.sessionId = sid) ↔
      ∃ c ∈ candidates, c.sessionId = sid ∧
        cap < totalLen (candidates.filter fun d => chronological d ≤ chronological c) := by
  have hover : ∀ i < candidates.length, (keepEarliestFrom (some cap) 0 candidates).length ≤ i ↔
      cap < totalLen (candidates.take (i + 1)) := by
    intro i hi
    have : i < (keepEarliestFrom (some cap) 0 candidates).length ↔ _ := lt_length_keepEarliest_iff hi
    omega
  constructor
  · rintro ⟨c, hc, hsid⟩
    obtain ⟨j, hj⟩ := List.mem_iff_getElem?.mp hc
    rw [List.getElem?_drop] at hj
    obtain ⟨hi, rfl⟩ := List.getElem?_eq_some_iff.mp hj
    generalize hk : (keepEarliestFrom (some cap) 0 candidates).length + j = i at hi hsid
    refine ⟨candidates[i], List.getElem_mem hi, hsid, ?_⟩
    refine ((hover i hi).mp (by omega)).trans_le (totalLen_le_of_sublist ?_)
    have hearly : ∀ d ∈ candidates.take (i + 1), chronological d ≤ chronological candidates[i] := by
      intro d hd
      obtain ⟨k, hlt, rfl⟩ := List.mem_take_iff_getElem.mp hd
      rcases Nat.lt_or_eq_of_le (show k ≤ i by omega) with hlt | rfl
      · exact List.pairwise_iff_getElem.mp hsorted k i (by omega) hi hlt
      · exact le_rfl
    rw [← List.filter_eq_self.mpr fun d hd => decide_eq_true (hearly d hd)]
    exact (List.take_sublist _ _).filter _
  · rintro ⟨c, hc, rfl, hcap⟩
    -- the last one that is not later than `c` has the key of `c`, so it is of the same session
    obtain ⟨init, d, rest, rfl, hearly, hkey⟩ := StableSort.exists_last_le hsorted hc
    have hsession : d.sessionId = c.sessionId := congrArg (fun k => (ofLex (ofLex k).2).1) hkey
    have htake : (init ++ d :: rest).take (init.length + 1) = init ++ [d] := by
      rw [List.append_cons]
      exact List.take_left' (by rw [List.length_append, List.length_singleton])
    have hlate := (hover init.length (by simp)).mpr (by rwa [htake, ← hearly])
    refine ⟨d, List.mem_iff_getElem?.mpr ⟨init.length - (keepEarliestFrom (some cap) 0
      (init ++ d :: rest)).length, ?_⟩, hsession⟩
    rw [List.getElem?_drop, Nat.add_sub_cancel' hlate]
    simp

/-! ## Scope -/

/-- The text matches the pattern, if there is one. -/
def Matches (ctx : ScopeCtx) (c : TranscriptCandidate) : Prop := ∀ re ∈ ctx.compiled, re c.text = true

/-- An instant is within the bounds; those of an anchor are widened by the window. -/
def Inside (ctx : ScopeCtx) (ms : Nat) : Prop :=
  (∀ b ∈ ctx.phaseBounds, b.1 ≤ ms ∧ ms ≤ b.2) ∧
    ∀ b ∈ ctx.anchorBounds, b.1 - (Window.effective ctx.window).1 ≤ ms ∧
      ms ≤ b.2 + (Window.effective ctx.window).1

/-- In scope by its timestamp. -/
def Timed (ctx : ScopeCtx) (c : TranscriptCandidate) : Prop :=
  (∃ ms, candidateEpochMs c.ts = some ms ∧ Inside ctx ms) ∧ Matches ctx c

/-- A position within the window's blocks of the span of the candidates in scope by their timestamps. -/
def Near (ctx : ScopeCtx) (indexed : List TranscriptCandidate) (i : Nat) : Prop :=
  (∃ j c, indexed[j]? = some c ∧ Timed ctx c ∧ j ≤ i + (Window.effective ctx.window).2) ∧
    ∃ j c, indexed[j]? = some c ∧ Timed ctx c ∧ i ≤ j + (Window.effective ctx.window).2

/-- The candidate at a position is in scope. -/
def InScopeAt (ctx : ScopeCtx) (indexed : List TranscriptCandidate) (i : Nat) (c : TranscriptCandidate) : Prop :=
  indexed[i]? = some c ∧ Matches ctx c ∧
    (ctx.hasTimeBounds = false ∨ Timed ctx c ∨ candidateEpochMs c.ts = none ∧ Near ctx indexed i)

/-- A timestamp that is there and does not parse. -/
def Malformed (c : TranscriptCandidate) : Prop := c.ts.isSome = true ∧ candidateEpochMs c.ts = none

/-- In scope, and no time bounds with a timestamp that does not parse. -/
def WantedAt (ctx : ScopeCtx) (indexed : List TranscriptCandidate) (i : Nat) (c : TranscriptCandidate) : Prop :=
  InScopeAt ctx indexed i c ∧ ¬ (ctx.hasTimeBounds = true ∧ Malformed c)

noncomputable instance (ctx : ScopeCtx) (indexed : List TranscriptCandidate) (i : Nat) (c : TranscriptCandidate) :
    Decidable (WantedAt ctx indexed i c) := Classical.propDecidable _

/-- The candidates, in byte order, that are wanted where they are. -/
noncomputable def wanted (ctx : ScopeCtx) (candidates : List TranscriptCandidate) : List TranscriptCandidate :=
  let indexed := StableSort.sortBy TranscriptCandidate.byteOffset candidates
  (indexed.zipIdx.filter fun e => WantedAt ctx indexed e.2 e.1).map Prod.fst

theorem mem_wanted {ctx : ScopeCtx} {candidates : List TranscriptCandidate} {c : TranscriptCandidate} :
    c ∈ wanted ctx candidates ↔
      ∃ i, WantedAt ctx (StableSort.sortBy TranscriptCandidate.byteOffset candidates) i c := by
  unfold wanted
  rw [List.mem_map]
  constructor
  · rintro ⟨⟨c', i⟩, he, rfl⟩
    exact ⟨i, of_decide_eq_true (List.mem_filter.mp he).2⟩
  · rintro ⟨i, hc⟩
    exact ⟨(c, i), List.mem_filter.mpr ⟨List.mem_zipIdx_iff_getElem?.mpr hc.1.1, decide_eq_true hc⟩, rfl⟩

theorem regex_iff (ctx : ScopeCtx) (c : TranscriptCandidate) :
    (!(ctx.compiled.any fun re => !re c.text)) = true ↔ Matches ctx c := by
  unfold Matches
  cases ctx.compiled with
  | none => simp
  | some re => simp

theorem scopePredicate_of_epoch {ctx : ScopeCtx} {c : TranscriptCandidate} {ms : Nat}
    (h : candidateEpochMs c.ts = some ms) (includeTsNone : Bool) :
    scopePredicate c ctx includeTsNone = true ↔ Inside ctx ms ∧ Matches ctx c := by
  unfold scopePredicate Inside
  dsimp only
  rw [Bool.and_eq_true, Bool.and_eq_true, regex_iff, h]
  refine and_congr_left fun _ => ?_
  have hphase : withinBound ctx.phaseBounds phaseContainsTs (some ms) includeTsNone = true ↔
      ∀ b ∈ ctx.phaseBounds, b.1 ≤ ms ∧ ms ≤ b.2 := by
    cases ctx.phaseBounds with
    | none => simp [withinBound]
    | some b => simp [withinBound, phaseContainsTs]
  have hanchor : withinBound ctx.anchorBounds
      (fun bounds => tsWithinWindow bounds (Window.effective ctx.window).1) (some ms) includeTsNone = true ↔
      ∀ b ∈ ctx.anchorBounds, b.1 - (Window.effective ctx.window).1 ≤ ms ∧
        ms ≤ b.2 + (Window.effective ctx.window).1 := by
    cases ctx.anchorBounds with
    | none => simp [withinBound]
    | some b => simp [withinBound, tsWithinWindow]
  rw [hphase, hanchor]

theorem scopePredicate_of_none {ctx : ScopeCtx} {c : TranscriptCandidate} (h : candidateEpochMs c.ts = none)
    (includeTsNone : Bool) :
    scopePredicate c ctx includeTsNone = true ↔
      (ctx.hasTimeBounds = true → includeTsNone = true) ∧ Matches ctx c := by
  unfold scopePredicate ScopeCtx.hasTimeBounds
  dsimp only
  rw [Bool.and_eq_true, Bool.and_eq_true, regex_iff, h]
  refine and_congr_left fun _ => ?_
  cases ctx.phaseBounds with
  | none =>
    cases ctx.anchorBounds with
    | none => simp [withinBound]
    | some b => simp [withinBound]
  | some b =>
    cases ctx.anchorBounds with
    | none => simp [withinBound]
    | some b => simp [withinBound]

/-- With time bounds a timestamp decides alone. -/
theorem scopePredicate_false_iff {ctx : ScopeCtx} (hbounds : ctx.hasTimeBounds = true) (c : TranscriptCandidate) :
    scopePredicate c ctx false = true ↔ Timed ctx c := by
  unfold Timed
  cases h : candidateEpochMs c.ts with
  | none => simp [scopePredicate_of_none h, hbounds]
  | some ms => simp [scopePredicate_of_epoch h]

/-- Without time bounds the text decides alone. -/
theorem scopePredicate_true_iff {ctx : ScopeCtx} (hbounds : ctx.hasTimeBounds = false) (c : TranscriptCandidate) :
    scopePredicate c ctx true = true ↔ Matches ctx c := by
  cases h : candidateEpochMs c.ts with
  | none => simp [scopePredicate_of_none h]
  | some ms =>
    have hnone : ctx.anchorBounds = none ∧ ctx.phaseBounds = none := by
      unfold ScopeCtx.hasTimeBounds at hbounds
      simpa using hbounds
    rw [scopePredicate_of_epoch h]
    unfold Inside
    rw [hnone.1, hnone.2]
    simp

/-! ## The filter -/

/-- The least and the greatest of some positions. -/
theorem foldl_widen (is : List Nat) :
    match is.foldl widen none with
    | none => is = []
    | some (lo, hi) => ∀ n, (lo ≤ n ↔ ∃ i ∈ is, i ≤ n) ∧ (n ≤ hi ↔ ∃ i ∈ is, n ≤ i) := by
  induction is using List.reverseRecOn with
  | nil => rfl
  | append_singleton is i ih =>
    rw [List.foldl_concat]
    split at ih
    · rename_i hnone
      rw [hnone, ih]
      simp [widen]
    · rename_i lo hi hsome
      rw [hsome]
      intro n
      obtain ⟨hlo, hhi⟩ := ih n
      simp only [List.mem_append, List.mem_singleton, min_le_iff, le_max_iff, hlo, hhi, or_and_right, exists_or,
        exists_eq_left, and_self]

theorem mem_timed_positions {ctx : ScopeCtx} (hbounds : ctx.hasTimeBounds = true)
    (indexed : List TranscriptCandidate) (i : Nat) :
    i ∈ (indexed.zipIdx.filter fun e => e.1.ts.isSome && scopePredicate e.1 ctx false).map Prod.snd ↔
      ∃ c, indexed[i]? = some c ∧ Timed ctx c := by
  rw [List.mem_map]
  constructor
  · rintro ⟨⟨c, j⟩, he, rfl⟩
    obtain ⟨hmem, hkept⟩ := List.mem_filter.mp he
    rw [Bool.and_eq_true] at hkept
    exact ⟨c, List.mem_zipIdx_iff_getElem?.mp hmem, (scopePredicate_false_iff hbounds c).mp hkept.2⟩
  · rintro ⟨c, hc, htimed⟩
    refine ⟨(c, i), List.mem_filter.mpr ⟨List.mem_zipIdx_iff_getElem?.mpr hc, ?_⟩, rfl⟩
    rw [Bool.and_eq_true]
    refine ⟨?_, (scopePredicate_false_iff hbounds c).mpr htimed⟩
    obtain ⟨⟨ms, hms, -⟩, -⟩ := htimed
    cases hts : c.ts with
    | none =>
      rw [hts] at hms
      cases hms
    | some ts => rfl

/-- The positions near the range are those near the span. -/
theorem near_iff {ctx : ScopeCtx} (hbounds : ctx.hasTimeBounds = true) (indexed : List TranscriptCandidate)
    (i : Nat) :
    (∃ range ∈ timedRange ctx indexed, blockWithin i range.1 range.2 (Window.effective ctx.window).2 = true) ↔
      Near ctx indexed i := by
  have hrange := foldl_widen
    ((indexed.zipIdx.filter fun e => e.1.ts.isSome && scopePredicate e.1 ctx false).map Prod.snd)
  have hmem := mem_timed_positions hbounds indexed
  unfold Near timedRange
  generalize (indexed.zipIdx.filter fun e => e.1.ts.isSome && scopePredicate e.1 ctx false).map Prod.snd = is
    at hrange hmem
  split at hrange
  · rename_i hnone
    rw [hnone]
    constructor
    · rintro ⟨_, h, -⟩
      cases h
    · rintro ⟨⟨j, c, hj, htimed, -⟩, -⟩
      have := (hmem j).mpr ⟨c, hj, htimed⟩
      rw [hrange] at this
      cases this
  · rename_i lo hi hsome
    rw [hsome]
    have hblock : blockWithin i lo hi (Window.effective ctx.window).2 = true ↔
        lo ≤ i + (Window.effective ctx.window).2 ∧ i - (Window.effective ctx.window).2 ≤ hi := by
      unfold blockWithin
      rw [Bool.and_eq_true, decide_eq_true_iff, decide_eq_true_iff]
      omega
    simp only [Option.mem_some_iff, exists_eq_left', hblock, (hrange _).1, (hrange _).2, hmem]
    constructor
    · rintro ⟨⟨j, ⟨c, hc⟩, hle⟩, k, ⟨c', hc'⟩, hle'⟩
      exact ⟨⟨j, c, hc.1, hc.2, hle⟩, k, c', hc'.1, hc'.2, by omega⟩
    · rintro ⟨⟨j, c, hj, htimed, hle⟩, k, c', hk, htimed', hle'⟩
      exact ⟨⟨j, ⟨c, hj, htimed⟩, hle⟩, k, ⟨c', hk, htimed'⟩, by omega⟩

/-- With time bounds the last filter keeps what is wanted there. -/
theorem keptAt_iff {ctx : ScopeCtx} (hbounds : ctx.hasTimeBounds = true) {indexed : List TranscriptCandidate} {i : Nat}
    {c : TranscriptCandidate} (hc : indexed[i]? = some c) :
    keptAt ctx (timedRange ctx indexed) i c = true ↔ WantedAt ctx indexed i c := by
  unfold keptAt WantedAt InScopeAt Malformed
  rw [hbounds]
  split
  · rename_i hts
    rw [scopePredicate_false_iff hbounds]
    constructor
    · intro htimed
      refine ⟨⟨hc, htimed.2, .inr (.inl htimed)⟩, fun hbad => ?_⟩
      obtain ⟨⟨ms, hms, -⟩, -⟩ := htimed
      rw [hbad.2.2] at hms
      cases hms
    · rintro ⟨⟨-, -, hfalse | htimed | ⟨hnone, -⟩⟩, hgood⟩
      · cases hfalse
      · exact htimed
      · exact absurd ⟨rfl, hts, hnone⟩ hgood
  · rename_i hts
    have hnone : candidateEpochMs c.ts = none := by
      cases h : c.ts with
      | none => rfl
      | some ts =>
        rw [h] at hts
        exact absurd rfl hts
    have htimed : ¬ Timed ctx c := by
      rintro ⟨⟨ms, hms, -⟩, -⟩
      rw [hnone] at hms
      cases hms
    have hnear := near_iff hbounds indexed i
    have hpredicate : scopePredicate c ctx true = true ↔ Matches ctx c := by
      simp [scopePredicate_of_none hnone]
    cases hrange : timedRange ctx indexed with
    | none =>
      rw [hrange] at hnear
      simp only [Option.mem_def] at hnear
      simp [htimed, ← hnear]
    | some range =>
      rw [hrange] at hnear
      simp only [Option.mem_some_iff, exists_eq_left'] at hnear
      dsimp only
      rw [Bool.and_eq_true, hnear, hpredicate]
      simp [htimed, hnone, hts, hc, and_comm]

/-- Without time bounds the text decides. -/
theorem wantedAt_iff {ctx : ScopeCtx} (hbounds : ctx.hasTimeBounds = false) {indexed : List TranscriptCandidate}
    {i : Nat} {c : TranscriptCandidate} (hc : indexed[i]? = some c) :
    WantedAt ctx indexed i c ↔ scopePredicate c ctx true = true := by
  unfold WantedAt InScopeAt
  rw [hbounds, scopePredicate_true_iff hbounds]
  simp [hc]

/-- **What the filter keeps.** -/
theorem applyScopeFilter_perm (candidates : List TranscriptCandidate) (ctx : ScopeCtx) :
    (applyScopeFilter candidates ctx).Perm (wanted ctx candidates) := by
  unfold applyScopeFilter wanted
  dsimp only
  cases hbounds : ctx.hasTimeBounds with
  | false =>
    rw [Bool.not_false, if_pos rfl]
    refine ((StableSort.sortBy_perm TranscriptCandidate.byteOffset candidates).symm.filter _).trans ?_
    generalize StableSort.sortBy TranscriptCandidate.byteOffset candidates = indexed
    conv_lhs => rw [← List.zipIdx_map_fst 0 indexed]
    rw [List.filter_map]
    refine .of_eq (congrArg _ (List.filter_congr fun e he => ?_))
    have := wantedAt_iff hbounds (List.mem_zipIdx_iff_getElem?.mp he)
    rw [Bool.eq_iff_iff, decide_eq_true_iff, this, Function.comp_apply]
  | true =>
    rw [Bool.not_true, if_neg Bool.false_ne_true]
    refine .of_eq (congrArg _ (List.filter_congr fun e he => ?_))
    rw [Bool.eq_iff_iff, decide_eq_true_iff, keptAt_iff hbounds (List.mem_zipIdx_iff_getElem?.mp he)]

/-! ## Loss rows -/

theorem mem_keys_tally {dropped : List (Str × Nat)} {sid s : Str} :
    s ∈ (tally dropped sid).map Prod.fst ↔ s ∈ dropped.map Prod.fst ∨ s = sid := by
  induction dropped with
  | nil => simp [tally]
  | cons e dropped ih =>
    obtain ⟨k, n⟩ := e
    rw [tally]
    split
    · rename_i hk
      subst hk
      simp only [List.map_cons, List.mem_cons]
      tauto
    · simp only [List.map_cons, List.mem_cons, ih]
      tauto

theorem mem_keys_tallies {sids : List Str} {s : Str} : s ∈ (sids.foldl tally []).map Prod.fst ↔ s ∈ sids := by
  induction sids using List.reverseRecOn with
  | nil => simp
  | append_singleton sids sid ih =>
    rw [List.foldl_concat, mem_keys_tally, ih, List.mem_append, List.mem_singleton]

/-- The row of a session after one more drop. -/
theorem find?_mergeCycleDrop (loss : List SessionLossInfo) (drop : Str × Nat) (sid : Str) :
    (mergeCycleDrop loss drop).find? (fun l => l.sessionId = sid) =
      if sid = drop.1 then
        some (match loss.find? fun l => l.sessionId = sid with
          | some row => { row with droppedCandidates := row.droppedCandidates + drop.2 }
          | none => ⟨drop.1, 0, false, .primary, drop.2⟩)
      else loss.find? fun l => l.sessionId = sid := by
  induction loss with
  | nil =>
    rw [mergeCycleDrop]
    by_cases hs : sid = drop.1
    · rw [if_pos hs, hs]
      simp
    · rw [if_neg hs]
      simp [Ne.symm hs]
  | cons row loss ih =>
    rw [mergeCycleDrop]
    by_cases hrow : row.sessionId = drop.1
    · rw [if_pos hrow]
      by_cases hs : sid = drop.1
      · simp [hs, hrow]
      · rw [if_neg hs]
        simp [hrow, Ne.symm hs]
    · rw [if_neg hrow]
      by_cases hs : row.sessionId = sid
      · have hne : sid ≠ drop.1 := fun h => hrow (hs.trans h)
        simp [hs, hne]
      · rw [List.find?_cons_of_neg (by simpa using hs), ih]
        simp [hs]

theorem exists_row_mergeCycleDrops (loss : List SessionLossInfo) (dropped : List (Str × Nat)) (sid : Str) :
    ((mergeCycleDropsIntoLoss loss dropped).find? fun l => l.sessionId = sid).isSome = true ↔
      (loss.find? fun l => l.sessionId = sid).isSome = true ∨ sid ∈ dropped.map Prod.fst := by
  unfold mergeCycleDropsIntoLoss
  induction dropped generalizing loss with
  | nil => simp
  | cons drop dropped ih =>
    rw [List.foldl_cons, ih, find?_mergeCycleDrop, List.map_cons, List.mem_cons]
    split
    · rename_i hs
      simp [hs]
    · rename_i hs
      simp [hs]

/-- Rows are found alike after the same drops. -/
theorem find?_mergeCycleDrops {loss loss' : List SessionLossInfo}
    (h : ∀ sid, loss.find? (fun l => l.sessionId = sid) = loss'.find? fun l => l.sessionId = sid)
    (dropped : List (Str × Nat)) (sid : Str) :
    (mergeCycleDropsIntoLoss loss dropped).find? (fun l => l.sessionId = sid) =
      (mergeCycleDropsIntoLoss loss' dropped).find? fun l => l.sessionId = sid := by
  unfold mergeCycleDropsIntoLoss
  induction dropped generalizing loss loss' with
  | nil => exact h sid
  | cons drop dropped ih =>
    rw [List.foldl_cons, List.foldl_cons]
    refine ih fun sid => ?_
    rw [find?_mergeCycleDrop, find?_mergeCycleDrop, h]

end Unimatrix.Distill
