import Unimatrix.Distill.Loss

/-!
# Honest retrieval

A `Retrieval` is a call of `retrieve_scoped_candidates` with a scope whose bounds are resolved, for sessions with distinct ids.
It is `Honest` if what it leaves out is reported, and it does not depend on the order of the sessions.

A timestamp that is there and does not parse (`Malformed`) should place a candidate by its position, as no timestamp does.
`apply_scope_filter` tests for the timestamp only, and `scope_predicate` then rejects it. **`honest_iff`**: a retrieval is
honest if and only if no session without a loss row (`Unreported`) has a candidate in scope with such a timestamp.
-/

namespace Unimatrix.Distill

/-! ## Candidates of a session -/

theorem mem_of_mem_dedupStable {crates : Crates} {c : TranscriptCandidate} {seen : List (Str × Nat × UInt64)}
    {candidates : List TranscriptCandidate} (h : c ∈ dedupStable crates seen candidates) : c ∈ candidates := by
  induction candidates generalizing seen with
  | nil => exact h
  | cons d candidates ih =>
    rw [dedupStable] at h
    split at h
    · exact List.mem_cons_of_mem _ (ih h)
    · rcases List.mem_cons.mp h with rfl | h
      · exact List.mem_cons_self
      · exact List.mem_cons_of_mem _ (ih h)

theorem sessionId_of_mem_selectCandidates {crates : Crates} {bytes : List UInt8} {sessionId : Str} {baseOffset : Nat}
    {cap : Option Nat} {c : TranscriptCandidate} (h : c ∈ selectCandidates crates bytes sessionId baseOffset cap) :
    c.sessionId = sessionId := by
  have hsorted := (prefix_keepEarliestFrom cap 0 _).subset h
  have hmatched := mem_of_mem_dedupStable ((StableSort.mem_sortBy _).mp hsorted)
  obtain ⟨b, -, hb⟩ := List.mem_filterMap.mp hmatched
  dsimp only at hb
  split at hb
  · cases hb
  · cases hb
    rfl

theorem sessionId_of_mem_reconstruct {crates : Crates} {sessionId : Str} {obs : List ObservationRecord}
    {cap : Option Nat} {c : TranscriptCandidate} (h : c ∈ reconstructFromObservations crates sessionId obs cap) :
    c.sessionId = sessionId := by
  have hsorted := (prefix_keepEarliestFrom cap 0 _).subset h
  obtain ⟨o, -, rfl⟩ := List.mem_map.mp ((StableSort.mem_sortBy _).mp hsorted)
  rfl

variable {F : Type} [F64 F]

theorem sessionId_of_mem_sessionCandidates {crates : Crates} {cfg : RetentionConfig F}
    {observations : List ObservationRecord} {session : Str × TranscriptSnapshot} {c : TranscriptCandidate}
    (h : c ∈ (sessionCandidates crates cfg observations session).1) : c.sessionId = session.1 := by
  unfold sessionCandidates at h
  dsimp only at h
  split at h
  · exact sessionId_of_mem_reconstruct h
  · exact sessionId_of_mem_selectCandidates h

theorem sessionId_of_sessionLoss {crates : Crates} {cfg : RetentionConfig F} {observations : List ObservationRecord}
    {session : Str × TranscriptSnapshot} {row : SessionLossInfo}
    (h : sessionLoss crates cfg observations session = some row) : row.sessionId = session.1 := by
  unfold sessionLoss at h
  dsimp only at h
  split at h
  · cases h
    rfl
  · cases h

theorem countDropped_pos_iff (crates : Crates) (snap : TranscriptSnapshot) (sessionId : Str) (cap : Nat) :
    0 < countDroppedBySessionCap crates snap sessionId cap ↔
      cap < totalLen (selectCandidates crates snap.bytes sessionId snap.baseOffset none) := by
  unfold countDroppedBySessionCap
  rw [selectCandidates_some]
  generalize selectCandidates crates snap.bytes sessionId snap.baseOffset none = all
  have hinit := prefix_keepEarliestFrom (some cap) 0 all
  rw [Nat.sub_pos_iff_lt, ← not_iff_not, Nat.not_lt, Nat.not_lt]
  constructor
  · intro hlen
    have hfits := sum_keepEarliest_le (Nat.zero_le cap) all
    rwa [hinit.eq_of_length_le hlen, Nat.zero_add] at hfits
  · intro hfits
    rw [keepEarliest_eq_self (by rwa [Nat.zero_add])]

/-! ## Retrievals -/

/-- A retrieval from sessions with distinct ids, in a scope whose bounds are resolved. -/
structure Retrieval (F : Type) where
  crates : Crates
  snapshots : List (Str × TranscriptSnapshot)
  observations : List ObservationRecord
  cfg : RetentionConfig F
  scope : TranscriptScope
  resolvedBounds : Option ResolvedBounds
  ids_nodup : (snapshots.map Prod.fst).Nodup
  purge : cfg.transcriptRetention = .purgeOnCycleClose
  resolved : (scope.anchor.isSome || scope.phase.isSome) = true → resolvedBounds.isSome = true

namespace Retrieval

variable (r : Retrieval F)

def answer : Option TranscriptCandidatesSection :=
  retrieveScopedCandidates r.crates r.snapshots r.observations r.cfg (some r.scope) r.resolvedBounds

/-- The candidates that are returned. -/
def candidates : List TranscriptCandidate := (r.answer.map TranscriptCandidatesSection.candidates).getD []

/-- The loss rows that are returned. -/
def loss : List SessionLossInfo := (r.answer.map TranscriptCandidatesSection.loss).getD []

def statuses : List SessionSearchStatus := deriveSearchStatus r.answer (some r.scope)

def ctx : ScopeCtx := buildScopeCtx r.crates r.scope r.resolvedBounds

def fallsBack (session : Str × TranscriptSnapshot) : Bool :=
  fallbackTriggered session.2 r.cfg.transcriptFallbackHoleFraction

/-- The uncapped selection of a session. -/
def uncapped (session : Str × TranscriptSnapshot) : List TranscriptCandidate :=
  selectCandidates r.crates session.2.bytes session.1 session.2.baseOffset none

/-- A candidate of the uncapped selection of a session is in scope, at its position in byte order. -/
def InScope (session : Str × TranscriptSnapshot) (c : TranscriptCandidate) : Prop :=
  ∃ i, InScopeAt r.ctx (StableSort.sortBy TranscriptCandidate.byteOffset (r.uncapped session)) i c

/-- The retrieval with the sessions in another order. -/
def reorder {snapshots : List (Str × TranscriptSnapshot)} (h : snapshots.Perm r.snapshots) : Retrieval F where
  crates := r.crates
  snapshots := snapshots
  observations := r.observations
  cfg := r.cfg
  scope := r.scope
  resolvedBounds := r.resolvedBounds
  ids_nodup := (h.map Prod.fst).nodup_iff.mpr r.ids_nodup
  purge := r.purge
  resolved := r.resolved

/-- What a retrieval has to do. -/
structure Honest : Prop where
  noSilentDrop : ∀ session ∈ r.snapshots, r.fallsBack session = false → ∀ c, r.InScope session c →
    c ∉ r.candidates → ∃ row ∈ r.loss, row.sessionId = session.1
  complete : ∀ status ∈ r.statuses, status.searchComplete = true → ∀ session ∈ r.snapshots,
    session.1 = status.sessionId → r.fallsBack session = false ∧ ∀ c, r.InScope session c → c ∈ r.candidates
  withinCap : totalLen r.candidates ≤ r.cfg.transcriptCandidateCycleCapBytes
  orderFree : ∀ (snapshots : List (Str × TranscriptSnapshot)) (h : snapshots.Perm r.snapshots),
    (r.reorder h).candidates = r.candidates ∧ (r.reorder h).statuses = r.statuses

/-- What is wanted of the candidates that a session has, the capped selection or the observations. -/
noncomputable def wantedOf (session : Str × TranscriptSnapshot) : List TranscriptCandidate :=
  wanted r.ctx (sessionCandidates r.crates r.cfg r.observations session).1

/-- One of them does not fit the cycle cap with all that are wanted and are not later. -/
def BeyondCycleCap (session : Str × TranscriptSnapshot) : Prop :=
  ∃ c ∈ r.wantedOf session, r.cfg.transcriptCandidateCycleCapBytes <
    totalLen ((r.snapshots.flatMap r.wantedOf).filter fun d => chronological d ≤ chronological c)

/-- There is no reason to report a session. -/
structure Unreported (session : Str × TranscriptSnapshot) : Prop where
  primary : r.fallsBack session = false
  noHoles : session.2.holes = []
  fits : totalLen (r.uncapped session) ≤ r.cfg.transcriptCandidateSessionCapBytes
  early : ¬ r.BeyondCycleCap session

/-- The candidates before the cycle cap. -/
def ordered : List TranscriptCandidate := orderedCandidates r.crates r.cfg r.observations r.ctx r.snapshots

/-- The candidates that fit the cycle cap. -/
def kept : List TranscriptCandidate := keepEarliestFrom (some r.cfg.transcriptCandidateCycleCapBytes) 0 r.ordered

/-- The rows before those of the cycle cap. -/
def sessionRows : List SessionLossInfo := r.snapshots.filterMap (sessionLoss r.crates r.cfg r.observations)

/-- How many candidates each session loses to the cycle cap. -/
def dropped : List (Str × Nat) := ((r.ordered.drop r.kept.length).map TranscriptCandidate.sessionId).foldl tally []

theorem answer_eq : r.answer =
    if r.kept.isEmpty && (mergeCycleDropsIntoLoss r.sessionRows r.dropped).isEmpty then none
    else some ⟨r.kept, mergeCycleDropsIntoLoss r.sessionRows r.dropped⟩ := by
  have hresolved : ((r.scope.anchor.isSome || r.scope.phase.isSome) && r.resolvedBounds.isNone) = false := by
    cases h : r.resolvedBounds with
    | some bounds => simp
    | none =>
      have := r.resolved
      rw [h] at this
      simpa using this
  unfold answer retrieveScopedCandidates
  dsimp only
  rw [hresolved, if_neg Bool.false_ne_true, r.purge]
  rfl

theorem candidates_eq : r.candidates = r.kept := by
  unfold candidates
  rw [answer_eq]
  split
  · rename_i hnone
    rw [Bool.and_eq_true, List.isEmpty_iff] at hnone
    exact hnone.1.symm
  · rfl

theorem loss_eq : r.loss = mergeCycleDropsIntoLoss r.sessionRows r.dropped := by
  unfold loss
  rw [answer_eq]
  split
  · rename_i hnone
    rw [Bool.and_eq_true, List.isEmpty_iff, List.isEmpty_iff] at hnone
    exact hnone.2.symm
  · rfl

/-! ### Sessions of a retrieval -/

omit [F64 F] in
theorem eq_of_sessionId {session session' : Str × TranscriptSnapshot} (hs : session ∈ r.snapshots)
    (hs' : session' ∈ r.snapshots) (hid : session.1 = session'.1) : session = session' :=
  List.inj_on_of_nodup_map r.ids_nodup hs hs' hid

theorem mem_sessionKept_iff {session : Str × TranscriptSnapshot} {c : TranscriptCandidate} :
    c ∈ sessionKept r.crates r.cfg r.observations r.ctx session ↔ c ∈ r.wantedOf session :=
  (applyScopeFilter_perm _ _).mem_iff

theorem sessionId_of_mem_wantedOf {session : Str × TranscriptSnapshot} {c : TranscriptCandidate}
    (h : c ∈ r.wantedOf session) : c.sessionId = session.1 := by
  obtain ⟨i, hi⟩ := mem_wanted.mp h
  have hc : c ∈ (sessionCandidates r.crates r.cfg r.observations session).1 :=
    (StableSort.mem_sortBy TranscriptCandidate.byteOffset).mp (List.mem_iff_getElem?.mpr ⟨i, hi.1.1⟩)
  exact sessionId_of_mem_sessionCandidates hc

theorem ordered_perm : r.ordered.Perm (r.snapshots.flatMap r.wantedOf) :=
  (StableSort.sortBy_perm chronological _).trans
    (List.Perm.flatMap_left _ fun _ _ => applyScopeFilter_perm _ _)

theorem mem_ordered_iff {session : Str × TranscriptSnapshot} (hs : session ∈ r.snapshots) {c : TranscriptCandidate} :
    c ∈ r.ordered ∧ c.sessionId = session.1 ↔ c ∈ r.wantedOf session := by
  rw [r.ordered_perm.mem_iff, List.mem_flatMap]
  constructor
  · rintro ⟨⟨session', hs', hc⟩, hid⟩
    rwa [r.eq_of_sessionId hs hs' (hid.symm.trans (r.sessionId_of_mem_wantedOf hc))]
  · exact fun hc => ⟨⟨session, hs, hc⟩, r.sessionId_of_mem_wantedOf hc⟩

/-- The sessions that lose a candidate to the cycle cap. -/
theorem mem_dropped_iff {session : Str × TranscriptSnapshot} (hs : session ∈ r.snapshots) :
    session.1 ∈ r.dropped.map Prod.fst ↔ r.BeyondCycleCap session := by
  have hsorted : r.ordered.Pairwise fun a b => chronological a ≤ chronological b :=
    StableSort.sortBy_pairwise chronological _
  have htotal : ∀ c, totalLen (r.ordered.filter fun d => chronological d ≤ chronological c) =
      totalLen ((r.snapshots.flatMap r.wantedOf).filter fun d => chronological d ≤ chronological c) :=
    fun c => totalLen_perm (r.ordered_perm.filter _)
  unfold dropped BeyondCycleCap
  rw [mem_keys_tallies, List.mem_map]
  refine (exists_dropped_iff hsorted _ session.1).trans ?_
  simp only [← and_assoc, r.mem_ordered_iff hs, htotal]

/-- A session that does not lose one has all that is wanted of it returned. -/
theorem mem_candidates_of_wantedOf {session : Str × TranscriptSnapshot} (hs : session ∈ r.snapshots)
    (hearly : ¬ r.BeyondCycleCap session) {c : TranscriptCandidate} (hc : c ∈ r.wantedOf session) :
    c ∈ r.candidates := by
  obtain ⟨hordered, hid⟩ := (r.mem_ordered_iff hs).mpr hc
  obtain ⟨rest, hrest⟩ := prefix_keepEarliestFrom (some r.cfg.transcriptCandidateCycleCapBytes) 0 r.ordered
  rw [candidates_eq]
  have hdrop : r.ordered.drop r.kept.length = rest := by
    rw [← hrest]
    exact List.drop_left
  rw [← hrest] at hordered
  refine (List.mem_append.mp hordered).resolve_right fun hlost => hearly ((r.mem_dropped_iff hs).mp ?_)
  unfold dropped
  rw [mem_keys_tallies, hdrop]
  exact List.mem_map.mpr ⟨c, hlost, hid⟩

theorem sessionLoss_isSome_iff (session : Str × TranscriptSnapshot) :
    (sessionLoss r.crates r.cfg r.observations session).isSome = true ↔
      ¬ (r.fallsBack session = false ∧ session.2.holes = [] ∧
        totalLen (r.uncapped session) ≤ r.cfg.transcriptCandidateSessionCapBytes) := by
  have hfallback : fallbackTriggered session.2 r.cfg.transcriptFallbackHoleFraction = r.fallsBack session := rfl
  unfold sessionLoss sessionCandidates
  dsimp only
  rw [hfallback]
  cases hfalls : r.fallsBack session with
  | true => simp
  | false =>
    have helided : session.2.elidedBytes = 0 := by
      unfold fallsBack fallbackTriggered at hfalls
      split at hfalls
      · cases hfalls
      · split at hfalls
        · cases hfalls
        · omega
    have hdropped := countDropped_pos_iff r.crates session.2 session.1 r.cfg.transcriptCandidateSessionCapBytes
    rw [if_neg Bool.false_ne_true]
    dsimp only
    unfold uncapped
    split
    · rename_i hlost
      simp only [hdropped, helided, Nat.lt_irrefl, reduceCtorEq, false_or, Bool.not_eq_true',
        List.isEmpty_eq_false_iff] at hlost
      simp only [Option.isSome_some, true_and, true_iff, not_and_or, Nat.not_le]
      exact hlost
    · rename_i hlost
      simp only [hdropped, helided, Nat.lt_irrefl, reduceCtorEq, false_or, Bool.not_eq_true',
        List.isEmpty_eq_false_iff] at hlost
      simp only [Option.isSome_none, true_and, Bool.false_eq_true, false_iff, not_not, ← Nat.not_lt]
      exact (not_or.mp hlost).imp_left not_not.mp

/-- **Which sessions have a loss row.** -/
theorem exists_loss_iff {session : Str × TranscriptSnapshot} (hs : session ∈ r.snapshots) :
    (∃ row ∈ r.loss, row.sessionId = session.1) ↔ ¬ r.Unreported session := by
  have hrow : (∃ row ∈ r.loss, row.sessionId = session.1) ↔
      (r.loss.find? fun l => l.sessionId = session.1).isSome = true := by
    rw [List.find?_isSome]
    simp only [decide_eq_true_iff]
  have hsession : (r.sessionRows.find? fun l => l.sessionId = session.1).isSome = true ↔
      (sessionLoss r.crates r.cfg r.observations session).isSome = true := by
    rw [List.find?_isSome]
    constructor
    · rintro ⟨row, hrow, hid⟩
      obtain ⟨session', hs', hloss⟩ := List.mem_filterMap.mp hrow
      have : session' = session := r.eq_of_sessionId hs' hs ?_
      · rw [← this, hloss]
        rfl
      · rw [← of_decide_eq_true hid]
        exact (sessionId_of_sessionLoss hloss).symm
    · intro hloss
      obtain ⟨row, hrow⟩ := Option.isSome_iff_exists.mp hloss
      exact ⟨row, List.mem_filterMap.mpr ⟨session, hs, hrow⟩, decide_eq_true (sessionId_of_sessionLoss hrow)⟩
  rw [hrow, loss_eq, exists_row_mergeCycleDrops, hsession, r.mem_dropped_iff hs, sessionLoss_isSome_iff]
  constructor
  · rintro (hlost | hlost) hun
    · exact hlost ⟨hun.primary, hun.noHoles, hun.fits⟩
    · exact hun.early hlost
  · intro hun
    by_contra hno
    obtain ⟨hlost, hearly⟩ := not_or.mp hno
    obtain ⟨hprimary, hholes, hfits⟩ := not_not.mp hlost
    exact hun ⟨hprimary, hholes, hfits, hearly⟩

/-- What is returned of a session without a loss row. -/
theorem mem_candidates_iff {session : Str × TranscriptSnapshot} (hs : session ∈ r.snapshots)
    (hun : r.Unreported session) {c : TranscriptCandidate} (hc : r.InScope session c) :
    c ∈ r.candidates ↔ ¬ (r.ctx.hasTimeBounds = true ∧ Malformed c) := by
  have hall : (sessionCandidates r.crates r.cfg r.observations session).1 = r.uncapped session := by
    have hprimary : fallbackTriggered session.2 r.cfg.transcriptFallbackHoleFraction = false := hun.primary
    unfold sessionCandidates
    dsimp only
    rw [hprimary, if_neg Bool.false_ne_true]
    dsimp only
    rw [selectCandidates_some]
    exact keepEarliest_eq_self (by rw [Nat.zero_add]; exact hun.fits)
  have hwanted : c ∈ r.wantedOf session ↔ ¬ (r.ctx.hasTimeBounds = true ∧ Malformed c) := by
    unfold wantedOf
    rw [mem_wanted, hall]
    obtain ⟨i, hi⟩ := hc
    constructor
    · rintro ⟨j, -, hgood⟩
      exact hgood
    · exact fun hgood => ⟨i, hi, hgood⟩
  rw [← hwanted]
  constructor
  · intro hkept
    rw [candidates_eq] at hkept
    refine (r.mem_ordered_iff hs).mp ⟨(prefix_keepEarliestFrom _ _ _).subset hkept, ?_⟩
    obtain ⟨i, hi⟩ := hc
    exact sessionId_of_mem_selectCandidates ((StableSort.mem_sortBy _).mp (List.mem_iff_getElem?.mpr ⟨i, hi.1⟩))
  · exact r.mem_candidates_of_wantedOf hs hun.early

/-! ### Order of the sessions -/

omit [F64 F] in
/-- What is of one session is in one part. -/
theorem pairwise_filter_eq_nil {β : Type} {f : Str × TranscriptSnapshot → List β} {p : β → Bool} (sid : Str)
    (h : ∀ session, ∀ b ∈ f session, p b = true → session.1 = sid) :
    r.snapshots.Pairwise fun s t => (f s).filter p = [] ∨ (f t).filter p = [] := by
  refine (List.pairwise_map.mp r.ids_nodup).imp fun {s t} hne => ?_
  by_contra hno
  obtain ⟨hs, ht⟩ := not_or.mp hno
  obtain ⟨b, hb⟩ := List.exists_mem_of_ne_nil _ hs
  obtain ⟨d, hd⟩ := List.exists_mem_of_ne_nil _ ht
  obtain ⟨hbs, hpb⟩ := List.mem_filter.mp hb
  obtain ⟨hdt, hpd⟩ := List.mem_filter.mp hd
  exact hne ((h s b hbs hpb).trans (h t d hdt hpd).symm)

variable {snapshots : List (Str × TranscriptSnapshot)} (h : snapshots.Perm r.snapshots)

theorem ordered_reorder : (r.reorder h).ordered = r.ordered := by
  refine StableSort.sortBy_eq_sortBy fun k => (StableSort.filter_flatMap_perm h.symm ?_).symm
  refine r.pairwise_filter_eq_nil (ofLex (ofLex k).2).1 fun session c hc hk => ?_
  obtain rfl : chronological c = k := by simpa using hk
  exact (r.sessionId_of_mem_wantedOf (r.mem_sessionKept_iff.mp hc)).symm

theorem find?_sessionRows_reorder (sid : Str) :
    (r.reorder h).sessionRows.find? (fun l => l.sessionId = sid) =
      r.sessionRows.find? fun l => l.sessionId = sid := by
  have hparts : ∀ snapshots : List (Str × TranscriptSnapshot),
      snapshots.filterMap (sessionLoss r.crates r.cfg r.observations) =
        snapshots.flatMap fun session => (sessionLoss r.crates r.cfg r.observations session).toList :=
    fun _ => List.filterMap_eq_flatMap_toList _ _
  unfold sessionRows reorder
  dsimp only
  rw [← List.head?_filter, ← List.head?_filter, hparts, hparts]
  refine congrArg _ (StableSort.filter_flatMap_perm h.symm ?_).symm
  refine r.pairwise_filter_eq_nil sid fun session row hrow hid => ?_
  rw [← of_decide_eq_true hid]
  exact (sessionId_of_sessionLoss (Option.mem_toList.mp hrow)).symm

theorem candidates_reorder : (r.reorder h).candidates = r.candidates := by
  rw [candidates_eq, candidates_eq]
  unfold kept
  rw [ordered_reorder]
  rfl

theorem find?_loss_reorder (sid : Str) :
    (r.reorder h).loss.find? (fun l => l.sessionId = sid) = r.loss.find? fun l => l.sessionId = sid := by
  have hdropped : (r.reorder h).dropped = r.dropped := by
    unfold dropped
    rw [← candidates_eq, ← candidates_eq, candidates_reorder, ordered_reorder]
  rw [loss_eq, loss_eq, hdropped]
  exact find?_mergeCycleDrops (r.find?_sessionRows_reorder h) _ sid

/-- The statuses are those of the two lists, also if there is no section. -/
theorem statuses_eq : r.statuses = deriveSearchStatus (some ⟨r.candidates, r.loss⟩) (some r.scope) := by
  unfold statuses
  rw [candidates_eq, loss_eq, answer_eq]
  split
  · rename_i hnone
    rw [Bool.and_eq_true, List.isEmpty_iff, List.isEmpty_iff] at hnone
    rw [hnone.1, hnone.2]
    simp [deriveSearchStatus]
  · rfl

theorem statuses_reorder : (r.reorder h).statuses = r.statuses := by
  have hids : ((r.reorder h).loss.map SessionLossInfo.sessionId).toFinset =
      (r.loss.map SessionLossInfo.sessionId).toFinset := by
    ext sid
    have hrow : ∀ loss : List SessionLossInfo, sid ∈ (loss.map SessionLossInfo.sessionId).toFinset ↔
        (loss.find? fun l => l.sessionId = sid).isSome = true := by
      intro loss
      rw [List.mem_toFinset, List.mem_map, List.find?_isSome]
      simp only [decide_eq_true_iff]
    rw [hrow, hrow, find?_loss_reorder]
  rw [statuses_eq, statuses_eq, candidates_reorder]
  unfold deriveSearchStatus
  dsimp only
  rw [hids]
  simp only [find?_loss_reorder]
  rfl

end Retrieval

/-! ## Honesty -/

/-- **When a retrieval is honest.** -/
theorem honest_iff (r : Retrieval F) :
    r.Honest ↔ ∀ session ∈ r.snapshots, r.Unreported session → ∀ c, r.InScope session c →
      ¬ (r.ctx.hasTimeBounds = true ∧ Malformed c) := by
  constructor
  · intro hhonest session hs hun c hc hbad
    have hlost : c ∉ r.candidates := fun hkept => (r.mem_candidates_iff hs hun hc).mp hkept hbad
    exact (r.exists_loss_iff hs).mp (hhonest.noSilentDrop session hs hun.primary c hc hlost) hun
  · intro hgood
    have hreturned : ∀ session ∈ r.snapshots, (¬ ∃ row ∈ r.loss, row.sessionId = session.1) →
        r.fallsBack session = false ∧ ∀ c, r.InScope session c → c ∈ r.candidates := by
      intro session hs hno
      have hun : r.Unreported session := not_not.mp fun hrep => hno ((r.exists_loss_iff hs).mpr hrep)
      exact ⟨hun.primary, fun c hc => (r.mem_candidates_iff hs hun hc).mpr (hgood session hs hun c hc)⟩
    refine ⟨fun session hs _ c hc hlost => ?_, fun status hstatus hcomplete session hs hid => ?_, ?_,
      fun snapshots h => ⟨r.candidates_reorder h, r.statuses_reorder h⟩⟩
    · by_contra hno
      exact hlost ((hreturned session hs hno).2 c hc)
    · refine hreturned session hs fun ⟨row, hrow, hsid⟩ => ?_
      rw [Retrieval.statuses_eq] at hstatus
      obtain ⟨sid, -, rfl⟩ := List.mem_map.mp hstatus
      have hfind := List.find?_eq_none.mp (Option.isNone_iff_eq_none.mp hcomplete) row hrow
      exact hfind (decide_eq_true (hsid.trans hid))
    · rw [Retrieval.candidates_eq]
      have := sum_keepEarliest_le (Nat.zero_le r.cfg.transcriptCandidateCycleCapBytes) r.ordered
      rwa [Nat.zero_add] at this

/-- What other crates do with the text `decided`. -/
def decidedOnly : Crates where
  inRange _ := true
  decision text := text = "decided".toList
  rework _ := false
  lesson _ := false
  phasegate _ := false
  hashText _ := 0
  toLowercase := id
  display _ := []
  compileBoundedRegex _ := none

/-- A line of a transcript. -/
def userLine (ts : String) : List Char :=
  ("\x7b\"type\":\"user\",\"message\":\x7b\"content\":\"decided\"\x7d,\"timestamp\":\"" ++ ts ++ "\"\x7d\n").toList

/-- A session with a block in the phase, and one after it whose timestamp does not parse. -/
def twoBlocks : Str × TranscriptSnapshot :=
  (['s'], ⟨(userLine "1970-01-01T00:00:01Z" ++ userLine "?").map byte, 0, 147, 0, []⟩)

/-- Its first candidate. -/
def dated : TranscriptCandidate := ⟨['s'], 0, some "1970-01-01T00:00:01Z".toList, [.decision], "decided".toList⟩

/-- Its second candidate. -/
def malformed : TranscriptCandidate := ⟨['s'], 83, some ['?'], [.decision], "decided".toList⟩

/-- A search for a phase, of the first five seconds. -/
def malformedNearby : Retrieval Rat where
  crates := decidedOnly
  snapshots := [twoBlocks]
  observations := []
  cfg := ⟨.purgeOnCycleClose, 1000, 1000, 1 / 2⟩
  scope := ⟨some ['p'], none, none, none⟩
  resolvedBounds := some ⟨.phase, 0, 5000⟩
  ids_nodup := by decide
  purge := rfl
  resolved := by decide

/-- **A candidate is lost without a loss row.** -/
theorem malformed_lost : ¬ malformedNearby.Honest := by
  intro hhonest
  have horder : StableSort.sortBy TranscriptCandidate.byteOffset (malformedNearby.uncapped twoBlocks) =
      [dated, malformed] := by decide +kernel
  have hmatches : ∀ c, Matches malformedNearby.ctx c := fun _ _ h => by cases h
  have hdated : Timed malformedNearby.ctx dated := by
    refine ⟨⟨1000, by decide +kernel, ?_, ?_⟩, hmatches _⟩
    · rintro b hb
      cases hb
      decide
    · rintro b hb
      cases hb
  have hscope : malformedNearby.InScope twoBlocks malformed := by
    refine ⟨1, ?_, hmatches _, .inr (.inr ⟨by decide +kernel, ?_⟩)⟩
    · rw [horder]
      rfl
    · rw [horder]
      exact ⟨⟨0, dated, rfl, hdated, by decide⟩, 0, dated, rfl, hdated, by decide⟩
  have hlost : malformed ∉ malformedNearby.candidates := by decide +kernel
  have hnorow : malformedNearby.loss = [] := by decide +kernel
  obtain ⟨row, hrow, -⟩ := hhonest.noSilentDrop twoBlocks List.mem_cons_self (by decide +kernel) malformed
    hscope hlost
  rw [hnorow] at hrow
  cases hrow

end Unimatrix.Distill
