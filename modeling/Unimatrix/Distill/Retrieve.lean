import Mathlib.Data.Finset.Sort
import Unimatrix.Distill.Select
import Unimatrix.Lib.F64
import Unimatrix.Transcript.Buffer

/-!
# Scoped retrieval of candidates

Model of `mcp/distill_handler.rs` up to `merge_cycle_drops_into_loss`, and of `scope_predicate` and `derive_search_status` of
`mcp/distill_scope.rs` with what they use.

* The snapshots are what `take_transcripts_for_feature` returns. The reviewing session's id is not used by the code.
* `u64` sums: an instant is an `u64`, so a window's saturated end is as good as the end itself, and the holes of a snapshot are
  disjoint parts of its span.
* A `BTreeSet` of strings is iterated in their order.
-/

namespace Unimatrix.Distill

/-! ## The scope -/

/-- `Window`. -/
structure Window where
  millis : Option Nat
  blocks : Option Nat
  deriving DecidableEq, Repr

/-- `DEFAULT_WINDOW_MILLIS`. -/
def defaultWindowMillis : Nat := 120000

/-- `DEFAULT_WINDOW_BLOCKS`. -/
def defaultWindowBlocks : Nat := 3

/-- `Window::effective`. -/
def Window.effective (w : Option Window) : Nat × Nat :=
  ((w.bind Window.millis).getD defaultWindowMillis, (w.bind Window.blocks).getD defaultWindowBlocks)

/-- `TranscriptScope`; `pattern` is its `match`. -/
structure TranscriptScope where
  phase : Option Str
  anchor : Option Str
  pattern : Option Str
  window : Option Window
  deriving DecidableEq, Repr

/-- `BoundsKind`. -/
inductive BoundsKind where
  | anchor
  | phase
  deriving DecidableEq, Repr

/-- `ResolvedBounds`. -/
structure ResolvedBounds where
  kind : BoundsKind
  loEpochMs : Nat
  hiEpochMs : Nat
  deriving DecidableEq, Repr

/-- `ScopeCtx`. -/
structure ScopeCtx where
  compiled : Option (Str → Bool)
  anchorBounds : Option (Nat × Nat)
  phaseBounds : Option (Nat × Nat)
  window : Option Window

/-- `ts_within_window`. -/
def tsWithinWindow (bounds : Nat × Nat) (millis cMs : Nat) : Bool :=
  decide (bounds.1 - millis ≤ cMs) && decide (cMs ≤ bounds.2 + millis)

/-- `phase_contains_ts`. -/
def phaseContainsTs (bounds : Nat × Nat) (cMs : Nat) : Bool := decide (bounds.1 ≤ cMs) && decide (cMs ≤ bounds.2)

/-- `block_within`. -/
def blockWithin (idx loIdx hiIdx blocks : Nat) : Bool := decide (loIdx - blocks ≤ idx) && decide (idx ≤ hiIdx + blocks)

/-- A time bound of `scope_predicate`, if there is one. -/
def withinBound (bounds : Option (Nat × Nat)) (contains : Nat × Nat → Nat → Bool) (cMs : Option Nat)
    (includeTsNone : Bool) : Bool :=
  match bounds with
  | none => true
  | some bounds =>
    match cMs with
    | some ms => contains bounds ms
    | none => includeTsNone

/-- `scope_predicate`. -/
def scopePredicate (candidate : TranscriptCandidate) (ctx : ScopeCtx) (includeTsNone : Bool) : Bool :=
  let cMs := candidateEpochMs candidate.ts
  withinBound ctx.phaseBounds phaseContainsTs cMs includeTsNone &&
    withinBound ctx.anchorBounds (fun bounds => tsWithinWindow bounds (Window.effective ctx.window).1) cMs
      includeTsNone &&
    !(ctx.compiled.any fun re => !re candidate.text)

/-- `build_scope_ctx`. -/
def buildScopeCtx (crates : Crates) (scope : TranscriptScope) (resolvedBounds : Option ResolvedBounds) : ScopeCtx where
  compiled := scope.pattern.bind crates.compileBoundedRegex
  anchorBounds := resolvedBounds.bind fun rb =>
    if rb.kind = .anchor then some (rb.loEpochMs, rb.hiEpochMs) else none
  phaseBounds := resolvedBounds.bind fun rb =>
    if rb.kind = .phase then some (rb.loEpochMs, rb.hiEpochMs) else none
  window := scope.window

/-- `has_time_bounds`. -/
def ScopeCtx.hasTimeBounds (ctx : ScopeCtx) : Bool := ctx.anchorBounds.isSome || ctx.phaseBounds.isSome

/-- The range with one more position. -/
def widen (acc : Option (Nat × Nat)) (i : Nat) : Option (Nat × Nat) :=
  match acc with
  | none => some (i, i)
  | some (lo, hi) => some (min lo i, max hi i)

/-- The positions of the in-window candidates with a timestamp: the first and the last. -/
def timedRange (ctx : ScopeCtx) (indexed : List TranscriptCandidate) : Option (Nat × Nat) :=
  ((indexed.zipIdx.filter fun e => e.1.ts.isSome && scopePredicate e.1 ctx false).map Prod.snd).foldl widen none

/-- The last filter of `apply_scope_filter`, at a position. -/
def keptAt (ctx : ScopeCtx) (range : Option (Nat × Nat)) (blockIdx : Nat) (c : TranscriptCandidate) : Bool :=
  if c.ts.isSome then scopePredicate c ctx false
  else
    match range with
    | some (lo, hi) => blockWithin blockIdx lo hi (Window.effective ctx.window).2 && scopePredicate c ctx true
    | none => false

/-- `apply_scope_filter`. -/
def applyScopeFilter (candidates : List TranscriptCandidate) (ctx : ScopeCtx) : List TranscriptCandidate :=
  if !ctx.hasTimeBounds then candidates.filter fun c => scopePredicate c ctx true
  else
    let indexed := StableSort.sortBy TranscriptCandidate.byteOffset candidates
    let range := timedRange ctx indexed
    (indexed.zipIdx.filter fun e => keptAt ctx range e.2 e.1).map Prod.fst

/-! ## Sessions -/

/-- `TranscriptRetention`. -/
inductive TranscriptRetention where
  | purgeOnCycleClose
  | retainDays (days : Nat)
  deriving DecidableEq, Repr

/-- `RetentionConfig`: what is read of it. -/
structure RetentionConfig (F : Type) where
  transcriptRetention : TranscriptRetention
  transcriptCandidateSessionCapBytes : Nat
  transcriptCandidateCycleCapBytes : Nat
  transcriptFallbackHoleFraction : F

/-- `CandidateProvenance`. -/
inductive CandidateProvenance where
  | primary
  | reconstructed
  deriving DecidableEq, Repr

/-- `SessionLossInfo`. -/
structure SessionLossInfo where
  sessionId : Str
  elidedBytes : Nat
  hasHoles : Bool
  provenance : CandidateProvenance
  droppedCandidates : Nat
  deriving DecidableEq, Repr

/-- `TranscriptCandidatesSection`. -/
structure TranscriptCandidatesSection where
  candidates : List TranscriptCandidate
  loss : List SessionLossInfo
  deriving DecidableEq, Repr

section Handler

variable {F : Type} [F64 F]

/-- `fallback_triggered`. -/
def fallbackTriggered (snap : TranscriptSnapshot) (holeFractionThreshold : F) : Bool :=
  if snap.bytes.isEmpty then true
  else if 0 < snap.elidedBytes then true
  else
    let span : Nat := snap.highWater - snap.baseOffset
    if span = 0 then false
    else
      let holeBytes : Nat := (snap.holes.map fun h => h.2 - h.1).sum
      decide (holeFractionThreshold < Nat.cast holeBytes / Nat.cast span)

/-- `count_dropped_by_session_cap`. -/
def countDroppedBySessionCap (crates : Crates) (snap : TranscriptSnapshot) (sessionId : Str) (sessionCap : Nat) : Nat :=
  (selectCandidates crates snap.bytes sessionId snap.baseOffset none).length -
    (selectCandidates crates snap.bytes sessionId snap.baseOffset (some sessionCap)).length

/-- The candidates of a session, where they come from, and how many the session cap dropped. -/
def sessionCandidates (crates : Crates) (cfg : RetentionConfig F) (observations : List ObservationRecord)
    (session : Str × TranscriptSnapshot) : List TranscriptCandidate × CandidateProvenance × Nat :=
  let cap := cfg.transcriptCandidateSessionCapBytes
  if fallbackTriggered session.2 cfg.transcriptFallbackHoleFraction then
    (reconstructFromObservations crates session.1 observations (some cap), .reconstructed, 0)
  else
    (selectCandidates crates session.2.bytes session.1 session.2.baseOffset (some cap), .primary,
      countDroppedBySessionCap crates session.2 session.1 cap)

/-- What a session adds to `all_candidates`. -/
def sessionKept (crates : Crates) (cfg : RetentionConfig F) (observations : List ObservationRecord) (ctx : ScopeCtx)
    (session : Str × TranscriptSnapshot) : List TranscriptCandidate :=
  applyScopeFilter (sessionCandidates crates cfg observations session).1 ctx

/-- What a session adds to `loss`. -/
def sessionLoss (crates : Crates) (cfg : RetentionConfig F) (observations : List ObservationRecord)
    (session : Str × TranscriptSnapshot) : Option SessionLossInfo :=
  let (_, provenance, dropped) := sessionCandidates crates cfg observations session
  let hasHoles := !session.2.holes.isEmpty
  if 0 < session.2.elidedBytes ∨ hasHoles = true ∨ provenance = .reconstructed ∨ 0 < dropped then
    some ⟨session.1, session.2.elidedBytes, hasHoles, provenance, dropped⟩
  else none

/-! ## The cycle -/

/-- One more dropped candidate of a session. -/
def tally (dropped : List (Str × Nat)) (sessionId : Str) : List (Str × Nat) :=
  match dropped with
  | [] => [(sessionId, 1)]
  | (sid, n) :: dropped => if sid = sessionId then (sid, n + 1) :: dropped else (sid, n) :: tally dropped sessionId

/-- `keep_earliest_within_cycle`: the candidates that are kept, and how many each session lost. -/
def keepEarliestWithinCycle (candidates : List TranscriptCandidate) (cycleCap : Nat) :
    List TranscriptCandidate × List (Str × Nat) :=
  let kept := keepEarliestFrom (some cycleCap) 0 candidates
  (kept, ((candidates.drop kept.length).map TranscriptCandidate.sessionId).foldl tally [])

/-- The row of a session with `n` more dropped candidates. -/
def mergeCycleDrop (loss : List SessionLossInfo) (drop : Str × Nat) : List SessionLossInfo :=
  match loss with
  | [] => [⟨drop.1, 0, false, .primary, drop.2⟩]
  | row :: loss =>
    if row.sessionId = drop.1 then { row with droppedCandidates := row.droppedCandidates + drop.2 } :: loss
    else row :: mergeCycleDrop loss drop

/-- `merge_cycle_drops_into_loss`. -/
def mergeCycleDropsIntoLoss (loss : List SessionLossInfo) (dropped : List (Str × Nat)) : List SessionLossInfo :=
  dropped.foldl mergeCycleDrop loss

/-- `all_candidates`, in order, before the cycle cap. -/
def orderedCandidates (crates : Crates) (cfg : RetentionConfig F) (observations : List ObservationRecord)
    (ctx : ScopeCtx) (snapshots : List (Str × TranscriptSnapshot)) : List TranscriptCandidate :=
  StableSort.sortBy chronological (snapshots.flatMap (sessionKept crates cfg observations ctx))

/-- `retrieve_scoped_candidates`. -/
def retrieveScopedCandidates (crates : Crates) (snapshots : List (Str × TranscriptSnapshot))
    (observations : List ObservationRecord) (cfg : RetentionConfig F) (scope : Option TranscriptScope)
    (resolvedBounds : Option ResolvedBounds) : Option TranscriptCandidatesSection :=
  match scope with
  | none => none
  | some scope =>
    let wantsTimeScope := scope.anchor.isSome || scope.phase.isSome
    if wantsTimeScope && resolvedBounds.isNone then none
    else
      match cfg.transcriptRetention with
      | .retainDays _ => none
      | .purgeOnCycleClose =>
        let ctx := buildScopeCtx crates scope resolvedBounds
        let loss := snapshots.filterMap (sessionLoss crates cfg observations)
        let (candidates, dropped) := keepEarliestWithinCycle
          (orderedCandidates crates cfg observations ctx snapshots) cfg.transcriptCandidateCycleCapBytes
        let loss := mergeCycleDropsIntoLoss loss dropped
        if candidates.isEmpty && loss.isEmpty then none else some ⟨candidates, loss⟩

end Handler

/-! ## Search status -/

/-- `SessionSearchStatus`. -/
structure SessionSearchStatus where
  sessionId : Str
  matched : Option Bool
  searchComplete : Bool
  elidedBytes : Nat
  provenance : CandidateProvenance
  deriving DecidableEq, Repr

/-- `derive_search_status`; its second result is always `None`. -/
def deriveSearchStatus (sectionOpt : Option TranscriptCandidatesSection) (scope : Option TranscriptScope) :
    List SessionSearchStatus :=
  match sectionOpt, scope with
  | some sec, some scope =>
    let matchedSessions := (sec.candidates.map TranscriptCandidate.sessionId).toFinset
    let sessions := matchedSessions ∪ (sec.loss.map SessionLossInfo.sessionId).toFinset
    (sessions.sort (· ≤ ·)).map fun sid =>
      let lossrow := sec.loss.find? fun l => l.sessionId = sid
      { sessionId := sid
        matched := if scope.pattern.isSome then some (decide (sid ∈ matchedSessions)) else none
        searchComplete := lossrow.isNone
        elidedBytes := (lossrow.map SessionLossInfo.elidedBytes).getD 0
        provenance := (lossrow.map SessionLossInfo.provenance).getD .primary }
  | _, _ => []

end Unimatrix.Distill
