import Unimatrix.Lib.F64
import Unimatrix.Lib.HashMap
import Unimatrix.Lib.Runs
import Unimatrix.Lib.Watermark
import Unimatrix.Observe.Attribution
import Unimatrix.Store.Schema

/-!
# Extraction ticks

Model of `extraction_tick` with `fetch_observation_batch` and `quality_gate`: the ticks that turn observations into entries.

* A `Tick` is what a call meets: the rules, the hour at each check of the rate, whether the embedding service is ready and
  whether the task on the pool completes. The rules are any functions of the batch.
* Store calls succeed. `stored` is what was inserted. Between two ticks observations may be added.
* The scores are no NaN. Shadow evaluations and the recommendations of a tick are not modelled.

A tick that returns before step 6 keeps the watermark, and its batch is fetched again. A tick with accepted proposals for
which the embedding service is not ready does reach it, and stores none of them.

**`losesNothing_iff`**: a run stores all that no check rejected exactly if the service is ready in every tick that has
accepted proposals (`Ready`).
-/

namespace Unimatrix.Extraction

open Json
open Attribution (ObservationRecord)

/-! ## Observations -/

/-- A row of `observations`: the columns that are read. -/
structure ObservationRow where
  id : Nat
  tsMillis : Int64
  hook : List Char
  sessionId : List Char
  tool : Option (List Char)
  input : Option (List Char)
  responseSize : Option Int64
  responseSnippet : Option (List Char)
  deriving DecidableEq

/-- The `observations` table. Ids are assigned from 1 on. -/
structure ObservationLog where
  rows : List ObservationRow
  ordered : rows.Pairwise fun a b => a.id < b.id
  positive : ∀ row ∈ rows, 0 < row.id

/-- What other crates do: `serde_json::from_str`, and a number with two decimals. -/
structure Crates (F : Type) where
  fromStr : List Char → Option Value
  twoDecimals : F → String

/-- `EXTRACTION_BATCH_SIZE`. -/
def extractionBatchSize : Nat := 1000

/-- The event types of the built-in domain packs. -/
def builtinPacks : List (String × List String) :=
  [("claude-code", ["PreToolUse", "PostToolUse", "SubagentStart", "SubagentStop"]),
    ("opencode", ["__opencode_pack_sentinel__"])]

/-- `resolve_source_domain`; the packs have no event type in common. -/
def resolveSourceDomain (eventType : List Char) : String :=
  ((builtinPacks.find? fun pack => pack.2.any fun et => et.toList = eventType).map Prod.fst).getD "unknown"

/-- `DEFAULT_HOOK_SOURCE_DOMAIN`. -/
def defaultHookSourceDomain : String := "claude-code"

variable {F : Type} [F64 F] (crates : Crates F)

/-- The record of a row. -/
def toRecord (row : ObservationRow) : ObservationRecord where
  ts := row.tsMillis.toUInt64
  eventType := row.hook
  sourceDomain :=
    let resolved := resolveSourceDomain row.hook
    (if resolved ≠ "unknown" then resolved else defaultHookSourceDomain).toList
  sessionId := row.sessionId
  tool := row.tool
  input := row.input.bind fun s =>
    if row.hook = "SubagentStart".toList then some (.string (s.map .scalar)) else crates.fromStr s
  responseSize := row.responseSize.map Int64.toUInt64
  responseSnippet := row.responseSnippet
  modelId := none

/-- `fetch_observation_batch`: the rows of the batch, and the new watermark. -/
def fetchObservationBatch (log : ObservationLog) (watermark : Nat) : List ObservationRow × Nat :=
  let rows := Watermark.batch ObservationRow.id extractionBatchSize watermark log.rows
  (rows, Watermark.highest ObservationRow.id watermark rows)

/-! ## The quality gate -/

/-- `ProposedEntry`. -/
structure ProposedEntry (F : Type) where
  title : String
  content : String
  category : String
  topic : String
  tags : List String
  sourceRule : String
  sourceFeatures : List String
  extractionConfidence : F

/-- `ExtractionStats`. -/
structure ExtractionStats where
  entriesExtractedTotal : Nat
  entriesRejectedTotal : Nat
  lastExtractionRun : Option Nat
  rulesFired : HashMap String Nat

/-- `ExtractionContext`. -/
structure ExtractionContext where
  lastWatermark : Nat
  rateCount : Nat
  rateHour : Nat
  stats : ExtractionStats

/-- `ExtractionContext::new`, at an hour. -/
def ExtractionContext.new (hour : Nat) : ExtractionContext := ⟨0, 0, hour, ⟨0, 0, none, ∅⟩⟩

/-- `check_and_increment_rate`, at an hour. -/
def ExtractionContext.checkAndIncrementRate (ctx : ExtractionContext) (currentHour : Nat) : ExtractionContext × Bool :=
  let ctx := if currentHour ≠ ctx.rateHour then { ctx with rateCount := 0, rateHour := currentHour } else ctx
  if 10 ≤ ctx.rateCount then (ctx, false) else ({ ctx with rateCount := ctx.rateCount + 1 }, true)

/-- A proposal was rejected. -/
def ExtractionContext.reject (ctx : ExtractionContext) (n : Nat) : ExtractionContext :=
  { ctx with stats := { ctx.stats with entriesRejectedTotal := ctx.stats.entriesRejectedTotal + n } }

/-- `QualityGateResult`. -/
inductive QualityGateResult where
  | accept
  | reject (reason checkName : String)

/-- `ALLOWED_CATEGORIES`. -/
def allowedCategories : List String := ["convention", "pattern", "lesson-learned", "gap", "decision"]

/-- `min_features_for_rule`. -/
def minFeaturesForRule (ruleName : String) : Nat := if ruleName = "knowledge-gap" then 2 else 3

/-- Checks 2 to 4. -/
def checkContent (entry : ProposedEntry F) : QualityGateResult :=
  let minFeatures := minFeaturesForRule entry.sourceRule
  if entry.title.utf8ByteSize < 10 then
    .reject ("Title too short (" ++ toString entry.title.utf8ByteSize ++ " chars, min 10)") "content_validation"
  else if entry.content.utf8ByteSize < 20 then
    .reject ("Content too short (" ++ toString entry.content.utf8ByteSize ++ " chars, min 20)") "content_validation"
  else if entry.category ∉ allowedCategories then
    .reject ("Category '" ++ entry.category ++ "' not in allowlist") "content_validation"
  else if entry.sourceFeatures.length < minFeatures then
    .reject ("Insufficient features: need " ++ toString minFeatures ++ ", got " ++
      toString entry.sourceFeatures.length ++ " for rule '" ++ entry.sourceRule ++ "'") "cross_feature"
  else if entry.extractionConfidence < 0.2 then
    .reject ("Confidence " ++ crates.twoDecimals entry.extractionConfidence ++ " below 0.2 floor") "confidence_floor"
  else .accept

/-- `quality_gate`, at an hour. -/
def qualityGate (entry : ProposedEntry F) (ctx : ExtractionContext) (currentHour : Nat) :
    ExtractionContext × QualityGateResult :=
  let (ctx, allowed) := ctx.checkAndIncrementRate currentHour
  if allowed then (ctx, checkContent crates entry)
  else (ctx, .reject "Rate limit exceeded (10/hour)" "rate_limit")

/-- Step 3: the proposals that are accepted; the hour may change from one to the next. -/
def gate (hour : Nat → Nat) : Nat → List (ProposedEntry F) → ExtractionContext → List (ProposedEntry F) × ExtractionContext
  | _, [], ctx => ([], ctx)
  | k, proposal :: proposals, ctx =>
    match qualityGate crates proposal ctx (hour k) with
    | (ctx, .accept) =>
      let (accepted, ctx) := gate hour (k + 1) proposals ctx
      (proposal :: accepted, ctx)
    | (ctx, .reject _ _) => gate hour (k + 1) proposals (ctx.reject 1)

/-! ## The tick -/

/-- `EnhancerMode`. -/
inductive EnhancerMode where
  | shadow
  | active
  deriving DecidableEq

/-- `SignalCategory`. -/
inductive SignalCategory where
  | convention
  | pattern
  | gap
  | dead
  | noise
  deriving DecidableEq

/-- `NeuralEnhancer`, with the category and the confidence that it predicts. -/
structure NeuralEnhancer (F : Type) where
  mode : EnhancerMode
  enhance : ProposedEntry F → SignalCategory × F

/-- The adapter, the vector index and the contradiction check, as they answer during a tick. -/
structure Adapter (F : Type) where
  /-- `embed_entry`. -/
  embedEntry : String → String → Option (List F)
  /-- The similarities that `search` returns. -/
  search : List F → Option (List F)
  /-- `check_entry_contradiction` returns `Ok(Some(_))`. -/
  checkEntryContradiction : String → String → Bool

/-- What a call of `extraction_tick` meets. -/
structure Tick (F : Type) where
  /-- `run_extraction_rules`, if the task is not cancelled. -/
  rules : Option (List ObservationRecord → List (ProposedEntry F))
  hour : Nat → Nat
  neuralEnhancer : Option (NeuralEnhancer F)
  hasEvaluator : Bool
  /-- `get_adapter`. -/
  adapter : Option (Adapter F)
  /-- The task on the pool is not cancelled. -/
  poolCompletes : Bool
  now : Nat

/-- Where a tick returns. -/
inductive Exit where
  | noObservations
  | joinError
  | cancelled
  | completed
  deriving DecidableEq

/-- What the ticks change. -/
structure System where
  log : ObservationLog
  ctx : ExtractionContext
  stored : List NewEntry

/-- The proposal is suppressed as noise. -/
def NeuralEnhancer.suppresses (enhancer : NeuralEnhancer F) (entry : ProposedEntry F) : Bool :=
  enhancer.mode = .active ∧ (enhancer.enhance entry).1 = .noise ∧ 0.8 < (enhancer.enhance entry).2

/-- Step 3.5. -/
def enhance (t : Tick F) (accepted : List (ProposedEntry F)) (ctx : ExtractionContext) :
    List (ProposedEntry F) × ExtractionContext :=
  match t.neuralEnhancer, t.hasEvaluator with
  | some enhancer, true =>
    (accepted.filter fun entry => !enhancer.suppresses entry, ctx.reject (accepted.countP enhancer.suppresses))
  | _, _ => (accepted, ctx)

/-- Checks 5 and 6. -/
def Adapter.passes (adapter : Adapter F) (entry : ProposedEntry F) : Bool :=
  match adapter.embedEntry entry.title entry.content with
  | none => true
  | some embedding =>
    match adapter.search embedding with
    | none => true
    | some neighbors =>
      if ∃ similarity ∈ neighbors.head?, 0.92 ≤ similarity then false
      else !adapter.checkEntryContradiction entry.content entry.title

/-- `new_entry`. -/
def newEntry (t : Tick F) (entry : ProposedEntry F) : NewEntry where
  title := entry.title
  content := entry.content
  topic := entry.topic
  category := entry.category
  tags := ["auto-extracted", "rule:" ++ entry.sourceRule, "source-features:" ++ ",".intercalate entry.sourceFeatures]
  source := "auto"
  status := .active
  createdBy := "background-tick"
  featureCycle := ""
  trustSource := if ∃ enhancer ∈ t.neuralEnhancer, enhancer.mode = .active then "neural" else "auto"

/-- Step 5, for one entry. -/
def storeEntry (t : Tick F) (s : System) (entry : ProposedEntry F) : System :=
  let stats := s.ctx.stats
  { s with
    ctx := { s.ctx with stats := { stats with
      entriesExtractedTotal := stats.entriesExtractedTotal + 1
      rulesFired := stats.rulesFired.insert entry.sourceRule ((stats.rulesFired.lookup entry.sourceRule).getD 0 + 1) } }
    stored := s.stored ++ [newEntry t entry] }

/-- Steps 1 to 3.5: what is accepted, unless the tick returns before. -/
def checked (s : System) (t : Tick F) : Except Exit (List (ProposedEntry F) × ExtractionContext) :=
  let observations := (fetchObservationBatch s.log s.ctx.lastWatermark).1
  if observations.isEmpty then .error .noObservations
  else
    match t.rules with
    | none => .error .joinError
    | some rules =>
      let (accepted, ctx) := gate crates t.hour 0 (rules (observations.map (toRecord crates))) s.ctx
      .ok (enhance t accepted ctx)

/-- Step 6. -/
def updateWatermark (s : System) (t : Tick F) (newWatermark : Nat) : System × Exit :=
  ({ s with ctx := { s.ctx with
      lastWatermark := newWatermark, stats := { s.ctx.stats with lastExtractionRun := some t.now } } }, .completed)

/-- `extraction_tick`: the system, and where the tick returned. -/
def extractionTick (s : System) (t : Tick F) : System × Exit :=
  let newWatermark := (fetchObservationBatch s.log s.ctx.lastWatermark).2
  match checked crates s t with
  | .error exit => (s, exit)
  | .ok (accepted, ctx) =>
    if accepted.isEmpty then updateWatermark { s with ctx } t newWatermark
    else
      match t.adapter with
      | none => updateWatermark { s with ctx } t newWatermark
      | some adapter =>
        if t.poolCompletes then
          updateWatermark ((accepted.filter adapter.passes).foldl (storeEntry t) { s with ctx }) t newWatermark
        else ({ s with ctx }, .cancelled)

/-! ## Runs -/

/-- The last id that was assigned. -/
def ObservationLog.lastId (log : ObservationLog) : Nat := (log.rows.getLast?.map ObservationRow.id).getD 0

theorem ObservationLog.le_lastId {log : ObservationLog} {row : ObservationRow} (h : row ∈ log.rows) :
    row.id ≤ log.lastId := by
  unfold lastId
  obtain ⟨init, last, heq⟩ := (List.eq_nil_or_concat' log.rows).resolve_left (List.ne_nil_of_mem h)
  have hordered := log.ordered
  rw [heq] at h hordered ⊢
  rw [List.getLast?_concat]
  rcases List.mem_append.mp h with h | h
  · exact ((List.pairwise_append.mp hordered).2.2 row h last (List.mem_singleton_self last)).le
  · rw [List.mem_singleton.mp h]
    exact le_rfl

/-- An observation is recorded, under a new id. -/
def ObservationLog.add (log : ObservationLog) (gap : Nat) (row : ObservationRow) : ObservationLog where
  rows := log.rows ++ [{ row with id := log.lastId + 1 + gap }]
  ordered := by
    refine List.pairwise_append.mpr ⟨log.ordered, List.pairwise_singleton _ _, fun a ha b hb => ?_⟩
    rw [List.mem_singleton.mp hb]
    have := log.le_lastId ha
    dsimp only
    omega
  positive row' h := by
    rcases List.mem_append.mp h with h | h
    · exact log.positive row' h
    · rw [List.mem_singleton.mp h]
      dsimp only
      omega

/-- What happens next. -/
inductive Event (F : Type) where
  | observe (gap : Nat) (row : ObservationRow)
  | tick (t : Tick F)

/-- One event. -/
def step (s : System) : Event F → System
  | .observe gap row => { s with log := s.log.add gap row }
  | .tick t => (extractionTick crates s t).1

/-- The server starts, at an hour. -/
def start (log : ObservationLog) (hour : Nat) : System := ⟨log, .new hour, []⟩

/-- A run from the start of the server on. -/
def run (log : ObservationLog) (hour : Nat) (events : List (Event F)) : System :=
  events.foldl (step crates) (start log hour)

/-- The proposals of a tick that no check rejected, as they are to be stored. -/
def unrejected (s : System) (t : Tick F) : List NewEntry :=
  match checked crates s t with
  | .error _ => []
  | .ok (accepted, _) => (accepted.filter fun entry => t.adapter.all fun adapter => adapter.passes entry).map (newEntry t)

/-- What a tick did. -/
structure TickRecord where
  exit : Exit
  batch : List ObservationRow
  unrejected : List NewEntry
  before : Nat
  after : Nat

/-- The record of a tick. -/
def record (s : System) (t : Tick F) : TickRecord where
  exit := (extractionTick crates s t).2
  batch := (fetchObservationBatch s.log s.ctx.lastWatermark).1
  unrejected := unrejected crates s t
  before := s.ctx.lastWatermark
  after := (extractionTick crates s t).1.ctx.lastWatermark

/-- The records of the ticks of a run. -/
def trace : System → List (Event F) → List TickRecord
  | _, [] => []
  | s, .observe gap row :: events => trace (step crates s (.observe gap row)) events
  | s, .tick t :: events => record crates s t :: trace (step crates s (.tick t)) events

/-- The ticks that completed their batch. -/
def completed (records : List TickRecord) : List TickRecord := records.filter fun r => r.exit = .completed

/-- Every observation up to the watermark is in exactly one batch that completed, a tick that was abandoned keeps the
watermark, and what no check rejected is stored, once each. -/
structure LosesNothing (log : ObservationLog) (hour : Nat) (events : List (Event F)) : Prop where
  once : ∀ row ∈ (run crates log hour events).log.rows,
    ((completed (trace crates (start log hour) events)).map TickRecord.batch).countP (fun batch => row ∈ batch) =
      if row.id ≤ (run crates log hour events).ctx.lastWatermark then 1 else 0
  held : ∀ r ∈ trace crates (start log hour) events, r.exit ≠ .completed → r.after = r.before
  stored : (run crates log hour events).stored =
    (completed (trace crates (start log hour) events)).flatMap TickRecord.unrejected

/-- The embedding service is ready if there is something to embed. -/
def Ready (s : System) : Event F → Prop
  | .observe _ _ => True
  | .tick t => ∀ accepted ctx, checked crates s t = .ok (accepted, ctx) → accepted ≠ [] → t.adapter.isSome

/-! ## One tick -/

theorem qualityGate_lastWatermark (entry : ProposedEntry F) (ctx : ExtractionContext) (currentHour : Nat) :
    (qualityGate crates entry ctx currentHour).1.lastWatermark = ctx.lastWatermark := by
  unfold qualityGate ExtractionContext.checkAndIncrementRate
  dsimp only
  split_ifs <;> rfl

theorem gate_lastWatermark (hour : Nat → Nat) (k : Nat) (proposals : List (ProposedEntry F)) (ctx : ExtractionContext) :
    (gate crates hour k proposals ctx).2.lastWatermark = ctx.lastWatermark := by
  induction proposals generalizing k ctx with
  | nil => rfl
  | cons proposal proposals ih =>
    have hgate := qualityGate_lastWatermark crates proposal ctx (hour k)
    unfold gate
    split
    · rename_i heq
      rw [heq] at hgate
      exact (ih _ _).trans hgate
    · rename_i heq
      rw [heq] at hgate
      exact (ih _ _).trans hgate

theorem enhance_lastWatermark (t : Tick F) (accepted : List (ProposedEntry F)) (ctx : ExtractionContext) :
    (enhance t accepted ctx).2.lastWatermark = ctx.lastWatermark := by
  unfold enhance
  split <;> rfl

/-- The checks keep the watermark, and where the tick returns before they are done it has not completed. -/
theorem checked_spec (s : System) (t : Tick F) :
    (∃ exit, exit ≠ .completed ∧ checked crates s t = .error exit) ∨
      ∃ accepted ctx, ctx.lastWatermark = s.ctx.lastWatermark ∧ checked crates s t = .ok (accepted, ctx) := by
  unfold checked
  dsimp only
  split
  · exact .inl ⟨.noObservations, by decide, rfl⟩
  · split
    · exact .inl ⟨.joinError, by decide, rfl⟩
    · exact .inr ⟨_, _, (enhance_lastWatermark _ _ _).trans (gate_lastWatermark _ _ _ _ _), rfl⟩

omit [F64 F] in
theorem foldl_storeEntry (t : Tick F) (entries : List (ProposedEntry F)) (s : System) :
    (entries.foldl (storeEntry t) s).log = s.log ∧
      (entries.foldl (storeEntry t) s).stored = s.stored ++ entries.map (newEntry t) := by
  induction entries generalizing s with
  | nil => exact ⟨rfl, (List.append_nil _).symm⟩
  | cons entry entries ih =>
    obtain ⟨hlog, hstored⟩ := ih (storeEntry t s entry)
    rw [List.foldl_cons]
    refine ⟨hlog, hstored.trans ?_⟩
    rw [List.map_cons]
    exact List.append_assoc _ _ _

/-- What a tick may do: keep everything, complete its batch, or complete it without what was to be stored. -/
inductive Ticked (crates : Crates F) (s : System) (t : Tick F) : System → Exit → Prop where
  | held {s' exit} (hexit : exit ≠ .completed) (hlog : s'.log = s.log) (hstored : s'.stored = s.stored)
      (hwatermark : s'.ctx.lastWatermark = s.ctx.lastWatermark) (hready : Ready crates s (.tick t)) : Ticked crates s t s' exit
  | done {s'} (hlog : s'.log = s.log) (hstored : s'.stored = s.stored ++ unrejected crates s t)
      (hwatermark : s'.ctx.lastWatermark = (fetchObservationBatch s.log s.ctx.lastWatermark).2)
      (hready : Ready crates s (.tick t)) : Ticked crates s t s' .completed
  | lost {s'} (hlog : s'.log = s.log) (hstored : s'.stored = s.stored) (hunrejected : unrejected crates s t ≠ [])
      (hwatermark : s'.ctx.lastWatermark = (fetchObservationBatch s.log s.ctx.lastWatermark).2)
      (hready : ¬ Ready crates s (.tick t)) : Ticked crates s t s' .completed

/-- A tick that completes keeps the log, and goes on to the end of its batch. -/
theorem Ticked.completes {crates : Crates F} {s s' : System} {t : Tick F} {exit : Exit}
    (h : Ticked crates s t s' exit) (hexit : exit = .completed) :
    s'.log = s.log ∧ s'.ctx.lastWatermark = (fetchObservationBatch s.log s.ctx.lastWatermark).2 := by
  cases h with
  | held hne => exact absurd hexit hne
  | done hlog _ hwatermark => exact ⟨hlog, hwatermark⟩
  | lost hlog _ _ hwatermark => exact ⟨hlog, hwatermark⟩

/-- Another keeps both. -/
theorem Ticked.abandons {crates : Crates F} {s s' : System} {t : Tick F} {exit : Exit}
    (h : Ticked crates s t s' exit) (hexit : exit ≠ .completed) : s'.log = s.log ∧ s'.ctx.lastWatermark = s.ctx.lastWatermark := by
  cases h with
  | held _ hlog _ hwatermark => exact ⟨hlog, hwatermark⟩
  | done => exact absurd rfl hexit
  | lost => exact absurd rfl hexit

/-- **Every tick does one of the three.** -/
theorem ticked (s : System) (t : Tick F) :
    Ticked crates s t (extractionTick crates s t).1 (extractionTick crates s t).2 := by
  rcases checked_spec crates s t with ⟨exit, hexit, hchecked⟩ | ⟨accepted, ctx, hctx, hchecked⟩
  · have hready : Ready crates s (.tick t) := fun accepted ctx h => by
      rw [hchecked] at h
      cases h
    have heq : extractionTick crates s t = (s, exit) := by
      unfold extractionTick
      rw [hchecked]
    rw [heq]
    exact .held hexit rfl rfl rfl hready
  · have hunrejected : unrejected crates s t =
        (accepted.filter fun entry => t.adapter.all fun adapter => adapter.passes entry).map (newEntry t) := by
      unfold unrejected
      rw [hchecked]
    have hready : Ready crates s (.tick t) ↔ (accepted ≠ [] → t.adapter.isSome) := by
      refine ⟨fun h => h accepted ctx hchecked, fun h accepted' ctx' h' => ?_⟩
      rw [hchecked] at h'
      cases h'
      exact h
    unfold extractionTick
    rw [hchecked]
    dsimp only
    split
    · rename_i hempty
      rw [List.isEmpty_iff.mp hempty] at hunrejected hready
      exact .done rfl (by rw [hunrejected]; exact (List.append_nil _).symm) rfl (hready.mpr fun h => absurd rfl h)
    · rename_i hsome
      have hne : accepted ≠ [] := fun h => hsome (List.isEmpty_iff.mpr h)
      split
      · rename_i hadapter
        -- the accepted proposals are dropped
        refine .lost rfl rfl ?_ rfl fun h => ?_
        · rw [hunrejected, hadapter]
          simpa using hne
        · have := hready.mp h hne
          rw [hadapter] at this
          cases this
      · rename_i adapter hadapter
        have hisSome : Ready crates s (.tick t) := hready.mpr fun _ => by rw [hadapter]; rfl
        split
        · obtain ⟨hlog, hstored⟩ := foldl_storeEntry t (accepted.filter adapter.passes) { s with ctx }
          refine .done hlog (hstored.trans ?_) rfl hisSome
          rw [hunrejected, hadapter]
          rfl
        · exact .held (fun h => by cases h) rfl rfl hctx hisSome

/-! ## Every run -/

theorem trace_append (s : System) (events more : List (Event F)) :
    trace crates s (events ++ more) = trace crates s events ++ trace crates (events.foldl (step crates) s) more := by
  induction events generalizing s with
  | nil => rfl
  | cons e events ih =>
    cases e with
    | observe gap row => exact ih _
    | tick t =>
      rw [List.cons_append, trace, trace, List.cons_append, ih]
      rfl

theorem completed_cons (r : TickRecord) (records : List TickRecord) :
    completed (r :: records) = if r.exit = .completed then r :: completed records else completed records := by
  simp only [completed, List.filter_cons, decide_eq_true_eq]

theorem completed_append (records more : List TickRecord) :
    completed (records ++ more) = completed records ++ completed more := List.filter_append records more

/-- What the completed batches cover, a tick extends. -/
theorem ticked_covered (s : System) (t : Tick F) {batches : List (List ObservationRow)}
    (h : Watermark.Covered ObservationRow.id s.log.rows batches s.ctx.lastWatermark) :
    Watermark.Covered ObservationRow.id (extractionTick crates s t).1.log.rows
      (batches ++ (completed [record crates s t]).map TickRecord.batch) (extractionTick crates s t).1.ctx.lastWatermark := by
  have hticked := ticked crates s t
  by_cases hexit : (extractionTick crates s t).2 = .completed
  · have hrecord : completed [record crates s t] = [record crates s t] := (completed_cons _ []).trans (if_pos hexit)
    obtain ⟨hlog, hwatermark⟩ := hticked.completes hexit
    rw [hrecord, hlog, hwatermark]
    exact h.next s.log.ordered extractionBatchSize
  · have hrecord : completed [record crates s t] = [] := (completed_cons _ []).trans (if_neg hexit)
    obtain ⟨hlog, hwatermark⟩ := hticked.abandons hexit
    rw [hrecord, List.map_nil, List.append_nil, hlog, hwatermark]
    exact h

/-- **The batches that completed cover the log up to the watermark**, in every run. -/
theorem run_covered (log : ObservationLog) (hour : Nat) (events : List (Event F)) :
    Watermark.Covered ObservationRow.id (run crates log hour events).log.rows
      ((completed (trace crates (start log hour) events)).map TickRecord.batch)
      (run crates log hour events).ctx.lastWatermark := by
  induction events using List.reverseRecOn with
  | nil => exact Watermark.covered_start log.positive
  | append_singleton events e ih =>
    have hrun : run crates log hour (events ++ [e]) = step crates (run crates log hour events) e :=
      List.foldl_concat ..
    rw [hrun, trace_append, completed_append, List.map_append]
    cases e with
    | observe gap row =>
      have hnone : (completed (trace crates (run crates log hour events) [.observe gap row])).map TickRecord.batch = [] := rfl
      rw [show events.foldl (step crates) (start log hour) = run crates log hour events from rfl, hnone, List.append_nil]
      refine ih.append (Nat.succ_pos _ |>.trans_le (Nat.le_add_right _ _)) fun row' h => ?_
      have := ObservationLog.le_lastId h
      dsimp only
      omega
    | tick t => exact ticked_covered crates _ t ih

/-- **A tick that was abandoned keeps the watermark.** -/
theorem trace_held (s : System) (events : List (Event F)) :
    ∀ r ∈ trace crates s events, r.exit ≠ .completed → r.after = r.before := by
  induction events generalizing s with
  | nil => exact fun r hr => absurd hr List.not_mem_nil
  | cons e events ih =>
    cases e with
    | observe gap row => exact ih _
    | tick t =>
      intro r hr hexit
      rcases List.mem_cons.mp hr with rfl | hr
      · exact ((ticked crates s t).abandons hexit).2
      · exact ih _ r hr hexit

/-- What the ticks that completed had to store. -/
def owed (s : System) (events : List (Event F)) : List NewEntry :=
  (completed (trace crates s events)).flatMap TickRecord.unrejected

/-- A tick that keeps everything owes nothing; another owes what was not rejected. -/
theorem owed_tick (s : System) (t : Tick F) (events : List (Event F)) :
    owed crates s (.tick t :: events) =
      (if (extractionTick crates s t).2 = .completed then unrejected crates s t else []) ++
        owed crates (step crates s (.tick t)) events := by
  unfold owed
  rw [trace, completed_cons]
  by_cases hexit : (extractionTick crates s t).2 = .completed
  · have hrecord : (record crates s t).exit = .completed := hexit
    rw [if_pos hrecord, if_pos hexit, List.flatMap_cons]
    rfl
  · have hrecord : (record crates s t).exit ≠ .completed := hexit
    rw [if_neg hrecord, if_neg hexit, List.nil_append]

/-- **What a run stores**: never more than it owes, and all of it exactly if the service is ready whenever it must be. -/
theorem stored_spec (s : System) (events : List (Event F)) :
    ∃ added, (events.foldl (step crates) s).stored = s.stored ++ added ∧ added.length ≤ (owed crates s events).length ∧
      (added = owed crates s events ↔ Runs.Throughout (step crates) (Ready crates) s events) := by
  induction events generalizing s with
  | nil => exact ⟨[], (List.append_nil _).symm, le_rfl, iff_of_true rfl trivial⟩
  | cons e events ih =>
    obtain ⟨added, hstored, hle, hiff⟩ := ih (step crates s e)
    rw [List.foldl_cons, hstored]
    cases e with
    | observe gap row => exact ⟨added, rfl, hle, hiff.trans (and_iff_right trivial).symm⟩
    | tick t =>
      have hticked := ticked crates s t
      have howed := owed_tick crates s t events
      rw [howed]
      change Ticked crates s t (step crates s (.tick t)) _ at hticked
      generalize (extractionTick crates s t).2 = exit at hticked
      cases hticked with
      | held hexit _ hsame _ hready =>
        rw [if_neg hexit, List.nil_append, hsame]
        exact ⟨added, rfl, hle, hiff.trans (and_iff_right hready).symm⟩
      | done _ hadded _ hready =>
        rw [if_pos rfl, hadded, List.append_assoc]
        refine ⟨_, rfl, ?_, (List.append_right_inj _).trans (hiff.trans (and_iff_right hready).symm)⟩
        rw [List.length_append, List.length_append]
        exact Nat.add_le_add_left hle _
      | lost _ hsame hunrejected _ hready =>
        rw [if_pos rfl, hsame]
        have hpos := List.length_pos_iff.mpr hunrejected
        refine ⟨added, rfl, ?_, iff_of_false (fun heq => ?_) fun h => hready h.1⟩
        · rw [List.length_append]
          omega
        · have := congrArg List.length heq
          rw [List.length_append] at this
          omega

/-- **Extraction loses nothing, exactly if the embedding service is ready in every tick that has something to embed.** -/
theorem losesNothing_iff (log : ObservationLog) (hour : Nat) (events : List (Event F)) :
    LosesNothing crates log hour events ↔ Runs.Throughout (step crates) (Ready crates) (start log hour) events := by
  obtain ⟨added, hstored, -, hiff⟩ := stored_spec crates (start log hour) events
  have hstored : (run crates log hour events).stored = added := hstored
  rw [← hiff]
  refine ⟨fun h => hstored.symm.trans h.stored, fun h => ⟨?_, trace_held crates _ _, hstored.trans h⟩⟩
  exact (run_covered crates log hour events).once

/-- Two sessions search for the same and find nothing, and the embedding service is still loading when the tick runs: the
proposal that `KnowledgeGapRule` makes of them is accepted, and gone. -/
theorem loading_drops :
    ¬ ∀ (crates : Crates Rat) (log : ObservationLog) (hour : Nat) (events : List (Event Rat)),
      LosesNothing crates log hour events := by
  let query := "\x7b\"query\":\"retry policy\"\x7d".toList
  let search (id : Nat) (session : String) : ObservationRow :=
    ⟨id, 1700000000000, "PostToolUse".toList, session.toList, some "mcp__unimatrix__context_search".toList, some query,
      some 0, none⟩
  let log : ObservationLog := ⟨[search 1 "s1", search 2 "s2"], by simp [search], by simp [search]⟩
  let gap : ProposedEntry Rat :=
    ⟨"Knowledge gap: retry policy",
      "Agents searched for 'retry policy' across 2 sessions with no results. This topic may need explicit documentation.",
      "gap", "knowledge-management", ["auto-extracted", "knowledge-gap"], "knowledge-gap", ["s1", "s2"], 3 / 5⟩
  let loading : Tick Rat := ⟨some fun _ => [gap], fun _ => 0, none, false, none, true, 0⟩
  let crates : Crates Rat :=
    ⟨fun s => if s = query then some (.object [(("query".toList).map .scalar, .string (("retry policy".toList).map .scalar))])
      else none, fun _ => "0.60"⟩
  intro h
  have hstored := (h crates log 0 [.tick loading]).stored
  have hnone : (run crates log 0 [.tick loading]).stored.length = 0 := by decide +kernel
  have howed : (owed crates (start log 0) [.tick loading]).length = 1 := by decide +kernel
  have hlength : (run crates log 0 [.tick loading]).stored.length = (owed crates (start log 0) [.tick loading]).length :=
    congrArg List.length hstored
  omega

end Unimatrix.Extraction
