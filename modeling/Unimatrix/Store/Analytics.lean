import Unimatrix.Graph.Neighbors
import Unimatrix.Lib.KeyedWrites
import Unimatrix.Lib.Transaction

/-!
# Analytics writes

Model of `AnalyticsWrite`, `execute_analytics_write` and `commit_batch` of `analytics.rs`, over the tables they write
and the constraints `db.rs` puts on those.

* `Tables` holds the thirteen tables. A log is the list of its rows in the order of their ids (the ids themselves are
  left out); the other tables are keyed by what is unique in them.
* An `f64` is the pattern of its bits. SQLite stores a NaN as NULL, which no column here takes. An id is the same
  number as `u64` and as `i64`, but in `co_access`, whose check compares two of them after the cast (`asI64`).
* `now` is what `current_unix_seconds` returned to the event; the events of a batch come with their times.

`commitBatch` is one transaction (`Txn.transaction`), so that a failure anywhere leaves the tables as they were. What
the tables hold after a batch, and which batches go through, is in `Store/AnalyticsReplay.lean`.
-/

namespace Unimatrix.Analytics

/-! ## The tables -/

/-- `co_access`, but for its key. -/
structure CoAccessRow where
  count : Nat
  lastUpdated : Int
  deriving DecidableEq, Repr

/-- `sessions`, but for its key. -/
structure SessionRow where
  featureCycle : Option String
  agentRole : Option String
  startedAt : Int
  endedAt : Option Int
  status : Int
  compactionCount : Int
  outcome : Option String
  totalInjections : Int
  keywords : Option String
  deriving DecidableEq, Repr

/-- `injection_log`. -/
structure InjectionRow where
  sessionId : String
  entryId : Nat
  confidence : UInt64
  timestamp : Int
  deriving DecidableEq, Repr

/-- `query_log`. -/
structure QueryRow where
  sessionId : String
  queryText : String
  ts : Int
  resultCount : Int
  resultEntryIds : Option String
  similarityScores : Option String
  retrievalMode : Option String
  source : String
  phase : Option String
  deriving DecidableEq, Repr

/-- `signal_queue`. -/
structure SignalRow where
  sessionId : String
  createdAt : Int
  entryIds : String
  signalType : Int
  signalSource : Int
  deriving DecidableEq, Repr

/-- `observations`: the columns the drain task writes. -/
structure ObservationRow where
  sessionId : String
  tsMillis : Int
  hook : String
  tool : Option String
  input : Option String
  responseSize : Option Int
  responseSnippet : Option String
  topicSignal : Option String
  deriving DecidableEq, Repr

/-- `observation_metrics`, but for its key. -/
structure MetricsRow where
  computedAt : Int
  totalToolCalls : Int
  totalDurationSecs : Int
  sessionCount : Int
  searchMissRate : UInt64
  editBloatTotalKb : UInt64
  editBloatRatio : UInt64
  permissionFrictionEvents : Int
  bashForSearchCount : Int
  coldRestartEvents : Int
  coordinatorRespawnCount : Int
  parallelCallRate : UInt64
  contextLoadBeforeFirstWriteKb : UInt64
  totalContextLoadedKb : UInt64
  postCompletionWorkPct : UInt64
  followUpIssuesCreated : Int
  knowledgeEntriesStored : Int
  sleepWorkaroundCount : Int
  agentHotspotCount : Int
  frictionHotspotCount : Int
  sessionHotspotCount : Int
  scopeHotspotCount : Int
  domainMetricsJson : Option String
  deriving DecidableEq, Repr

/-- `shadow_evaluations`. -/
structure ShadowRow where
  timestamp : Int
  ruleName : String
  ruleCategory : String
  neuralCategory : String
  neuralConfidence : UInt64
  conventionScore : UInt64
  ruleAccepted : Int
  digest : Option (List UInt8)
  deriving DecidableEq, Repr

/-- `topic_deliveries`, but for its key. -/
structure TopicRow where
  createdAt : Int
  completedAt : Option Int
  status : String
  githubIssue : Option Int
  totalSessions : Int
  totalToolCalls : Int
  totalDurationSecs : Int
  phasesCompleted : Option String
  deriving DecidableEq, Repr

/-- `observation_phase_metrics`, but for its key. -/
structure PhaseRow where
  durationSecs : Int
  toolCallCount : Int
  deriving DecidableEq, Repr

/-- The tables the drain task writes. -/
structure Tables where
  coAccess : HashMap (Int × Int) CoAccessRow
  sessions : HashMap String SessionRow
  injectionLog : List InjectionRow
  queryLog : List QueryRow
  signalQueue : List SignalRow
  observations : List ObservationRow
  observationMetrics : HashMap String MetricsRow
  shadowEvaluations : List ShadowRow
  featureEntries : HashMap (String × Nat) (Option String)
  topicDeliveries : HashMap String TopicRow
  outcomeIndex : HashMap (String × Nat) Unit
  observationPhaseMetrics : HashMap (String × String) PhaseRow
  graphEdges : EdgeTable

/-- A database without rows. -/
def Tables.empty : Tables where
  coAccess := ∅
  sessions := ∅
  injectionLog := []
  queryLog := []
  signalQueue := []
  observations := []
  observationMetrics := ∅
  shadowEvaluations := []
  featureEntries := ∅
  topicDeliveries := ∅
  outcomeIndex := ∅
  observationPhaseMetrics := ∅
  graphEdges := ∅

/-! ## The events -/

/-- `AnalyticsWrite`. -/
inductive AnalyticsWrite where
  | coAccess (idA idB : Nat)
  | sessionUpdate (sessionId : String) (row : SessionRow)
  | injectionLog (row : InjectionRow)
  | queryLog (row : QueryRow)
  | signalQueue (row : SignalRow)
  | observation (row : ObservationRow)
  | observationMetric (featureCycle : String) (row : MetricsRow)
  | shadowEvaluation (row : ShadowRow)
  | featureEntry (featureId : String) (entryId : Nat) (phase : Option String)
  | topicDelivery (topic : String) (row : TopicRow)
  | outcomeIndex (featureCycle : String) (entryId : Nat)
  | observationPhaseMetric (featureCycle phaseName : String) (row : PhaseRow)
  | deleteObservationPhases (featureCycle : String)
  | graphEdge (sourceId targetId : Nat) (relationType : String) (weight : UInt32) (createdBy source : String)
      (bootstrapOnly : Bool)
  deriving DecidableEq, Repr

/-- `id as i64` of a `u64`. -/
def asI64 (id : Nat) : Int := if id < 2 ^ 63 then id else id - 2 ^ 64

/-- The key of a pair in `co_access`: the lesser id first, both cast. -/
def coAccessKey (idA idB : Nat) : Int × Int :=
  if idA ≤ idB then (asI64 idA, asI64 idB) else (asI64 idB, asI64 idA)

/-- `f64::is_nan` on the bits. -/
def isNan (bits : UInt64) : Bool :=
  (bits &&& 0x7FF0000000000000) == 0x7FF0000000000000 && (bits &&& 0x000FFFFFFFFFFFFF) != 0

/-- `f32::is_finite` on the bits. -/
def isFinite (bits : UInt32) : Bool := (bits &&& 0x7F800000) != 0x7F800000

/-- The columns of `observation_metrics` that hold an `f64`. -/
def MetricsRow.reals (row : MetricsRow) : List UInt64 :=
  [row.searchMissRate, row.editBloatTotalKb, row.editBloatRatio, row.parallelCallRate,
    row.contextLoadBeforeFirstWriteKb, row.totalContextLoadedKb, row.postCompletionWorkPct]

/-- The row, started when the one before it was. -/
def SessionRow.after (row : SessionRow) (old : Option SessionRow) : SessionRow :=
  { row with startedAt := old.elim row.startedAt SessionRow.startedAt }

/-- The row, created when the one before it was. -/
def TopicRow.after (row : TopicRow) (old : Option TopicRow) : TopicRow :=
  { row with createdAt := old.elim row.createdAt TopicRow.createdAt }

/-! ## Statements -/

/-- Why a statement or the transaction around it fails. -/
inductive DbError where
  | check
  | notNull
  | foreignKey
  | io
  deriving DecidableEq, Repr

/-- The constraint that refuses the statement of an event, if one does. A phase is an update where its row is there,
which the foreign key does not look at. -/
def refusal (t : Tables) : AnalyticsWrite → Option DbError
  | .coAccess idA idB => if (coAccessKey idA idB).1 < (coAccessKey idA idB).2 then none else some .check
  | .injectionLog row => if isNan row.confidence then some .notNull else none
  | .observationMetric _ row => if row.reals.any isNan then some .notNull else none
  | .shadowEvaluation row =>
    if isNan row.neuralConfidence || isNan row.conventionScore then some .notNull else none
  | .observationPhaseMetric featureCycle phaseName _ =>
    if (t.observationMetrics.lookup featureCycle).isSome ||
        (t.observationPhaseMetrics.lookup (featureCycle, phaseName)).isSome then none
    else some .foreignKey
  | _ => none

/-- What the statement of an event does to the tables. -/
def apply (now : Int) (t : Tables) : AnalyticsWrite → Tables
  | .coAccess idA idB =>
    { t with coAccess := t.coAccess.upsert (coAccessKey idA idB) fun row =>
        ⟨row.elim 1 fun r => r.count + 1, now⟩ }
  | .sessionUpdate sessionId row =>
    { t with sessions := t.sessions.upsert sessionId row.after }
  | .injectionLog row => { t with injectionLog := t.injectionLog ++ [row] }
  | .queryLog row => { t with queryLog := t.queryLog ++ [row] }
  | .signalQueue row => { t with signalQueue := t.signalQueue ++ [row] }
  | .observation row => { t with observations := t.observations ++ [row] }
  | .observationMetric featureCycle row =>
    { t with observationMetrics := t.observationMetrics.upsert featureCycle fun _ => row }
  | .shadowEvaluation row => { t with shadowEvaluations := t.shadowEvaluations ++ [row] }
  | .featureEntry featureId entryId phase =>
    { t with featureEntries := t.featureEntries.insertNew (featureId, entryId) phase }
  | .topicDelivery topic row =>
    { t with topicDeliveries := t.topicDeliveries.upsert topic row.after }
  | .outcomeIndex featureCycle entryId =>
    { t with outcomeIndex := t.outcomeIndex.insertNew (featureCycle, entryId) () }
  | .observationPhaseMetric featureCycle phaseName row =>
    { t with observationPhaseMetrics := t.observationPhaseMetrics.upsert (featureCycle, phaseName) fun _ => row }
  | .deleteObservationPhases featureCycle =>
    { t with observationPhaseMetrics := t.observationPhaseMetrics.retain fun k _ => !decide (k.1 = featureCycle) }
  | .graphEdge sourceId targetId relationType weight createdBy source bootstrapOnly =>
    let key : EdgeKey := ⟨sourceId, targetId, relationType⟩
    { t with graphEdges := t.graphEdges.insertNew key ⟨weight, now, createdBy, source, bootstrapOnly⟩ }

/-- An event whose weight is not finite is dropped without a statement. -/
def sends : AnalyticsWrite → Bool
  | .graphEdge _ _ _ weight _ _ _ => isFinite weight
  | _ => true

/-- The tables after an event, unless a constraint refuses it. -/
def write (t : Tables) (e : Int × AnalyticsWrite) : Except DbError Tables :=
  if sends e.2 then
    match refusal t e.2 with
    | some err => .error err
    | none => .ok (apply e.1 t e.2)
  else .ok t

/-- `execute_analytics_write`. -/
def executeAnalyticsWrite (e : Int × AnalyticsWrite) : Txn Tables DbError Unit :=
  if sends e.2 then Txn.statement fun t => (write t e).map fun t' => ((), t') else pure ()

/-- `commit_batch`: the tables afterwards, and whether the transaction was committed. `fault` says which of its
statements fails (the first is `BEGIN`, the last `COMMIT`). -/
def commitBatch (t : Tables) (batch : List (Int × AnalyticsWrite)) (fault : Option Nat) : Bool × Tables :=
  let r := Txn.transaction (batch.forM executeAnalyticsWrite) ⟨t, fault.map fun n => (n, .io)⟩
  (r.1.isOk, r.2.db)

end Unimatrix.Analytics
