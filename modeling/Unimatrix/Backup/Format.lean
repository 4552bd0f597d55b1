import Mathlib.Data.List.Sort
import Unimatrix.Lib.Tables

/-!
# The tables of a backup and their lines

Model of the tables `db.rs` creates for the eleven exported tables, of the per-table encoders of `export.rs`, of
`format.rs` and of the row inserters of `import/inserters.rs`.

* An INTEGER column is an `Int64`, a REAL column the bits of an `f64`. `graph_edges` is keyed by what is unique
  in it; its `id` is left out.
* A line of a file is a JSON object. serde and SQLite are taken at their word, but for numbers: `serde_json`
  need not read back every `f64` it writes, so what a written number is read as is a parameter (`ReadFloat`).

**`decode_exportRow`**: a written row is read as the row it was, but for the columns that are not written
(`restored`). **`restored_eq_iff`** says which rows come back as they were.
-/

namespace Unimatrix.Backup

/-! ## Tables -/

/-- The exported tables. -/
inductive Table where
  | counters
  | entries
  | entryTags
  | coAccess
  | featureEntries
  | outcomeIndex
  | agentRegistry
  | auditLog
  | graphEdges
  | observations
  | cycleEvents
  deriving DecidableEq, Repr

/-- The columns of `entries`, but for its `id`. -/
structure EntryColumns where
  title : String
  content : String
  topic : String
  category : String
  source : String
  status : Int64
  confidence : UInt64
  createdAt : Int64
  updatedAt : Int64
  lastAccessedAt : Int64
  accessCount : Int64
  supersedes : Option Int64
  supersededBy : Option Int64
  correctionCount : Int64
  embeddingDim : Int64
  createdBy : String
  modifiedBy : String
  contentHash : String
  previousHash : String
  version : Int64
  featureCycle : String
  trustSource : String
  helpfulCount : Int64
  unhelpfulCount : Int64
  preQuarantineStatus : Option Int64
  deriving DecidableEq, Repr

/-- The columns of `co_access`, but for the pair. -/
structure CoAccessColumns where
  count : Int64
  lastUpdated : Int64
  deriving DecidableEq, Repr

/-- The column of `feature_entries` outside its key. -/
structure FeatureColumns where
  phase : Option String
  deriving DecidableEq, Repr

/-- The columns of `agent_registry`, but for `agent_id`. -/
structure AgentColumns where
  trustLevel : Int64
  capabilities : String
  allowedTopics : Option String
  allowedCategories : Option String
  enrolledAt : Int64
  lastSeenAt : Int64
  active : Int64
  deriving DecidableEq, Repr

/-- The columns of `audit_log`, but for `event_id`. -/
structure AuditColumns where
  timestamp : Int64
  sessionId : String
  agentId : String
  operation : String
  targetIds : String
  outcome : Int64
  detail : String
  credentialType : String
  capabilityUsed : String
  agentAttribution : String
  metadata : String
  deriving DecidableEq, Repr

/-- The columns of `graph_edges`, but for `id` and the ends and the type. -/
structure GraphEdgeColumns where
  weight : UInt64
  createdAt : Int64
  createdBy : String
  source : String
  bootstrapOnly : Int64
  metadata : Option String
  deriving DecidableEq, Repr

/-- The columns of `observations`, but for `id`. -/
structure ObservationColumns where
  sessionId : String
  tsMillis : Int64
  hook : String
  tool : Option String
  input : Option String
  responseSize : Option Int64
  responseSnippet : Option String
  topicSignal : Option String
  phase : Option String
  topicSource : Option String
  sourceDomain : Option String
  modelId : Option String
  deriving DecidableEq, Repr

/-- The columns of `cycle_events`, but for `id`. -/
structure CycleEventColumns where
  cycleId : String
  seq : Int64
  eventType : String
  phase : Option String
  outcome : Option String
  nextPhase : Option String
  timestamp : Int64
  goal : Option String
  goalEmbedding : Option (List UInt8)
  deriving DecidableEq, Repr

namespace Table

/-- What a row is found by. -/
@[reducible] def Key : Table → Type
  | counters => String
  | entries => Int64
  | entryTags => Int64 × String
  | coAccess => Int64 × Int64
  | featureEntries => String × Int64
  | outcomeIndex => String × Int64
  | agentRegistry => String
  | auditLog => Int64
  | graphEdges => Int64 × Int64 × String
  | observations => Int64
  | cycleEvents => Int64

/-- The other columns. -/
@[reducible] def Columns : Table → Type
  | counters => Int64
  | entries => EntryColumns
  | entryTags => Unit
  | coAccess => CoAccessColumns
  | featureEntries => FeatureColumns
  | outcomeIndex => Unit
  | agentRegistry => AgentColumns
  | auditLog => AuditColumns
  | graphEdges => GraphEdgeColumns
  | observations => ObservationColumns
  | cycleEvents => CycleEventColumns

instance : (t : Table) → DecidableEq t.Key
  | counters => inferInstanceAs (DecidableEq String)
  | entries => inferInstanceAs (DecidableEq Int64)
  | entryTags => inferInstanceAs (DecidableEq (Int64 × String))
  | coAccess => inferInstanceAs (DecidableEq (Int64 × Int64))
  | featureEntries => inferInstanceAs (DecidableEq (String × Int64))
  | outcomeIndex => inferInstanceAs (DecidableEq (String × Int64))
  | agentRegistry => inferInstanceAs (DecidableEq String)
  | auditLog => inferInstanceAs (DecidableEq Int64)
  | graphEdges => inferInstanceAs (DecidableEq (Int64 × Int64 × String))
  | observations => inferInstanceAs (DecidableEq Int64)
  | cycleEvents => inferInstanceAs (DecidableEq Int64)

end Table

/-- A row of one of the tables. -/
abbrev Rec : Type := Tables.Rec Table.Key Table.Columns

/-- The exported tables of a database. -/
abbrev Db : Type := Tables.Db Table.Key Table.Columns

/-! ## JSON -/

/-- A JSON value. `big` is a `u64` above `i64::MAX`, `other` a list or an object. -/
inductive JsonValue where
  | null
  | bool (b : Bool)
  | int (n : Int64)
  | big (n : UInt64)
  | float (bits : UInt64)
  | string (s : String)
  | other
  deriving DecidableEq, Repr

/-- A JSON object, in the order it is written. -/
abbrev JsonObject : Type := List (String × JsonValue)

/-- `nullable_int`. -/
def nullableInt : Option Int64 → JsonValue
  | some v => .int v
  | none => .null

/-- `nullable_text`. -/
def nullableText : Option String → JsonValue
  | some s => .string s
  | none => .null

/-- `f64::is_finite`, on the bits. -/
def isFinite (bits : UInt64) : Bool := (bits >>> 52) &&& 0x7FF ≠ 0x7FF

/-- `Number::from_f64(..)`, or a number in its place. -/
def finiteOr (fallback : JsonValue) (bits : UInt64) : JsonValue :=
  if isFinite bits then .float bits else fallback

/-! ## What is written -/

/-- A line of `export_counters`. -/
def exportCounter (name : String) (value : Int64) : JsonObject :=
  [("_table", .string "counters"), ("name", .string name), ("value", .int value)]

/-- A line of `export_entries`. -/
def exportEntry (id : Int64) (c : EntryColumns) : JsonObject :=
  [("_table", .string "entries"),
    ("id", .int id),
    ("title", .string c.title),
    ("content", .string c.content),
    ("topic", .string c.topic),
    ("category", .string c.category),
    ("source", .string c.source),
    ("status", .int c.status),
    ("confidence", finiteOr (.int 0) c.confidence),
    ("created_at", .int c.createdAt),
    ("updated_at", .int c.updatedAt),
    ("last_accessed_at", .int c.lastAccessedAt),
    ("access_count", .int c.accessCount),
    ("supersedes", nullableInt c.supersedes),
    ("superseded_by", nullableInt c.supersededBy),
    ("correction_count", .int c.correctionCount),
    ("embedding_dim", .int c.embeddingDim),
    ("created_by", .string c.createdBy),
    ("modified_by", .string c.modifiedBy),
    ("content_hash", .string c.contentHash),
    ("previous_hash", .string c.previousHash),
    ("version", .int c.version),
    ("feature_cycle", .string c.featureCycle),
    ("trust_source", .string c.trustSource),
    ("helpful_count", .int c.helpfulCount),
    ("unhelpful_count", .int c.unhelpfulCount),
    ("pre_quarantine_status", nullableInt c.preQuarantineStatus)]

/-- A line of `export_entry_tags`. -/
def exportEntryTag (entryId : Int64) (tag : String) : JsonObject :=
  [("_table", .string "entry_tags"), ("entry_id", .int entryId), ("tag", .string tag)]

/-- A line of `export_co_access`. -/
def exportCoAccess (entryIdA entryIdB : Int64) (c : CoAccessColumns) : JsonObject :=
  [("_table", .string "co_access"),
    ("entry_id_a", .int entryIdA),
    ("entry_id_b", .int entryIdB),
    ("count", .int c.count),
    ("last_updated", .int c.lastUpdated)]

/-- A line of `export_feature_entries`. -/
def exportFeatureEntry (featureId : String) (entryId : Int64) : JsonObject :=
  [("_table", .string "feature_entries"), ("feature_id", .string featureId), ("entry_id", .int entryId)]

/-- A line of `export_outcome_index`. -/
def exportOutcomeIndex (featureCycle : String) (entryId : Int64) : JsonObject :=
  [("_table", .string "outcome_index"), ("feature_cycle", .string featureCycle), ("entry_id", .int entryId)]

/-- A line of `export_agent_registry`. -/
def exportAgentRegistry (agentId : String) (c : AgentColumns) : JsonObject :=
  [("_table", .string "agent_registry"),
    ("agent_id", .string agentId),
    ("trust_level", .int c.trustLevel),
    ("capabilities", .string c.capabilities),
    ("allowed_topics", nullableText c.allowedTopics),
    ("allowed_categories", nullableText c.allowedCategories),
    ("enrolled_at", .int c.enrolledAt),
    ("last_seen_at", .int c.lastSeenAt),
    ("active", .int c.active)]

/-- A line of `export_audit_log`. -/
def exportAuditLog (eventId : Int64) (c : AuditColumns) : JsonObject :=
  [("_table", .string "audit_log"),
    ("event_id", .int eventId),
    ("timestamp", .int c.timestamp),
    ("session_id", .string c.sessionId),
    ("agent_id", .string c.agentId),
    ("operation", .string c.operation),
    ("target_ids", .string c.targetIds),
    ("outcome", .int c.outcome),
    ("detail", .string c.detail)]

/-- A line of `export_graph_edges`. The fallback of the weight is 1.0. -/
def exportGraphEdge (sourceId targetId : Int64) (relationType : String) (c : GraphEdgeColumns) :
    JsonObject :=
  [("_table", .string "graph_edges"),
    ("source_id", .int sourceId),
    ("target_id", .int targetId),
    ("relation_type", .string relationType),
    ("weight", finiteOr (.float 0x3FF0000000000000) c.weight),
    ("created_at", .int c.createdAt),
    ("created_by", .string c.createdBy),
    ("source", .string c.source),
    ("bootstrap_only", .int c.bootstrapOnly),
    ("metadata", nullableText c.metadata)]

/-- A line of `export_observations`. -/
def exportObservation (id : Int64) (c : ObservationColumns) : JsonObject :=
  [("_table", .string "observations"),
    ("id", .int id),
    ("session_id", .string c.sessionId),
    ("ts_millis", .int c.tsMillis),
    ("hook", .string c.hook),
    ("tool", nullableText c.tool),
    ("input", nullableText c.input),
    ("response_size", nullableInt c.responseSize),
    ("response_snippet", nullableText c.responseSnippet),
    ("topic_signal", nullableText c.topicSignal),
    ("phase", nullableText c.phase)]

/-- A line of `export_cycle_events`. -/
def exportCycleEvent (id : Int64) (c : CycleEventColumns) : JsonObject :=
  [("_table", .string "cycle_events"),
    ("id", .int id),
    ("cycle_id", .string c.cycleId),
    ("seq", .int c.seq),
    ("event_type", .string c.eventType),
    ("phase", nullableText c.phase),
    ("outcome", nullableText c.outcome),
    ("next_phase", nullableText c.nextPhase),
    ("timestamp", .int c.timestamp),
    ("goal", nullableText c.goal)]

/-- The line of a row. -/
def exportRow : Rec → JsonObject
  | ⟨.counters, name, value⟩ => exportCounter name value
  | ⟨.entries, id, c⟩ => exportEntry id c
  | ⟨.entryTags, (entryId, tag), ()⟩ => exportEntryTag entryId tag
  | ⟨.coAccess, (a, b), c⟩ => exportCoAccess a b c
  | ⟨.featureEntries, (featureId, entryId), _⟩ => exportFeatureEntry featureId entryId
  | ⟨.outcomeIndex, (featureCycle, entryId), ()⟩ => exportOutcomeIndex featureCycle entryId
  | ⟨.agentRegistry, agentId, c⟩ => exportAgentRegistry agentId c
  | ⟨.auditLog, eventId, c⟩ => exportAuditLog eventId c
  | ⟨.graphEdges, (sourceId, targetId, relationType), c⟩ => exportGraphEdge sourceId targetId relationType c
  | ⟨.observations, id, c⟩ => exportObservation id c
  | ⟨.cycleEvents, id, c⟩ => exportCycleEvent id c

/-! ## What is read -/

/-- `CounterRow`. -/
structure CounterRow where
  name : String
  value : Int64
  deriving DecidableEq, Repr

/-- `EntryRow`. -/
structure EntryRow extends EntryColumns where
  id : Int64
  deriving DecidableEq, Repr

/-- `EntryTagRow`. -/
structure EntryTagRow where
  entryId : Int64
  tag : String
  deriving DecidableEq, Repr

/-- `CoAccessRow`. -/
structure CoAccessRow extends CoAccessColumns where
  entryIdA : Int64
  entryIdB : Int64
  deriving DecidableEq, Repr

/-- `FeatureEntryRow`. -/
structure FeatureEntryRow where
  featureId : String
  entryId : Int64
  deriving DecidableEq, Repr

/-- `OutcomeIndexRow`. -/
structure OutcomeIndexRow where
  featureCycle : String
  entryId : Int64
  deriving DecidableEq, Repr

/-- `AgentRegistryRow`. -/
structure AgentRegistryRow extends AgentColumns where
  agentId : String
  deriving DecidableEq, Repr

/-- `AuditLogRow`. -/
structure AuditLogRow where
  eventId : Int64
  timestamp : Int64
  sessionId : String
  agentId : String
  operation : String
  targetIds : String
  outcome : Int64
  detail : String
  deriving DecidableEq, Repr

/-- `GraphEdgeRow`. -/
structure GraphEdgeRow extends GraphEdgeColumns where
  sourceId : Int64
  targetId : Int64
  relationType : String
  deriving DecidableEq, Repr

/-- `ObservationRow`. -/
structure ObservationRow where
  id : Int64
  sessionId : String
  tsMillis : Int64
  hook : String
  tool : Option String
  input : Option String
  responseSize : Option Int64
  responseSnippet : Option String
  topicSignal : Option String
  phase : Option String
  deriving DecidableEq, Repr

/-- `CycleEventRow`. -/
structure CycleEventRow where
  id : Int64
  cycleId : String
  seq : Int64
  eventType : String
  phase : Option String
  outcome : Option String
  nextPhase : Option String
  timestamp : Int64
  goal : Option String
  deriving DecidableEq, Repr

/-- `ExportRow`. -/
inductive ExportRow where
  | counter (r : CounterRow)
  | entry (r : EntryRow)
  | entryTag (r : EntryTagRow)
  | coAccess (r : CoAccessRow)
  | featureEntry (r : FeatureEntryRow)
  | outcomeIndex (r : OutcomeIndexRow)
  | agentRegistry (r : AgentRegistryRow)
  | auditLog (r : AuditLogRow)
  | graphEdge (r : GraphEdgeRow)
  | observation (r : ObservationRow)
  | cycleEvent (r : CycleEventRow)
  deriving DecidableEq, Repr

/-- The value of a field; an error, where it is there twice. -/
def field (o : JsonObject) (name : String) : Option (Option JsonValue) :=
  match o.filter fun f => f.1 = name with
  | [] => some none
  | [f] => some (some f.2)
  | _ => none

/-- An `i64`. -/
def asInt : JsonValue → Option Int64
  | .int n => some n
  | _ => none

/-- A `String`. -/
def asText : JsonValue → Option String
  | .string s => some s
  | _ => none

/-- A `bool`. -/
def asBool : JsonValue → Option Bool
  | .bool b => some b
  | _ => none

/-- The mantissa of `n`, at most 2^53, when its first bit is number `e`: rounded to even. -/
def roundedMantissa (n e : Nat) : Nat :=
  if e ≤ 52 then n <<< (52 - e)
  else
    let q := n >>> (e - 52)
    let rest := n % (1 <<< (e - 52))
    let half := 1 <<< (e - 53)
    if half < rest ∨ (rest = half ∧ q % 2 = 1) then q + 1 else q

/-- `n as f64`, as bits. -/
def floatOfInt (n : Int) : UInt64 :=
  let magnitude := n.natAbs
  let e := Nat.log2 magnitude
  let sign : UInt64 := if n < 0 then 0x8000000000000000 else 0
  if magnitude = 0 then 0
  else sign + UInt64.ofNat (((e + 1022) <<< 52) + roundedMantissa magnitude e)

/-- An `f64`. -/
def asReal : JsonValue → Option UInt64
  | .float bits => some bits
  | .int n => some (floatOfInt n.toInt)
  | .big n => some (floatOfInt n.toNat)
  | _ => none

/-- An `Option`. -/
def asNullable {α : Type} (as : JsonValue → Option α) : JsonValue → Option (Option α)
  | .null => some none
  | v => (as v).map some

/-- A field that must be there. -/
def required {α : Type} (as : JsonValue → Option α) (o : JsonObject) (name : String) : Option α :=
  match field o name with
  | some (some v) => as v
  | _ => none

/-- A field of an `Option` type, which need not be there. -/
def nullable {α : Type} (as : JsonValue → Option α) (o : JsonObject) (name : String) :
    Option (Option α) :=
  match field o name with
  | some (some v) => asNullable as v
  | some none => some none
  | none => none

/-- `CounterRow::deserialize`. -/
def decodeCounter (o : JsonObject) : Option CounterRow := do
  let name ← required asText o "name"
  let value ← required asInt o "value"
  return { name, value }

/-- `EntryRow::deserialize`. -/
def decodeEntry (o : JsonObject) : Option EntryRow := do
  let id ← required asInt o "id"
  let title ← required asText o "title"
  let content ← required asText o "content"
  let topic ← required asText o "topic"
  let category ← required asText o "category"
  let source ← required asText o "source"
  let status ← required asInt o "status"
  let confidence ← required asReal o "confidence"
  let createdAt ← required asInt o "created_at"
  let updatedAt ← required asInt o "updated_at"
  let lastAccessedAt ← required asInt o "last_accessed_at"
  let accessCount ← required asInt o "access_count"
  let supersedes ← nullable asInt o "supersedes"
  let supersededBy ← nullable asInt o "superseded_by"
  let correctionCount ← required asInt o "correction_count"
  let embeddingDim ← required asInt o "embedding_dim"
  let createdBy ← required asText o "created_by"
  let modifiedBy ← required asText o "modified_by"
  let contentHash ← required asText o "content_hash"
  let previousHash ← required asText o "previous_hash"
  let version ← required asInt o "version"
  let featureCycle ← required asText o "feature_cycle"
  let trustSource ← required asText o "trust_source"
  let helpfulCount ← required asInt o "helpful_count"
  let unhelpfulCount ← required asInt o "unhelpful_count"
  let preQuarantineStatus ← nullable asInt o "pre_quarantine_status"
  return { id, title, content, topic, category, source, status, confidence, createdAt, updatedAt,
           lastAccessedAt, accessCount, supersedes, supersededBy, correctionCount, embeddingDim, createdBy,
           modifiedBy, contentHash, previousHash, version, featureCycle, trustSource, helpfulCount,
           unhelpfulCount, preQuarantineStatus }

/-- `EntryTagRow::deserialize`. -/
def decodeEntryTag (o : JsonObject) : Option EntryTagRow := do
  let entryId ← required asInt o "entry_id"
  let tag ← required asText o "tag"
  return { entryId, tag }

/-- `CoAccessRow::deserialize`. -/
def decodeCoAccess (o : JsonObject) : Option CoAccessRow := do
  let entryIdA ← required asInt o "entry_id_a"
  let entryIdB ← required asInt o "entry_id_b"
  let count ← required asInt o "count"
  let lastUpdated ← required asInt o "last_updated"
  return { entryIdA, entryIdB, count, lastUpdated }

/-- `FeatureEntryRow::deserialize`. -/
def decodeFeatureEntry (o : JsonObject) : Option FeatureEntryRow := do
  let featureId ← required asText o "feature_id"
  let entryId ← required asInt o "entry_id"
  return { featureId, entryId }

/-- `OutcomeIndexRow::deserialize`. -/
def decodeOutcomeIndex (o : JsonObject) : Option OutcomeIndexRow := do
  let featureCycle ← required asText o "feature_cycle"
  let entryId ← required asInt o "entry_id"
  return { featureCycle, entryId }

/-- `AgentRegistryRow::deserialize`. -/
def decodeAgentRegistry (o : JsonObject) : Option AgentRegistryRow := do
  let agentId ← required asText o "agent_id"
  let trustLevel ← required asInt o "trust_level"
  let capabilities ← required asText o "capabilities"
  let allowedTopics ← nullable asText o "allowed_topics"
  let allowedCategories ← nullable asText o "allowed_categories"
  let enrolledAt ← required asInt o "enrolled_at"
  let lastSeenAt ← required asInt o "last_seen_at"
  let active ← required asInt o "active"
  return { agentId, trustLevel, capabilities, allowedTopics, allowedCategories, enrolledAt, lastSeenAt,
           active }

/-- `AuditLogRow::deserialize`. -/
def decodeAuditLog (o : JsonObject) : Option AuditLogRow := do
  let eventId ← required asInt o "event_id"
  let timestamp ← required asInt o "timestamp"
  let sessionId ← required asText o "session_id"
  let agentId ← required asText o "agent_id"
  let operation ← required asText o "operation"
  let targetIds ← required asText o "target_ids"
  let outcome ← required asInt o "outcome"
  let detail ← required asText o "detail"
  return { eventId, timestamp, sessionId, agentId, operation, targetIds, outcome, detail }

/-- `GraphEdgeRow::deserialize`. -/
def decodeGraphEdge (o : JsonObject) : Option GraphEdgeRow := do
  let sourceId ← required asInt o "source_id"
  let targetId ← required asInt o "target_id"
  let relationType ← required asText o "relation_type"
  let weight ← required asReal o "weight"
  let createdAt ← required asInt o "created_at"
  let createdBy ← required asText o "created_by"
  let source ← required asText o "source"
  let bootstrapOnly ← required asInt o "bootstrap_only"
  let metadata ← nullable asText o "metadata"
  return { sourceId, targetId, relationType, weight, createdAt, createdBy, source, bootstrapOnly, metadata }

/-- `ObservationRow::deserialize`. -/
def decodeObservation (o : JsonObject) : Option ObservationRow := do
  let id ← required asInt o "id"
  let sessionId ← required asText o "session_id"
  let tsMillis ← required asInt o "ts_millis"
  let hook ← required asText o "hook"
  let tool ← nullable asText o "tool"
  let input ← nullable asText o "input"
  let responseSize ← nullable asInt o "response_size"
  let responseSnippet ← nullable asText o "response_snippet"
  let topicSignal ← nullable asText o "topic_signal"
  let phase ← nullable asText o "phase"
  return { id, sessionId, tsMillis, hook, tool, input, responseSize, responseSnippet, topicSignal, phase }

/-- `CycleEventRow::deserialize`. -/
def decodeCycleEvent (o : JsonObject) : Option CycleEventRow := do
  let id ← required asInt o "id"
  let cycleId ← required asText o "cycle_id"
  let seq ← required asInt o "seq"
  let eventType ← required asText o "event_type"
  let phase ← nullable asText o "phase"
  let outcome ← nullable asText o "outcome"
  let nextPhase ← nullable asText o "next_phase"
  let timestamp ← required asInt o "timestamp"
  let goal ← nullable asText o "goal"
  return { id, cycleId, seq, eventType, phase, outcome, nextPhase, timestamp, goal }

/-- `ExportRow::deserialize`: `_table` says which row it is. -/
def decode (o : JsonObject) : Option ExportRow := do
  let table ← required asText o "_table"
  match table with
  | "counters" => (decodeCounter o).map .counter
  | "entries" => (decodeEntry o).map .entry
  | "entry_tags" => (decodeEntryTag o).map .entryTag
  | "co_access" => (decodeCoAccess o).map .coAccess
  | "feature_entries" => (decodeFeatureEntry o).map .featureEntry
  | "outcome_index" => (decodeOutcomeIndex o).map .outcomeIndex
  | "agent_registry" => (decodeAgentRegistry o).map .agentRegistry
  | "audit_log" => (decodeAuditLog o).map .auditLog
  | "graph_edges" => (decodeGraphEdge o).map .graphEdge
  | "observations" => (decodeObservation o).map .observation
  | "cycle_events" => (decodeCycleEvent o).map .cycleEvent
  | _ => none

/-! ## What is inserted -/

/-- The row an inserter stores: a column it does not name has its default. -/
def toRec : ExportRow → Rec
  | .counter r => ⟨.counters, r.name, r.value⟩
  | .entry r => ⟨.entries, r.id, r.toEntryColumns⟩
  | .entryTag r => ⟨.entryTags, (r.entryId, r.tag), ()⟩
  | .coAccess r => ⟨.coAccess, (r.entryIdA, r.entryIdB), r.toCoAccessColumns⟩
  | .featureEntry r => ⟨.featureEntries, (r.featureId, r.entryId), ⟨none⟩⟩
  | .outcomeIndex r => ⟨.outcomeIndex, (r.featureCycle, r.entryId), ()⟩
  | .agentRegistry r => ⟨.agentRegistry, r.agentId, r.toAgentColumns⟩
  | .auditLog r => ⟨.auditLog, r.eventId, ⟨r.timestamp, r.sessionId, r.agentId, r.operation, r.targetIds,
      r.outcome, r.detail, "none", "", "", "\x7b\x7d"⟩⟩
  | .graphEdge r => ⟨.graphEdges, (r.sourceId, r.targetId, r.relationType), r.toGraphEdgeColumns⟩
  | .observation r => ⟨.observations, r.id, ⟨r.sessionId, r.tsMillis, r.hook, r.tool, r.input,
      r.responseSize, r.responseSnippet, r.topicSignal, r.phase, none, none, none⟩⟩
  | .cycleEvent r => ⟨.cycleEvents, r.id, ⟨r.cycleId, r.seq, r.eventType, r.phase, r.outcome, r.nextPhase,
      r.timestamp, r.goal, none⟩⟩

/-! ## Reading what was written -/

/-- What `serde_json` reads a written `f64` as. -/
abbrev ReadFloat : Type := UInt64 → Option UInt64

/-- A value as it is read back. -/
def reread (read : ReadFloat) : JsonValue → Option JsonValue
  | .float bits => (read bits).map .float
  | v => some v

/-- A line as it is read back. -/
def rereadLine (read : ReadFloat) : JsonObject → Option JsonObject
  | [] => some []
  | f :: o => (reread read f.2).bind fun v => (rereadLine read o).map ((f.1, v) :: ·)

/-- What a number is read back as that may have been replaced. -/
def readNumber (read : ReadFloat) (fallback : JsonValue) (bits : UInt64) : Option UInt64 :=
  (reread read (finiteOr fallback bits)).bind asReal

/-- A row as an import stores it. -/
def restored (read : ReadFloat) : (t : Table) → t.Columns → Option t.Columns
  | .entries, c => (readNumber read (.int 0) c.confidence).map fun b => { c with confidence := b }
  | .featureEntries, _ => some ⟨none⟩
  | .auditLog, c => some { c with
      credentialType := "none", capabilityUsed := "", agentAttribution := "", metadata := "\x7b\x7d" }
  | .graphEdges, c => (readNumber read (.float 0x3FF0000000000000) c.weight).map fun b =>
      { c with weight := b }
  | .observations, c => some { c with topicSource := none, sourceDomain := none, modelId := none }
  | .cycleEvents, c => some { c with goalEmbedding := none }
  | .counters, c => some c
  | .entryTags, c => some c
  | .coAccess, c => some c
  | .outcomeIndex, c => some c
  | .agentRegistry, c => some c

@[simp] theorem asInt_int (n : Int64) : asInt (.int n) = some n := rfl
@[simp] theorem asText_string (s : String) : asText (.string s) = some s := rfl

@[simp] theorem asNullable_nullableInt (v : Option Int64) :
    asNullable asInt (nullableInt v) = some v := by
  cases v <;> rfl

@[simp] theorem asNullable_nullableText (v : Option String) :
    asNullable asText (nullableText v) = some v := by
  cases v <;> rfl

@[simp] theorem reread_int (read : ReadFloat) (n : Int64) : reread read (.int n) = some (.int n) := rfl

@[simp] theorem reread_string (read : ReadFloat) (s : String) :
    reread read (.string s) = some (.string s) := rfl

@[simp] theorem reread_nullableInt (read : ReadFloat) (v : Option Int64) :
    reread read (nullableInt v) = some (nullableInt v) := by
  cases v <;> rfl

@[simp] theorem reread_nullableText (read : ReadFloat) (v : Option String) :
    reread read (nullableText v) = some (nullableText v) := by
  cases v <;> rfl

/-- Where no name is there twice, a field has its value. -/
theorem field_of_mem {o : JsonObject} (hnodup : (o.map Prod.fst).Nodup) {f : String × JsonValue}
    (hf : f ∈ o) : field o f.1 = some (some f.2) := by
  have hfilter : o.filter (fun g => g.1 = f.1) = [f] := by
    induction o with
    | nil => exact absurd hf List.not_mem_nil
    | cons g o ih =>
      rw [List.map_cons, List.nodup_cons] at hnodup
      rcases List.mem_cons.mp hf with rfl | hf
      · rw [List.filter_cons_of_pos (by simp), List.filter_eq_nil_iff.mpr]
        intro g hg heq
        exact hnodup.1 (of_decide_eq_true heq ▸ List.mem_map_of_mem hg)
      · rw [List.filter_cons_of_neg, ih hnodup.2 hf]
        intro heq
        exact hnodup.1 (of_decide_eq_true heq ▸ List.mem_map_of_mem hf)
  unfold field
  rw [hfilter]

/-- A line of `export_entries` is read as the entry it was. -/
theorem decode_exportEntry (read : ReadFloat) (id : Int64) (c : EntryColumns) :
    (((rereadLine read (exportEntry id c)).bind decode).map toRec) =
      (readNumber read (.int 0) c.confidence).map fun b =>
        ⟨.entries, id, { c with confidence := b }⟩ := by
  unfold readNumber
  simp only [exportEntry, rereadLine, reread_int, reread_string, reread_nullableInt]
  cases reread read (finiteOr (.int 0) c.confidence) with
  | none => rfl
  | some v =>
    simp only [Option.bind_some, Option.map_some]
    generalize ho : (("_table", JsonValue.string "entries") :: _ : JsonObject) = o
    -- each name is there once, so that each field is found
    have hfields : ∀ f ∈ o, field o f.1 = some (some f.2) := by
      intro f hf
      refine field_of_mem ?_ hf
      rw [← ho]
      simp
    nth_rewrite 1 [← ho] at hfields
    clear ho
    simp only [List.forall_mem_cons] at hfields
    simp only [decode, decodeEntry, required, nullable, hfields, asInt_int, asText_string,
      asNullable_nullableInt, Option.bind_eq_bind, Option.bind_some]
    cases asReal v with
    | none => rfl
    | some b => rfl

/-- A line of `export_graph_edges` is read as the edge it was. -/
theorem decode_exportGraphEdge (read : ReadFloat) (sourceId targetId : Int64) (relationType : String)
    (c : GraphEdgeColumns) :
    (((rereadLine read (exportGraphEdge sourceId targetId relationType c)).bind decode).map toRec) =
      (readNumber read (.float 0x3FF0000000000000) c.weight).map fun b =>
        ⟨.graphEdges, (sourceId, targetId, relationType), { c with weight := b }⟩ := by
  unfold readNumber
  simp only [exportGraphEdge, rereadLine, reread_int, reread_string, reread_nullableText]
  cases reread read (finiteOr (.float 0x3FF0000000000000) c.weight) with
  | none => rfl
  | some v =>
    simp only [Option.bind_some, Option.map_some]
    generalize ho : (("_table", JsonValue.string "graph_edges") :: _ : JsonObject) = o
    have hfields : ∀ f ∈ o, field o f.1 = some (some f.2) := by
      intro f hf
      refine field_of_mem ?_ hf
      rw [← ho]
      simp
    nth_rewrite 1 [← ho] at hfields
    clear ho
    simp only [List.forall_mem_cons] at hfields
    simp only [decode, decodeGraphEdge, required, nullable, hfields, asInt_int, asText_string,
      asNullable_nullableText, Option.bind_eq_bind, Option.bind_some]
    cases asReal v with
    | none => rfl
    | some b => rfl

/-- **A written row is read as it would be restored.** -/
theorem decode_exportRow (read : ReadFloat) (r : Rec) :
    (((rereadLine read (exportRow r)).bind decode).map toRec) =
      (restored read r.table r.row).map fun row => ⟨r.table, r.key, row⟩ := by
  obtain ⟨t, k, c⟩ := r
  cases t with
  | counters =>
    simp [exportRow, exportCounter, rereadLine, decode, decodeCounter, required, field, restored, toRec]
  | entries =>
    rw [show exportRow ⟨.entries, k, c⟩ = exportEntry k c from rfl, decode_exportEntry]
    exact (Option.map_map ..).symm
  | entryTags =>
    simp [exportRow, exportEntryTag, rereadLine, decode, decodeEntryTag, required, field, restored, toRec]
  | coAccess =>
    simp [exportRow, exportCoAccess, rereadLine, decode, decodeCoAccess, required, field, restored, toRec]
  | featureEntries =>
    simp [exportRow, exportFeatureEntry, rereadLine, decode, decodeFeatureEntry, required, field, restored,
      toRec]
  | outcomeIndex =>
    simp [exportRow, exportOutcomeIndex, rereadLine, decode, decodeOutcomeIndex, required, field, restored,
      toRec]
  | agentRegistry =>
    simp [exportRow, exportAgentRegistry, rereadLine, decode, decodeAgentRegistry, required, nullable,
      field, restored, toRec]
  | auditLog =>
    simp [exportRow, exportAuditLog, rereadLine, decode, decodeAuditLog, required, field, restored, toRec]
  | graphEdges =>
    obtain ⟨sourceId, targetId, relationType⟩ := k
    rw [show exportRow ⟨.graphEdges, (sourceId, targetId, relationType), c⟩ =
      exportGraphEdge sourceId targetId relationType c from rfl, decode_exportGraphEdge]
    exact (Option.map_map ..).symm
  | observations =>
    simp [exportRow, exportObservation, rereadLine, decode, decodeObservation, required, nullable, field,
      restored, toRec]
  | cycleEvents =>
    simp [exportRow, exportCycleEvent, rereadLine, decode, decodeCycleEvent, required, nullable, field,
      restored, toRec]

/-! ## What comes back -/

/-- What a backup is documented to keep of a row: all but `cycle_events.goal_embedding`. -/
def documented : (t : Table) → t.Columns → t.Columns
  | .cycleEvents, c => { c with goalEmbedding := none }
  | .counters, c => c
  | .entries, c => c
  | .entryTags, c => c
  | .coAccess, c => c
  | .featureEntries, c => c
  | .outcomeIndex, c => c
  | .agentRegistry, c => c
  | .auditLog, c => c
  | .graphEdges, c => c
  | .observations, c => c

/-- No column that is not written differs from its default, and a number is read back as it is. -/
def Written (read : ReadFloat) : (t : Table) → t.Columns → Prop
  | .entries, c => readNumber read (.int 0) c.confidence = some c.confidence
  | .featureEntries, c => c.phase = none
  | .auditLog, c => c.credentialType = "none" ∧ c.capabilityUsed = "" ∧ c.agentAttribution = "" ∧
      c.metadata = "\x7b\x7d"
  | .graphEdges, c => readNumber read (.float 0x3FF0000000000000) c.weight = some c.weight
  | .observations, c => c.topicSource = none ∧ c.sourceDomain = none ∧ c.modelId = none
  | .counters, _ => True
  | .entryTags, _ => True
  | .coAccess, _ => True
  | .outcomeIndex, _ => True
  | .agentRegistry, _ => True
  | .cycleEvents, _ => True

/-- **Which rows come back as documented.** -/
theorem restored_eq_iff (read : ReadFloat) {t : Table} (c : t.Columns) :
    restored read t c = some (documented t c) ↔ Written read t c := by
  cases t with
  | entries =>
    obtain ⟨⟩ := c
    simp [restored, documented, Written]
  | graphEdges =>
    obtain ⟨⟩ := c
    simp [restored, documented, Written]
  | featureEntries =>
    obtain ⟨⟩ := c
    simp [restored, documented, Written, eq_comm]
  | auditLog =>
    obtain ⟨⟩ := c
    simp [restored, documented, Written, eq_comm]
  | observations =>
    obtain ⟨⟩ := c
    simp [restored, documented, Written, eq_comm]
  | counters => exact iff_of_true rfl trivial
  | entryTags => exact iff_of_true rfl trivial
  | coAccess => exact iff_of_true rfl trivial
  | outcomeIndex => exact iff_of_true rfl trivial
  | agentRegistry => exact iff_of_true rfl trivial
  | cycleEvents => exact iff_of_true rfl trivial

end Unimatrix.Backup
