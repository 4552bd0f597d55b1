import Unimatrix.Graph.PenaltyBounds

/-!
# The configuration

Model of the sections of `config.rs`, each with the values that it has when no file sets them.

* `F` are the numbers of an `f64` field and `S` those of an `f32` field, both without NaN. A NaN can only get past the
  checks as a weight of a preset that is not `custom`: there it is a `none`.
* Counts are naturals: nothing is computed with them.
-/

namespace Unimatrix.Config

/-! ## Presets, knowledge, server, agents -/

/-- `Preset`. -/
inductive Preset where
  | authoritative
  | operational
  | empirical
  | collaborative
  | custom
  deriving DecidableEq, Repr

/-- `ProfileConfig`. -/
structure ProfileConfig where
  preset : Preset := .collaborative
  deriving DecidableEq

/-- `INITIAL_CATEGORIES`. -/
def initialCategories : List String :=
  ["convention", "decision", "feature", "goal", "lesson-learned", "pattern", "procedure"]

/-- `KnowledgeConfig`. -/
structure KnowledgeConfig (F : Type) where
  categories : List String := initialCategories
  boostedCategories : List String := []
  adaptiveCategories : List String := []
  freshnessHalfLifeHours : Option F := none
  deriving DecidableEq

/-- `ServerConfig`. -/
structure ServerConfig where
  instructions : Option String := none
  deriving DecidableEq

/-- `AgentsConfig`. -/
structure AgentsConfig where
  defaultTrust : String := "permissive"
  sessionCapabilities : List String := ["Read", "Write", "Search"]
  deriving DecidableEq

/-- `ConfidenceWeights`. -/
structure ConfidenceWeights (F : Type) where
  base : Option F
  usage : Option F
  fresh : Option F
  help : Option F
  corr : Option F
  trust : Option F
  deriving DecidableEq

/-- `ConfidenceConfig`. -/
structure ConfidenceConfig (F : Type) where
  weights : Option (ConfidenceWeights F) := none
  deriving DecidableEq

/-! ## Inference -/

/-- `default_informs_category_pairs`. -/
def defaultInformsCategoryPairs : List (String × String) :=
  [("lesson-learned", "decision"), ("lesson-learned", "convention"), ("pattern", "decision"),
    ("pattern", "convention")]

/-- `InferenceConfig`. The size of the pool has no value of its own: it depends on the machine. -/
structure InferenceConfig (F S : Type) [F64 F] [F64 S] where
  rayonPoolSize : Nat
  embeddingModelSha256 : Option String := none
  nliEnabled : Bool := false
  nliModelName : Option String := none
  nliModelPath : Option String := none
  nliModelSha256 : Option String := none
  nliTopK : Nat := 20
  nliEntailmentThreshold : S := 0.6
  nliContradictionThreshold : S := 0.6
  maxContradictsPerTick : Nat := 10
  nliAutoQuarantineThreshold : S := 0.85
  wSim : F := 0.50
  wNli : F := 0.00
  wConf : F := 0.35
  wCoac : F := 0.0
  wUtil : F := 0.00
  wProv : F := 0.00
  wPhaseHistogram : F := 0.02
  wPhaseExplicit : F := 0.05
  supportsCandidateThreshold : S := 0.5
  supportsEdgeThreshold : S := 0.6
  maxGraphInferencePerTick : Nat := 100
  graphInferenceK : Nat := 10
  maxCoAccessPromotionPerTick : Nat := 200
  healPassBatchSize : Nat := 20
  phaseFreqLookbackDays : Nat := 30
  minPhaseSessionPairs : Nat := 5
  pprAlpha : F := 0.85
  pprIterations : Nat := 20
  pprInclusionThreshold : F := 0.05
  pprBlendWeight : F := 0.15
  pprMaxExpand : Nat := 50
  informsCategoryPairs : List (String × String) := defaultInformsCategoryPairs
  nliInformsCosineFloor : S := 0.5
  nliInformsPprWeight : S := 0.6
  supportsCosineThreshold : S := 0.65
  s2Vocabulary : List String := []
  maxS1EdgesPerTick : Nat := 200
  maxS2EdgesPerTick : Nat := 200
  s8BatchIntervalTicks : Nat := 10
  maxS8PairsPerBatch : Nat := 500
  pprExpanderEnabled : Bool := false
  expansionDepth : Nat := 2
  maxExpansionCandidates : Nat := 200
  goalClusterSimilarityThreshold : S := 0.80
  wGoalClusterConf : S := 0.35
  wGoalBoost : S := 0.25

/-! ## Observation, retention, transcripts, store -/

/-- `DomainPackConfig`. -/
structure DomainPackConfig where
  sourceDomain : String
  eventTypes : List String
  categories : List String
  ruleFile : Option String
  deriving DecidableEq

/-- `ObservationConfig`. -/
structure ObservationConfig where
  domainPacks : List DomainPackConfig := []
  deriving DecidableEq

/-- `TranscriptRetention`. -/
inductive TranscriptRetention where
  | purgeOnCycleClose
  | retainDays (days : Nat)
  deriving DecidableEq, Repr

/-- `RetentionConfig`. -/
structure RetentionConfig (F : Type) [F64 F] where
  activityDetailRetentionCycles : Nat := 50
  auditLogRetentionDays : Nat := 180
  maxCyclesPerTick : Nat := 10
  transcriptRetention : TranscriptRetention := .purgeOnCycleClose
  transcriptBufferMaxBytes : Nat := 4194304
  transcriptCandidateSessionCapBytes : Nat := 24 * 1024
  transcriptCandidateCycleCapBytes : Nat := 256 * 1024
  transcriptFallbackHoleFraction : F := 0.5
  transcriptHoldMaxSessions : Nat := 64
  transcriptHoldTtlSecs : Nat := 86400

/-- `TranscriptSignal`. -/
structure TranscriptSignal where
  className : String
  pattern : String
  enabled : Bool
  deriving DecidableEq

/-- `DEFAULT_ERROR_PATTERN`. -/
def defaultErrorPattern : String :=
  r#"(?i)("type"\s*:\s*"(?:api_error|overloaded_error|rate_limit_error|invalid_request_error|authentication_error|permission_error|not_found_error|request_too_large|internal_server_error|api_status_error)")|\boverloaded_error\b|\brate.?limit(?:ed|_error)?\b|\bservice unavailable\b|\b(?:http\s*)?(?:status\s*(?:code\s*)?)?(?:429|500|503|529)\b\s*(?:error|overloaded|too many requests|service unavailable)"#

/-- `DEFAULT_REFUSAL_PATTERN`. -/
def defaultRefusalPattern : String :=
  r#"(?i)\bI(?:'m| am)?\s+(?:cannot|can(?:'|’)?t|won(?:'|’)?t|will not|am not able to|(?:'m|m| am)?\s*(?:not able|unable)\s+to|am unable to)\b"#

/-- `TranscriptSignalsConfig`. -/
structure TranscriptSignalsConfig where
  classes : List TranscriptSignal := [⟨"error", defaultErrorPattern, true⟩, ⟨"refusal", defaultRefusalPattern, true⟩]
  deriving DecidableEq

/-- `StoreConfig`. -/
structure StoreConfig where
  maxContentBytes : Nat := 8000
  deriving DecidableEq

/-! ## Transport -/

/-- `HttpConfig`. -/
structure HttpConfig where
  enabled : Bool := false
  contentPort : Nat := 8443
  bindAddress : String := "0.0.0.0"
  maxConcurrentSessions : Nat := 32
  maxRequestBodyBytes : Nat := 1048576
  connectionTimeoutSecs : Nat := 30
  allowedOrigins : List String := []
  deriving DecidableEq

/-- `TlsConfig`. -/
structure TlsConfig where
  enabled : Option Bool := none
  certPath : Option String := none
  keyPath : Option String := none
  deriving DecidableEq

/-- `TlsConfig::is_enabled`. -/
def TlsConfig.isEnabled (tls : TlsConfig) : Bool :=
  match tls.enabled with
  | some v => v
  | none => tls.certPath.isSome && tls.keyPath.isSome

deriving instance DecidableEq for GraphPenaltyConfig

/-- `ProjectConfigEntry`. -/
structure ProjectConfigEntry where
  slug : String
  deriving DecidableEq

/-! ## The whole -/

/-- `UnimatrixConfig`. -/
structure UnimatrixConfig (F S : Type) [F64 F] [F64 S] where
  profile : ProfileConfig := {}
  knowledge : KnowledgeConfig F := {}
  server : ServerConfig := {}
  agents : AgentsConfig := {}
  confidence : ConfidenceConfig F := {}
  inference : InferenceConfig F S
  observation : ObservationConfig := {}
  retention : RetentionConfig F := {}
  transcriptSignals : TranscriptSignalsConfig := {}
  store : StoreConfig := {}
  http : HttpConfig := {}
  tls : TlsConfig := {}
  graphPenalty : GraphPenaltyConfig F := GraphPenaltyConfig.default
  projects : List ProjectConfigEntry := []

variable {F S : Type} [F64 F] [F64 S]

/-- `InferenceConfig::default`, on a machine with this many processors. -/
def InferenceConfig.default (numCpus : Nat) : InferenceConfig F S where
  rayonPoolSize := max 4 (min 8 (numCpus / 2))

/-- `UnimatrixConfig::default`. -/
def UnimatrixConfig.default (numCpus : Nat) : UnimatrixConfig F S where
  inference := InferenceConfig.default numCpus

end Unimatrix.Config
