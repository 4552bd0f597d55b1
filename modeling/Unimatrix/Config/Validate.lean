import Unimatrix.Config.Scanning
import Unimatrix.Config.Types
import Unimatrix.Lib.Except

/-!
# The checks of a configuration

Model of `validate_config` of `config.rs` and of the checks of the sections, in their order: the first check that fails is
the error. Also `ProjectSlug` (`seam.rs`) and the `FromStr` of an `IpAddr`.

* **`validateConfig_eq_ok_iff`**: a configuration passes when every section does (`Checks`). What a section that passes
  has is read off there: `checkInstructions_eq_ok_iff`, `InferenceConfig.fusionWeightSum_le`.
* An error is a `Violation` with the path of the file; its text is not modelled. A value that an error prints is the value.
* `!v.is_finite()` stands alone only where the range has no upper end. Elsewhere the range refuses an infinity.
-/

namespace Unimatrix.Config

open Regex TopicSignal Contradiction

/-! ## Errors -/

/-- A value in an error. -/
inductive Shown (F S : Type) where
  | count (n : Nat)
  | double (x : F)
  | single (x : S)
  | text (s : String)

/-- `ConfigError`, but for the path that every variant carries. -/
inductive Violation (F S : Type) where
  | fileTooLarge (size : Nat)
  | worldWritable
  | malformedToml (detail : String)
  | invalidCategoryChar (category : String)
  | tooManyCategories (count : Nat)
  | invalidCategoryLength (category : String) (len : Nat)
  | boostedCategoryNotInAllowlist (category : String)
  | adaptiveCategoryNotInAllowlist (category : String)
  | invalidHalfLifeValue (value : F)
  | halfLifeOutOfRange (value : F)
  | instructionsTooLong (len : Nat)
  | instructionsInjection (patternCategory : String)
  | invalidDefaultTrust (value : String)
  | invalidSessionCapability (value : String)
  | customPresetMissingWeights
  | customPresetMissingHalfLife
  | customWeightOutOfRange (field : String) (value : Option F)
  | customWeightSumInvariant (sum : F)
  | inferencePoolSizeOutOfRange (value : Nat)
  | nliFieldOutOfRange (field : String) (value : Shown F S) (reason : String)
  | invalidObservationSourceDomain (value reason : String)
  | nliThresholdInvariantViolated (autoQuarantine contradiction : S)
  | graphInferenceThresholdInvariantViolated (candidate edge : S)
  | fusionWeightSumExceeded (sum wSim wNli wConf wCoac wUtil wProv : F)
  | retentionFieldOutOfRange (field : String) (value : Shown F S) (reason : String)
  | storeFieldOutOfRange (field : String) (value : Shown F S) (reason : String)
  | httpFieldInvalid (field value reason : String)
  | tlsFieldInvalid (reason : String)
  | graphPenaltyFieldOutOfRange (error : FieldOutOfRange F)
  | projectSlugInvalid (value : String)
  | projectSlugReserved (value : String)
  | projectSlugDuplicate (value : String)

/-- `ConfigError`. -/
structure ConfigError (F S : Type) where
  path : String
  violation : Violation F S

/-- A check that fails on what it describes. -/
def refuse {ε : Type} (bad : Prop) [Decidable bad] (e : ε) : Except ε Unit := if bad then .error e else .ok ()

@[simp] theorem refuse_eq_ok {ε : Type} {bad : Prop} [Decidable bad] {e : ε} : refuse bad e = .ok () ↔ ¬ bad := by
  unfold refuse
  split <;> simp [*]

/-! ## Addresses -/

/-- One to three decimal digits that are an octet; a longer one does not begin with a zero. -/
def readOctet (s : Str) : Option Str :=
  let digits := s.takeWhile Char.isDigit
  if digits = [] ∨ 3 < digits.length ∨ (1 < digits.length ∧ digits.head? = some '0') ∨ 255 < Nat.ofDigitChars 10 digits 0
  then none
  else some (s.drop digits.length)

/-- One to four hex digits. -/
def readGroup (s : Str) : Option Str :=
  let digits := s.takeWhile isHexDigit
  if digits = [] ∨ 4 < digits.length then none else some (s.drop digits.length)

/-- `read_given_char`. -/
def readGivenChar (c : Char) : Str → Option Str
  | [] => none
  | d :: s => if d = c then some s else none

/-- `read_ipv4_addr`. -/
def readIpv4Addr (s : Str) : Option Str := do
  let s ← readOctet s
  let s ← readGivenChar '.' s
  let s ← readOctet s
  let s ← readGivenChar '.' s
  let s ← readOctet s
  let s ← readGivenChar '.' s
  readOctet s

/-- `read_groups` from the group `i` on, with room for so many: how many there are, whether the last two are an IPv4
address, and what is left. -/
def readGroups : Nat → Nat → Str → Nat × Bool × Str
  | 0, i, s => (i, false, s)
  | room + 1, i, s =>
    let group := if i = 0 then some s else readGivenChar ':' s
    match if room = 0 then none else group.bind readIpv4Addr with
    | some s => (i + 2, true, s)
    | none =>
      match group.bind readGroup with
      | some s => readGroups room (i + 1) s
      | none => (i, false, s)

/-- `read_ipv6_addr`. -/
def readIpv6Addr (s : Str) : Option Str :=
  let (headSize, headIpv4, s) := readGroups 8 0 s
  if headSize = 8 then some s
  else if headIpv4 then none
  else do
    let s ← readGivenChar ':' s
    let s ← readGivenChar ':' s
    return (readGroups (8 - (headSize + 1)) 0 s).2.2

/-- `parse::<IpAddr>().is_ok()`. -/
def isIpAddr (s : Str) : Bool := (readIpv4Addr s).orElse (fun _ => readIpv6Addr s) = some []

example : isIpAddr "0.0.0.0".toList ∧ isIpAddr "::1".toList ∧ isIpAddr "fe80::10.0.0.1".toList ∧
    ¬ isIpAddr "1.2.3.04".toList ∧ ¬ isIpAddr "localhost".toList := by decide +kernel

/-! ## Slugs -/

/-- The characters of `^[a-z0-9][a-z0-9-]{0,62}$`. -/
def isSlug (s : String) : Bool :=
  match s.toList with
  | [] => false
  | c :: cs => decide (s.utf8ByteSize ≤ 63) && (c.isLower || c.isDigit) &&
      cs.all fun c => c.isLower || c.isDigit || c == '-'

/-- `ProjectSlug`. -/
structure ProjectSlug where
  text : String
  valid : isSlug text = true

/-- `ProjectSlug::try_from`. -/
def ProjectSlug.tryFrom (s : String) : Option ProjectSlug := if h : isSlug s = true then some ⟨s, h⟩ else none

/-- `RESERVED_SLUGS`. -/
def reservedSlugs : List String := ["v1", "health", "observe", "tools"]

/-- `is_reserved_slug`. -/
def isReservedSlug (slug : ProjectSlug) : Bool := decide (slug.text ∈ reservedSlugs)

section Checks

variable {F S : Type} [F64 F] [F64 S]

/-- The loop of `validate_projects_config`: the slugs of the list are those that it has seen. -/
def validateProjectsFrom (result : List ProjectSlug) :
    List ProjectConfigEntry → Except (Violation F S) (List ProjectSlug)
  | [] => .ok result
  | entry :: entries =>
    match ProjectSlug.tryFrom entry.slug with
    | none => .error (.projectSlugInvalid entry.slug)
    | some slug =>
      if isReservedSlug slug then .error (.projectSlugReserved slug.text)
      else if slug.text ∈ result.map ProjectSlug.text then .error (.projectSlugDuplicate slug.text)
      else validateProjectsFrom (result ++ [slug]) entries

/-- `validate_projects_config`. -/
def validateProjectsConfig (entries : List ProjectConfigEntry) : Except (Violation F S) (List ProjectSlug) :=
  validateProjectsFrom [] entries

/-! ## Knowledge, server, agents -/

/-- The characters of a category. -/
def isCategoryChar (c : Char) : Bool := c.isLower || c.isDigit || c == '_' || c == '-'

/-- One turn of the loop over the categories. -/
def checkCategory (cat : String) : Except (Violation F S) Unit := do
  refuse (64 < cat.utf8ByteSize) (.invalidCategoryLength cat cat.utf8ByteSize)
  refuse (¬ cat.toList.all isCategoryChar) (.invalidCategoryChar cat)

/-- `f64::MAX`. -/
def f64Max : F := 1.7976931348623157e308

/-- `HALF_LIFE_MAX_HOURS`. -/
def halfLifeMaxHours : F := 87600.0

/-- The check of `freshness_half_life_hours`. -/
def checkHalfLife : Option F → Except (Violation F S) Unit
  | none => .ok ()
  | some v => do
    refuse (f64Max < v ∨ v ≤ 0) (.invalidHalfLifeValue v)
    refuse (halfLifeMaxHours < v) (.halfLifeOutOfRange v)

/-- The checks of `[knowledge]`. -/
def KnowledgeConfig.validate (cfg : KnowledgeConfig F) : Except (Violation F S) Unit := do
  refuse (64 < cfg.categories.length) (.tooManyCategories cfg.categories.length)
  cfg.categories.forM checkCategory
  cfg.boostedCategories.forM fun boosted => refuse (boosted ∉ cfg.categories) (.boostedCategoryNotInAllowlist boosted)
  cfg.adaptiveCategories.forM fun adaptive =>
    refuse (adaptive ∉ cfg.categories) (.adaptiveCategoryNotInAllowlist adaptive)
  checkHalfLife cfg.freshnessHalfLifeHours

/-- `INSTRUCTIONS_MAX_BYTES`. -/
def instructionsMaxBytes : Nat := 8192

/-- The check of `instructions`: its length before the scan. -/
def checkInstructions : Option String → Except (Violation F S) Unit
  | none => .ok ()
  | some instructions => do
    refuse (instructionsMaxBytes < instructions.utf8ByteSize) (.instructionsTooLong instructions.utf8ByteSize)
    match scanTitle instructions.toList with
    | none => .ok ()
    | some scanResult => .error (.instructionsInjection scanResult.category.name)

/-- The checks of `[agents]`. -/
def AgentsConfig.validate (cfg : AgentsConfig) : Except (Violation F S) Unit := do
  refuse (cfg.defaultTrust ∉ ["permissive", "strict"]) (.invalidDefaultTrust cfg.defaultTrust)
  cfg.sessionCapabilities.forM fun cap => refuse (cap ∉ ["Read", "Write", "Search"]) (.invalidSessionCapability cap)

/-! ## Confidence -/

/-- `SUM_INVARIANT`. -/
def sumInvariant : F := 0.92

/-- `SUM_TOLERANCE`. -/
def sumTolerance : F := 1e-9

/-- `x.abs()`. -/
def abs (x : F) : F := if x < 0 then -x else x

/-- The weights with their names. -/
def ConfidenceWeights.fields (w : ConfidenceWeights F) : List (String × Option F) :=
  [("base", w.base), ("usage", w.usage), ("fresh", w.fresh), ("help", w.help), ("corr", w.corr), ("trust", w.trust)]

/-- The sum of the weights. -/
def ConfidenceWeights.sum (w : ConfidenceWeights F) : Option F := do
  return (← w.base) + (← w.usage) + (← w.fresh) + (← w.help) + (← w.corr) + (← w.trust)

/-- A weight of the preset `custom`. -/
def checkWeight (check : String × Option F) : Except (Violation F S) Unit :=
  match check.2 with
  | none => .error (.customWeightOutOfRange check.1 none)
  | some val => refuse (val < 0 ∨ 1 < val) (.customWeightOutOfRange check.1 (some val))

/-- The check of the sum; every comparison with a NaN is false. -/
def checkWeightSum : Option F → Except (Violation F S) Unit
  | none => .ok ()
  | some sum => refuse (sumTolerance ≤ abs (sum - sumInvariant)) (.customWeightSumInvariant sum)

/-- The check of `preset` with the weights and the half life. A named preset takes any weights. -/
def checkPreset (preset : Preset) (weights : Option (ConfidenceWeights F)) (halfLife : Option F) :
    Except (Violation F S) Unit :=
  match preset with
  | .custom => do
    match weights with
    | none => .error .customPresetMissingWeights
    | some w => do
      w.fields.forM checkWeight
      checkWeightSum w.sum
    refuse (halfLife = none) .customPresetMissingHalfLife
  | _ => .ok ()

/-! ## Observation -/

/-- One turn of the loop over the domain packs. -/
def checkDomainPack (pack : DomainPackConfig) : Except (Violation F S) Unit := do
  refuse (pack.sourceDomain = "") (.invalidObservationSourceDomain pack.sourceDomain "empty")
  refuse (pack.sourceDomain = "unknown") (.invalidObservationSourceDomain pack.sourceDomain "reserved")
  refuse (¬ (1 ≤ pack.sourceDomain.length ∧ pack.sourceDomain.length ≤ 64 ∧ pack.sourceDomain.toList.all isCategoryChar))
    (.invalidObservationSourceDomain pack.sourceDomain "must match ^[a-z0-9_-]\x7b1,64\x7d$")

/-! ## Inference -/

/-- A count of `[inference]` between two bounds. -/
def nliCount (field : String) (v low high : Nat) (reason : String) : Except (Violation F S) Unit :=
  refuse (v < low ∨ high < v) (.nliFieldOutOfRange field (.count v) reason)

/-- A number of `[inference]` strictly between 0 and 1. -/
def nliOpen {G : Type} [F64 G] (shown : G → Shown F S) (field : String) (v : G) : Except (Violation F S) Unit :=
  refuse (v ≤ 0 ∨ 1 ≤ v) (.nliFieldOutOfRange field (shown v) "must be in range (0.0, 1.0) exclusive")

/-- A number of `[inference]` from 0 to 1. -/
def nliClosed {G : Type} [F64 G] (shown : G → Shown F S) (field : String) (v : G) (reason : String) :
    Except (Violation F S) Unit :=
  refuse (v < 0 ∨ 1 < v) (.nliFieldOutOfRange field (shown v) reason)

/-- A checksum of a model. -/
def checkSha (field : String) : Option String → Except (Violation F S) Unit
  | none => .ok ()
  | some sha => refuse (sha.utf8ByteSize ≠ 64 ∨ ¬ sha.toList.all isHexDigit)
      (.nliFieldOutOfRange field (.text (sha ++ " (" ++ toString sha.utf8ByteSize ++ " chars)"))
        "must be a 64-character lowercase hex string")

/-- `is_recognized_nli_model_name`. A letter beyond ASCII is lowered to no letter of these names. -/
def isRecognizedNliModelName (name : String) : Bool :=
  decide (name.toLower ∈ ["minilm2", "minilm2-q8", "deberta", "deberta-q8"])

/-- The check of `nli_model_name`. -/
def checkModelName : Option String → Except (Violation F S) Unit
  | none => .ok ()
  | some name => refuse (¬ isRecognizedNliModelName name) (.nliFieldOutOfRange "nli_model_name" (.text name)
      "unrecognized model name; valid values: minilm2, minilm2-q8, deberta, deberta-q8")

/-- A fusion weight. -/
def fusionWeight (check : String × F) : Except (Violation F S) Unit :=
  nliClosed .double check.1 check.2 "fusion weight must be in range [0.0, 1.0]"

/-- `f32::MAX`. -/
def f32Max : S := 3.40282347e38

/-- A weight with no upper end: finite and not negative. -/
def goalWeight (field : String) (v : S) : Except (Violation F S) Unit :=
  refuse (f32Max < v ∨ v < 0) (.nliFieldOutOfRange field (.single v) "must be finite and non-negative")

/-- The checks of the models and their thresholds. -/
def InferenceConfig.validateNli (i : InferenceConfig F S) : Except (Violation F S) Unit := do
  refuse (i.rayonPoolSize < 1 ∨ 64 < i.rayonPoolSize) (.inferencePoolSizeOutOfRange i.rayonPoolSize)
  checkSha "embedding_model_sha256" i.embeddingModelSha256
  nliCount "nli_top_k" i.nliTopK 1 100 "must be in range [1, 100]"
  nliCount "max_contradicts_per_tick" i.maxContradictsPerTick 1 100 "must be in range [1, 100]"
  nliOpen .single "nli_entailment_threshold" i.nliEntailmentThreshold
  nliOpen .single "nli_contradiction_threshold" i.nliContradictionThreshold
  nliOpen .single "nli_auto_quarantine_threshold" i.nliAutoQuarantineThreshold
  checkModelName i.nliModelName
  checkSha "nli_model_sha256" i.nliModelSha256
  refuse (i.nliAutoQuarantineThreshold ≤ i.nliContradictionThreshold)
    (.nliThresholdInvariantViolated i.nliAutoQuarantineThreshold i.nliContradictionThreshold)
  nliOpen .single "supports_candidate_threshold" i.supportsCandidateThreshold
  nliOpen .single "supports_edge_threshold" i.supportsEdgeThreshold
  refuse (i.supportsEdgeThreshold ≤ i.supportsCandidateThreshold)
    (.graphInferenceThresholdInvariantViolated i.supportsCandidateThreshold i.supportsEdgeThreshold)
  nliCount "max_graph_inference_per_tick" i.maxGraphInferencePerTick 1 1000 "must be in range [1, 1000]"
  nliCount "max_co_access_promotion_per_tick" i.maxCoAccessPromotionPerTick 1 10000 "must be in range [1, 10000]"
  nliCount "graph_inference_k" i.graphInferenceK 1 100 "must be in range [1, 100]"

/-- The six weights whose sum is bounded. -/
def InferenceConfig.fusionWeights (i : InferenceConfig F S) : List (String × F) :=
  [("w_sim", i.wSim), ("w_nli", i.wNli), ("w_conf", i.wConf), ("w_coac", i.wCoac), ("w_util", i.wUtil),
    ("w_prov", i.wProv)]

/-- The weights that are not part of the sum. -/
def InferenceConfig.phaseWeights (i : InferenceConfig F S) : List (String × F) :=
  [("w_phase_histogram", i.wPhaseHistogram), ("w_phase_explicit", i.wPhaseExplicit)]

/-- `fusion_weight_sum`. -/
def InferenceConfig.fusionWeightSum (i : InferenceConfig F S) : F :=
  i.wSim + i.wNli + i.wConf + i.wCoac + i.wUtil + i.wProv

/-- The checks of the fusion weights. -/
def InferenceConfig.validateWeights (i : InferenceConfig F S) : Except (Violation F S) Unit := do
  i.fusionWeights.forM fusionWeight
  i.phaseWeights.forM fusionWeight
  refuse (1 < i.fusionWeightSum)
    (.fusionWeightSumExceeded i.fusionWeightSum i.wSim i.wNli i.wConf i.wCoac i.wUtil i.wProv)

/-- The checks of the phase table, the page rank and the graph. -/
def InferenceConfig.validateGraph (i : InferenceConfig F S) : Except (Violation F S) Unit := do
  nliCount "phase_freq_lookback_days" i.phaseFreqLookbackDays 1 3650 "must be in range [1, 3650]"
  nliCount "min_phase_session_pairs" i.minPhaseSessionPairs 1 1000 "must be in range [1, 1000]"
  nliOpen .double "ppr_alpha" i.pprAlpha
  nliCount "ppr_iterations" i.pprIterations 1 100 "must be in range [1, 100] inclusive"
  nliOpen .double "ppr_inclusion_threshold" i.pprInclusionThreshold
  nliClosed .double "ppr_blend_weight" i.pprBlendWeight "must be in range [0.0, 1.0] inclusive"
  nliCount "ppr_max_expand" i.pprMaxExpand 1 500 "must be in range [1, 500] inclusive"
  nliCount "heal_pass_batch_size" i.healPassBatchSize 1 1000 "must be in range [1, 1000]"
  nliOpen .single "nli_informs_cosine_floor" i.nliInformsCosineFloor
  nliClosed .single "nli_informs_ppr_weight" i.nliInformsPprWeight "must be in range [0.0, 1.0] inclusive"
  nliOpen .single "supports_cosine_threshold" i.supportsCosineThreshold
  nliCount "max_s1_edges_per_tick" i.maxS1EdgesPerTick 1 10000 "must be in range [1, 10000]"
  nliCount "max_s2_edges_per_tick" i.maxS2EdgesPerTick 1 10000 "must be in range [1, 10000]"
  nliCount "s8_batch_interval_ticks" i.s8BatchIntervalTicks 1 1000 "must be in range [1, 1000]"
  nliCount "max_s8_pairs_per_batch" i.maxS8PairsPerBatch 1 10000 "must be in range [1, 10000]"
  nliCount "expansion_depth" i.expansionDepth 1 10 "must be in range [1, 10] inclusive"
  nliCount "max_expansion_candidates" i.maxExpansionCandidates 1 1000 "must be in range [1, 1000] inclusive"
  refuse (i.goalClusterSimilarityThreshold ≤ 0 ∨ 1 < i.goalClusterSimilarityThreshold)
    (.nliFieldOutOfRange "goal_cluster_similarity_threshold" (.single i.goalClusterSimilarityThreshold)
      "must be in (0.0, 1.0]")
  goalWeight "w_goal_cluster_conf" i.wGoalClusterConf
  goalWeight "w_goal_boost" i.wGoalBoost

/-- `InferenceConfig::validate`. -/
def InferenceConfig.validate (i : InferenceConfig F S) : Except (Violation F S) Unit := do
  i.validateNli
  i.validateWeights
  i.validateGraph

/-! ## Retention, store, transport -/

/-- A count of `[retention]` that a bound refuses. -/
def retentionCount (field : String) (v : Nat) (bad : Prop) [Decidable bad] (reason : String) :
    Except (Violation F S) Unit :=
  refuse bad (.retentionFieldOutOfRange field (.count v) reason)

/-- The check of `transcript_retention`. -/
def checkTranscriptRetention : TranscriptRetention → Except (Violation F S) Unit
  | .purgeOnCycleClose => .ok ()
  | .retainDays _ => .error (.retentionFieldOutOfRange "transcript_retention" (.text "RetainDays")
      "RetainDays is an enterprise-only policy; the OSS build cannot durably retain raw transcript (no encrypt-at-rest). Use PurgeOnCycleClose.")

/-- `RetentionConfig::validate`. -/
def RetentionConfig.validate (r : RetentionConfig F) : Except (Violation F S) Unit := do
  let n := r.activityDetailRetentionCycles
  retentionCount "activity_detail_retention_cycles" n (n < 1 ∨ 10000 < n) "must be in range [1, 10000]"
  let n := r.auditLogRetentionDays
  retentionCount "audit_log_retention_days" n (n < 1 ∨ 3650 < n) "must be in range [1, 3650]"
  let n := r.maxCyclesPerTick
  retentionCount "max_cycles_per_tick" n (n < 1 ∨ 1000 < n) "must be in range [1, 1000]"
  checkTranscriptRetention r.transcriptRetention
  let n := r.transcriptBufferMaxBytes
  retentionCount "transcript_buffer_max_bytes" n (n < 65536) "must be >= 65536 (64 KiB — one max client delta)"
  let session := r.transcriptCandidateSessionCapBytes
  retentionCount "transcript_candidate_session_cap_bytes" session (session = 0) "must be > 0"
  let cycle := r.transcriptCandidateCycleCapBytes
  retentionCount "transcript_candidate_cycle_cap_bytes" cycle (cycle = 0) "must be > 0"
  retentionCount "transcript_candidate_session_cap_bytes" session (cycle < session)
    "must not exceed transcript_candidate_cycle_cap_bytes"
  let fraction := r.transcriptFallbackHoleFraction
  refuse (fraction < 0 ∨ 1 < fraction)
    (.retentionFieldOutOfRange "transcript_fallback_hole_fraction" (.double fraction) "must be in range [0.0, 1.0]")
  let n := r.transcriptHoldMaxSessions
  retentionCount "transcript_hold_max_sessions" n (n = 0) "must be >= 1"
  let n := r.transcriptHoldTtlSecs
  retentionCount "transcript_hold_ttl_secs" n (n = 0) "must be >= 1"

/-- `StoreConfig::validate`. -/
def StoreConfig.validate (s : StoreConfig) : Except (Violation F S) Unit :=
  refuse (s.maxContentBytes < 1000 ∨ 1048576 < s.maxContentBytes)
    (.storeFieldOutOfRange "max_content_bytes" (.count s.maxContentBytes) "must be in range [1000, 1048576]")

/-- A field of `[http]` that is not zero. -/
def httpPositive (field : String) (v : Nat) : Except (Violation F S) Unit :=
  refuse (v = 0) (.httpFieldInvalid field "0" "must be greater than 0")

/-- `validate_http_config`. -/
def validateHttpConfig (h : HttpConfig) : Except (Violation F S) Unit := do
  refuse (¬ isIpAddr h.bindAddress.toList) (.httpFieldInvalid "bind_address" h.bindAddress "must be a valid IP address")
  httpPositive "max_concurrent_sessions" h.maxConcurrentSessions
  httpPositive "max_request_body_bytes" h.maxRequestBodyBytes
  httpPositive "connection_timeout_secs" h.connectionTimeoutSecs

/-- `validate_tls_config`. -/
def validateTlsConfig (t : TlsConfig) : Except (Violation F S) Unit :=
  if t.isEnabled then
    match t.certPath, t.keyPath with
    | some _, some _ => .ok ()
    | none, _ => .error (.tlsFieldInvalid "tls.enabled = true requires tls.cert_path")
    | _, none => .error (.tlsFieldInvalid "tls.enabled = true requires tls.key_path")
  else .ok ()

/-! ## The whole -/

/-- `validate_config`, without the path. -/
def UnimatrixConfig.check (path : String) (config : UnimatrixConfig F S) : Except (Violation F S) Unit := do
  config.knowledge.validate
  checkInstructions config.server.instructions
  config.agents.validate
  checkPreset config.profile.preset config.confidence.weights config.knowledge.freshnessHalfLifeHours
  config.observation.domainPacks.forM checkDomainPack
  config.inference.validate
  config.retention.validate
  config.store.validate
  validateHttpConfig config.http
  validateTlsConfig config.tls
  (validateGraphPenalty config.graphPenalty path).mapError .graphPenaltyFieldOutOfRange
  discard (validateProjectsConfig config.projects)

/-- `validate_config`. -/
def validateConfig (config : UnimatrixConfig F S) (path : String) : Except (ConfigError F S) Unit :=
  (config.check path).mapError fun v => ⟨path, v⟩

/-- Every section passes its checks. -/
structure UnimatrixConfig.Checks (config : UnimatrixConfig F S) (path : String) : Prop where
  knowledge : (config.knowledge.validate : Except (Violation F S) Unit) = .ok ()
  instructions : (checkInstructions config.server.instructions : Except (Violation F S) Unit) = .ok ()
  agents : (config.agents.validate : Except (Violation F S) Unit) = .ok ()
  preset : (checkPreset config.profile.preset config.confidence.weights config.knowledge.freshnessHalfLifeHours :
    Except (Violation F S) Unit) = .ok ()
  domainPacks : (config.observation.domainPacks.forM checkDomainPack : Except (Violation F S) Unit) = .ok ()
  inference : config.inference.validate = .ok ()
  retention : (config.retention.validate : Except (Violation F S) Unit) = .ok ()
  store : (config.store.validate : Except (Violation F S) Unit) = .ok ()
  http : (validateHttpConfig config.http : Except (Violation F S) Unit) = .ok ()
  tls : (validateTlsConfig config.tls : Except (Violation F S) Unit) = .ok ()
  graphPenalty : validateGraphPenalty config.graphPenalty path = .ok ()
  projects : ∃ slugs, (validateProjectsConfig config.projects : Except (Violation F S) (List ProjectSlug)) = .ok slugs

/-- **A configuration passes when every section does.** -/
theorem validateConfig_eq_ok_iff {config : UnimatrixConfig F S} {path : String} :
    validateConfig config path = .ok () ↔ config.Checks path := by
  unfold validateConfig UnimatrixConfig.check
  simp only [Except.mapError_eq_ok_iff, Except.andThen_eq_ok, Except.discard_eq_ok_iff]
  constructor
  · rintro ⟨hknowledge, hinstructions, hagents, hpreset, hpacks, hinference, hretention, hstore, hhttp, htls, hgraph,
      hprojects⟩
    exact ⟨hknowledge, hinstructions, hagents, hpreset, hpacks, hinference, hretention, hstore, hhttp, htls, hgraph,
      hprojects⟩
  · intro h
    exact ⟨h.knowledge, h.instructions, h.agents, h.preset, h.domainPacks, h.inference, h.retention, h.store, h.http,
      h.tls, h.graphPenalty, h.projects⟩

omit [F64 F] [F64 S] in
/-- The instructions that pass: not too long, and no expression for an injection matches anywhere. -/
theorem checkInstructions_eq_ok_iff {instructions : Option String} :
    (checkInstructions instructions : Except (Violation F S) Unit) = .ok () ↔
      ∀ text ∈ instructions, text.utf8ByteSize ≤ instructionsMaxBytes ∧
        ∀ pattern ∈ injectionPatterns, captures pattern.2 text.toList = [] := by
  cases instructions with
  | none => simp [checkInstructions]
  | some text =>
    simp only [Option.mem_def, Option.some.injEq, forall_eq', ← scanTitle_eq_none]
    unfold checkInstructions
    rw [Except.andThen_eq_ok, refuse_eq_ok, not_lt]
    cases scanTitle text.toList <;> simp

/-- The weights that pass sum to at most one. -/
theorem InferenceConfig.fusionWeightSum_le {i : InferenceConfig F S} (h : i.validate = .ok ()) :
    i.fusionWeightSum ≤ 1 := by
  obtain ⟨-, hweights, -⟩ : _ ∧ i.validateWeights = .ok () ∧ _ := by
    simpa only [InferenceConfig.validate, Except.andThen_eq_ok] using h
  unfold InferenceConfig.validateWeights at hweights
  simp only [Except.andThen_eq_ok, refuse_eq_ok, not_lt] at hweights
  exact hweights.2.2

end Checks

end Unimatrix.Config
