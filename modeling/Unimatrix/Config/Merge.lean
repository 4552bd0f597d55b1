import Unimatrix.Config.Validate
import Unimatrix.Lib.Overlay

/-!
# Merging two configurations

Model of `merge_configs` of `config.rs`: every field by the rule that stands there for it.

* `pick`: the project's value where it is not the default. `pick64` and `pick32`: where it is further from the default
  than an epsilon. `Option.or`: where there is one. `pin`: where the global has none.
-/

namespace Unimatrix.Config

open Overlay

variable {F S : Type} [F64 F] [F64 S]

/-- `f64::EPSILON`. -/
def epsilon64 : F := 2.2204460492503131e-16

/-- `f32::EPSILON`. -/
def epsilon32 : S := 1.19209290e-07

/-- `(x - y).abs() > epsilon`. -/
def away (epsilon x y : F) : Bool := decide (epsilon < abs (x - y))

/-- An `f64` of the merge. -/
def pick64 (default project global : F) : F := pickBy (away epsilon64) default project global

theorem pick64_eq (default project global : F) :
    pick64 default project global = if epsilon64 < abs (project - default) then project else global := by
  by_cases h : epsilon64 < abs (project - default) <;> simp [pick64, pickBy, away, h]

/-- An `f32` of the merge. -/
def pick32 (default project global : S) : S := pickBy (away epsilon32) default project global

/-- The part of `merge_configs` for `[knowledge]`. -/
def mergeKnowledge (default global project : KnowledgeConfig F) : KnowledgeConfig F where
  categories := pick default.categories project.categories global.categories
  boostedCategories := pick default.boostedCategories project.boostedCategories global.boostedCategories
  adaptiveCategories := pick default.adaptiveCategories project.adaptiveCategories global.adaptiveCategories
  freshnessHalfLifeHours := project.freshnessHalfLifeHours.or global.freshnessHalfLifeHours

/-- The part of `merge_configs` for `[agents]`. -/
def mergeAgents (default global project : AgentsConfig) : AgentsConfig where
  defaultTrust := pick default.defaultTrust project.defaultTrust global.defaultTrust
  sessionCapabilities := pick default.sessionCapabilities project.sessionCapabilities global.sessionCapabilities

/-- The part of `merge_configs` for `[inference]`. The two checksums are the pins. -/
def mergeInference (default global project : InferenceConfig F S) : InferenceConfig F S where
  rayonPoolSize := pick default.rayonPoolSize project.rayonPoolSize global.rayonPoolSize
  embeddingModelSha256 := pin project.embeddingModelSha256 global.embeddingModelSha256
  nliEnabled := pick default.nliEnabled project.nliEnabled global.nliEnabled
  nliModelName := project.nliModelName.or global.nliModelName
  nliModelPath := project.nliModelPath.or global.nliModelPath
  nliModelSha256 := pin project.nliModelSha256 global.nliModelSha256
  nliTopK := pick default.nliTopK project.nliTopK global.nliTopK
  nliEntailmentThreshold :=
    pick32 default.nliEntailmentThreshold project.nliEntailmentThreshold global.nliEntailmentThreshold
  nliContradictionThreshold :=
    pick32 default.nliContradictionThreshold project.nliContradictionThreshold global.nliContradictionThreshold
  maxContradictsPerTick := pick default.maxContradictsPerTick project.maxContradictsPerTick global.maxContradictsPerTick
  nliAutoQuarantineThreshold :=
    pick32 default.nliAutoQuarantineThreshold project.nliAutoQuarantineThreshold global.nliAutoQuarantineThreshold
  wSim := pick64 default.wSim project.wSim global.wSim
  wNli := pick64 default.wNli project.wNli global.wNli
  wConf := pick64 default.wConf project.wConf global.wConf
  wCoac := pick64 default.wCoac project.wCoac global.wCoac
  wUtil := pick64 default.wUtil project.wUtil global.wUtil
  wProv := pick64 default.wProv project.wProv global.wProv
  wPhaseHistogram := pick64 default.wPhaseHistogram project.wPhaseHistogram global.wPhaseHistogram
  wPhaseExplicit := pick64 default.wPhaseExplicit project.wPhaseExplicit global.wPhaseExplicit
  supportsCandidateThreshold :=
    pick32 default.supportsCandidateThreshold project.supportsCandidateThreshold global.supportsCandidateThreshold
  supportsEdgeThreshold :=
    pick32 default.supportsEdgeThreshold project.supportsEdgeThreshold global.supportsEdgeThreshold
  maxGraphInferencePerTick :=
    pick default.maxGraphInferencePerTick project.maxGraphInferencePerTick global.maxGraphInferencePerTick
  graphInferenceK := pick default.graphInferenceK project.graphInferenceK global.graphInferenceK
  maxCoAccessPromotionPerTick :=
    pick default.maxCoAccessPromotionPerTick project.maxCoAccessPromotionPerTick global.maxCoAccessPromotionPerTick
  healPassBatchSize := pick default.healPassBatchSize project.healPassBatchSize global.healPassBatchSize
  phaseFreqLookbackDays := pick default.phaseFreqLookbackDays project.phaseFreqLookbackDays global.phaseFreqLookbackDays
  minPhaseSessionPairs := pick default.minPhaseSessionPairs project.minPhaseSessionPairs global.minPhaseSessionPairs
  pprAlpha := pick64 default.pprAlpha project.pprAlpha global.pprAlpha
  pprIterations := pick default.pprIterations project.pprIterations global.pprIterations
  pprInclusionThreshold :=
    pick64 default.pprInclusionThreshold project.pprInclusionThreshold global.pprInclusionThreshold
  pprBlendWeight := pick64 default.pprBlendWeight project.pprBlendWeight global.pprBlendWeight
  pprMaxExpand := pick default.pprMaxExpand project.pprMaxExpand global.pprMaxExpand
  informsCategoryPairs := pick default.informsCategoryPairs project.informsCategoryPairs global.informsCategoryPairs
  nliInformsCosineFloor :=
    pick32 default.nliInformsCosineFloor project.nliInformsCosineFloor global.nliInformsCosineFloor
  nliInformsPprWeight := pick32 default.nliInformsPprWeight project.nliInformsPprWeight global.nliInformsPprWeight
  supportsCosineThreshold :=
    pick32 default.supportsCosineThreshold project.supportsCosineThreshold global.supportsCosineThreshold
  s2Vocabulary := pick default.s2Vocabulary project.s2Vocabulary global.s2Vocabulary
  maxS1EdgesPerTick := pick default.maxS1EdgesPerTick project.maxS1EdgesPerTick global.maxS1EdgesPerTick
  maxS2EdgesPerTick := pick default.maxS2EdgesPerTick project.maxS2EdgesPerTick global.maxS2EdgesPerTick
  s8BatchIntervalTicks := pick default.s8BatchIntervalTicks project.s8BatchIntervalTicks global.s8BatchIntervalTicks
  maxS8PairsPerBatch := pick default.maxS8PairsPerBatch project.maxS8PairsPerBatch global.maxS8PairsPerBatch
  pprExpanderEnabled := pick default.pprExpanderEnabled project.pprExpanderEnabled global.pprExpanderEnabled
  expansionDepth := pick default.expansionDepth project.expansionDepth global.expansionDepth
  maxExpansionCandidates :=
    pick default.maxExpansionCandidates project.maxExpansionCandidates global.maxExpansionCandidates
  goalClusterSimilarityThreshold :=
    pick32 default.goalClusterSimilarityThreshold project.goalClusterSimilarityThreshold
      global.goalClusterSimilarityThreshold
  wGoalClusterConf := pick32 default.wGoalClusterConf project.wGoalClusterConf global.wGoalClusterConf
  wGoalBoost := pick32 default.wGoalBoost project.wGoalBoost global.wGoalBoost

/-- The part of `merge_configs` for `[retention]`. The fraction is compared with `!=`. -/
def mergeRetention (default global project : RetentionConfig F) : RetentionConfig F where
  activityDetailRetentionCycles :=
    pick default.activityDetailRetentionCycles project.activityDetailRetentionCycles
      global.activityDetailRetentionCycles
  auditLogRetentionDays := pick default.auditLogRetentionDays project.auditLogRetentionDays global.auditLogRetentionDays
  maxCyclesPerTick := pick default.maxCyclesPerTick project.maxCyclesPerTick global.maxCyclesPerTick
  transcriptRetention := pick default.transcriptRetention project.transcriptRetention global.transcriptRetention
  transcriptBufferMaxBytes :=
    pick default.transcriptBufferMaxBytes project.transcriptBufferMaxBytes global.transcriptBufferMaxBytes
  transcriptCandidateSessionCapBytes :=
    pick default.transcriptCandidateSessionCapBytes project.transcriptCandidateSessionCapBytes
      global.transcriptCandidateSessionCapBytes
  transcriptCandidateCycleCapBytes :=
    pick default.transcriptCandidateCycleCapBytes project.transcriptCandidateCycleCapBytes
      global.transcriptCandidateCycleCapBytes
  transcriptFallbackHoleFraction :=
    pick default.transcriptFallbackHoleFraction project.transcriptFallbackHoleFraction
      global.transcriptFallbackHoleFraction
  transcriptHoldMaxSessions :=
    pick default.transcriptHoldMaxSessions project.transcriptHoldMaxSessions global.transcriptHoldMaxSessions
  transcriptHoldTtlSecs := pick default.transcriptHoldTtlSecs project.transcriptHoldTtlSecs global.transcriptHoldTtlSecs

/-- `merge_configs`, on a machine with this many processors. -/
def mergeConfigs (numCpus : Nat) (global project : UnimatrixConfig F S) : UnimatrixConfig F S :=
  let default : UnimatrixConfig F S := UnimatrixConfig.default numCpus
  { profile := ⟨pick default.profile.preset project.profile.preset global.profile.preset⟩
    knowledge := mergeKnowledge default.knowledge global.knowledge project.knowledge
    server := ⟨project.server.instructions.or global.server.instructions⟩
    agents := mergeAgents default.agents global.agents project.agents
    confidence := ⟨project.confidence.weights.or global.confidence.weights⟩
    observation :=
      ⟨pick default.observation.domainPacks project.observation.domainPacks global.observation.domainPacks⟩
    inference := mergeInference default.inference global.inference project.inference
    retention := mergeRetention default.retention global.retention project.retention
    transcriptSignals := pick default.transcriptSignals project.transcriptSignals global.transcriptSignals
    store := ⟨pick default.store.maxContentBytes project.store.maxContentBytes global.store.maxContentBytes⟩
    http := pick default.http project.http global.http
    tls := pick default.tls project.tls global.tls
    graphPenalty := pick default.graphPenalty project.graphPenalty global.graphPenalty
    projects := pick default.projects project.projects global.projects }

end Unimatrix.Config
