import Unimatrix.Config.Merge
import Unimatrix.Lib.Except
import Unimatrix.Lib.Utf8

/-!
# The overlay of a slug

Model of the classification of the keys and of `load_single_config` (`config.rs`), and of `resolve_slug_config`
(`slug_config.rs`).

* `PlainKey`, `NumberKey`, `PinKey`: the keys of the classification that are fields. `permissive` is none
  (`exists_key_of_mem`).
* **`resolved_overlaid`**: what the resolved configuration has for each key. A pin is the global's where the global sets
  it. `rayon_pool_size`, `tls` and `http` are locked where the servers are built, not in the merge: a file that sets
  them wins here.
* **`respects_iff`**: when the classification is a description of the merge itself.
-/

namespace Unimatrix.Config

open Overlay

/-! ## The classification -/

/-- `OverlayDisposition`. -/
inductive OverlayDisposition where
  | perSlugOverlayable
  | globalLocked
  deriving DecidableEq, Repr

/-- `ConfigKeyClass`. -/
structure ConfigKeyClass where
  key : String
  disposition : OverlayDisposition
  deriving DecidableEq, Repr

/-- `PER_SLUG_CONFIG_CLASSIFICATION`. -/
def perSlugConfigClassification : List ConfigKeyClass :=
  [⟨"knowledge.categories", .perSlugOverlayable⟩,
    ⟨"knowledge.boosted_categories", .perSlugOverlayable⟩,
    ⟨"knowledge.adaptive_categories", .perSlugOverlayable⟩,
    ⟨"confidence.weights", .perSlugOverlayable⟩,
    ⟨"observation.domain_packs", .perSlugOverlayable⟩,
    ⟨"inference.nli_top_k", .perSlugOverlayable⟩,
    ⟨"inference.nli_enabled", .perSlugOverlayable⟩,
    ⟨"inference.w_sim", .perSlugOverlayable⟩,
    ⟨"inference.w_nli", .perSlugOverlayable⟩,
    ⟨"inference.w_conf", .perSlugOverlayable⟩,
    ⟨"inference.w_coac", .perSlugOverlayable⟩,
    ⟨"inference.w_util", .perSlugOverlayable⟩,
    ⟨"inference.w_prov", .perSlugOverlayable⟩,
    ⟨"inference.ppr_alpha", .perSlugOverlayable⟩,
    ⟨"inference.ppr_blend_weight", .perSlugOverlayable⟩,
    ⟨"server.instructions", .perSlugOverlayable⟩,
    ⟨"inference.embedding_model_sha256", .globalLocked⟩,
    ⟨"inference.nli_model_sha256", .globalLocked⟩,
    ⟨"inference.rayon_pool_size", .globalLocked⟩,
    ⟨"permissive", .globalLocked⟩,
    ⟨"tls", .globalLocked⟩,
    ⟨"http", .globalLocked⟩]

/-- `is_per_slug_overlayable`. -/
def isPerSlugOverlayable (key : String) : Bool :=
  (perSlugConfigClassification.find? fun entry => entry.key = key).any
    fun entry => entry.disposition = .perSlugOverlayable

/-- The keys that are merged by the rule for a value with equality. -/
inductive PlainKey where
  | categories
  | boostedCategories
  | adaptiveCategories
  | weights
  | domainPacks
  | nliTopK
  | nliEnabled
  | instructions
  | rayonPoolSize
  | tls
  | http
  deriving DecidableEq, Repr

/-- The keys that are an `f64`. -/
inductive NumberKey where
  | wSim
  | wNli
  | wConf
  | wCoac
  | wUtil
  | wProv
  | pprAlpha
  | pprBlendWeight
  deriving DecidableEq, Repr

/-- The checksums. -/
inductive PinKey where
  | embeddingModelSha256
  | nliModelSha256
  deriving DecidableEq, Repr

/-- A key that is a field. -/
inductive Key where
  | plain (k : PlainKey)
  | number (k : NumberKey)
  | pin (k : PinKey)
  deriving DecidableEq, Repr

/-- `ConfigKeyClass::key`. -/
def PlainKey.name : PlainKey → String
  | .categories => "knowledge.categories"
  | .boostedCategories => "knowledge.boosted_categories"
  | .adaptiveCategories => "knowledge.adaptive_categories"
  | .weights => "confidence.weights"
  | .domainPacks => "observation.domain_packs"
  | .nliTopK => "inference.nli_top_k"
  | .nliEnabled => "inference.nli_enabled"
  | .instructions => "server.instructions"
  | .rayonPoolSize => "inference.rayon_pool_size"
  | .tls => "tls"
  | .http => "http"

/-- `ConfigKeyClass::key`. -/
def NumberKey.name : NumberKey → String
  | .wSim => "inference.w_sim"
  | .wNli => "inference.w_nli"
  | .wConf => "inference.w_conf"
  | .wCoac => "inference.w_coac"
  | .wUtil => "inference.w_util"
  | .wProv => "inference.w_prov"
  | .pprAlpha => "inference.ppr_alpha"
  | .pprBlendWeight => "inference.ppr_blend_weight"

/-- `ConfigKeyClass::key`. -/
def PinKey.name : PinKey → String
  | .embeddingModelSha256 => "inference.embedding_model_sha256"
  | .nliModelSha256 => "inference.nli_model_sha256"

/-- `ConfigKeyClass::key`. -/
def Key.name : Key → String
  | .plain k => k.name
  | .number k => k.name
  | .pin k => k.name

/-- The `CONSTRUCTION_LOCKED_KEYS` that are fields: locked where the servers are built. -/
def PlainKey.isConstructionLocked : PlainKey → Bool
  | .rayonPoolSize => true
  | .tls => true
  | .http => true
  | _ => false

/-- The keys that are fields. -/
def Key.all : List Key :=
  [.plain .categories, .plain .boostedCategories, .plain .adaptiveCategories, .plain .weights, .plain .domainPacks,
    .plain .nliTopK, .plain .nliEnabled, .plain .instructions, .plain .rayonPoolSize, .plain .tls, .plain .http,
    .number .wSim, .number .wNli, .number .wConf, .number .wCoac, .number .wUtil, .number .wProv, .number .pprAlpha,
    .number .pprBlendWeight, .pin .embeddingModelSha256, .pin .nliModelSha256]

/-- The keys of the classification are the fields and one flag of the process. -/
theorem exists_key_of_mem {entry : ConfigKeyClass} (h : entry ∈ perSlugConfigClassification) :
    entry.key = "permissive" ∨ ∃ k : Key, k.name = entry.key := by
  have hall : ∀ e ∈ perSlugConfigClassification, e.key = "permissive" ∨ e.key ∈ Key.all.map Key.name := by decide
  obtain hflag | hkey := hall entry h
  · exact .inl hflag
  · obtain ⟨k, -, hk⟩ := List.mem_map.mp hkey
    exact .inr ⟨k, hk⟩

/-- A key is locked or overlayable. -/
theorem Key.locked_iff (k : Key) :
    ⟨k.name, .globalLocked⟩ ∈ perSlugConfigClassification ↔ isPerSlugOverlayable k.name = false := by
  obtain k | k | k := k <;> cases k <;> decide

theorem PlainKey.isPerSlugOverlayable_name (k : PlainKey) :
    isPerSlugOverlayable k.name = !k.isConstructionLocked := by
  cases k <;> decide

theorem NumberKey.isPerSlugOverlayable_name (k : NumberKey) : isPerSlugOverlayable k.name = true := by
  cases k <;> decide

theorem PinKey.isPerSlugOverlayable_name (k : PinKey) : isPerSlugOverlayable k.name = false := by
  cases k <;> decide

/-! ## The fields -/

section Fields

variable (F S : Type) [F64 F] [F64 S]

/-- The type of the field. -/
def PlainKey.Value : PlainKey → Type
  | .categories => List String
  | .boostedCategories => List String
  | .adaptiveCategories => List String
  | .weights => Option (ConfidenceWeights F)
  | .domainPacks => List DomainPackConfig
  | .nliTopK => Nat
  | .nliEnabled => Bool
  | .instructions => Option String
  | .rayonPoolSize => Nat
  | .tls => TlsConfig
  | .http => HttpConfig

instance : ∀ k : PlainKey, DecidableEq (k.Value F)
  | .categories => inferInstanceAs (DecidableEq (List String))
  | .boostedCategories => inferInstanceAs (DecidableEq (List String))
  | .adaptiveCategories => inferInstanceAs (DecidableEq (List String))
  | .weights => inferInstanceAs (DecidableEq (Option (ConfidenceWeights F)))
  | .domainPacks => inferInstanceAs (DecidableEq (List DomainPackConfig))
  | .nliTopK => inferInstanceAs (DecidableEq Nat)
  | .nliEnabled => inferInstanceAs (DecidableEq Bool)
  | .instructions => inferInstanceAs (DecidableEq (Option String))
  | .rayonPoolSize => inferInstanceAs (DecidableEq Nat)
  | .tls => inferInstanceAs (DecidableEq TlsConfig)
  | .http => inferInstanceAs (DecidableEq HttpConfig)

/-- The type of the field. -/
def Key.Value : Key → Type
  | .plain k => k.Value F
  | .number _ => F
  | .pin _ => Option String

instance : ∀ k : Key, DecidableEq (k.Value F)
  | .plain k => inferInstanceAs (DecidableEq (k.Value F))
  | .number _ => inferInstanceAs (DecidableEq F)
  | .pin _ => inferInstanceAs (DecidableEq (Option String))

variable {F S}

/-- The field of a key. -/
def PlainKey.read (config : UnimatrixConfig F S) : (k : PlainKey) → k.Value F
  | .categories => config.knowledge.categories
  | .boostedCategories => config.knowledge.boostedCategories
  | .adaptiveCategories => config.knowledge.adaptiveCategories
  | .weights => config.confidence.weights
  | .domainPacks => config.observation.domainPacks
  | .nliTopK => config.inference.nliTopK
  | .nliEnabled => config.inference.nliEnabled
  | .instructions => config.server.instructions
  | .rayonPoolSize => config.inference.rayonPoolSize
  | .tls => config.tls
  | .http => config.http

/-- The field of a key. -/
def NumberKey.read (config : UnimatrixConfig F S) : NumberKey → F
  | .wSim => config.inference.wSim
  | .wNli => config.inference.wNli
  | .wConf => config.inference.wConf
  | .wCoac => config.inference.wCoac
  | .wUtil => config.inference.wUtil
  | .wProv => config.inference.wProv
  | .pprAlpha => config.inference.pprAlpha
  | .pprBlendWeight => config.inference.pprBlendWeight

/-- The field of a key. -/
def PinKey.read (config : UnimatrixConfig F S) : PinKey → Option String
  | .embeddingModelSha256 => config.inference.embeddingModelSha256
  | .nliModelSha256 => config.inference.nliModelSha256

/-- The field of a key. -/
def Key.read (config : UnimatrixConfig F S) : (k : Key) → k.Value F
  | .plain k => k.read config
  | .number k => @NumberKey.read F S _ _ config k
  | .pin k => k.read config

/-- The rule of the merge for a field with equality. A missing value is at its default. -/
theorem PlainKey.read_mergeConfigs (numCpus : Nat) (global project : UnimatrixConfig F S) (k : PlainKey) :
    k.read (mergeConfigs numCpus global project) =
      pick (k.read (.default numCpus : UnimatrixConfig F S)) (k.read project) (k.read global) := by
  cases k with
  | weights => exact or_eq_pick _ _
  | instructions => exact or_eq_pick _ _
  | _ => rfl

theorem NumberKey.read_mergeConfigs (numCpus : Nat) (global project : UnimatrixConfig F S) (k : NumberKey) :
    k.read (mergeConfigs numCpus global project) =
      pick64 (k.read (.default numCpus : UnimatrixConfig F S)) (k.read project) (k.read global) := by
  cases k <;> rfl

theorem PinKey.read_mergeConfigs (numCpus : Nat) (global project : UnimatrixConfig F S) (k : PinKey) :
    k.read (mergeConfigs numCpus global project) = pin (k.read project) (k.read global) := by
  cases k <;> rfl

end Fields

/-! ## The file of a slug -/

/-- What `fs::metadata` says of a file. -/
structure Metadata where
  isFile : Bool
  mode : Nat

/-- What the server runs on: the files, the parser of TOML, the number of processors and the texts of the errors. -/
structure Host (F S : Type) [F64 F] [F64 S] where
  metadata : String → Except String Metadata
  read : String → Except String (List UInt8)
  fromToml : String → Except String (UnimatrixConfig F S)
  numCpus : Nat
  display : ConfigError F S → String

/-- `Path::join` of a relative part. -/
def join (base part : String) : String :=
  if base = "" ∨ base.toList.getLast? = some '/' then base ++ part else base ++ "/" ++ part

/-- `CONFIG_MAX_BYTES`. -/
def configMaxBytes : Nat := 65536

/-- `PROJECT_CONFIG_NAME`. -/
def projectConfigName : String := "config.toml"

/-- The file of the slug. -/
def slugPath (baseDir : String) (slug : ProjectSlug) : String := join (join baseDir slug.text) projectConfigName

/-- `config_err`, the text of the `ServerError::Config`. -/
def configErr (slug : ProjectSlug) (path detail : String) : String :=
  "per-slug config for slug '" ++ slug.text ++ "' at " ++ path ++ ": " ++ detail

section Resolve

variable {F S : Type} [F64 F] [F64 S] (host : Host F S)

/-- `check_permissions`. A file that its group can write is only warned of. -/
def checkPermissions (path : String) : Except (ConfigError F S) Unit := do
  let metadata ← (host.metadata path).mapError fun e => ⟨path, .malformedToml e⟩
  refuse (metadata.mode &&& 2 ≠ 0) ⟨path, .worldWritable⟩

/-- `load_single_config`. -/
def loadSingleConfig (path : String) : Except (ConfigError F S) (UnimatrixConfig F S) := do
  checkPermissions host path
  let bytes ← (host.read path).mapError fun e => ⟨path, .malformedToml e⟩
  refuse (configMaxBytes < bytes.length) ⟨path, .fileTooLarge bytes.length⟩
  let config ← (host.fromToml (String.ofList (Utf8.decode bytes))).mapError fun e => ⟨path, .malformedToml e⟩
  validateConfig config path
  return config

/-- `fs::metadata(path).map(|m| m.is_file()).unwrap_or(false)`. -/
def isFile (path : String) : Bool :=
  match host.metadata path with
  | .ok metadata => metadata.isFile
  | .error _ => false

/-- The arm of `resolve_slug_config` for a slug with a file. -/
def overlayFile (slug : ProjectSlug) (path : String) (global : UnimatrixConfig F S) :
    Except String (UnimatrixConfig F S) := do
  let slugFile ← (loadSingleConfig host path).mapError fun e => configErr slug path (host.display e)
  (validateConfig slugFile path).mapError fun e => configErr slug path (host.display e)
  let merged := mergeConfigs host.numCpus global slugFile
  (validateConfig merged path).mapError fun e => configErr slug path (host.display e)
  return merged

/-- `resolve_slug_config`. -/
def resolveSlugConfig (baseDir : String) (slug : ProjectSlug) (global : UnimatrixConfig F S) :
    Except String (UnimatrixConfig F S) :=
  let path := slugPath baseDir slug
  if isFile host path then overlayFile host slug path global else .ok global

end Resolve

/-! ## What is resolved -/

section Results

variable {F S : Type} [F64 F] [F64 S]

/-- Without a file, the global configuration as it is. -/
theorem resolveSlugConfig_of_not_isFile {host : Host F S} {baseDir : String} {slug : ProjectSlug}
    (global : UnimatrixConfig F S) (h : isFile host (slugPath baseDir slug) = false) :
    resolveSlugConfig host baseDir slug global = .ok global := by
  simp [resolveSlugConfig, h]

/-- What a file has to be to be loaded. -/
theorem loadSingleConfig_eq_ok_iff {host : Host F S} {path : String} {config : UnimatrixConfig F S} :
    loadSingleConfig host path = .ok config ↔
      checkPermissions host path = .ok () ∧ ∃ bytes, host.read path = .ok bytes ∧ bytes.length ≤ configMaxBytes ∧
        host.fromToml (String.ofList (Utf8.decode bytes)) = .ok config ∧ validateConfig config path = .ok () := by
  unfold loadSingleConfig
  simp only [Except.bind_eq_ok, Except.mapError_eq_ok_iff, pure, Except.pure, Except.ok.injEq]
  constructor
  · rintro ⟨_, hmode, bytes, hread, _, hsize, config, hparse, _, hvalid, rfl⟩
    exact ⟨hmode, bytes, hread, not_lt.mp (refuse_eq_ok.mp hsize), hparse, hvalid⟩
  · rintro ⟨hmode, bytes, hread, hsize, hparse, hvalid⟩
    exact ⟨(), hmode, bytes, hread, (), refuse_eq_ok.mpr hsize.not_gt, config, hparse, (), hvalid, rfl⟩

theorem overlayFile_eq_ok_iff {host : Host F S} {slug : ProjectSlug} {path : String}
    {global resolved : UnimatrixConfig F S} :
    overlayFile host slug path global = .ok resolved ↔
      ∃ file, loadSingleConfig host path = .ok file ∧ validateConfig file path = .ok () ∧
        validateConfig (mergeConfigs host.numCpus global file) path = .ok () ∧
        mergeConfigs host.numCpus global file = resolved := by
  unfold overlayFile
  simp only [Except.bind_eq_ok, Except.mapError_eq_ok_iff, pure, Except.pure, Except.ok.injEq]
  constructor
  · rintro ⟨file, hload, _, hfile, _, hmerged, rfl⟩
    exact ⟨file, hload, hfile, hmerged, rfl⟩
  · rintro ⟨file, hload, hfile, hmerged, rfl⟩
    exact ⟨file, hload, (), hfile, (), hmerged, rfl⟩

/-- A slug with a file, and the configuration that is resolved for it. -/
structure Resolution (F S : Type) [F64 F] [F64 S] where
  host : Host F S
  baseDir : String
  slug : ProjectSlug
  global : UnimatrixConfig F S
  file : UnimatrixConfig F S
  resolved : UnimatrixConfig F S
  present : isFile host (slugPath baseDir slug) = true
  loads : loadSingleConfig host (slugPath baseDir slug) = .ok file
  resolves : resolveSlugConfig host baseDir slug global = .ok resolved

namespace Resolution

variable (r : Resolution F S)

/-- `UnimatrixConfig::default`. -/
def default : UnimatrixConfig F S := .default r.host.numCpus

theorem overlayFile_eq : overlayFile r.host r.slug (slugPath r.baseDir r.slug) r.global = .ok r.resolved := by
  have h := r.resolves
  unfold resolveSlugConfig at h
  rwa [if_pos r.present] at h

/-- **What is resolved is the merge, and it passes the checks.** -/
theorem resolved_eq : r.resolved = mergeConfigs r.host.numCpus r.global r.file ∧
    r.resolved.Checks (slugPath r.baseDir r.slug) := by
  obtain ⟨file, hload, -, hmerged, hresolved⟩ := overlayFile_eq_ok_iff.mp r.overlayFile_eq
  obtain rfl : file = r.file := Except.ok.inj (hload.symm.trans r.loads)
  exact ⟨hresolved.symm, validateConfig_eq_ok_iff.mp (hresolved ▸ hmerged)⟩

/-- No two files that pass alone get a sum of weights above one past the merge. -/
theorem fusionWeightSum_le : r.resolved.inference.fusionWeightSum ≤ 1 :=
  InferenceConfig.fusionWeightSum_le r.resolved_eq.2.inference

/-- No text that is resolved carries an injection. -/
theorem instructions_clean {text : String} (h : r.resolved.server.instructions = some text) :
    text.utf8ByteSize ≤ instructionsMaxBytes ∧
      ∀ pattern ∈ injectionPatterns, Regex.captures pattern.2 text.toList = [] :=
  checkInstructions_eq_ok_iff.mp r.resolved_eq.2.instructions text h

end Resolution

/-- What the merge does with the keys of the classification. -/
structure Overlaid (default global file resolved : UnimatrixConfig F S) : Prop where
  plain : ∀ k : PlainKey, k.read resolved = if k.read file ≠ k.read default then k.read file else k.read global
  number : ∀ k : NumberKey,
    k.read resolved = if epsilon64 < abs (k.read file - k.read default) then k.read file else k.read global
  pin : ∀ k : PinKey, k.read resolved = if (k.read global).isSome then k.read global else k.read file

/-- **The resolved configuration**, for every configuration and every file of a slug that are accepted. -/
theorem resolved_overlaid (r : Resolution F S) : Overlaid r.default r.global r.file r.resolved := by
  rw [r.resolved_eq.1]
  refine ⟨fun k => k.read_mergeConfigs _ _ _, fun k => ?_, fun k => ?_⟩
  · rw [k.read_mergeConfigs]
    exact pick64_eq _ _ _
  · rw [k.read_mergeConfigs]
    cases hglobal : k.read r.global with
    | some sha => rfl
    | none => exact pin_none _

/-- The classification, read as a statement about the merge. -/
structure Respects (default global file resolved : UnimatrixConfig F S) : Prop where
  locked : ∀ k : Key, ⟨k.name, .globalLocked⟩ ∈ perSlugConfigClassification → k.read resolved = k.read global
  overlaid : ∀ k : Key, isPerSlugOverlayable k.name = true →
    k.read resolved = if k.read file ≠ k.read default then k.read file else k.read global

/-- The file sets nothing that the merge and the classification treat differently. -/
structure Plain (default global file : UnimatrixConfig F S) : Prop where
  locked : ∀ k : PlainKey, k.isConstructionLocked = true → k.read file = k.read default ∨ k.read file = k.read global
  number : ∀ k : NumberKey,
    (epsilon64 < abs (k.read file - k.read default) ↔ k.read file ≠ k.read default) ∨ k.read file = k.read global
  pin : ∀ k : PinKey, (k.read global).isSome ∨ k.read file = none

section Merged

variable (numCpus : Nat) (global file : UnimatrixConfig F S)

theorem PlainKey.keeps_iff (k : PlainKey) : k.read (mergeConfigs numCpus global file) = k.read global ↔
    k.read file = k.read (.default numCpus : UnimatrixConfig F S) ∨ k.read file = k.read global := by
  rw [k.read_mergeConfigs]
  exact pick_keeps_iff

theorem NumberKey.overlays_iff (k : NumberKey) : k.read (mergeConfigs numCpus global file) =
      (if k.read file ≠ k.read (.default numCpus : UnimatrixConfig F S) then k.read file else k.read global) ↔
    (epsilon64 < abs (k.read file - k.read (.default numCpus : UnimatrixConfig F S)) ↔
      k.read file ≠ k.read (.default numCpus : UnimatrixConfig F S)) ∨ k.read file = k.read global := by
  rw [k.read_mergeConfigs, ← decide_eq_true_eq (p := epsilon64 < _)]
  exact pickBy_eq_pick_iff

theorem PinKey.keeps_iff (k : PinKey) : k.read (mergeConfigs numCpus global file) = k.read global ↔
    (k.read global).isSome ∨ k.read file = none := by
  rw [k.read_mergeConfigs]
  exact pin_keeps_iff

end Merged

/-- **When the classification describes the merge.** -/
theorem respects_iff (r : Resolution F S) :
    Respects r.default r.global r.file r.resolved ↔ Plain r.default r.global r.file := by
  rw [r.resolved_eq.1]
  constructor
  · rintro ⟨hlocked, hoverlaid⟩
    refine ⟨fun k hk => ?_, fun k => ?_, fun k => ?_⟩
    · have hkey : isPerSlugOverlayable k.name = false := by rw [k.isPerSlugOverlayable_name, hk]; rfl
      exact (k.keeps_iff _ _ _).mp (hlocked (.plain k) ((Key.locked_iff _).mpr hkey))
    · exact (k.overlays_iff _ _ _).mp (hoverlaid (.number k) k.isPerSlugOverlayable_name)
    · exact (k.keeps_iff _ _ _).mp (hlocked (.pin k) ((Key.locked_iff _).mpr k.isPerSlugOverlayable_name))
  · rintro ⟨hlocked, hnumber, hpin⟩
    refine ⟨fun k hk => ?_, fun k hk => ?_⟩
    · have hkey := (Key.locked_iff k).mp hk
      cases k with
      | plain k =>
        have hconstruction : k.isConstructionLocked = true := by
          simpa [Key.name, k.isPerSlugOverlayable_name] using hkey
        exact (k.keeps_iff _ _ _).mpr (hlocked k hconstruction)
      | number k => simp [Key.name, k.isPerSlugOverlayable_name] at hkey
      | pin k => exact (k.keeps_iff _ _ _).mpr (hpin k)
    · cases k with
      | plain k => exact k.read_mergeConfigs _ _ _
      | number k =>
        have h := (k.overlays_iff r.host.numCpus r.global r.file).mpr (hnumber k)
        exact h
      | pin k => simp [Key.name, k.isPerSlugOverlayable_name] at hk

/-! ## A file that sets what is locked -/

/-- The configuration without a file, on a machine with sixteen processors. -/
def heldBase : UnimatrixConfig ℚ ℚ := .default 16

/-- The global configuration: `[inference] w_nli = 0.1`. -/
def heldGlobal : UnimatrixConfig ℚ ℚ := { heldBase with inference := { heldBase.inference with wNli := 0.1 } }

/-- A checksum. -/
def heldSha : String := "aaaaaaaaaaaaaaaaaaaaaaaaaaaaaaaaaaaaaaaaaaaaaaaaaaaaaaaaaaaaaaaa"

/-- The text of the file. -/
def heldText : String :=
  "[inference]\nrayon_pool_size = 2\nembedding_model_sha256 = \"" ++ heldSha ++
    "\"\nw_nli = 1e-17\n[http]\ncontent_port = 9000\n[tls]\nenabled = false\n"

/-- What the text says. -/
def heldFile : UnimatrixConfig ℚ ℚ :=
  { heldBase with
    inference := { heldBase.inference with rayonPoolSize := 2, embeddingModelSha256 := some heldSha, wNli := 1e-17 }
    http := { contentPort := 9000 }
    tls := { enabled := some false } }

/-- A host with this file. -/
def heldHost : Host ℚ ℚ where
  metadata _ := .ok ⟨true, 0o100600⟩
  read _ := .ok heldText.toByteArray.data.toList
  fromToml _ := .ok heldFile
  numCpus := 16
  display _ := ""

def heldSlug : ProjectSlug := ⟨"held", by decide⟩

def heldPath : String := slugPath "/srv" heldSlug

theorem validateConfig_of_check {config : UnimatrixConfig F S} {path : String}
    (h : (config.check path).toBool = true) : validateConfig config path = .ok () := by
  unfold validateConfig
  cases hcheck : config.check path with
  | error e => simp [hcheck, Except.toBool] at h
  | ok _ => rfl

theorem validateConfig_held : validateConfig heldFile heldPath = .ok () := validateConfig_of_check (by decide +kernel)

theorem validateConfig_heldMerged : validateConfig (mergeConfigs 16 heldGlobal heldFile) heldPath = .ok () :=
  validateConfig_of_check (by decide +kernel)

theorem size_heldText : heldText.utf8ByteSize ≤ configMaxBytes := by decide +kernel

theorem loads_held : loadSingleConfig heldHost heldPath = .ok heldFile :=
  loadSingleConfig_eq_ok_iff.mpr ⟨rfl, _, rfl, size_heldText, rfl, validateConfig_held⟩

theorem resolves_held : resolveSlugConfig heldHost "/srv" heldSlug heldGlobal =
    .ok (mergeConfigs 16 heldGlobal heldFile) := by
  have hfile : isFile heldHost (slugPath "/srv" heldSlug) = true := rfl
  unfold resolveSlugConfig
  rw [if_pos hfile]
  exact overlayFile_eq_ok_iff.mpr ⟨heldFile, loads_held, validateConfig_held, validateConfig_heldMerged, rfl⟩

/-- The file is accepted. -/
def held : Resolution ℚ ℚ where
  host := heldHost
  baseDir := "/srv"
  slug := heldSlug
  global := heldGlobal
  file := heldFile
  resolved := mergeConfigs 16 heldGlobal heldFile
  present := rfl
  loads := loads_held
  resolves := resolves_held

/-- The merge takes what the classification locks, and leaves out a weight that it calls overlayable. -/
theorem held_not_respects : ¬ Respects held.default held.global held.file held.resolved := by
  intro h
  have hpool := h.locked (.plain .rayonPoolSize) (by decide)
  exact absurd (show (2 : Nat) = 8 from hpool) (by decide)

example : held.resolved.inference.rayonPoolSize = 2 ∧ held.resolved.tls.enabled = some false ∧
    held.resolved.http.contentPort = 9000 ∧ held.resolved.inference.embeddingModelSha256 = some heldSha ∧
    held.resolved.inference.wNli = 0.1 := by decide +kernel

end Results

end Unimatrix.Config
