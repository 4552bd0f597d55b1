import Unimatrix.Graph.Build
import Unimatrix.Graph.Penalty
import Unimatrix.Lib.Except
import Mathlib.Algebra.Order.Field.Basic
import Mathlib.Tactic.Linarith
import Mathlib.Tactic.NormNum

/-!
# The bounds of the penalty

Model of `GraphPenaltyConfig`, `validate_graph_penalty` and `resolve_params` of `config.rs`, and what
`graph_penalty_with` answers for the parameters that the configuration can hold.

* The penalty depends on the node only through `PenaltyFeatures` (`graphPenaltyWith_eq`).
* `graphPenaltyChecked` is `graph_penalty_with` with its two ways to fail kept visible: a search that does
  not end and a `clamp` whose bounds are inverted. **`graphPenaltyChecked_eq`**: neither happens.
* Over ℚ: **`graphPenaltyWith_bounds`**. The multiplier of a chain never grows with its depth, but a node
  with two successors is told apart before the depth is looked at: its multiplier is another severity
  (`penalty_above_clean`).
-/

namespace Unimatrix

open Digraph TypedRelationGraph

/-! ## The configuration -/

section Config

variable {F : Type} [F64 F]

/-- `GraphPenaltyConfig`. -/
structure GraphPenaltyConfig (F : Type) where
  orphan : F
  cleanReplacement : F
  hopDecay : F
  partialSupersession : F
  deadEnd : F
  fallback : F
  maxTraversalDepth : Nat
  multiplier : Option F

/-- `GraphPenaltyConfig::default`. -/
def GraphPenaltyConfig.default : GraphPenaltyConfig F where
  orphan := GraphPenaltyParams.default.orphan
  cleanReplacement := GraphPenaltyParams.default.cleanReplacement
  hopDecay := GraphPenaltyParams.default.hopDecay
  partialSupersession := GraphPenaltyParams.default.partialSupersession
  deadEnd := GraphPenaltyParams.default.deadEnd
  fallback := GraphPenaltyParams.default.fallback
  maxTraversalDepth := Unimatrix.maxTraversalDepth
  multiplier := none

/-- The scaling of one severity: one that was set to something else wins. -/
def scaleDefault (multiplier : Option F) (default value : F) : F :=
  match multiplier with
  | none => value
  | some m => if value = default then value * m else value

/-- `resolve_params`. -/
def GraphPenaltyConfig.resolveParams (cfg : GraphPenaltyConfig F) : GraphPenaltyParams F where
  orphan := scaleDefault cfg.multiplier GraphPenaltyParams.default.orphan cfg.orphan
  cleanReplacement :=
    scaleDefault cfg.multiplier GraphPenaltyParams.default.cleanReplacement cfg.cleanReplacement
  hopDecay := cfg.hopDecay
  partialSupersession :=
    scaleDefault cfg.multiplier GraphPenaltyParams.default.partialSupersession cfg.partialSupersession
  deadEnd := scaleDefault cfg.multiplier GraphPenaltyParams.default.deadEnd cfg.deadEnd
  fallback := scaleDefault cfg.multiplier GraphPenaltyParams.default.fallback cfg.fallback
  maxTraversalDepth := cfg.maxTraversalDepth

/-- `ConfigError::GraphPenaltyFieldOutOfRange`, with the value that is printed. -/
structure FieldOutOfRange (F : Type) where
  path : String
  field : String
  value : F ⊕ Nat
  reason : String

/-- One turn of the `for` of `validate_graph_penalty`. -/
def checkFraction (path : String) (check : String × F) : Except (FieldOutOfRange F) Unit :=
  if 0 ≤ check.2 ∧ check.2 ≤ 1 then .ok ()
  else .error ⟨path, check.1, .inl check.2, "must be a finite value in range [0.0, 1.0]"⟩

/-- The fields that are fractions. -/
def GraphPenaltyConfig.fractions (cfg : GraphPenaltyConfig F) : List (String × F) :=
  [("orphan", cfg.orphan), ("clean_replacement", cfg.cleanReplacement), ("hop_decay", cfg.hopDecay),
    ("partial_supersession", cfg.partialSupersession), ("dead_end", cfg.deadEnd),
    ("fallback", cfg.fallback)]

/-- The check of `max_traversal_depth`. -/
def checkDepth (path : String) (depth : Nat) : Except (FieldOutOfRange F) Unit :=
  if depth = 0 then .error ⟨path, "max_traversal_depth", .inr depth, "must be >= 1"⟩ else .ok ()

/-- The check of `multiplier`. -/
def checkMultiplier (path : String) : Option F → Except (FieldOutOfRange F) Unit
  | none => .ok ()
  | some m =>
    if m ≤ 0 ∨ 1 < m then
      .error ⟨path, "multiplier", .inl m, "must be a finite value in range (0.0, 1.0]"⟩
    else .ok ()

/-- `validate_graph_penalty`. -/
def validateGraphPenalty (cfg : GraphPenaltyConfig F) (path : String) :
    Except (FieldOutOfRange F) Unit := do
  cfg.fractions.forM (checkFraction path)
  checkDepth path cfg.maxTraversalDepth
  checkMultiplier path cfg.multiplier

theorem checkFraction_ok (path : String) {check : String × F} :
    checkFraction path check = .ok () ↔ 0 ≤ check.2 ∧ check.2 ≤ 1 := by
  unfold checkFraction
  split <;> simp [*]

theorem forM_checkFraction_ok (path : String) {checks : List (String × F)} :
    checks.forM (checkFraction path) = .ok () ↔ ∀ check ∈ checks, 0 ≤ check.2 ∧ check.2 ≤ 1 := by
  induction checks with
  | nil => exact ⟨fun _ check h => absurd h List.not_mem_nil, fun _ => rfl⟩
  | cons check checks ih =>
    rw [List.forall_mem_cons, ← ih, ← checkFraction_ok path]
    exact Except.andThen_eq_ok

omit [F64 F] in
theorem checkDepth_ok (path : String) {depth : Nat} :
    checkDepth (F := F) path depth = .ok () ↔ 1 ≤ depth := by
  unfold checkDepth
  split <;> simp <;> omega

theorem checkMultiplier_ok (path : String) {multiplier : Option F} :
    checkMultiplier path multiplier = .ok () ↔ ∀ m, multiplier = some m → 0 < m ∧ m ≤ 1 := by
  unfold checkMultiplier
  cases multiplier with
  | none => simp
  | some m =>
    simp only [Option.some.injEq, forall_eq']
    by_cases h : m ≤ 0 ∨ 1 < m
    · have hnot : ¬ (0 < m ∧ m ≤ 1) := fun hin => h.elim hin.1.not_ge hin.2.not_gt
      simp [h, hnot]
    · have hin : 0 < m ∧ m ≤ 1 := by
        rw [not_or, not_le, not_lt] at h
        exact h
      simp [h, hin]

/-- **What the configuration can hold.** -/
theorem validateGraphPenalty_ok {cfg : GraphPenaltyConfig F} {path : String} :
    validateGraphPenalty cfg path = .ok () ↔
      (∀ check ∈ cfg.fractions, 0 ≤ check.2 ∧ check.2 ≤ 1) ∧ 1 ≤ cfg.maxTraversalDepth ∧
        ∀ m, cfg.multiplier = some m → 0 < m ∧ m ≤ 1 := by
  rw [← forM_checkFraction_ok path, ← checkDepth_ok (F := F) path,
    ← checkMultiplier_ok path]
  exact Except.andThen_eq_ok.trans (and_congr_right' Except.andThen_eq_ok)

end Config

/-! ## The features of a node -/

section Features

variable {F : Type} [F64 F]

/-- What `graph_penalty_with` looks at. -/
structure PenaltyFeatures where
  orphan : Bool
  activeReachable : Bool
  successorCount : Nat
  chainDepth : Option Nat
  deriving DecidableEq, Repr

/-- The features of a node that is in the graph and has an entry. -/
def penaltyFeatures (nodeId : Nat) (graph : TypedRelationGraph) (o : EdgeOrder)
    (entries : List EntryRecord) (maxDepth : Nat) : Option PenaltyFeatures := do
  let nodeIdx ← graph.nodeIndexFor nodeId
  let entry ← entryById nodeId entries
  let outgoingCount := (graph.edgesOfType o nodeIdx .supersedes .outgoing).length
  return {
    orphan := entry.status = .deprecated ∧ outgoingCount = 0
    activeReachable := dfsActiveReachable nodeIdx graph o entries maxDepth
    successorCount := outgoingCount
    chainDepth := bfsChainDepth nodeIdx graph o entries maxDepth }

/-- The priorities. -/
def PenaltyFeatures.penalty (f : PenaltyFeatures) (params : GraphPenaltyParams F) : F :=
  if f.orphan then params.orphan
  else if f.activeReachable = false then params.deadEnd
  else if 1 < f.successorCount then params.partialSupersession
  else
    match f.chainDepth with
    | none => params.deadEnd
    | some d =>
      if d = 1 then params.cleanReplacement
      else if 2 ≤ d then hopDecayPenalty params d
      else params.deadEnd

/-- **The penalty depends on the features only.** A node without them is not penalised. -/
theorem graphPenaltyWith_eq (nodeId : Nat) (graph : TypedRelationGraph) (o : EdgeOrder)
    (entries : List EntryRecord) (params : GraphPenaltyParams F) :
    graphPenaltyWith nodeId graph o entries params =
      ((penaltyFeatures nodeId graph o entries params.maxTraversalDepth).map
        fun f => f.penalty params).getD 1 := by
  unfold graphPenaltyWith penaltyFeatures
  cases graph.nodeIndexFor nodeId with
  | none => rfl
  | some nodeIdx =>
    cases entryById nodeId entries with
    | none => rfl
    | some entry =>
      unfold chainPenalty PenaltyFeatures.penalty
      simp only [Option.bind_eq_bind, Option.bind_some, Option.pure_def, Option.map_some, Option.getD_some]
      cases bfsChainDepth nodeIdx graph o entries params.maxTraversalDepth with
      | none => simp only [decide_eq_true_eq]
      | some d => simp only [decide_eq_true_eq]

/-! ## It does not fail -/

/-- `f64::clamp` with its assertion. -/
def clampChecked (x lo hi : F) : Option F := if lo ≤ hi then some (F64.clamp x lo hi) else none

/-- `hopDecayPenalty`, with the assertion of its `clamp`. -/
def hopDecayPenaltyChecked (params : GraphPenaltyParams F) (d : Nat) : Option F :=
  if params.cleanReplacement ≤ hopDecayClampFloor then some params.cleanReplacement
  else clampChecked (params.cleanReplacement * F64.powi params.hopDecay (d - 1)) hopDecayClampFloor
    params.cleanReplacement

/-- `graph_penalty_with`: `none` where a loop does not end or `clamp` panics. -/
def graphPenaltyChecked (nodeId : Nat) (graph : TypedRelationGraph) (o : EdgeOrder)
    (entries : List EntryRecord) (params : GraphPenaltyParams F) : Option F :=
  match graph.nodeIndexFor nodeId with
  | none => some 1
  | some nodeIdx =>
    match entryById nodeId entries with
    | none => some 1
    | some entry =>
      let outgoingCount := (graph.edgesOfType o nodeIdx .supersedes .outgoing).length
      if entry.status = .deprecated ∧ outgoingCount = 0 then some params.orphan
      else do
        let activeReachable ← dfsLoop (graph.supersedesTargets o) (graph.isActiveTerminal entries)
          params.maxTraversalDepth graph.loopFuel [(nodeIdx, 0)] []
        if activeReachable = false then return params.deadEnd
        else if 1 < outgoingCount then return params.partialSupersession
        else
          let chainDepth ← bfsLoop (graph.supersedesTargets o) (graph.isActiveTerminal entries)
            params.maxTraversalDepth graph.loopFuel [(nodeIdx, 0)] [nodeIdx]
          match chainDepth with
          | none => return params.deadEnd
          | some d =>
            if d = 1 then return params.cleanReplacement
            else if 2 ≤ d then hopDecayPenaltyChecked params d
            else return params.deadEnd

/-- The guard keeps the bounds of `clamp` in order. -/
theorem hopDecayPenaltyChecked_eq (params : GraphPenaltyParams F) (d : Nat) :
    hopDecayPenaltyChecked params d = some (hopDecayPenalty params d) := by
  unfold hopDecayPenaltyChecked hopDecayPenalty clampChecked
  split
  · rfl
  · rename_i hfloor
    rw [if_pos (lt_of_not_ge hfloor).le]

/-- **`graph_penalty_with` is total**, on every graph and for all parameters. -/
theorem graphPenaltyChecked_eq (nodeId : Nat) (graph : TypedRelationGraph) (o : EdgeOrder)
    (entries : List EntryRecord) (params : GraphPenaltyParams F) :
    graphPenaltyChecked nodeId graph o entries params =
      some (graphPenaltyWith nodeId graph o entries params) := by
  unfold graphPenaltyChecked graphPenaltyWith
  cases graph.nodeIndexFor nodeId with
  | none => rfl
  | some nodeIdx =>
    cases entryById nodeId entries with
    | none => rfl
    | some entry =>
      obtain ⟨found, hfound⟩ := Option.isSome_iff_exists.mp
        (dfsLoop_isSome (graph.isActiveTerminal entries) (supersedesTargets_length graph o)
          params.maxTraversalDepth (start_lt_loopFuel graph (nodeIdx, 0) fun e => e.1 ∉ []))
      obtain ⟨depth, hdepth⟩ := Option.isSome_iff_exists.mp
        (bfsLoop_isSome (graph.isActiveTerminal entries) (supersedesTargets_mem graph o)
          params.maxTraversalDepth (start_lt_loopFuel graph (nodeIdx, 0) fun e => e.2 ∉ [nodeIdx]))
      unfold chainPenalty dfsActiveReachable bfsChainDepth
      dsimp only
      rw [hfound, hdepth]
      simp only [Option.bind_eq_bind, Option.bind_some, Option.getD_some, Option.pure_def,
        hopDecayPenaltyChecked_eq]
      cases depth with
      | none => split_ifs <;> rfl
      | some d =>
        dsimp only
        split_ifs <;> rfl

end Features

/-! ## Bounds over the rationals -/

/-- Every parameter is a fraction. -/
structure GraphPenaltyParams.Fractions (params : GraphPenaltyParams Rat) : Prop where
  orphan : 0 ≤ params.orphan ∧ params.orphan ≤ 1
  cleanReplacement : 0 ≤ params.cleanReplacement ∧ params.cleanReplacement ≤ 1
  hopDecay : 0 ≤ params.hopDecay ∧ params.hopDecay ≤ 1
  partialSupersession : 0 ≤ params.partialSupersession ∧ params.partialSupersession ≤ 1
  deadEnd : 0 ≤ params.deadEnd ∧ params.deadEnd ≤ 1

/-- No severity is zero. -/
structure GraphPenaltyParams.Severe (params : GraphPenaltyParams Rat) : Prop where
  orphan : 0 < params.orphan
  cleanReplacement : 0 < params.cleanReplacement
  partialSupersession : 0 < params.partialSupersession
  deadEnd : 0 < params.deadEnd

theorem scaleDefault_fraction {multiplier : Option Rat} {default value : Rat}
    (hm : ∀ m, multiplier = some m → 0 < m ∧ m ≤ 1) (hv : 0 ≤ value ∧ value ≤ 1) :
    0 ≤ scaleDefault multiplier default value ∧ scaleDefault multiplier default value ≤ 1 := by
  unfold scaleDefault
  cases multiplier with
  | none => exact hv
  | some m =>
    obtain ⟨hpos, hle⟩ := hm m rfl
    dsimp only
    split
    · exact ⟨mul_nonneg hv.1 hpos.le, mul_le_one₀ hv.2 hpos.le hle⟩
    · exact hv

/-- **The parameters of a configuration that was accepted are fractions.** -/
theorem fractions_resolveParams {cfg : GraphPenaltyConfig Rat} {path : String}
    (h : validateGraphPenalty cfg path = .ok ()) : cfg.resolveParams.Fractions := by
  obtain ⟨hfields, -, hm⟩ := validateGraphPenalty_ok.mp h
  unfold GraphPenaltyConfig.fractions at hfields
  simp only [List.forall_mem_cons] at hfields
  obtain ⟨horphan, hclean, hdecay, hpartial, hdead, -⟩ := hfields
  exact {
    orphan := scaleDefault_fraction hm horphan
    cleanReplacement := scaleDefault_fraction hm hclean
    hopDecay := hdecay
    partialSupersession := scaleDefault_fraction hm hpartial
    deadEnd := scaleDefault_fraction hm hdead }

section Rational

variable {params : GraphPenaltyParams Rat}

theorem hopDecayClampFloor_pos : (0 : Rat) < hopDecayClampFloor := by decide +kernel

/-- The multiplier of a chain does not grow with its depth. -/
theorem hopDecayPenalty_antitone (h : params.Fractions) {d d' : Nat} (hd : d ≤ d') :
    hopDecayPenalty params d' ≤ hopDecayPenalty params d := by
  unfold hopDecayPenalty
  split
  · exact le_refl _
  · rename_i hfloor
    refine F64.clamp_le_clamp (lt_of_not_ge hfloor).le ?_
    rw [F64.powi_rat, F64.powi_rat]
    exact mul_le_mul_of_nonneg_left
      (pow_le_pow_of_le_one h.hopDecay.1 h.hopDecay.2 (Nat.sub_le_sub_right hd 1)) h.cleanReplacement.1

theorem hopDecayPenalty_nonneg (h : params.Fractions) (d : Nat) : 0 ≤ hopDecayPenalty params d := by
  unfold hopDecayPenalty
  split
  · exact h.cleanReplacement.1
  · rename_i hfloor
    exact hopDecayClampFloor_pos.le.trans (F64.le_clamp _ (lt_of_not_ge hfloor).le)

theorem hopDecayPenalty_pos (h : params.Severe) (d : Nat) : 0 < hopDecayPenalty params d := by
  unfold hopDecayPenalty
  split
  · exact h.cleanReplacement
  · rename_i hfloor
    exact hopDecayClampFloor_pos.trans_le (F64.le_clamp _ (lt_of_not_ge hfloor).le)

/-- The outcomes of the priorities. -/
theorem PenaltyFeatures.penalty_cases (f : PenaltyFeatures) (params : GraphPenaltyParams Rat) :
    f.penalty params = params.orphan ∨ f.penalty params = params.deadEnd ∨
      f.penalty params = params.partialSupersession ∨ f.penalty params = params.cleanReplacement ∨
      ∃ d, f.penalty params = hopDecayPenalty params d := by
  unfold penalty
  split
  · exact .inl rfl
  · split
    · exact .inr (.inl rfl)
    · split
      · exact .inr (.inr (.inl rfl))
      · split
        · exact .inr (.inl rfl)
        · rename_i d _
          split
          · exact .inr (.inr (.inr (.inl rfl)))
          · split
            · exact .inr (.inr (.inr (.inr ⟨d, rfl⟩)))
            · exact .inr (.inl rfl)

theorem PenaltyFeatures.penalty_fraction (f : PenaltyFeatures) (h : params.Fractions) :
    0 ≤ f.penalty params ∧ f.penalty params ≤ 1 := by
  rcases f.penalty_cases params with he | he | he | he | ⟨d, he⟩ <;> rw [he]
  · exact h.orphan
  · exact h.deadEnd
  · exact h.partialSupersession
  · exact h.cleanReplacement
  · exact ⟨hopDecayPenalty_nonneg h d, (hopDecayPenalty_le params d).trans h.cleanReplacement.2⟩

theorem PenaltyFeatures.penalty_pos (f : PenaltyFeatures) (h : params.Severe) : 0 < f.penalty params := by
  rcases f.penalty_cases params with he | he | he | he | ⟨d, he⟩ <;> rw [he]
  · exact h.orphan
  · exact h.deadEnd
  · exact h.partialSupersession
  · exact h.cleanReplacement
  · exact hopDecayPenalty_pos h d

/-- One step deeper, everything else equal. -/
theorem PenaltyFeatures.penalty_deeper (h : params.Fractions) {f f' : PenaltyFeatures} {d : Nat} (hd : 1 ≤ d)
    (hf : f.chainDepth = some d) (hf' : f' = { f with chainDepth := some (d + 1) }) :
    f'.penalty params ≤ f.penalty params := by
  subst hf'
  unfold penalty
  rw [hf]
  dsimp only
  split_ifs with horphan hreach hcount hone hdeep hone' hdeep'
  all_goals first | exact le_refl _ | omega | skip
  · exact hopDecayPenalty_le params (d + 1)
  · exact hopDecayPenalty_antitone h (Nat.le_succ d)

/-- A chain without a fork is not penalised less than a clean replacement. -/
theorem PenaltyFeatures.penalty_le_clean {f : PenaltyFeatures} {d : Nat} (hd : 1 ≤ d)
    (hdepth : f.chainDepth = some d) (horphan : f.orphan = false) (hreach : f.activeReachable = true)
    (hcount : f.successorCount ≤ 1) : f.penalty params ≤ params.cleanReplacement := by
  unfold penalty
  rw [hdepth, horphan, hreach, if_neg Bool.false_ne_true, if_neg (Ne.symm Bool.false_ne_true),
    if_neg (Nat.not_lt.mpr hcount)]
  dsimp only
  split_ifs with hone hdeep
  · exact le_refl _
  · exact hopDecayPenalty_le params d
  · omega

end Rational

/-! ## What the searches answer -/

/-- A terminal that is found is a step away at least. -/
theorem bfsLoop_pos {next : Nat → List Nat} {terminal : Nat → Bool} {maxDepth fuel d : Nat}
    {queue : List (Nat × Nat)} {visited : List Nat}
    (h : bfsLoop next terminal maxDepth fuel queue visited = some (some d)) : 1 ≤ d := by
  induction fuel generalizing queue visited with
  | zero => cases h
  | succ fuel ih =>
    cases queue with
    | nil => cases h
    | cons p queue =>
      obtain ⟨current, depth⟩ := p
      unfold bfsLoop at h
      split at h
      · exact ih h
      · cases hscan : bfsScan terminal depth (next current) visited queue with
        | inl d' =>
          rw [hscan] at h
          cases h
          have hd := (bfsScan_inl hscan).1
          omega
        | inr r =>
          rw [hscan] at h
          exact ih h

theorem bfsChainDepth_pos {startIdx maxDepth d : Nat} {graph : TypedRelationGraph} {o : EdgeOrder}
    {entries : List EntryRecord} (h : bfsChainDepth startIdx graph o entries maxDepth = some d) : 1 ≤ d := by
  unfold bfsChainDepth at h
  cases hloop : bfsLoop (graph.supersedesTargets o) (graph.isActiveTerminal entries) maxDepth graph.loopFuel
      [(startIdx, 0)] [startIdx] with
  | none =>
    rw [hloop] at h
    cases h
  | some found =>
    rw [hloop] at h
    dsimp only [Option.getD_some] at h
    rw [h] at hloop
    exact bfsLoop_pos hloop

/-- Without a successor nothing is found. -/
theorem bfsChainDepth_of_no_successor {startIdx maxDepth : Nat} {graph : TypedRelationGraph} {o : EdgeOrder}
    {entries : List EntryRecord} (h : graph.edgesOfType o startIdx .supersedes .outgoing = []) :
    bfsChainDepth startIdx graph o entries maxDepth = none := by
  have hnext : graph.supersedesTargets o startIdx = [] := by
    unfold supersedesTargets
    rw [h]
    rfl
  unfold bfsChainDepth loopFuel bfsLoop
  rw [hnext, if_neg (Nat.not_lt_zero _)]
  unfold bfsScan bfsLoop
  rfl

theorem penaltyFeatures_eq_some {nodeId maxDepth : Nat} {graph : TypedRelationGraph} {o : EdgeOrder}
    {entries : List EntryRecord} {f : PenaltyFeatures} :
    penaltyFeatures nodeId graph o entries maxDepth = some f ↔
      ∃ nodeIdx entry, graph.nodeIndexFor nodeId = some nodeIdx ∧ entryById nodeId entries = some entry ∧
        f = {
          orphan := entry.status = .deprecated ∧
            (graph.edgesOfType o nodeIdx .supersedes .outgoing).length = 0
          activeReachable := dfsActiveReachable nodeIdx graph o entries maxDepth
          successorCount := (graph.edgesOfType o nodeIdx .supersedes .outgoing).length
          chainDepth := bfsChainDepth nodeIdx graph o entries maxDepth } := by
  unfold penaltyFeatures
  simp only [Option.bind_eq_bind, Option.bind_eq_some_iff, Option.pure_def, Option.some.injEq]
  constructor
  · rintro ⟨nodeIdx, hidx, entry, hentry, hf⟩
    exact ⟨nodeIdx, entry, hidx, hentry, hf.symm⟩
  · rintro ⟨nodeIdx, entry, hidx, hentry, hf⟩
    exact ⟨nodeIdx, hidx, entry, hentry, hf.symm⟩

/-- A node that has a chain is no orphan, and the chain has a length. -/
theorem chainDepth_features {nodeId maxDepth d : Nat} {graph : TypedRelationGraph} {o : EdgeOrder}
    {entries : List EntryRecord} {f : PenaltyFeatures}
    (hf : penaltyFeatures nodeId graph o entries maxDepth = some f) (hd : f.chainDepth = some d) :
    1 ≤ d ∧ f.orphan = false := by
  obtain ⟨nodeIdx, entry, -, -, rfl⟩ := penaltyFeatures_eq_some.mp hf
  dsimp only at hd ⊢
  refine ⟨bfsChainDepth_pos hd, decide_eq_false ?_⟩
  rintro ⟨-, hnone⟩
  rw [bfsChainDepth_of_no_successor (List.eq_nil_of_length_eq_zero hnone)] at hd
  cases hd

/-- In a graph that was built, a terminal within the cap is found by both searches. -/
theorem penaltyFeatures_of_build {slice : EntrySlice} {rows : List GraphEdgeRow} {g : TypedRelationGraph}
    (hg : buildTypedRelationGraph slice.entries rows = .ok g) (o : EdgeOrder) {nodeId i k maxDepth : Nat}
    (hi : g.nodeIndexFor nodeId = some i) (hone : 1 ≤ k) (hk : k ≤ maxDepth + 1)
    (hhit : g.HitsTerminal slice.entries i k) :
    ∃ f d, penaltyFeatures nodeId g o slice.entries maxDepth = some f ∧ f.chainDepth = some d ∧
      f.activeReachable = true ∧ f.successorCount = (g.edgesOfType o i .supersedes .outgoing).length := by
  have hmem : nodeId ∈ slice.entries.map EntryRecord.id := by
    rw [← nodeIndexFor_isSome hg, hi]
    rfl
  obtain ⟨e, he, hid⟩ := List.mem_map.mp hmem
  have hfind : (entryById nodeId slice.entries).isSome = true :=
    List.find?_isSome.mpr ⟨e, he, decide_eq_true hid⟩
  obtain ⟨entry, hentry⟩ := Option.isSome_iff_exists.mp hfind
  have hreach : dfsActiveReachable i g o slice.entries maxDepth = true :=
    (dfsActiveReachable_iff slice.distinct hg o i maxDepth).mpr ⟨k - 1, by omega, by
      rwa [Nat.sub_add_cancel hone]⟩
  cases hd : bfsChainDepth i g o slice.entries maxDepth with
  | none => exact absurd hhit ((bfsChainDepth_spec slice.distinct hg o i maxDepth).2 hd k hone hk)
  | some d => exact ⟨_, d, penaltyFeatures_eq_some.mpr ⟨i, entry, hi, hentry, rfl⟩, hd, hreach, rfl⟩

/-- **The penalty of every node, for all parameters that the configuration can hold.** -/
theorem graphPenaltyWith_bounds :
    (∀ (cfg : GraphPenaltyConfig Rat) (path : String), validateGraphPenalty cfg path = .ok () →
      cfg.resolveParams.Fractions) ∧
    ∀ params : GraphPenaltyParams Rat, params.Fractions →
      (∀ nodeId graph o entries,
        graphPenaltyChecked nodeId graph o entries params =
            some (graphPenaltyWith nodeId graph o entries params) ∧
          0 ≤ graphPenaltyWith nodeId graph o entries params ∧
          graphPenaltyWith nodeId graph o entries params ≤ 1 ∧
          (params.Severe → 0 < graphPenaltyWith nodeId graph o entries params)) ∧
      (∀ nodeId graph o entries nodeId' graph' o' entries' f f' d,
        penaltyFeatures nodeId graph o entries params.maxTraversalDepth = some f →
        penaltyFeatures nodeId' graph' o' entries' params.maxTraversalDepth = some f' →
        f.chainDepth = some d → f' = { f with chainDepth := some (d + 1) } →
        graphPenaltyWith nodeId' graph' o' entries' params ≤
          graphPenaltyWith nodeId graph o entries params) ∧
      (∀ nodeId graph o entries f d,
        penaltyFeatures nodeId graph o entries params.maxTraversalDepth = some f →
        f.chainDepth = some d → f.activeReachable = true → f.successorCount ≤ 1 →
        graphPenaltyWith nodeId graph o entries params ≤ params.cleanReplacement) ∧
      ∀ (slice : EntrySlice) rows g o nodeId i k, buildTypedRelationGraph slice.entries rows = .ok g →
        g.nodeIndexFor nodeId = some i → 1 ≤ k → k ≤ params.maxTraversalDepth + 1 →
        g.HitsTerminal slice.entries i k →
        (g.edgesOfType o i .supersedes .outgoing).length ≤ 1 →
        graphPenaltyWith nodeId g o slice.entries params ≤ params.cleanReplacement := by
  have hclean : ∀ (params : GraphPenaltyParams Rat) nodeId graph o entries f d,
      penaltyFeatures nodeId graph o entries params.maxTraversalDepth = some f →
      f.chainDepth = some d → f.activeReachable = true → f.successorCount ≤ 1 →
      graphPenaltyWith nodeId graph o entries params ≤ params.cleanReplacement := by
    intro params nodeId graph o entries f d hf hd hreach hcount
    obtain ⟨hone, horphan⟩ := chainDepth_features hf hd
    rw [graphPenaltyWith_eq, hf, Option.map_some, Option.getD_some]
    exact PenaltyFeatures.penalty_le_clean hone hd horphan hreach hcount
  refine ⟨fun cfg path => fractions_resolveParams, fun params hparams => ⟨?_, ?_, ?_, ?_⟩⟩
  · intro nodeId graph o entries
    refine ⟨graphPenaltyChecked_eq nodeId graph o entries params, ?_⟩
    rw [graphPenaltyWith_eq]
    cases penaltyFeatures nodeId graph o entries params.maxTraversalDepth with
    | none => exact ⟨zero_le_one, le_refl _, fun _ => zero_lt_one⟩
    | some f => exact ⟨(f.penalty_fraction hparams).1, (f.penalty_fraction hparams).2, f.penalty_pos⟩
  · intro nodeId graph o entries nodeId' graph' o' entries' f f' d hf hf' hd heq
    rw [graphPenaltyWith_eq, graphPenaltyWith_eq, hf, hf', Option.map_some, Option.map_some,
      Option.getD_some, Option.getD_some]
    exact PenaltyFeatures.penalty_deeper hparams (chainDepth_features hf hd).1 hd heq
  · exact hclean params
  · intro slice rows g o nodeId i k hg hi hone hk hhit hcount
    obtain ⟨f, d, hf, hd, hreach, hsucc⟩ := penaltyFeatures_of_build hg o hi hone hk hhit
    exact hclean params nodeId g o slice.entries f d hf hd hreach (hsucc.trans_le hcount)

/-- Entry 1 has two successors, 2 and 3, each superseded in turn by an Active entry. -/
def forked : List EntryRecord :=
  [version 1 .deprecated none (some 2), version 2 .deprecated (some 1) (some 4),
    version 3 .deprecated (some 1) (some 5), version 4 .active (some 2) none,
    version 5 .active (some 3) none]

/-- With the default parameters a fork that ends two steps away is multiplied by 0.60, a clean replacement
by 0.40. -/
theorem penalty_above_clean :
    ¬ ∀ (params : GraphPenaltyParams Rat) (slice : EntrySlice) (rows : List GraphEdgeRow)
        (g : TypedRelationGraph) (o : EdgeOrder) (nodeId i : Nat),
        (∀ p ∈ [params.orphan, params.cleanReplacement, params.partialSupersession, params.deadEnd,
          params.fallback], 0 < p ∧ p < 1) →
        0 < params.hopDecay ∧ params.hopDecay ≤ 1 → hopDecayClampFloor ≤ params.cleanReplacement →
        buildTypedRelationGraph slice.entries rows = .ok g → g.nodeIndexFor nodeId = some i →
        bfsChainDepth i g o slice.entries params.maxTraversalDepth = some 2 →
        graphPenaltyWith nodeId g o slice.entries params ≤ params.cleanReplacement := by
  intro hclaim
  have hbuild : buildTypedRelationGraph forked [] = .ok (assemble forked []) :=
    if_neg (by decide +kernel)
  have hle := hclaim GraphPenaltyParams.default ⟨forked, by decide⟩ [] (assemble forked []) .stored 1 0
    (by decide +kernel) (by decide +kernel) (by decide +kernel) hbuild (by decide +kernel)
    (by decide +kernel)
  exact absurd hle (by decide +kernel)

end Unimatrix
