import Mathlib.Algebra.BigOperators.Group.List.Basic
import Mathlib.Algebra.GroupWithZero.Nat
import Mathlib.Data.List.Nodup
import Unimatrix.Lib.Runs

/-!
# The tick loop

Model of `Cadence`, `next_tick` and `build_job_registry` (`job.rs`), of the names and cadences of the jobs (`jobs.rs`),
and of `run_per_slug_tick_pass` with the loop around it (`tick_loop.rs`).

* A job is its cadence and what it makes of the state of a slug. That is any function, which ends well, fails or panics;
  what it meets (the time, the models, what was written to the store since) is its input. A job that never ends is not
  modelled.
* A panic ends the pass. `spawn_per_slug_tick` starts the loop again, with the contexts as they are.
* `log` is no variable of the program: the jobs that were run, each with its tick.

**`alone`**: a slug is, after any run, as if it were the only one and had been visited in the passes in which no slug
before it panicked. So one that panics in every pass leaves those behind it as they were (**`starved`**).
**`cadence_kept`**: where none panics, a job that is due on every `n`-th tick is run once for every `n` passes, as long
as `n` divides `2 ^ 32` or the counter has not wrapped. **`enhancer_kept`**: the neural enhancer, which `ExtractionJob`
takes out of the state for the time of a tick, is lost with the first extraction that panics, and not otherwise.
-/

namespace Unimatrix.TickLoop

open Runs

/-! ## The code -/

/-- `Cadence`. -/
inductive Cadence where
  | everyTick
  | everyN (n : UInt32)
  deriving DecidableEq, Repr

/-- `fires`. -/
def Cadence.fires (cadence : Cadence) (t : UInt32) : Bool :=
  match cadence with
  | .everyTick => true
  | .everyN n => n != 0 && t % n == 0

/-- How a job ends. -/
inductive Outcome where
  | ok
  | err (e : String)
  | panicked

/-- `BackgroundJob`, without the resource class, which nothing reads. -/
structure BackgroundJob (σ ε : Type) where
  name : String
  cadence : Cadence
  run : ε → UInt32 → σ → σ × Outcome

/-- `CONTRADICTION_SCAN_INTERVAL_TICKS`. -/
def contradictionScanIntervalTicks : UInt32 := 4

/-- `build_job_registry`. -/
def buildJobRegistry {σ ε : Type} (run : String → ε → UInt32 → σ → σ × Outcome) : List (BackgroundJob σ ε) :=
  [("maintenance", .everyTick), ("orphaned_edge_compaction", .everyTick), ("co_access_promotion", .everyTick),
    ("typed_graph_rebuild", .everyTick), ("phase_freq_rebuild", .everyTick),
    ("contradiction_scan", .everyN contradictionScanIntervalTicks), ("extraction", .everyTick),
    ("graph_inference", .everyTick), ("graph_enrichment", .everyTick)].map
    fun job : String × Cadence => ⟨job.1, job.2, run job.1⟩

/-- `PerSlugTickContext`; what jobs write of the `TickMetadata` is in the state. -/
structure PerSlugTickContext (σ : Type) where
  slug : String
  tickCounter : UInt32
  nextScheduled : Option Nat
  state : σ
  log : List (String × UInt32)

/-- `from_service_layer`, with new metadata. -/
def PerSlugTickContext.fromServiceLayer {σ : Type} (slug : String) (state : σ) : PerSlugTickContext σ :=
  ⟨slug, 0, none, state, []⟩

/-- What the jobs of a slug meet in a pass, and when they are done. -/
structure Visit (ε : Type) where
  meets : Nat → ε
  now : Nat

section Code

variable {σ ε : Type}

/-- `next_tick`. -/
def PerSlugTickContext.nextTick (ctx : PerSlugTickContext σ) : UInt32 × PerSlugTickContext σ :=
  (ctx.tickCounter, { ctx with tickCounter := ctx.tickCounter + 1 })

/-- The inner loop of `run_per_slug_tick_pass`, and whether a job panicked. -/
def runJobs (currentTick : UInt32) : List (BackgroundJob σ ε) → (Nat → ε) → PerSlugTickContext σ →
    PerSlugTickContext σ × Bool
  | [], _, ctx => (ctx, false)
  | job :: jobs, meets, ctx =>
    if job.cadence.fires currentTick then
      let (state, outcome) := job.run (meets 0) ctx.tickCounter ctx.state
      let ctx := { ctx with state := state, log := ctx.log ++ [(job.name, currentTick)] }
      match outcome with
      | .panicked => (ctx, true)
      | .ok | .err _ => runJobs currentTick jobs (fun i => meets (i + 1)) ctx
    else runJobs currentTick jobs (fun i => meets (i + 1)) ctx

variable (registry : List (BackgroundJob σ ε)) (tickIntervalSecs : Nat)

/-- What a pass does to one slug. -/
def tickContext (v : Visit ε) (ctx : PerSlugTickContext σ) : PerSlugTickContext σ × Bool :=
  let (currentTick, ctx) := ctx.nextTick
  match runJobs currentTick registry v.meets ctx with
  | (ctx, true) => (ctx, true)
  | (ctx, false) => ({ ctx with nextScheduled := some (v.now + tickIntervalSecs) }, false)

/-- `run_per_slug_tick_pass`. -/
def runPerSlugTickPass : List (PerSlugTickContext σ) → (Nat → Visit ε) → List (PerSlugTickContext σ)
  | [], _ => []
  | ctx :: contexts, visit =>
    match tickContext registry tickIntervalSecs (visit 0) ctx with
    | (ctx, true) => ctx :: contexts
    | (ctx, false) => ctx :: runPerSlugTickPass contexts fun k => visit (k + 1)

/-- `run_interval_loop`, started again after each panic. -/
def runIntervalLoop (contexts : List (PerSlugTickContext σ)) (passes : List (Nat → Visit ε)) :
    List (PerSlugTickContext σ) :=
  passes.foldl (runPerSlugTickPass registry tickIntervalSecs) contexts

end Code

/-! ## A slug alone -/

section Alone

variable {σ ε : Type} (registry : List (BackgroundJob σ ε)) (tickIntervalSecs : Nat)

/-- A slug after its part of a pass. -/
def tick (ctx : PerSlugTickContext σ) (v : Visit ε) : PerSlugTickContext σ :=
  (tickContext registry tickIntervalSecs v ctx).1

/-- One of its jobs panics. -/
def panics (ctx : PerSlugTickContext σ) (v : Visit ε) : Bool := (tickContext registry tickIntervalSecs v ctx).2

/-- A pass comes to the slug: none before it panics. -/
def reaches : Nat → List (PerSlugTickContext σ) → (Nat → Visit ε) → Bool
  | 0, _, _ => true
  | _ + 1, [], _ => true
  | k + 1, ctx :: contexts, visit =>
    !panics registry tickIntervalSecs ctx (visit 0) && reaches k contexts fun j => visit (j + 1)

/-- The visits of a slug in a run. -/
def visits (k : Nat) : List (PerSlugTickContext σ) → List (Nat → Visit ε) → List (Visit ε)
  | _, [] => []
  | contexts, visit :: passes =>
    (if reaches registry tickIntervalSecs k contexts visit then [visit k] else []) ++
      visits k (runPerSlugTickPass registry tickIntervalSecs contexts visit) passes

variable {registry tickIntervalSecs} {contexts : List (PerSlugTickContext σ)} {k : Nat}

theorem reaches_iff {visit : Nat → Visit ε} : reaches registry tickIntervalSecs k contexts visit = true ↔
    ∀ j < k, ∀ ctx, contexts[j]? = some ctx → panics registry tickIntervalSecs ctx (visit j) = false := by
  induction contexts generalizing k visit with
  | nil => cases k <;> simp [reaches]
  | cons ctx contexts ih =>
    cases k with
    | zero => simp [reaches]
    | succ k =>
      simp only [reaches, Bool.and_eq_true, Bool.not_eq_true', ih]
      constructor
      · rintro ⟨hfirst, hrest⟩ (_ | j) hj ctx' hctx
        · cases hctx
          exact hfirst
        · exact hrest j (by omega) ctx' hctx
      · exact fun h => ⟨h 0 (by omega) ctx rfl, fun j hj ctx' hctx => h (j + 1) (by omega) ctx' hctx⟩

/-- What a pass does to the slug at a place. -/
theorem runPerSlugTickPass_getElem? (visit : Nat → Visit ε) :
    (runPerSlugTickPass registry tickIntervalSecs contexts visit)[k]? =
      if reaches registry tickIntervalSecs k contexts visit then
        contexts[k]?.map fun ctx => tick registry tickIntervalSecs ctx (visit k)
      else contexts[k]? := by
  induction contexts generalizing k visit with
  | nil => cases k <;> simp [runPerSlugTickPass]
  | cons ctx contexts ih =>
    cases htick : tickContext registry tickIntervalSecs (visit 0) ctx with
    | mk ctx' panicked =>
      cases panicked with
      | true =>
        cases k with
        | zero => simp [runPerSlugTickPass, reaches, tick, htick]
        | succ k => simp [runPerSlugTickPass, reaches, panics, htick]
      | false =>
        cases k with
        | zero => simp [runPerSlugTickPass, reaches, tick, htick]
        | succ k => simp [runPerSlugTickPass, reaches, panics, htick, ih]

/-- **No slug has to do with another**, but that a panic of one before it takes a visit from it. -/
theorem alone (contexts : List (PerSlugTickContext σ)) (passes : List (Nat → Visit ε)) (k : Nat) :
    (runIntervalLoop registry tickIntervalSecs contexts passes)[k]? = contexts[k]?.map fun ctx =>
      (visits registry tickIntervalSecs k contexts passes).foldl (tick registry tickIntervalSecs) ctx := by
  unfold runIntervalLoop
  induction passes generalizing contexts with
  | nil => simp [visits]
  | cons visit passes ih =>
    have hvisits : visits registry tickIntervalSecs k contexts (visit :: passes) =
        (if reaches registry tickIntervalSecs k contexts visit then [visit k] else []) ++
          visits registry tickIntervalSecs k (runPerSlugTickPass registry tickIntervalSecs contexts visit) passes := rfl
    rw [List.foldl_cons, ih, runPerSlugTickPass_getElem?, hvisits]
    split_ifs with hreach
    · rw [Option.map_map]
      rfl
    · rfl

/-- Where none before it panics, it is visited in every pass. -/
theorem visits_eq {passes : List (Nat → Visit ε)}
    (h : Throughout (runPerSlugTickPass registry tickIntervalSecs)
      (fun contexts visit => reaches registry tickIntervalSecs k contexts visit = true) contexts passes) :
    visits registry tickIntervalSecs k contexts passes = passes.map fun visit => visit k := by
  induction passes generalizing contexts with
  | nil => rfl
  | cons visit passes ih =>
    unfold visits
    rw [if_pos h.1, ih h.2]
    rfl

theorem visits_nil {passes : List (Nat → Visit ε)}
    (h : Throughout (runPerSlugTickPass registry tickIntervalSecs)
      (fun contexts visit => reaches registry tickIntervalSecs k contexts visit = false) contexts passes) :
    visits registry tickIntervalSecs k contexts passes = [] := by
  induction passes generalizing contexts with
  | nil => rfl
  | cons visit passes ih =>
    unfold visits
    rw [if_neg (by rw [h.1]; exact Bool.false_ne_true), ih h.2]
    rfl

/-- **A slug that every pass ends before is left as it was**: the loop starts again with the first one. -/
theorem starved {passes : List (Nat → Visit ε)}
    (h : Throughout (runPerSlugTickPass registry tickIntervalSecs)
      (fun contexts visit => reaches registry tickIntervalSecs k contexts visit = false) contexts passes) :
    (runIntervalLoop registry tickIntervalSecs contexts passes)[k]? = contexts[k]? := by
  rw [alone, visits_nil h]
  simp

/-- The second of two slugs, where the scan of the first one's store panics. -/
theorem starved_second :
    (runIntervalLoop (buildJobRegistry fun name _ _ (s : Bool) =>
        (s, if s && name == "contradiction_scan" then .panicked else .ok)) 900
      [.fromServiceLayer "a" true, .fromServiceLayer "b" false] [fun _ => ⟨fun _ => (), 7⟩])[1]? =
        some (.fromServiceLayer "b" false) :=
  starved ⟨by decide, trivial⟩

end Alone

/-! ## What is run when -/

section Due

variable {σ ε : Type} {registry : List (BackgroundJob σ ε)} {tickIntervalSecs : Nat}

/-- The jobs that are due, in their order. -/
def due (registry : List (BackgroundJob σ ε)) (t : UInt32) : List (String × UInt32) :=
  (registry.filter fun job => job.cadence.fires t).map fun job => (job.name, t)

/-- The tick that a job reads off the counter is the one it is run for. -/
theorem nextTick_sub (ctx : PerSlugTickContext σ) : ctx.nextTick.2.tickCounter - 1 = ctx.nextTick.1 :=
  UInt32.add_sub_cancel ctx.tickCounter 1

theorem runJobs_tickCounter (t : UInt32) (meets : Nat → ε) (ctx : PerSlugTickContext σ) :
    (runJobs t registry meets ctx).1.tickCounter = ctx.tickCounter := by
  induction registry generalizing meets ctx with
  | nil => rfl
  | cons job jobs ih =>
    unfold runJobs
    dsimp only
    split_ifs
    · split
      · rfl
      · exact ih _ _
      · exact ih _ _
    · exact ih _ _

theorem runJobs_log {t : UInt32} {meets : Nat → ε} {ctx : PerSlugTickContext σ}
    (h : (runJobs t registry meets ctx).2 = false) :
    (runJobs t registry meets ctx).1.log = ctx.log ++ due registry t := by
  induction registry generalizing meets ctx with
  | nil => exact (List.append_nil _).symm
  | cons job jobs ih =>
    unfold runJobs at h ⊢
    dsimp only at h ⊢
    by_cases hfires : job.cadence.fires t = true
    · have hdue : due (job :: jobs) t = (job.name, t) :: due jobs t := by
        simp [due, hfires]
      rw [if_pos hfires] at h ⊢
      rw [hdue]
      split at h
      · cases h
      · exact (ih h).trans (by simp)
      · exact (ih h).trans (by simp)
    · have hdue : due (job :: jobs) t = due jobs t := by
        simp [due, hfires]
      rw [if_neg hfires] at h ⊢
      rw [hdue]
      exact ih h

/-- A visit is a run of the jobs, but for the schedule. -/
theorem tick_spec (registry : List (BackgroundJob σ ε)) (tickIntervalSecs : Nat) (ctx : PerSlugTickContext σ)
    (v : Visit ε) {ctx' : PerSlugTickContext σ} {panicked : Bool}
    (h : runJobs ctx.nextTick.1 registry v.meets ctx.nextTick.2 = (ctx', panicked)) :
    panics registry tickIntervalSecs ctx v = panicked ∧ (tick registry tickIntervalSecs ctx v).log = ctx'.log ∧
      (tick registry tickIntervalSecs ctx v).tickCounter = ctx'.tickCounter ∧
      (tick registry tickIntervalSecs ctx v).state = ctx'.state := by
  unfold panics tick tickContext
  dsimp only
  rw [h]
  cases panicked with
  | true => exact ⟨rfl, rfl, rfl, rfl⟩
  | false => exact ⟨rfl, rfl, rfl, rfl⟩

theorem tick_tickCounter (ctx : PerSlugTickContext σ) (v : Visit ε) :
    (tick registry tickIntervalSecs ctx v).tickCounter = ctx.tickCounter + 1 := by
  obtain ⟨-, -, hcounter, -⟩ := tick_spec registry tickIntervalSecs ctx v rfl
  exact hcounter.trans (runJobs_tickCounter ctx.nextTick.1 v.meets ctx.nextTick.2)

theorem tick_log {ctx : PerSlugTickContext σ} {v : Visit ε} (h : panics registry tickIntervalSecs ctx v = false) :
    (tick registry tickIntervalSecs ctx v).log = ctx.log ++ due registry ctx.tickCounter := by
  obtain ⟨hpanics, hlog, -, -⟩ := tick_spec registry tickIntervalSecs ctx v rfl
  exact hlog.trans (runJobs_log (hpanics.symm.trans h))

/-- What is run in visits without a panic. -/
theorem log_eq {ctx : PerSlugTickContext σ} {vs : List (Visit ε)}
    (h : Throughout (tick registry tickIntervalSecs) (fun ctx v => panics registry tickIntervalSecs ctx v = false)
      ctx vs) :
    (vs.foldl (tick registry tickIntervalSecs) ctx).log =
      ctx.log ++ (List.range vs.length).flatMap fun i => due registry (ctx.tickCounter + UInt32.ofNat i) := by
  induction vs generalizing ctx with
  | nil => exact (List.append_nil _).symm
  | cons v vs ih =>
    have hnext (i : Nat) : ctx.tickCounter + 1 + UInt32.ofNat i = ctx.tickCounter + UInt32.ofNat (i + 1) := by
      rw [UInt32.ofNat_add, UInt32.add_assoc, UInt32.add_comm 1]
      rfl
    rw [List.foldl_cons, ih h.2, tick_log h.1, tick_tickCounter, List.length_cons, List.range_succ_eq_map,
      List.flatMap_cons, List.flatMap_map, List.append_assoc]
    simp only [hnext]
    congr 2
    simp

theorem countP_due_of_notMem {name : String} (hname : name ∉ registry.map BackgroundJob.name) (t : UInt32) :
    (due registry t).countP (fun e => decide (e.1 = name)) = 0 := by
  rw [List.countP_eq_zero]
  rintro e he hdecide
  obtain ⟨job, hjob, rfl⟩ := List.mem_map.mp he
  exact hname (List.mem_map.mpr ⟨job, (List.mem_filter.mp hjob).1, of_decide_eq_true hdecide⟩)

theorem countP_due (hnodup : (registry.map BackgroundJob.name).Nodup) {job : BackgroundJob σ ε} (hjob : job ∈ registry)
    (t : UInt32) :
    (due registry t).countP (fun e => decide (e.1 = job.name)) = if job.cadence.fires t then 1 else 0 := by
  induction registry with
  | nil => cases hjob
  | cons first jobs ih =>
    obtain ⟨hfirst, hrest⟩ := List.nodup_cons.mp hnodup
    have hcons : due (first :: jobs) t = (if first.cadence.fires t then [(first.name, t)] else []) ++ due jobs t := by
      unfold due
      by_cases hfires : first.cadence.fires t = true <;> simp [hfires]
    rw [hcons, List.countP_append]
    rcases List.mem_cons.mp hjob with rfl | hmem
    · rw [countP_due_of_notMem hfirst t]
      split_ifs <;> simp
    · have hne : first.name ≠ job.name := fun heq => hfirst (heq ▸ List.mem_map_of_mem hmem)
      rw [ih hrest hmem]
      by_cases hfires : first.cadence.fires t = true <;> simp [hfires, hne]

/-- How often `n` divides what is counted from 0, modulo the counter's length. -/
theorem sum_fires {n : UInt32} {m : Nat} (hn : 0 < n.toNat) (hwrap : n.toNat ∣ 2 ^ 32 ∨ m ≤ 2 ^ 32) :
    ((List.range m).map fun i => if (Cadence.everyN n).fires (UInt32.ofNat i) then 1 else 0).sum =
      (m + n.toNat - 1) / n.toNat := by
  have hne : (n != 0) = true := bne_iff_ne.mpr fun h => by
    rw [h] at hn
    cases hn
  induction m with
  | zero =>
    rw [Nat.zero_add, Nat.div_eq_of_lt (by omega)]
    rfl
  | succ m ih =>
    have hfires : (Cadence.everyN n).fires (UInt32.ofNat m) = true ↔ n.toNat ∣ m := by
      have hmod : m % 2 ^ 32 % n.toNat = m % n.toNat := by
        rcases hwrap with hdvd | hle
        · exact Nat.mod_mod_of_dvd m hdvd
        · rw [Nat.mod_eq_of_lt (by omega : m < 2 ^ 32)]
      rw [Nat.dvd_iff_mod_eq_zero, ← hmod]
      simp only [Cadence.fires, hne, Bool.true_and, beq_iff_eq, ← UInt32.toNat_inj, UInt32.toNat_mod,
        UInt32.toNat_ofNat']
      rfl
    rw [List.range_succ, List.map_append, List.sum_append, ih (hwrap.imp_right (by omega))]
    have hdiv : (m + 1 + n.toNat - 1) / n.toNat = (m + n.toNat - 1) / n.toNat + if n.toNat ∣ m then 1 else 0 := by
      have hlast : m + 1 + n.toNat - 1 = m + n.toNat - 1 + 1 := by omega
      have hdvd : n.toNat ∣ m + n.toNat - 1 + 1 ↔ n.toNat ∣ m := by
        rw [← hlast, show m + 1 + n.toNat - 1 = m + n.toNat by omega]
        exact (Nat.dvd_add_iff_left (Nat.dvd_refl n.toNat)).symm
      rw [hlast, Nat.succ_div]
      simp only [hdvd]
    rw [hdiv]
    by_cases hdvd : n.toNat ∣ m
    · simp [hfires.mpr hdvd, hdvd]
    · have hnot : (Cadence.everyN n).fires (UInt32.ofNat m) = false := by
        rw [← Bool.not_eq_true, hfires]
        exact hdvd
      simp [hnot, hdvd]

/-- A slug is calm where none up to it panics. -/
theorem calm_alone {contexts : List (PerSlugTickContext σ)} {k : Nat} {ctx : PerSlugTickContext σ}
    {passes : List (Nat → Visit ε)} (hctx : contexts[k]? = some ctx)
    (h : Throughout (runPerSlugTickPass registry tickIntervalSecs)
      (fun contexts visit => reaches registry tickIntervalSecs (k + 1) contexts visit = true) contexts passes) :
    Throughout (tick registry tickIntervalSecs) (fun ctx v => panics registry tickIntervalSecs ctx v = false) ctx
      (passes.map fun visit => visit k) := by
  induction passes generalizing contexts ctx with
  | nil => trivial
  | cons visit passes ih =>
    have hreach := reaches_iff.mp h.1
    refine ⟨hreach k (by omega) ctx hctx, ih ?_ h.2⟩
    rw [runPerSlugTickPass_getElem?, if_pos (reaches_iff.mpr fun j hj => hreach j (by omega)), hctx]
    rfl

/-- **A job that is due on every `n`-th tick is run once for every `n` passes**, from the first on. -/
theorem cadence_kept {job : BackgroundJob σ ε} {n : UInt32} {contexts : List (PerSlugTickContext σ)} {k : Nat}
    {passes : List (Nat → Visit ε)} {slug : String} {state : σ}
    (hnodup : (registry.map BackgroundJob.name).Nodup) (hjob : job ∈ registry) (hcadence : job.cadence = .everyN n)
    (hn : 0 < n.toNat) (hwrap : n.toNat ∣ 2 ^ 32 ∨ passes.length ≤ 2 ^ 32)
    (hctx : contexts[k]? = some (.fromServiceLayer slug state))
    (hcalm : Throughout (runPerSlugTickPass registry tickIntervalSecs)
      (fun contexts visit => reaches registry tickIntervalSecs (k + 1) contexts visit = true) contexts passes) :
    ∃ ctx, (runIntervalLoop registry tickIntervalSecs contexts passes)[k]? = some ctx ∧
      ctx.log.countP (fun e => decide (e.1 = job.name)) = (passes.length + n.toNat - 1) / n.toNat := by
  have hreach : Throughout (runPerSlugTickPass registry tickIntervalSecs)
      (fun contexts visit => reaches registry tickIntervalSecs k contexts visit = true) contexts passes :=
    Throughout.mono (fun contexts visit h => reaches_iff.mpr fun j hj => reaches_iff.mp h j (by omega)) hcalm
  have hlog := log_eq (calm_alone hctx hcalm)
  refine ⟨_, by rw [alone, hctx, visits_eq hreach]; rfl, ?_⟩
  rw [hlog, List.length_map, ← sum_fires hn hwrap]
  simp only [PerSlugTickContext.fromServiceLayer, List.nil_append, UInt32.zero_add, List.countP_flatMap,
    Function.comp_def, countP_due hnodup hjob, hcadence]

/-- The contradiction scan in five passes. -/
theorem cadence_kept_scan : ∃ ctx,
    (runIntervalLoop (buildJobRegistry fun _ _ _ (s : Unit) => (s, .ok)) 900 [.fromServiceLayer "daemon" ()]
      (List.replicate 5 fun _ => ⟨fun _ => (), 7⟩))[0]? = some ctx ∧
      ctx.log.countP (fun e => decide (e.1 = "contradiction_scan")) = 2 :=
  cadence_kept (by decide) (List.mem_of_getElem? (show (buildJobRegistry _)[5]? = some _ from rfl)) rfl (by decide)
    (.inl (by decide)) rfl ⟨rfl, rfl, rfl, rfl, rfl, trivial⟩

end Due

/-! ## The extraction job -/

/-- `TickMutableState`. -/
structure TickMutableState (χ ν η : Type) where
  extractionCtx : χ
  neuralEnhancer : Option ν
  shadowEvaluator : Option η

/-- How `extraction_tick` ends, under its time limit. -/
inductive Ended where
  | ok
  | err
  | timedOut
  | panicked

section Extraction

variable {σ ε χ ν η : Type}

/-- A job that leaves the mutable state of the loop alone. -/
def BackgroundJob.beside (job : BackgroundJob σ ε) : BackgroundJob (σ × TickMutableState χ ν η) ε where
  name := job.name
  cadence := job.cadence
  run e t s := (((job.run e t s.1).1, s.2), (job.run e t s.1).2)

/-- `ExtractionJob`: the enhancer and its evaluator are taken out of the state, and put back behind the tick. -/
def extractionJob (extractionTick : ε → χ → Option ν → Option η → σ → (χ × Option η × σ) × Ended) :
    BackgroundJob (σ × TickMutableState χ ν η) ε where
  name := "extraction"
  cadence := .everyTick
  run e _ s :=
    let m := s.2
    match extractionTick e m.extractionCtx m.neuralEnhancer m.shadowEvaluator s.1 with
    | ((_, _, rest), .panicked) =>
      ((rest, { m with neuralEnhancer := none, shadowEvaluator := none }), .panicked)
    | ((extractionCtx, shadowEvaluator, rest), _) =>
      ((rest, ⟨extractionCtx, m.neuralEnhancer, shadowEvaluator⟩), .ok)

/-- `build_job_registry` with what the extraction job does of the mutable state. -/
def buildExtractionRegistry (run : String → ε → UInt32 → σ → σ × Outcome)
    (extractionTick : ε → χ → Option ν → Option η → σ → (χ × Option η × σ) × Ended) :
    List (BackgroundJob (σ × TickMutableState χ ν η) ε) :=
  (buildJobRegistry run).map fun job => if job.name = "extraction" then extractionJob extractionTick else job.beside

variable {registry : List (BackgroundJob (σ × TickMutableState χ ν η) ε)} {tickIntervalSecs : Nat}

/-- The job that was run last. -/
def PerSlugTickContext.lastJob {τ : Type} (ctx : PerSlugTickContext τ) : Option String := ctx.log.getLast?.map Prod.fst

/-- A visit ends with a panic of the extraction. -/
def extractionPanics (registry : List (BackgroundJob (σ × TickMutableState χ ν η) ε)) (tickIntervalSecs : Nat)
    (ctx : PerSlugTickContext (σ × TickMutableState χ ν η)) (v : Visit ε) : Bool :=
  panics registry tickIntervalSecs ctx v && decide ((tick registry tickIntervalSecs ctx v).lastJob = some "extraction")

/-- A job that panics as the extraction loses the enhancer, and any other run of a job leaves it. -/
def Loses (job : BackgroundJob (σ × TickMutableState χ ν η) ε) : Prop :=
  ∀ e t s, (job.run e t s).1.2.neuralEnhancer =
    match (job.run e t s).2 with
    | .panicked => if job.name = "extraction" then none else s.2.neuralEnhancer
    | _ => s.2.neuralEnhancer

theorem loses_beside {job : BackgroundJob σ ε} (hname : job.name ≠ "extraction") :
    Loses (job.beside : BackgroundJob (σ × TickMutableState χ ν η) ε) := by
  intro e t s
  unfold BackgroundJob.beside
  dsimp only
  rw [if_neg hname]
  split <;> rfl

theorem loses_extractionJob (extractionTick : ε → χ → Option ν → Option η → σ → (χ × Option η × σ) × Ended) :
    Loses (extractionJob extractionTick) := by
  intro e t s
  unfold extractionJob
  dsimp only
  obtain ⟨⟨extractionCtx, shadowEvaluator, rest⟩, ended⟩ :=
    extractionTick e s.2.extractionCtx s.2.neuralEnhancer s.2.shadowEvaluator s.1
  cases ended <;> rfl

theorem loses_registry (run : String → ε → UInt32 → σ → σ × Outcome)
    (extractionTick : ε → χ → Option ν → Option η → σ → (χ × Option η × σ) × Ended) :
    ∀ job ∈ buildExtractionRegistry run extractionTick, Loses job := by
  intro job hjob
  obtain ⟨job, -, rfl⟩ := List.mem_map.mp hjob
  split_ifs with hname
  · exact loses_extractionJob extractionTick
  · exact loses_beside hname

theorem runJobs_neuralEnhancer (hloses : ∀ job ∈ registry, Loses job) (t : UInt32) (meets : Nat → ε)
    (ctx : PerSlugTickContext (σ × TickMutableState χ ν η)) :
    (runJobs t registry meets ctx).1.state.2.neuralEnhancer =
      if (runJobs t registry meets ctx).2 &&
          decide ((runJobs t registry meets ctx).1.lastJob = some "extraction") then none
      else ctx.state.2.neuralEnhancer := by
  induction registry generalizing meets ctx with
  | nil => rfl
  | cons job jobs ih =>
    have hjob := hloses job List.mem_cons_self (meets 0) ctx.tickCounter ctx.state
    have hrest := ih fun job hmem => hloses job (List.mem_cons_of_mem _ hmem)
    unfold runJobs
    dsimp only
    by_cases hfires : job.cadence.fires t = true
    · rw [if_pos hfires]
      cases houtcome : (job.run (meets 0) ctx.tickCounter ctx.state).2 with
      | panicked =>
        rw [houtcome] at hjob
        simpa [PerSlugTickContext.lastJob] using hjob
      | ok =>
        rw [houtcome] at hjob
        simp only [hrest, hjob]
      | err e =>
        rw [houtcome] at hjob
        simp only [hrest, hjob]
    · rw [if_neg hfires]
      exact hrest _ _

/-- What a visit does to the enhancer. -/
theorem tick_neuralEnhancer (hloses : ∀ job ∈ registry, Loses job)
    (ctx : PerSlugTickContext (σ × TickMutableState χ ν η)) (v : Visit ε) :
    (tick registry tickIntervalSecs ctx v).state.2.neuralEnhancer =
      if extractionPanics registry tickIntervalSecs ctx v then none else ctx.state.2.neuralEnhancer := by
  obtain ⟨hpanics, hlog, -, hstate⟩ := tick_spec registry tickIntervalSecs ctx v rfl
  unfold extractionPanics PerSlugTickContext.lastJob
  rw [hpanics, hlog, hstate]
  exact runJobs_neuralEnhancer hloses ctx.nextTick.1 v.meets ctx.nextTick.2

/-- Once lost, it is lost. -/
theorem foldl_neuralEnhancer (hloses : ∀ job ∈ registry, Loses job)
    (ctx : PerSlugTickContext (σ × TickMutableState χ ν η)) (vs : List (Visit ε)) :
    (vs.foldl (tick registry tickIntervalSecs) ctx).state.2.neuralEnhancer =
      if Throughout (tick registry tickIntervalSecs)
        (fun ctx v => extractionPanics registry tickIntervalSecs ctx v = false) ctx vs then
        ctx.state.2.neuralEnhancer else none := by
  induction vs generalizing ctx with
  | nil => exact (if_pos trivial).symm
  | cons v vs ih =>
    rw [List.foldl_cons, ih, tick_neuralEnhancer hloses]
    cases hpanics : extractionPanics registry tickIntervalSecs ctx v with
    | true => simp [Throughout, hpanics]
    | false => simp [Throughout, hpanics]

/-- **A panic of the extraction switches the enhancer of its slug off for good**, and nothing else does. -/
theorem enhancer_kept (run : String → ε → UInt32 → σ → σ × Outcome)
    (extractionTick : ε → χ → Option ν → Option η → σ → (χ × Option η × σ) × Ended) (tickIntervalSecs : Nat)
    (contexts : List (PerSlugTickContext (σ × TickMutableState χ ν η))) (passes : List (Nat → Visit ε)) (k : Nat) :
    ((runIntervalLoop (buildExtractionRegistry run extractionTick) tickIntervalSecs contexts passes)[k]?.map
        fun ctx => ctx.state.2.neuralEnhancer) = contexts[k]?.map fun ctx =>
      if Throughout (tick (buildExtractionRegistry run extractionTick) tickIntervalSecs)
        (fun ctx v => extractionPanics (buildExtractionRegistry run extractionTick) tickIntervalSecs ctx v = false) ctx
        (visits (buildExtractionRegistry run extractionTick) tickIntervalSecs k contexts passes) then
        ctx.state.2.neuralEnhancer else none := by
  rw [alone, Option.map_map]
  congr 1
  funext ctx
  exact foldl_neuralEnhancer (loses_registry run extractionTick) ctx _

end Extraction

end Unimatrix.TickLoop
