import Unimatrix.Lib.Except
import Unimatrix.Store.Analytics

/-!
# What a batch of analytics writes does

Results about `commit_batch` of `Store/Analytics.lean`.

* A batch goes through as a whole or leaves no trace (`commitBatch_false`, `commitBatch_true`).
* **`commitBatch_commits_iff`**: with nothing failing around it, a batch is committed if and only if every event of it
  is `Admissible` where it stands: one event that is not takes the others of its batch with it.
* **`foldl_replayed`**: what each table then holds (`Replayed`). The counts of `co_access` are the number of
  events of the pair, a log has the rows of the batch at its end, a row of `sessions` or `topic_deliveries` is that of
  the last event but for the time it was created at, and where a row is only added the first one stays.
-/

namespace Unimatrix.Analytics

/-! ## A batch goes through as a whole -/

/-- What an event does to the tables when it is not refused. -/
def effect (t : Tables) (e : Int × AnalyticsWrite) : Tables := if sends e.2 then apply e.1 t e.2 else t

theorem write_ok {t t' : Tables} {e : Int × AnalyticsWrite} (h : write t e = .ok t') : t' = effect t e := by
  unfold write at h
  unfold effect
  split at h
  · rename_i hsends
    rw [if_pos hsends]
    split at h
    · cases h
    · cases h
      rfl
  · rename_i hsends
    rw [if_neg hsends]
    cases h
    rfl

theorem executeAnalyticsWrite_run (e : Int × AnalyticsWrite) (t : Tables) (b : Unit) (t' : Tables)
    (h : Txn.Run (executeAnalyticsWrite e) t b t') : write t e = .ok t' := by
  unfold executeAnalyticsWrite at h
  split at h
  · have hs := Txn.Run.statement h
    cases hw : write t e with
    | error err =>
      rw [hw] at hs
      cases hs
    | ok t₁ =>
      rw [hw] at hs
      cases hs
      rfl
  · rename_i hsends
    obtain ⟨-, rfl⟩ := Txn.Run.ret h
    unfold write
    rw [if_neg hsends]

theorem executeAnalyticsWrite_passes (e : Int × AnalyticsWrite) (t t' : Tables) (h : write t e = .ok t') :
    Txn.Passes (executeAnalyticsWrite e) t PUnit.unit t' := by
  unfold executeAnalyticsWrite
  split
  · refine Txn.Passes.statement ?_
    rw [h]
    rfl
  · rename_i hsends
    unfold write at h
    rw [if_neg hsends] at h
    cases h
    exact Txn.Passes.ret t ()

section Batch

variable {t : Tables} {batch : List (Int × AnalyticsWrite)}

theorem commitBatch_cases (t : Tables) (batch : List (Int × AnalyticsWrite)) (fault : Option Nat) :
    commitBatch t batch fault = (false, t) ∨
      ∃ t', commitBatch t batch fault = (true, t') ∧ batch.foldlM write t = .ok t' := by
  unfold commitBatch
  have hs := Txn.transaction_settled (batch.forM executeAnalyticsWrite)
    (⟨t, fault.map fun n => (n, DbError.io)⟩ : Conn Tables DbError)
  generalize Txn.transaction (batch.forM executeAnalyticsWrite)
    (⟨t, fault.map fun n => (n, DbError.io)⟩ : Conn Tables DbError) = r at hs ⊢
  cases hs with
  | failed e => exact .inl rfl
  | committed a c' h => exact .inr ⟨c'.db, rfl, Txn.Run.forM_foldlM executeAnalyticsWrite_run h⟩

/-- **A batch that is not committed leaves the tables as they were.** -/
theorem commitBatch_false {fault : Option Nat} (h : (commitBatch t batch fault).1 = false) :
    (commitBatch t batch fault).2 = t := by
  obtain hc | ⟨t', hc, -⟩ := commitBatch_cases t batch fault
  · rw [hc]
  · rw [hc] at h
    cases h

/-- **A batch that is committed took every event.** -/
theorem commitBatch_true {fault : Option Nat} (h : (commitBatch t batch fault).1 = true) :
    batch.foldlM write t = .ok (commitBatch t batch fault).2 := by
  obtain hc | ⟨t', hc, hfold⟩ := commitBatch_cases t batch fault
  · rw [hc] at h
    cases h
  · rw [hc]
    exact hfold

theorem commitBatch_effect {fault : Option Nat} (h : (commitBatch t batch fault).1 = true) :
    (commitBatch t batch fault).2 = batch.foldl effect t :=
  Except.foldlM_eq_foldl (fun _ _ _ => write_ok) (commitBatch_true h)

theorem commitBatch_isOk_iff : (commitBatch t batch none).1 = true ↔ ∃ t', batch.foldlM write t = .ok t' := by
  constructor
  · exact fun h => ⟨_, commitBatch_true h⟩
  · rintro ⟨t', h⟩
    have hp := (Txn.Passes.forM_foldlM executeAnalyticsWrite_passes h).transaction
    unfold commitBatch
    rw [show (none : Option Nat).map (fun n => (n, DbError.io)) = none from rfl, hp]
    rfl

end Batch

/-! ## What an event is to a table -/

/-- The pair of a co-access. -/
def pairOf : AnalyticsWrite → Option (Int × Int)
  | .coAccess idA idB => some (coAccessKey idA idB)
  | _ => none

/-- When a pair was last counted. -/
def timeOf (k : Int × Int) (e : Int × AnalyticsWrite) : Option Int := if pairOf e.2 = some k then some e.1 else none

/-- What an event says of the session `s`. -/
def sessionOf (s : String) : AnalyticsWrite → Option SessionRow
  | .sessionUpdate sessionId row => if sessionId = s then some row else none
  | _ => none

/-- The row an event adds to `injection_log`. -/
def injectionOf : AnalyticsWrite → Option InjectionRow
  | .injectionLog row => some row
  | _ => none

/-- The row an event adds to `query_log`. -/
def queryOf : AnalyticsWrite → Option QueryRow
  | .queryLog row => some row
  | _ => none

/-- The row an event adds to `signal_queue`. -/
def signalOf : AnalyticsWrite → Option SignalRow
  | .signalQueue row => some row
  | _ => none

/-- The row an event adds to `observations`. -/
def observationOf : AnalyticsWrite → Option ObservationRow
  | .observation row => some row
  | _ => none

/-- The row an event adds to `shadow_evaluations`. -/
def shadowOf : AnalyticsWrite → Option ShadowRow
  | .shadowEvaluation row => some row
  | _ => none

/-- The metrics of the cycle `c`. -/
def metricsOf (c : String) : AnalyticsWrite → Option MetricsRow
  | .observationMetric featureCycle row => if featureCycle = c then some row else none
  | _ => none

/-- The phase an entry is recorded with under a feature. -/
def featureOf (k : String × Nat) : AnalyticsWrite → Option (Option String)
  | .featureEntry featureId entryId phase => if (featureId, entryId) = k then some phase else none
  | _ => none

/-- What an event says of a topic. -/
def topicOf (k : String) : AnalyticsWrite → Option TopicRow
  | .topicDelivery topic row => if topic = k then some row else none
  | _ => none

/-- An outcome of a cycle. -/
def outcomeOf (k : String × Nat) : AnalyticsWrite → Option Unit
  | .outcomeIndex featureCycle entryId => if (featureCycle, entryId) = k then some () else none
  | _ => none

/-- What an event makes of the phase `k` of a cycle: a row, or none. -/
def phaseOf (k : String × String) : AnalyticsWrite → Option (Option PhaseRow)
  | .observationPhaseMetric featureCycle phaseName row =>
    if (featureCycle, phaseName) = k then some (some row) else none
  | .deleteObservationPhases featureCycle => if featureCycle = k.1 then some none else none
  | _ => none

/-- The edge an event adds at `k`. -/
def edgeOf (k : EdgeKey) (e : Int × AnalyticsWrite) : Option EdgeColumns :=
  match e.2 with
  | .graphEdge sourceId targetId relationType weight createdBy source bootstrapOnly =>
    if isFinite weight ∧ (⟨sourceId, targetId, relationType⟩ : EdgeKey) = k then
      some ⟨weight, e.1, createdBy, source, bootstrapOnly⟩
    else none
  | _ => none

/-! ## One event -/

section Effect

variable (t : Tables) (e : Int × AnalyticsWrite)

theorem effect_coAccess (k : Int × Int) : (effect t e).coAccess.lookup k =
    if pairOf e.2 = some k then some ⟨(t.coAccess.lookup k).elim 1 fun r => r.count + 1, e.1⟩
    else t.coAccess.lookup k := by
  obtain ⟨now, e⟩ := e
  unfold effect
  cases e with
  | coAccess idA idB => simp only [sends, apply, pairOf, HashMap.lookup_upsert, Option.some.injEq, if_true]
  | graphEdge => split <;> rfl
  | _ => rfl

theorem effect_sessions (s : String) : (effect t e).sessions.lookup s =
    (sessionOf s e.2).elim (t.sessions.lookup s) fun row => some (row.after (t.sessions.lookup s)) := by
  obtain ⟨now, e⟩ := e
  unfold effect
  cases e with
  | sessionUpdate sessionId row =>
    simp only [sends, apply, sessionOf, HashMap.lookup_upsert, if_true]
    split <;> rfl
  | graphEdge => split <;> rfl
  | _ => rfl

/-- An event adds its row, if it has one, to the end of each log. -/
theorem effect_logs :
    (effect t e).injectionLog = t.injectionLog ++ (injectionOf e.2).toList ∧
    (effect t e).queryLog = t.queryLog ++ (queryOf e.2).toList ∧
    (effect t e).signalQueue = t.signalQueue ++ (signalOf e.2).toList ∧
    (effect t e).observations = t.observations ++ (observationOf e.2).toList ∧
    (effect t e).shadowEvaluations = t.shadowEvaluations ++ (shadowOf e.2).toList := by
  obtain ⟨now, e⟩ := e
  unfold effect
  cases e with
  | graphEdge => split <;> simp [apply, injectionOf, queryOf, signalOf, observationOf, shadowOf]
  | _ => simp [sends, apply, injectionOf, queryOf, signalOf, observationOf, shadowOf]

theorem effect_observationMetrics (c : String) : (effect t e).observationMetrics.lookup c =
    (metricsOf c e.2).or (t.observationMetrics.lookup c) := by
  obtain ⟨now, e⟩ := e
  unfold effect
  cases e with
  | observationMetric featureCycle row =>
    simp only [sends, apply, metricsOf, HashMap.lookup_upsert, if_true]
    split <;> rfl
  | graphEdge => split <;> rfl
  | _ => rfl

theorem effect_featureEntries (k : String × Nat) : (effect t e).featureEntries.lookup k =
    (t.featureEntries.lookup k).or (featureOf k e.2) := by
  obtain ⟨now, e⟩ := e
  unfold effect
  cases e with
  | featureEntry featureId entryId phase =>
    simp only [sends, apply, featureOf, HashMap.lookup_insertNew, if_true]
    split
    · rfl
    · exact Option.or_none.symm
  | graphEdge => split <;> exact Option.or_none.symm
  | _ => exact Option.or_none.symm

theorem effect_topicDeliveries (k : String) : (effect t e).topicDeliveries.lookup k =
    (topicOf k e.2).elim (t.topicDeliveries.lookup k) fun row =>
      some (row.after (t.topicDeliveries.lookup k)) := by
  obtain ⟨now, e⟩ := e
  unfold effect
  cases e with
  | topicDelivery topic row =>
    simp only [sends, apply, topicOf, HashMap.lookup_upsert, if_true]
    split <;> rfl
  | graphEdge => split <;> rfl
  | _ => rfl

theorem effect_outcomeIndex (k : String × Nat) : (effect t e).outcomeIndex.lookup k =
    (t.outcomeIndex.lookup k).or (outcomeOf k e.2) := by
  obtain ⟨now, e⟩ := e
  unfold effect
  cases e with
  | outcomeIndex featureCycle entryId =>
    simp only [sends, apply, outcomeOf, HashMap.lookup_insertNew, if_true]
    split
    · rfl
    · exact Option.or_none.symm
  | graphEdge => split <;> exact Option.or_none.symm
  | _ => exact Option.or_none.symm

theorem effect_observationPhaseMetrics (k : String × String) : (effect t e).observationPhaseMetrics.lookup k =
    (phaseOf k e.2).getD (t.observationPhaseMetrics.lookup k) := by
  obtain ⟨now, e⟩ := e
  unfold effect
  cases e with
  | observationPhaseMetric featureCycle phaseName row =>
    simp only [sends, apply, phaseOf, HashMap.lookup_upsert, if_true]
    split <;> rfl
  | deleteObservationPhases featureCycle =>
    simp only [sends, apply, phaseOf, HashMap.lookup_retain, if_true]
    by_cases h : featureCycle = k.1
    · rw [if_pos h]
      cases t.observationPhaseMetrics.lookup k <;> simp [h]
    · rw [if_neg h]
      cases t.observationPhaseMetrics.lookup k <;> simp [Ne.symm h]
  | graphEdge => split <;> rfl
  | _ => rfl

theorem effect_graphEdges (k : EdgeKey) : (effect t e).graphEdges.lookup k =
    (t.graphEdges.lookup k).or (edgeOf k e) := by
  obtain ⟨now, e⟩ := e
  cases e with
  | graphEdge sourceId targetId relationType weight createdBy source bootstrapOnly =>
    simp only [edgeOf]
    by_cases hw : isFinite weight = true
    · have heffect : (effect t (now, .graphEdge sourceId targetId relationType weight createdBy source
          bootstrapOnly)).graphEdges = t.graphEdges.insertNew ⟨sourceId, targetId, relationType⟩
            ⟨weight, now, createdBy, source, bootstrapOnly⟩ := congrArg Tables.graphEdges (if_pos hw)
      rw [heffect, HashMap.lookup_insertNew]
      by_cases hk : (⟨sourceId, targetId, relationType⟩ : EdgeKey) = k
      · rw [if_pos hk, if_pos ⟨hw, hk⟩]
      · rw [if_neg hk, if_neg fun h => hk h.2, Option.or_none]
    · have heffect : effect t (now, .graphEdge sourceId targetId relationType weight createdBy source
          bootstrapOnly) = t := if_neg hw
      rw [heffect, if_neg fun h => hw h.1, Option.or_none]
  | _ => exact Option.or_none.symm

end Effect

/-! ## A batch, table by table -/

/-- `t'` is what the events `es` make of `t`. -/
structure Replayed (es : List (Int × AnalyticsWrite)) (t t' : Tables) : Prop where
  /-- A pair has been counted once for each of its events. -/
  coAccess_count : ∀ k, (t'.coAccess.lookup k).elim 0 CoAccessRow.count =
    (t.coAccess.lookup k).elim 0 CoAccessRow.count + es.countP fun e => decide (pairOf e.2 = some k)
  /-- It carries the time of the last of them. -/
  coAccess_time : ∀ k, (t'.coAccess.lookup k).map CoAccessRow.lastUpdated =
    (es.reverse.findSome? (timeOf k)).or ((t.coAccess.lookup k).map CoAccessRow.lastUpdated)
  /-- A session is what its last event says, started when it first was. -/
  sessions : ∀ s, t'.sessions.lookup s =
    (es.reverse.findSome? fun e => sessionOf s e.2).elim (t.sessions.lookup s) fun row =>
      some (row.after ((t.sessions.lookup s).or (es.findSome? fun e => sessionOf s e.2)))
  /-- A topic likewise, created when it first was. -/
  topicDeliveries : ∀ k, t'.topicDeliveries.lookup k =
    (es.reverse.findSome? fun e => topicOf k e.2).elim (t.topicDeliveries.lookup k) fun row =>
      some (row.after ((t.topicDeliveries.lookup k).or (es.findSome? fun e => topicOf k e.2)))
  /-- The logs have the rows of the events at their ends, in order. -/
  injectionLog : t'.injectionLog = t.injectionLog ++ es.filterMap fun e => injectionOf e.2
  queryLog : t'.queryLog = t.queryLog ++ es.filterMap fun e => queryOf e.2
  signalQueue : t'.signalQueue = t.signalQueue ++ es.filterMap fun e => signalOf e.2
  observations : t'.observations = t.observations ++ es.filterMap fun e => observationOf e.2
  shadowEvaluations : t'.shadowEvaluations = t.shadowEvaluations ++ es.filterMap fun e => shadowOf e.2
  /-- The metrics of a cycle are the last ones. -/
  observationMetrics : ∀ c, t'.observationMetrics.lookup c =
    (es.reverse.findSome? fun e => metricsOf c e.2).or (t.observationMetrics.lookup c)
  /-- A phase is what the last event about it left, a deletion of the phases of its cycle included. -/
  observationPhaseMetrics : ∀ k, t'.observationPhaseMetrics.lookup k =
    (es.reverse.findSome? fun e => phaseOf k e.2).getD (t.observationPhaseMetrics.lookup k)
  /-- Of what is only ever added, the first row stays. -/
  featureEntries : ∀ k, t'.featureEntries.lookup k =
    (t.featureEntries.lookup k).or (es.findSome? fun e => featureOf k e.2)
  outcomeIndex : ∀ k, t'.outcomeIndex.lookup k =
    (t.outcomeIndex.lookup k).or (es.findSome? fun e => outcomeOf k e.2)
  graphEdges : ∀ k, t'.graphEdges.lookup k = (t.graphEdges.lookup k).or (es.findSome? (edgeOf k))

section Fold

variable (es : List (Int × AnalyticsWrite)) (t : Tables)

/-- What is read of the tables after a list of events, where each event acts on it on its own. -/
theorem read_foldl {A : Type} (read : Tables → A) (g : A → Int × AnalyticsWrite → A)
    (h : ∀ t e, read (effect t e) = g (read t) e) : read (es.foldl effect t) = es.foldl g (read t) :=
  (List.foldl_hom read fun t e => (h t e).symm).symm

theorem foldl_coAccess_count (k : Int × Int) :
    ((es.foldl effect t).coAccess.lookup k).elim 0 CoAccessRow.count =
      (t.coAccess.lookup k).elim 0 CoAccessRow.count + es.countP fun e => decide (pairOf e.2 = some k) := by
  rw [read_foldl es t (fun t => t.coAccess.lookup k)
    (fun row e => if pairOf e.2 = some k then some ⟨row.elim 1 fun r => r.count + 1, e.1⟩ else row)
    fun t e => effect_coAccess t e k]
  refine HashMap.foldl_elim_count CoAccessRow.count _ (fun row e => ?_) es _
  by_cases h : pairOf e.2 = some k
  · rw [if_pos h, if_pos (decide_eq_true h)]
    cases row <;> rfl
  · rw [if_neg h, if_neg (by simpa using h)]
    rfl

theorem foldl_coAccess_time (k : Int × Int) :
    ((es.foldl effect t).coAccess.lookup k).map CoAccessRow.lastUpdated =
      (es.reverse.findSome? (timeOf k)).or ((t.coAccess.lookup k).map CoAccessRow.lastUpdated) := by
  rw [← HashMap.foldl_or_last]
  refine read_foldl es t (fun t => (t.coAccess.lookup k).map CoAccessRow.lastUpdated) _ fun t e => ?_
  unfold timeOf
  rw [effect_coAccess]
  split <;> rfl

/-- **What a list of events makes of the tables.** -/
theorem foldl_replayed : Replayed es t (es.foldl effect t) where
  coAccess_count k := foldl_coAccess_count es t k
  coAccess_time k := foldl_coAccess_time es t k
  sessions s := by
    rw [read_foldl es t (fun t => t.sessions.lookup s)
      (fun old e => (sessionOf s e.2).elim old fun row => some (row.after old)) fun t e => effect_sessions t e s]
    exact HashMap.foldl_keep _ SessionRow.startedAt (fun row at_ => { row with startedAt := at_ })
      (fun _ _ => rfl) es _
  topicDeliveries k := by
    rw [read_foldl es t (fun t => t.topicDeliveries.lookup k)
      (fun old e => (topicOf k e.2).elim old fun row => some (row.after old))
      fun t e => effect_topicDeliveries t e k]
    exact HashMap.foldl_keep _ TopicRow.createdAt (fun row at_ => { row with createdAt := at_ })
      (fun _ _ => rfl) es _
  injectionLog := HashMap.foldl_append_toList (fun t e => (effect_logs t e).1) es t
  queryLog := HashMap.foldl_append_toList (fun t e => (effect_logs t e).2.1) es t
  signalQueue := HashMap.foldl_append_toList (fun t e => (effect_logs t e).2.2.1) es t
  observations := HashMap.foldl_append_toList (fun t e => (effect_logs t e).2.2.2.1) es t
  shadowEvaluations := HashMap.foldl_append_toList (fun t e => (effect_logs t e).2.2.2.2) es t
  observationMetrics c := by
    rw [← HashMap.foldl_or_last]
    exact read_foldl es t (fun t => t.observationMetrics.lookup c) _ fun t e => effect_observationMetrics t e c
  observationPhaseMetrics k := by
    rw [← HashMap.foldl_getD_last]
    exact read_foldl es t (fun t => t.observationPhaseMetrics.lookup k) _ fun t e =>
      effect_observationPhaseMetrics t e k
  featureEntries k := by
    rw [← HashMap.foldl_or_first]
    exact read_foldl es t (fun t => t.featureEntries.lookup k) _ fun t e => effect_featureEntries t e k
  outcomeIndex k := by
    rw [← HashMap.foldl_or_first]
    exact read_foldl es t (fun t => t.outcomeIndex.lookup k) _ fun t e => effect_outcomeIndex t e k
  graphEdges k := by
    rw [← HashMap.foldl_or_first]
    exact read_foldl es t (fun t => t.graphEdges.lookup k) _ fun t e => effect_graphEdges t e k

end Fold

/-! ## Which batches go through -/

/-- Every phase belongs to a cycle with metrics: the foreign key of `observation_phase_metrics`. -/
def Sound (t : Tables) : Prop :=
  ∀ k, (t.observationPhaseMetrics.lookup k).isSome → (t.observationMetrics.lookup k.1).isSome

/-- An event that no constraint refuses, where `pre` are the events before it. -/
def Admissible (t : Tables) (pre : List (Int × AnalyticsWrite)) : AnalyticsWrite → Prop
  | .coAccess idA idB => (coAccessKey idA idB).1 < (coAccessKey idA idB).2
  | .injectionLog row => isNan row.confidence = false
  | .observationMetric _ row => ∀ x ∈ row.reals, isNan x = false
  | .shadowEvaluation row => isNan row.neuralConfidence = false ∧ isNan row.conventionScore = false
  | .observationPhaseMetric featureCycle _ _ =>
    (t.observationMetrics.lookup featureCycle).isSome ∨ ∃ e ∈ pre, (metricsOf featureCycle e.2).isSome
  | _ => True

section Commits

variable {t : Tables} {pre batch : List (Int × AnalyticsWrite)}

theorem isSome_observationMetrics (t : Tables) (pre : List (Int × AnalyticsWrite)) (c : String) :
    ((pre.foldl effect t).observationMetrics.lookup c).isSome ↔
      (t.observationMetrics.lookup c).isSome ∨ ∃ e ∈ pre, (metricsOf c e.2).isSome := by
  rw [(foldl_replayed pre t).observationMetrics c, Option.isSome_or, Bool.or_eq_true, List.findSome?_isSome_iff]
  simp only [List.mem_reverse]
  exact or_comm

theorem write_isOk {e : Int × AnalyticsWrite} :
    (∃ t', write t e = .ok t') ↔ sends e.2 = false ∨ refusal t e.2 = none := by
  unfold write
  cases hs : sends e.2 with
  | false => simp
  | true => cases hr : refusal t e.2 <;> simp

/-- Where the tables are sound, an event is taken if and only if it is admissible. -/
theorem write_isOk_iff (hsound : Sound (pre.foldl effect t)) (e : Int × AnalyticsWrite) :
    (∃ t', write (pre.foldl effect t) e = .ok t') ↔ Admissible t pre e.2 := by
  rw [write_isOk]
  obtain ⟨now, e⟩ := e
  cases e with
  | observationPhaseMetric featureCycle phaseName row =>
    have hphase := hsound (featureCycle, phaseName)
    simp only [sends, refusal, Admissible, ← isSome_observationMetrics]
    cases h : ((pre.foldl effect t).observationMetrics.lookup featureCycle).isSome with
    | true => simp
    | false =>
      rw [h] at hphase
      cases hp : ((pre.foldl effect t).observationPhaseMetrics.lookup (featureCycle, phaseName)).isSome with
      | true => exact absurd (hphase hp) (by simp)
      | false => simp
  | _ => simp [sends, refusal, Admissible]

/-- What an event that is taken does keeps the tables sound. -/
theorem sound_effect (hsound : Sound t) {e : Int × AnalyticsWrite} (h : ∃ t', write t e = .ok t') :
    Sound (effect t e) := by
  have hrefusal := write_isOk.mp h
  intro k hk
  rw [effect_observationPhaseMetrics] at hk
  rw [effect_observationMetrics, Option.isSome_or, Bool.or_eq_true]
  obtain ⟨now, e⟩ := e
  cases e with
  | observationPhaseMetric featureCycle phaseName new =>
    by_cases hkey : (featureCycle, phaseName) = k
    · subst hkey
      have hcases : ((t.observationMetrics.lookup featureCycle).isSome ||
          (t.observationPhaseMetrics.lookup (featureCycle, phaseName)).isSome) = true := by
        by_contra hno
        obtain hs | hr := hrefusal
        · cases hs
        · rw [refusal, if_neg hno] at hr
          cases hr
      exact .inr (((Bool.or_eq_true _ _).mp hcases).elim id fun hp => hsound _ hp)
    · simp only [phaseOf, if_neg hkey, Option.getD_none] at hk
      exact .inr (hsound k hk)
  | deleteObservationPhases featureCycle =>
    by_cases hkey : featureCycle = k.1
    · simp only [phaseOf, if_pos hkey, Option.getD_some] at hk
      cases hk
    · simp only [phaseOf, if_neg hkey, Option.getD_none] at hk
      exact .inr (hsound k hk)
  | _ => exact .inr (hsound k hk)

/-- What is taken event after event is sound at the end. -/
theorem sound_foldl (hsound : Sound t)
    (h : ∀ p e q, pre = p ++ e :: q → ∃ t', write (p.foldl effect t) e = .ok t') : Sound (pre.foldl effect t) := by
  induction pre using List.reverseRecOn with
  | nil => exact hsound
  | append_singleton pre e ih =>
    rw [List.foldl_append, List.foldl_cons, List.foldl_nil]
    refine sound_effect (ih fun p e' q hpre => ?_) (h pre e [] rfl)
    exact h p e' (q ++ [e]) (by rw [hpre, List.append_assoc, List.cons_append])

/-- Events that are all admissible leave sound tables behind them. -/
theorem sound_foldl_of_admissible (hsound : Sound t)
    (h : ∀ p e q, pre = p ++ e :: q → Admissible t p e.2) : Sound (pre.foldl effect t) := by
  induction pre using List.reverseRecOn with
  | nil => exact hsound
  | append_singleton pre e ih =>
    rw [List.foldl_append, List.foldl_cons, List.foldl_nil]
    have hpre : Sound (pre.foldl effect t) := ih fun p e' q hpre =>
      h p e' (q ++ [e]) (by rw [hpre, List.append_assoc, List.cons_append])
    exact sound_effect hpre ((write_isOk_iff hpre e).mpr (h pre e [] rfl))

/-- **Where nothing fails around it, a batch is committed if and only if each of its events is admissible.** -/
theorem commitBatch_commits_iff (hsound : Sound t) :
    (commitBatch t batch none).1 = true ↔ ∀ pre e post, batch = pre ++ e :: post → Admissible t pre e.2 := by
  rw [commitBatch_isOk_iff, Except.foldlM_isOk_iff fun _ _ _ => write_ok]
  constructor
  · intro h pre e post hbatch
    refine (write_isOk_iff (sound_foldl hsound fun p e' q hpre => ?_) e).mp (h pre e post hbatch)
    exact h p e' (q ++ e :: post) (by rw [hbatch, hpre, List.append_assoc, List.cons_append])
  · intro h pre e post hbatch
    refine (write_isOk_iff (sound_foldl_of_admissible hsound fun p e' q hpre => ?_) e).mpr (h pre e post hbatch)
    exact h p e' (q ++ e :: post) (by rw [hbatch, hpre, List.append_assoc, List.cons_append])

/-- A batch leaves sound tables as sound as they were. -/
theorem sound_commitBatch (hsound : Sound t) {fault : Option Nat} : Sound (commitBatch t batch fault).2 := by
  cases hok : (commitBatch t batch fault).1 with
  | false =>
    rw [commitBatch_false hok]
    exact hsound
  | true =>
    have hall := (Except.foldlM_isOk_iff fun _ _ _ => write_ok).mp ⟨_, commitBatch_true hok⟩
    rw [commitBatch_effect hok]
    exact sound_foldl hsound hall

end Commits

end Unimatrix.Analytics
