import Unimatrix.Lib.Query
import Mathlib.Data.List.Nodup

/-!
# What maintenance deletes

Three policies delete activity: the cycle GC block (`list_purgeable_cycles`, then `gc_cycle_activity` and
`store_cycle_review` for each cycle listed), `gc_unattributed_activity` at its end, and `gc_sessions`.

* A table is the list of its rows. That session ids and reviewed cycles are unique is the tables' `PRIMARY KEY`,
  and a field of `Store`.
* `Write`: what reaches the database in one piece, a statement or a transaction. A pass runs on `Conn`, the store
  together with the writes so far, each with the store it met; the code has no such list.
* `Engine`: how the engine orders rows that `ORDER BY` leaves equal. It sees the columns that are ordered.
* `Faults`: which store calls of a block fail. A transaction that fails leaves nothing behind, and of
  `gc_unattributed_activity` the statements before the failure stay.
-/

namespace Unimatrix.Retention

/-! ## Tables -/

/-- `SessionLifecycleStatus`. -/
inductive SessionLifecycleStatus where
  | active
  | completed
  | timedOut
  | abandoned
  deriving DecidableEq, Repr

/-- A row of `sessions`. -/
structure SessionRow where
  sessionId : String
  featureCycle : Option String
  startedAt : Int
  status : SessionLifecycleStatus
  deriving DecidableEq, Repr

/-- A row of `observations`, `query_log` or `injection_log`. -/
structure LogRow where
  id : Int
  sessionId : String
  deriving DecidableEq, Repr

/-- `CycleReviewRecord`, a row of `cycle_review_index`. -/
structure CycleReviewRecord where
  featureCycle : String
  schemaVersion : UInt32
  computedAt : Int
  rawSignalsAvailable : Int
  summaryJson : String
  correctionsTotal : Int := 0
  correctionsAgent : Int := 0
  correctionsHuman : Int := 0
  correctionsSystem : Int := 0
  deprecationsTotal : Int := 0
  orphanDeprecations : Int := 0
  firstComputedAt : Int := 0
  phaseCount : Int := 0
  phaseTransitionCount : Int := 0
  phaseReworkCount : Int := 0
  phaseUnclosedCount : Int := 0
  phaseTotalDurationSecs : Int := 0
  reworkSessionCount : Int := 0
  totalSessionCount : Int := 0
  knowledgeReuseServedCount : Int := 0
  transcriptBytesTotal : Int := 0
  transcriptDeltaCount : Int := 0
  transcriptErrorCount : Int := 0
  transcriptRefusalCount : Int := 0
  signalClassCountsJson : String := "\x7b\x7d"
  compactionCount : Int := 0
  compactionRereadCount : Int := 0
  contextReloadPct : Int := 0
  deriving DecidableEq, Repr

/-- What the reviews are listed by. -/
def CycleReviewRecord.key (r : CycleReviewRecord) : String × Int := (r.featureCycle, r.computedAt)

/-! ## What `store_cycle_review` checks and writes -/

/-- `coalesce_json`. -/
def coalesceJson (json : String) : String := if json.isEmpty then "\x7b\x7d" else json

theorem coalesceJson_idem (json : String) : coalesceJson (coalesceJson json) = coalesceJson json := by
  by_cases h : json.isEmpty = true
  · simp [coalesceJson, h]
  · simp [coalesceJson, h]

/-- The record with its counts coalesced, as it is read and as it is inserted. -/
def CycleReviewRecord.coalesced (record : CycleReviewRecord) : CycleReviewRecord :=
  { record with signalClassCountsJson := coalesceJson record.signalClassCountsJson }

/-- `SUMMARY_JSON_MAX_BYTES`. -/
def summaryJsonMaxBytes : Nat := 4 * 1024 * 1024

/-- `StoreError::InvalidInput`. -/
structure InvalidInput where
  field : String
  reason : String
  deriving DecidableEq, Repr

/-- The row that the `UPDATE` of `store_cycle_review` leaves: `first_computed_at` is not set. -/
def CycleReviewRecord.over (record old : CycleReviewRecord) : CycleReviewRecord :=
  { record with
    firstComputedAt := old.firstComputedAt
    signalClassCountsJson := coalesceJson record.signalClassCountsJson }

/-- What the `UPDATE` makes of a row of the table. -/
def CycleReviewRecord.update (record old : CycleReviewRecord) : CycleReviewRecord :=
  if old.featureCycle = record.featureCycle then record.over old else old

@[simp] theorem CycleReviewRecord.featureCycle_update (record old : CycleReviewRecord) :
    (record.update old).featureCycle = old.featureCycle := by
  unfold update
  split
  · rename_i h
    exact h.symm
  · rfl

/-- `CycleReviewRecord { raw_signals_available: 0, ..record }`. -/
def CycleReviewRecord.purged (record : CycleReviewRecord) : CycleReviewRecord :=
  { record with rawSignalsAvailable := 0 }

/-- The review is small enough to be written back. -/
def CycleReviewRecord.Storable (r : CycleReviewRecord) : Prop := r.summaryJson.utf8ByteSize ≤ summaryJsonMaxBytes

instance (r : CycleReviewRecord) : Decidable r.Storable := inferInstanceAs (Decidable (_ ≤ _))

/-! ## The store -/

/-- The tables. -/
structure Store where
  sessions : List SessionRow
  observations : List LogRow
  queryLog : List LogRow
  injectionLog : List LogRow
  reviews : List CycleReviewRecord
  sessions_key : (sessions.map SessionRow.sessionId).Nodup
  reviews_key : (reviews.map CycleReviewRecord.featureCycle).Nodup

namespace Store

variable (s : Store)

/-- `session_id IN (SELECT session_id FROM sessions WHERE p)`. -/
def inSessions (p : SessionRow → Bool) (r : LogRow) : Bool :=
  s.sessions.any fun x => p x && x.sessionId == r.sessionId

/-- The session is attributed to the cycle: `feature_cycle = ?1`. -/
def attributedTo (c : String) (x : SessionRow) : Bool := x.featureCycle == some c

/-- `feature_cycle IS NULL AND status != 0`. -/
def closedUnattributed (x : SessionRow) : Bool := x.featureCycle.isNone && x.status != .active

theorem sessions_key_filter (p : SessionRow → Bool) : ((s.sessions.filter p).map SessionRow.sessionId).Nodup :=
  s.sessions_key.sublist (List.filter_sublist.map _)

/-! ## Reviews -/

/-- `get_cycle_review`. -/
def getCycleReview (c : String) : Option CycleReviewRecord :=
  (s.reviews.find? fun r => r.featureCycle == c).map CycleReviewRecord.coalesced

theorem reviews_key_update (record : CycleReviewRecord) :
    ((s.reviews.map record.update).map CycleReviewRecord.featureCycle).Nodup := by
  have hkey : CycleReviewRecord.featureCycle ∘ record.update = CycleReviewRecord.featureCycle :=
    funext record.featureCycle_update
  rw [List.map_map, hkey]
  exact s.reviews_key

theorem reviews_key_insert {record : CycleReviewRecord}
    (h : (s.reviews.any fun r => r.featureCycle == record.featureCycle) = false) :
    ((s.reviews ++ [record.coalesced]).map CycleReviewRecord.featureCycle).Nodup := by
  rw [List.map_append, List.map_singleton, List.nodup_append]
  refine ⟨s.reviews_key, List.nodup_singleton _, fun c hc c' hc' heq => ?_⟩
  rw [List.mem_singleton] at hc'
  obtain ⟨r, hr, rfl⟩ := List.mem_map.mp hc
  rw [List.any_eq_false] at h
  exact h r hr (beq_iff_eq.mpr (heq.trans hc'))

/-- `store_cycle_review`. -/
def storeCycleReview (record : CycleReviewRecord) : Except InvalidInput Store :=
  if summaryJsonMaxBytes < record.summaryJson.utf8ByteSize then
    .error ⟨"summary_json",
      "summary_json exceeds 4MB ceiling (" ++ toString record.summaryJson.utf8ByteSize ++ " bytes)"⟩
  else if h : (s.reviews.any fun r => r.featureCycle == record.featureCycle) = false then
    .ok { s with
      reviews := s.reviews ++ [record.coalesced]
      reviews_key := s.reviews_key_insert h }
  else
    .ok { s with
      reviews := s.reviews.map record.update
      reviews_key := s.reviews_key_update record }

/-! ## Statements -/

/-- `gc_cycle_activity`: one transaction. -/
def gcCycleActivity (c : String) : Store :=
  { s with
    observations := s.observations.filter fun r => !s.inSessions (attributedTo c) r
    queryLog := s.queryLog.filter fun r => !s.inSessions (attributedTo c) r
    injectionLog := s.injectionLog.filter fun r => !s.inSessions (attributedTo c) r
    sessions := s.sessions.filter fun x => !attributedTo c x
    sessions_key := s.sessions_key_filter _ }

/-- `DELETE FROM observations WHERE session_id NOT IN (SELECT session_id FROM sessions)`. -/
def deleteOrphanObservations : Store :=
  { s with observations := s.observations.filter (s.inSessions fun _ => true) }

/-- `DELETE FROM query_log WHERE session_id NOT IN (SELECT session_id FROM sessions)`. -/
def deleteOrphanQueryLog : Store :=
  { s with queryLog := s.queryLog.filter (s.inSessions fun _ => true) }

/-- `DELETE FROM injection_log` of the sessions that are closed and unattributed. -/
def deleteUnattributedInjectionLog : Store :=
  { s with injectionLog := s.injectionLog.filter fun r => !s.inSessions closedUnattributed r }

/-- `DELETE FROM sessions WHERE feature_cycle IS NULL AND status != 0`. -/
def deleteUnattributedSessions : Store :=
  { s with
    sessions := s.sessions.filter fun x => !closedUnattributed x
    sessions_key := s.sessions_key_filter _ }

end Store

/-- `now.saturating_sub(threshold) as i64`. -/
def boundary (now threshold : UInt64) : Int := (UInt64.ofNat (now.toNat - threshold.toNat)).toInt64.toInt

/-- `TIMED_OUT_THRESHOLD_SECS`. -/
def timedOutThresholdSecs : UInt64 := 86400

/-- `DELETE_THRESHOLD_SECS`. -/
def deleteThresholdSecs : UInt64 := 2592000

namespace Store

variable (s : Store)

/-- Phase 3 of `gc_sessions`: an active session that started before the boundary has timed out. -/
def timeOut (boundary : Int) (x : SessionRow) : SessionRow :=
  if x.status = .active ∧ x.startedAt < boundary then { x with status := .timedOut } else x

theorem sessionId_timeOut (b : Int) (x : SessionRow) : (timeOut b x).sessionId = x.sessionId := by
  unfold timeOut
  split <;> rfl

theorem sessions_key_timeOut (p : SessionRow → Bool) (b : Int) :
    (((s.sessions.filter p).map (timeOut b)).map SessionRow.sessionId).Nodup := by
  have hkey : SessionRow.sessionId ∘ timeOut b = SessionRow.sessionId := funext <| sessionId_timeOut b
  rw [List.map_map, hkey]
  exact s.sessions_key_filter p

/-- `gc_sessions`: one transaction, at the time `now`. -/
def gcSessions (now timedOutThreshold deleteThreshold : UInt64) : Store :=
  let deleteBoundary := boundary now deleteThreshold
  { s with
    injectionLog := s.injectionLog.filter fun r => !s.inSessions (fun x => x.startedAt < deleteBoundary) r
    sessions := (s.sessions.filter fun x => !decide (x.startedAt < deleteBoundary)).map
      (timeOut (boundary now timedOutThreshold))
    sessions_key := s.sessions_key_timeOut _ _ }

end Store

/-! ## Which cycles are purgeable -/

/-- The order that the engine gives to rows equal in what is ordered by, query by query. -/
structure Engine where
  window : Query.Arrangement (String × Int)
  purgeable : Query.Arrangement (String × Int)
  oldestRetained : Query.Arrangement (String × Int)

/-- `computed_at DESC`. -/
def newestFirst (a b : String × Int) : Bool := decide (b.2 ≤ a.2)

/-- `computed_at ASC`. -/
def oldestFirst (a b : String × Int) : Bool := decide (a.2 ≤ b.2)

theorem newestFirst_trans (a b c : String × Int) (hab : newestFirst a b = true) (hbc : newestFirst b c = true) :
    newestFirst a c = true := by
  simp only [newestFirst, decide_eq_true_eq] at *
  omega

theorem newestFirst_total (a b : String × Int) : (newestFirst a b || newestFirst b a) = true := by
  simp only [newestFirst, Bool.or_eq_true, decide_eq_true_eq]
  omega

theorem oldestFirst_trans (a b c : String × Int) (hab : oldestFirst a b = true) (hbc : oldestFirst b c = true) :
    oldestFirst a c = true := newestFirst_trans c b a hbc hab

theorem oldestFirst_total (a b : String × Int) : (oldestFirst a b || oldestFirst b a) = true :=
  newestFirst_total b a

section Purgeable

variable (engine : Engine) (keep : UInt32) (s : Store)

/-- What the reviews are listed by. -/
def Store.keys : List (String × Int) := s.reviews.map CycleReviewRecord.key

/-- The cycles of the window: `ORDER BY computed_at DESC LIMIT ?1`. -/
def window : List String :=
  (Query.limit keep.toNat (Query.orderBy engine.window newestFirst s.keys)).map Prod.fst

/-- The reviewed cycles outside the window, oldest first. -/
def outsideWindow : List String :=
  (Query.orderBy engine.purgeable oldestFirst
    (s.keys.filter fun k => decide (k.1 ∉ window engine keep s))).map Prod.fst

/-- `list_purgeable_cycles`. -/
def listPurgeableCycles (maxPerTick : UInt32) : List String × Option Int :=
  (Query.limit maxPerTick.toNat (outsideWindow engine keep s),
    ((Query.orderBy engine.oldestRetained newestFirst s.keys).drop (keep.toNat - 1)).head?.map Prod.snd)

end Purgeable

/-! ## Passes -/

/-- What reaches the database in one piece. -/
inductive Write where
  | cycleActivity (c : String)
  | cycleReview (record : CycleReviewRecord)
  | orphanObservations
  | orphanQueryLog
  | unattributedInjectionLog
  | unattributedSessions
  | sessions (now timedOutThreshold deleteThreshold : UInt64)

/-- The store after a write. A review that is refused writes nothing. -/
def Write.run : Write → Store → Store
  | .cycleActivity c, s => s.gcCycleActivity c
  | .cycleReview record, s => (s.storeCycleReview record).toOption.getD s
  | .orphanObservations, s => s.deleteOrphanObservations
  | .orphanQueryLog, s => s.deleteOrphanQueryLog
  | .unattributedInjectionLog, s => s.deleteUnattributedInjectionLog
  | .unattributedSessions, s => s.deleteUnattributedSessions
  | .sessions now timedOut delete, s => s.gcSessions now timedOut delete

/-- The store, and the writes so far, each with the store it met. -/
structure Conn where
  store : Store
  log : List (Store × Write)

/-- A store call that writes. -/
def Conn.write (d : Conn) (w : Write) : Conn := ⟨w.run d.store, d.log ++ [(d.store, w)]⟩

/-- A store call that writes, unless it fails. -/
def Conn.attempt (d : Conn) (fails : Bool) (w : Write) : Conn := if fails then d else d.write w

/-- Which store calls of a block fail. -/
structure Faults where
  listPurgeableCycles : Bool := false
  getCycleReview : String → Bool := fun _ => false
  gcCycleActivity : String → Bool := fun _ => false
  storeCycleReview : String → Bool := fun _ => false
  /-- how many statements of `gc_unattributed_activity` are executed -/
  gcUnattributedActivity : Nat := 4

/-- The loop body of the cycle GC block. -/
def pruneCycle (faults : Faults) (d : Conn) (c : String) : Conn :=
  if faults.getCycleReview c then d
  else
    match d.store.getCycleReview c with
    | none => d
    | some record =>
      if faults.gcCycleActivity c then d
      else
        (d.write (.cycleActivity c)).attempt (faults.storeCycleReview c)
          (.cycleReview record.purged)

/-- The statements of `gc_unattributed_activity`. -/
def unattributedWrites : List Write :=
  [.orphanObservations, .orphanQueryLog, .unattributedInjectionLog, .unattributedSessions]

/-- `gc_unattributed_activity`, of which the first `ran` statements are executed. -/
def gcUnattributedActivity (ran : Nat) (d : Conn) : Conn := (unattributedWrites.take ran).foldl Conn.write d

/-- What each statement of `gc_unattributed_activity` keeps, the call keeps. -/
theorem gcUnattributedActivity_induction {P : Conn → Prop}
    (hwrite : ∀ d, P d → ∀ w ∈ unattributedWrites, P (d.write w)) (ran : Nat) {d : Conn} (h : P d) :
    P (gcUnattributedActivity ran d) := by
  unfold gcUnattributedActivity
  have hall : ∀ w ∈ unattributedWrites.take ran, w ∈ unattributedWrites := fun w hw => List.mem_of_mem_take hw
  generalize unattributedWrites.take ran = writes at hall ⊢
  induction writes generalizing d with
  | nil => exact h
  | cons w writes ih =>
    exact ih (hwrite d h w (hall w (List.mem_cons_self))) fun w' hw' => hall w' (List.mem_cons_of_mem _ hw')

/-- The cycle GC block of `run_maintenance`. -/
def gcCycleBlock (engine : Engine) (keep maxPerTick : UInt32) (faults : Faults) (d : Conn) : Conn :=
  if faults.listPurgeableCycles then d
  else
    gcUnattributedActivity faults.gcUnattributedActivity
      ((listPurgeableCycles engine keep d.store maxPerTick).1.foldl (pruneCycle faults) d)

/-! ## What a write deletes -/

/-- The tables of rows that hang on a session. -/
inductive LogTable where
  | observations
  | queryLog
  | injectionLog
  deriving DecidableEq, Repr

/-- The rows of a table. -/
def Store.rows (s : Store) : LogTable → List LogRow
  | .observations => s.observations
  | .queryLog => s.queryLog
  | .injectionLog => s.injectionLog

theorem Store.inSessions_iff {s : Store} {p : SessionRow → Bool} {r : LogRow} :
    s.inSessions p r = true ↔ ∃ x ∈ s.sessions, p x = true ∧ x.sessionId = r.sessionId := by
  simp [inSessions]

theorem Store.attributedTo_iff {c : String} {x : SessionRow} :
    attributedTo c x = true ↔ x.featureCycle = some c := beq_iff_eq

/-- A session is known by its id. -/
theorem Store.session_unique (s : Store) {x y : SessionRow} (hx : x ∈ s.sessions) (hy : y ∈ s.sessions)
    (h : x.sessionId = y.sessionId) : x = y :=
  List.inj_on_of_nodup_map s.sessions_key hx hy h

/-- The rows that a write deletes. -/
def Write.deletesRow (s : Store) (r : LogRow) : Write → LogTable → Bool
  | .cycleActivity c, _ => s.inSessions (Store.attributedTo c) r
  | .orphanObservations, .observations => !s.inSessions (fun _ => true) r
  | .orphanQueryLog, .queryLog => !s.inSessions (fun _ => true) r
  | .unattributedInjectionLog, .injectionLog => s.inSessions Store.closedUnattributed r
  | .sessions now _ delete, .injectionLog => s.inSessions (fun x => x.startedAt < boundary now delete) r
  | _, _ => false

/-- The sessions that a write deletes. -/
def Write.deletesSession (x : SessionRow) : Write → Bool
  | .cycleActivity c => Store.attributedTo c x
  | .unattributedSessions => Store.closedUnattributed x
  | .sessions now _ delete => x.startedAt < boundary now delete
  | _ => false

/-- What a write makes of a session that it does not delete. -/
def Write.mark : Write → SessionRow → SessionRow
  | .sessions now timedOut _ => Store.timeOut (boundary now timedOut)
  | _ => id

theorem Store.rows_storeCycleReview (s : Store) (record : CycleReviewRecord) (t : LogTable) :
    ((s.storeCycleReview record).toOption.getD s).rows t = s.rows t := by
  unfold storeCycleReview
  split_ifs <;> rfl

theorem Store.sessions_storeCycleReview (s : Store) (record : CycleReviewRecord) :
    ((s.storeCycleReview record).toOption.getD s).sessions = s.sessions := by
  unfold storeCycleReview
  split_ifs <;> rfl

theorem Write.rows_run (w : Write) (s : Store) (t : LogTable) :
    (w.run s).rows t = (s.rows t).filter fun r => !w.deletesRow s r t := by
  cases w with
  | cycleActivity c => cases t <;> rfl
  | cycleReview record =>
    rw [run, Store.rows_storeCycleReview]
    simp [deletesRow]
  | _ => cases t <;> simp [run, deletesRow, Store.rows, Store.deleteOrphanObservations, Store.deleteOrphanQueryLog,
      Store.deleteUnattributedInjectionLog, Store.deleteUnattributedSessions, Store.gcSessions]

theorem Write.sessions_run (w : Write) (s : Store) :
    (w.run s).sessions = (s.sessions.filter fun x => !w.deletesSession x).map w.mark := by
  cases w with
  | cycleReview record =>
    rw [run, Store.sessions_storeCycleReview]
    simp [deletesSession, mark]
  | _ => simp [run, deletesSession, mark, Store.gcCycleActivity, Store.deleteOrphanObservations,
      Store.deleteOrphanQueryLog, Store.deleteUnattributedInjectionLog, Store.deleteUnattributedSessions,
      Store.gcSessions]

/-! ## Reviews under the writes of a block -/

section Reviews

variable {s : Store}

theorem find?_update (reviews : List CycleReviewRecord) (record : CycleReviewRecord) (c : String) :
    (reviews.map record.update).find? (fun r => r.featureCycle == c) =
      (reviews.find? fun r => r.featureCycle == c).map record.update := by
  rw [List.find?_map]
  congr 2
  funext r
  rw [Function.comp_apply, CycleReviewRecord.featureCycle_update]

/-- A review that is read is a row, but for its empty counts. -/
theorem Store.getCycleReview_eq_some {c : String} {r : CycleReviewRecord} (h : s.getCycleReview c = some r) :
    ∃ stored ∈ s.reviews, stored.featureCycle = c ∧ (s.reviews.find? fun r => r.featureCycle == c) = some stored ∧
      r = stored.coalesced := by
  unfold getCycleReview at h
  obtain ⟨stored, hstored, rfl⟩ := Option.map_eq_some_iff.mp h
  exact ⟨stored, List.mem_of_find?_eq_some hstored, by simpa using List.find?_some hstored, hstored, rfl⟩

theorem Store.featureCycle_of_getCycleReview {c : String} {r : CycleReviewRecord} (h : s.getCycleReview c = some r) :
    r.featureCycle = c := by
  obtain ⟨stored, -, hcycle, -, rfl⟩ := getCycleReview_eq_some h
  exact hcycle

/-- **What the flag update of a block leaves of the reviews.** -/
theorem Store.reviews_flagged {c : String} {r : CycleReviewRecord} (h : s.getCycleReview c = some r) :
    ((s.storeCycleReview r.purged).toOption.getD s).reviews =
      if r.Storable then s.reviews.map r.purged.update else s.reviews := by
  obtain ⟨stored, hmem, hcycle, -, hr⟩ := getCycleReview_eq_some h
  have hany : (s.reviews.any fun old => old.featureCycle == r.purged.featureCycle) = true :=
    List.any_eq_true.mpr ⟨stored, hmem, by rw [hr]; exact beq_self_eq_true _⟩
  unfold storeCycleReview
  by_cases hsize : r.Storable
  · have hnot : ¬ summaryJsonMaxBytes < r.purged.summaryJson.utf8ByteSize := Nat.not_lt.mpr hsize
    rw [if_pos hsize, if_neg hnot, dif_neg (by simp [hany])]
    rfl
  · have hlt : summaryJsonMaxBytes < r.purged.summaryJson.utf8ByteSize := Nat.lt_of_not_le hsize
    rw [if_neg hsize, if_pos hlt]
    rfl

theorem Store.getCycleReview_flagged {c : String} {r : CycleReviewRecord} (h : s.getCycleReview c = some r)
    (hsize : r.Storable) :
    ((s.storeCycleReview r.purged).toOption.getD s).getCycleReview c = some r.purged := by
  obtain ⟨stored, -, hcycle, hfind, rfl⟩ := getCycleReview_eq_some h
  unfold getCycleReview
  have hself : stored.coalesced.purged.update stored = stored.coalesced.purged.over stored := if_pos rfl
  rw [reviews_flagged h, if_pos hsize, find?_update, hfind, Option.map_some, Option.map_some, hself]
  simp [CycleReviewRecord.over, CycleReviewRecord.purged, CycleReviewRecord.coalesced, coalesceJson_idem]

theorem Store.getCycleReview_flagged_ne {c c' : String} {r : CycleReviewRecord} (h : s.getCycleReview c = some r)
    (hne : c' ≠ c) :
    ((s.storeCycleReview r.purged).toOption.getD s).getCycleReview c' = s.getCycleReview c' := by
  have hcycle := featureCycle_of_getCycleReview h
  unfold getCycleReview
  rw [reviews_flagged h]
  by_cases hsize : r.Storable
  · rw [if_pos hsize, find?_update]
    cases hfind : s.reviews.find? fun r => r.featureCycle == c' with
    | none => rfl
    | some old =>
      have hold : old.featureCycle = c' := by simpa using List.find?_some hfind
      have hother : ¬ old.featureCycle = r.purged.featureCycle := fun heq => hne (hold.symm.trans (heq.trans hcycle))
      rw [Option.map_some, Option.map_some, CycleReviewRecord.update, if_neg hother, Option.map_some]
  · rw [if_neg hsize]

theorem Store.keys_flagged {c : String} {r : CycleReviewRecord} (h : s.getCycleReview c = some r) :
    ((s.storeCycleReview r.purged).toOption.getD s).keys = s.keys := by
  unfold keys
  rw [reviews_flagged h]
  by_cases hsize : r.Storable
  · obtain ⟨stored, hmem, hcycle, -, rfl⟩ := getCycleReview_eq_some h
    rw [if_pos hsize, List.map_map]
    refine List.map_congr_left fun old hold => ?_
    rw [Function.comp_apply, CycleReviewRecord.update]
    split
    · rename_i hkey
      have heq : stored = old := List.inj_on_of_nodup_map s.reviews_key hmem hold hkey.symm
      subst heq
      rfl
    · rfl
  · rw [if_neg hsize]

end Reviews

/-! ## The listing -/

section Listing

variable {engine : Engine} {keep : UInt32} {s s' : Store}

/-- The listing reads the keys of the reviews and nothing else. -/
theorem outsideWindow_congr (h : s'.keys = s.keys) : outsideWindow engine keep s' = outsideWindow engine keep s := by
  unfold outsideWindow window
  rw [h]

theorem mem_outsideWindow {c : String} :
    c ∈ outsideWindow engine keep s ↔ c ∈ s.reviews.map CycleReviewRecord.featureCycle ∧ c ∉ window engine keep s := by
  unfold outsideWindow
  rw [List.mem_map]
  simp only [(Query.orderBy_perm _ _ _).mem_iff, List.mem_filter, decide_eq_true_eq, Store.keys, List.mem_map]
  constructor
  · rintro ⟨_, ⟨⟨r, hr, rfl⟩, hnot⟩, rfl⟩
    exact ⟨⟨r, hr, rfl⟩, hnot⟩
  · rintro ⟨⟨r, hr, rfl⟩, hnot⟩
    exact ⟨r.key, ⟨⟨r, hr, rfl⟩, hnot⟩, rfl⟩

theorem mem_listPurgeableCycles {maxPerTick : UInt32} {c : String}
    (h : c ∈ (listPurgeableCycles engine keep s maxPerTick).1) : c ∈ outsideWindow engine keep s := by
  unfold listPurgeableCycles at h
  dsimp only at h
  exact (Query.limit_prefix _ _).subset h

theorem Store.getCycleReview_isSome {c : String} (h : c ∈ s.reviews.map CycleReviewRecord.featureCycle) :
    ∃ r, s.getCycleReview c = some r := by
  obtain ⟨r, hr, rfl⟩ := List.mem_map.mp h
  unfold getCycleReview
  cases hfind : s.reviews.find? fun old => old.featureCycle == r.featureCycle with
  | none =>
    have hno := List.find?_eq_none.mp hfind r hr
    exact absurd (beq_self_eq_true _) hno
  | some old => exact ⟨_, rfl⟩

end Listing

end Unimatrix.Retention
