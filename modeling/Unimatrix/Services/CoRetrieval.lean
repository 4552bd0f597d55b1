import Mathlib.Data.Nat.Choose.Basic
import Unimatrix.Graph.EdgeWrite

/-!
# Edges from what one search returned

Model of `run_s8_tick` of `graph_enrichment_tick.rs`, which turns the `context_search` rows of `audit_log` into `CoAccess`
edges, a batch a tick.

* `audit_log` is the list of its rows by `event_id`, its primary key, and no row is added. Every SQL call succeeds.
* The watermark is the counter `s8_audit_log_watermark`, 0 where there is none.
* `fromStr` is `serde_json::from_str::<Vec<u64>>`.
* `validate` keeps the interval and the cap positive, and the cap at 10000 or less, so that doubling it does not overflow.
* The ids of a batch are looked up in chunks; a chunk after the other selects the same ids as all at once.

`Passes` is what any ticks do: they pass some of the rows above the watermark, in order, each of them with all its
pairs. A row is passed only if its pairs fit into the cap, and the first row above the watermark is passed if they do.

**`s8_catches_up_iff`**: so the watermark reaches the last row exactly if no row has more pairs than the cap.
`s8_stalls` is a search that returned 33 entries, under the default cap of 500.
-/

namespace Unimatrix

open Rows

/-! ## What the tick reads -/

/-- A row of `audit_log`: the columns that are read. -/
structure AuditRow where
  eventId : Nat
  operation : String
  outcome : Nat
  targetIds : String
  deriving DecidableEq, Repr

/-- The `audit_log` table. -/
structure AuditLog where
  rows : List AuditRow
  ordered : rows.Pairwise fun a b => a.eventId < b.eventId

/-- `InferenceConfig`, as `validate` lets it pass. -/
structure InferenceConfig where
  s8BatchIntervalTicks : Nat
  maxS8PairsPerBatch : Nat
  interval_pos : 1 ≤ s8BatchIntervalTicks
  cap_pos : 1 ≤ maxS8PairsPerBatch

/-- `operation = 'context_search' AND outcome = 0 AND event_id > ?1`. -/
def AuditLog.above (log : AuditLog) (watermark : Nat) : List AuditRow :=
  log.rows.filter fun row =>
    row.operation == "context_search" && row.outcome == 0 && decide (watermark < row.eventId)

/-- What no tick changes. -/
structure CoRetrieval where
  config : InferenceConfig
  log : AuditLog
  store : Store
  fromStr : String → Option (List Nat)

/-- What the ticks change. -/
structure S8State where
  watermark : Nat
  edges : EdgeRows

/-- A call of `run_s8_tick`. -/
structure S8Tick where
  currentTick : Nat
  now : Int

/-- `EDGE_SOURCE_S8`. -/
def edgeSourceS8 : String := "S8"

/-- `row_pairs`. -/
def rowPairs : List Nat → List (Nat × Nat)
  | [] => []
  | a :: rest => (rest.map fun b => (min a b, max a b)) ++ rowPairs rest

/-- `write_graph_edge`, as the tick calls it: whether a row was added, and the rows. -/
def writeCoAccess (t : EdgeRows) (a b : Nat) (now : Int) : Bool × EdgeRows :=
  let key : EdgeKey := ⟨a, b, "CoAccess"⟩
  (decide (key ∉ keys t), insertOrIgnore t key ⟨0x3E800000, now, edgeSourceS8, edgeSourceS8, false⟩)

/-- Phase 5, for one pair: `pairs_written`, and the rows. -/
def writePair (validIds : List Nat) (now : Int) (acc : Nat × EdgeRows) (p : Nat × Nat) : Nat × EdgeRows :=
  if !validIds.contains p.1 || !validIds.contains p.2 then acc
  else
    let there := writeCoAccess acc.2 p.1 p.2 now
    let back := writeCoAccess there.2 p.2 p.1 now
    (acc.1 + there.1.toNat + back.1.toNat, back.2)

namespace CoRetrieval

variable (e : CoRetrieval)

/-- Phase 3: the loop over the rows. -/
def expandRows : List AuditRow → List (Nat × Nat) → Nat → List (Nat × Nat) × Nat
  | [], pairs, newWatermark => (pairs, newWatermark)
  | row :: rows, pairs, newWatermark =>
    match e.fromStr row.targetIds with
    | none => expandRows rows pairs row.eventId
    | some entryIds =>
      if (rowPairs entryIds).isEmpty then expandRows rows pairs row.eventId
      else
        let remaining := e.config.maxS8PairsPerBatch - pairs.length
        if remaining = 0 then (pairs, newWatermark)
        else if (rowPairs entryIds).length ≤ remaining then
          expandRows rows (pairs ++ rowPairs entryIds) row.eventId
        else (pairs ++ (rowPairs entryIds).take remaining, newWatermark)

/-- Phase 4: `valid_ids`. -/
def validIds (pairs : List (Nat × Nat)) : List Nat :=
  (pairs.flatMap fun p => [p.1, p.2]).filter (e.store.hasStatus .active)

/-- `run_s8_tick`: the edges written, and the state. -/
def runS8Tick (st : S8State) (tick : S8Tick) : Nat × S8State :=
  if tick.currentTick % e.config.s8BatchIntervalTicks ≠ 0 then (0, st)
  else
    let auditRows := (e.log.above st.watermark).take (e.config.maxS8PairsPerBatch * 2)
    if auditRows.isEmpty then (0, st)
    else
      let (pairs, newWatermark) := e.expandRows auditRows [] st.watermark
      if pairs.isEmpty then
        (0, if st.watermark < newWatermark then { st with watermark := newWatermark } else st)
      else
        let (written, edges) := pairs.foldl (writePair (e.validIds pairs) tick.now) (0, st.edges)
        (written, ⟨newWatermark, edges⟩)

/-- Some ticks, one after the other. -/
def run (st : S8State) (ticks : List S8Tick) : S8State :=
  ticks.foldl (fun st tick => (e.runS8Tick st tick).2) st

/-- How many of the ticks pass the gate. -/
def gated (ticks : List S8Tick) : Nat :=
  ticks.countP fun tick => tick.currentTick % e.config.s8BatchIntervalTicks == 0

/-- The pairs of a row; none, if it is malformed. -/
def pairsOf (row : AuditRow) : List (Nat × Nat) := (e.fromStr row.targetIds).elim [] rowPairs

/-- The pairs of the row fit into a batch of their own. -/
def Fits (row : AuditRow) : Prop := (e.pairsOf row).length ≤ e.config.maxS8PairsPerBatch

end CoRetrieval

/-! ## Pairs -/

/-- A row of `n` ids has `n` over 2 pairs. -/
theorem length_rowPairs (ids : List Nat) : (rowPairs ids).length = ids.length.choose 2 := by
  induction ids with
  | nil => rfl
  | cons a rest ih =>
    rw [rowPairs, List.length_append, List.length_map, ih, List.length_cons, Nat.choose_succ_succ' _ 1,
      Nat.choose_one_right]

/-- Two different ids of a list are one of its pairs, smaller one first. -/
theorem mem_rowPairs {ids : List Nat} {a b : Nat} (ha : a ∈ ids) (hb : b ∈ ids) (hab : a < b) :
    (a, b) ∈ rowPairs ids := by
  induction ids with
  | nil => cases ha
  | cons c rest ih =>
    rw [rowPairs, List.mem_append]
    rcases List.mem_cons.mp ha with rfl | ha'
    · rcases List.mem_cons.mp hb with rfl | hb'
      · exact absurd hab (Nat.lt_irrefl _)
      · refine .inl (List.mem_map.mpr ⟨b, hb', ?_⟩)
        rw [min_eq_left hab.le, max_eq_right hab.le]
    · rcases List.mem_cons.mp hb with rfl | hb'
      · refine .inl (List.mem_map.mpr ⟨a, ha', ?_⟩)
        rw [min_eq_right hab.le, max_eq_left hab.le]
      · exact .inr (ih ha' hb')

/-- The ends of a pair of distinct ids differ. -/
theorem rowPairs_loopless {ids : List Nat} (h : ids.Nodup) {p : Nat × Nat} (hp : p ∈ rowPairs ids) :
    p.1 ≠ p.2 := by
  induction ids with
  | nil => cases hp
  | cons a rest ih =>
    obtain ⟨ha, hrest⟩ := List.nodup_cons.mp h
    rw [rowPairs, List.mem_append] at hp
    rcases hp with hp | hp
    · obtain ⟨b, hb, rfl⟩ := List.mem_map.mp hp
      have hab : a ≠ b := fun heq => ha (heq ▸ hb)
      dsimp only
      omega
    · exact ih hrest hp

/-! ## Writing the pairs -/

/-- Both directions of a pair. -/
def coAccess (p : Nat × Nat) : List EdgeKey := [⟨p.1, p.2, "CoAccess"⟩, ⟨p.2, p.1, "CoAccess"⟩]

theorem mem_keys_writePair {validIds : List Nat} {now : Int} {acc : Nat × EdgeRows} {p : Nat × Nat}
    {k : EdgeKey} : k ∈ keys (writePair validIds now acc p).2 ↔
      k ∈ keys acc.2 ∨ ((p.1 ∈ validIds ∧ p.2 ∈ validIds) ∧ k ∈ coAccess p) := by
  unfold writePair writeCoAccess coAccess
  by_cases hvalid : p.1 ∈ validIds ∧ p.2 ∈ validIds
  · simp [hvalid, mem_keys_insertOrIgnore, or_assoc]
  · rw [if_pos (by simpa [imp_iff_not_or] using hvalid)]
    exact ⟨.inl, fun h => h.resolve_right fun hk => hvalid hk.1⟩

theorem mem_keys_writePairs {validIds : List Nat} {now : Int} {pairs : List (Nat × Nat)}
    {acc : Nat × EdgeRows} {k : EdgeKey} : k ∈ keys (pairs.foldl (writePair validIds now) acc).2 ↔
      k ∈ keys acc.2 ∨ ∃ p ∈ pairs, (p.1 ∈ validIds ∧ p.2 ∈ validIds) ∧ k ∈ coAccess p := by
  induction pairs generalizing acc with
  | nil => simp
  | cons p pairs ih =>
    rw [List.foldl_cons, ih, mem_keys_writePair, or_assoc]
    simp only [List.mem_cons, exists_eq_or_imp]

/-! ## The rows above the watermark -/

/-- The `event_id` of the last of some rows. -/
def lastId (watermark : Nat) (rows : List AuditRow) : Nat := rows.foldl (fun _ row => row.eventId) watermark

theorem lastId_append (watermark : Nat) (rows rows' : List AuditRow) :
    lastId watermark (rows ++ rows') = lastId (lastId watermark rows) rows' := List.foldl_append

/-- Above the first row above the watermark are the others. -/
theorem AuditLog.above_cons {log : AuditLog} {watermark : Nat} {row : AuditRow} {rows : List AuditRow}
    (h : log.above watermark = row :: rows) : log.above row.eventId = rows := by
  have hrow : watermark < row.eventId := by
    have hmem : row ∈ log.above watermark := h ▸ List.mem_cons_self
    simpa using (Bool.and_eq_true_iff.mp (List.mem_filter.mp hmem).2).2
  have hpairwise : (row :: rows).Pairwise fun a b => a.eventId < b.eventId :=
    h ▸ log.ordered.sublist List.filter_sublist
  have hagain : log.above row.eventId =
      (log.above watermark).filter fun r => decide (row.eventId < r.eventId) := by
    unfold above
    rw [List.filter_filter]
    refine List.filter_congr fun r _ => ?_
    by_cases hlt : row.eventId < r.eventId
    · have hlt' : watermark < r.eventId := hrow.trans hlt
      simp [hlt, hlt']
    · simp [hlt]
  rw [hagain, h, List.filter_cons, if_neg (by simp)]
  exact List.filter_eq_self.mpr fun r hr => decide_eq_true (List.rel_of_pairwise_cons hpairwise hr)

/-- Above the last of the first rows are the others. -/
theorem AuditLog.above_lastId {log : AuditLog} {watermark : Nat} {passed rest : List AuditRow}
    (h : log.above watermark = passed ++ rest) : log.above (lastId watermark passed) = rest := by
  induction passed generalizing watermark with
  | nil => exact h
  | cons row passed ih => exact ih (AuditLog.above_cons h)

theorem AuditLog.lt_of_mem_above {log : AuditLog} {watermark : Nat} {row : AuditRow}
    (h : row ∈ log.above watermark) : watermark < row.eventId := by
  simpa using (Bool.and_eq_true_iff.mp (List.mem_filter.mp h).2).2

theorem le_lastId {log : AuditLog} {watermark : Nat} {passed rest : List AuditRow}
    (h : log.above watermark = passed ++ rest) : watermark ≤ lastId watermark passed := by
  induction passed generalizing watermark with
  | nil => exact Nat.le_refl _
  | cons row passed ih =>
    have hmem : row ∈ log.above watermark := by
      rw [h]
      exact List.mem_cons_self
    exact (AuditLog.lt_of_mem_above hmem).le.trans (ih (AuditLog.above_cons h))

namespace CoRetrieval

variable {e : CoRetrieval}

/-! ## One batch -/

/-- What the loop does with a row: a malformed one and one without pairs are passed alike. -/
theorem expandRows_cons (row : AuditRow) (rows : List AuditRow) (pairs : List (Nat × Nat))
    (newWatermark : Nat) : e.expandRows (row :: rows) pairs newWatermark =
      if (e.pairsOf row).length ≤ e.config.maxS8PairsPerBatch - pairs.length then
        e.expandRows rows (pairs ++ e.pairsOf row) row.eventId
      else (pairs ++ (e.pairsOf row).take (e.config.maxS8PairsPerBatch - pairs.length), newWatermark) := by
  rw [expandRows]
  cases hids : e.fromStr row.targetIds with
  | none =>
    have hpairs : e.pairsOf row = [] := by
      unfold pairsOf
      rw [hids]
      rfl
    rw [hpairs, List.length_nil, if_pos (Nat.zero_le _), List.append_nil]
  | some entryIds =>
    have hpairs : e.pairsOf row = rowPairs entryIds := by
      unfold pairsOf
      rw [hids]
      rfl
    rw [hpairs]
    dsimp only
    by_cases hnil : rowPairs entryIds = []
    · rw [hnil, List.length_nil, if_pos (Nat.zero_le _), List.append_nil]
      rfl
    · rw [if_neg (by simpa using hnil)]
      have hpos := List.length_pos_iff.mpr hnil
      by_cases hfull : e.config.maxS8PairsPerBatch - pairs.length = 0
      · rw [if_pos hfull, hfull, if_neg (Nat.not_le.mpr hpos), List.take_zero, List.append_nil]
      · rw [if_neg hfull]

/-- What the loop makes of some rows: it passes the first of them, with all their pairs. -/
structure Expanded (e : CoRetrieval) (rows : List AuditRow) (pairs : List (Nat × Nat)) (watermark : Nat)
    (r : List (Nat × Nat) × Nat) (passed rest : List AuditRow) : Prop where
  split : rows = passed ++ rest
  newWatermark : r.2 = lastId watermark passed
  kept : ∀ p ∈ pairs, p ∈ r.1
  taken : ∀ row ∈ passed, ∀ p ∈ e.pairsOf row, p ∈ r.1
  nothingElse : ∀ p ∈ r.1, p ∈ pairs ∨ ∃ row ∈ rows, p ∈ e.pairsOf row
  fits : ∀ row ∈ passed, e.Fits row
  /-- A batch passes its first row, if the pairs of that row fit. -/
  advances : ∀ row rows', rows = row :: rows' → pairs = [] → e.Fits row → passed ≠ []

theorem expandRows_expanded (rows : List AuditRow) (pairs : List (Nat × Nat)) (watermark : Nat) :
    ∃ passed rest, e.Expanded rows pairs watermark (e.expandRows rows pairs watermark) passed rest := by
  induction rows generalizing pairs watermark with
  | nil =>
    exact ⟨[], [], rfl, rfl, fun _ hp => hp, fun _ h => absurd h List.not_mem_nil, fun _ hp => .inl hp,
      fun _ h => absurd h List.not_mem_nil, fun _ _ h => (by cases h)⟩
  | cons row rows ih =>
    rw [expandRows_cons]
    by_cases hroom : (e.pairsOf row).length ≤ e.config.maxS8PairsPerBatch - pairs.length
    · rw [if_pos hroom]
      obtain ⟨passed, rest, h⟩ := ih (pairs ++ e.pairsOf row) row.eventId
      refine ⟨row :: passed, rest, congrArg (row :: ·) h.split, h.newWatermark,
        fun p hp => h.kept p (List.mem_append_left _ hp), fun r hr p hp => ?_, fun p hp => ?_,
        fun r hr => ?_, fun _ _ _ _ _ => List.cons_ne_nil _ _⟩
      · rcases List.mem_cons.mp hr with rfl | hr
        · exact h.kept p (List.mem_append_right _ hp)
        · exact h.taken r hr p hp
      · rcases h.nothingElse p hp with hp | ⟨r, hr, hp⟩
        · exact (List.mem_append.mp hp).imp_right fun hp => ⟨row, List.mem_cons_self, hp⟩
        · exact .inr ⟨r, List.mem_cons_of_mem _ hr, hp⟩
      · rcases List.mem_cons.mp hr with rfl | hr
        · exact hroom.trans (Nat.sub_le _ _)
        · exact h.fits r hr
    · rw [if_neg hroom]
      refine ⟨[], row :: rows, rfl, rfl, fun p hp => List.mem_append_left _ hp,
        fun _ h => absurd h List.not_mem_nil, fun p hp => ?_, fun _ h => absurd h List.not_mem_nil,
        fun r rows' hrows hpairs hfits => ?_⟩
      · exact (List.mem_append.mp hp).imp_right fun hp =>
          ⟨row, List.mem_cons_self, List.mem_of_mem_take hp⟩
      · obtain ⟨rfl, -⟩ := List.cons.inj hrows
        refine absurd ?_ hroom
        rw [hpairs]
        exact hfits

/-- Of the rows above the watermark, those passed come first. -/
theorem Expanded.split_above {n watermark : Nat} {r : List (Nat × Nat) × Nat} {passed rest : List AuditRow}
    (h : e.Expanded ((e.log.above watermark).take n) [] watermark r passed rest) :
    e.log.above watermark = passed ++ (rest ++ (e.log.above watermark).drop n) := by
  rw [← List.append_assoc, ← h.split, List.take_append_drop]

/-! ## Ticks -/

/-- From one state to a later one, some rows were passed. -/
structure Passes (e : CoRetrieval) (st st' : S8State) (passed : List AuditRow) : Prop where
  above : e.log.above st.watermark = passed ++ e.log.above st'.watermark
  watermark : st'.watermark = lastId st.watermark passed
  fits : ∀ row ∈ passed, e.Fits row
  connected : ∀ row ∈ passed, ∀ p ∈ e.pairsOf row, e.store.hasStatus .active p.1 = true →
    e.store.hasStatus .active p.2 = true → ∀ k ∈ coAccess p, k ∈ keys st'.edges
  kept : ∀ k ∈ keys st.edges, k ∈ keys st'.edges
  nothingElse : ∀ k ∈ keys st'.edges, k ∈ keys st.edges ∨
    ∃ row ∈ e.log.above st.watermark, ∃ p ∈ e.pairsOf row, k ∈ coAccess p

theorem Passes.refl (e : CoRetrieval) (st : S8State) : e.Passes st st [] where
  above := rfl
  watermark := rfl
  fits := fun _ h => absurd h List.not_mem_nil
  connected := fun _ h => absurd h List.not_mem_nil
  kept := fun _ h => h
  nothingElse := fun _ h => .inl h

theorem Passes.trans {st st' st'' : S8State} {passed passed' : List AuditRow}
    (h : e.Passes st st' passed) (h' : e.Passes st' st'' passed') :
    e.Passes st st'' (passed ++ passed') where
  above := by rw [h.above, h'.above, List.append_assoc]
  watermark := by rw [h'.watermark, h.watermark, lastId_append]
  fits := fun row hr => (List.mem_append.mp hr).elim (h.fits row) (h'.fits row)
  connected := fun row hr p hp ha hb k hk => by
    rcases List.mem_append.mp hr with hr | hr
    · exact h'.kept k (h.connected row hr p hp ha hb k hk)
    · exact h'.connected row hr p hp ha hb k hk
  kept := fun k hk => h'.kept k (h.kept k hk)
  nothingElse := fun k hk => by
    rcases h'.nothingElse k hk with hk | ⟨row, hr, hkey⟩
    · exact h.nothingElse k hk
    · refine .inr ⟨row, ?_, hkey⟩
      rw [h.above]
      exact List.mem_append_right _ hr

/-- The state after a tick that passes the gate, whether there was something to write or not. -/
theorem runS8Tick_gated (st : S8State) {tick : S8Tick}
    (hgate : tick.currentTick % e.config.s8BatchIntervalTicks = 0) :
    let r := e.expandRows ((e.log.above st.watermark).take (e.config.maxS8PairsPerBatch * 2)) []
      st.watermark
    (e.runS8Tick st tick).2 = ⟨r.2, (r.1.foldl (writePair (e.validIds r.1) tick.now) (0, st.edges)).2⟩ := by
  intro r
  obtain ⟨passed, rest, h⟩ := e.expandRows_expanded
    ((e.log.above st.watermark).take (e.config.maxS8PairsPerBatch * 2)) [] st.watermark
  have hle : st.watermark ≤ r.2 := by
    rw [show r.2 = lastId st.watermark passed from h.newWatermark]
    exact le_lastId h.split_above
  unfold runS8Tick
  rw [if_neg (not_not.mpr hgate)]
  dsimp only
  by_cases hrows : (e.log.above st.watermark).take (e.config.maxS8PairsPerBatch * 2) = []
  · have hr : r = ([], st.watermark) := by
      show e.expandRows _ [] st.watermark = _
      rw [hrows]
      rfl
    rw [hrows, hr]
    rfl
  · rw [if_neg (by simpa using hrows)]
    change (if r.1.isEmpty then _ else _ : Nat × S8State).2 = _
    by_cases hpairs : r.1 = []
    · rw [hpairs, if_pos List.isEmpty_nil]
      dsimp only [List.foldl_nil]
      split
      · rfl
      · rename_i hstay
        rw [Nat.le_antisymm (Nat.not_lt.mp hstay) hle]
    · rw [if_neg (by simpa using hpairs)]

/-- **One tick** passes some rows; the first of them, if it is gated and that row fits. -/
theorem runS8Tick_passes (e : CoRetrieval) (st : S8State) (tick : S8Tick) :
    ∃ passed, e.Passes st (e.runS8Tick st tick).2 passed ∧
      (tick.currentTick % e.config.s8BatchIntervalTicks = 0 → ∀ row rows,
        e.log.above st.watermark = row :: rows → e.Fits row → passed ≠ []) := by
  by_cases hgate : tick.currentTick % e.config.s8BatchIntervalTicks = 0
  · obtain ⟨passed, rest, h⟩ := e.expandRows_expanded
      ((e.log.above st.watermark).take (e.config.maxS8PairsPerBatch * 2)) [] st.watermark
    rw [runS8Tick_gated st hgate]
    refine ⟨passed, ⟨?_, h.newWatermark, h.fits, fun row hr p hp ha hb k hk => ?_, fun k hk => ?_,
      fun k hk => ?_⟩, fun _ row rows hrows hfits => ?_⟩
    · dsimp only
      rw [h.newWatermark, AuditLog.above_lastId h.split_above, ← h.split_above]
    · have hmem := h.taken row hr p hp
      have hvalid : ∀ id ∈ [p.1, p.2], e.store.hasStatus .active id = true → id ∈ e.validIds _ :=
        fun id hid hactive => List.mem_filter.mpr ⟨List.mem_flatMap.mpr ⟨p, hmem, hid⟩, hactive⟩
      exact mem_keys_writePairs.mpr (.inr ⟨p, hmem,
        ⟨hvalid p.1 (by simp) ha, hvalid p.2 (by simp) hb⟩, hk⟩)
    · exact mem_keys_writePairs.mpr (.inl hk)
    · refine (mem_keys_writePairs.mp hk).imp_right ?_
      rintro ⟨p, hp, -, hkey⟩
      rcases h.nothingElse p hp with hnil | ⟨row, hr, hpr⟩
      · exact absurd hnil List.not_mem_nil
      · exact ⟨row, List.mem_of_mem_take hr, p, hpr, hkey⟩
    · obtain ⟨n, hn⟩ := Nat.exists_eq_add_of_le' e.config.cap_pos
      refine h.advances row (rows.take (2 * n + 1)) ?_ rfl hfits
      rw [hrows, hn, show (n + 1) * 2 = 2 * n + 1 + 1 by omega, List.take_succ_cons]
  · refine ⟨[], ?_, fun h => absurd h hgate⟩
    unfold runS8Tick
    rw [if_pos hgate]
    exact Passes.refl e st

/-- **Any ticks** pass some rows. -/
theorem run_passes (e : CoRetrieval) (st : S8State) (ticks : List S8Tick) :
    ∃ passed, e.Passes st (e.run st ticks) passed := by
  induction ticks generalizing st with
  | nil => exact ⟨[], Passes.refl e st⟩
  | cons tick ticks ih =>
    obtain ⟨first, hfirst, -⟩ := runS8Tick_passes e st tick
    obtain ⟨rest, hrest⟩ := ih (e.runS8Tick st tick).2
    exact ⟨first ++ rest, hfirst.trans hrest⟩

/-! ## Reaching the last row -/

/-- The watermark at the last row: where it has to get. -/
def lastRow (e : CoRetrieval) (st : S8State) : Nat := lastId st.watermark (e.log.above st.watermark)

theorem Passes.at_last_iff {st st' : S8State} {passed : List AuditRow} (h : e.Passes st st' passed) :
    st'.watermark = e.lastRow st ↔ e.log.above st'.watermark = [] := by
  constructor
  · intro hlast
    rw [hlast]
    exact AuditLog.above_lastId (List.append_nil _).symm
  · intro hnone
    rw [h.watermark, lastRow, h.above, hnone, List.append_nil]

/-- While every row fits, each gated tick leaves one row less. -/
theorem length_above_run (ticks : List S8Tick) (st : S8State)
    (hfits : ∀ row ∈ e.log.above st.watermark, e.Fits row) :
    (e.log.above (e.run st ticks).watermark).length ≤
      (e.log.above st.watermark).length - e.gated ticks := by
  induction ticks generalizing st with
  | nil => exact Nat.le_refl _
  | cons tick ticks ih =>
    obtain ⟨passed, hpasses, hadvances⟩ := runS8Tick_passes e st tick
    have hrest := ih (e.runS8Tick st tick).2 fun row hr =>
      hfits row (hpasses.above ▸ List.mem_append_right _ hr)
    have hlength := congrArg List.length hpasses.above
    rw [List.length_append] at hlength
    have hgated : e.gated (tick :: ticks) =
        e.gated ticks + if tick.currentTick % e.config.s8BatchIntervalTicks = 0 then 1 else 0 := by
      unfold gated
      rw [List.countP_cons]
      simp only [beq_iff_eq]
    have hone : tick.currentTick % e.config.s8BatchIntervalTicks = 0 →
        e.log.above st.watermark ≠ [] → 1 ≤ passed.length := by
      intro hgate hne
      obtain ⟨row, rows, hrows⟩ := List.exists_cons_of_ne_nil hne
      exact List.length_pos_iff.mpr
        (hadvances hgate row rows hrows (hfits row (hrows ▸ List.mem_cons_self)))
    refine hrest.trans ?_
    rw [hgated]
    by_cases hgate : tick.currentTick % e.config.s8BatchIntervalTicks = 0
    · rw [if_pos hgate]
      by_cases hne : e.log.above st.watermark = []
      · rw [hne, List.length_nil] at hlength ⊢
        omega
      · have := hone hgate hne
        omega
    · rw [if_neg hgate]
      omega

/-- A row that does not fit is never passed. -/
theorem not_at_last (st : S8State) {row : AuditRow} (hrow : row ∈ e.log.above st.watermark)
    (hbig : ¬ e.Fits row) (ticks : List S8Tick) : (e.run st ticks).watermark ≠ e.lastRow st := by
  obtain ⟨passed, h⟩ := run_passes e st ticks
  intro hlast
  have hall := h.above
  rw [h.at_last_iff.mp hlast, List.append_nil] at hall
  exact hbig (h.fits row (hall ▸ hrow))

/-- The tick gets to the last row: after enough gated ticks the watermark is there. -/
def CatchesUp (e : CoRetrieval) (st : S8State) : Prop :=
  ∃ n, ∀ ticks, n ≤ e.gated ticks → (e.run st ticks).watermark = e.lastRow st

/-- Every two Active ids of the row are connected both ways. -/
def Connected (e : CoRetrieval) (row : AuditRow) (t : EdgeRows) : Prop :=
  ∀ ids, e.fromStr row.targetIds = some ids → ∀ a ∈ ids, ∀ b ∈ ids, a ≠ b →
    e.store.hasStatus .active a = true → e.store.hasStatus .active b = true →
    (⟨a, b, "CoAccess"⟩ : EdgeKey) ∈ keys t

theorem Passes.connected_row {st st' : S8State} {passed : List AuditRow} (h : e.Passes st st' passed)
    {row : AuditRow} (hrow : row ∈ passed) : e.Connected row st'.edges := by
  intro ids hids a ha b hb hab hactive hactive'
  have hpairs : e.pairsOf row = rowPairs ids := by
    unfold pairsOf
    rw [hids]
    rfl
  rcases Nat.lt_or_gt_of_ne hab with hlt | hlt
  · refine h.connected row hrow (a, b) ?_ hactive hactive' _ List.mem_cons_self
    rw [hpairs]
    exact mem_rowPairs ha hb hlt
  · refine h.connected row hrow (b, a) ?_ hactive' hactive _ (List.mem_cons_of_mem _ List.mem_cons_self)
    rw [hpairs]
    exact mem_rowPairs hb ha hlt

/-- The ids of each row are distinct. -/
def DistinctIds (e : CoRetrieval) (st : S8State) : Prop :=
  ∀ row ∈ e.log.above st.watermark, ∀ ids, e.fromStr row.targetIds = some ids → ids.Nodup

/-- The pairs of a row with distinct ids are no loops, and nothing else is written. -/
theorem Passes.loopless {st st' : S8State} {passed : List AuditRow} (h : e.Passes st st' passed)
    (hdistinct : e.DistinctIds st) {k : EdgeKey} (hk : k ∈ keys st'.edges) :
    k ∈ keys st.edges ∨ k.sourceId ≠ k.targetId := by
  refine (h.nothingElse k hk).imp_right ?_
  rintro ⟨row, hrow, p, hp, hkey⟩
  have hloopless : p.1 ≠ p.2 := by
    unfold pairsOf at hp
    cases hids : e.fromStr row.targetIds with
    | none =>
      rw [hids] at hp
      cases hp
    | some ids =>
      rw [hids] at hp
      exact rowPairs_loopless (hdistinct row hrow ids hids) hp
  rcases List.mem_pair.mp hkey with rfl | rfl
  · exact hloopless
  · exact hloopless.symm

theorem fits_iff (e : CoRetrieval) (row : AuditRow) :
    e.Fits row ↔ ∀ ids, e.fromStr row.targetIds = some ids → ids.length.choose 2 ≤ e.config.maxS8PairsPerBatch := by
  unfold Fits pairsOf
  cases e.fromStr row.targetIds with
  | none => simp
  | some ids => simp [length_rowPairs]

/-- The last row is reached exactly if every row above the watermark fits. -/
theorem catchesUp_iff (e : CoRetrieval) (st : S8State) :
    e.CatchesUp st ↔ ∀ row ∈ e.log.above st.watermark, e.Fits row := by
  constructor
  · rintro ⟨n, hn⟩ row hrow
    by_contra hbig
    refine not_at_last st hrow hbig (List.replicate n ⟨0, 0⟩) (hn _ ?_)
    unfold gated
    rw [List.countP_replicate, if_pos (by simp)]
  · intro hall
    refine ⟨(e.log.above st.watermark).length, fun ticks hticks => ?_⟩
    obtain ⟨passed, h⟩ := run_passes e st ticks
    have hlength := length_above_run ticks st hall
    exact h.at_last_iff.mpr (List.eq_nil_of_length_eq_zero (by omega))

/-- **The tick catches up exactly if no row above the watermark has more pairs than the cap.** Whether it does or not, the
watermark never decreases, the rows it has passed are connected, and no loop is written. -/
theorem s8_catches_up_iff (e : CoRetrieval) (st : S8State) (hdistinct : e.DistinctIds st) :
    (∀ ticks, let st' := e.run st ticks
      (∀ tick, st'.watermark ≤ (e.runS8Tick st' tick).2.watermark) ∧
        (∀ row ∈ e.log.above st.watermark, row.eventId ≤ st'.watermark → e.Connected row st'.edges) ∧
        (st'.watermark = e.lastRow st → ∀ row ∈ e.log.above st.watermark, e.Connected row st'.edges) ∧
        ∀ k ∈ keys st'.edges, k ∈ keys st.edges ∨ k.sourceId ≠ k.targetId) ∧
      (e.CatchesUp st ↔ ∀ row ∈ e.log.above st.watermark, ∀ ids, e.fromStr row.targetIds = some ids →
        ids.length.choose 2 ≤ e.config.maxS8PairsPerBatch) := by
  constructor
  · intro ticks st'
    obtain ⟨passed, h⟩ := run_passes e st ticks
    have hpassed : ∀ row ∈ e.log.above st.watermark, row.eventId ≤ st'.watermark →
        e.Connected row st'.edges := by
      intro row hrow hle
      rw [h.above] at hrow
      rcases List.mem_append.mp hrow with hrow | hrow
      · exact h.connected_row hrow
      · exact absurd (AuditLog.lt_of_mem_above hrow) (Nat.not_lt.mpr hle)
    refine ⟨fun tick => ?_, hpassed, fun hlast row hrow => ?_, fun k hk => h.loopless hdistinct hk⟩
    · obtain ⟨next, hnext, -⟩ := runS8Tick_passes e st' tick
      rw [hnext.watermark]
      exact le_lastId hnext.above
    · have hall := h.above
      rw [h.at_last_iff.mp hlast, List.append_nil] at hall
      exact h.connected_row (hall ▸ hrow)
  · simp only [catchesUp_iff, fits_iff]

/-! ## A search that returned 33 entries -/

/-- The log has one search, whose ids are read as `ids`. -/
def oneSearch (ids : List Nat) : CoRetrieval where
  config := ⟨10, 500, by decide, by decide⟩
  log := ⟨[⟨1, "context_search", 0, "ids"⟩], List.pairwise_singleton _ _⟩
  store := .empty
  fromStr := fun _ => some ids

theorem oneSearch_distinct {ids : List Nat} (h : ids.Nodup) : (oneSearch ids).DistinctIds ⟨0, []⟩ :=
  fun _ _ _ hids => Option.some.inj hids ▸ h

theorem s8_catches_up_iff_two :
    let e := oneSearch [1, 2]
    (∀ ticks, let st' := e.run ⟨0, []⟩ ticks
      (∀ tick, st'.watermark ≤ (e.runS8Tick st' tick).2.watermark) ∧
        (∀ row ∈ e.log.above 0, row.eventId ≤ st'.watermark → e.Connected row st'.edges) ∧
        (st'.watermark = e.lastRow ⟨0, []⟩ → ∀ row ∈ e.log.above 0, e.Connected row st'.edges) ∧
        ∀ k ∈ keys st'.edges, k ∈ keys ([] : EdgeRows) ∨ k.sourceId ≠ k.targetId) ∧
      (e.CatchesUp ⟨0, []⟩ ↔ ∀ row ∈ e.log.above 0, ∀ ids, e.fromStr row.targetIds = some ids →
        ids.length.choose 2 ≤ e.config.maxS8PairsPerBatch) :=
  s8_catches_up_iff (oneSearch [1, 2]) ⟨0, []⟩ (oneSearch_distinct (by decide))

/-- 33 ids have 528 pairs: under the default cap the row is never passed. -/
theorem s8_stalls : ¬ ∀ (e : CoRetrieval) (st : S8State), e.DistinctIds st → e.CatchesUp st := by
  intro hclaim
  obtain ⟨n, hn⟩ := hclaim (oneSearch (List.range 33)) ⟨0, []⟩ (oneSearch_distinct List.nodup_range)
  have hrow : (⟨1, "context_search", 0, "ids"⟩ : AuditRow) ∈
      (oneSearch (List.range 33)).log.above (⟨0, []⟩ : S8State).watermark := List.mem_singleton_self _
  refine not_at_last ⟨0, []⟩ hrow ?_ (List.replicate n ⟨0, 0⟩) (hn _ ?_)
  · change ¬ (rowPairs (List.range 33)).length ≤ 500
    rw [length_rowPairs, List.length_range]
    decide
  · unfold gated
    rw [List.countP_replicate, if_pos (by decide)]

end CoRetrieval
end Unimatrix
