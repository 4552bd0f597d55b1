import Unimatrix.Retention.Passes
import Mathlib.Logic.Function.Iterate

/-!
# What the cycle GC block gets done

The block is executed again and again on a store that nothing else writes to, and no store call fails.
`Drained s s' c` says that nothing of the cycle `c` of `s` is left in `s'` and that its review is flagged.

* `Swept`: what the block has done to each cycle so far. A cycle that was listed is drained, any other is
  `Untouched`.
* `swept_executions`: every execution lists the cycles of the first one, since a purged cycle keeps its review and
  the time of it.
* **`retention_progress`**: all cycles outside the window are drained in time iff those that the first listing
  leaves out are drained to begin with. `retention_progress_stalls`: three reviews, one kept, one a tick.
-/

namespace Unimatrix.Retention

/-- Nothing of the cycle is left, and its review says so and is as it was in everything else. -/
structure Drained (s s' : Store) (c : String) : Prop where
  sessions : ∀ x ∈ s'.sessions, x.featureCycle ≠ some c
  rows : ∀ t, ∀ r ∈ s'.rows t, s.inSessions (Store.attributedTo c) r = false
  review : ∃ r, s.getCycleReview c = some r ∧ s'.getCycleReview c = some r.purged

/-- Everything of the cycle is as it was. -/
structure Untouched (s s' : Store) (c : String) : Prop where
  sessions : ∀ x, x.featureCycle = some c → (x ∈ s'.sessions ↔ x ∈ s.sessions)
  rows : ∀ t r, s.inSessions (Store.attributedTo c) r = true → (r ∈ s'.rows t ↔ r ∈ s.rows t)
  review : s'.getCycleReview c = s.getCycleReview c

theorem Untouched.refl (s : Store) (c : String) : Untouched s s c :=
  ⟨fun _ _ => Iff.rfl, fun _ _ _ => Iff.rfl, rfl⟩

section Cycle

variable {s s' : Store} {c : String}

/-- A cycle that nothing was done to is drained if it was. -/
theorem Untouched.drained_iff (h : Untouched s s' c) : Drained s s' c ↔ Drained s s c := by
  constructor
  · intro hd
    refine ⟨fun x hx hcycle => ?_, fun t r hr => ?_, ?_⟩
    · exact hd.sessions x ((h.sessions x hcycle).mpr hx) hcycle
    · by_contra hof
      rw [Bool.not_eq_false] at hof
      have hgone := hd.rows t r ((h.rows t r hof).mpr hr)
      rw [hof] at hgone
      cases hgone
    · obtain ⟨r, hr, hr'⟩ := hd.review
      exact ⟨r, hr, h.review ▸ hr'⟩
  · intro hd
    refine ⟨fun x hx hcycle => ?_, fun t r hr => ?_, ?_⟩
    · exact hd.sessions x ((h.sessions x hcycle).mp hx) hcycle
    · by_contra hof
      rw [Bool.not_eq_false] at hof
      have hgone := hd.rows t r ((h.rows t r hof).mp hr)
      rw [hof] at hgone
      cases hgone
    · obtain ⟨r, hr, hr'⟩ := hd.review
      exact ⟨r, hr, h.review ▸ hr'⟩

/-- The session that a row of an untouched cycle hangs on is still there. -/
theorem Untouched.session (h : Untouched s s' c) {r : LogRow}
    (hr : s.inSessions (Store.attributedTo c) r = true) :
    ∃ x ∈ s'.sessions, x.featureCycle = some c ∧ x.sessionId = r.sessionId := by
  obtain ⟨x, hx, hof, hid⟩ := Store.inSessions_iff.mp hr
  rw [Store.attributedTo_iff] at hof
  exact ⟨x, (h.sessions x hof).mpr hx, hof, hid⟩

/-! ## One write -/

/-- A write that only deletes keeps what is drained, if it leaves the review. -/
theorem Drained.write (h : Drained s s' c) {w : Write} (hmark : w.mark = id)
    (hreview : (w.run s').getCycleReview c = s'.getCycleReview c) : Drained s (w.run s') c := by
  refine ⟨fun x hx => ?_, fun t r hr => ?_, ?_⟩
  · rw [w.sessions_run, hmark, List.map_id] at hx
    exact h.sessions x (List.mem_of_mem_filter hx)
  · rw [w.rows_run] at hr
    exact h.rows t r (List.mem_of_mem_filter hr)
  · obtain ⟨r, hr, hr'⟩ := h.review
    exact ⟨r, hr, hreview.trans hr'⟩

/-- A write leaves a cycle untouched of which it deletes nothing. -/
theorem Untouched.write (h : Untouched s s' c) {w : Write} (hmark : w.mark = id)
    (hreview : (w.run s').getCycleReview c = s'.getCycleReview c)
    (hsessions : ∀ x ∈ s'.sessions, x.featureCycle = some c → w.deletesSession x = false)
    (hrows : ∀ t r, (∃ x ∈ s'.sessions, x.featureCycle = some c ∧ x.sessionId = r.sessionId) →
      w.deletesRow s' r t = false) :
    Untouched s (w.run s') c := by
  refine ⟨fun x hcycle => ?_, fun t r hr => ?_, hreview.trans h.review⟩
  · rw [w.sessions_run, hmark, List.map_id, List.mem_filter, ← h.sessions x hcycle, and_iff_left_iff_imp]
    intro hx
    rw [hsessions x hx hcycle]
    rfl
  · rw [w.rows_run, List.mem_filter, hrows t r (h.session hr), h.rows t r hr]
    simp

end Cycle

/-! ## What the block has done so far -/

/-- The cycles of `pruned` are drained, the others untouched, and the reviews are listed as before. -/
structure Swept (s s' : Store) (pruned : List String) : Prop where
  keys : s'.keys = s.keys
  drained : ∀ c ∈ pruned, Drained s s' c
  untouched : ∀ c, c ∉ pruned → Untouched s s' c

theorem Swept.refl (s : Store) : Swept s s [] :=
  ⟨rfl, fun _ h => absurd h (List.not_mem_nil), fun c _ => Untouched.refl s c⟩

section Steps

variable {s s' : Store} {pruned : List String}

theorem Swept.congr (h : Swept s s' pruned) {pruned' : List String} (hmem : ∀ c, c ∈ pruned' ↔ c ∈ pruned) :
    Swept s s' pruned' :=
  ⟨h.keys, fun c hc => h.drained c ((hmem c).mp hc), fun c hc => h.untouched c fun hin => hc ((hmem c).mpr hin)⟩

/-- The review of a cycle is the one it had, but for the flag. -/
theorem Swept.review (h : Swept s s' pruned) {c : String} {r' : CycleReviewRecord}
    (hr' : s'.getCycleReview c = some r') : ∃ r, s.getCycleReview c = some r ∧ (r' = r ∨ r' = r.purged) := by
  by_cases hc : c ∈ pruned
  · obtain ⟨r, hr, hflag⟩ := (h.drained c hc).review
    exact ⟨r, hr, .inr (Option.some.inj (hr'.symm.trans hflag))⟩
  · exact ⟨r', (h.untouched c hc).review ▸ hr', .inl rfl⟩

theorem Swept.storable (h : Swept s s' pruned) {c : String} (hs : ∀ r, s.getCycleReview c = some r → r.Storable)
    {r' : CycleReviewRecord} (hr' : s'.getCycleReview c = some r') : r'.Storable := by
  obtain ⟨r, hr, rfl | rfl⟩ := h.review hr'
  · exact hs r' hr
  · exact hs r hr

/-- The statements of `gc_unattributed_activity` delete nothing that belongs to a cycle. -/
theorem Swept.unattributed (h : Swept s s' pruned) {w : Write}
    (hw : w ∈ unattributedWrites) : Swept s (w.run s') pruned := by
  simp only [unattributedWrites, List.mem_cons, List.not_mem_nil, or_false] at hw
  have hreviews : (w.run s').reviews = s'.reviews ∧ w.mark = id := by
    rcases hw with rfl | rfl | rfl | rfl <;> exact ⟨rfl, rfl⟩
  have hreview : ∀ c, (w.run s').getCycleReview c = s'.getCycleReview c := fun c => by
    unfold Store.getCycleReview
    rw [hreviews.1]
  refine ⟨?_, fun c hc => (h.drained c hc).write hreviews.2 (hreview c), fun c hc => ?_⟩
  · rw [← h.keys, Store.keys, hreviews.1, Store.keys]
  · refine (h.untouched c hc).write hreviews.2 (hreview c) (fun x _ hcycle => ?_) fun t r hr => ?_
    · have hopen : Store.closedUnattributed x = false := by simp [Store.closedUnattributed, hcycle]
      rcases hw with rfl | rfl | rfl | rfl
      · rfl
      · rfl
      · rfl
      · exact hopen
    · obtain ⟨x, hx, hcycle, hid⟩ := hr
      have hthere : s'.inSessions (fun _ => true) r = true := Store.inSessions_iff.mpr ⟨x, hx, rfl, hid⟩
      have hopen : s'.inSessions Store.closedUnattributed r = false := by
        rw [← Bool.not_eq_true, Store.inSessions_iff]
        rintro ⟨y, hy, hclosed, hid'⟩
        have hxy := s'.session_unique hx hy (hid.trans hid'.symm)
        rw [← hxy, Store.closedUnattributed, hcycle] at hclosed
        cases hclosed
      rcases hw with rfl | rfl | rfl | rfl <;> cases t <;> simp [Write.deletesRow, hthere, hopen]

/-- A cycle after its activity is deleted. -/
theorem Swept.cycleActivity (h : Swept s s' pruned) (c : String) :
    (∀ x ∈ (s'.gcCycleActivity c).sessions, x.featureCycle ≠ some c) ∧
      ∀ t, ∀ r ∈ (s'.gcCycleActivity c).rows t, s.inSessions (Store.attributedTo c) r = false := by
  constructor
  · intro x hx hcycle
    have hkept := (List.mem_filter.mp hx).2
    rw [Store.attributedTo_iff.mpr hcycle] at hkept
    cases hkept
  · intro t r hr
    have hrows := (Write.cycleActivity c).rows_run s' t
    rw [Write.run] at hrows
    rw [hrows, List.mem_filter, Write.deletesRow] at hr
    by_cases hc : c ∈ pruned
    · exact (h.drained c hc).rows t r hr.1
    · by_contra hof
      rw [Bool.not_eq_false] at hof
      obtain ⟨x, hx, hcycle, hid⟩ := (h.untouched c hc).session hof
      have hin : s'.inSessions (Store.attributedTo c) r = true :=
        Store.inSessions_iff.mpr ⟨x, hx, Store.attributedTo_iff.mpr hcycle, hid⟩
      rw [hin] at hr
      cases hr.2

/-- Another cycle while the activity of one is deleted. -/
theorem Untouched.cycleActivity {c c' : String} (h : Untouched s s' c') (hne : c' ≠ c) :
    Untouched s (s'.gcCycleActivity c) c' := by
  have hother : ∀ x : SessionRow, x.featureCycle = some c' → Store.attributedTo c x = false := by
    intro x hcycle
    rw [← Bool.not_eq_true, Store.attributedTo_iff, hcycle]
    exact fun heq => hne (Option.some.inj heq)
  refine Untouched.write (w := .cycleActivity c) h rfl rfl (fun x _ hcycle => hother x hcycle) fun t r hr => ?_
  obtain ⟨x, hx, hcycle, hid⟩ := hr
  rw [Write.deletesRow, ← Bool.not_eq_true, Store.inSessions_iff]
  rintro ⟨y, hy, hof, hid'⟩
  have hxy := s'.session_unique hx hy (hid.trans hid'.symm)
  rw [← hxy, hother x hcycle] at hof
  cases hof

/-- **The loop body drains its cycle and leaves the others.** -/
theorem Swept.prune {d : Conn} (h : Swept s d.store pruned) {c : String}
    (hc : c ∈ d.store.reviews.map CycleReviewRecord.featureCycle)
    (hs : ∀ r, s.getCycleReview c = some r → r.Storable) :
    Swept s (pruneCycle {} d c).store (pruned ++ [c]) := by
  obtain ⟨r', hr'⟩ := Store.getCycleReview_isSome hc
  have hstore : (pruneCycle {} d c).store =
      (((d.store.gcCycleActivity c).storeCycleReview r'.purged).toOption.getD (d.store.gcCycleActivity c)) := by
    simp only [pruneCycle, hr', Conn.attempt, Bool.false_eq_true, if_false]
    rfl
  have hreview : (d.store.gcCycleActivity c).getCycleReview c = some r' := hr'
  obtain ⟨r, hr, hpurged⟩ := h.review hr'
  have hflag : r'.purged = r.purged := by
    rcases hpurged with rfl | rfl <;> rfl
  have hgone := h.cycleActivity c
  rw [hstore]
  refine ⟨(Store.keys_flagged hreview).trans h.keys, fun c' hc' => ?_, fun c' hc' => ?_⟩
  · by_cases heq : c' = c
    · subst heq
      refine ⟨?_, fun t => ?_, r, hr, ?_⟩
      · rw [Store.sessions_storeCycleReview]
        exact hgone.1
      · rw [Store.rows_storeCycleReview]
        exact hgone.2 t
      · rw [Store.getCycleReview_flagged hreview (h.storable hs hr'), hflag]
    · have hin : c' ∈ pruned := by
        rw [List.mem_append, List.mem_singleton] at hc'
        exact hc'.resolve_right heq
      refine Drained.write (w := .cycleReview r'.purged) ?_ rfl (Store.getCycleReview_flagged_ne hreview heq)
      exact Drained.write (w := .cycleActivity c) (h.drained c' hin) rfl rfl
  · rw [List.mem_append, List.mem_singleton, not_or] at hc'
    refine Untouched.write (w := .cycleReview r'.purged) ?_ rfl (Store.getCycleReview_flagged_ne hreview hc'.2)
      (fun _ _ _ => rfl) fun _ _ _ => rfl
    exact (h.untouched c' hc'.1).cycleActivity hc'.2

end Steps

/-! ## Executions -/

section Executions

variable (engine : Engine) (keep maxPerTick : UInt32) (s : Store)

/-- `n` executions of the block, one after the other, no store call failing for a reason outside. -/
def executions (n : Nat) : Conn := (gcCycleBlock engine keep maxPerTick {})^[n] ⟨s, []⟩

/-- The cycles that an execution lists. -/
def batch : List String := (listPurgeableCycles engine keep s maxPerTick).1

/-- No store call of the first `n` executions fails: the reviews are accepted. -/
def AllCallsSucceed (n : Nat) : Prop :=
  ∀ i < n, ∀ c ∈ batch engine keep maxPerTick (executions engine keep maxPerTick s i).store, ∀ r,
    (executions engine keep maxPerTick s i).store.getCycleReview c = some r →
      ((executions engine keep maxPerTick s i).store.storeCycleReview r.purged).isOk = true

variable {engine keep maxPerTick s}

theorem batch_eq : batch engine keep maxPerTick s = (outsideWindow engine keep s).take maxPerTick.toNat := by
  unfold batch listPurgeableCycles
  exact Query.limit_natCast _ _

theorem Store.isOk_storeCycleReview (s : Store) {r : CycleReviewRecord} :
    (s.storeCycleReview r.purged).isOk = true ↔ r.Storable := by
  have hsize : r.purged.summaryJson = r.summaryJson := rfl
  unfold storeCycleReview CycleReviewRecord.Storable
  rw [hsize]
  by_cases hlt : summaryJsonMaxBytes < r.summaryJson.utf8ByteSize
  · rw [if_pos hlt]
    simp [Except.isOk, Except.toBool, hlt]
  · rw [if_neg hlt]
    split_ifs <;> simp [Except.isOk, Except.toBool, Nat.le_of_not_lt hlt]

/-- The loop drains the cycles it is given. -/
theorem Swept.prunes {s : Store} {cycles : List String}
    (hcycles : ∀ c ∈ cycles, c ∈ s.reviews.map CycleReviewRecord.featureCycle)
    (hs : ∀ c ∈ cycles, ∀ r, s.getCycleReview c = some r → r.Storable) {d : Conn} {pruned : List String}
    (h : Swept s d.store pruned) : Swept s (cycles.foldl (pruneCycle {}) d).store (pruned ++ cycles) := by
  induction cycles generalizing d pruned with
  | nil => simpa using h
  | cons c cycles ih =>
    have hreviewed : c ∈ d.store.reviews.map CycleReviewRecord.featureCycle := by
      have hkeys := congrArg (List.map Prod.fst) h.keys
      simp only [Store.keys, List.map_map] at hkeys
      exact hkeys.symm ▸ hcycles c (List.mem_cons_self)
    have hstep := h.prune hreviewed (hs c (List.mem_cons_self))
    have hrest := ih (fun c' hc' => hcycles c' (List.mem_cons_of_mem _ hc'))
      (fun c' hc' => hs c' (List.mem_cons_of_mem _ hc')) hstep
    rwa [List.append_assoc, List.singleton_append] at hrest

/-- **An execution drains the cycles of the first listing**: the reviews are listed as before. -/
theorem Swept.block {d : Conn} {pruned : List String} (h : Swept s d.store pruned)
    (hs : ∀ c ∈ batch engine keep maxPerTick s, ∀ r, s.getCycleReview c = some r → r.Storable) :
    Swept s (gcCycleBlock engine keep maxPerTick {} d).store (pruned ++ batch engine keep maxPerTick s) := by
  have hbatch : (listPurgeableCycles engine keep d.store maxPerTick).1 = batch engine keep maxPerTick s := by
    change batch engine keep maxPerTick d.store = batch engine keep maxPerTick s
    rw [batch_eq, batch_eq, outsideWindow_congr h.keys]
  have hreviewed : ∀ c ∈ batch engine keep maxPerTick s, c ∈ s.reviews.map CycleReviewRecord.featureCycle :=
    fun c hc => (mem_outsideWindow.mp (mem_listPurgeableCycles hc)).1
  simp only [gcCycleBlock, Bool.false_eq_true, if_false, hbatch]
  exact gcUnattributedActivity_induction (P := fun d => Swept s d.store _) (fun _ h _ hw => h.unattributed hw) _
    (h.prunes hreviewed hs)

/-- **The run**: after one execution or more, the first batch is drained and nothing else touched. -/
theorem swept_executions (hs : ∀ c ∈ batch engine keep maxPerTick s, ∀ r, s.getCycleReview c = some r → r.Storable)
    (n : Nat) :
    Swept s (executions engine keep maxPerTick s (n + 1)).store (batch engine keep maxPerTick s) := by
  induction n with
  | zero => exact Swept.block (d := ⟨s, []⟩) (Swept.refl s) hs
  | succ n ih =>
    have hstep := ih.block hs
    unfold executions at hstep ⊢
    rw [Function.iterate_succ_apply']
    exact hstep.congr fun c => by simp

/-- The reviews of the first batch are small enough, if no call fails. -/
theorem AllCallsSucceed.storable {n : Nat} (h : AllCallsSucceed engine keep maxPerTick s (n + 1)) :
    ∀ c ∈ batch engine keep maxPerTick s, ∀ r, s.getCycleReview c = some r → r.Storable :=
  fun c hc r hr => s.isOk_storeCycleReview.mp (h 0 (Nat.succ_pos n) c hc r hr)

/-- No call fails where all reviews are small enough. -/
theorem allCallsSucceed_of_storable (hs : ∀ c r, s.getCycleReview c = some r → r.Storable) (n : Nat) :
    AllCallsSucceed engine keep maxPerTick s n := by
  intro i _ c _ r hr
  rw [Store.isOk_storeCycleReview]
  cases i with
  | zero => exact hs c r hr
  | succ i => exact (swept_executions (fun c _ => hs c) i).storable (hs c) hr

theorem outsideWindow_nodup : (outsideWindow engine keep s).Nodup := by
  have hkeys : (s.keys.map Prod.fst).Nodup := by
    rw [Store.keys, List.map_map]
    exact s.reviews_key
  exact (((Query.orderBy_perm _ _ _).map Prod.fst).nodup_iff).mpr (hkeys.sublist (List.filter_sublist.map _))

/-- `ceil(P / max_per_tick)`. -/
def ticks (engine : Engine) (keep maxPerTick : UInt32) (s : Store) : Nat :=
  ((outsideWindow engine keep s).length + maxPerTick.toNat - 1) / maxPerTick.toNat

/-- **Exactly when the block gets through**: when the cycles that the first listing leaves out are drained already. -/
theorem retention_progress (engine : Engine) (keep maxPerTick : UInt32) (s : Store) (hmax : 1 ≤ maxPerTick)
    (hok : AllCallsSucceed engine keep maxPerTick s (ticks engine keep maxPerTick s)) :
    (∀ c ∈ outsideWindow engine keep s,
        Drained s (executions engine keep maxPerTick s (ticks engine keep maxPerTick s)).store c) ↔
      ∀ c ∈ (outsideWindow engine keep s).drop maxPerTick.toNat, Drained s s c := by
  have hpos : 0 < maxPerTick.toNat := UInt32.le_iff_toNat_le.mp hmax
  cases hticks : ticks engine keep maxPerTick s with
  | zero =>
    have hnone : outsideWindow engine keep s = [] := by
      unfold ticks at hticks
      rw [Nat.div_eq_zero_iff] at hticks
      exact List.eq_nil_of_length_eq_zero (by omega)
    simp [hnone]
  | succ n =>
    rw [hticks] at hok
    have hswept := swept_executions hok.storable n
    have hnodup : (outsideWindow engine keep s).Nodup := outsideWindow_nodup
    have hsplit := List.take_append_drop maxPerTick.toNat (outsideWindow engine keep s)
    have hrest : ∀ c ∈ (outsideWindow engine keep s).drop maxPerTick.toNat,
        (Drained s (executions engine keep maxPerTick s (n + 1)).store c ↔ Drained s s c) := by
      intro c hc
      refine (hswept.untouched c fun hin => ?_).drained_iff
      rw [batch_eq] at hin
      rw [← hsplit] at hnodup
      exact (List.nodup_append.mp hnodup).2.2 c hin c hc rfl
    constructor
    · intro h c hc
      exact (hrest c hc).mp (h c (List.mem_of_mem_drop hc))
    · intro h c hc
      rw [← hsplit, List.mem_append] at hc
      rcases hc with hc | hc
      · exact hswept.drained c (batch_eq ▸ hc)
      · exact (hrest c hc).mpr (h c hc)

end Executions

/-- The engine that leaves rows as they are stored. -/
def Engine.stored : Engine := ⟨.stored, .stored, .stored⟩

/-- A review of the cycle, made at the time `t`. -/
def reviewAt (c : String) (t : Int) : CycleReviewRecord where
  featureCycle := c
  schemaVersion := 6
  computedAt := t
  rawSignalsAvailable := 1
  summaryJson := ""

/-- Three cycles reviewed at the times 1, 2 and 3, each with a session and an observation. -/
def threeReviews : Store where
  sessions := [⟨"s1", some "a", 0, .completed⟩, ⟨"s2", some "b", 0, .completed⟩, ⟨"s3", some "c", 0, .completed⟩]
  observations := [⟨1, "s1"⟩, ⟨2, "s2"⟩, ⟨3, "s3"⟩]
  queryLog := []
  injectionLog := []
  reviews := [reviewAt "a" 1, reviewAt "b" 2, reviewAt "c" 3]
  sessions_key := by decide
  reviews_key := by decide

theorem storable_threeReviews {c : String} {r : CycleReviewRecord} (h : threeReviews.getCycleReview c = some r) :
    r.Storable := by
  obtain ⟨stored, hmem, -, -, rfl⟩ := Store.getCycleReview_eq_some h
  simp only [threeReviews, List.mem_cons, List.not_mem_nil, or_false] at hmem
  rcases hmem with rfl | rfl | rfl <;> simp [CycleReviewRecord.Storable, CycleReviewRecord.coalesced, reviewAt]

/-- One cycle is kept: the oldest two are outside the window. -/
theorem outsideWindow_threeReviews : outsideWindow Engine.stored 1 threeReviews = ["a", "b"] := by
  have hnewest : Query.orderBy Engine.stored.window newestFirst threeReviews.keys = [("c", 3), ("b", 2), ("a", 1)] :=
    Query.orderBy_eq_of_pairwise newestFirst_trans newestFirst_total (by decide) (by decide)
  have hwindow : window Engine.stored 1 threeReviews = ["c"] := by
    unfold window
    rw [hnewest]
    rfl
  have houtside : threeReviews.keys.filter (fun k => decide (k.1 ∉ window Engine.stored 1 threeReviews)) =
      [("a", 1), ("b", 2)] := by
    rw [hwindow]
    decide
  unfold outsideWindow
  rw [houtside, Query.orderBy_eq_of_pairwise oldestFirst_trans oldestFirst_total (List.Perm.refl _) (by decide)]
  rfl

/-- One cycle a tick: after two ticks the second cycle still has its session. -/
theorem retention_progress_stalls :
    ticks Engine.stored 1 1 threeReviews = 2 ∧ AllCallsSucceed Engine.stored 1 1 threeReviews 2 ∧
      "b" ∈ outsideWindow Engine.stored 1 threeReviews ∧
      ¬ Drained threeReviews (executions Engine.stored 1 1 threeReviews 2).store "b" := by
  have hswept : Swept threeReviews (executions Engine.stored 1 1 threeReviews 2).store
      (batch Engine.stored 1 1 threeReviews) :=
    swept_executions (fun c _ _ => storable_threeReviews) 1
  have hbatch : batch Engine.stored 1 1 threeReviews = ["a"] := by
    rw [batch_eq, outsideWindow_threeReviews]
    rfl
  refine ⟨?_, allCallsSucceed_of_storable (fun _ _ => storable_threeReviews) 2, ?_, ?_⟩
  · unfold ticks
    rw [outsideWindow_threeReviews]
    rfl
  · rw [outsideWindow_threeReviews]
    decide
  · rw [(hswept.untouched "b" (by rw [hbatch]; decide)).drained_iff]
    intro h
    exact h.sessions ⟨"s2", some "b", 0, .completed⟩ (by decide) rfl

/-- Two cycles a tick: one tick drains both. -/
theorem retention_progress_oneTick :
    Drained threeReviews (executions Engine.stored 1 2 threeReviews (ticks Engine.stored 1 2 threeReviews)).store
        "a" ∧
      Drained threeReviews (executions Engine.stored 1 2 threeReviews (ticks Engine.stored 1 2 threeReviews)).store
        "b" := by
  have hdrop : ∀ c ∈ (outsideWindow Engine.stored 1 threeReviews).drop (2 : UInt32).toNat,
      Drained threeReviews threeReviews c := by
    have hnone : ["a", "b"].drop (2 : UInt32).toNat = [] := rfl
    rw [outsideWindow_threeReviews, hnone]
    exact fun c hc => absurd hc List.not_mem_nil
  have hall := (retention_progress Engine.stored 1 2 threeReviews (by decide)
    (allCallsSucceed_of_storable (fun _ _ => storable_threeReviews) _)).mpr hdrop
  rw [outsideWindow_threeReviews] at hall
  exact ⟨hall "a" List.mem_cons_self, hall "b" (List.mem_cons_of_mem _ List.mem_cons_self)⟩

end Unimatrix.Retention
