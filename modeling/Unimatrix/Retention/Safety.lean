import Unimatrix.Retention.Passes

/-!
# Which sessions maintenance spares

A session is `Protected` while its cycle has no review or is one of the most recently reviewed, or while it is active
and has no cycle. The passes come in any order, with any faults and at any times, and between two of them the server
may write what it likes (`Event.activity`).

* `Spares`: a write deletes nothing of a protected session, but for what is excused.
* **`retention_safety`**: the cycle GC block and `gc_unattributed_activity` delete nothing of a protected session.
  `gc_sessions` knows nothing of cycles: it deletes a session that started before its boundary, and its injections.
* `retention_safety_aged`: a session in a cycle without a review, deleted for its age.
-/

namespace Unimatrix.Retention

/-! ## What is asked -/

/-- A session that the retention policy keeps; `recent` are the most recently reviewed cycles. -/
inductive Protected (recent : List String) (s : Store) (x : SessionRow) : Prop where
  | unreviewed {c : String} (of : x.featureCycle = some c)
      (unreviewed : c ∉ s.reviews.map CycleReviewRecord.featureCycle)
  | recent {c : String} (of : x.featureCycle = some c) (recent : c ∈ recent)
  | active (unattributed : x.featureCycle = none) (active : x.status = .active)

/-- The cycles are the most recently reviewed ones, `keep` of them or all. -/
def MostRecent (keep : UInt32) (s : Store) (cycles : List String) : Prop :=
  ∃ l, Query.First newestFirst keep.toNat s.keys l ∧ cycles = l.map Prod.fst

/-- The write deletes nothing of a protected session, but for an excused session and its injections. -/
structure Spares (recent : List String) (s : Store) (w : Write) (excused : SessionRow → Prop) : Prop where
  rows : ∀ t, ∀ r ∈ s.rows t, r ∉ (w.run s).rows t → ∀ x ∈ s.sessions, x.sessionId = r.sessionId →
    ¬ Protected recent s x ∨ (t = .injectionLog ∧ excused x)
  sessions : ∀ x ∈ s.sessions, x.sessionId ∉ (w.run s).sessions.map SessionRow.sessionId →
    ¬ Protected recent s x ∨ excused x

/-- The write is a `gc_sessions` that the session is too old for. -/
def Write.Aged (w : Write) (x : SessionRow) : Prop :=
  ∃ now timedOut delete, w = .sessions now timedOut delete ∧ x.startedAt < boundary now delete

/-! ## Runs -/

/-- What happens to the store. -/
inductive Event where
  | gcCycleBlock (maxPerTick : UInt32) (faults : Faults)
  | gcUnattributedActivity (ran : Nat)
  | gcSessions (now : UInt64) (fails : Bool)
  | activity (s : Store)

section Runs

variable (engine : Engine) (keep : UInt32)

/-- One event. -/
def step (d : Conn) : Event → Conn
  | .gcCycleBlock maxPerTick faults => gcCycleBlock engine keep maxPerTick faults d
  | .gcUnattributedActivity ran => gcUnattributedActivity ran d
  | .gcSessions now fails => d.attempt fails (.sessions now timedOutThresholdSecs deleteThresholdSecs)
  | .activity s => { d with store := s }

/-- The events, from a store that nothing has been written to. -/
def run (s : Store) (events : List Event) : Conn := events.foldl (step engine keep) ⟨s, []⟩

end Runs

/-! ## One write -/

section Writes

variable {engine : Engine} {keep : UInt32} {s : Store}

theorem Write.sessionId_mark (w : Write) (x : SessionRow) : (w.mark x).sessionId = x.sessionId := by
  cases w with
  | sessions now timedOut delete => exact Store.sessionId_timeOut _ x
  | _ => rfl

/-- A write spares what it does not delete. -/
theorem Spares.of_deletes {recent : List String} {w : Write} {excused : SessionRow → Prop}
    (hrows : ∀ t r, w.deletesRow s r t = true → ∀ x ∈ s.sessions, x.sessionId = r.sessionId →
      ¬ Protected recent s x ∨ (t = .injectionLog ∧ excused x))
    (hsessions : ∀ x, w.deletesSession x = true → ¬ Protected recent s x ∨ excused x) :
    Spares recent s w excused := by
  refine ⟨fun t r hr hgone x hx hid => hrows t r ?_ x hx hid, fun x hx hgone => hsessions x ?_⟩
  · by_contra hkept
    rw [w.rows_run, List.mem_filter, Bool.not_eq_true] at *
    exact hgone ⟨hr, by rw [hkept]; rfl⟩
  · by_contra hkept
    rw [Bool.not_eq_true] at hkept
    refine hgone ?_
    rw [w.sessions_run, List.map_map]
    exact List.mem_map.mpr ⟨x, List.mem_filter.mpr ⟨hx, by rw [hkept]; rfl⟩, w.sessionId_mark x⟩

/-- A reviewed cycle outside the window protects no session. -/
theorem not_protected_of_outside {c : String} (hc : c ∈ outsideWindow engine keep s) {x : SessionRow}
    (hx : x.featureCycle = some c) : ¬ Protected (window engine keep s) s x := by
  obtain ⟨hreviewed, hnot⟩ := mem_outsideWindow.mp hc
  intro h
  cases h with
  | unreviewed of unreviewed =>
    rw [hx] at of
    exact unreviewed (Option.some.inj of ▸ hreviewed)
  | recent of recent =>
    rw [hx] at of
    exact hnot (Option.some.inj of ▸ recent)
  | active unattributed _ =>
    rw [hx] at unattributed
    cases unattributed

/-- Neither does being closed without a cycle. -/
theorem not_protected_of_closed {recent : List String} {x : SessionRow} (hx : Store.closedUnattributed x = true) :
    ¬ Protected recent s x := by
  simp only [Store.closedUnattributed, Bool.and_eq_true, Option.isNone_iff_eq_none, bne_iff_ne] at hx
  intro h
  cases h with
  | unreviewed of _ =>
    rw [hx.1] at of
    cases of
  | recent of _ =>
    rw [hx.1] at of
    cases of
  | active _ active => exact hx.2 active

/-- `gc_cycle_activity` of a cycle outside the window. -/
theorem spares_cycleActivity {c : String} (hc : c ∈ outsideWindow engine keep s) (excused : SessionRow → Prop) :
    Spares (window engine keep s) s (.cycleActivity c) excused := by
  refine Spares.of_deletes (fun t r hdel x hx hid => .inl ?_) fun x hdel => .inl ?_
  · obtain ⟨y, hy, hof, hid'⟩ := Store.inSessions_iff.mp hdel
    rw [s.session_unique hx hy (hid.trans hid'.symm)]
    exact not_protected_of_outside hc (Store.attributedTo_iff.mp hof)
  · exact not_protected_of_outside hc (Store.attributedTo_iff.mp hdel)

/-- `store_cycle_review` deletes nothing. -/
theorem spares_cycleReview (recent : List String) (record : CycleReviewRecord) (excused : SessionRow → Prop) :
    Spares recent s (.cycleReview record) excused :=
  Spares.of_deletes (fun t r hdel => by cases hdel) fun x hdel => by cases hdel

/-- The statements of `gc_unattributed_activity`. -/
theorem spares_unattributed (recent : List String) {w : Write}
    (hw : w ∈ unattributedWrites)
    (excused : SessionRow → Prop) : Spares recent s w excused := by
  have horphan : ∀ r, (!s.inSessions (fun _ => true) r) = true → ∀ x ∈ s.sessions, x.sessionId ≠ r.sessionId := by
    intro r hr x hx hid
    rw [Store.inSessions_iff.mpr ⟨x, hx, rfl, hid⟩] at hr
    cases hr
  simp only [unattributedWrites, List.mem_cons, List.not_mem_nil, or_false] at hw
  rcases hw with rfl | rfl | rfl | rfl
  · refine Spares.of_deletes (fun t r hdel x hx hid => ?_) fun x hdel => by cases hdel
    cases t with
    | observations => exact absurd hid (horphan r hdel x hx)
    | queryLog => cases hdel
    | injectionLog => cases hdel
  · refine Spares.of_deletes (fun t r hdel x hx hid => ?_) fun x hdel => by cases hdel
    cases t with
    | observations => cases hdel
    | queryLog => exact absurd hid (horphan r hdel x hx)
    | injectionLog => cases hdel
  · refine Spares.of_deletes (fun t r hdel x hx hid => .inl ?_) fun x hdel => by cases hdel
    cases t with
    | observations => cases hdel
    | queryLog => cases hdel
    | injectionLog =>
      obtain ⟨y, hy, hclosed, hid'⟩ := Store.inSessions_iff.mp hdel
      rw [s.session_unique hx hy (hid.trans hid'.symm)]
      exact not_protected_of_closed hclosed
  · exact Spares.of_deletes (fun t r hdel => by cases t <;> cases hdel)
      fun x hdel => .inl (not_protected_of_closed hdel)

/-- `gc_sessions` deletes for age, and of the rows the injections only. -/
theorem spares_gcSessions (recent : List String) (now timedOut delete : UInt64) :
    Spares recent s (.sessions now timedOut delete) (Write.Aged (.sessions now timedOut delete)) := by
  refine Spares.of_deletes (fun t r hdel x hx hid => .inr ?_) fun x hdel => .inr ?_
  · cases t with
    | observations => cases hdel
    | queryLog => cases hdel
    | injectionLog =>
      obtain ⟨y, hy, hold, hid'⟩ := Store.inSessions_iff.mp hdel
      rw [s.session_unique hx hy (hid.trans hid'.symm)]
      exact ⟨rfl, now, timedOut, delete, rfl, of_decide_eq_true hold⟩
  · exact ⟨now, timedOut, delete, rfl, of_decide_eq_true hdel⟩

end Writes

/-! ## Every run -/

section Run

variable {engine : Engine} {keep : UInt32}

/-- Every write so far has spared the protected sessions. -/
def Sparing (engine : Engine) (keep : UInt32) (d : Conn) : Prop :=
  ∀ p ∈ d.log, Spares (window engine keep p.1) p.1 p.2 p.2.Aged

theorem Sparing.write {d : Conn} (h : Sparing engine keep d) {w : Write}
    (hw : Spares (window engine keep d.store) d.store w w.Aged) : Sparing engine keep (d.write w) := by
  intro p hp
  rcases List.mem_append.mp hp with hold | hnew
  · exact h p hold
  · rw [List.mem_singleton.mp hnew]
    exact hw

/-- The loop body, on a cycle that is outside the window. -/
theorem Sparing.prune {d : Conn} (h : Sparing engine keep d) {faults : Faults} {c : String}
    (hc : c ∈ outsideWindow engine keep d.store) :
    Sparing engine keep (pruneCycle faults d c) ∧ (pruneCycle faults d c).store.keys = d.store.keys := by
  unfold pruneCycle
  split
  · exact ⟨h, rfl⟩
  · cases hreview : d.store.getCycleReview c with
    | none => exact ⟨h, rfl⟩
    | some r =>
      dsimp only
      split
      · exact ⟨h, rfl⟩
      · have hdeleted := h.write (spares_cycleActivity hc (Write.Aged (.cycleActivity c)))
        unfold Conn.attempt
        split
        · exact ⟨hdeleted, rfl⟩
        · refine ⟨hdeleted.write (spares_cycleReview _ _ _), ?_⟩
          have hkept : (d.store.gcCycleActivity c).getCycleReview c = some r := hreview
          exact Store.keys_flagged hkept

theorem Sparing.prunes {faults : Faults} {cycles : List String} {d : Conn} (h : Sparing engine keep d)
    (hcycles : ∀ c ∈ cycles, c ∈ outsideWindow engine keep d.store) :
    Sparing engine keep (cycles.foldl (pruneCycle faults) d) := by
  induction cycles generalizing d with
  | nil => exact h
  | cons c cycles ih =>
    have hprune : Sparing engine keep (pruneCycle faults d c) ∧ (pruneCycle faults d c).store.keys = d.store.keys :=
      h.prune (hcycles c (List.mem_cons_self))
    obtain ⟨hstep, hkeys⟩ := hprune
    refine ih hstep fun c' hc' => ?_
    rw [outsideWindow_congr hkeys]
    exact hcycles c' (List.mem_cons_of_mem _ hc')

theorem Sparing.unattributed {d : Conn} (h : Sparing engine keep d) (ran : Nat) :
    Sparing engine keep (gcUnattributedActivity ran d) :=
  gcUnattributedActivity_induction (fun _ h _ hw => h.write (spares_unattributed _ hw _)) ran h

/-- **An event keeps to what is asked.** -/
theorem Sparing.step {d : Conn} (h : Sparing engine keep d) (e : Event) :
    Sparing engine keep (step engine keep d e) := by
  cases e with
  | gcCycleBlock maxPerTick faults =>
    simp only [Retention.step, gcCycleBlock]
    split
    · exact h
    · exact (h.prunes fun c hc => mem_listPurgeableCycles hc).unattributed _
  | gcUnattributedActivity ran => exact h.unattributed ran
  | gcSessions now fails =>
    simp only [Retention.step, Conn.attempt]
    split
    · exact h
    · exact h.write (spares_gcSessions _ _ _ _)
  | activity s => exact h

/-- The window holds the most recently reviewed cycles, whatever the engine does. -/
theorem mostRecent_window (s : Store) : MostRecent keep s (window engine keep s) :=
  ⟨_, Query.first_limit_orderBy newestFirst_trans newestFirst_total keep.toNat s.keys, rfl⟩

/-- **Maintenance spares the protected sessions, but for their age**: in every run, a write that deletes something of
one is a `gc_sessions` whose boundary the session started before, and what it deletes of it is the session and its
injections. -/
theorem retention_safety (engine : Engine) (keep : UInt32) (s : Store) (events : List Event) :
    ∃ recent : Store → List String, (∀ s', MostRecent keep s' (recent s')) ∧
      ∀ p ∈ (run engine keep s events).log, Spares (recent p.1) p.1 p.2 p.2.Aged := by
  refine ⟨window engine keep, mostRecent_window, ?_⟩
  have hrun : ∀ d : Conn, Sparing engine keep d → Sparing engine keep (events.foldl (Retention.step engine keep) d) := by
    induction events with
    | nil => exact fun d h => h
    | cons e events ih => exact fun d h => ih _ (h.step e)
  exact hrun ⟨s, []⟩ fun p hp => absurd hp List.not_mem_nil

end Run

/-- A session in a cycle without a review, and an active one without a cycle, both started at the time 0. -/
def twoSessions : Store where
  sessions := [⟨"s1", some "a", 0, .completed⟩, ⟨"s2", none, 0, .active⟩]
  observations := []
  queryLog := []
  injectionLog := [⟨1, "s1"⟩]
  reviews := []
  sessions_key := by decide
  reviews_key := by decide

/-- Thirty days and a second later `gc_sessions` deletes both, protected as they are. -/
theorem retention_safety_aged :
    ¬ ∃ recent : Store → List String, (∀ s', MostRecent 1 s' (recent s')) ∧
      ∀ p ∈ (run ⟨.stored, .stored, .stored⟩ 1 twoSessions [.gcSessions 2592001 false]).log,
        Spares (recent p.1) p.1 p.2 fun _ => False := by
  rintro ⟨recent, -, h⟩
  have hspares := h (twoSessions, .sessions 2592001 timedOutThresholdSecs deleteThresholdSecs)
    (List.mem_singleton_self _)
  have hgone := hspares.sessions ⟨"s1", some "a", 0, .completed⟩ (by decide) (by decide)
  rcases hgone with hno | hno
  · exact hno (.unreviewed rfl (by decide))
  · exact hno

end Unimatrix.Retention
