import Unimatrix.Lib.HashMap
import Unimatrix.Lib.Streak
import Unimatrix.Search.Pool

/-!
# Counting bad cycles

Model of steps 1 to 9 of `maintenance_tick` with `process_auto_quarantine`: how the ticks of the background task count, for
each entry, the cycles in which it was bad, and which entries they quarantine.

* A tick has what `load_maintenance_snapshot` returned, and the orders in which the two maps are iterated.
* `update_status` succeeds. What is left out of a report is read for the audit events only.
* A counter is a `u32` and wraps.

A `Delivery` is a tick that had a report. An entry's counter is its streak of deliveries that found it bad and did not
quarantine it (`Counts`), so it never reaches the threshold, and does not wrap unless the threshold is 0.

**`quarantined_iff`**: an entry is quarantined exactly if this delivery and as many before it as the threshold asks for
found it bad, and none of those quarantined it.
-/

namespace Unimatrix.QuarantineStreak

open HashMap Streak

/-! ## The code -/

/-- `EntryEffectiveness`: what is read of it here. -/
structure EntryEffectiveness where
  entryId : Nat
  category : EffectivenessCategory

/-- `EffectivenessReport`: what is read of it here. -/
structure EffectivenessReport where
  allEntries : List EntryEffectiveness

/-- `EffectivenessState`. -/
structure EffectivenessState where
  categories : HashMap Nat EffectivenessCategory
  consecutiveBadCycles : HashMap Nat UInt32
  generation : UInt64

/-- `EffectivenessState::new`. -/
def EffectivenessState.new : EffectivenessState := ⟨∅, ∅, 0⟩

/-- `Ineffective` or `Noisy`. -/
def isBad : EffectivenessCategory → Bool
  | .ineffective | .noisy => true
  | .effective | .settled | .unmatched => false

/-- Step 4: `new_categories`. -/
def newCategories (report : EffectivenessReport) : HashMap Nat EffectivenessCategory :=
  collect (report.allEntries.map fun ee => (ee.entryId, ee.category))

/-- The ids of the entries whose category satisfies `p`, in the order of the iteration. -/
def idsWhere (categories : HashMap Nat EffectivenessCategory) (o : IterOrder Nat EffectivenessCategory)
    (p : EffectivenessCategory → Bool) : List Nat :=
  ((categories.iter o).filter fun e => p e.2).map Prod.fst

/-- Steps 6 and 6b: counters of entries without a category are removed, those of bad ones are incremented, and the others
reset. -/
def updateCounters (counters : HashMap Nat UInt32) (categories : HashMap Nat EffectivenessCategory)
    (o : IterOrder Nat EffectivenessCategory) : HashMap Nat UInt32 :=
  let kept := counters.retain fun id _ => (categories.lookup id).isSome
  let toIncrement := idsWhere categories o isBad
  let toReset := idsWhere categories o fun category => !isBad category
  let incremented := toIncrement.foldl (fun m id => m.insert id ((m.lookup id).getD 0 + 1)) kept
  toReset.foldl (fun m id => m.erase id) incremented

/-- Step 7: `candidates`. -/
def candidates (s : EffectivenessState) (autoQuarantineCycles : UInt32) (o : IterOrder Nat UInt32) :
    List (Nat × UInt32 × EffectivenessCategory) :=
  if 0 < autoQuarantineCycles then
    (s.consecutiveBadCycles.iter o).filterMap fun e =>
      let category := (s.categories.lookup e.1).getD .ineffective
      if autoQuarantineCycles ≤ e.2 ∧ isBad category then some (e.1, e.2, category) else none
  else []

/-- The loop of `process_auto_quarantine`. -/
def quarantineAll : EffectivenessState → List (Nat × UInt32 × EffectivenessCategory) → EffectivenessState × List Nat
  | s, [] => (s, [])
  | s, (entryId, _, category) :: toQuarantine =>
    if isBad category then
      let r := quarantineAll { s with consecutiveBadCycles := s.consecutiveBadCycles.erase entryId } toQuarantine
      (r.1, entryId :: r.2)
    else quarantineAll s toQuarantine

/-- `process_auto_quarantine`. -/
def processAutoQuarantine (s : EffectivenessState) (toQuarantine : List (Nat × UInt32 × EffectivenessCategory))
    (autoQuarantineCycles : UInt32) : EffectivenessState × List Nat :=
  if toQuarantine.isEmpty ∨ autoQuarantineCycles = 0 then (s, []) else quarantineAll s toQuarantine

/-- A tick: what the snapshot was, and the orders of the iterations. -/
structure Tick where
  /-- `load_maintenance_snapshot`; an error, or `snapshot.effectiveness`. -/
  snapshot : Except String (Option EffectivenessReport)
  categoryOrder : IterOrder Nat EffectivenessCategory
  counterOrder : IterOrder Nat UInt32

/-- Steps 4 to 6b. -/
def classify (s : EffectivenessState) (o : IterOrder Nat EffectivenessCategory) (report : EffectivenessReport) :
    EffectivenessState :=
  let categories := newCategories report
  { s with categories, consecutiveBadCycles := updateCounters s.consecutiveBadCycles categories o }

/-- Steps 4 to 9. -/
def onReport (s : EffectivenessState) (autoQuarantineCycles : UInt32) (t : Tick) (report : EffectivenessReport) :
    EffectivenessState × List Nat :=
  let updated := classify s t.categoryOrder report
  let toQuarantine := candidates updated autoQuarantineCycles t.counterOrder
  processAutoQuarantine { updated with generation := updated.generation + 1 } toQuarantine autoQuarantineCycles

/-- Steps 1 to 9 of `maintenance_tick`, and `auto_quarantined_this_cycle`. -/
def maintenanceTick (autoQuarantineCycles : UInt32) (s : EffectivenessState) (t : Tick) : EffectivenessState × List Nat :=
  match t.snapshot with
  | .error _ => (s, [])
  | .ok none => (s, [])
  | .ok (some report) => onReport s autoQuarantineCycles t report

/-- The ticks of a server, from its start on. -/
def run (autoQuarantineCycles : UInt32) (ticks : List Tick) : EffectivenessState :=
  ticks.foldl (fun s t => (maintenanceTick autoQuarantineCycles s t).1) .new

/-! ## Deliveries -/

/-- The report a tick had, if any. -/
def Tick.report (t : Tick) : Option EffectivenessReport := t.snapshot.toOption.join

/-- A tick that had a report, with what it quarantined. -/
structure Delivery where
  report : EffectivenessReport
  quarantined : List Nat

/-- The entry is classified Ineffective or Noisy. -/
def Bad (report : EffectivenessReport) (e : Nat) : Prop := ∃ category ∈ (newCategories report).lookup e, isBad category

instance (report : EffectivenessReport) (e : Nat) : Decidable (Bad report e) :=
  inferInstanceAs (Decidable (∃ category ∈ (newCategories report).lookup e, isBad category))

/-- The entry was bad and was not quarantined. -/
def Delivery.Spared (e : Nat) (d : Delivery) : Prop := Bad d.report e ∧ e ∉ d.quarantined

instance (e : Nat) : DecidablePred (Delivery.Spared e) := fun d =>
  inferInstanceAs (Decidable (Bad d.report e ∧ e ∉ d.quarantined))

/-- The deliveries of some ticks. -/
def deliveries (autoQuarantineCycles : UInt32) : EffectivenessState → List Tick → List Delivery
  | _, [] => []
  | s, t :: ticks =>
    let r := maintenanceTick autoQuarantineCycles s t
    (t.report.map fun report => ⟨report, r.2⟩).toList ++ deliveries autoQuarantineCycles r.1 ticks

/-- What holds of the entries that a tick quarantines, and of ticks without a report. -/
structure Correct (autoQuarantineCycles : UInt32) (ticks : List Tick) (t : Tick) : Prop where
  quarantined : ∀ e, e ∈ (maintenanceTick autoQuarantineCycles (run autoQuarantineCycles ticks) t).2 ↔
    1 ≤ autoQuarantineCycles.toNat ∧ (∃ report ∈ t.report, Bad report e) ∧
      ∃ front back, deliveries autoQuarantineCycles .new ticks = front ++ back ∧
        back.length = autoQuarantineCycles.toNat - 1 ∧ ∀ d ∈ back, Bad d.report e ∧ e ∉ d.quarantined
  held : t.report = none →
    (maintenanceTick autoQuarantineCycles (run autoQuarantineCycles ticks) t).1.consecutiveBadCycles =
      (run autoQuarantineCycles ticks).consecutiveBadCycles

/-! ## One tick -/

theorem mem_idsWhere {categories : HashMap Nat EffectivenessCategory} {o : IterOrder Nat EffectivenessCategory}
    {p : EffectivenessCategory → Bool} {e : Nat} :
    e ∈ idsWhere categories o p ↔ ∃ category ∈ categories.lookup e, p category = true := by
  unfold idsWhere
  rw [List.mem_map]
  constructor
  · rintro ⟨⟨id, category⟩, hmem, rfl⟩
    obtain ⟨hiter, hp⟩ := List.mem_filter.mp hmem
    exact ⟨category, mem_iter.mp hiter, hp⟩
  · rintro ⟨category, hcategory, hp⟩
    exact ⟨(e, category), List.mem_filter.mpr ⟨mem_iter.mpr hcategory, hp⟩, rfl⟩

theorem idsWhere_nodup (categories : HashMap Nat EffectivenessCategory) (o : IterOrder Nat EffectivenessCategory)
    (p : EffectivenessCategory → Bool) : (idsWhere categories o p).Nodup :=
  (iter_keys_nodup categories o).sublist (List.filter_sublist.map Prod.fst)

/-- **The counter of an entry after steps 6 and 6b.** -/
theorem lookup_updateCounters (counters : HashMap Nat UInt32) (report : EffectivenessReport)
    (o : IterOrder Nat EffectivenessCategory) (e : Nat) :
    (updateCounters counters (newCategories report) o).lookup e =
      if Bad report e then some ((counters.lookup e).getD 0 + 1) else none := by
  unfold updateCounters
  dsimp only
  rw [lookup_foldl_erase, lookup_foldl_insert (fun v => v.getD 0 + 1) (idsWhere_nodup _ o _), lookup_retain]
  have hbad : e ∈ idsWhere (newCategories report) o isBad ↔ Bad report e := mem_idsWhere
  by_cases h : Bad report e
  · obtain ⟨category, hcategory, hp⟩ := id h
    have hkept : e ∉ idsWhere (newCategories report) o fun category => !isBad category := fun hmem => by
      obtain ⟨category', hcategory', hp'⟩ := mem_idsWhere.mp hmem
      rw [Option.mem_unique hcategory' hcategory, hp] at hp'
      cases hp'
    have hretained : (counters.lookup e).filter (fun _ => ((newCategories report).lookup e).isSome) =
        counters.lookup e := by
      rw [Option.mem_def.mp hcategory]
      cases counters.lookup e <;> rfl
    rw [if_neg hkept, if_pos (hbad.mpr h), if_pos h, hretained]
  · rw [if_neg h, if_neg fun hmem => h (hbad.mp hmem)]
    cases hcategory : (newCategories report).lookup e with
    | none =>
      rw [if_neg fun hmem => by
        obtain ⟨category, hcategory', -⟩ := mem_idsWhere.mp hmem
        rw [hcategory] at hcategory'
        cases hcategory']
      cases counters.lookup e <;> rfl
    | some category =>
      have hgood : (!isBad category) = true := by
        rw [Bool.not_eq_true', Bool.eq_false_iff]
        exact fun hp => h ⟨category, hcategory, hp⟩
      rw [if_pos (mem_idsWhere.mpr ⟨category, hcategory, hgood⟩)]

/-- The candidates are the entries whose counter has reached the threshold, as long as they are bad. -/
theorem mem_candidates {s : EffectivenessState} {n : UInt32} {o : IterOrder Nat UInt32} {e : Nat} :
    e ∈ (candidates s n o).map Prod.fst ↔
      0 < n ∧ (∃ count ∈ s.consecutiveBadCycles.lookup e, n ≤ count) ∧
        isBad ((s.categories.lookup e).getD .ineffective) = true := by
  unfold candidates
  by_cases hn : 0 < n
  · rw [if_pos hn, List.mem_map]
    constructor
    · rintro ⟨c, hc, rfl⟩
      obtain ⟨entry, hiter, hentry⟩ := List.mem_filterMap.mp hc
      dsimp only at hentry
      split at hentry
      · rename_i hreached
        cases hentry
        exact ⟨hn, ⟨entry.2, mem_iter.mp hiter, hreached.1⟩, hreached.2⟩
      · cases hentry
    · rintro ⟨-, ⟨count, hcount, hle⟩, hbad⟩
      exact ⟨(e, count, (s.categories.lookup e).getD .ineffective),
        List.mem_filterMap.mpr ⟨(e, count), mem_iter.mpr hcount, if_pos ⟨hle, hbad⟩⟩, rfl⟩
  · rw [if_neg hn]
    exact ⟨fun h => absurd h List.not_mem_nil, fun h => absurd h.1 hn⟩

theorem isBad_of_mem_candidates {s : EffectivenessState} {n : UInt32} {o : IterOrder Nat UInt32}
    {c : Nat × UInt32 × EffectivenessCategory} (h : c ∈ candidates s n o) : isBad c.2.2 = true := by
  unfold candidates at h
  split at h
  · obtain ⟨entry, -, hentry⟩ := List.mem_filterMap.mp h
    dsimp only at hentry
    split at hentry
    · rename_i hreached
      cases hentry
      exact hreached.2
    · cases hentry
  · cases h

/-- Candidates that are bad are all quarantined, and their counters removed. -/
theorem quarantineAll_eq {toQuarantine : List (Nat × UInt32 × EffectivenessCategory)}
    (h : ∀ c ∈ toQuarantine, isBad c.2.2 = true) (s : EffectivenessState) :
    quarantineAll s toQuarantine =
      ({ s with
          consecutiveBadCycles := (toQuarantine.map Prod.fst).foldl (fun m id => m.erase id) s.consecutiveBadCycles },
        toQuarantine.map Prod.fst) := by
  induction toQuarantine generalizing s with
  | nil => rfl
  | cons c toQuarantine ih =>
    unfold quarantineAll
    rw [if_pos (h c List.mem_cons_self), ih fun c' hc' => h c' (List.mem_cons_of_mem c hc')]
    rfl

theorem lookup_classify (s : EffectivenessState) (t : Tick) (report : EffectivenessReport) (e : Nat) :
    (classify s t.categoryOrder report).consecutiveBadCycles.lookup e =
      if Bad report e then some ((s.consecutiveBadCycles.lookup e).getD 0 + 1) else none :=
  lookup_updateCounters s.consecutiveBadCycles report t.categoryOrder e

/-- The candidates are the bad entries whose counters reach the threshold. -/
theorem mem_candidates_classify {s : EffectivenessState} {n : UInt32} (hn : 0 < n) (t : Tick)
    (report : EffectivenessReport) (e : Nat) :
    e ∈ (candidates (classify s t.categoryOrder report) n t.counterOrder).map Prod.fst ↔
      Bad report e ∧ n ≤ (s.consecutiveBadCycles.lookup e).getD 0 + 1 := by
  rw [mem_candidates, lookup_classify]
  by_cases h : Bad report e
  · obtain ⟨category, hcategory, hp⟩ := id h
    have hlookup : (classify s t.categoryOrder report).categories.lookup e = some category := hcategory
    rw [if_pos h, hlookup]
    constructor
    · rintro ⟨-, ⟨count, hcount, hle⟩, -⟩
      exact ⟨h, Option.some.inj hcount ▸ hle⟩
    · exact fun hle => ⟨hn, ⟨_, rfl, hle.2⟩, hp⟩
  · rw [if_neg h]
    constructor
    · rintro ⟨-, ⟨count, hcount, -⟩, -⟩
      cases hcount
    · exact fun hbad => absurd hbad.1 h

/-- A tick with a report quarantines the candidates. -/
theorem onReport_eq {n : UInt32} (hn : 0 < n) (s : EffectivenessState) (t : Tick) (report : EffectivenessReport) :
    onReport s n t report = quarantineAll { classify s t.categoryOrder report with generation := s.generation + 1 }
      (candidates (classify s t.categoryOrder report) n t.counterOrder) := by
  unfold onReport processAutoQuarantine
  dsimp only
  split
  · rename_i hnone
    have hempty := List.isEmpty_iff.mp (hnone.resolve_right fun hzero => by
      rw [hzero] at hn
      exact absurd hn (by decide))
    rw [hempty]
    rfl
  · rfl

/-- **A tick with a report** quarantines the bad entries whose counters reach the threshold with it, and counts the other
bad ones. -/
theorem onReport_spec {s : EffectivenessState} {n : UInt32} (hn : 0 < n) (t : Tick) (report : EffectivenessReport)
    (e : Nat) :
    (e ∈ (onReport s n t report).2 ↔ Bad report e ∧ n ≤ (s.consecutiveBadCycles.lookup e).getD 0 + 1) ∧
      (onReport s n t report).1.consecutiveBadCycles.lookup e =
        if Delivery.Spared e ⟨report, (onReport s n t report).2⟩ then
          some ((s.consecutiveBadCycles.lookup e).getD 0 + 1)
        else none := by
  rw [onReport_eq hn, quarantineAll_eq fun c hc => isBad_of_mem_candidates hc]
  refine ⟨mem_candidates_classify hn t report e, ?_⟩
  rw [lookup_foldl_erase, lookup_classify]
  by_cases hmem : e ∈ (candidates (classify s t.categoryOrder report) n t.counterOrder).map Prod.fst
  · rw [if_pos hmem, if_neg fun h : Delivery.Spared e _ => h.2 hmem]
  · rw [if_neg hmem]
    by_cases h : Bad report e
    · have hspared : Delivery.Spared e
          ⟨report, (candidates (classify s t.categoryOrder report) n t.counterOrder).map Prod.fst⟩ := ⟨h, hmem⟩
      rw [if_pos h, if_pos hspared]
    · rw [if_neg h, if_neg fun h' : Delivery.Spared e _ => h h'.1]

/-- With the threshold 0 nothing is quarantined. -/
theorem onReport_of_zero {n : UInt32} (hn : n = 0) (s : EffectivenessState) (t : Tick) (report : EffectivenessReport) :
    (onReport s n t report).2 = [] := by
  unfold onReport processAutoQuarantine
  dsimp only
  rw [if_pos (.inr hn)]

/-! ## Runs -/

theorem maintenanceTick_of_report {t : Tick} {report : EffectivenessReport} (h : t.report = some report) (n : UInt32)
    (s : EffectivenessState) : maintenanceTick n s t = onReport s n t report := by
  unfold Tick.report at h
  unfold maintenanceTick
  split
  · rename_i herror
    rw [herror] at h
    cases h
  · rename_i hnone
    rw [hnone] at h
    cases h
  · rename_i hsome
    rw [hsome] at h
    cases h
    rfl

/-- **A tick without a report changes nothing.** -/
theorem maintenanceTick_of_none {t : Tick} (h : t.report = none) (n : UInt32) (s : EffectivenessState) :
    maintenanceTick n s t = (s, []) := by
  unfold Tick.report at h
  unfold maintenanceTick
  split
  · rfl
  · rfl
  · rename_i hsome
    rw [hsome] at h
    cases h

theorem run_concat (n : UInt32) (ticks : List Tick) (t : Tick) :
    run n (ticks ++ [t]) = (maintenanceTick n (run n ticks) t).1 := List.foldl_concat _ _ _ _

theorem deliveries_concat (n : UInt32) (s : EffectivenessState) (ticks : List Tick) (t : Tick) :
    deliveries n s (ticks ++ [t]) = deliveries n s ticks ++
      (t.report.map fun report =>
        ⟨report, (maintenanceTick n (ticks.foldl (fun s t => (maintenanceTick n s t).1) s) t).2⟩).toList := by
  induction ticks generalizing s with
  | nil => exact List.append_nil _
  | cons t' ticks ih =>
    rw [List.cons_append, deliveries, deliveries, ih, List.append_assoc]
    rfl

/-- The counter of an entry is how many deliveries in a row have spared it, and below the threshold. -/
structure Counts (n : UInt32) (s : EffectivenessState) (history : List Delivery) (e : Nat) : Prop where
  eq : ((s.consecutiveBadCycles.lookup e).getD 0).toNat = streak (Delivery.Spared e) history
  lt : streak (Delivery.Spared e) history < n.toNat

/-- With the threshold not reached the counter does not wrap. -/
theorem Counts.succ {n : UInt32} {s : EffectivenessState} {history : List Delivery} {e : Nat} (h : Counts n s history e) :
    ((s.consecutiveBadCycles.lookup e).getD 0 + 1).toNat = streak (Delivery.Spared e) history + 1 := by
  have hlt := h.lt
  have hmax := n.toNat_lt
  rw [UInt32.toNat_add, h.eq]
  exact Nat.mod_eq_of_lt (by
    have hone : (1 : UInt32).toNat = 1 := rfl
    omega)

/-- **A delivery keeps the counters.** -/
theorem Counts.deliver {n : UInt32} {s : EffectivenessState} {history : List Delivery} {e : Nat}
    (h : Counts n s history e) (t : Tick) (report : EffectivenessReport) :
    Counts n (onReport s n t report).1 (history ++ [⟨report, (onReport s n t report).2⟩]) e := by
  have hn : 0 < n := UInt32.lt_iff_toNat_lt.mpr (Nat.zero_lt_of_lt h.lt)
  obtain ⟨hquarantined, hlookup⟩ := onReport_spec hn (s := s) t report e
  have hsucc := h.succ
  by_cases hspared : Delivery.Spared e ⟨report, (onReport s n t report).2⟩
  · have hbelow : ¬ n ≤ (s.consecutiveBadCycles.lookup e).getD 0 + 1 := fun hle =>
      hspared.2 (hquarantined.mpr ⟨hspared.1, hle⟩)
    rw [UInt32.le_iff_toNat_le, hsucc] at hbelow
    refine ⟨?_, ?_⟩
    · rw [hlookup, if_pos hspared, streak_concat, if_pos hspared]
      exact hsucc
    · rw [streak_concat, if_pos hspared]
      omega
  · refine ⟨?_, ?_⟩
    · rw [hlookup, if_neg hspared, streak_concat, if_neg hspared]
      rfl
    · rw [streak_concat, if_neg hspared]
      exact Nat.zero_lt_of_lt h.lt

/-- **The counters are the streaks.** -/
theorem run_counts {n : UInt32} (hn : 0 < n.toNat) (ticks : List Tick) (e : Nat) :
    Counts n (run n ticks) (deliveries n .new ticks) e := by
  induction ticks using List.reverseRecOn with
  | nil => exact ⟨rfl, hn⟩
  | append_singleton ticks t ih =>
    rw [run_concat, deliveries_concat]
    cases ht : t.report with
    | none =>
      rw [maintenanceTick_of_none ht, Option.map_none, Option.toList_none, List.append_nil]
      exact ih
    | some report =>
      rw [Option.map_some, Option.toList_some, maintenanceTick_of_report ht, maintenanceTick_of_report ht]
      exact ih.deliver t report

/-- **An entry is quarantined after as many bad deliveries in a row as the threshold asks for.** -/
theorem quarantined_iff (n : UInt32) (ticks : List Tick) (t : Tick) : Correct n ticks t where
  quarantined e := by
    cases ht : t.report with
    | none =>
      rw [maintenanceTick_of_none ht]
      refine ⟨fun h => absurd h List.not_mem_nil, ?_⟩
      rintro ⟨-, ⟨report, hreport, -⟩, -⟩
      cases hreport
    | some report =>
      rw [maintenanceTick_of_report ht]
      have hreport : (∃ r ∈ some report, Bad r e) ↔ Bad report e :=
        ⟨fun ⟨r, hr, hbad⟩ => Option.some.inj hr ▸ hbad, fun hbad => ⟨report, rfl, hbad⟩⟩
      have hstreak : n.toNat - 1 ≤ streak (Delivery.Spared e) (deliveries n .new ticks) ↔
          ∃ front back, deliveries n .new ticks = front ++ back ∧ back.length = n.toNat - 1 ∧
            ∀ d ∈ back, Bad d.report e ∧ e ∉ d.quarantined := le_streak_iff
      rw [hreport, ← hstreak]
      by_cases hn : 0 < n.toNat
      · have hcounts := run_counts hn ticks e
        rw [(onReport_spec (UInt32.lt_iff_toNat_lt.mpr hn) t report e).1, UInt32.le_iff_toNat_le, hcounts.succ]
        constructor
        · exact fun ⟨hbad, hle⟩ => ⟨hn, hbad, by omega⟩
        · exact fun ⟨_, hbad, hle⟩ => ⟨hbad, by omega⟩
      · have hnone := onReport_of_zero (UInt32.toNat_inj.mp (Nat.eq_zero_of_not_pos hn)) (run n ticks) t report
        rw [hnone]
        exact ⟨fun h => absurd h List.not_mem_nil, fun h => absurd h.1 hn⟩
  held h := by rw [maintenanceTick_of_none h]

end Unimatrix.QuarantineStreak
