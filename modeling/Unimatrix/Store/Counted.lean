import Unimatrix.Lib.Machine
import Unimatrix.Store.Changes

/-!
# The counters over whole runs

`Counted` says that each status counter is the number of rows holding the status and that no decrement
was ever cut at 0. A step moves the counters as it moves the rows: `Recount.read` against
`HashMap.count_insert_replace`.

* **`run_counted`**: after every run of the operations, the counters are the counts, the ids handed out
  grow, and the last one is `next_entry_id`'s bound on them all.
* `run_no_overflow`: no counter comes near `u64::MAX`.
-/

namespace Unimatrix

open HashMap Relation

namespace Store

/-- How many rows hold a status. -/
def statusCount (s : Store) (st : Status) : Nat := s.entries.count fun row => row.status = st

/-- The counter invariant. -/
structure Counted (s : Store) : Prop where
  counts : ∀ st, s.counters.read (statusCounterKey st) = s.statusCount st
  unfloored : s.counters.floored = false

theorem empty_counted : empty.Counted where
  counts st := by cases st <;> decide
  unfloored := rfl

theorem statusCounterKey_inj {st st' : Status} : statusCounterKey st = statusCounterKey st' ↔
    st = st' := by
  cases st <;> cases st' <;> decide

/-! ## One step -/

/-- The counter of the status left goes down, that of the status entered up. -/
theorem Recount.read {c c' : Counters} {old new : Status} (h : Recount c old new c')
    (hpos : 0 < c.read (statusCounterKey old)) (st : Status) :
    c'.read (statusCounterKey st) + (if old = st then 1 else 0) =
      c.read (statusCounterKey st) + if new = st then 1 else 0 := by
  cases h with
  | kept heq => rw [heq]
  | moved =>
    rw [Counters.read_increment, Counters.read_decrement, Counters.read_decrement]
    simp only [statusCounterKey_inj]
    by_cases ho : old = st
    · by_cases hn : new = st
      · subst ho hn
        simp only [↓reduceIte]
        omega
      · subst ho
        simp only [↓reduceIte, hn, Ne.symm hn]
        omega
    · by_cases hn : new = st
      · subst hn
        simp [ho, Ne.symm ho]
      · simp [ho, hn, Ne.symm ho, Ne.symm hn]

theorem Recount.floored {c c' : Counters} {old new : Status} (h : Recount c old new c')
    (hpos : 0 < c.read (statusCounterKey old)) (hc : c.floored = false) : c'.floored = false := by
  cases h with
  | kept => exact hc
  | moved =>
    rw [Counters.floored_increment, Counters.floored_decrement, hc]
    simpa using Nat.one_le_iff_ne_zero.mp hpos

/-- The counter of a row's status is positive. -/
theorem Counted.read_pos {s : Store} (h : s.Counted) {id : Nat} {row : EntryRow}
    (hl : s.entries.lookup id = some row) : 0 < s.counters.read (statusCounterKey row.status) := by
  rw [h.counts]
  exact count_pos hl (by simp)

/-- A row is replaced. -/
theorem Counted.replace {s s' : Store} (h : s.Counted) {id : Nat} {row row' : EntryRow}
    (hl : s.entries.lookup id = some row) (he : s'.entries = s.entries.insert id row')
    (hc : Recount s.counters row.status row'.status s'.counters) : s'.Counted := by
  have hpos := h.read_pos hl
  constructor
  · intro st
    have hcount := count_insert_replace hl row' fun r => r.status = st
    have hread := hc.read hpos st
    have hold := h.counts st
    unfold statusCount at hold ⊢
    simp only [decide_eq_true_eq] at hcount
    rw [he]
    omega
  · exact hc.floored hpos h.unfloored

/-- A row is created. -/
theorem Counted.create {s s' : Store} (h : s.Counted) {id : Nat} {row : EntryRow}
    (hl : s.entries.lookup id = none) (he : s'.entries = s.entries.insert id row)
    (hc : s'.counters = s.counters.increment (statusCounterKey row.status) 1) : s'.Counted := by
  constructor
  · intro st
    have hcount := count_insert_new hl row fun r => r.status = st
    have hold := h.counts st
    unfold statusCount at hold ⊢
    rw [he, hc, Counters.read_increment, hcount]
    simp only [statusCounterKey_inj, decide_eq_true_eq]
    by_cases hst : st = row.status
    · subst hst
      simp [hold]
    · simp [hst, Ne.symm hst, hold]
  · rw [hc]
    exact h.unfloored

/-- A row is removed. -/
theorem Counted.remove {s s' : Store} (h : s.Counted) {id : Nat} {row : EntryRow}
    (hl : s.entries.lookup id = some row) (he : s'.entries = s.entries.erase id)
    (hc : s'.counters = s.counters.decrement (statusCounterKey row.status) 1) : s'.Counted := by
  have hpos := h.read_pos hl
  constructor
  · intro st
    have hcount := count_erase hl fun r => r.status = st
    have hold := h.counts st
    unfold statusCount at hold ⊢
    rw [he, hc, Counters.read_decrement]
    simp only [statusCounterKey_inj, decide_eq_true_eq] at hcount ⊢
    by_cases hst : st = row.status
    · subst hst
      simp only [↓reduceIte] at hcount ⊢
      omega
    · simp only [hst, Ne.symm hst, ↓reduceIte] at hcount ⊢
      omega
  · rw [hc, Counters.floored_decrement, h.unfloored]
    simpa using Nat.one_le_iff_ne_zero.mp hpos

/-- The counters of the rows stand when an id is handed out. -/
theorem Counted.alloc {s s' : Store} (h : s.Counted) {id : Nat}
    (hn : s.counters.next "next_entry_id" = .ok (id, s'.counters)) (he : s'.entries = s.entries) :
    s'.Counted := by
  obtain ⟨-, -, hc⟩ := Counters.next_eq hn
  constructor
  · intro st
    unfold statusCount
    rw [hc, Counters.read_set, if_neg (Ne.symm (statusCounterKey_ne_next st)), he]
    exact h.counts st
  · rw [hc]
    exact h.unfloored

/-- **Every step keeps the counters.** -/
theorem Change.counted {sha256 : Digest} {s s' : Store} (h : Change sha256 s s') (hinv : s.Counted) :
    s'.Counted := by
  cases h with
  | append h =>
    cases h with
    | same he hc =>
      refine ⟨fun st => ?_, ?_⟩
      · unfold statusCount
        rw [he, hc]
        exact hinv.counts st
      · rw [hc]
        exact hinv.unfloored
    | alloc id hn he => exact hinv.alloc hn he
    | edit id row row' hl he _ hc => exact hinv.replace hl he hc
    | create id row hl _ he _ _ hc => exact hinv.create hl he hc
  | rewrite id row row' hl he hc => exact hinv.replace hl he hc
  | remove id row hl he hc => exact hinv.remove hl he hc

theorem Changes.counted {sha256 : Digest} {s s' : Store} (h : Changes sha256 s s')
    (hinv : s.Counted) : s'.Counted := by
  induction h with
  | refl => exact hinv
  | tail _ h ih => exact h.counted ih

/-! ## No overflow -/

theorem Change.nextId_le_max {sha256 : Digest} {s s' : Store} (h : Change sha256 s s')
    (hmax : s.nextId ≤ Counters.maxValue) : s'.nextId ≤ Counters.maxValue := by
  unfold nextId at hmax ⊢
  cases h with
  | append h =>
    cases h with
    | same _ hc => rwa [hc]
    | alloc id hn _ =>
      obtain ⟨-, hid, hc⟩ := Counters.next_eq hn
      rwa [hc, Counters.read_set, if_pos rfl]
    | edit _ _ _ _ _ _ hc => rwa [hc.read_next]
    | create id row _ _ _ _ _ hc =>
      rwa [hc, Counters.read_increment, if_neg (statusCounterKey_ne_next row.status)]
  | rewrite _ _ _ _ _ hc => rwa [hc.read_next]
  | remove id row _ _ hc =>
    rwa [hc, Counters.read_decrement, if_neg (statusCounterKey_ne_next row.status)]

theorem Changes.nextId_le_max {sha256 : Digest} {s s' : Store} (h : Changes sha256 s s')
    (hmax : s.nextId ≤ Counters.maxValue) : s'.nextId ≤ Counters.maxValue := by
  induction h with
  | refl => exact hmax
  | tail _ h ih => exact h.nextId_le_max ih

/-- A bounded table has at most one row for each id up to the bound. -/
theorem Bounded.statusCount_le {s : Store} (h : s.Bounded) (st : Status) :
    s.statusCount st ≤ s.nextId + 1 := by
  have hsub : s.entries.pairs.map Prod.fst ⊆ List.range (s.nextId + 1) := by
    intro id hid
    obtain ⟨⟨i, row⟩, hmem, rfl⟩ := List.mem_map.mp hid
    have hle := h i row (mem_pairs.mp hmem)
    rw [List.mem_range]
    omega
  have hlen := (List.subperm_of_subset (pairs_keys_nodup s.entries) hsub).length_le
  rw [List.length_map, List.length_range] at hlen
  exact Nat.le_trans (count_le_len _ _) hlen

end Store

/-! ## Runs -/

namespace History

open Store

/-- The ids handed out grow and stay within the counter. -/
structure Numbered (h : History) : Prop where
  bounded : ∀ id ∈ h.allocated, id ≤ h.store.nextId
  increasing : h.allocated.Pairwise (· < ·)

theorem Numbered.step {sha256 : Digest} {h : History} {e : Event Op} (hn : h.Numbered)
    (hb : h.store.Bounded) : (h.step sha256 e).Numbered := by
  have hd := @exec_changes sha256 e.now ⟨h.store, e.fault⟩ hb e.op
  have hle := Changes.nextId_le hd.steps
  unfold History.step
  split
  · rename_i id c heq
    rw [heq] at hd hle
    obtain ⟨hlt, hid⟩ := hd.allocated id rfl
    constructor
    · intro i hi
      rcases List.mem_append.mp hi with hi | hi
      · exact Nat.le_trans (hn.bounded i hi) hle
      · rw [List.mem_singleton.mp hi]
        exact hid
    · rw [List.pairwise_append]
      refine ⟨hn.increasing, List.pairwise_singleton _ _, fun i hi j hj => ?_⟩
      rw [List.mem_singleton.mp hj]
      exact Nat.lt_of_le_of_lt (hn.bounded i hi) hlt
  · rename_i r c _ heq
    rw [heq] at hle
    exact ⟨fun i hi => Nat.le_trans (hn.bounded i hi) hle, hn.increasing⟩

theorem run_numbered (sha256 : Digest) (events : List (Event Op)) :
    (run sha256 events).Numbered := by
  induction events using List.reverseRecOn with
  | nil => exact ⟨fun id h => (by cases h), List.Pairwise.nil⟩
  | append_singleton events e ih =>
    rw [run_concat]
    exact ih.step (run_bounded sha256 events)

theorem run_store_counted (sha256 : Digest) (events : List (Event Op)) :
    (run sha256 events).store.Counted := (run_changes sha256 events).counted empty_counted

/-- **The counters of every reachable store are the counts**, without the floor at 0, and no id is
handed out twice. -/
theorem run_counted (sha256 : Digest) (events : List (Event Op)) :
    let h := run sha256 events
    (∀ st, h.store.counters.read (statusCounterKey st) = h.store.statusCount st) ∧
      h.store.counters.floored = false ∧
      (∀ id ∈ h.allocated, id ≤ h.store.counters.read "next_entry_id") ∧
      h.allocated.Pairwise (· < ·) ∧ h.allocated.Nodup := by
  intro h
  have hc := run_store_counted sha256 events
  have hn := run_numbered sha256 events
  refine ⟨hc.counts, hc.unfloored, hn.bounded, hn.increasing, ?_⟩
  exact hn.increasing.imp fun hlt => Nat.ne_of_lt hlt

/-- No increment of a status counter leaves `u64`. -/
theorem run_no_overflow (sha256 : Digest) (events : List (Event Op)) (st : Status) :
    (run sha256 events).store.counters.read (statusCounterKey st) + 1 ≤ Machine.u64Max := by
  have hmax : (run sha256 events).store.nextId ≤ Counters.maxValue :=
    (run_changes sha256 events).nextId_le_max (Nat.zero_le _)
  have hle := (run_bounded sha256 events).statusCount_le st
  rw [(run_store_counted sha256 events).counts st]
  unfold Counters.maxValue at hmax
  unfold Machine.u64Max
  omega

end History

end Unimatrix
