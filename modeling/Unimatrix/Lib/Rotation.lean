import Mathlib.Data.List.Basic
import Mathlib.Data.List.Induction
import Mathlib.Tactic.Common
import Mathlib.Tactic.Ring

/-!
# A log in batches

A log is kept in batches, oldest first, each with the stamp of the element it was begun with. An element goes to the
last batch until that holds `c`; then it begins a batch of its own. Before that, and whether or not a batch is
begun, the oldest are dropped until fewer than `m` are left (`push`).

* `Rotated` describes the batches after a run; **`run_rotated`** is by induction on the run.
* **`run_bounded`**: at most `m` batches of at most `c`. **`run_history`**: what is left are the newest elements, in
  order: all of them up to `c * (m - 1) + 1`, and at least `c * (m - 2) + 1` from then on.
* A batch is dropped when there are `m`, and then the last holds one element (`run_top`). There are `m` for the first
  time after `c * (m - 1) + 1` elements (`length_run_lt`, `length_run_eq`).
* `marks`: the stamps a run can begin a batch with (`run_stamps`).
-/

namespace Rotation

variable {κ α : Type}

/-- Drop the oldest batches until fewer than `m` are left. -/
def trim (m : Nat) (b : List (κ × List α)) : List (κ × List α) := b.drop (b.length + 1 - m)

/-- Put an element into the last batch, or begin one. -/
def append (c : Nat) (b : List (κ × List α)) (e : κ × α) : List (κ × List α) :=
  match b.getLast? with
  | none => b ++ [(e.1, [e.2])]
  | some last =>
    if last.2.length < c then b.dropLast ++ [(last.1, last.2 ++ [e.2])] else b ++ [(e.1, [e.2])]

/-- Put an element into the log. -/
def push (c m : Nat) (b : List (κ × List α)) (e : κ × α) : List (κ × List α) := append c (trim m b) e

/-- The batches after some elements. -/
def run (c m : Nat) (es : List (κ × α)) : List (κ × List α) := es.foldl (push c m) []

/-- The stamps of every `c`-th element. -/
def marks (c : Nat) (es : List (κ × α)) : List κ :=
  ((List.range es.length).filter fun i => c ∣ i).filterMap fun i => es[i]?.map Prod.fst

theorem trim_eq_self {m : Nat} {b : List (κ × List α)} (h : b.length < m) : trim m b = b := by
  have hzero : b.length + 1 - m = 0 := by omega
  unfold trim
  rw [hzero, List.drop_zero]

theorem run_concat (c m : Nat) (es : List (κ × α)) (e : κ × α) :
    run c m (es ++ [e]) = push c m (run c m es) e := by
  unfold run
  rw [List.foldl_concat]

theorem marks_concat (c : Nat) (es : List (κ × α)) (e : κ × α) :
    marks c (es ++ [e]) = marks c es ++ if c ∣ es.length then [e.1] else [] := by
  have hold : ((List.range es.length).filter fun i => c ∣ i).filterMap
      (fun i => (es ++ [e])[i]?.map Prod.fst) = marks c es := by
    unfold marks
    refine List.filterMap_congr fun i hi => ?_
    rw [List.getElem?_append_left (List.mem_range.mp (List.mem_filter.mp hi).1)]
  unfold marks at hold ⊢
  rw [List.length_append, List.length_singleton, List.range_succ, List.filter_append, List.filterMap_append, hold]
  congr 1
  by_cases h : c ∣ es.length <;> simp [h]

theorem marks_append_sublist (c : Nat) (es es' : List (κ × α)) :
    (marks c es).Sublist (marks c (es ++ es')) := by
  induction es' using List.reverseRecOn with
  | nil => rw [List.append_nil]
  | append_singleton es' e ih =>
    rw [← List.append_assoc, marks_concat]
    exact ih.trans (List.sublist_append_left _ _)

theorem marks_sublist (c : Nat) (es : List (κ × α)) : (marks c es).Sublist (es.map Prod.fst) := by
  induction es using List.reverseRecOn with
  | nil => exact List.Sublist.slnil
  | append_singleton es e ih =>
    rw [marks_concat, List.map_append]
    refine ih.append ?_
    split
    · exact List.Sublist.refl _
    · exact List.nil_sublist _

/-- The batches `old` and `last` after the elements `es`, of which `gone` were dropped. -/
structure Rotated (c m : Nat) (es : List (κ × α)) (old : List (κ × List α)) (last : κ × List α)
    (gone : List α) : Prop where
  full : ∀ f ∈ old, f.2.length = c
  last_pos : 0 < last.2.length
  last_le : last.2.length ≤ c
  count : old.length < m
  top : old.length + 1 = m → last.2.length = 1
  history : es.map Prod.snd = gone ++ (old ++ [last]).flatMap Prod.snd
  whole : c ∣ gone.length
  dropped : gone ≠ [] → m ≤ old.length + 2 ∧ c * (m - 1) + 1 < es.length
  stamps : ((old ++ [last]).map Prod.fst).Sublist (marks c es)

namespace Rotated

variable {c m : Nat} {es : List (κ × α)} {old : List (κ × List α)} {last : κ × List α} {gone : List α}

theorem length_flatMap_full (h : ∀ f ∈ old, f.2.length = c) : (old.flatMap Prod.snd).length = c * old.length := by
  induction old with
  | nil => simp
  | cons f old ih =>
    obtain ⟨hf, hold⟩ := List.forall_mem_cons.mp h
    rw [List.flatMap_cons, List.length_append, hf, ih hold, List.length_cons]
    ring

theorem length_eq (h : Rotated c m es old last gone) :
    es.length = gone.length + c * old.length + last.2.length := by
  have hlen := congrArg List.length h.history
  rw [List.length_map, List.length_append, List.flatMap_append, List.length_append,
    length_flatMap_full h.full, List.flatMap_singleton] at hlen
  omega

/-- There is room for a batch, after the oldest were dropped. -/
structure Room (c m : Nat) (es : List (κ × α)) (old : List (κ × List α)) (last : κ × List α)
    (gone : List α) : Prop where
  full : ∀ f ∈ old, f.2.length = c
  last_pos : 0 < last.2.length
  last_le : last.2.length ≤ c
  count : old.length + 1 < m
  history : es.map Prod.snd = gone ++ (old ++ [last]).flatMap Prod.snd
  whole : c ∣ gone.length
  dropped : gone ≠ [] → m ≤ old.length + 2 ∧ c * (m - 1) + 1 ≤ es.length
  stamps : ((old ++ [last]).map Prod.fst).Sublist (marks c es)

/-- **What is dropped**: nothing, or the oldest of `m` batches. -/
theorem trim (h : Rotated c m es old last gone) (hm : 2 ≤ m) :
    (old.length + 1 < m ∧ trim m (old ++ [last]) = old ++ [last] ∧ Room c m es old last gone) ∨
      ∃ f old', old = f :: old' ∧ old.length + 1 = m ∧ Rotation.trim m (old ++ [last]) = old' ++ [last] ∧
        Room c m es old' last (gone ++ f.2) := by
  have hlen : (old ++ [last]).length = old.length + 1 := List.length_append
  have hcount := h.count
  rcases Nat.lt_or_ge (old.length + 1) m with hroom | hfull
  · left
    refine ⟨hroom, trim_eq_self (by omega), h.full, h.last_pos, h.last_le, hroom, h.history, h.whole,
      fun hne => ?_, h.stamps⟩
    exact ⟨(h.dropped hne).1, (h.dropped hne).2.le⟩
  · right
    cases old with
    | nil =>
      rw [List.length_nil] at hfull
      omega
    | cons f old' =>
      rw [List.length_cons] at hfull hcount
      have hone : (f :: old' ++ [last]).length + 1 - m = 1 := by
        rw [hlen, List.length_cons]
        omega
      obtain ⟨hf, hold⟩ := List.forall_mem_cons.mp h.full
      refine ⟨f, old', rfl, by rw [List.length_cons]; omega, ?_, hold, h.last_pos, h.last_le, by omega, ?_, ?_,
        fun _ => ⟨by omega, ?_⟩, ?_⟩
      · unfold Rotation.trim
        rw [hone]
        rfl
      · rw [h.history, List.cons_append, List.flatMap_cons, List.append_assoc]
      · rw [List.length_append, hf]
        exact (Nat.dvd_add_right h.whole).mpr (dvd_refl c)
      · have hes := h.length_eq
        have htop := h.top (by rw [List.length_cons]; omega)
        have hold' : (f :: old').length = m - 1 := by
          rw [List.length_cons]
          omega
        rw [hold', htop] at hes
        omega
      · exact List.Sublist.trans (List.sublist_cons_self _ _) h.stamps

end Rotated

theorem append_concat (c : Nat) (old : List (κ × List α)) (last : κ × List α) (e : κ × α) :
    append c (old ++ [last]) e =
      if last.2.length < c then old ++ [(last.1, last.2 ++ [e.2])] else old ++ [last] ++ [(e.1, [e.2])] := by
  unfold append
  rw [List.getLast?_concat, List.dropLast_concat]

/-- An element for the last batch begins none. -/
theorem map_fst_append_of_room {c : Nat} {b : List (κ × List α)} {last : κ × List α} (h : b.getLast? = some last)
    (hroom : last.2.length < c) (e : κ × α) : (append c b e).map Prod.fst = b.map Prod.fst := by
  have hb : b.dropLast ++ [last] = b := List.dropLast_append_getLast? last h
  rw [← hb, append_concat, if_pos hroom]
  simp

/-- An element takes no batch away. -/
theorem map_fst_append (c : Nat) (b : List (κ × List α)) (e : κ × α) :
    b.map Prod.fst <+: (append c b e).map Prod.fst := by
  cases b using List.reverseRecOn with
  | nil => exact List.nil_prefix
  | append_singleton old last =>
    rw [append_concat]
    split
    · simp
    · exact (List.prefix_append _ _).map Prod.fst

/-- What an element does once there is room. -/
theorem Rotated.Room.append {c m : Nat} {es : List (κ × α)} {old : List (κ × List α)} {last : κ × List α}
    {gone : List α} (h : Room c m es old last gone) (hc : 0 < c) (e : κ × α) :
    ∃ old' last', Rotation.append c (old ++ [last]) e = old' ++ [last'] ∧
      Rotated c m (es ++ [e]) old' last' gone := by
  have hlen : (es ++ [e]).length = es.length + 1 := List.length_append
  have hmap : (es ++ [e]).map Prod.snd = es.map Prod.snd ++ [e.2] := List.map_append
  have hroom := h.count
  rw [append_concat]
  by_cases hlast : last.2.length < c
  · rw [if_pos hlast]
    refine ⟨old, _, rfl, h.full, ?_, ?_, by omega, by omega, ?_, h.whole, fun hne => ?_, ?_⟩
    · rw [List.length_append]
      exact Nat.add_pos_right _ Nat.one_pos
    · rw [List.length_append]
      exact hlast
    · rw [hmap, h.history]
      simp
    · obtain ⟨hm, hes⟩ := h.dropped hne
      rw [hlen]
      exact ⟨hm, by omega⟩
    · rw [marks_concat]
      have hstamps := h.stamps
      rw [List.map_append] at hstamps ⊢
      exact hstamps.trans (List.sublist_append_left _ _)
  · have hfull : last.2.length = c := Nat.le_antisymm h.last_le (Nat.le_of_not_lt hlast)
    rw [if_neg hlast]
    refine ⟨old ++ [last], _, rfl, ?_, Nat.one_pos, hc, ?_, fun _ => rfl, ?_, h.whole, fun hne => ?_, ?_⟩
    · intro f hf
      rcases List.mem_append.mp hf with hf | hf
      · exact h.full f hf
      · rw [List.mem_singleton.mp hf]
        exact hfull
    · rw [List.length_append]
      exact hroom
    · rw [hmap, h.history]
      simp
    · obtain ⟨hm, hes⟩ := h.dropped hne
      rw [hlen, List.length_append]
      exact ⟨by omega, by omega⟩
    · -- the batches before are whole, so this element is a `c`-th one
      have hdvd : c ∣ es.length := by
        have hes := congrArg List.length h.history
        rw [List.length_map, List.length_append, List.flatMap_append, List.length_append,
          length_flatMap_full h.full, List.flatMap_singleton, hfull] at hes
        rw [hes]
        exact (Nat.dvd_add_right h.whole).mpr ((Nat.dvd_add_right (Nat.dvd_mul_right c _)).mpr (dvd_refl c))
      rw [marks_concat, if_pos hdvd, List.map_append]
      exact h.stamps.append (List.Sublist.refl _)

/-! ## Runs -/

section Run

variable {c m : Nat} (hc : 0 < c) (hm : 2 ≤ m)
include hc hm

/-- **The batches after a run.** -/
theorem run_rotated {es : List (κ × α)} (hne : es ≠ []) :
    ∃ old last gone, run c m es = old ++ [last] ∧ Rotated c m es old last gone := by
  induction es using List.reverseRecOn with
  | nil => exact absurd rfl hne
  | append_singleton es e ih =>
    rw [run_concat]
    by_cases hes : es = []
    · subst hes
      have hpush : push c m (run c m []) e = [] ++ [(e.1, [e.2])] := by
        unfold push run trim append
        simp
      refine ⟨[], _, [], hpush, fun f hf => absurd hf List.not_mem_nil, Nat.one_pos, hc, by simp; omega,
        fun _ => rfl, rfl, dvd_zero c, fun h => absurd rfl h, ?_⟩
      have hdvd : c ∣ ([] : List (κ × α)).length := dvd_zero c
      rw [marks_concat, if_pos hdvd]
      exact List.sublist_append_right _ _
    · obtain ⟨old, last, gone, hrun, h⟩ := ih hes
      rw [hrun]
      unfold push
      rcases h.trim hm with ⟨-, htrim, hroom⟩ | ⟨f, old', -, -, htrim, hroom⟩
      · rw [htrim]
        obtain ⟨old', last', happ, h'⟩ := hroom.append hc e
        exact ⟨old', last', gone, happ, h'⟩
      · rw [htrim]
        obtain ⟨old'', last', happ, h'⟩ := hroom.append hc e
        exact ⟨old'', last', gone ++ f.2, happ, h'⟩

/-- **A log stays within its bounds.** -/
theorem run_bounded (es : List (κ × α)) :
    (run c m es).length ≤ m ∧ ∀ f ∈ run c m es, 0 < f.2.length ∧ f.2.length ≤ c := by
  by_cases hne : es = []
  · subst hne
    exact ⟨Nat.zero_le m, fun f hf => absurd hf List.not_mem_nil⟩
  · obtain ⟨old, last, gone, hrun, h⟩ := run_rotated hc hm hne
    rw [hrun, List.length_append]
    refine ⟨h.count, fun f hf => ?_⟩
    rcases List.mem_append.mp hf with hf | hf
    · rw [h.full f hf]
      exact ⟨hc, Nat.le_refl c⟩
    · rw [List.mem_singleton.mp hf]
      exact ⟨h.last_pos, h.last_le⟩

/-- **What is left are the newest elements**: all of them, or at least `c * (m - 2) + 1`. -/
theorem run_history (es : List (κ × α)) :
    ∃ gone, es.map Prod.snd = gone ++ (run c m es).flatMap Prod.snd ∧
      (gone = [] ∨ c * (m - 1) + 1 < es.length ∧
        c * (m - 2) + 1 ≤ ((run c m es).flatMap Prod.snd).length) := by
  by_cases hne : es = []
  · subst hne
    exact ⟨[], rfl, .inl rfl⟩
  · obtain ⟨old, last, gone, hrun, h⟩ := run_rotated hc hm hne
    rw [hrun]
    refine ⟨gone, h.history, ?_⟩
    by_cases hgone : gone = []
    · exact .inl hgone
    · refine .inr ⟨(h.dropped hgone).2, ?_⟩
      have hold : m - 2 ≤ old.length := by
        have hle := (h.dropped hgone).1
        omega
      have hlast := h.last_pos
      rw [List.flatMap_append, List.length_append, Rotated.length_flatMap_full h.full, List.flatMap_singleton]
      exact Nat.add_le_add (Nat.mul_le_mul_left c hold) hlast

/-- With `m` batches the last holds one element. -/
theorem run_top {es : List (κ × α)} (h : (run c m es).length = m) :
    ∃ last, (run c m es).getLast? = some last ∧ last.2.length = 1 := by
  have hne : es ≠ [] := by
    rintro rfl
    have hzero : m = 0 := h.symm
    omega
  obtain ⟨old, last, gone, hrun, hr⟩ := run_rotated hc hm hne
  rw [hrun, List.length_append] at h
  refine ⟨last, ?_, hr.top h⟩
  rw [hrun, List.getLast?_concat]

theorem length_run_lt {es : List (κ × α)} (h : es.length ≤ c * (m - 1)) : (run c m es).length < m := by
  by_cases hne : es = []
  · subst hne
    exact Nat.lt_of_lt_of_le Nat.zero_lt_two hm
  · obtain ⟨old, last, gone, hrun, hr⟩ := run_rotated hc hm hne
    have hlen := hr.length_eq
    have hpos := hr.last_pos
    have hcount := hr.count
    rw [hrun, List.length_append, List.length_singleton]
    by_contra hge
    have hold : old.length = m - 1 := by omega
    rw [hold] at hlen
    omega

/-- **The first time there are `m` batches.** -/
theorem length_run_eq {es : List (κ × α)} (h : es.length = c * (m - 1) + 1) : (run c m es).length = m := by
  have hne : es ≠ [] := by
    rintro rfl
    cases h
  obtain ⟨old, last, gone, hrun, hr⟩ := run_rotated hc hm hne
  have hgone : gone = [] := by
    by_contra hgone
    have hlt := (hr.dropped hgone).2
    omega
  have hlen := hr.length_eq
  have hle := hr.last_le
  have hcount := hr.count
  rw [hgone, List.length_nil, Nat.zero_add] at hlen
  rw [hrun, List.length_append, List.length_singleton]
  by_contra hlt
  have hold : c * old.length ≤ c * (m - 2) := Nat.mul_le_mul_left c (by omega)
  have hstep : c * (m - 2) + c = c * (m - 1) := by
    rw [← Nat.mul_succ]
    congr 1
    omega
  omega

theorem run_stamps (es : List (κ × α)) : ((run c m es).map Prod.fst).Sublist (marks c es) := by
  by_cases hne : es = []
  · subst hne
    exact List.Sublist.slnil
  · obtain ⟨old, last, gone, hrun, h⟩ := run_rotated hc hm hne
    rw [hrun]
    exact h.stamps

end Run

end Rotation
