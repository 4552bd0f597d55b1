import Mathlib.Data.List.Dedup
import Mathlib.Data.List.Pairwise
import Mathlib.Data.List.Perm.Subperm

/-!
# Grouping, ordering and limiting rows

What an SQL query does to a list of rows after it has selected them, where the engine is free to choose.

* `groupBy`: one row for each key. Columns that are not aggregated come from a row of the group that the
  engine picks (`Bare`). **`map_groupBy_perm`** says what the rows are, as far as the key tells.
* `orderBy`: rows in order, equal ones in any order (`Arrangement`).
* `limit`: the first rows; all of them, where the bound is negative. **`first_limit_orderBy`**: the first rows
  of an order are as many of them as asked for, with none left out that comes before one of them.
-/

namespace Query

variable {α β K : Type}

/-! ## Groups -/

/-- The row of a group that the columns outside the key are read from. -/
structure Bare (α : Type) where
  choose : List α → Option α
  choose_mem : ∀ l, l ≠ [] → ∃ a ∈ l, choose l = some a

/-- The first row. -/
def Bare.first : Bare α where
  choose := List.head?
  choose_mem l hl := ⟨l.head hl, List.head_mem hl, List.head?_eq_some_head hl⟩

section GroupBy

variable [DecidableEq K] (key : α → K) (pick : Bare α)

/-- `GROUP BY key`. -/
def groupBy (rows : List α) : List α :=
  (rows.map key).dedup.filterMap fun k => pick.choose (rows.filter fun r => key r = k)

variable {key pick} {rows : List α}

variable (pick) in
theorem choose_group {k : K} (hk : k ∈ rows.map key) :
    ∃ a ∈ rows, key a = k ∧ pick.choose (rows.filter fun r => key r = k) = some a := by
  have hne : (rows.filter fun r => key r = k) ≠ [] := by
    obtain ⟨r, hr, hkey⟩ := List.mem_map.mp hk
    exact List.ne_nil_of_mem (List.mem_filter.mpr ⟨hr, decide_eq_true hkey⟩)
  obtain ⟨a, ha, hchoose⟩ := pick.choose_mem _ hne
  rw [List.mem_filter, decide_eq_true_eq] at ha
  exact ⟨a, ha.1, ha.2, hchoose⟩

/-- The rows shown are rows of the table. -/
theorem mem_of_mem_groupBy {a : α} (h : a ∈ groupBy key pick rows) : a ∈ rows := by
  obtain ⟨k, hk, hchoose⟩ := List.mem_filterMap.mp h
  obtain ⟨b, hb, -, heq⟩ := choose_group pick (List.mem_dedup.mp hk)
  rw [heq] at hchoose
  exact Option.some.inj hchoose ▸ hb

/-- **Each key is shown once.** -/
theorem map_key_groupBy : (groupBy key pick rows).map key = (rows.map key).dedup := by
  unfold groupBy
  rw [List.map_filterMap]
  have hself : ∀ k ∈ (rows.map key).dedup,
      (pick.choose (rows.filter fun r => key r = k)).map key = some k := by
    intro k hk
    obtain ⟨a, -, hkey, heq⟩ := choose_group pick (List.mem_dedup.mp hk)
    rw [heq, Option.map_some, hkey]
  rw [List.filterMap_congr hself, List.filterMap_some]

variable (key pick rows) in
/-- **What is shown**, of whatever the key determines and is determined by. -/
theorem map_groupBy_perm {f : α → β} (hf : ∀ a ∈ rows, ∀ b ∈ rows, key a = key b ↔ f a = f b)
    {p : α → Bool} (hp : ∀ a ∈ rows, ∀ b ∈ rows, key a = key b → p a = p b) {l : List β}
    (hnodup : l.Nodup) (hl : ∀ x, x ∈ l ↔ ∃ a ∈ rows, p a = true ∧ f a = x) :
    (((groupBy key pick rows).filter p).map f).Perm l := by
  have hkeys : ((groupBy key pick rows).map key).Nodup := by
    rw [map_key_groupBy]
    exact List.nodup_dedup _
  refine (List.perm_ext_iff_of_nodup ?_ hnodup).mpr fun x => ?_
  · refine List.Nodup.map_on (fun a ha b hb heq => ?_)
      ((List.Nodup.of_map key hkeys).filter p)
    have ha' := (List.mem_filter.mp ha).1
    have hb' := (List.mem_filter.mp hb).1
    exact List.inj_on_of_nodup_map hkeys ha' hb'
      ((hf a (mem_of_mem_groupBy ha') b (mem_of_mem_groupBy hb')).mpr heq)
  · rw [hl, List.mem_map]
    constructor
    · rintro ⟨a, ha, rfl⟩
      obtain ⟨hmem, hpa⟩ := List.mem_filter.mp ha
      exact ⟨a, mem_of_mem_groupBy hmem, hpa, rfl⟩
    · rintro ⟨a, ha, hpa, rfl⟩
      have hshown : key a ∈ (groupBy key pick rows).map key := by
        rw [map_key_groupBy, List.mem_dedup]
        exact List.mem_map_of_mem ha
      obtain ⟨b, hb, hkey⟩ := List.mem_map.mp hshown
      have hb' := mem_of_mem_groupBy hb
      refine ⟨b, List.mem_filter.mpr ⟨hb, ?_⟩, (hf b hb' a ha).mp hkey⟩
      rw [hp b hb' a ha hkey, hpa]

theorem countP_groupBy {f : α → β} (hf : ∀ a ∈ rows, ∀ b ∈ rows, key a = key b ↔ f a = f b)
    {p : α → Bool} (hp : ∀ a ∈ rows, ∀ b ∈ rows, key a = key b → p a = p b) {l : List β}
    (hnodup : l.Nodup) (hl : ∀ x, x ∈ l ↔ ∃ a ∈ rows, p a = true ∧ f a = x) :
    (groupBy key pick rows).countP p = l.length := by
  rw [← (map_groupBy_perm key pick rows hf hp hnodup hl).length_eq, List.length_map,
    List.countP_eq_length_filter]

end GroupBy

/-! ## Order and limit -/

/-- An order the engine is free to choose. -/
structure Arrangement (α : Type) where
  arrange : List α → List α
  perm : ∀ l, (arrange l).Perm l

/-- The rows as they come. -/
def Arrangement.stored : Arrangement α := ⟨id, fun _ => List.Perm.refl _⟩

/-- `ORDER BY`: rows that are equal by `le` come in any order. -/
def orderBy (o : Arrangement α) (le : α → α → Bool) (rows : List α) : List α :=
  (o.arrange rows).mergeSort le

theorem orderBy_perm (o : Arrangement α) (le : α → α → Bool) (rows : List α) :
    (orderBy o le rows).Perm rows := (List.mergeSort_perm _ le).trans (o.perm rows)

theorem orderBy_pairwise {o : Arrangement α} {le : α → α → Bool}
    (trans : ∀ a b c, le a b = true → le b c = true → le a c = true)
    (total : ∀ a b, (le a b || le b a) = true) (rows : List α) :
    (orderBy o le rows).Pairwise fun a b => le a b = true :=
  List.pairwise_mergeSort trans total _

/-- `LIMIT n`. -/
def limit (n : Int) (rows : List α) : List α := if n < 0 then rows else rows.take n.toNat

theorem limit_of_le {n : Int} {rows : List α} (h : n < 0 ∨ (rows.length : Int) ≤ n) :
    limit n rows = rows := by
  unfold limit
  split
  · rfl
  · exact List.take_of_length_le (by omega)

theorem limit_prefix (n : Int) (rows : List α) : limit n rows <+: rows := by
  unfold limit
  split
  · exact List.prefix_refl _
  · exact List.take_prefix _ _

theorem limit_natCast (n : Nat) (rows : List α) : limit n rows = rows.take n := by
  unfold limit
  rw [if_neg (by omega), Int.toNat_natCast]

/-- Rows that are in strict order come in that order, whatever the engine does. -/
theorem orderBy_eq_of_pairwise {o : Arrangement α} {le : α → α → Bool}
    (trans : ∀ a b c, le a b = true → le b c = true → le a c = true)
    (total : ∀ a b, (le a b || le b a) = true) {rows l : List α} (hperm : l.Perm rows)
    (hstrict : l.Pairwise fun a b => le b a = false) : orderBy o le rows = l := by
  have hl := (orderBy_perm o le rows).trans hperm.symm
  have hle : l.Pairwise fun a b => le a b = true := hstrict.imp fun {a b} h => by simpa [h] using total a b
  refine hl.eq_of_pairwise (fun a b ha hb hab hba => ?_) (orderBy_pairwise trans total rows) hle
  by_contra hne
  have hapart : l.Pairwise fun a b => ¬ (le a b = true ∧ le b a = true) := hstrict.imp fun h => by simp [h]
  have : Std.Symm fun a b => ¬ (le a b = true ∧ le b a = true) := ⟨fun _ _ h hyx => h hyx.symm⟩
  exact hapart.forall (hl.subset ha) hb hne ⟨hab, hba⟩

/-- `l` is `n` of the rows, or all of them, and no other row comes before one of them. -/
structure First (le : α → α → Bool) (n : Nat) (rows l : List α) : Prop where
  subperm : l.Subperm rows
  length : l.length = min n rows.length
  first : ∀ a ∈ l, ∀ b ∈ rows, b ∉ l → le a b = true

/-- **The first rows of an order.** -/
theorem first_limit_orderBy {o : Arrangement α} {le : α → α → Bool}
    (trans : ∀ a b c, le a b = true → le b c = true → le a c = true)
    (total : ∀ a b, (le a b || le b a) = true) (n : Nat) (rows : List α) :
    First le n rows (limit n (orderBy o le rows)) := by
  have hperm := orderBy_perm o le rows
  have hsorted := orderBy_pairwise (o := o) trans total rows
  rw [limit_natCast]
  refine ⟨(List.take_sublist _ _).subperm.trans hperm.subperm, ?_, ?_⟩
  · rw [List.length_take, hperm.length_eq]
  · intro a ha b hb hnot
    have hdrop : b ∈ (orderBy o le rows).drop n := by
      have hmem := hperm.mem_iff.mpr hb
      rw [← List.take_append_drop n (orderBy o le rows), List.mem_append] at hmem
      exact hmem.resolve_left hnot
    rw [← List.take_append_drop n (orderBy o le rows), List.pairwise_append] at hsorted
    exact hsorted.2.2 a ha b hdrop

end Query
