import Mathlib.Algebra.BigOperators.Group.List.Basic
import Mathlib.Algebra.GroupWithZero.Nat
import Mathlib.Data.List.Infix

/-!
# The longest prefix within a budget

`spend size cap used l` takes elements from the front of `l` as long as their sizes and `used` are at most `cap`, and
stops at the first that does not fit. `LongestWithin size cap l out` says what that is: of the prefixes of `l` that fit,
`out` is the longest (**`spend_longest`**), and there is only one (`LongestWithin.unique`).
-/

namespace Budget

variable {α : Type} (size : α → Nat) (cap : Nat)

/-- The size of some elements together. -/
def total (l : List α) : Nat := (l.map size).sum

/-- The elements that are taken, when `used` is spent. -/
def spend : Nat → List α → List α
  | _, [] => []
  | used, a :: l => if cap < used + size a then [] else a :: spend (used + size a) l

/-- `out` is the longest prefix of `l` within the budget. -/
structure LongestWithin (l out : List α) : Prop where
  isPrefix : out <+: l
  within : total size out ≤ cap
  longest : ∀ p, p <+: l → total size p ≤ cap → p <+: out

@[simp] theorem total_nil : total size [] = 0 := rfl

@[simp] theorem total_cons (a : α) (l : List α) : total size (a :: l) = size a + total size l := by
  unfold total
  rw [List.map_cons, List.sum_cons]

theorem total_append (l m : List α) : total size (l ++ m) = total size l + total size m := by
  unfold total
  rw [List.map_append, List.sum_append]

theorem total_reverse (l : List α) : total size l.reverse = total size l := by
  unfold total
  rw [List.map_reverse, List.sum_reverse]

theorem spend_isPrefix (used : Nat) (l : List α) : spend size cap used l <+: l := by
  induction l generalizing used with
  | nil => exact List.prefix_rfl
  | cons a l ih =>
    unfold spend
    split
    · exact List.nil_prefix
    · exact List.cons_prefix_cons.mpr ⟨rfl, ih _⟩

theorem spend_within {used : Nat} (h : used ≤ cap) (l : List α) : used + total size (spend size cap used l) ≤ cap := by
  induction l generalizing used with
  | nil => exact h
  | cons a l ih =>
    unfold spend
    split
    · exact h
    · rename_i hle
      have hrest := ih (not_lt.mp hle)
      rw [total_cons]
      omega

theorem prefix_spend {used : Nat} {p l : List α} (hp : p <+: l) (h : used + total size p ≤ cap) :
    p <+: spend size cap used l := by
  induction l generalizing used p with
  | nil =>
    rw [List.prefix_nil.mp hp]
    exact List.nil_prefix
  | cons a l ih =>
    cases p with
    | nil => exact List.nil_prefix
    | cons b p =>
      obtain ⟨rfl, hrest⟩ := List.cons_prefix_cons.mp hp
      rw [total_cons] at h
      unfold spend
      rw [if_neg (by omega)]
      exact List.cons_prefix_cons.mpr ⟨rfl, ih hrest (by omega)⟩

/-- All is taken where all is within the budget. -/
theorem spend_eq_self {used : Nat} {l : List α} (h : used + total size l ≤ cap) : spend size cap used l = l :=
  (spend_isPrefix size cap used l).eq_of_length_le (prefix_spend size cap List.prefix_rfl h).length_le

/-- An element is taken if it is within the budget with all before it. -/
theorem lt_length_spend_iff {used i : Nat} {l : List α} (hi : i < l.length) :
    i < (spend size cap used l).length ↔ used + total size (l.take (i + 1)) ≤ cap := by
  induction l generalizing used i with
  | nil => cases hi
  | cons a l ih =>
    rw [spend, List.take_succ_cons, total_cons, ← Nat.add_assoc]
    split
    · rename_i hover
      rw [List.length_nil]
      constructor
      · exact fun h => absurd h (Nat.not_lt_zero i)
      · intro h
        omega
    · rename_i hfits
      cases i with
      | zero => simpa using hfits
      | succ i =>
        rw [List.length_cons, Nat.succ_lt_succ_iff]
        exact ih (Nat.lt_of_succ_lt_succ hi)

/-- **What is taken is the longest prefix within the budget.** -/
theorem spend_longest (l : List α) : LongestWithin size cap l (spend size cap 0 l) where
  isPrefix := spend_isPrefix size cap 0 l
  within := by
    have h := spend_within size cap (Nat.zero_le cap) l
    rwa [Nat.zero_add] at h
  longest p hp h := prefix_spend size cap hp (by rwa [Nat.zero_add])

variable {size cap}

theorem LongestWithin.unique {l out out' : List α} (h : LongestWithin size cap l out)
    (h' : LongestWithin size cap l out') : out = out' :=
  (h'.longest out h.isPrefix h.within).eq_of_length_le (h.longest out' h'.isPrefix h'.within).length_le

/-- All is taken exactly where all is within the budget. -/
theorem LongestWithin.eq_iff {l out : List α} (h : LongestWithin size cap l out) : out = l ↔ total size l ≤ cap := by
  refine ⟨fun he => he ▸ h.within, fun hle => ?_⟩
  exact h.isPrefix.eq_of_length_le (h.longest l List.prefix_rfl hle).length_le

end Budget
