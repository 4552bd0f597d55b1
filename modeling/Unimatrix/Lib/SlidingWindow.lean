import Mathlib.Data.Nat.Count
import Mathlib.Order.Bounds.Basic

/-!
# The fullest window

Two pointers go over a sequence that does not decrease: where the right one stands, the left one is moved on until no
more than `w` lies between them, and the longest such stretch is kept.

**`isGreatest_maxInWindow`**: its length is how many fall into the fullest window of width `w`, wherever that lies.
-/

namespace SlidingWindow

variable (x : Nat → Nat) (w : Nat)

/-- The left end moves on while the window is too wide, at most as far as the right one. -/
def advance (right : Nat) : Nat → Nat → Nat
  | 0, left => left
  | n + 1, left => if w < x right - x left then advance right n (left + 1) else left

/-- The left end, and the longest stretch so far. -/
structure Scan where
  left : Nat
  best : Nat

/-- The right end moves on by one. -/
def step (s : Scan) (right : Nat) : Scan :=
  let left := advance x w right (right - s.left) s.left
  let count := right - left + 1
  ⟨left, if s.best < count then count else s.best⟩

/-- The longest stretch of the first `n`. -/
def maxInWindow (n : Nat) : Nat := ((List.range n).foldl (step x w) ⟨0, 0⟩).best

/-- How many fall into the window that ends at the `j`-th. -/
def endingAt (j : Nat) : Nat := Nat.count (fun i => x j - x i ≤ w) (j + 1)

/-- How many of the first `n` fall into the window that starts at `t`. -/
def startingAt (n t : Nat) : Nat := Nat.count (fun i => t ≤ x i ∧ x i ≤ t + w) n

variable {x w} {n : Nat}

theorem count_le_count {p q : Nat → Prop} [DecidablePred p] [DecidablePred q] {m : Nat} (h : ∀ i, i < m → p i → q i) :
    Nat.count p m ≤ Nat.count q m := by
  induction m with
  | zero => exact le_rfl
  | succ m ih =>
    rw [Nat.count_succ, Nat.count_succ]
    have hle := ih fun i hi => h i (hi.trans (Nat.lt_succ_self m))
    have hlast : (if p m then 1 else 0) ≤ if q m then 1 else 0 := by
      by_cases hp : p m
      · rw [if_pos hp, if_pos (h m (Nat.lt_succ_self m) hp)]
      · rw [if_neg hp]
        exact Nat.zero_le _
    exact Nat.add_le_add hle hlast

/-- What holds from `l` on, and not before, holds of all but `l`. -/
theorem count_eq_sub {p : Nat → Prop} [DecidablePred p] {l m : Nat} (hbefore : ∀ i, i < l → ¬ p i)
    (hfrom : ∀ i, l ≤ i → i < m → p i) : Nat.count p m = m - l := by
  induction m with
  | zero => simp
  | succ m ih =>
    rw [Nat.count_succ, ih fun i hl hi => hfrom i hl (hi.trans (Nat.lt_succ_self m))]
    by_cases hm : l ≤ m
    · rw [if_pos (hfrom m hm (Nat.lt_succ_self m))]
      omega
    · rw [if_neg (hbefore m (Nat.lt_of_not_le hm))]
      omega

/-- The left end stops at the first that is close enough. -/
theorem advance_spec (right k left : Nat) (hk : left + k = right) :
    left ≤ advance x w right k left ∧ advance x w right k left ≤ right ∧
      (∀ i, left ≤ i → i < advance x w right k left → w < x right - x i) ∧
        x right - x (advance x w right k left) ≤ w := by
  induction k generalizing left with
  | zero =>
    obtain rfl : left = right := hk
    refine ⟨le_rfl, le_rfl, fun i hl hi => absurd hi (Nat.not_lt.mpr hl), ?_⟩
    simp [advance]
  | succ k ih =>
    by_cases hwide : w < x right - x left
    · have hstep : advance x w right (k + 1) left = advance x w right k (left + 1) := if_pos hwide
      obtain ⟨hle, hright, hskip, hfits⟩ := ih (left + 1) (by omega)
      rw [hstep]
      refine ⟨by omega, hright, fun i hl hi => ?_, hfits⟩
      rcases Nat.eq_or_lt_of_le hl with rfl | hlt
      · exact hwide
      · exact hskip i hlt hi
    · have hstop : advance x w right (k + 1) left = left := if_neg hwide
      rw [hstop]
      exact ⟨le_rfl, by omega, fun i hl hi => absurd hi (Nat.not_lt.mpr hl), Nat.not_lt.mp hwide⟩

/-- What the scan knows of the first `k`. -/
structure Inv (x : Nat → Nat) (w n k : Nat) (s : Scan) : Prop where
  left_le : s.left ≤ k
  /-- No later window reaches back beyond the left end. -/
  skipped : ∀ i, i < s.left → ∀ j, k ≤ j + 1 → j < n → w < x j - x i
  upper : ∀ j, j < k → endingAt x w j ≤ s.best
  attained : s.best = 0 ∧ k = 0 ∨ ∃ j, j < k ∧ endingAt x w j = s.best

/-- One step of the right end. -/
theorem Inv.step {k : Nat} {s : Scan} (hx : MonotoneOn x (Set.Iio n)) (h : Inv x w n k s) (hk : k < n) :
    Inv x w n (k + 1) (step x w s k) := by
  have hspec := advance_spec (x := x) (w := w) k (k - s.left) s.left (Nat.add_sub_cancel' h.left_le)
  set left := advance x w k (k - s.left) s.left with hleft
  obtain ⟨-, hright, hskip, hfits⟩ := hspec
  -- Those before the left end are too far from the right one, as the scan knew or has just seen.
  have hfar (i : Nat) (hi : i < left) : w < x k - x i := by
    by_cases hold : i < s.left
    · exact h.skipped i hold k (Nat.le_succ k) hk
    · exact hskip i (Nat.le_of_not_lt hold) hi
  have hcount : endingAt x w k = k - left + 1 := by
    have hnear (i : Nat) (hl : left ≤ i) (hi : i < k + 1) : x k - x i ≤ w := by
      have hmono : x left ≤ x i := hx (by simp; omega) (by simp; omega) hl
      omega
    have hall := count_eq_sub (p := fun i => x k - x i ≤ w) (fun i hi => Nat.not_le.mpr (hfar i hi)) hnear
    unfold endingAt
    omega
  have hbest : (SlidingWindow.step x w s k).best = max s.best (endingAt x w k) := by
    rw [hcount]
    unfold SlidingWindow.step
    dsimp only
    rw [← hleft]
    split_ifs with hlt
    · exact (max_eq_right hlt.le).symm
    · exact (max_eq_left (Nat.not_lt.mp hlt)).symm
  refine ⟨hright.trans (Nat.le_succ k), fun i hi j hj hjn => ?_, fun j hj => ?_, ?_⟩
  · have hmono : x k ≤ x j := hx hk hjn (by omega)
    have := hfar i hi
    omega
  · rw [hbest]
    rcases Nat.lt_succ_iff_lt_or_eq.mp hj with hlt | rfl
    · exact (h.upper j hlt).trans (le_max_left _ _)
    · exact le_max_right _ _
  · right
    rw [hbest]
    rcases le_total (endingAt x w k) s.best with hle | hle
    · rw [max_eq_left hle]
      rcases h.attained with ⟨hzero, -⟩ | ⟨j, hj, heq⟩
      · have hpos : 0 < endingAt x w k := by omega
        omega
      · exact ⟨j, hj.trans (Nat.lt_succ_self k), heq⟩
    · rw [max_eq_right hle]
      exact ⟨k, Nat.lt_succ_self k, rfl⟩

theorem inv_foldl (hx : MonotoneOn x (Set.Iio n)) {k : Nat} (hk : k ≤ n) :
    Inv x w n k ((List.range k).foldl (step x w) ⟨0, 0⟩) := by
  induction k with
  | zero =>
    have hnone (i : Nat) (hi : i < 0) {P : Prop} : P := absurd hi (Nat.not_lt_zero i)
    exact ⟨le_rfl, fun i hi => hnone i hi, fun j hj => hnone j hj, .inl ⟨rfl, rfl⟩⟩
  | succ k ih =>
    rw [List.range_succ, List.foldl_append]
    exact (ih (Nat.le_of_succ_le hk)).step hx hk

/-- A window that starts somewhere holds no more than the one that ends at the last that is in it. -/
theorem startingAt_le (t n : Nat) : startingAt x w n t = 0 ∨ ∃ j, j < n ∧ startingAt x w n t ≤ endingAt x w j := by
  induction n with
  | zero => exact .inl rfl
  | succ n ih =>
    by_cases hn : t ≤ x n ∧ x n ≤ t + w
    · refine .inr ⟨n, Nat.lt_succ_self n, count_le_count fun i _ hi => ?_⟩
      omega
    · have hsame : startingAt x w (n + 1) t = startingAt x w n t := by
        unfold startingAt
        rw [Nat.count_succ, if_neg hn, Nat.add_zero]
      rw [hsame]
      rcases ih with hzero | ⟨j, hj, hle⟩
      · exact .inl hzero
      · exact .inr ⟨j, hj.trans (Nat.lt_succ_self n), hle⟩

/-- A window that ends at one of them starts somewhere. -/
theorem endingAt_le (hx : MonotoneOn x (Set.Iio n)) {j : Nat} (hj : j < n) :
    endingAt x w j ≤ startingAt x w n (x j - w) := by
  have hsub : endingAt x w j ≤ startingAt x w (j + 1) (x j - w) := by
    refine count_le_count fun i hi hnear => ?_
    have hmono : x i ≤ x j := hx (by simp; omega) hj (Nat.lt_succ_iff.mp hi)
    omega
  exact hsub.trans (Nat.count_monotone _ hj)

/-- **The longest stretch is the fullest window.** -/
theorem isGreatest_maxInWindow (hx : MonotoneOn x (Set.Iio n)) :
    IsGreatest (Set.range (startingAt x w n)) (maxInWindow x w n) := by
  have hinv := inv_foldl (w := w) hx le_rfl
  have hupper (t : Nat) : startingAt x w n t ≤ maxInWindow x w n := by
    rcases startingAt_le t n with hzero | ⟨j, hj, hle⟩
    · rw [hzero]
      exact Nat.zero_le _
    · exact hle.trans (hinv.upper j hj)
  refine ⟨?_, ?_⟩
  · rcases hinv.attained with ⟨hzero, hn⟩ | ⟨j, hj, heq⟩
    · subst hn
      exact ⟨0, rfl⟩
    · have hbest : maxInWindow x w n = endingAt x w j := heq.symm
      refine ⟨x j - w, le_antisymm (hupper _) ?_⟩
      rw [hbest]
      exact endingAt_le hx hj
  · rintro _ ⟨t, rfl⟩
    exact hupper t

/-- The places of a list, and the list. -/
theorem count_getD {p : Nat → Prop} [DecidablePred p] (l : List Nat) :
    Nat.count (fun i => p (l.getD i 0)) l.length = l.countP fun a => decide (p a) := by
  induction l with
  | nil => rfl
  | cons a l ih =>
    rw [List.length_cons, Nat.count_succ', List.countP_cons]
    simp only [List.getD_cons_succ, List.getD_cons_zero, decide_eq_true_eq]
    rw [ih]

end SlidingWindow
