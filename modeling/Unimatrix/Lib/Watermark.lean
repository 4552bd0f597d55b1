import Mathlib.Data.List.Basic
import Mathlib.Order.Lattice

/-!
# Reading a log in batches, up to a watermark

A log lists its rows by an ascending key. `batch key n w l` is what `WHERE key > w ORDER BY key LIMIT n` selects, and
`highest key w b` the watermark after it.

* **`mem_batch_iff`**: a batch is what lies between the two watermarks.
* `Covered` says of some batches that each row up to the watermark is in one of them, and the others in none. The next batch
  keeps it (**`Covered.next`**), and so does a new row at the end of the log (`Covered.append`).
-/

namespace Watermark

variable {α : Type} (key : α → Nat)

/-- The next rows above the watermark. -/
def batch (n w : Nat) (l : List α) : List α := (l.filter fun a => w < key a).take n

/-- The highest key, or the watermark if there is none above it. -/
def highest (w : Nat) (b : List α) : Nat := b.foldl (fun m a => if m < key a then key a else m) w

theorem le_highest (w : Nat) (b : List α) : w ≤ highest key w b ∧ ∀ a ∈ b, key a ≤ highest key w b := by
  induction b generalizing w with
  | nil => exact ⟨le_rfl, fun a ha => absurd ha List.not_mem_nil⟩
  | cons c b ih =>
    obtain ⟨hw, hb⟩ := ih (if w < key c then key c else w)
    have hnext : w ≤ (if w < key c then key c else w) ∧ key c ≤ if w < key c then key c else w := by
      split <;> omega
    refine ⟨hnext.1.trans hw, fun a ha => ?_⟩
    rcases List.mem_cons.mp ha with rfl | ha
    · exact hnext.2.trans hw
    · exact hb a ha

theorem highest_eq (w : Nat) (b : List α) : highest key w b = w ∨ ∃ a ∈ b, highest key w b = key a := by
  induction b generalizing w with
  | nil => exact .inl rfl
  | cons c b ih =>
    have hcons : highest key w (c :: b) = highest key (if w < key c then key c else w) b := rfl
    rw [hcons]
    rcases ih (if w < key c then key c else w) with h | ⟨a, ha, h⟩
    · rw [h]
      split
      · exact .inr ⟨c, List.mem_cons_self, rfl⟩
      · exact .inl rfl
    · exact .inr ⟨a, List.mem_cons_of_mem c ha, h⟩

variable {key}

/-- **A batch is what lies between the watermarks.** -/
theorem mem_batch_iff {l : List α} (hl : l.Pairwise fun a b => key a < key b) {n w : Nat} {a : α} :
    a ∈ batch key n w l ↔ a ∈ l ∧ w < key a ∧ key a ≤ highest key w (batch key n w l) := by
  constructor
  · intro ha
    obtain ⟨hmem, hlt⟩ := List.mem_filter.mp (List.mem_of_mem_take ha)
    exact ⟨hmem, of_decide_eq_true hlt, (le_highest key w _).2 a ha⟩
  · rintro ⟨hmem, hlt, hle⟩
    have habove : a ∈ l.filter fun a => w < key a := List.mem_filter.mpr ⟨hmem, decide_eq_true hlt⟩
    rw [← List.take_append_drop n (l.filter fun a => w < key a), List.mem_append] at habove
    refine habove.resolve_right fun hrest => ?_
    -- a row that is left out has a higher key than all of the batch
    have hsorted := hl.filter fun a => w < key a
    rw [← List.take_append_drop n (l.filter fun a => w < key a)] at hsorted
    rcases highest_eq key w (batch key n w l) with heq | ⟨b, hb, heq⟩
    · omega
    · have := (List.pairwise_append.mp hsorted).2.2 b hb a hrest
      omega

variable [DecidableEq α]

/-- Each row up to the watermark is in one of the batches, and the others are in none. -/
structure Covered (key : α → Nat) (l : List α) (batches : List (List α)) (w : Nat) : Prop where
  once : ∀ a ∈ l, batches.countP (fun b => a ∈ b) = if key a ≤ w then 1 else 0
  within : ∀ b ∈ batches, ∀ a ∈ b, a ∈ l
  reached : w = 0 ∨ ∃ a ∈ l, w = key a

theorem covered_start {l : List α} (h : ∀ a ∈ l, 0 < key a) : Covered key l [] 0 where
  once a ha := (if_neg (Nat.not_le.mpr (h a ha))).symm
  within _ hb := absurd hb List.not_mem_nil
  reached := .inl rfl

/-- **The next batch.** -/
theorem Covered.next {l : List α} {batches : List (List α)} {w : Nat} (h : Covered key l batches w)
    (hl : l.Pairwise fun a b => key a < key b) (n : Nat) :
    Covered key l (batches ++ [batch key n w l]) (highest key w (batch key n w l)) := by
  have hle := (le_highest key w (batch key n w l)).1
  refine ⟨fun a ha => ?_, fun b hb a ha => ?_, ?_⟩
  · have hiff := mem_batch_iff hl (n := n) (w := w) (a := a)
    rw [List.countP_append, h.once a ha, List.countP_singleton]
    by_cases hlow : key a ≤ w
    · have hnot : a ∉ batch key n w l := fun hmem => absurd (hiff.mp hmem).2.1 (Nat.not_lt.mpr hlow)
      rw [if_pos hlow, if_neg fun hmem => hnot (of_decide_eq_true hmem), if_pos (hlow.trans hle)]
    · rw [if_neg hlow, Nat.zero_add]
      by_cases hhigh : key a ≤ highest key w (batch key n w l)
      · rw [if_pos hhigh, if_pos (decide_eq_true (hiff.mpr ⟨ha, Nat.not_le.mp hlow, hhigh⟩))]
      · rw [if_neg hhigh, if_neg fun hmem => hhigh (hiff.mp (of_decide_eq_true hmem)).2.2]
  · rcases List.mem_append.mp hb with hb | hb
    · exact h.within b hb a ha
    · rw [List.mem_singleton.mp hb] at ha
      exact (mem_batch_iff hl).mp ha |>.1
  · rcases highest_eq key w (batch key n w l) with heq | ⟨a, ha, heq⟩
    · rw [heq]
      exact h.reached
    · exact .inr ⟨a, ((mem_batch_iff hl).mp ha).1, heq⟩

/-- A row is added behind the others. -/
theorem Covered.append {l : List α} {batches : List (List α)} {w : Nat} (h : Covered key l batches w) {a : α}
    (hpos : 0 < key a) (hlast : ∀ b ∈ l, key b < key a) : Covered key (l ++ [a]) batches w := by
  refine ⟨fun b hb => ?_, fun b hb c hc => List.mem_append_left _ (h.within b hb c hc), ?_⟩
  · rcases List.mem_append.mp hb with hb | hb
    · exact h.once b hb
    · rw [List.mem_singleton.mp hb]
      have hahead : ¬ key a ≤ w := by
        rcases h.reached with rfl | ⟨c, hc, rfl⟩
        · omega
        · exact Nat.not_le.mpr (hlast c hc)
      rw [if_neg hahead, List.countP_eq_zero]
      intro c hc hmem
      exact lt_irrefl _ (hlast a (h.within c hc a (of_decide_eq_true hmem)))
  · exact h.reached.imp_right fun ⟨c, hc, heq⟩ => ⟨c, List.mem_append_left _ hc, heq⟩

end Watermark
