import Mathlib.Data.List.DropRight
import Mathlib.Data.List.Induction

/-!
# Lines that arrive in chunks

`cutFrom sep line xs` are the lines of a text from the middle of one on, of which `line` has been read: each without the
`sep` behind it, and what follows the last of them.

* **`cutFrom_append`**: what is left of one chunk, with the next behind it, is cut as the two at once.
* `cutFrom_snd`: what is left is the text behind the last `sep`.
* `foldl_flatten`: a reader that takes two chunks as it takes them at once takes any number so.
-/

namespace Chunks

section Cut

variable {α : Type} [DecidableEq α] (sep : α)

/-- The lines, and what follows them. -/
def cutFrom : List α → List α → List (List α) × List α
  | line, [] => ([], line)
  | line, x :: xs =>
    if x = sep then
      let r := cutFrom [] xs
      (line :: r.1, r.2)
    else cutFrom (line ++ [x]) xs

variable {sep}

theorem cutFrom_of_notMem {xs : List α} (h : sep ∉ xs) (line : List α) : cutFrom sep line xs = ([], line ++ xs) := by
  induction xs generalizing line with
  | nil => rw [cutFrom, List.append_nil]
  | cons x xs ih =>
    have hx : x ≠ sep := fun he => h (he ▸ List.mem_cons_self)
    rw [cutFrom, if_neg hx, ih fun hmem => h (List.mem_cons_of_mem _ hmem), List.append_assoc, List.singleton_append]

/-- A line that has not ended goes on with what arrives. -/
theorem cutFrom_line {xs : List α} (h : sep ∉ xs) (line ys : List α) :
    cutFrom sep line (xs ++ ys) = cutFrom sep (line ++ xs) ys := by
  induction xs generalizing line with
  | nil => rw [List.nil_append, List.append_nil]
  | cons x xs ih =>
    have hx : x ≠ sep := fun he => h (he ▸ List.mem_cons_self)
    rw [List.cons_append, cutFrom, if_neg hx, ih fun hmem => h (List.mem_cons_of_mem _ hmem), List.append_assoc,
      List.singleton_append]

/-- **Two chunks.** -/
theorem cutFrom_append (line xs ys : List α) :
    cutFrom sep line (xs ++ ys) = ((cutFrom sep line xs).1 ++ (cutFrom sep (cutFrom sep line xs).2 ys).1,
      (cutFrom sep (cutFrom sep line xs).2 ys).2) := by
  induction xs generalizing line with
  | nil => rfl
  | cons x xs ih =>
    rw [List.cons_append, cutFrom, cutFrom]
    split
    · rw [ih, List.cons_append]
    · exact ih _

/-- A line ends at the first `sep`. -/
theorem cutFrom_of_idxOf? {xs : List α} {i : Nat} (h : xs.idxOf? sep = some i) :
    cutFrom sep [] xs = (xs.take i :: (cutFrom sep [] (xs.drop (i + 1))).1, (cutFrom sep [] (xs.drop (i + 1))).2) := by
  obtain ⟨hi, hsep, hfirst⟩ := List.idxOf?_eq_some_iff.mp h
  have hline : sep ∉ xs.take i := by
    intro hmem
    obtain ⟨j, hj, heq⟩ := List.mem_take_iff_getElem.mp hmem
    exact hfirst j (by omega) heq
  have hxs : xs = xs.take i ++ sep :: xs.drop (i + 1) := by
    rw [← hsep, ← List.drop_eq_getElem_cons hi, List.take_append_drop]
  conv_lhs => rw [hxs]
  rw [cutFrom_line hline, List.nil_append, cutFrom, if_pos rfl]

/-- **What is left is the text behind the last `sep`.** -/
theorem cutFrom_snd (xs : List α) : (cutFrom sep [] xs).2 = xs.rtakeWhile (· ≠ sep) := by
  induction xs using List.reverseRecOn with
  | nil => rfl
  | append_singleton xs x ih =>
    rw [cutFrom_append]
    dsimp only
    rw [cutFrom]
    by_cases hx : x = sep
    · rw [if_pos hx, List.rtakeWhile_concat_neg _ _ _ (by simpa using hx)]
      rfl
    · rw [if_neg hx, List.rtakeWhile_concat_pos _ _ _ (by simpa using hx), cutFrom, ih]

/-- What is left is the beginning of a line. -/
theorem cutFrom_rest (xs ys : List α) :
    cutFrom sep [] ((cutFrom sep [] xs).2 ++ ys) = cutFrom sep (cutFrom sep [] xs).2 ys := by
  have hrest : sep ∉ (cutFrom sep [] xs).2 := by
    intro hmem
    rw [cutFrom_snd] at hmem
    simpa using List.mem_rtakeWhile_imp hmem
  rw [cutFrom_line hrest, List.nil_append]

end Cut

/-- A reader that takes two chunks as it takes them at once takes any number of them so. -/
theorem foldl_flatten {σ α : Type} {feed : σ → List α → σ}
    (happend : ∀ s xs ys, feed (feed s xs) ys = feed s (xs ++ ys)) (s : σ) (chunk : List α) (chunks : List (List α)) :
    (chunk :: chunks).foldl feed s = feed s (chunk :: chunks).flatten := by
  induction chunks generalizing chunk with
  | nil => rw [List.flatten_singleton]; rfl
  | cons next chunks ih =>
    have hnext := ih (chunk ++ next)
    rw [List.foldl_cons, ← happend, ← List.foldl_cons, ← List.foldl_cons] at hnext
    rw [hnext, List.flatten_cons, List.flatten_cons, List.flatten_cons, List.append_assoc]

end Chunks
