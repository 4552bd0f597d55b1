import Mathlib.Data.List.Basic

/-!
# Lines with their endings

`split nl` cuts a text behind every `nl`, so that each line but the last ends with one (`Ended`) and the lines one after
the other are the text again (`flatten_split`).

* **`split_eq`**: a text is ended lines and a rest without `nl`, and its lines are these.
* `split_append`: ended lines in front of a text are its first lines; `ended_of_split` and `split_flatten_suffix` take the
  lines of a text apart.
-/

namespace KeptLines

variable {α : Type} [DecidableEq α] (nl : α)

/-- The lines from the middle of one on, of which `line` has been read. -/
def splitFrom : List α → List α → List (List α)
  | line, [] => if line = [] then [] else [line]
  | line, x :: xs => if x = nl then (line ++ [x]) :: splitFrom [] xs else splitFrom (line ++ [x]) xs

/-- The lines. -/
def split (xs : List α) : List (List α) := splitFrom nl [] xs

/-- The line ends with its only `nl`. -/
def Ended (line : List α) : Prop := ∃ content, nl ∉ content ∧ line = content ++ [nl]

variable {nl}

theorem splitFrom_append {content : List α} (h : nl ∉ content) (line xs : List α) :
    splitFrom nl line (content ++ nl :: xs) = (line ++ content ++ [nl]) :: split nl xs := by
  induction content generalizing line with
  | nil => rw [List.nil_append, splitFrom, if_pos rfl, List.append_nil, split]
  | cons x content ih =>
    have hx : x ≠ nl := fun he => h (he ▸ List.mem_cons_self)
    rw [List.cons_append, splitFrom, if_neg hx, ih fun hmem => h (List.mem_cons_of_mem _ hmem)]
    simp only [List.append_assoc, List.cons_append, List.nil_append]

/-- A line that is ended is the first of the text. -/
theorem split_cons {line : List α} (h : Ended nl line) (xs : List α) :
    split nl (line ++ xs) = line :: split nl xs := by
  obtain ⟨content, hcontent, rfl⟩ := h
  rw [List.append_assoc, List.singleton_append, split, splitFrom_append hcontent, List.nil_append]

/-- **Ended lines in front of a text are its first lines.** -/
theorem split_append {ls : List (List α)} (h : ∀ l ∈ ls, Ended nl l) (xs : List α) :
    split nl (ls.flatten ++ xs) = ls ++ split nl xs := by
  induction ls with
  | nil => rfl
  | cons l ls ih =>
    rw [List.flatten_cons, List.append_assoc, split_cons (h l List.mem_cons_self),
      ih fun l' hl' => h l' (List.mem_cons_of_mem _ hl'), List.cons_append]

theorem splitFrom_eq {line : List α} (h : nl ∉ line) (xs : List α) :
    ∃ ls rest, (∀ l ∈ ls, Ended nl l) ∧ nl ∉ rest ∧ line ++ xs = ls.flatten ++ rest ∧
      splitFrom nl line xs = ls ++ if rest = [] then [] else [rest] := by
  induction xs generalizing line with
  | nil => exact ⟨[], line, fun _ hl => absurd hl List.not_mem_nil, h, List.append_nil line, rfl⟩
  | cons x xs ih =>
    by_cases hx : x = nl
    · obtain ⟨ls, rest, hls, hrest, hxs, hsplit⟩ := ih (List.not_mem_nil : nl ∉ [])
      rw [List.nil_append] at hxs
      refine ⟨(line ++ [x]) :: ls, rest, fun l hl => ?_, hrest, ?_, ?_⟩
      · rcases List.mem_cons.mp hl with rfl | hl
        · exact ⟨line, h, by rw [hx]⟩
        · exact hls l hl
      · rw [hxs, List.flatten_cons, List.append_assoc, List.append_assoc, List.singleton_append]
      · rw [splitFrom, if_pos hx, hsplit, List.cons_append]
    · have hline : nl ∉ line ++ [x] := by
        rw [List.mem_append, List.mem_singleton, not_or]
        exact ⟨h, fun he => hx he.symm⟩
      obtain ⟨ls, rest, hls, hrest, hxs, hsplit⟩ := ih hline
      refine ⟨ls, rest, hls, hrest, ?_, ?_⟩
      · rw [← hxs, List.append_assoc, List.singleton_append]
      · rw [splitFrom, if_neg hx, hsplit]

/-- **A text is ended lines and a rest**, which is a line of its own unless it is empty. -/
theorem split_eq (nl : α) (xs : List α) :
    ∃ ls rest, (∀ l ∈ ls, Ended nl l) ∧ nl ∉ rest ∧ xs = ls.flatten ++ rest ∧
      split nl xs = ls ++ if rest = [] then [] else [rest] :=
  splitFrom_eq List.not_mem_nil xs

/-- **The lines are the text.** -/
theorem flatten_split (nl : α) (xs : List α) : (split nl xs).flatten = xs := by
  obtain ⟨ls, rest, -, -, hxs, hsplit⟩ := split_eq nl xs
  rw [hsplit, hxs, List.flatten_append]
  congr 1
  split
  · rename_i h
    rw [h, List.flatten_nil]
  · rw [List.flatten_singleton]

/-- The lines before another are ended. -/
theorem ended_of_split {xs : List α} {a b : List (List α)} (h : split nl xs = a ++ b) (hb : b ≠ []) :
    ∀ l ∈ a, Ended nl l := by
  obtain ⟨ls, rest, hls, -, -, hsplit⟩ := split_eq nl xs
  rw [h] at hsplit
  intro l hl
  -- the last line of the text is one of `b`
  have hfront : a <+: ls := by
    rcases List.append_eq_append_iff.mp hsplit with ⟨c, hc, -⟩ | ⟨c, hc, hrest⟩
    · exact ⟨c, hc.symm⟩
    · by_cases hnil : c = []
      · exact ⟨[], by rw [List.append_nil, hc, hnil, List.append_nil]⟩
      · exfalso
        split at hrest
        · exact hnil (List.append_eq_nil_iff.mp hrest.symm).1
        · have hlen := congrArg List.length hrest
          rw [List.length_singleton, List.length_append] at hlen
          have := List.length_pos_iff.mpr hnil
          have := List.length_pos_iff.mpr hb
          omega
  exact hls l (hfront.subset hl)

/-- The lines from one of them on are those of the text from there. -/
theorem split_flatten_suffix {xs : List α} {a b : List (List α)} (h : split nl xs = a ++ b) :
    split nl b.flatten = b := by
  by_cases hb : b = []
  · rw [hb]
    rfl
  · have hxs := flatten_split nl xs
    rw [h, List.flatten_append] at hxs
    rw [← hxs, split_append (ended_of_split h hb)] at h
    exact List.append_cancel_left h

/-- Some lines in a row are the lines of what they say. -/
theorem split_flatten_infix {xs : List α} {a b c : List (List α)} (h : split nl xs = a ++ (b ++ c)) :
    split nl b.flatten = b := by
  have hbc := split_flatten_suffix h
  by_cases hc : c = []
  · rw [hc, List.append_nil] at hbc
    exact hbc
  · have hb := split_append (ended_of_split hbc hc) []
    rw [List.append_nil] at hb
    rw [hb]
    exact List.append_nil b

/-- A line has no `nl` but at its end. -/
theorem ended_or_notMem {xs line : List α} (h : line ∈ split nl xs) : Ended nl line ∨ nl ∉ line := by
  obtain ⟨ls, rest, hls, hrest, -, hsplit⟩ := split_eq nl xs
  rw [hsplit, List.mem_append] at h
  rcases h with h | h
  · exact .inl (hls line h)
  · split at h
    · cases h
    · obtain rfl := List.mem_singleton.mp h
      exact .inr hrest

end KeptLines
