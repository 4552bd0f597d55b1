import Mathlib.Data.List.TakeWhile

/-!
# Regular expressions with captures

`results r s`: the ways to match `r` from the state `s`, in the order in which a backtracking matcher tries them: the left
alternative before the right one, the longer repetition before the shorter one. The match that counts is the first.
`captures r text` are the matches from left to right, each one beginning where the last one ended or later, for an
expression that does not match the empty text.

* `mem_captures`: a match is the first result at its place.
* `results_plus_seq`: where what follows a repetition cannot begin with a repeated character, only the longest repetition
  is left.
-/

namespace Regex

variable {α : Type}

/-- An expression over classes of characters. -/
inductive Expr (α : Type) where
  | empty
  | cls (p : α → Bool)
  | boundary (isWord : α → Bool)
  | seq (a b : Expr α)
  | alt (a b : Expr α)
  | many (p : α → Bool)
  | group (index : Nat) (a : Expr α)

/-- What a group has matched. -/
structure Capture (α : Type) where
  index : Nat
  start : Nat
  text : List α
  deriving DecidableEq, Repr

/-- A place in a text, with what is before it (the nearest first), and the groups so far (the last first). -/
structure State (α : Type) where
  before : List α
  rest : List α
  groups : List (Capture α)
  deriving DecidableEq, Repr

namespace State

def pos (s : State α) : Nat := s.before.length

/-- `n` characters further. -/
def skip (s : State α) (n : Nat) : State α := ⟨(s.rest.take n).reverse ++ s.before, s.rest.drop n, s.groups⟩

def record (s : State α) (c : Capture α) : State α := ⟨s.before, s.rest, c :: s.groups⟩

/-- What the group has matched last. -/
def capture (s : State α) (index : Nat) : Option (Capture α) := s.groups.find? fun c => c.index = index

@[simp] theorem skip_rest (s : State α) (n : Nat) : (s.skip n).rest = s.rest.drop n := rfl

@[simp] theorem skip_groups (s : State α) (n : Nat) : (s.skip n).groups = s.groups := rfl

@[simp] theorem record_rest (s : State α) (c : Capture α) : (s.record c).rest = s.rest := rfl

@[simp] theorem record_groups (s : State α) (c : Capture α) : (s.record c).groups = c :: s.groups := rfl

@[simp] theorem record_pos (s : State α) (c : Capture α) : (s.record c).pos = s.pos := rfl

theorem skip_zero (s : State α) : s.skip 0 = s := by
  simp [skip]

theorem pos_skip (s : State α) {n : Nat} (h : n ≤ s.rest.length) : (s.skip n).pos = s.pos + n := by
  simp [skip, pos, List.length_take, Nat.min_eq_left h, Nat.add_comm]

theorem skip_skip (s : State α) (m n : Nat) : (s.skip m).skip n = s.skip (m + n) := by
  simp [skip, List.take_add, List.drop_drop]

end State

/-- The ways to repeat `p` from here, the longest first. -/
def repeats (p : α → Bool) (groups : List (Capture α)) : List α → List α → List (State α)
  | before, [] => [⟨before, [], groups⟩]
  | before, c :: rest =>
    if p c then repeats p groups (c :: before) rest ++ [⟨before, c :: rest, groups⟩] else [⟨before, c :: rest, groups⟩]

/-- The ways to match, the preferred ones first. -/
def results : Expr α → State α → List (State α)
  | .empty, s => [s]
  | .cls p, s =>
    match s.rest with
    | [] => []
    | c :: _ => if p c then [s.skip 1] else []
  | .boundary isWord, s => if s.before.head?.any isWord = s.rest.head?.any isWord then [] else [s]
  | .seq a b, s => (results a s).flatMap (results b)
  | .alt a b, s => results a s ++ results b s
  | .many p, s => repeats p s.groups s.before s.rest
  | .group index a, s => (results a s).map fun t => t.record ⟨index, s.pos, s.rest.take (t.pos - s.pos)⟩

/-- A match: where it begins, and the state behind it. -/
structure Match (α : Type) where
  start : Nat
  final : State α
  deriving DecidableEq, Repr

/-- The matches behind the next `skip` characters. -/
def capturesFrom (r : Expr α) : Nat → List α → List α → List (Match α)
  | _, _, [] => []
  | skip + 1, before, c :: rest => capturesFrom r skip (c :: before) rest
  | 0, before, c :: rest =>
    match (results r ⟨before, c :: rest, []⟩).head? with
    | some final => ⟨before.length, final⟩ :: capturesFrom r (final.pos - before.length - 1) (c :: before) rest
    | none => capturesFrom r 0 (c :: before) rest

/-- The matches in a text, from left to right. -/
def captures (r : Expr α) (text : List α) : List (Match α) := capturesFrom r 0 [] text

/-- The state at a place of a text. -/
def stateAt (text : List α) (i : Nat) : State α := ⟨(text.take i).reverse, text.drop i, []⟩

theorem mem_capturesFrom {r : Expr α} {m : Match α} {skip : Nat} {before rest : List α}
    (h : m ∈ capturesFrom r skip before rest) :
    (results r (stateAt (before.reverse ++ rest) m.start)).head? = some m.final := by
  induction rest generalizing skip before with
  | nil => cases h
  | cons c rest ih =>
    have hcons : (c :: before).reverse ++ rest = before.reverse ++ c :: rest := by simp
    cases skip with
    | succ skip =>
      rw [← hcons]
      exact ih h
    | zero =>
      rw [capturesFrom] at h
      split at h
      · rename_i final hhead
        rcases List.mem_cons.mp h with rfl | h
        · have hlen : before.length = before.reverse.length := List.length_reverse.symm
          rw [stateAt, hlen, List.take_left, List.drop_left, List.reverse_reverse]
          exact hhead
        · rw [← hcons]
          exact ih h
      · rw [← hcons]
        exact ih h

/-- **A match is the first result at its place.** -/
theorem mem_captures {r : Expr α} {m : Match α} {text : List α} (h : m ∈ captures r text) :
    (results r (stateAt text m.start)).head? = some m.final :=
  mem_capturesFrom h

/-! ## Alternatives and repetitions -/

/-- One of the expressions, the first ones preferred. -/
def oneOf : List (Expr α) → Expr α
  | [] => .cls fun _ => false
  | a :: as => .alt a (oneOf as)

theorem results_oneOf (as : List (Expr α)) (s : State α) : results (oneOf as) s = as.flatMap fun a => results a s := by
  induction as with
  | nil => cases h : s.rest <;> simp [oneOf, results, h]
  | cons a as ih => rw [oneOf, results, ih, List.flatMap_cons]

/-- One or more. -/
def plus (p : α → Bool) : Expr α := .seq (.cls p) (.many p)

/-- The characters in front that satisfy `p`. -/
def run (p : α → Bool) (s : State α) : Nat := (s.rest.takeWhile p).length

theorem repeats_eq (p : α → Bool) (groups : List (Capture α)) (before rest : List α) :
    ∃ shorter, repeats p groups before rest =
        State.skip ⟨before, rest, groups⟩ (rest.takeWhile p).length :: shorter ∧
      ∀ t ∈ shorter, t.rest.head?.any p := by
  induction rest generalizing before with
  | nil => exact ⟨[], rfl, by simp⟩
  | cons c rest ih =>
    by_cases hc : p c
    · obtain ⟨shorter, heq, hshorter⟩ := ih (c :: before)
      refine ⟨shorter ++ [⟨before, c :: rest, groups⟩], ?_, ?_⟩
      · rw [repeats, if_pos hc, heq, List.takeWhile_cons_of_pos hc]
        simp [State.skip]
      · intro t ht
        rcases List.mem_append.mp ht with ht | ht
        · exact hshorter t ht
        · rw [List.mem_singleton.mp ht]
          exact hc
    · refine ⟨[], ?_, by simp⟩
      rw [repeats, if_neg hc, List.takeWhile_cons_of_neg hc]
      rfl

theorem repeats_groups {p : α → Bool} {groups : List (Capture α)} {before rest : List α} {t : State α}
    (h : t ∈ repeats p groups before rest) : t.groups = groups := by
  induction rest generalizing before with
  | nil =>
    rw [List.mem_singleton.mp h]
  | cons c rest ih =>
    rw [repeats] at h
    split at h
    · rcases List.mem_append.mp h with h | h
      · exact ih h
      · rw [List.mem_singleton.mp h]
    · rw [List.mem_singleton.mp h]

theorem run_le (p : α → Bool) (s : State α) : run p s ≤ s.rest.length :=
  (List.takeWhile_sublist p).length_le

theorem take_run (p : α → Bool) (s : State α) : s.rest.take (run p s) = s.rest.takeWhile p :=
  (List.prefix_iff_eq_take.mp (List.takeWhile_prefix p)).symm

theorem takeWhile_ne_nil {p : α → Bool} {s : State α} (h : s.rest.head?.any p) : s.rest.takeWhile p ≠ [] := by
  cases hrest : s.rest with
  | nil => simp [hrest] at h
  | cons c rest =>
    have hc : p c := by simpa [hrest] using h
    simp [List.takeWhile_cons_of_pos hc]

/-- Behind a run of characters that satisfy `p`. -/
theorem run_append {p : α → Bool} {s : State α} {front back : List α} (h : s.rest = front ++ back)
    (hfront : ∀ c ∈ front, p c) (hback : back.head?.any p = false) : run p s = front.length := by
  have hnil : back.takeWhile p = [] := by
    cases back with
    | nil => rfl
    | cons c back => exact List.takeWhile_cons_of_neg (by simpa using hback)
  rw [run, h, List.takeWhile_append_of_pos hfront, hnil, List.append_nil]

/-- **Where what follows cannot begin with a repeated character, only the longest repetition is left.** -/
theorem results_plus_seq {p : α → Bool} {b : Expr α} (hb : ∀ t : State α, t.rest.head?.any p → results b t = [])
    (s : State α) :
    results (.seq (plus p) b) s = if s.rest.head?.any p then results b (s.skip (run p s)) else [] := by
  obtain ⟨before, rest, groups⟩ := s
  cases rest with
  | nil => rfl
  | cons c rest =>
    by_cases hc : p c
    · obtain ⟨shorter, heq, hshorter⟩ := repeats_eq p groups (c :: before) rest
      have hnil : shorter.flatMap (results b) = [] := List.flatMap_eq_nil_iff.mpr fun t ht => hb t (hshorter t ht)
      have hskip : State.skip ⟨c :: before, rest, groups⟩ (rest.takeWhile p).length =
          State.skip ⟨before, c :: rest, groups⟩ (run p ⟨before, c :: rest, groups⟩) := by
        simp [State.skip, run, List.takeWhile_cons_of_pos hc]
      have hrepeats : results (.seq (plus p) b) ⟨before, c :: rest, groups⟩ =
          (repeats p groups (c :: before) rest).flatMap (results b) := by
        simp [results, plus, hc, State.skip]
      rw [hrepeats, heq, List.flatMap_cons, hnil, List.append_nil, hskip]
      exact (if_pos hc).symm
    · simp [results, plus, hc]

/-! ## Words -/

section Word

variable [DecidableEq α]

/-- The characters of a word one after the other, read up to `fold`. -/
def word (fold : α → α) : List α → Expr α
  | [] => .empty
  | l :: w => .seq (.cls fun c => fold c = l) (word fold w)

theorem results_word (fold : α → α) (w : List α) (s : State α) :
    results (word fold w) s = if w <+: s.rest.map fold then [s.skip w.length] else [] := by
  induction w generalizing s with
  | nil => simp [word, results, State.skip_zero]
  | cons l w ih =>
    obtain ⟨before, rest, groups⟩ := s
    cases rest with
    | nil => simp [word, results]
    | cons c rest =>
      rw [word, results, List.map_cons]
      by_cases hc : fold c = l
      · simp only [results, hc, decide_true, if_true, List.flatMap_singleton, ih, State.skip_skip, State.skip_rest,
          List.drop_one, List.tail_cons, List.cons_prefix_cons, true_and, List.length_cons, Nat.add_comm 1]
      · have hl : ¬ (l :: w <+: fold c :: rest.map fold) := by
          rw [List.cons_prefix_cons]
          exact fun h => hc h.1.symm
        simp [results, hc, hl]

end Word

end Regex
