import Unimatrix.Lib.HashMap

/-!
# Writes to one key of a table

A table with a unique key is a `HashMap`. `INSERT .. ON CONFLICT DO UPDATE` is `upsert`, `INSERT OR IGNORE` is
`insertNew`: each changes the row of its key and no other.

* `lookup_upsert`, `lookup_insertNew`: what a write does to the row of any key. A list of writes then does to the
  row what its writes do to it one after the other (`List.foldl_hom`).
* What a list of writes makes of one row: `foldl_elim_count` (each write it counts adds one), `foldl_or_first`
  (the first one stays), `foldl_or_last` and `foldl_getD_last` (the last one stays), **`foldl_keep`** (the last one stays, but for a part
  the first one decides).
* `foldl_append_toList`: a log that each write adds at most one row to.
-/

namespace HashMap

section Keys

variable {K V : Type} [DecidableEq K]

/-- `INSERT .. ON CONFLICT DO UPDATE`: `f` says what the row of the key becomes. -/
def upsert (m : HashMap K V) (k : K) (f : Option V → V) : HashMap K V := m.insert k (f (m.lookup k))

/-- `INSERT OR IGNORE`. -/
def insertNew (m : HashMap K V) (k : K) (v : V) : HashMap K V := m.upsert k fun row => row.getD v

theorem lookup_upsert (m : HashMap K V) (k k' : K) (f : Option V → V) :
    (m.upsert k f).lookup k' = if k = k' then some (f (m.lookup k')) else m.lookup k' := by
  unfold upsert
  by_cases h : k = k'
  · subst h
    rw [if_pos rfl, AList.lookup_insert]
  · rw [if_neg h, AList.lookup_insert_ne fun he => h he.symm]

theorem lookup_insertNew (m : HashMap K V) (k k' : K) (v : V) :
    (m.insertNew k v).lookup k' = if k = k' then (m.lookup k').or (some v) else m.lookup k' := by
  unfold insertNew
  rw [lookup_upsert]
  cases m.lookup k' <;> rfl

end Keys

section Rows

variable {V ε : Type}

/-- Each write that `p` picks adds one to the number `n` reads, from nought where there is no row. -/
theorem foldl_elim_count (n : V → Nat) (p : ε → Bool) {g : Option V → ε → Option V}
    (h : ∀ row e, ((g row e).elim 0 n) = row.elim 0 n + if p e = true then 1 else 0) (es : List ε) (row : Option V) :
    (es.foldl g row).elim 0 n = row.elim 0 n + es.countP p := by
  induction es generalizing row with
  | nil => rfl
  | cons e es ih =>
    rw [List.foldl_cons, ih, h, List.countP_cons]
    omega

/-- A row that is there stays; of writes to a missing one the first stays. -/
theorem foldl_or_first (f : ε → Option V) (es : List ε) (row : Option V) :
    es.foldl (fun row e => row.or (f e)) row = row.or (es.findSome? f) := by
  induction es generalizing row with
  | nil => exact Option.or_none.symm
  | cons e es ih =>
    rw [List.foldl_cons, ih, Option.or_assoc]
    congr 1
    cases hf : f e with
    | none => rw [List.findSome?_cons, hf, Option.none_or]
    | some v => rw [List.findSome?_cons, hf, Option.some_or]

/-- The last write stays. -/
theorem foldl_or_last (f : ε → Option V) (es : List ε) (row : Option V) :
    es.foldl (fun row e => (f e).or row) row = (es.reverse.findSome? f).or row := by
  induction es generalizing row with
  | nil => rfl
  | cons e es ih =>
    have hone : [e].findSome? f = f e := by cases hf : f e <;> simp [hf]
    rw [List.foldl_cons, ih, List.reverse_cons, List.findSome?_append, hone, Option.or_assoc]

/-- What the last write to say anything says stays. -/
theorem foldl_getD_last {A : Type} (f : ε → Option A) (es : List ε) (a : A) :
    es.foldl (fun a e => (f e).getD a) a = (es.reverse.findSome? f).getD a := by
  induction es generalizing a with
  | nil => rfl
  | cons e es ih =>
    have hone : [e].findSome? f = f e := by cases hf : f e <;> simp [hf]
    rw [List.foldl_cons, ih, List.reverse_cons, List.findSome?_append, hone]
    cases es.reverse.findSome? f <;> rfl

theorem findSome?_reverse_eq_none_iff {A : Type} {f : ε → Option A} {es : List ε} :
    es.reverse.findSome? f = none ↔ es.findSome? f = none := by
  simp only [List.findSome?_eq_none_iff, List.mem_reverse]

/-- **The last write stays, but for the part `keep` reads, which is that of the row that was there or else of the
first write.** -/
theorem foldl_keep {A : Type} (f : ε → Option V) (keep : V → A) (put : V → A → V)
    (hput : ∀ v a, keep (put v a) = a) (es : List ε) (row : Option V) :
    es.foldl (fun row e => (f e).elim row fun v => some (put v (row.elim (keep v) keep))) row =
      (es.reverse.findSome? f).elim row fun v => some (put v ((row.or (es.findSome? f)).elim (keep v) keep)) := by
  induction es using List.reverseRecOn with
  | nil => rfl
  | append_singleton es e ih =>
    have hone : [e].findSome? f = f e := by cases hf : f e <;> simp [hf]
    rw [List.foldl_append, List.foldl_cons, List.foldl_nil, ih, List.reverse_append, List.reverse_singleton,
      List.findSome?_append, List.findSome?_append, hone]
    cases hf : f e with
    | none => rw [Option.none_or, Option.or_none, Option.elim_none]
    | some v =>
      rw [Option.some_or, Option.elim_some, Option.elim_some]
      cases hes : es.reverse.findSome? f with
      | none =>
        rw [findSome?_reverse_eq_none_iff.mp hes]
        cases row <;> rfl
      | some w =>
        obtain ⟨u, hu⟩ : ∃ u, es.findSome? f = some u := by
          cases hu : es.findSome? f with
          | none =>
            rw [findSome?_reverse_eq_none_iff.mpr hu] at hes
            cases hes
          | some u => exact ⟨u, rfl⟩
        rw [hu, Option.elim_some, Option.elim_some, hput]
        cases row <;> rfl

/-- A log that each write adds at most one row to. -/
theorem foldl_append_toList {R σ : Type} {log : σ → List R} {step : σ → ε → σ} {f : ε → Option R}
    (h : ∀ s e, log (step s e) = log s ++ (f e).toList) (es : List ε) (s : σ) :
    log (es.foldl step s) = log s ++ es.filterMap f := by
  induction es generalizing s with
  | nil => exact (List.append_nil _).symm
  | cons e es ih =>
    rw [List.foldl_cons, ih, h, List.append_assoc]
    cases hf : f e <;> simp [hf]

end Rows

end HashMap
