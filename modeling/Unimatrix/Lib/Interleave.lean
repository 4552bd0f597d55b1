import Mathlib.Logic.Function.Basic
import Unimatrix.Lib.Runs

/-!
# Programs that take turns

A `Prog` performs operations on a shared state, one at a time, and goes on with what each of them answers. Any number of
programs run in turns (`turn`); one that gets no more turns has died where it was. An operation has an outcome that nobody
chooses.

`Wp p Q s` says of a program that is at `s`: in every state that the others can bring about (the rely `R`, and what always
holds, `I`), each of its operations keeps `I` and is what the others count on (the guarantee `G`), and where it is done,
`Q` holds for good.

* `wp_bind`, `wp_perform`, `wp_of_all`, `Wp.mono`, `Wp.rely`, `Wp.guarantee`, `Wp.frame`: the rules.
* **`run_all`**: what every operation of every program keeps.
* **`run_wp`**: what the programs promise one by one holds however they take turns.
-/

namespace Interleave

/-- A program. -/
inductive Prog (Op Ans ρ : Type) : Type
  | done (r : ρ)
  | act (a : Op) (k : Ans → Prog Op Ans ρ)

variable {σ ι Op Ans ρ τ : Type}

/-- One program after the other. -/
def Prog.bind : Prog Op Ans ρ → (ρ → Prog Op Ans τ) → Prog Op Ans τ
  | .done r, f => f r
  | .act a k, f => .act a fun x => (k x).bind f

instance : Monad (Prog Op Ans) where
  pure := .done
  bind := Prog.bind

/-- One operation. -/
def perform (a : Op) : Prog Op Ans Ans := .act a .done

/-- The shared state and what is left of the programs. -/
structure World (σ Op Ans ρ : Type) where
  shared : σ
  procs : Nat → Prog Op Ans ρ

/-- Every operation of a program is one of these. -/
def Prog.All (A : Op → Prop) : Prog Op Ans ρ → Prop
  | .done _ => True
  | .act a k => A a ∧ ∀ x, (k x).All A

section All

variable {A : Op → Prop}

theorem all_pure (r : ρ) : (pure r : Prog Op Ans ρ).All A := trivial

theorem all_perform {a : Op} (h : A a) : (perform a : Prog Op Ans Ans).All A := ⟨h, fun _ => trivial⟩

theorem all_bind {p : Prog Op Ans ρ} {f : ρ → Prog Op Ans τ} (hp : p.All A) (hf : ∀ r, (f r).All A) :
    (p >>= f).All A := by
  induction p with
  | done r => exact hf r
  | act a k ih => exact ⟨hp.1, fun x => ih x (hp.2 x)⟩

end All

section Rules

variable (exec : Op → ι → σ → σ × Ans)

/-- Program `e.1` performs its next operation, with outcome `e.2`. -/
def turn (w : World σ Op Ans ρ) (e : Nat × ι) : World σ Op Ans ρ :=
  match w.procs e.1 with
  | .done _ => w
  | .act a k =>
    ⟨(exec a e.2 w.shared).1, Function.update w.procs e.1 (k (exec a e.2 w.shared).2)⟩

variable (C : ι → Prop) (I : σ → Prop) (R G : σ → σ → Prop)

/-- What a program promises from a state on. -/
def Wp : Prog Op Ans ρ → (ρ → σ → Prop) → σ → Prop
  | .done r, Q, s => ∀ s', R s s' → I s' → Q r s'
  | .act a k, Q, s => ∀ s', R s s' → I s' → ∀ i, C i →
      G s' (exec a i s').1 ∧ I (exec a i s').1 ∧ Wp (k (exec a i s').2) Q (exec a i s').1

variable {exec C I R G} {p : Prog Op Ans ρ} {Q Q' : ρ → σ → Prop} {s s' : σ}

/-- What others do breaks no promise. -/
theorem Wp.rely (htrans : ∀ a b c, R a b → R b c → R a c) (h : Wp exec C I R G p Q s) (hr : R s s') :
    Wp exec C I R G p Q s' := by
  cases p with
  | done r => exact fun t ht => h t (htrans s s' t hr ht)
  | act a k => exact fun t ht => h t (htrans s s' t hr ht)

theorem Wp.mono (h : Wp exec C I R G p Q s) (hq : ∀ r s, I s → Q r s → Q' r s) : Wp exec C I R G p Q' s := by
  induction p generalizing s with
  | done r => exact fun t ht hi => hq r t hi (h t ht hi)
  | act a k ih =>
    intro t ht hi i hc
    obtain ⟨hg, hi', hk⟩ := h t ht hi i hc
    exact ⟨hg, hi', ih _ hk⟩

/-- A program that promises the others more promises them less. -/
theorem Wp.guarantee {G' : σ → σ → Prop} (h : Wp exec C I R G p Q s) (hG : ∀ a b, G a b → G' a b) :
    Wp exec C I R G' p Q s := by
  induction p generalizing s with
  | done r => exact h
  | act a k ih =>
    intro t ht hi i hc
    obtain ⟨hg, hi', hk⟩ := h t ht hi i hc
    exact ⟨hG _ _ hg, hi', ih _ hk⟩

/-- It is enough to promise it of what the others leave behind. -/
theorem wp_of_rely (hrefl : ∀ a, R a a) (h : ∀ t, R s t → I t → Wp exec C I R G p Q t) : Wp exec C I R G p Q s := by
  cases p with
  | done r => exact fun t ht hi => h t ht hi t (hrefl t) hi
  | act a k => exact fun t ht hi => h t ht hi t (hrefl t) hi

/-- **One program after the other.** -/
theorem wp_bind (hrefl : ∀ a, R a a) {f : ρ → Prog Op Ans τ} {Q : τ → σ → Prop}
    (h : Wp exec C I R G p (fun r t => Wp exec C I R G (f r) Q t) s) : Wp exec C I R G (p >>= f) Q s := by
  induction p generalizing s with
  | done r => exact wp_of_rely hrefl h
  | act a k ih =>
    intro t ht hi i hc
    obtain ⟨hg, hi', hk⟩ := h t ht hi i hc
    exact ⟨hg, hi', ih _ hk⟩

theorem wp_pure {r : ρ} (h : ∀ t, R s t → I t → Q r t) : Wp exec C I R G (pure r) Q s := h

theorem wp_perform {a : Op} {Q : Ans → σ → Prop}
    (h : ∀ t, R s t → I t → ∀ i, C i → G t (exec a i t).1 ∧ I (exec a i t).1 ∧
      ∀ u, R (exec a i t).1 u → I u → Q (exec a i t).2 u) : Wp exec C I R G (perform a) Q s := h

/-- **What nobody changes is still so in the end.** -/
theorem Wp.frame {K : σ → Prop} (hR : ∀ a b, R a b → K a → K b) (hG : ∀ a b, G a b → K a → K b)
    (h : Wp exec C I R G p Q s) (hK : K s) : Wp exec C I R G p (fun r t => Q r t ∧ K t) s := by
  induction p generalizing s with
  | done r => exact fun t ht hi => ⟨h t ht hi, hR s t ht hK⟩
  | act a k ih =>
    intro t ht hi i hc
    obtain ⟨hg, hi', hk⟩ := h t ht hi i hc
    exact ⟨hg, hi', ih _ hk (hG _ _ hg (hR s t ht hK))⟩

/-- A program whose operations all keep `I`, and are what the others count on. -/
theorem wp_of_all {A : Op → Prop} (hp : p.All A)
    (hA : ∀ a, A a → ∀ s, I s → ∀ i, C i → G s (exec a i s).1 ∧ I (exec a i s).1) (s : σ) :
    Wp exec C I R G p (fun _ _ => True) s := by
  induction p generalizing s with
  | done r => exact fun _ _ _ => trivial
  | act a k ih =>
    intro t ht hi i hc
    obtain ⟨hg, hi'⟩ := hA a hp.1 t hi i hc
    exact ⟨hg, hi', ih _ (hp.2 _) _⟩

/-- **What every operation of every program keeps, they keep**, however they take turns. -/
theorem run_all {A : Op → Prop} {w : World σ Op Ans ρ} (hprocs : ∀ r, (w.procs r).All A)
    (hA : ∀ a, A a → ∀ s, I s → ∀ i, I (exec a i s).1) (hI : I w.shared) (es : List (Nat × ι)) :
    I (es.foldl (turn exec) w).shared := by
  have hstep (w : World σ Op Ans ρ) (e : Nat × ι) (h : I w.shared ∧ ∀ r, (w.procs r).All A) :
      I (turn exec w e).shared ∧ ∀ r, ((turn exec w e).procs r).All A := by
    unfold turn
    cases hproc : w.procs e.1 with
    | done r => exact h
    | act a k =>
      have hown := h.2 e.1
      rw [hproc] at hown
      refine ⟨hA a hown.1 w.shared h.1 e.2, fun r => ?_⟩
      by_cases hr : r = e.1
      · subst hr
        simp only [Function.update_self]
        exact hown.2 _
      · simp only [Function.update_of_ne hr]
        exact h.2 r
  exact (Runs.invariant hstep ⟨hI, hprocs⟩ es).1

section Run

variable {R G : Nat → σ → σ → Prop} {Q : Nat → ρ → σ → Prop} {w : World σ Op Ans ρ}

/-- What the programs promise, and what always holds. -/
structure Promised (exec : Op → ι → σ → σ × Ans) (C : ι → Prop) (I : σ → Prop) (R G : Nat → σ → σ → Prop)
    (Q : Nat → ρ → σ → Prop) (w : World σ Op Ans ρ) : Prop where
  holds : I w.shared
  procs : ∀ r, Wp exec C I (R r) (G r) (w.procs r) (Q r) w.shared

theorem Promised.turn (hrefl : ∀ r a, R r a a) (htrans : ∀ r a b c, R r a b → R r b c → R r a c)
    (hrely : ∀ r r' s s', r ≠ r' → G r s s' → R r' s s') (h : Promised exec C I R G Q w) (e : Nat × ι) (hc : C e.2) :
    Promised exec C I R G Q (turn exec w e) := by
  unfold Interleave.turn
  cases hproc : w.procs e.1 with
  | done r => exact h
  | act a k =>
    have hown := h.procs e.1
    rw [hproc] at hown
    obtain ⟨hg, hi, hk⟩ := hown w.shared (hrefl e.1 w.shared) h.holds e.2 hc
    refine ⟨hi, fun r => ?_⟩
    by_cases hr : r = e.1
    · subst hr
      simp only [Function.update_self]
      exact hk
    · simp only [Function.update_of_ne hr]
      exact (h.procs r).rely (htrans r) (hrely e.1 r _ _ (Ne.symm hr) hg)

/-- **What the programs promise one by one holds however they take turns**: what always holds does, and so does what a
program that is done has promised. -/
theorem run_wp (hrefl : ∀ r a, R r a a) (htrans : ∀ r a b c, R r a b → R r b c → R r a c)
    (hrely : ∀ r r' s s', r ≠ r' → G r s s' → R r' s s') (h : Promised exec C I R G Q w) {es : List (Nat × ι)}
    (hes : ∀ e ∈ es, C e.2) : I (es.foldl (turn exec) w).shared ∧
      ∀ r x, (es.foldl (turn exec) w).procs r = .done x → Q r x (es.foldl (turn exec) w).shared := by
  have hend : Promised exec C I R G Q (es.foldl (turn exec) w) := by
    induction es generalizing w with
    | nil => exact h
    | cons e es ih =>
      exact ih (h.turn hrefl htrans hrely e (hes e List.mem_cons_self)) fun e' he' => hes e' (List.mem_cons_of_mem _ he')
  refine ⟨hend.holds, fun r x hdone => ?_⟩
  have hwp := hend.procs r
  rw [hdone] at hwp
  exact hwp _ (hrefl r _) hend.holds

end Run

end Rules

end Interleave
