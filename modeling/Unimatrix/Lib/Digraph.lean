import Mathlib.Data.Fintype.Order
import Mathlib.Data.List.Basic
import Mathlib.Order.WellFounded
import Mathlib.Tactic.Common

/-!
# Walks in a directed graph, and searches for them

A graph is its edge relation `E`. `Walk E a n b` is a walk of `n` edges from `a` to `b`, and `level` lists
what such walks reach.

* `Acyclic` graphs; **`Walk.length_unique`**: where every vertex has at most one incoming edge, walks from
  `a` to `b` have one length; `Walk.end_unique`: where it has at most one outgoing edge, walks of one
  length have one end.
* `isCyclic` finds a cycle in a list of edges by peeling off those that lead nowhere
  (**`isCyclic_iff`**).
* `Frontier`: how far a search from `a` has got. Its rules take one vertex from what is pending
  (`Frontier.expand`, `Frontier.cut`, `Frontier.again`); **`Frontier.done_of_walk`** says what an exhausted
  search has seen, **`Frontier.done_below`** what a breadth-first search has seen on the way.
-/

namespace Digraph

variable {V : Type} {E : V → V → Prop}

/-! ## Walks -/

/-- A walk of `n` edges from `a`. -/
inductive Walk (E : V → V → Prop) (a : V) : Nat → V → Prop where
  | refl : Walk E a 0 a
  | snoc {n : Nat} {b c : V} : Walk E a n b → E b c → Walk E a (n + 1) c

theorem walk_zero_iff {a b : V} : Walk E a 0 b ↔ b = a := by
  constructor
  · intro h
    cases h
    rfl
  · intro h
    rw [h]
    exact .refl

theorem walk_succ_iff {a c : V} {n : Nat} : Walk E a (n + 1) c ↔ ∃ b, Walk E a n b ∧ E b c := by
  constructor
  · intro h
    cases h with
    | snoc hw he => exact ⟨_, hw, he⟩
  · rintro ⟨b, hw, he⟩
    exact .snoc hw he

theorem walk_one_iff {a b : V} : Walk E a 1 b ↔ E a b := by
  rw [walk_succ_iff]
  constructor
  · rintro ⟨c, hw, he⟩
    rw [walk_zero_iff] at hw
    rwa [hw] at he
  · exact fun he => ⟨a, .refl, he⟩

theorem Walk.append {a b c : V} {m n : Nat} (h : Walk E a m b) (h' : Walk E b n c) :
    Walk E a (m + n) c := by
  induction h' with
  | refl => exact h
  | snoc _ he ih => exact .snoc ih he

theorem Walk.cons {a b c : V} {n : Nat} (he : E a b) (h : Walk E b n c) : Walk E a (n + 1) c := by
  rw [Nat.add_comm]
  exact (walk_one_iff.mpr he).append h

/-- The image of a walk. -/
theorem Walk.map {W : Type} {E' : W → W → Prop} (f : V → W) (hE : ∀ x y, E x y → E' (f x) (f y))
    {a b : V} {n : Nat} (h : Walk E a n b) : Walk E' (f a) n (f b) := by
  induction h with
  | refl => exact .refl
  | snoc _ he ih => exact .snoc ih (hE _ _ he)

theorem Walk.mono {E' : V → V → Prop} (hE : ∀ x y, E x y → E' x y) {a b : V} {n : Nat}
    (h : Walk E a n b) : Walk E' a n b := h.map id hE

/-- A walk backwards. -/
theorem Walk.reverse {a b : V} {n : Nat} (h : Walk E a n b) : Walk (fun x y => E y x) b n a := by
  induction h with
  | refl => exact .refl
  | snoc _ he ih => exact ih.cons he

theorem walk_reverse_iff {a b : V} {n : Nat} :
    Walk (fun x y => E y x) b n a ↔ Walk E a n b := ⟨Walk.reverse, Walk.reverse⟩

/-- A walk has a first edge. -/
theorem Walk.uncons {a c : V} {n : Nat} (h : Walk E a (n + 1) c) : ∃ b, E a b ∧ Walk E b n c := by
  obtain ⟨b, hw, he⟩ := walk_succ_iff.mp h.reverse
  exact ⟨b, he, hw.reverse⟩

/-- A walk passes through every shorter length. -/
theorem Walk.split {a c : V} {m n : Nat} (h : Walk E a (m + n) c) :
    ∃ b, Walk E a m b ∧ Walk E b n c := by
  induction n generalizing c with
  | zero => exact ⟨c, h, .refl⟩
  | succ n ih =>
    obtain ⟨d, hw, he⟩ := walk_succ_iff.mp h
    obtain ⟨b, hab, hbd⟩ := ih hw
    exact ⟨b, hab, .snoc hbd he⟩

/-- A walk from a vertex without outgoing edges stays there. -/
theorem Walk.of_sink {a c : V} {n : Nat} (ha : ∀ b, ¬ E a b) (h : Walk E a n c) : n = 0 ∧ c = a := by
  cases n with
  | zero => exact ⟨rfl, walk_zero_iff.mp h⟩
  | succ n =>
    obtain ⟨b, he, -⟩ := h.uncons
    exact absurd he (ha b)

/-! ## Acyclic graphs and unique walks -/

/-- No walk comes back. -/
def Acyclic (E : V → V → Prop) : Prop := ∀ a n, ¬ Walk E a (n + 1) a

theorem Acyclic.reverse (h : Acyclic E) : Acyclic fun x y => E y x :=
  fun a n hw => h a n (walk_reverse_iff.mp hw)

theorem Acyclic.length_eq_zero (h : Acyclic E) {a : V} {n : Nat} (hw : Walk E a n a) : n = 0 := by
  cases n with
  | zero => rfl
  | succ n => exact absurd hw (h a n)

/-- **With at most one incoming edge each, all walks between two vertices have one length.** -/
theorem Walk.length_unique (hin : ∀ ⦃b b' c⦄, E b c → E b' c → b = b') (hac : Acyclic E) {a b : V}
    {m n : Nat} (h : Walk E a m b) (h' : Walk E a n b) : m = n := by
  induction h generalizing n with
  | refl => exact (hac.length_eq_zero h').symm
  | @snoc m c d hw he ih =>
    cases n with
    | zero =>
      rw [walk_zero_iff.mp h'] at he
      exact absurd (hw.snoc he) (hac a m)
    | succ n =>
      obtain ⟨c', hw', he'⟩ := walk_succ_iff.mp h'
      rw [← hin he he'] at hw'
      rw [ih hw']

/-- With at most one outgoing edge each, walks of one length have one end. -/
theorem Walk.end_unique (hout : ∀ ⦃a b c⦄, E a b → E a c → b = c) {a b c : V} {n : Nat}
    (h : Walk E a n b) (h' : Walk E a n c) : b = c := by
  induction h generalizing c with
  | refl => exact (walk_zero_iff.mp h').symm
  | snoc _ he ih =>
    obtain ⟨d, hw, he'⟩ := walk_succ_iff.mp h'
    rw [← ih hw] at he'
    exact hout he he'

/-! ## Finding a cycle -/

section Peel

variable [DecidableEq V]

/-- Drop the edges into a vertex without outgoing edges. -/
def peel (es : List (V × V)) : List (V × V) := es.filter fun e => es.any fun e' => e'.1 = e.2

/-- Peel `n` times. -/
def peelTimes : Nat → List (V × V) → List (V × V)
  | 0, es => es
  | n + 1, es => peelTimes n (peel es)

/-- Whether the edges make a cycle. -/
def isCyclic (es : List (V × V)) : Bool := !(peelTimes es.length es).isEmpty

theorem mem_peel {es : List (V × V)} {e : V × V} : e ∈ peel es ↔ e ∈ es ∧ ∃ c, (e.2, c) ∈ es := by
  unfold peel
  rw [List.mem_filter, List.any_eq_true]
  refine and_congr_right fun _ => ?_
  constructor
  · rintro ⟨⟨b, c⟩, hmem, hb⟩
    rw [decide_eq_true_eq] at hb
    exact ⟨c, hb ▸ hmem⟩
  · rintro ⟨c, hmem⟩
    exact ⟨(e.2, c), hmem, decide_eq_true rfl⟩

/-- Peeling often enough leaves nothing to peel. -/
theorem peel_peelTimes {n : Nat} {es : List (V × V)} (h : es.length ≤ n) :
    peel (peelTimes n es) = peelTimes n es := by
  induction n generalizing es with
  | zero =>
    rw [List.eq_nil_of_length_eq_zero (Nat.le_zero.mp h)]
    rfl
  | succ n ih =>
    by_cases hfix : (peel es).length = es.length
    · have heq : peel es = es := List.filter_sublist.eq_of_length hfix
      have hall : ∀ k, peelTimes k es = es := by
        intro k
        induction k with
        | zero => rfl
        | succ k ihk =>
          unfold peelTimes
          rw [heq, ihk]
      rw [hall, heq]
    · have hle : (peel es).length ≤ es.length := List.length_filter_le _ _
      exact ih (by omega)

/-- Where every edge leads to another there is a cycle. -/
theorem not_acyclic_of_peel {es : List (V × V)} (hfix : peel es = es) (hne : es ≠ []) :
    ¬ Acyclic fun a b => (a, b) ∈ es := by
  intro hac
  let S := {v // v ∈ es.map Prod.fst}
  let r : S → S → Prop := fun x y => ∃ n, Walk (fun a b => (a, b) ∈ es) y.1 (n + 1) x.1
  have : Finite S := List.finite_toSet _
  have : IsTrans S r := ⟨by
    rintro x y z ⟨m, hxy⟩ ⟨n, hyz⟩
    exact ⟨n + 1 + m, hyz.append hxy⟩⟩
  have : Std.Irrefl r := ⟨fun x ⟨n, hx⟩ => hac x.1 n hx⟩
  obtain ⟨e, he⟩ := List.exists_mem_of_ne_nil _ hne
  -- a source that no other source is reached from does not exist
  obtain ⟨⟨a, ha⟩, -, hmin⟩ := (Finite.wellFounded_of_trans_of_irrefl r).has_min Set.univ
    ⟨⟨e.1, List.mem_map_of_mem he⟩, trivial⟩
  obtain ⟨⟨a', b⟩, hab, rfl⟩ := List.mem_map.mp ha
  rw [← hfix] at hab
  obtain ⟨hab, c, hbc⟩ := mem_peel.mp hab
  exact hmin ⟨b, List.mem_map_of_mem hbc⟩ trivial ⟨0, walk_one_iff.mpr hab⟩

/-- An edge on a cycle is never peeled off. -/
theorem mem_peelTimes {es : List (V × V)} {n k : Nat} {a b : V} (he : (a, b) ∈ es)
    (hback : Walk (fun a b => (a, b) ∈ es) b k a) : (a, b) ∈ peelTimes n es := by
  suffices hkeep : ∀ fs : List (V × V),
      (∀ a b k, (a, b) ∈ es → Walk (fun a b => (a, b) ∈ es) b k a → (a, b) ∈ fs) →
      ∀ a b k, (a, b) ∈ es → Walk (fun a b => (a, b) ∈ es) b k a → (a, b) ∈ peelTimes n fs from
    hkeep es (fun _ _ _ h _ => h) a b k he hback
  clear he hback a b k
  induction n with
  | zero => exact fun fs h => h
  | succ n ih =>
    intro fs h
    refine ih (peel fs) fun a b k he hback => mem_peel.mpr ⟨h a b k he hback, ?_⟩
    cases k with
    | zero =>
      rw [walk_zero_iff.mp hback] at he hback ⊢
      exact ⟨b, h b b 0 he .refl⟩
    | succ k =>
      obtain ⟨c, hbc, hrest⟩ := hback.uncons
      exact ⟨c, h b c (k + 1) hbc (hrest.snoc he)⟩

/-- **Peeling finds the cycles.** -/
theorem isCyclic_iff {es : List (V × V)} :
    isCyclic es = true ↔ ¬ Acyclic fun a b => (a, b) ∈ es := by
  unfold isCyclic
  rw [Bool.not_eq_true', List.isEmpty_eq_false_iff]
  constructor
  · intro hne hac
    refine not_acyclic_of_peel (peel_peelTimes (le_refl _)) hne fun a n hw => hac a n ?_
    have hsub : ∀ n (fs : List (V × V)), ∀ e ∈ peelTimes n fs, e ∈ fs := by
      intro n
      induction n with
      | zero => exact fun _ _ h => h
      | succ n ih => exact fun fs e h => (mem_peel.mp (ih (peel fs) e h)).1
    exact hw.mono fun a b h => hsub _ _ _ h
  · intro hcyc
    unfold Acyclic at hcyc
    push Not at hcyc
    obtain ⟨a, n, hw⟩ := hcyc
    obtain ⟨b, hw, he⟩ := walk_succ_iff.mp hw
    exact List.ne_nil_of_mem (mem_peelTimes he hw)

end Peel

/-! ## Distance -/

/-- The shortest walk from `a` to `b` has `n` edges. -/
def Dist (E : V → V → Prop) (a : V) (n : Nat) (b : V) : Prop :=
  Walk E a n b ∧ ∀ m, Walk E a m b → n ≤ m

theorem Dist.unique {a b : V} {m n : Nat} (h : Dist E a m b) (h' : Dist E a n b) : m = n :=
  Nat.le_antisymm (h.2 n h'.1) (h'.2 m h.1)

theorem dist_zero_iff {a b : V} : Dist E a 0 b ↔ b = a := by
  constructor
  · exact fun h => walk_zero_iff.mp h.1
  · rintro rfl
    exact ⟨.refl, fun m _ => Nat.zero_le m⟩

/-- The last edge of a shortest walk starts one edge nearer. -/
theorem Dist.pred {a c : V} {n : Nat} (h : Dist E a (n + 1) c) : ∃ b, Dist E a n b ∧ E b c := by
  obtain ⟨b, hw, he⟩ := walk_succ_iff.mp h.1
  refine ⟨b, ⟨hw, fun m hm => ?_⟩, he⟩
  exact Nat.le_of_succ_le_succ (h.2 (m + 1) (hm.snoc he))

/-! ## Levels -/

/-- What the walks of `n` edges from the vertices of `base` reach, once for each walk. -/
def level (next : V → List V) (base : List V) : Nat → List V
  | 0 => base
  | n + 1 => (level next base n).flatMap next

theorem mem_level {next : V → List V} {a b : V} {base : List V} (hbase : ∀ v, v ∈ base → v = a)
    (hE : ∀ x y, y ∈ next x ↔ E x y) (n : Nat) :
    b ∈ level next base n ↔ a ∈ base ∧ Walk E a n b := by
  induction n generalizing b with
  | zero =>
    rw [walk_zero_iff]
    constructor
    · intro h
      have hb := hbase b h
      exact ⟨hb ▸ h, hb⟩
    · rintro ⟨h, rfl⟩
      exact h
  | succ n ih =>
    rw [walk_succ_iff]
    unfold level
    rw [List.mem_flatMap]
    constructor
    · rintro ⟨c, hc, hb⟩
      exact ⟨(ih.mp hc).1, c, (ih.mp hc).2, (hE c b).mp hb⟩
    · rintro ⟨ha, c, hc, he⟩
      exact ⟨c, ih.mpr ⟨ha, hc⟩, (hE c b).mpr he⟩

/-! ## Searches -/

/-- How far a search from `a` has got. What is pending carries the length of a walk to it; whatever is
done, and is less than `bound` edges away, has its successors done or pending. -/
structure Frontier (E : V → V → Prop) (a : V) (bound : Nat) (pending : List (V × Nat))
    (done : V → Prop) : Prop where
  walk : ∀ p ∈ pending, Walk E a p.2 p.1
  start : done a ∨ ∃ n, (a, n) ∈ pending
  next : ∀ v, done v → ∀ n, Walk E a n v → n < bound → ∀ w, E v w → done w ∨ ∃ m, (w, m) ∈ pending

theorem Frontier.initial (E : V → V → Prop) (a : V) (bound : Nat) :
    Frontier E a bound [(a, 0)] fun _ => False where
  walk p hp := by
    rw [List.mem_singleton.mp hp]
    exact .refl
  start := .inr ⟨0, List.mem_singleton_self _⟩
  next _ h := h.elim

variable {a v : V} {bound d : Nat} {rest : List (V × Nat)} {done : V → Prop}

theorem Frontier.of_iff {done' : V → Prop} (h : Frontier E a bound rest done)
    (hd : ∀ u, done u ↔ done' u) : Frontier E a bound rest done' := by
  have heq : done = done' := funext fun u => propext (hd u)
  rwa [← heq]

/-- What was done or pending stays so when `v` moves from pending to done. -/
theorem done_or_pending_cons_iff {w : V} : (done w ∨ ∃ m, (w, m) ∈ (v, d) :: rest) ↔
    (done w ∨ w = v) ∨ ∃ m, (w, m) ∈ rest := by
  constructor
  · rintro (h | ⟨m, hm⟩)
    · exact .inl (.inl h)
    · rcases List.mem_cons.mp hm with hm | hm
      · cases hm
        exact .inl (.inr rfl)
      · exact .inr ⟨m, hm⟩
  · rintro ((h | rfl) | ⟨m, hm⟩)
    · exact .inl h
    · exact .inr ⟨d, List.mem_cons_self⟩
    · exact .inr ⟨m, List.mem_cons_of_mem _ hm⟩

/-- A queue in order of depth stays so when nodes one level below its first go to its end. -/
theorem pairwise_append_level {tail : List (V × Nat)} (hrest : rest.Pairwise fun p q => p.2 ≤ q.2)
    (hle : ∀ p ∈ rest, p.2 ≤ d + 1) (htail : ∀ p ∈ tail, p.2 = d + 1) :
    (rest ++ tail).Pairwise fun p q => p.2 ≤ q.2 := by
  rw [List.pairwise_append]
  refine ⟨hrest, ?_, fun p hp q hq => ?_⟩
  · refine List.pairwise_iff_forall_sublist.mpr fun {p q} hpq => ?_
    rw [htail p (hpq.subset List.mem_cons_self),
      htail q (hpq.subset (List.mem_cons_of_mem _ List.mem_cons_self))]
  · rw [htail q hq]
    exact hle p hp

/-- The vertex taken is done from now on, with others that need no expansion; its successors are done or
pending. -/
theorem Frontier.advance (h : Frontier E a bound ((v, d) :: rest) done) {pending : List (V × Nat)}
    {done' : V → Prop} (hrest : ∀ p ∈ rest, p ∈ pending)
    (hwalk : ∀ p ∈ pending, p ∈ rest ∨ (E v p.1 ∧ p.2 = d + 1))
    (hdone : ∀ u, done u ∨ u = v → done' u)
    (hstop : ∀ u, done' u → (done u ∨ u = v) ∨ ∀ n, n < bound → Walk E a n u → ∀ w, ¬ E u w)
    (hall : ∀ w, E v w → done' w ∨ ∃ m, (w, m) ∈ pending) : Frontier E a bound pending done' where
  walk p hpm := by
    rcases hwalk p hpm with hr | ⟨he, hd⟩
    · exact h.walk p (List.mem_cons_of_mem _ hr)
    · rw [hd]
      exact (h.walk (v, d) List.mem_cons_self).snoc he
  start := by
    rcases done_or_pending_cons_iff.mp h.start with hd | ⟨m, hm⟩
    · exact .inl (hdone _ hd)
    · exact .inr ⟨m, hrest _ hm⟩
  next u hu n hw hn w he := by
    rcases hstop u hu with (hu | rfl) | hnone
    · rcases done_or_pending_cons_iff.mp (h.next u hu n hw hn w he) with hd | ⟨m, hm⟩
      · exact .inl (hdone _ hd)
      · exact .inr ⟨m, hrest _ hm⟩
    · exact hall w he
    · exact absurd he (hnone n hn hw w)

/-- The vertex taken is expanded: its successors are done, or pending from now on. -/
theorem Frontier.expand (h : Frontier E a bound ((v, d) :: rest) done) {new pending : List (V × Nat)}
    (hp : ∀ p, p ∈ pending ↔ p ∈ rest ∨ p ∈ new) (hnew : ∀ p ∈ new, E v p.1 ∧ p.2 = d + 1)
    (hall : ∀ w, E v w → (done w ∨ w = v) ∨ ∃ m, (w, m) ∈ pending) :
    Frontier E a bound pending fun u => done u ∨ u = v :=
  h.advance (fun p hr => (hp p).mpr (.inl hr)) (fun p hpm => ((hp p).mp hpm).imp_right (hnew p))
    (fun _ hu => hu) (fun _ hu => .inl hu) hall

/-- The vertex taken is `bound` edges away or more: it need not be expanded. -/
theorem Frontier.cut (h : Frontier E a bound ((v, d) :: rest) done)
    (hfar : ∀ n, n < bound → ¬ Walk E a n v) : Frontier E a bound rest fun u => done u ∨ u = v where
  walk p hp := h.walk p (List.mem_cons_of_mem _ hp)
  start := done_or_pending_cons_iff.mp h.start
  next u hu n hw hn w he := by
    rcases hu with hu | rfl
    · exact done_or_pending_cons_iff.mp (h.next u hu n hw hn w he)
    · exact absurd hw (hfar n hn)

/-- The vertex taken was done before. -/
theorem Frontier.again (h : Frontier E a bound ((v, d) :: rest) done) (hv : done v) :
    Frontier E a bound rest done where
  walk p hp := h.walk p (List.mem_cons_of_mem _ hp)
  start := by
    rcases done_or_pending_cons_iff.mp h.start with (hd | rfl) | hm
    · exact .inl hd
    · exact .inl hv
    · exact .inr hm
  next u hu n hw hn w he := by
    rcases done_or_pending_cons_iff.mp (h.next u hu n hw hn w he) with (hd | rfl) | hm
    · exact .inl hd
    · exact .inl hv
    · exact .inr hm

/-- **An exhausted search has seen whatever is at most `bound` edges away.** -/
theorem Frontier.done_of_walk (h : Frontier E a bound [] done) {n : Nat} (hw : Walk E a n v)
    (hn : n ≤ bound) : done v := by
  induction hw with
  | refl =>
    rcases h.start with hd | ⟨_, hm⟩
    · exact hd
    · cases hm
  | snoc hw' he ih =>
    rcases h.next _ (ih (Nat.le_of_succ_le hn)) _ hw' hn _ he with hd | ⟨_, hm⟩
    · exact hd
    · cases hm

/-- **A breadth-first search has seen whatever is nearer than all that is pending.** What is pending
carries the length of a shortest walk. -/
theorem Frontier.done_below {pending : List (V × Nat)} (h : Frontier E a bound pending done)
    (hshort : ∀ p ∈ pending, ∀ n, Walk E a n p.1 → p.2 ≤ n) (hfar : ∀ p ∈ pending, d ≤ p.2) {n : Nat}
    (hw : Walk E a n v) (hd : n < d) (hn : n ≤ bound) : done v := by
  induction hw with
  | refl =>
    rcases h.start with hdone | ⟨m, hm⟩
    · exact hdone
    · have h₁ := hshort _ hm 0 .refl
      have h₂ := hfar _ hm
      omega
  | @snoc k b c hw' he ih =>
    rcases h.next b (ih (by omega) (by omega)) k hw' hn c he with hdone | ⟨m, hm⟩
    · exact hdone
    · have h₁ := hshort _ hm (k + 1) (hw'.snoc he)
      have h₂ := hfar _ hm
      omega

end Digraph
