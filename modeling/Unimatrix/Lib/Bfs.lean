import Unimatrix.Lib.Digraph

/-!
# Breadth-first search that records how it found each vertex

`expand` lists what a queued node leads to: vertices, each with the record to make of it, given its depth.
A vertex met for the first time is recorded, and queued as the node `enter` has for it, if any, unless it is
`cap` edges away.

* The loop takes `fuel` and returns `none` when it would need more; **`loop_isSome`** says how much is enough.
* **`search_sound`**: a record is made along an edge from a vertex at its distance to one a step further;
  **`search_complete`**: every vertex at a distance from 1 to `cap` has a record of that depth.
-/

namespace Bfs

open Digraph

variable {V Q R : Type} [DecidableEq V]

/-- What was visited, what is queued with its depth, and the records made. -/
structure State (V Q R : Type) where
  visited : List V
  queue : List (Q × Nat)
  out : List R

section Search

variable (enter : V → Option Q) (expand : Q → List (V × (Nat → R))) (cap : Nat)

/-- The node to queue for a vertex at depth `d`. -/
def pushed (d : Nat) (w : V) : List (Q × Nat) :=
  if d < cap then (enter w).toList.map fun q => (q, d) else []

/-- One vertex a node at depth `d` leads to. -/
def visit (d : Nat) (s : State V Q R) (f : V × (Nat → R)) : State V Q R :=
  if s.visited.contains f.1 then s
  else ⟨f.1 :: s.visited, s.queue ++ pushed enter cap (d + 1) f.1, s.out ++ [f.2 (d + 1)]⟩

/-- The loop over the queue. -/
def loop : Nat → State V Q R → Option (List R)
  | 0, _ => none
  | fuel + 1, s =>
    match s.queue with
    | [] => some s.out
    | (q, d) :: rest =>
      if cap ≤ d then loop fuel { s with queue := rest }
      else loop fuel ((expand q).foldl (visit enter cap d) { s with queue := rest })

/-- The search from `a`, whose node is `q`. -/
def search (fuel : Nat) (a : V) (q : Q) : Option (List R) :=
  loop enter expand cap fuel ⟨[a], [(q, 0)], []⟩

end Search

/-! ## One node -/

variable {enter : V → Option Q} {expand : Q → List (V × (Nat → R))} {cap : Nat}

omit [DecidableEq V] in
theorem mem_pushed {d : Nat} {w : V} {p : Q × Nat} :
    p ∈ pushed enter cap d w ↔ d < cap ∧ enter w = some p.1 ∧ p.2 = d := by
  obtain ⟨q, n⟩ := p
  unfold pushed
  split
  · rename_i hd
    simp only [List.mem_map, Option.mem_toList, Prod.mk.injEq]
    constructor
    · rintro ⟨q', hq, rfl, rfl⟩
      exact ⟨hd, hq, rfl⟩
    · rintro ⟨-, hq, rfl⟩
      exact ⟨q, hq, rfl, rfl⟩
  · rename_i hd
    exact iff_of_false List.not_mem_nil fun h => hd h.1

/-- What the vertices `fs` a node leads to, met one after the other, do to a state. -/
structure Visited (enter : V → Option Q) (cap d : Nat) (fs : List (V × (Nat → R)))
    (s s' : State V Q R) : Prop where
  visited_iff : ∀ v, v ∈ s'.visited ↔ v ∈ s.visited ∨ ∃ rec, (v, rec) ∈ fs
  queue : ∃ tail, s'.queue = s.queue ++ tail ∧ ∀ p ∈ tail, p.2 = d + 1
  queue_iff : ∀ p, p ∈ s'.queue ↔ p ∈ s.queue ∨
    ∃ w rec, (w, rec) ∈ fs ∧ w ∉ s.visited ∧ p ∈ pushed enter cap (d + 1) w
  out_keep : ∀ r ∈ s.out, r ∈ s'.out
  out_sound : ∀ r ∈ s'.out, r ∈ s.out ∨
    ∃ w rec, (w, rec) ∈ fs ∧ w ∉ s.visited ∧ r = rec (d + 1)
  out_complete : ∀ w rec, (w, rec) ∈ fs → w ∉ s.visited →
    ∃ rec', (w, rec') ∈ fs ∧ rec' (d + 1) ∈ s'.out

omit [DecidableEq V] in
/-- A vertex visited before is passed over. -/
theorem Visited.skip {d : Nat} {f : V × (Nat → R)} {fs : List (V × (Nat → R))} {s s' : State V Q R}
    (hf : f.1 ∈ s.visited) (h : Visited enter cap d fs s s') : Visited enter cap d (f :: fs) s s' where
  visited_iff v := by
    rw [h.visited_iff]
    constructor
    · rintro (hv | ⟨rec, hr⟩)
      · exact .inl hv
      · exact .inr ⟨rec, List.mem_cons_of_mem _ hr⟩
    · rintro (hv | ⟨rec, hr⟩)
      · exact .inl hv
      · rcases List.mem_cons.mp hr with rfl | hr
        · exact .inl hf
        · exact .inr ⟨rec, hr⟩
  queue := h.queue
  queue_iff p := by
    rw [h.queue_iff]
    refine or_congr_right ⟨?_, ?_⟩
    · rintro ⟨w, rec, hr, hrest⟩
      exact ⟨w, rec, List.mem_cons_of_mem _ hr, hrest⟩
    · rintro ⟨w, rec, hr, hw, hp⟩
      rcases List.mem_cons.mp hr with rfl | hr
      · exact absurd hf hw
      · exact ⟨w, rec, hr, hw, hp⟩
  out_keep := h.out_keep
  out_sound r hr := by
    rcases h.out_sound r hr with ho | ⟨w, rec, hm, hrest⟩
    · exact .inl ho
    · exact .inr ⟨w, rec, List.mem_cons_of_mem _ hm, hrest⟩
  out_complete w rec hr hw := by
    rcases List.mem_cons.mp hr with rfl | hr
    · exact absurd hf hw
    · obtain ⟨rec', hr', ho⟩ := h.out_complete w rec hr hw
      exact ⟨rec', List.mem_cons_of_mem _ hr', ho⟩

/-- A vertex met for the first time is recorded. -/
theorem Visited.first {d : Nat} {f : V × (Nat → R)} {fs : List (V × (Nat → R))} {s s' : State V Q R}
    (hf : f.1 ∉ s.visited)
    (h : Visited enter cap d fs
      ⟨f.1 :: s.visited, s.queue ++ pushed enter cap (d + 1) f.1, s.out ++ [f.2 (d + 1)]⟩ s') :
    Visited enter cap d (f :: fs) s s' where
  visited_iff v := by
    rw [h.visited_iff, List.mem_cons]
    constructor
    · rintro ((rfl | hv) | ⟨rec, hr⟩)
      · exact .inr ⟨f.2, List.mem_cons_self⟩
      · exact .inl hv
      · exact .inr ⟨rec, List.mem_cons_of_mem _ hr⟩
    · rintro (hv | ⟨rec, hr⟩)
      · exact .inl (.inr hv)
      · rcases List.mem_cons.mp hr with rfl | hr
        · exact .inl (.inl rfl)
        · exact .inr ⟨rec, hr⟩
  queue := by
    obtain ⟨tail, hq, htail⟩ := h.queue
    refine ⟨pushed enter cap (d + 1) f.1 ++ tail, by rw [hq, List.append_assoc], fun p hp => ?_⟩
    rcases List.mem_append.mp hp with hp | hp
    · exact (mem_pushed.mp hp).2.2
    · exact htail p hp
  queue_iff p := by
    rw [h.queue_iff, List.mem_append]
    constructor
    · rintro ((hp | hp) | ⟨w, rec, hr, hw, hp⟩)
      · exact .inl hp
      · exact .inr ⟨f.1, f.2, List.mem_cons_self, hf, hp⟩
      · exact .inr ⟨w, rec, List.mem_cons_of_mem _ hr, fun hv => hw (List.mem_cons_of_mem _ hv), hp⟩
    · rintro (hp | ⟨w, rec, hr, hw, hp⟩)
      · exact .inl (.inl hp)
      · by_cases hwf : w = f.1
        · exact .inl (.inr (hwf ▸ hp))
        · rcases List.mem_cons.mp hr with rfl | hr
          · exact absurd rfl hwf
          · exact .inr ⟨w, rec, hr, fun hv => (List.mem_cons.mp hv).elim hwf hw, hp⟩
  out_keep r hr := h.out_keep r (List.mem_append_left _ hr)
  out_sound r hr := by
    rcases h.out_sound r hr with ho | ⟨w, rec, hm, hw, he⟩
    · rcases List.mem_append.mp ho with ho | ho
      · exact .inl ho
      · exact .inr ⟨f.1, f.2, List.mem_cons_self, hf, List.mem_singleton.mp ho⟩
    · exact .inr ⟨w, rec, List.mem_cons_of_mem _ hm, fun hv => hw (List.mem_cons_of_mem _ hv), he⟩
  out_complete w rec hr hw := by
    by_cases hwf : w = f.1
    · refine ⟨f.2, hwf ▸ List.mem_cons_self, h.out_keep _ ?_⟩
      exact List.mem_append_right _ List.mem_cons_self
    · rcases List.mem_cons.mp hr with rfl | hr
      · exact absurd rfl hwf
      · obtain ⟨rec', hr', ho⟩ :=
          h.out_complete w rec hr fun hv => (List.mem_cons.mp hv).elim hwf hw
        exact ⟨rec', List.mem_cons_of_mem _ hr', ho⟩

theorem foldl_visit (d : Nat) (fs : List (V × (Nat → R))) (s : State V Q R) :
    Visited enter cap d fs s (fs.foldl (visit enter cap d) s) := by
  induction fs generalizing s with
  | nil =>
    refine ⟨fun v => ?_, ⟨[], (List.append_nil _).symm, fun p hp => absurd hp List.not_mem_nil⟩,
      fun p => ?_, fun r hr => hr, fun r hr => .inl hr, fun w rec hr => absurd hr List.not_mem_nil⟩
    · simp
    · simp
  | cons f fs ih =>
    rw [List.foldl_cons]
    unfold visit
    split
    · rename_i hseen
      exact (ih s).skip (List.contains_iff_mem.mp hseen)
    · rename_i hseen
      exact (ih _).first fun hm => hseen (List.contains_iff_mem.mpr hm)

/-! ## Fuel -/

/-- Of the vertices that can be queued, those not visited. -/
def unvisited (U visited : List V) : Nat := U.countP fun v => v ∉ visited

theorem unvisited_cons {U visited : List V} {w : V} (hw : w ∉ visited) (hU : w ∈ U) :
    unvisited U (w :: visited) + 1 ≤ unvisited U visited := by
  unfold unvisited
  induction U with
  | nil => exact absurd hU List.not_mem_nil
  | cons u U ih =>
    have hmono : U.countP (fun v => v ∉ w :: visited) ≤ U.countP (fun v => v ∉ visited) := by
      refine List.countP_mono_left fun v _ hv => ?_
      rw [decide_eq_true_eq, List.mem_cons, not_or] at hv
      exact decide_eq_true hv.2
    rw [List.countP_cons, List.countP_cons]
    by_cases huw : u = w
    · rw [if_neg (by simp [huw]), if_pos (by simp [huw, hw])]
      omega
    · have := ih ((List.mem_cons.mp hU).resolve_left (Ne.symm huw))
      have hsame : decide (u ∉ w :: visited) = decide (u ∉ visited) := by simp [huw]
      rw [hsame]
      omega

theorem foldl_visit_measure {U : List V} {fs : List (V × (Nat → R))}
    (hU : ∀ w rec, (w, rec) ∈ fs → (enter w).isSome = true → w ∈ U) (cap d : Nat) (s : State V Q R) :
    (fs.foldl (visit enter cap d) s).queue.length +
        unvisited U (fs.foldl (visit enter cap d) s).visited ≤
      s.queue.length + unvisited U s.visited := by
  induction fs generalizing s with
  | nil => exact Nat.le_refl _
  | cons f fs ih =>
    rw [List.foldl_cons]
    refine (ih (fun w rec hr => hU w rec (List.mem_cons_of_mem _ hr)) _).trans ?_
    unfold visit
    split
    · exact Nat.le_refl _
    · rename_i hseen
      have hf : f.1 ∉ s.visited := fun hm => hseen (List.contains_iff_mem.mpr hm)
      have hmono : unvisited U (f.1 :: s.visited) ≤ unvisited U s.visited := by
        refine List.countP_mono_left fun v _ hv => ?_
        rw [decide_eq_true_eq, List.mem_cons, not_or] at hv
        exact decide_eq_true hv.2
      dsimp only
      rw [List.length_append]
      unfold pushed
      split
      · cases henter : enter f.1 with
        | none =>
          rw [Option.toList_none, List.map_nil, List.length_nil]
          omega
        | some q =>
          have hcount := unvisited_cons hf (hU f.1 f.2 List.mem_cons_self (by rw [henter]; rfl))
          rw [Option.toList_some, List.map_singleton, List.length_singleton]
          omega
      · rw [List.length_nil]
        omega

/-- **Enough fuel**: every vertex that can be queued is in `U`, and is queued once. -/
theorem loop_isSome {U : List V} {expand : Q → List (V × (Nat → R))}
    (hU : ∀ q w rec, (w, rec) ∈ expand q → (enter w).isSome = true → w ∈ U) {fuel : Nat} {s : State V Q R}
    (hfuel : s.queue.length + unvisited U s.visited < fuel) :
    (loop enter expand cap fuel s).isSome = true := by
  induction fuel generalizing s with
  | zero => exact absurd hfuel (Nat.not_lt_zero _)
  | succ fuel ih =>
    unfold loop
    split
    · rfl
    · rename_i q d rest hq
      rw [hq, List.length_cons] at hfuel
      split
      · exact ih (by dsimp only; omega)
      · have hm := foldl_visit_measure (hU q) cap d { s with queue := rest }
        dsimp only at hm
        exact ih (by omega)

theorem search_isSome {U : List V} {expand : Q → List (V × (Nat → R))}
    (hU : ∀ q w rec, (w, rec) ∈ expand q → (enter w).isSome = true → w ∈ U) (cap : Nat) (a : V)
    (q : Q) : (search enter expand cap (U.length + 2) a q).isSome = true := by
  refine loop_isSome hU ?_
  have hle : unvisited U [a] ≤ U.length := List.countP_le_length
  dsimp only
  rw [List.length_singleton]
  omega

/-! ## What is recorded -/

/-- The node of `v` leads to `w`. -/
def Edge (enter : V → Option Q) (expand : Q → List (V × (Nat → R))) (v w : V) : Prop :=
  ∃ q, enter v = some q ∧ ∃ rec, (w, rec) ∈ expand q

/-- `rec` is what a vertex `n` edges away would record of `w`, one edge further. -/
def Candidate (enter : V → Option Q) (expand : Q → List (V × (Nat → R))) (a : V) (n : Nat) (w : V)
    (rec : Nat → R) : Prop :=
  ∃ u q, Dist (Edge enter expand) a n u ∧ Dist (Edge enter expand) a (n + 1) w ∧
    enter u = some q ∧ (w, rec) ∈ expand q

/-- The state of the search from `a`, where `node q` is the vertex of `q`. -/
structure Inv (enter : V → Option Q) (expand : Q → List (V × (Nat → R))) (cap : Nat) (node : Q → V)
    (a : V) (s : State V Q R) (done : V → Prop) : Prop where
  frontier : Frontier (Edge enter expand) a cap (s.queue.map fun p => (node p.1, p.2)) done
  entered : ∀ p ∈ s.queue, enter (node p.1) = some p.1
  seen : ∀ v, v ∈ s.visited ↔ done v ∨ ∃ m, (v, m) ∈ s.queue.map fun p => (node p.1, p.2)
  dist : ∀ p ∈ s.queue, Dist (Edge enter expand) a p.2 (node p.1)
  sorted : s.queue.Pairwise fun p p' => p.2 ≤ p'.2
  close : ∀ p ∈ s.queue, ∀ p' ∈ s.queue, p'.2 ≤ p.2 + 1
  sound : ∀ r ∈ s.out, ∃ n w rec, n < cap ∧ Candidate enter expand a n w rec ∧ r = rec (n + 1)
  complete : ∀ w ∈ s.visited, w ≠ a →
    ∃ n rec, n < cap ∧ Candidate enter expand a n w rec ∧ rec (n + 1) ∈ s.out

section Run

variable {node : Q → V} {a : V} {s : State V Q R} {done : V → Prop} {q : Q} {d : Nat}
  {rest : List (Q × Nat)}

omit [DecidableEq V] in
theorem Inv.short (h : Inv enter expand cap node a s done) :
    ∀ p ∈ s.queue.map fun p => (node p.1, p.2), ∀ n, Walk (Edge enter expand) a n p.1 → p.2 ≤ n := by
  intro p hp n hw
  obtain ⟨p', hp', rfl⟩ := List.mem_map.mp hp
  exact (h.dist p' hp').2 n hw

omit [DecidableEq V] in
/-- Whatever is no further than the node taken was visited. -/
theorem Inv.visited_of_walk (h : Inv enter expand cap node a s done) (hq : s.queue = (q, d) :: rest)
    (hd : d < cap) {n : Nat} {v : V} (hw : Walk (Edge enter expand) a n v) (hn : n ≤ d) :
    v ∈ s.visited := by
  have hfar : ∀ p ∈ s.queue.map fun p => (node p.1, p.2), d ≤ p.2 := by
    intro p hp
    obtain ⟨p', hp', rfl⟩ := List.mem_map.mp hp
    have hsorted := h.sorted
    rw [hq] at hp' hsorted
    rcases List.mem_cons.mp hp' with rfl | hp'
    · exact Nat.le_refl _
    · exact (List.pairwise_cons.mp hsorted).1 p' hp'
  rw [h.seen]
  cases n with
  | zero =>
    rw [walk_zero_iff.mp hw]
    exact h.frontier.start
  | succ n =>
    obtain ⟨u, hu, he⟩ := walk_succ_iff.mp hw
    have hdone := h.frontier.done_below h.short hfar hu (by omega) (by omega)
    exact h.frontier.next u hdone n hu (by omega) v he

omit [DecidableEq V] in
theorem Inv.head (h : Inv enter expand cap node a s done) (hq : s.queue = (q, d) :: rest) :
    Dist (Edge enter expand) a d (node q) ∧ enter (node q) = some q :=
  have hm : (q, d) ∈ s.queue := hq ▸ List.mem_cons_self
  ⟨h.dist (q, d) hm, h.entered (q, d) hm⟩

omit [DecidableEq V] in
/-- A vertex met for the first time is one edge further: anything nearer was visited. -/
theorem Inv.dist_new (h : Inv enter expand cap node a s done) (hq : s.queue = (q, d) :: rest)
    (hd : d < cap) {w : V} {rec : Nat → R} (hr : (w, rec) ∈ expand q) (hw : w ∉ s.visited) :
    Dist (Edge enter expand) a (d + 1) w := by
  obtain ⟨hdist, hentered⟩ := h.head hq
  refine ⟨hdist.1.snoc ⟨q, hentered, rec, hr⟩, fun m hm => ?_⟩
  by_contra hlt
  exact hw (h.visited_of_walk hq hd hm (by omega))

omit [DecidableEq V] in
/-- What was visited is done, is the node taken, or is still in the queue. -/
theorem Inv.seen_cons (h : Inv enter expand cap node a s done) (hq : s.queue = (q, d) :: rest)
    (v : V) : v ∈ s.visited ↔ (done v ∨ v = node q) ∨
      ∃ m, (v, m) ∈ rest.map fun p => (node p.1, p.2) := by
  rw [h.seen, hq, List.map_cons]
  exact done_or_pending_cons_iff

omit [DecidableEq V] in
/-- The node taken is `cap` edges away. -/
theorem Inv.cut (h : Inv enter expand cap node a s done) (hq : s.queue = (q, d) :: rest)
    (hd : cap ≤ d) :
    Inv enter expand cap node a { s with queue := rest } fun u => done u ∨ u = node q := by
  have hmem : ∀ p ∈ rest, p ∈ s.queue := fun p hp => hq ▸ List.mem_cons_of_mem _ hp
  have hf := h.frontier
  have hsorted := h.sorted
  rw [hq, List.map_cons] at hf
  rw [hq] at hsorted
  refine ⟨hf.cut fun n hn hw => ?_, fun p hp => h.entered p (hmem p hp), h.seen_cons hq,
    fun p hp => h.dist p (hmem p hp), (List.pairwise_cons.mp hsorted).2,
    fun p hp p' hp' => h.close p (hmem p hp) p' (hmem p' hp'), h.sound, h.complete⟩
  have := (h.head hq).1.2 n hw
  omega

/-! The node taken is expanded: `s'` is the state after its neighbours were visited. -/

section Expand

variable {s' : State V Q R}

/-- The neighbours met for the first time that are not queued. -/
def Stopped (enter : V → Option Q) (expand : Q → List (V × (Nat → R))) (cap : Nat) (q : Q) (d : Nat)
    (visited : List V) (u : V) : Prop :=
  (∃ rec, (u, rec) ∈ expand q) ∧ u ∉ visited ∧ pushed enter cap (d + 1) u = []

omit [DecidableEq V] in
theorem Visited.queued (hnode : ∀ v q, enter v = some q → node q = v)
    (hv : Visited enter cap d (expand q) { s with queue := rest } s') {p : Q × Nat}
    (hp : p ∈ s'.queue) : p ∈ rest ∨
      ∃ rec, (node p.1, rec) ∈ expand q ∧ node p.1 ∉ s.visited ∧ enter (node p.1) = some p.1 ∧
        p.2 = d + 1 := by
  rcases (hv.queue_iff p).mp hp with hp | ⟨w, rec, hr, hw, hp⟩
  · exact .inl hp
  · obtain ⟨-, he, hp2⟩ := mem_pushed.mp hp
    obtain rfl := hnode w p.1 he
    exact .inr ⟨rec, hr, hw, he, hp2⟩

omit [DecidableEq V] in
theorem Visited.keep (hv : Visited enter cap d (expand q) { s with queue := rest } s') :
    ∀ p ∈ rest.map (fun p => (node p.1, p.2)), p ∈ s'.queue.map fun p => (node p.1, p.2) := by
  intro p hp
  obtain ⟨p', hp', rfl⟩ := List.mem_map.mp hp
  exact List.mem_map_of_mem (f := fun p : Q × Nat => (node p.1, p.2))
    ((hv.queue_iff p').mpr (.inl hp'))

theorem Visited.seen (hnode : ∀ v q, enter v = some q → node q = v)
    (h : Inv enter expand cap node a s done) (hq : s.queue = (q, d) :: rest)
    (hv : Visited enter cap d (expand q) { s with queue := rest } s') (v : V) :
    v ∈ s'.visited ↔ ((done v ∨ v = node q) ∨ Stopped enter expand cap q d s.visited v) ∨
      ∃ m, (v, m) ∈ s'.queue.map fun p => (node p.1, p.2) := by
  constructor
  · intro hm
    by_cases hvis : v ∈ s.visited
    · rcases (h.seen_cons hq v).mp hvis with hdone | ⟨m, hp⟩
      · exact .inl (.inl hdone)
      · exact .inr ⟨m, hv.keep _ hp⟩
    · obtain ⟨rec, hr⟩ := ((hv.visited_iff v).mp hm).resolve_left hvis
      cases hpushed : pushed enter cap (d + 1) v with
      | nil => exact .inl (.inr ⟨⟨rec, hr⟩, hvis, hpushed⟩)
      | cons p ps =>
        have hp : p ∈ pushed enter cap (d + 1) v := hpushed ▸ List.mem_cons_self
        refine .inr ⟨p.2, List.mem_map.mpr ⟨p, (hv.queue_iff p).mpr (.inr ⟨v, rec, hr, hvis, hp⟩), ?_⟩⟩
        rw [hnode v p.1 (mem_pushed.mp hp).2.1]
  · have hold : v ∈ s.visited → v ∈ s'.visited := fun hm => (hv.visited_iff v).mpr (.inl hm)
    rintro ((hdone | ⟨⟨rec, hr⟩, -, -⟩) | ⟨m, hm⟩)
    · exact hold ((h.seen_cons hq v).mpr (.inl hdone))
    · exact (hv.visited_iff v).mpr (.inr ⟨rec, hr⟩)
    · obtain ⟨p, hp, heq⟩ := List.mem_map.mp hm
      cases heq
      rcases hv.queued hnode hp with hp | ⟨rec, hr, -⟩
      · exact hold ((h.seen_cons hq _).mpr (.inr ⟨p.2, List.mem_map_of_mem hp⟩))
      · exact (hv.visited_iff _).mpr (.inr ⟨rec, hr⟩)

theorem Visited.frontier (hnode : ∀ v q, enter v = some q → node q = v)
    (h : Inv enter expand cap node a s done) (hq : s.queue = (q, d) :: rest) (hd : d < cap)
    (hv : Visited enter cap d (expand q) { s with queue := rest } s') :
    Frontier (Edge enter expand) a cap (s'.queue.map fun p => (node p.1, p.2))
      fun v => (done v ∨ v = node q) ∨ Stopped enter expand cap q d s.visited v := by
  have hentered := (h.head hq).2
  have hf := h.frontier
  rw [hq, List.map_cons] at hf
  refine hf.advance hv.keep (fun p hp => ?_) (fun u hu => .inl hu) (fun u hu => ?_) fun w he => ?_
  · obtain ⟨p', hp', rfl⟩ := List.mem_map.mp hp
    rcases hv.queued hnode hp' with hp' | ⟨rec, hr, -, -, hp2⟩
    · exact .inl (List.mem_map_of_mem (f := fun p : Q × Nat => (node p.1, p.2)) hp')
    · exact .inr ⟨⟨q, hentered, rec, hr⟩, hp2⟩
  · -- a neighbour that is not queued has no node, or is `cap` edges away
    rcases hu with hu | ⟨⟨rec, hr⟩, hvis, hpushed⟩
    · exact .inl hu
    · refine .inr fun n hn hw w => ?_
      rintro ⟨q', he, -⟩
      have hfar := (h.dist_new hq hd hr hvis).2 n hw
      have hin : (q', d + 1) ∈ pushed enter cap (d + 1) u := mem_pushed.mpr ⟨by omega, he, rfl⟩
      rw [hpushed] at hin
      cases hin
  · obtain ⟨q', he, rec, hr⟩ := he
    rw [hentered] at he
    cases he
    exact (hv.seen hnode h hq w).mp ((hv.visited_iff w).mpr (.inr ⟨rec, hr⟩))

omit [DecidableEq V] in
theorem Visited.sorted (h : Inv enter expand cap node a s done) (hq : s.queue = (q, d) :: rest)
    (hv : Visited enter cap d (expand q) { s with queue := rest } s') :
    s'.queue.Pairwise fun p p' => p.2 ≤ p'.2 := by
  have hsorted := h.sorted
  rw [hq] at hsorted
  obtain ⟨tail, hqueue, htail⟩ := hv.queue
  rw [hqueue]
  exact pairwise_append_level (List.pairwise_cons.mp hsorted).2
    (fun p hp => h.close (q, d) (hq ▸ List.mem_cons_self) p (hq ▸ List.mem_cons_of_mem _ hp)) htail

omit [DecidableEq V] in
/-- The queue holds nodes `d` and `d + 1` edges away. -/
theorem Visited.level (hnode : ∀ v q, enter v = some q → node q = v)
    (h : Inv enter expand cap node a s done) (hq : s.queue = (q, d) :: rest)
    (hv : Visited enter cap d (expand q) { s with queue := rest } s') :
    ∀ p ∈ s'.queue, d ≤ p.2 ∧ p.2 ≤ d + 1 := by
  intro p hp
  have hsorted := h.sorted
  rw [hq] at hsorted
  rcases hv.queued hnode hp with hp | ⟨_, _, _, _, hp2⟩
  · exact ⟨(List.pairwise_cons.mp hsorted).1 p hp,
      h.close (q, d) (hq ▸ List.mem_cons_self) p (hq ▸ List.mem_cons_of_mem _ hp)⟩
  · omega

end Expand

/-- **The node taken is expanded.** -/
theorem Inv.advance (hnode : ∀ v q, enter v = some q → node q = v)
    (h : Inv enter expand cap node a s done) (hq : s.queue = (q, d) :: rest) (hd : d < cap) :
    ∃ done', Inv enter expand cap node a
      ((expand q).foldl (visit enter cap d) { s with queue := rest }) done' := by
  have hv : Visited enter cap d (expand q) { s with queue := rest } _ := foldl_visit d (expand q) _
  generalize (expand q).foldl (visit enter cap d) { s with queue := rest } = s' at hv ⊢
  have hmem : ∀ p ∈ rest, p ∈ s.queue := fun p hp => hq ▸ List.mem_cons_of_mem _ hp
  obtain ⟨hdist, hentered⟩ := h.head hq
  refine ⟨_, hv.frontier hnode h hq hd, ?_, hv.seen hnode h hq, ?_, hv.sorted h hq, ?_, ?_, ?_⟩
  · intro p hp
    rcases hv.queued hnode hp with hp | ⟨rec, -, -, he, -⟩
    · exact h.entered p (hmem p hp)
    · exact he
  · intro p hp
    rcases hv.queued hnode hp with hp | ⟨rec, hr, hw, -, hp2⟩
    · exact h.dist p (hmem p hp)
    · rw [hp2]
      exact h.dist_new hq hd hr hw
  · intro p hp p' hp'
    have := hv.level hnode h hq p hp
    have := hv.level hnode h hq p' hp'
    omega
  · intro r hr
    rcases hv.out_sound r hr with hr | ⟨w, rec, hm, hw, rfl⟩
    · exact h.sound r hr
    · exact ⟨d, w, rec, hd, ⟨node q, q, hdist, h.dist_new hq hd hm hw, hentered, hm⟩, rfl⟩
  · intro w hm hwa
    by_cases hvis : w ∈ s.visited
    · obtain ⟨n, rec, hn, hc, hr⟩ := h.complete w hvis hwa
      exact ⟨n, rec, hn, hc, hv.out_keep _ hr⟩
    · obtain ⟨rec, hr⟩ := ((hv.visited_iff w).mp hm).resolve_left hvis
      obtain ⟨rec', hr', ho⟩ := hv.out_complete w rec hr hvis
      exact ⟨d, rec', hd, ⟨node q, q, hdist, h.dist_new hq hd hr' hvis, hentered, hr'⟩, ho⟩

/-- **What the loop records.** -/
theorem loop_spec (hnode : ∀ v q, enter v = some q → node q = v) {fuel : Nat} {out : List R}
    (h : Inv enter expand cap node a s done) (hout : loop enter expand cap fuel s = some out) :
    (∀ r ∈ out, ∃ n w rec, n < cap ∧ Candidate enter expand a n w rec ∧ r = rec (n + 1)) ∧
      ∀ n w, n < cap → Dist (Edge enter expand) a (n + 1) w →
        ∃ rec, Candidate enter expand a n w rec ∧ rec (n + 1) ∈ out := by
  induction fuel generalizing s done with
  | zero => cases hout
  | succ fuel ih =>
    unfold loop at hout
    split at hout
    · rename_i hq
      cases hout
      refine ⟨h.sound, fun n w hn hdist => ?_⟩
      have hf := h.frontier
      rw [hq, List.map_nil] at hf
      have hvis := (h.seen w).mpr (.inl (hf.done_of_walk hdist.1 hn))
      have hwa : w ≠ a := by
        rintro rfl
        have := hdist.2 0 .refl
        omega
      obtain ⟨m, rec, -, hc, hr⟩ := h.complete w hvis hwa
      obtain ⟨u, q, hu, hw, hrest⟩ := hc
      obtain rfl : m = n := Nat.succ.inj (hw.unique hdist)
      exact ⟨rec, ⟨u, q, hu, hw, hrest⟩, hr⟩
    · rename_i q d rest hq
      split at hout
      · rename_i hd
        exact ih (h.cut hq hd) hout
      · rename_i hd
        obtain ⟨done', h'⟩ := h.advance hnode hq (not_le.mp hd)
        exact ih h' hout

omit [DecidableEq V] in
/-- The start of a search. -/
theorem Inv.start (hnode : ∀ v q, enter v = some q → node q = v) (henter : enter a = some q) :
    Inv enter expand cap node a ⟨[a], [(q, 0)], []⟩ fun _ => False := by
  have hqa : node q = a := hnode a q henter
  refine ⟨?_, ?_, ?_, ?_, List.pairwise_singleton _ _, ?_, ?_, ?_⟩
  · rw [List.map_singleton, hqa]
    exact Frontier.initial _ a cap
  · intro p hp
    rw [List.mem_singleton.mp hp, hqa, henter]
  · intro v
    simp [hqa]
  · intro p hp
    rw [List.mem_singleton.mp hp, hqa]
    exact dist_zero_iff.mpr rfl
  · intro p hp p' hp'
    rw [List.mem_singleton.mp hp, List.mem_singleton.mp hp']
    exact Nat.le_succ _
  · exact fun r hr => absurd hr List.not_mem_nil
  · exact fun w hw hwa => absurd (List.mem_singleton.mp hw) hwa

/-- A record is made of a vertex one step further than the one it was met from. -/
theorem search_sound (hnode : ∀ v q, enter v = some q → node q = v) {fuel : Nat} {out : List R}
    (henter : enter a = some q) (hout : search enter expand cap fuel a q = some out) {r : R}
    (hr : r ∈ out) : ∃ n w rec, n < cap ∧ Candidate enter expand a n w rec ∧ r = rec (n + 1) :=
  (loop_spec hnode (Inv.start hnode henter) hout).1 r hr

/-- Every vertex within `cap` edges is recorded, at its distance. -/
theorem search_complete (hnode : ∀ v q, enter v = some q → node q = v) {fuel : Nat} {out : List R}
    (henter : enter a = some q) (hout : search enter expand cap fuel a q = some out) {n : Nat} {w : V}
    (hn : n < cap) (hw : Dist (Edge enter expand) a (n + 1) w) :
    ∃ rec, Candidate enter expand a n w rec ∧ rec (n + 1) ∈ out :=
  (loop_spec hnode (Inv.start hnode henter) hout).2 n w hn hw

end Run

end Bfs
