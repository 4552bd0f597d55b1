import Unimatrix.Lib.Digraph

/-!
# Breadth-first search from several sources

`Reaches E S n v`: a walk of `n` edges leads from a source to `v`. `Depth E S n v`: none is shorter.

`Layers E S cap queue visited` is what a breadth-first search keeps that expands nothing `cap` edges away. The
vertex at the head of the queue stays there while its successors are visited one after the other, so its rules
are about single steps, whatever a program does besides:

* `Layers.start`; `Layers.visit` and `Layers.visit_sink`, a successor of the head is met for the first
  time, and queued unless it leads nowhere (`Layers.enter`, where the edges are hops of nodes); `Layers.pop`, the
  head has no successor left.
* **`Layers.mem_of_reaches`**: the search has visited whatever is as near as its head, **`Layers.near`**: and
  nothing further than one step beyond it. **`Layers.exhausted`**: in the end it has visited what is at most
  `cap` edges away.
-/

namespace Digraph

variable {V : Type} {E : V → V → Prop} {S : V → Prop}

/-- A walk of `n` edges leads from a source to `v`. -/
def Reaches (E : V → V → Prop) (S : V → Prop) (n : Nat) (v : V) : Prop := ∃ s, S s ∧ Walk E s n v

/-- The shortest walk from a source to `v` has `n` edges. -/
def Depth (E : V → V → Prop) (S : V → Prop) (n : Nat) (v : V) : Prop :=
  Reaches E S n v ∧ ∀ m, Reaches E S m v → n ≤ m

theorem reaches_zero_iff {v : V} : Reaches E S 0 v ↔ S v := by
  constructor
  · rintro ⟨s, hs, hw⟩
    rwa [walk_zero_iff.mp hw]
  · exact fun hs => ⟨v, hs, .refl⟩

theorem reaches_succ_iff {n : Nat} {w : V} :
    Reaches E S (n + 1) w ↔ ∃ v, Reaches E S n v ∧ E v w := by
  constructor
  · rintro ⟨s, hs, hw⟩
    obtain ⟨v, hv, he⟩ := walk_succ_iff.mp hw
    exact ⟨v, ⟨s, hs, hv⟩, he⟩
  · rintro ⟨v, ⟨s, hs, hv⟩, he⟩
    exact ⟨s, hs, hv.snoc he⟩

theorem Reaches.step {n : Nat} {v w : V} (h : Reaches E S n v) (he : E v w) : Reaches E S (n + 1) w :=
  reaches_succ_iff.mpr ⟨v, h, he⟩

theorem Depth.unique {v : V} {m n : Nat} (h : Depth E S m v) (h' : Depth E S n v) : m = n :=
  Nat.le_antisymm (h.2 n h'.1) (h'.2 m h.1)

theorem depth_zero_iff {v : V} : Depth E S 0 v ↔ S v := by
  constructor
  · exact fun h => reaches_zero_iff.mp h.1
  · exact fun h => ⟨reaches_zero_iff.mpr h, fun m _ => Nat.zero_le m⟩

/-- What is reached has a depth. -/
theorem Reaches.depth {n : Nat} {v : V} (h : Reaches E S n v) : ∃ m ≤ n, Depth E S m v := by
  classical
  have hex : ∃ m, Reaches E S m v := ⟨n, h⟩
  exact ⟨Nat.find hex, Nat.find_min' hex h, Nat.find_spec hex, fun m hm => Nat.find_min' hex hm⟩

/-! ## The search -/

/-- What a breadth-first search keeps. -/
structure Layers (E : V → V → Prop) (S : V → Prop) (cap : Nat) (queue : List (V × Nat))
    (visited : V → Prop) : Prop where
  sources : ∀ s, S s → visited s
  sorted : queue.Pairwise fun p q => p.2 ≤ q.2
  spread : ∀ p ∈ queue, ∀ q ∈ queue, q.2 ≤ p.2 + 1
  queued : ∀ p ∈ queue, visited p.1 ∧ Depth E S p.2 p.1
  near : ∀ v, visited v → ∃ n ≤ cap, Depth E S n v ∧ ∀ p ∈ queue, n ≤ p.2 + 1
  closed : ∀ v, visited v → (∃ n, (v, n) ∈ queue) ∨ (∀ w, E v w → visited w) ∨
    ∀ n, Reaches E S n v → cap ≤ n

/-- The sources are visited and queued, those excepted that lead nowhere. -/
theorem Layers.start {cap : Nat} {queue : List (V × Nat)} (hq : ∀ p ∈ queue, S p.1 ∧ p.2 = 0)
    (hall : ∀ s, S s → (s, 0) ∈ queue ∨ ∀ w, ¬ E s w) : Layers E S cap queue S where
  sources := fun _ hs => hs
  sorted := by
    refine List.pairwise_iff_forall_sublist.mpr fun {p q} hpq => ?_
    rw [(hq p (hpq.subset List.mem_cons_self)).2]
    exact Nat.zero_le _
  spread p hp q hqm := by
    rw [(hq q hqm).2]
    exact Nat.zero_le _
  queued p hp := by
    obtain ⟨hs, hd⟩ := hq p hp
    rw [hd]
    exact ⟨hs, depth_zero_iff.mpr hs⟩
  near v hv := ⟨0, Nat.zero_le _, depth_zero_iff.mpr hv, fun _ _ => Nat.zero_le _⟩
  closed v hv := by
    rcases hall v hv with hm | hnone
    · exact .inl ⟨0, hm⟩
    · exact .inr (.inl fun w he => absurd he (hnone w))

variable {cap d : Nat} {v w : V} {rest : List (V × Nat)} {queue : List (V × Nat)} {visited : V → Prop}

theorem Layers.of_iff {visited' : V → Prop} (h : Layers E S cap queue visited)
    (hv : ∀ u, visited u ↔ visited' u) : Layers E S cap queue visited' := by
  have heq : visited = visited' := funext fun u => propext (hv u)
  rwa [← heq]

theorem Layers.head_le (h : Layers E S cap ((v, d) :: rest) visited) {p : V × Nat}
    (hp : p ∈ (v, d) :: rest) : d ≤ p.2 := by
  rcases List.mem_cons.mp hp with rfl | hp
  · exact Nat.le_refl _
  · exact List.rel_of_pairwise_cons h.sorted hp

/-- **What is as near as the head was visited.** -/
theorem Layers.mem_of_reaches (h : Layers E S cap ((v, d) :: rest) visited) {n : Nat} {u : V}
    (hu : Reaches E S n u) (hn : n ≤ d) (hcap : n ≤ cap) : visited u := by
  induction n generalizing u with
  | zero => exact h.sources u (reaches_zero_iff.mp hu)
  | succ n ih =>
    obtain ⟨t, ht, he⟩ := reaches_succ_iff.mp hu
    have hvisited : visited t := ih ht (by omega) (by omega)
    rcases h.closed t hvisited with ⟨k, hk⟩ | hall | hfar
    · have hdeep : k ≤ n := (h.queued _ hk).2.2 n ht
      have hhead : d ≤ k := h.head_le hk
      omega
    · exact hall u he
    · have := hfar n ht
      omega

/-- A successor of the head that was not visited is one step further. -/
theorem Layers.depth_succ (h : Layers E S cap ((v, d) :: rest) visited) (he : E v w) (hw : ¬ visited w)
    (hd : d < cap) : Depth E S (d + 1) w := by
  refine ⟨(h.queued _ List.mem_cons_self).2.1.step he, fun m hm => ?_⟩
  by_contra hlt
  exact hw (h.mem_of_reaches hm (by omega) (by omega))

/-- A successor of the head is met for the first time, and queued. -/
theorem Layers.visit (h : Layers E S cap ((v, d) :: rest) visited) (he : E v w) (hw : ¬ visited w)
    (hd : d < cap) :
    Layers E S cap ((v, d) :: (rest ++ [(w, d + 1)])) fun u => visited u ∨ u = w := by
  have hdepth := h.depth_succ he hw hd
  have hmem : ∀ p, p ∈ (v, d) :: (rest ++ [(w, d + 1)]) ↔ p ∈ (v, d) :: rest ∨ p = (w, d + 1) := by
    intro p
    rw [← List.cons_append, List.mem_append, List.mem_singleton]
  have hle : ∀ p ∈ (v, d) :: rest, p.2 ≤ d + 1 := fun p hp => h.spread (v, d) List.mem_cons_self p hp
  have hge : ∀ p ∈ (v, d) :: rest, d ≤ p.2 := fun p hp => h.head_le hp
  refine {
    sources := fun s hs => .inl (h.sources s hs)
    sorted := ?_
    spread := ?_
    queued := ?_
    near := ?_
    closed := ?_ }
  · rw [← List.cons_append, List.pairwise_append]
    refine ⟨h.sorted, List.pairwise_singleton _ _, fun p hp q hq => ?_⟩
    rw [List.mem_singleton.mp hq]
    exact hle p hp
  · intro p hp q hq
    rcases (hmem p).mp hp with hp | rfl <;> rcases (hmem q).mp hq with hq | rfl
    · exact h.spread p hp q hq
    · exact Nat.succ_le_succ (hge p hp)
    · exact Nat.le_succ_of_le (hle q hq)
    · exact Nat.le_succ _
  · intro p hp
    rcases (hmem p).mp hp with hp | rfl
    · exact ⟨.inl (h.queued p hp).1, (h.queued p hp).2⟩
    · exact ⟨.inr rfl, hdepth⟩
  · rintro u (hu | rfl)
    · obtain ⟨n, hn, hdep, hbelow⟩ := h.near u hu
      refine ⟨n, hn, hdep, fun p hp => ?_⟩
      have hhead := hbelow (v, d) List.mem_cons_self
      rcases (hmem p).mp hp with hp | rfl
      · exact hbelow p hp
      · exact Nat.le_succ_of_le hhead
    · refine ⟨d + 1, hd, hdepth, fun p hp => ?_⟩
      rcases (hmem p).mp hp with hp | rfl
      · exact Nat.succ_le_succ (hge p hp)
      · exact Nat.le_succ _
  · rintro u (hu | rfl)
    · rcases h.closed u hu with ⟨n, hn⟩ | hall | hfar
      · exact .inl ⟨n, (hmem _).mpr (.inl hn)⟩
      · exact .inr (.inl fun x hx => .inl (hall x hx))
      · exact .inr (.inr hfar)
    · exact .inl ⟨d + 1, (hmem _).mpr (.inr rfl)⟩

/-- A successor of the head that leads nowhere is met for the first time, and not queued. -/
theorem Layers.visit_sink (h : Layers E S cap ((v, d) :: rest) visited) (he : E v w) (hw : ¬ visited w)
    (hd : d < cap) (hsink : ∀ x, ¬ E w x) :
    Layers E S cap ((v, d) :: rest) fun u => visited u ∨ u = w where
  sources := fun s hs => .inl (h.sources s hs)
  sorted := h.sorted
  spread := h.spread
  queued := fun p hp => ⟨.inl (h.queued p hp).1, (h.queued p hp).2⟩
  near := by
    rintro u (hu | rfl)
    · exact h.near u hu
    · exact ⟨d + 1, hd, h.depth_succ he hw hd, fun p hp => Nat.succ_le_succ (h.head_le hp)⟩
  closed := by
    rintro u (hu | rfl)
    · rcases h.closed u hu with hq | hall | hfar
      · exact .inl hq
      · exact .inr (.inl fun x hx => .inl (hall x hx))
      · exact .inr (.inr hfar)
    · exact .inr (.inl fun x hx => absurd hx (hsink x))

/-- The successors of the head were visited, or it is not to be expanded. -/
theorem Layers.pop (h : Layers E S cap ((v, d) :: rest) visited)
    (hall : cap ≤ d ∨ ∀ w, E v w → visited w) : Layers E S cap rest visited where
  sources := h.sources
  sorted := h.sorted.of_cons
  spread p hp q hq := h.spread p (List.mem_cons_of_mem _ hp) q (List.mem_cons_of_mem _ hq)
  queued p hp := h.queued p (List.mem_cons_of_mem _ hp)
  near u hu := by
    obtain ⟨n, hn, hdep, hbelow⟩ := h.near u hu
    exact ⟨n, hn, hdep, fun p hp => hbelow p (List.mem_cons_of_mem _ hp)⟩
  closed u hu := by
    rcases h.closed u hu with ⟨n, hn⟩ | hout | hfar
    · rcases List.mem_cons.mp hn with heq | hn
      · cases heq
        rcases hall with hcap | hall
        · refine .inr (.inr fun m hm => hcap.trans ?_)
          exact (h.queued _ List.mem_cons_self).2.2 m hm
        · exact .inr (.inl hall)
      · exact .inl ⟨n, hn⟩
    · exact .inr (.inl hout)
    · exact .inr (.inr hfar)

/-- **A search that has nothing left has visited what is at most `cap` edges away.** -/
theorem Layers.exhausted (h : Layers E S cap [] visited) {u : V} :
    visited u ↔ ∃ n ≤ cap, Reaches E S n u := by
  constructor
  · intro hu
    obtain ⟨n, hn, hdep, -⟩ := h.near u hu
    exact ⟨n, hn, hdep.1⟩
  · rintro ⟨n, hn, hu⟩
    induction n generalizing u with
    | zero => exact h.sources u (reaches_zero_iff.mp hu)
    | succ n ih =>
      obtain ⟨t, ht, he⟩ := reaches_succ_iff.mp hu
      rcases h.closed t (ih (by omega) ht) with ⟨k, hk⟩ | hall | hfar
      · cases hk
      · exact hall u he
      · have := hfar n ht
        omega

/-- What was visited is at most one step further than the head, what was not is further than the head. -/
theorem Layers.nearer (h : Layers E S cap ((v, d) :: rest) visited) {u x : V} {m n : Nat} (hu : visited u)
    (hx : ¬ visited x) (hm : Depth E S m u) (hn : Depth E S n x) (hcap : n ≤ cap) : m ≤ n := by
  obtain ⟨k, -, hk, hbelow⟩ := h.near u hu
  obtain rfl := hk.unique hm
  have hle := hbelow (v, d) List.mem_cons_self
  by_contra hlt
  exact hx (h.mem_of_reaches hn.1 (by dsimp only at hle; omega) hcap)

/-! ## Hops

A search finds its edges as the hops of the nodes it has for the vertices. -/

variable {Q H : Type}

/-- One hop from `u` to `w`. -/
def HopEdge (Hop : V → H → Prop) (far : H → V) (u w : V) : Prop := ∃ h, Hop u h ∧ far h = w

/-- The node of `u` has the hop `h`. -/
def Leads (enter : V → Option Q) (expand : Q → List H) (u : V) (h : H) : Prop :=
  ∃ q, enter u = some q ∧ h ∈ expand q

/-- Where there is no node there is no edge. -/
theorem not_hopEdge {enter : V → Option Q} {expand : Q → List H} {far : H → V} {v : V} (h : enter v = none)
    (w : V) : ¬ HopEdge (Leads enter expand) far v w := by
  rintro ⟨_, ⟨q, hq, -⟩, -⟩
  rw [h] at hq
  cases hq

/-- The edges of a vertex are the hops of its node. -/
theorem hopEdge_iff {enter : V → Option Q} {expand : Q → List H} {far : H → V} {v w : V} {q : Q}
    (hq : enter v = some q) : HopEdge (Leads enter expand) far v w ↔ ∃ h ∈ expand q, far h = w := by
  constructor
  · rintro ⟨h, ⟨q', hq', hh⟩, rfl⟩
    rw [hq] at hq'
    cases hq'
    exact ⟨h, hh, rfl⟩
  · rintro ⟨h, hh, rfl⟩
    exact ⟨h, ⟨q, hq, hh⟩, rfl⟩

/-- **A hop of the head leads to a vertex met for the first time**, and its node is queued if it has one. -/
theorem Layers.enter {enter : V → Option Q} {expand : Q → List H} {far : H → V} {node : Q → V}
    (hnode : ∀ v q, enter v = some q → node q = v)
    (h : Layers (HopEdge (Leads enter expand) far) S cap ((v, d) :: rest) visited)
    (he : HopEdge (Leads enter expand) far v w) (hw : ¬ visited w) (hd : d < cap) :
    Layers (HopEdge (Leads enter expand) far) S cap
      ((v, d) :: (rest ++ (enter w).toList.map fun q => (node q, d + 1))) fun u => visited u ∨ u = w := by
  cases henter : enter w with
  | none =>
    rw [Option.toList_none, List.map_nil, List.append_nil]
    exact h.visit_sink he hw hd (not_hopEdge henter)
  | some q =>
    rw [Option.toList_some, List.map_singleton, hnode w q henter]
    exact h.visit he hw hd

end Digraph
