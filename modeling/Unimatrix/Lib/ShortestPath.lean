import Unimatrix.Lib.Bfs
import Unimatrix.Lib.Layers

/-!
# Breadth-first search for a target that carries its paths

`expand` lists the hops from a queued node, each to the vertex `far` has for it. The search ends at the first
hop to the target; of the others it queues those to a vertex met for the first time, as the node `enter` has
for it, if any, each with the hops that lead there. Nothing is expanded `cap` hops away.

The target is compared before what was visited is looked at, so a path may come back to where it began.

* `loop` takes `fuel` and returns `none` when it would need more; **`search_isSome`** says how much is enough.
* **`search_spec`**: what is found is a shortest path, and nothing is found only where no path is short enough.
-/

namespace ShortestPath

open Digraph

variable {V Q H : Type}

/-! ## Paths -/

/-- The hops lead from `u` to `w`, one after the other. -/
def IsPath (Hop : V → H → Prop) (far : H → V) : V → List H → V → Prop
  | u, [], w => u = w
  | u, h :: p, w => Hop u h ∧ IsPath Hop far (far h) p w

instance instDecidableIsPath [DecidableEq V] (Hop : V → H → Prop) [∀ u h, Decidable (Hop u h)] (far : H → V) :
    (u : V) → (p : List H) → (w : V) → Decidable (IsPath Hop far u p w)
  | u, [], w => inferInstanceAs (Decidable (u = w))
  | u, h :: p, w =>
    have : Decidable (IsPath Hop far (far h) p w) := instDecidableIsPath Hop far (far h) p w
    inferInstanceAs (Decidable (Hop u h ∧ IsPath Hop far (far h) p w))

variable {Hop : V → H → Prop} {far : H → V} {u v w : V}

theorem IsPath.concat {p : List H} (hp : IsPath Hop far u p v) {h : H} (hh : Hop v h) :
    IsPath Hop far u (p ++ [h]) (far h) := by
  induction p generalizing u with
  | nil =>
    obtain rfl : u = v := hp
    exact ⟨hh, rfl⟩
  | cons h' p ih => exact ⟨hp.1, ih hp.2⟩

theorem IsPath.walk {p : List H} (hp : IsPath Hop far u p w) : Walk (HopEdge Hop far) u p.length w := by
  induction p generalizing u with
  | nil =>
    obtain rfl : u = w := hp
    exact .refl
  | cons h p ih => exact (ih hp.2).cons ⟨h, hp.1, rfl⟩

/-- The last hop of a path, and how far it begins. -/
theorem IsPath.last_hop {p : List H} (hp : IsPath Hop far u p w) (hpos : 1 ≤ p.length) :
    ∃ n x, p.length = n + 1 ∧ Reaches (HopEdge Hop far) (· = u) n x ∧ HopEdge Hop far x w := by
  obtain ⟨n, hn⟩ := Nat.exists_eq_succ_of_ne_zero (Nat.pos_iff_ne_zero.mp hpos)
  have hwalk := hp.walk
  rw [hn] at hwalk
  obtain ⟨x, hx, he⟩ := walk_succ_iff.mp hwalk
  exact ⟨n, x, hn, ⟨u, rfl, hx⟩, he⟩

/-- A path of 1 to `cap` hops than which none is shorter. -/
structure Shortest (Hop : V → H → Prop) (far : H → V) (cap : Nat) (u w : V) (p : List H) : Prop where
  path : IsPath Hop far u p w
  pos : 1 ≤ p.length
  le_cap : p.length ≤ cap
  least : ∀ p', IsPath Hop far u p' w → 1 ≤ p'.length → p.length ≤ p'.length

/-! ## The search -/

/-- A queued node with the hops that lead to it. -/
structure Item (Q H : Type) where
  node : Q
  path : List H
  depth : Nat

/-- What was visited and what is queued. -/
structure State (V Q H : Type) where
  visited : List V
  queue : List (Item Q H)

section Search

variable [DecidableEq V]
variable (enter : V → Option Q) (expand : Q → List H) (far : H → V) (cap : Nat) (target : V)

/-- A vertex is met for the first time along `h`. -/
def State.add (s : State V Q H) (item : Item Q H) (h : H) : State V Q H :=
  ⟨far h :: s.visited,
    s.queue ++ (enter (far h)).toList.map fun q => ⟨q, item.path ++ [h], item.depth + 1⟩⟩

/-- The hops from a node, one after the other: a path to the target, or the state after them. -/
def scan (item : Item Q H) : List H → State V Q H → Except (List H) (State V Q H)
  | [], s => .ok s
  | h :: hops, s =>
    if far h = target then .error (item.path ++ [h])
    else if s.visited.contains (far h) then scan item hops s
    else scan item hops (s.add enter far item h)

/-- The loop over the queue. -/
def loop : Nat → State V Q H → Option (Option (List H))
  | 0, _ => none
  | fuel + 1, s =>
    match s.queue with
    | [] => some none
    | item :: rest =>
      if cap ≤ item.depth then loop fuel { s with queue := rest }
      else match scan enter far target item (expand item.node) { s with queue := rest } with
        | .error path => some (some path)
        | .ok s' => loop fuel s'

/-- The search from `a`, whose node is `q`. -/
def search (fuel : Nat) (a : V) (q : Q) : Option (Option (List H)) :=
  loop enter expand far cap target fuel ⟨[a], [⟨q, [], 0⟩]⟩

end Search

/-! ## Fuel -/

section Fuel

variable [DecidableEq V] {enter : V → Option Q} {expand : Q → List H} {cap : Nat} {target : V} {U : List V}

theorem add_measure {s : State V Q H} {item : Item Q H} {h : H} (hU : (enter (far h)).isSome = true → far h ∈ U)
    (hnew : far h ∉ s.visited) :
    (s.add enter far item h).queue.length + Bfs.unvisited U (s.add enter far item h).visited ≤
      s.queue.length + Bfs.unvisited U s.visited := by
  unfold State.add
  dsimp only
  rw [List.length_append, List.length_map]
  cases henter : enter (far h) with
  | none =>
    have hmono : Bfs.unvisited U (far h :: s.visited) ≤ Bfs.unvisited U s.visited := by
      refine List.countP_mono_left fun v _ hv => ?_
      rw [decide_eq_true_eq, List.mem_cons, not_or] at hv
      exact decide_eq_true hv.2
    rw [Option.toList_none, List.length_nil]
    omega
  | some q =>
    have hcount := Bfs.unvisited_cons hnew (hU (by rw [henter]; rfl))
    rw [Option.toList_some, List.length_singleton]
    omega

theorem scan_measure {item : Item Q H} {hops : List H}
    (hU : ∀ h ∈ hops, (enter (far h)).isSome = true → far h ∈ U) {s s' : State V Q H}
    (hscan : scan enter far target item hops s = .ok s') :
    s'.queue.length + Bfs.unvisited U s'.visited ≤ s.queue.length + Bfs.unvisited U s.visited := by
  induction hops generalizing s with
  | nil =>
    cases hscan
    exact Nat.le_refl _
  | cons h hops ih =>
    obtain ⟨hU₁, hU'⟩ := List.forall_mem_cons.mp hU
    unfold scan at hscan
    split at hscan
    · cases hscan
    · split at hscan
      · exact ih hU' hscan
      · rename_i hseen
        have hnew : far h ∉ s.visited := fun hm => hseen (List.contains_iff_mem.mpr hm)
        exact (ih hU' hscan).trans (add_measure hU₁ hnew)

theorem loop_isSome (hU : ∀ q, ∀ h ∈ expand q, (enter (far h)).isSome = true → far h ∈ U) {fuel : Nat}
    {s : State V Q H} (hfuel : s.queue.length + Bfs.unvisited U s.visited < fuel) :
    (loop enter expand far cap target fuel s).isSome = true := by
  induction fuel generalizing s with
  | zero => exact absurd hfuel (Nat.not_lt_zero _)
  | succ fuel ih =>
    unfold loop
    split
    · rfl
    · rename_i item rest hq
      rw [hq, List.length_cons] at hfuel
      split
      · exact ih (by dsimp only; omega)
      · split
        · rfl
        · rename_i s' hscan
          have hle := scan_measure (hU item.node) hscan
          dsimp only at hle
          exact ih (by omega)

/-- **Enough fuel**: every vertex that can be queued is in `U`, and is queued once. -/
theorem search_isSome (hU : ∀ q, ∀ h ∈ expand q, (enter (far h)).isSome = true → far h ∈ U) (cap : Nat)
    (target a : V) (q : Q) : (search enter expand far cap target (U.length + 2) a q).isSome = true := by
  refine loop_isSome hU ?_
  have hle : Bfs.unvisited U [a] ≤ U.length := List.countP_le_length
  dsimp only
  rw [List.length_singleton]
  omega

end Fuel

/-! ## What is found -/

/-- The state of the search from `a` for `target`, where `node q` is the vertex of `q`: no vertex that was
expanded has a hop to the target. -/
structure Inv (enter : V → Option Q) (expand : Q → List H) (far : H → V) (cap : Nat) (node : Q → V)
    (a target : V) (queue : List (Item Q H)) (visited : List V) : Prop where
  layers : Layers (HopEdge (Leads enter expand) far) (· = a) cap
    (queue.map fun item => (node item.node, item.depth)) (· ∈ visited)
  entered : ∀ item ∈ queue, enter (node item.node) = some item.node
  path : ∀ item ∈ queue, IsPath (Leads enter expand) far a item.path (node item.node) ∧
    item.path.length = item.depth
  unmet : ∀ v ∈ visited, (∃ n, (v, n) ∈ queue.map fun item => (node item.node, item.depth)) ∨
    (¬ HopEdge (Leads enter expand) far v target) ∨
    ∀ n, Reaches (HopEdge (Leads enter expand) far) (· = a) n v → cap ≤ n

section Found

variable {enter : V → Option Q} {expand : Q → List H} {cap : Nat} {node : Q → V} {a target : V}
  {item : Item Q H} {rest : List (Item Q H)} {visited : List V}

/-- A vertex met for the first time from the head. -/
theorem Inv.add [DecidableEq V] (hnode : ∀ v q, enter v = some q → node q = v) {s : State V Q H}
    (hs : Inv enter expand far cap node a target (item :: s.queue) s.visited) (hd : item.depth < cap) {h : H}
    (hh : h ∈ expand item.node) (hnew : far h ∉ s.visited) :
    Inv enter expand far cap node a target (item :: (s.add enter far item h).queue)
      (s.add enter far item h).visited := by
  have hlead : Leads enter expand (node item.node) h := ⟨item.node, hs.entered item List.mem_cons_self, hh⟩
  have hvisited : ∀ v, v ∈ far h :: s.visited ↔ v ∈ s.visited ∨ v = far h := fun v => by
    rw [List.mem_cons, or_comm]
  have hqueue : ∀ item', item' ∈ item :: (s.add enter far item h).queue ↔ item' ∈ item :: s.queue ∨
      ∃ q, enter (far h) = some q ∧ item' = ⟨q, item.path ++ [h], item.depth + 1⟩ := by
    intro item'
    unfold State.add
    simp only [List.mem_cons, List.mem_append, List.mem_map, Option.mem_toList, or_assoc, eq_comm]
  have hmap : (item :: (s.add enter far item h).queue).map (fun item => (node item.node, item.depth)) =
      (node item.node, item.depth) :: (s.queue.map (fun item => (node item.node, item.depth)) ++
        (enter (far h)).toList.map fun q => (node q, item.depth + 1)) := by
    unfold State.add
    rw [List.map_cons, List.map_append, List.map_map]
    rfl
  refine ⟨?_, fun item' hm => ?_, fun item' hm => ?_, fun v hv => ?_⟩
  · rw [hmap]
    exact (hs.layers.enter hnode ⟨h, hlead, rfl⟩ hnew hd).of_iff fun v => (hvisited v).symm
  · rcases (hqueue item').mp hm with hm | ⟨q, hq, rfl⟩
    · exact hs.entered item' hm
    · rw [hnode (far h) q hq, hq]
  · rcases (hqueue item').mp hm with hm | ⟨q, hq, rfl⟩
    · exact hs.path item' hm
    · obtain ⟨hpath, hlen⟩ := hs.path item List.mem_cons_self
      dsimp only
      rw [hnode (far h) q hq, List.length_append, List.length_singleton, hlen]
      exact ⟨hpath.concat hlead, rfl⟩
  · rcases (hvisited v).mp hv with hv | rfl
    · rcases hs.unmet v hv with ⟨n, hn⟩ | hno
      · obtain ⟨item', hm, heq⟩ := List.mem_map.mp hn
        exact .inl ⟨n, heq ▸ List.mem_map_of_mem ((hqueue item').mpr (.inl hm))⟩
      · exact .inr hno
    · cases hq : enter (far h) with
      | none => exact .inr (.inl (not_hopEdge hq target))
      | some q =>
        refine .inl ⟨item.depth + 1, List.mem_map.mpr ⟨_, (hqueue _).mpr (.inr ⟨q, hq, rfl⟩), ?_⟩⟩
        rw [hnode (far h) q hq]

/-- **The hops from the head**: one leads to the target, or none does and all of them were visited. -/
theorem scan_spec [DecidableEq V] (hnode : ∀ v q, enter v = some q → node q = v) {s : State V Q H}
    (hs : Inv enter expand far cap node a target (item :: s.queue) s.visited) (hd : item.depth < cap)
    {hops : List H} (hhops : ∀ h ∈ hops, h ∈ expand item.node) :
    (∀ path, scan enter far target item hops s = .error path →
        ∃ h ∈ expand item.node, far h = target ∧ path = item.path ++ [h]) ∧
      ∀ s', scan enter far target item hops s = .ok s' →
        Inv enter expand far cap node a target (item :: s'.queue) s'.visited ∧
          (∀ v ∈ s.visited, v ∈ s'.visited) ∧ ∀ h ∈ hops, far h ∈ s'.visited ∧ far h ≠ target := by
  induction hops generalizing s with
  | nil =>
    refine ⟨fun path h => (by cases h), fun s' h => ?_⟩
    cases h
    exact ⟨hs, fun _ hv => hv, fun h hm => absurd hm List.not_mem_nil⟩
  | cons h hops ih =>
    obtain ⟨hh, hhops'⟩ := List.forall_mem_cons.mp hhops
    unfold scan
    by_cases htarget : far h = target
    · rw [if_pos htarget]
      refine ⟨fun path heq => ?_, fun s' heq => (by cases heq)⟩
      cases heq
      exact ⟨h, hh, htarget, rfl⟩
    · rw [if_neg htarget]
      by_cases hseen : far h ∈ s.visited
      · rw [if_pos (List.contains_iff_mem.mpr hseen)]
        obtain ⟨herror, hok⟩ := ih hs hhops'
        refine ⟨herror, fun s' hscan => ?_⟩
        obtain ⟨hs', hkept, hall⟩ := hok s' hscan
        exact ⟨hs', hkept, List.forall_mem_cons.mpr ⟨⟨hkept _ hseen, htarget⟩, hall⟩⟩
      · rw [if_neg fun hc => hseen (List.contains_iff_mem.mp hc)]
        obtain ⟨herror, hok⟩ := ih (hs.add hnode hd hh hseen) hhops'
        refine ⟨herror, fun s' hscan => ?_⟩
        obtain ⟨hs', hkept, hall⟩ := hok s' hscan
        have hnew : far h ∈ s'.visited := hkept _ List.mem_cons_self
        refine ⟨hs', fun v hv => hkept v (List.mem_cons_of_mem _ hv), ?_⟩
        exact List.forall_mem_cons.mpr ⟨⟨hnew, htarget⟩, hall⟩

/-- The head has no hop left, none of which led to the target, or it is not to be expanded. -/
theorem Inv.pop (hs : Inv enter expand far cap node a target (item :: rest) visited)
    (hall : cap ≤ item.depth ∨ ∀ h ∈ expand item.node, far h ∈ visited ∧ far h ≠ target) :
    Inv enter expand far cap node a target rest visited := by
  have hhead : ∀ w, HopEdge (Leads enter expand) far (node item.node) w ↔ ∃ h ∈ expand item.node, far h = w :=
    fun w => hopEdge_iff (hs.entered item List.mem_cons_self)
  refine ⟨hs.layers.pop ?_, fun item' hm => hs.entered item' (List.mem_cons_of_mem _ hm),
    fun item' hm => hs.path item' (List.mem_cons_of_mem _ hm), fun v hv => ?_⟩
  · rcases hall with hcap | hall
    · exact .inl hcap
    · refine .inr fun w he => ?_
      obtain ⟨h, hh, rfl⟩ := (hhead w).mp he
      exact (hall h hh).1
  · rcases hs.unmet v hv with ⟨n, hn⟩ | hno
    · rcases List.mem_cons.mp hn with heq | hn
      · cases heq
        refine .inr ?_
        rcases hall with hcap | hall
        · refine .inr fun n hn => hcap.trans ?_
          exact (hs.layers.queued _ List.mem_cons_self).2.2 n hn
        · refine .inl fun he => ?_
          obtain ⟨h, hh, hfar⟩ := (hhead target).mp he
          exact (hall h hh).2 hfar
      · exact .inl ⟨n, hn⟩
    · exact .inr hno

/-- **A hop from the head to the target ends a shortest path.** -/
theorem Inv.shortest (hs : Inv enter expand far cap node a target (item :: rest) visited)
    (hd : item.depth < cap) {h : H} (hh : h ∈ expand item.node) (htarget : far h = target) :
    Shortest (Leads enter expand) far cap a target (item.path ++ [h]) := by
  obtain ⟨hpath, hlen⟩ := hs.path item List.mem_cons_self
  have hlead : Leads enter expand (node item.node) h := ⟨item.node, hs.entered item List.mem_cons_self, hh⟩
  have hlen' : (item.path ++ [h]).length = item.depth + 1 := by
    rw [List.length_append, List.length_singleton, hlen]
  refine ⟨htarget ▸ hpath.concat hlead, by omega, by omega, fun p hp hpos => ?_⟩
  obtain ⟨n, x, hn, hreach, he⟩ := hp.last_hop hpos
  -- a path that is shorter would leave from a vertex that was expanded before the head
  by_contra hlt
  have hvisited : x ∈ visited := hs.layers.mem_of_reaches hreach (by omega) (by omega)
  rcases hs.unmet x hvisited with ⟨k, hk⟩ | hno | hfar
  · have hdeep : k ≤ n := (hs.layers.queued _ hk).2.2 n hreach
    have hhead : item.depth ≤ k := hs.layers.head_le hk
    omega
  · exact hno he
  · have := hfar n hreach
    omega

variable [DecidableEq V]

theorem loop_spec (hnode : ∀ v q, enter v = some q → node q = v) {fuel : Nat} {s : State V Q H}
    (hs : Inv enter expand far cap node a target s.queue s.visited) {found : Option (List H)}
    (h : loop enter expand far cap target fuel s = some found) :
    (∀ path, found = some path → Shortest (Leads enter expand) far cap a target path) ∧
      (found = none → ∀ p, IsPath (Leads enter expand) far a p target → 1 ≤ p.length → cap < p.length) := by
  induction fuel generalizing s with
  | zero => cases h
  | succ fuel ih =>
    unfold loop at h
    cases hq : s.queue with
    | nil =>
      rw [hq] at h hs
      cases h
      refine ⟨fun path heq => (by cases heq), fun _ p hp hpos => ?_⟩
      obtain ⟨n, x, hn, hreach, he⟩ := hp.last_hop hpos
      by_contra hle
      rcases hs.unmet x (hs.layers.exhausted.mpr ⟨n, by omega, hreach⟩) with ⟨k, hk⟩ | hno | hfar
      · cases hk
      · exact hno he
      · have := hfar n hreach
        omega
    | cons item rest =>
      rw [hq] at h hs
      dsimp only at h
      by_cases hd : cap ≤ item.depth
      · rw [if_pos hd] at h
        exact ih (s := { s with queue := rest }) (hs.pop (.inl hd)) h
      · rw [if_neg hd] at h
        obtain ⟨herror, hok⟩ := scan_spec (s := { s with queue := rest }) hnode hs (not_le.mp hd)
          (fun _ hm => hm)
        cases hscan : scan enter far target item (expand item.node) { s with queue := rest } with
        | error path =>
          rw [hscan] at h
          cases h
          refine ⟨fun path' heq => ?_, fun heq => (by cases heq)⟩
          obtain ⟨h, hh, htarget, hpath⟩ := herror path hscan
          rw [← Option.some.inj heq, hpath]
          exact hs.shortest (not_le.mp hd) hh htarget
        | ok s' =>
          rw [hscan] at h
          obtain ⟨hs', -, hall⟩ := hok s' hscan
          exact ih (hs'.pop (.inr hall)) h

omit [DecidableEq V] in
theorem Inv.start (hnode : ∀ v q, enter v = some q → node q = v) {q : Q} (henter : enter a = some q) :
    Inv enter expand far cap node a target [⟨q, [], 0⟩] [a] := by
  have hqa : node q = a := hnode a q henter
  have hitem : ∀ item ∈ [(⟨q, [], 0⟩ : Item Q H)], item = ⟨q, [], 0⟩ := fun _ hm => List.mem_singleton.mp hm
  refine ⟨?_, fun item hm => ?_, fun item hm => ?_, fun v hv => ?_⟩
  · rw [List.map_singleton, hqa]
    refine (Layers.start (fun p hp => ?_) fun s hs => ?_).of_iff fun v => List.mem_singleton.symm
    · rw [List.mem_singleton.mp hp]
      exact ⟨rfl, rfl⟩
    · obtain rfl : s = a := hs
      exact .inl List.mem_cons_self
  · rw [hitem item hm, hqa, henter]
  · rw [hitem item hm, hqa]
    exact ⟨rfl, rfl⟩
  · refine .inl ⟨0, ?_⟩
    rw [List.map_singleton, hqa, List.mem_singleton.mp hv]
    exact List.mem_cons_self

/-- **What the search finds**: a shortest path; and nothing, only if no path is short enough. -/
theorem search_spec (hnode : ∀ v q, enter v = some q → node q = v) {fuel : Nat} {q : Q}
    (henter : enter a = some q) {found : Option (List H)}
    (h : search enter expand far cap target fuel a q = some found) :
    (∀ path, found = some path → Shortest (Leads enter expand) far cap a target path) ∧
      (found = none → ∀ p, IsPath (Leads enter expand) far a p target → 1 ≤ p.length → cap < p.length) :=
  loop_spec hnode (Inv.start hnode henter) h

end Found

end ShortestPath
