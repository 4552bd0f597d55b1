import Unimatrix.Lib.Layers
import Mathlib.Data.List.Perm.Subperm

/-!
# Breadth-first search from several sources that stops when it has enough vertices

`expand` lists the hops from a queued node, each to the vertex `far` has for it. The search collects the sources
and then what it meets for the first time; it stops, truncated, when it meets one more than `budget` vertices,
or right after the sources when they are that many. Nothing is expanded `cap` hops away.

Every hop is noted under its key, the first time, before the vertex it leads to is looked at: the last hop of a
truncated search may lead to a vertex that was not collected.

* `loop` takes `fuel` and returns `none` when it would need more; **`search_isSome`**: `search` has enough.
* **`search_outcome`**: what is collected, and when the search is truncated.
-/

namespace CappedSearch

open Digraph

variable {V Q H K : Type}

/-! ## The search -/

/-- The vertices collected, what is queued with its depth, and the hops noted with the depth they lead to. -/
structure State (V Q H : Type) where
  nodes : List V
  queue : List (Q × Nat)
  met : List (H × Nat)

section Search

variable [DecidableEq V] [DecidableEq K]
variable (enter : V → Option Q) (expand : Q → List H) (far : H → V) (key : H → K) (cap budget : Nat)

/-- A hop is noted unless one with its key was. -/
def State.note (s : State V Q H) (d : Nat) (h : H) : State V Q H :=
  if s.met.any fun m => key m.1 = key h then s else { s with met := s.met ++ [(h, d)] }

/-- A vertex is collected, and its node queued. -/
def State.add (s : State V Q H) (d : Nat) (v : V) : State V Q H :=
  { s with nodes := s.nodes ++ [v], queue := s.queue ++ (enter v).toList.map fun q => (q, d) }

/-- The sources, one after the other, and whether the budget cut them off. -/
def seed : List V → State V Q H → State V Q H × Bool
  | [], s => (s, false)
  | v :: vs, s =>
    if s.nodes.contains v then seed vs s
    else if budget ≤ s.nodes.length then (s, true)
    else seed vs (s.add enter 0 v)

/-- The hops from a node at depth `d`, one after the other, and whether the budget cut them off. -/
def scan (d : Nat) : List H → State V Q H → State V Q H × Bool
  | [], s => (s, false)
  | h :: hops, s =>
    let s := s.note key (d + 1) h
    if s.nodes.contains (far h) then scan d hops s
    else if budget ≤ s.nodes.length then (s, true)
    else scan d hops (s.add enter (d + 1) (far h))

/-- The loop over the queue. -/
def loop : Nat → State V Q H → Option (State V Q H × Bool)
  | 0, _ => none
  | fuel + 1, s =>
    match s.queue with
    | [] => some (s, false)
    | (q, d) :: rest =>
      if cap ≤ d then loop fuel { s with queue := rest }
      else
        let r := scan enter far key budget d (expand q) { s with queue := rest }
        if r.2 then some r else loop fuel r.1

/-- The search: what it ends with, and whether it is truncated. -/
def search (seeds : List V) : Option (State V Q H × Bool) :=
  let r := seed enter budget seeds ⟨[], [], []⟩
  if r.2 || decide (budget ≤ r.1.nodes.length) then some (r.1, true)
  else loop enter expand far key cap budget (budget + 1) r.1

end Search

variable {enter : V → Option Q} {expand : Q → List H} {far : H → V} {key : H → K} {cap budget : Nat}

@[simp] theorem note_nodes [DecidableEq K] (s : State V Q H) (d : Nat) (h : H) :
    (s.note key d h).nodes = s.nodes := by
  unfold State.note
  split <;> rfl

@[simp] theorem note_queue [DecidableEq K] (s : State V Q H) (d : Nat) (h : H) :
    (s.note key d h).queue = s.queue := by
  unfold State.note
  split <;> rfl

/-! ## Fuel -/

/-- What is queued and what can still be collected. -/
def State.pending (budget : Nat) (s : State V Q H) : Nat := s.queue.length + (budget - s.nodes.length)

theorem pending_add {s : State V Q H} (h : s.nodes.length < budget) (d : Nat) (v : V) :
    (s.add enter d v).pending budget ≤ s.pending budget := by
  unfold State.pending State.add
  dsimp only
  rw [List.length_append, List.length_append, List.length_map, List.length_singleton]
  have : (enter v).toList.length ≤ 1 := by cases enter v <;> simp
  omega

section Fuel

variable [DecidableEq V]

theorem pending_seed (vs : List V) (s : State V Q H) :
    (seed enter budget vs s).1.pending budget ≤ s.pending budget := by
  induction vs generalizing s with
  | nil => exact Nat.le_refl _
  | cons v vs ih =>
    unfold seed
    split
    · exact ih s
    · split
      · exact Nat.le_refl _
      · rename_i hroom
        exact (ih _).trans (pending_add (not_le.mp hroom) 0 v)

variable [DecidableEq K]

theorem pending_scan (d : Nat) (hops : List H) (s : State V Q H) :
    (scan enter far key budget d hops s).1.pending budget ≤ s.pending budget := by
  induction hops generalizing s with
  | nil => exact Nat.le_refl _
  | cons h hops ih =>
    have hnote : (s.note key (d + 1) h).pending budget = s.pending budget := by
      unfold State.pending
      rw [note_nodes, note_queue]
    unfold scan
    dsimp only
    rw [← hnote]
    split
    · exact ih _
    · split
      · exact Nat.le_refl _
      · rename_i hroom
        exact (ih _).trans (pending_add (not_le.mp hroom) _ _)

theorem loop_isSome {fuel : Nat} {s : State V Q H} (hfuel : s.pending budget < fuel) :
    (loop enter expand far key cap budget fuel s).isSome = true := by
  induction fuel generalizing s with
  | zero => exact absurd hfuel (Nat.not_lt_zero _)
  | succ fuel ih =>
    unfold loop
    split
    · rfl
    · rename_i q d rest hq
      have hrest : State.pending budget { s with queue := rest } + 1 = s.pending budget := by
        unfold State.pending
        rw [hq, List.length_cons]
        dsimp only
        omega
      split
      · exact ih (by omega)
      · have hscan : (scan enter far key budget d (expand q) { s with queue := rest }).1.pending budget ≤
            State.pending budget { s with queue := rest } := pending_scan d (expand q) _
        dsimp only
        split
        · rfl
        · exact ih (by omega)

/-- **Enough fuel**: no more is queued than is collected. -/
theorem search_isSome (seeds : List V) : (search enter expand far key cap budget seeds).isSome = true := by
  unfold search
  dsimp only
  split
  · rfl
  · refine loop_isSome (Nat.lt_succ_of_le ((pending_seed seeds _).trans ?_))
    unfold State.pending
    simp

end Fuel

/-! ## What is collected -/

/-- `v` is at most `cap` hops away from the sources. -/
def Within (Hop : V → H → Prop) (far : H → V) (seeds : List V) (cap : Nat) (v : V) : Prop :=
  ∃ n ≤ cap, Reaches (HopEdge Hop far) (· ∈ seeds) n v

/-- What a search for at most `budget` vertices within `cap` hops ends with. -/
structure Outcome [DecidableEq V] (Hop : V → H → Prop) (far : H → V) (key : H → K) (cap budget : Nat)
    (seeds nodes : List V) (met : List (H × Nat)) (truncated : Bool) : Prop where
  nodup : nodes.Nodup
  length_le : nodes.length ≤ budget
  within : ∀ v ∈ nodes, Within Hop far seeds cap v
  complete : truncated = false → ∀ v, Within Hop far seeds cap v → v ∈ nodes
  truncated_iff : truncated = true ↔
    budget ≤ seeds.dedup.length ∨ ∃ v, Within Hop far seeds cap v ∧ v ∉ nodes
  once : (met.map fun m => key m.1).Nodup
  hops : ∀ m ∈ met, 1 ≤ m.2 ∧ m.2 ≤ cap ∧ ∃ u ∈ nodes, Hop u m.1

/-- The hops noted: each key once, each hop from a vertex collected. -/
structure Noted (Hop : V → H → Prop) (key : H → K) (cap : Nat) (nodes : List V) (met : List (H × Nat)) :
    Prop where
  once : (met.map fun m => key m.1).Nodup
  hops : ∀ m ∈ met, 1 ≤ m.2 ∧ m.2 ≤ cap ∧ ∃ u ∈ nodes, Hop u m.1

theorem Noted.mono {Hop : V → H → Prop} {nodes nodes' : List V} {met : List (H × Nat)}
    (h : Noted Hop key cap nodes met) (hsub : ∀ v ∈ nodes, v ∈ nodes') : Noted Hop key cap nodes' met := by
  refine ⟨h.once, fun m hm => ?_⟩
  obtain ⟨hpos, hle, u, hu, hhop⟩ := h.hops m hm
  exact ⟨hpos, hle, u, hsub u hu, hhop⟩

theorem Noted.note [DecidableEq K] {Hop : V → H → Prop} {s : State V Q H} (hs : Noted Hop key cap s.nodes s.met)
    {d : Nat} (hd : d < cap) {u : V} (hu : u ∈ s.nodes) {h : H} (hhop : Hop u h) :
    Noted Hop key cap s.nodes (s.note key (d + 1) h).met := by
  unfold State.note
  split
  · exact hs
  · rename_i hfresh
    have hnew : ∀ m ∈ s.met, key m.1 ≠ key h := by simpa using hfresh
    refine ⟨?_, fun m hm => ?_⟩
    · rw [List.map_append, List.map_singleton]
      refine hs.once.append (List.nodup_singleton _) fun k hk hk' => ?_
      obtain ⟨m, hm, rfl⟩ := List.mem_map.mp hk
      exact hnew m hm (List.mem_singleton.mp hk')
    · rcases List.mem_append.mp hm with hm | hm
      · exact hs.hops m hm
      · rw [List.mem_singleton.mp hm]
        exact ⟨Nat.succ_le_succ (Nat.zero_le d), hd, u, hu, hhop⟩

/-! ## The sources -/

section Seeds

variable [DecidableEq V] {seeds : List V}

/-- After some of the sources. -/
structure Seeded (enter : V → Option Q) (budget : Nat) (seeds : List V) (s : State V Q H) : Prop where
  nodup : s.nodes.Nodup
  length_le : s.nodes.length ≤ budget
  sources : ∀ v ∈ s.nodes, v ∈ seeds
  queue : ∀ p, p ∈ s.queue ↔ ∃ v ∈ s.nodes, enter v = some p.1 ∧ p.2 = 0
  met : s.met = []

omit [DecidableEq V] in
theorem Seeded.add {s : State V Q H} (h : Seeded enter budget seeds s) {v : V} (hv : v ∈ seeds)
    (hnew : v ∉ s.nodes) (hroom : s.nodes.length < budget) : Seeded enter budget seeds (s.add enter 0 v) := by
  unfold State.add
  refine ⟨?_, ?_, fun u hu => ?_, fun p => ?_, h.met⟩
  · exact h.nodup.append (List.nodup_singleton v) fun u hu hu' => hnew (List.mem_singleton.mp hu' ▸ hu)
  · rw [List.length_append, List.length_singleton]
    exact hroom
  · rcases List.mem_append.mp hu with hu | hu
    · exact h.sources u hu
    · rwa [List.mem_singleton.mp hu]
  · obtain ⟨q, n⟩ := p
    simp only [List.mem_append, h.queue, List.mem_map, Option.mem_toList, Prod.mk.injEq, List.mem_singleton]
    constructor
    · rintro (⟨u, hu, hq, hn⟩ | ⟨q', hq, rfl, rfl⟩)
      · exact ⟨u, .inl hu, hq, hn⟩
      · exact ⟨v, .inr rfl, hq, rfl⟩
    · rintro ⟨u, hu | rfl, hq, rfl⟩
      · exact .inl ⟨u, hu, hq, rfl⟩
      · exact .inr ⟨q, hq, rfl, rfl⟩

theorem seed_spec {vs : List V} {s : State V Q H} (hs : Seeded enter budget seeds s) (hvs : ∀ v ∈ vs, v ∈ seeds) :
    Seeded enter budget seeds (seed enter budget vs s).1 ∧
      (∀ v ∈ s.nodes, v ∈ (seed enter budget vs s).1.nodes) ∧
      ((seed enter budget vs s).2 = true → budget ≤ (seed enter budget vs s).1.nodes.length) ∧
      ((seed enter budget vs s).2 = false → ∀ v ∈ vs, v ∈ (seed enter budget vs s).1.nodes) := by
  induction vs generalizing s with
  | nil => exact ⟨hs, fun _ hv => hv, (fun h => by cases h), fun _ v hv => absurd hv List.not_mem_nil⟩
  | cons v vs ih =>
    obtain ⟨hv, hvs'⟩ := List.forall_mem_cons.mp hvs
    unfold seed
    by_cases hseen : v ∈ s.nodes
    · rw [if_pos (List.contains_iff_mem.mpr hseen)]
      obtain ⟨hs', hkept, hfull, hall⟩ := ih hs hvs'
      exact ⟨hs', hkept, hfull, fun h => List.forall_mem_cons.mpr ⟨hkept v hseen, hall h⟩⟩
    · rw [if_neg fun hc => hseen (List.contains_iff_mem.mp hc)]
      by_cases hbudget : budget ≤ s.nodes.length
      · rw [if_pos hbudget]
        exact ⟨hs, fun _ hv => hv, fun _ => hbudget, (fun h => by cases h)⟩
      · rw [if_neg hbudget]
        obtain ⟨hs', hkept, hfull, hall⟩ := ih (hs.add hv hseen (not_le.mp hbudget)) hvs'
        have hself : v ∈ (s.add enter 0 v).nodes := List.mem_append_right _ List.mem_cons_self
        refine ⟨hs', fun u hu => hkept u (List.mem_append_left _ hu), hfull, fun h => ?_⟩
        exact List.forall_mem_cons.mpr ⟨hkept v hself, hall h⟩

variable (enter budget) in
/-- **The sources fill the budget or all of them are collected.** -/
theorem seed_cases (seeds : List V) :
    let r := seed (H := H) enter budget seeds ⟨[], [], []⟩
    Seeded enter budget seeds r.1 ∧
      (r.2 = true ∨ budget ≤ r.1.nodes.length → budget ≤ seeds.dedup.length) ∧
      (¬ (r.2 = true ∨ budget ≤ r.1.nodes.length) →
        seeds.dedup.length < budget ∧ ∀ v, v ∈ r.1.nodes ↔ v ∈ seeds) := by
  intro r
  have hempty : Seeded (H := H) enter budget seeds ⟨[], [], []⟩ :=
    ⟨List.nodup_nil, Nat.zero_le _, (fun v hv => absurd hv List.not_mem_nil), (fun p => by simp), rfl⟩
  obtain ⟨hs, -, hfull, hall⟩ := seed_spec hempty fun v hv => hv
  have hle : r.1.nodes.length ≤ seeds.dedup.length :=
    (hs.nodup.subperm fun v hv => List.mem_dedup.mpr (hs.sources v hv)).length_le
  refine ⟨hs, fun h => ?_, fun h => ?_⟩
  · rcases h with h | h
    · exact (hfull h).trans hle
    · exact h.trans hle
  · obtain ⟨hflag, hroom⟩ := not_or.mp h
    have hmem : ∀ v, v ∈ r.1.nodes ↔ v ∈ seeds :=
      fun v => ⟨hs.sources v, hall (Bool.eq_false_iff.mpr hflag) v⟩
    have hge : seeds.dedup.length ≤ r.1.nodes.length :=
      ((List.nodup_dedup seeds).subperm fun v hv => (hmem v).mpr (List.mem_dedup.mp hv)).length_le
    exact ⟨by omega, hmem⟩

end Seeds

/-! ## The loop -/

/-- The state of the search, where `node q` is the vertex of `q`. -/
structure Inv (enter : V → Option Q) (expand : Q → List H) (far : H → V) (key : H → K) (cap budget : Nat)
    (node : Q → V) (seeds : List V) (queue : List (Q × Nat)) (s : State V Q H) : Prop where
  nodup : s.nodes.Nodup
  length_le : s.nodes.length ≤ budget
  layers : Layers (HopEdge (Leads enter expand) far) (· ∈ seeds) cap (queue.map fun p => (node p.1, p.2))
    (· ∈ s.nodes)
  entered : ∀ p ∈ queue, enter (node p.1) = some p.1
  noted : Noted (Leads enter expand) key cap s.nodes s.met

section Loop

variable {node : Q → V} {seeds : List V} {q : Q} {d : Nat} {rest : List (Q × Nat)}

theorem Inv.start (hnode : ∀ v q, enter v = some q → node q = v) {s : State V Q H}
    (hs : Seeded enter budget seeds s) (hall : ∀ v, v ∈ s.nodes ↔ v ∈ seeds) :
    Inv enter expand far key cap budget node seeds s.queue s := by
  have hqueue : ∀ p ∈ s.queue, node p.1 ∈ seeds ∧ p.2 = 0 ∧ enter (node p.1) = some p.1 := by
    intro p hp
    obtain ⟨v, hv, hq, hzero⟩ := (hs.queue p).mp hp
    rw [hnode v p.1 hq]
    exact ⟨hs.sources v hv, hzero, hq⟩
  refine ⟨hs.nodup, hs.length_le, ?_, fun p hp => (hqueue p hp).2.2, ?_⟩
  · refine (Layers.start (fun p hp => ?_) fun v hv => ?_).of_iff fun v => (hall v).symm
    · obtain ⟨p', hp', rfl⟩ := List.mem_map.mp hp
      exact ⟨(hqueue p' hp').1, (hqueue p' hp').2.1⟩
    · cases hq : enter v with
      | none => exact .inr (not_hopEdge hq)
      | some q =>
        refine .inl (List.mem_map.mpr ⟨(q, 0), (hs.queue _).mpr ⟨v, (hall v).mpr hv, hq, rfl⟩, ?_⟩)
        rw [hnode v q hq]
  · rw [hs.met]
    exact ⟨List.nodup_nil, fun m hm => absurd hm List.not_mem_nil⟩

/-- A hop from the head is noted. -/
theorem Inv.note [DecidableEq K] {s : State V Q H}
    (hs : Inv enter expand far key cap budget node seeds ((q, d) :: rest) s) (hd : d < cap) {h : H}
    (hh : h ∈ expand q) :
    Inv enter expand far key cap budget node seeds ((q, d) :: rest) (s.note key (d + 1) h) := by
  have hhead := hs.layers.queued _ List.mem_cons_self
  have hlead : Leads enter expand (node q) h := ⟨q, hs.entered _ List.mem_cons_self, hh⟩
  refine ⟨?_, ?_, ?_, hs.entered, ?_⟩
  · rw [note_nodes]
    exact hs.nodup
  · rw [note_nodes]
    exact hs.length_le
  · rw [note_nodes]
    exact hs.layers
  · rw [note_nodes]
    exact hs.noted.note hd hhead.1 hlead

/-- A vertex met for the first time from the head is collected. -/
theorem Inv.add (hnode : ∀ v q, enter v = some q → node q = v) {s : State V Q H}
    (hs : Inv enter expand far key cap budget node seeds ((q, d) :: s.queue) s) (hd : d < cap) {h : H}
    (hh : h ∈ expand q) (hnew : far h ∉ s.nodes) (hroom : s.nodes.length < budget) :
    Inv enter expand far key cap budget node seeds ((q, d) :: (s.add enter (d + 1) (far h)).queue)
      (s.add enter (d + 1) (far h)) := by
  have hedge : HopEdge (Leads enter expand) far (node q) (far h) :=
    (hopEdge_iff (hs.entered _ List.mem_cons_self)).mpr ⟨h, hh, rfl⟩
  have hmem : ∀ v, v ∈ s.nodes ++ [far h] ↔ v ∈ s.nodes ∨ v = far h := fun v => by
    rw [List.mem_append, List.mem_singleton]
  unfold State.add
  refine ⟨?_, ?_, ?_, fun p hp => ?_, hs.noted.mono fun v hv => (hmem v).mpr (.inl hv)⟩
  · exact hs.nodup.append (List.nodup_singleton _) fun v hv hv' => hnew (List.mem_singleton.mp hv' ▸ hv)
  · rw [List.length_append, List.length_singleton]
    exact hroom
  · rw [List.map_cons, List.map_append, List.map_map]
    exact (hs.layers.enter hnode hedge hnew hd).of_iff fun v => (hmem v).symm
  · rw [← List.cons_append] at hp
    rcases List.mem_append.mp hp with hp | hp
    · exact hs.entered p hp
    · obtain ⟨q', hq', rfl⟩ := List.mem_map.mp hp
      dsimp only
      rw [hnode (far h) q' (Option.mem_toList.mp hq')]
      exact Option.mem_toList.mp hq'

theorem Inv.pop {s : State V Q H} (hs : Inv enter expand far key cap budget node seeds ((q, d) :: rest) s)
    (hall : cap ≤ d ∨ ∀ h ∈ expand q, far h ∈ s.nodes) :
    Inv enter expand far key cap budget node seeds rest s := by
  refine ⟨hs.nodup, hs.length_le, hs.layers.pop ?_, fun p hp => hs.entered p (List.mem_cons_of_mem _ hp), hs.noted⟩
  rcases hall with hcap | hall
  · exact .inl hcap
  · refine .inr fun w he => ?_
    obtain ⟨h, hh, rfl⟩ := (hopEdge_iff (hs.entered _ List.mem_cons_self)).mp he
    exact hall h hh

theorem Inv.within {s : State V Q H} (hs : Inv enter expand far key cap budget node seeds rest s) {v : V}
    (hv : v ∈ s.nodes) : Within (Leads enter expand) far seeds cap v := by
  obtain ⟨n, hn, hdepth, -⟩ := hs.layers.near v hv
  exact ⟨n, hn, hdepth.1⟩

variable [DecidableEq V] [DecidableEq K]

/-- **The hops from the head**: the budget cuts off one that leads further, or all of them are collected. -/
theorem scan_spec (hnode : ∀ v q, enter v = some q → node q = v) {s : State V Q H}
    (hs : Inv enter expand far key cap budget node seeds ((q, d) :: s.queue) s) (hd : d < cap) {hops : List H}
    (hhops : ∀ h ∈ hops, h ∈ expand q) :
    let r := scan enter far key budget d hops s
    Inv enter expand far key cap budget node seeds ((q, d) :: r.1.queue) r.1 ∧
      (∀ v ∈ s.nodes, v ∈ r.1.nodes) ∧
      (r.2 = true → ∃ h ∈ expand q, far h ∉ r.1.nodes) ∧ (r.2 = false → ∀ h ∈ hops, far h ∈ r.1.nodes) := by
  induction hops generalizing s with
  | nil => exact ⟨hs, fun _ hv => hv, (fun h => by cases h), fun _ h hm => absurd hm List.not_mem_nil⟩
  | cons h hops ih =>
    obtain ⟨hh, hhops'⟩ := List.forall_mem_cons.mp hhops
    have hnoted := hs.note hd hh
    have hqueue : (s.note key (d + 1) h).queue = s.queue := note_queue s (d + 1) h
    rw [← hqueue] at hnoted
    have hnodes : (s.note key (d + 1) h).nodes = s.nodes := note_nodes s (d + 1) h
    unfold scan
    dsimp only
    by_cases hseen : far h ∈ s.nodes
    · rw [if_pos (List.contains_iff_mem.mpr (hnodes ▸ hseen))]
      obtain ⟨hs', hkept, hcut, hall⟩ := ih hnoted hhops'
      rw [hnodes] at hkept
      exact ⟨hs', hkept, hcut, fun hr => List.forall_mem_cons.mpr ⟨hkept _ hseen, hall hr⟩⟩
    · rw [if_neg fun hc => hseen (hnodes ▸ List.contains_iff_mem.mp hc)]
      by_cases hbudget : budget ≤ (s.note key (d + 1) h).nodes.length
      · rw [if_pos hbudget]
        exact ⟨hnoted, fun v hv => hnodes ▸ hv, fun _ => ⟨h, hh, hnodes ▸ hseen⟩, (fun h => by cases h)⟩
      · rw [if_neg hbudget]
        obtain ⟨hs', hkept, hcut, hall⟩ := ih (hnoted.add hnode hd hh (hnodes ▸ hseen) (not_le.mp hbudget)) hhops'
        have hadd : ∀ v, v ∈ s.nodes ∨ v = far h →
            v ∈ ((s.note key (d + 1) h).add enter (d + 1) (far h)).nodes := by
          intro v hv
          unfold State.add
          rw [hnodes, List.mem_append, List.mem_singleton]
          exact hv
        refine ⟨hs', fun v hv => hkept v (hadd v (.inl hv)), hcut, fun hr => ?_⟩
        exact List.forall_mem_cons.mpr ⟨hkept _ (hadd _ (.inr rfl)), hall hr⟩

omit [DecidableEq K] in
/-- With nothing left to expand everything in reach is collected. -/
theorem Inv.outcome_done (hseeds : seeds.dedup.length < budget) {s : State V Q H}
    (hs : Inv enter expand far key cap budget node seeds [] s) :
    Outcome (Leads enter expand) far key cap budget seeds s.nodes s.met false := by
  have hall : ∀ v, Within (Leads enter expand) far seeds cap v → v ∈ s.nodes :=
    fun v hv => hs.layers.exhausted.mpr hv
  refine ⟨hs.nodup, hs.length_le, fun v hv => hs.within hv, fun _ => hall,
    iff_of_false Bool.false_ne_true ?_, hs.noted.once, hs.noted.hops⟩
  rintro (hfull | ⟨v, hv, hnot⟩)
  · omega
  · exact hnot (hall v hv)

omit [DecidableEq K] in
/-- Where a hop of the head leads further something in reach is left out. -/
theorem Inv.outcome_cut {s : State V Q H}
    (hs : Inv enter expand far key cap budget node seeds ((q, d) :: rest) s) (hd : d < cap) {h : H}
    (hh : h ∈ expand q) (hnot : far h ∉ s.nodes) :
    Outcome (Leads enter expand) far key cap budget seeds s.nodes s.met true := by
  have hout : Within (Leads enter expand) far seeds cap (far h) := by
    refine ⟨d + 1, hd, (hs.layers.queued _ List.mem_cons_self).2.1.step ?_⟩
    exact (hopEdge_iff (hs.entered _ List.mem_cons_self)).mpr ⟨h, hh, rfl⟩
  exact ⟨hs.nodup, hs.length_le, fun v hv => hs.within hv, (fun h => by cases h),
    iff_of_true rfl (.inr ⟨far h, hout, hnot⟩), hs.noted.once, hs.noted.hops⟩

theorem loop_outcome (hnode : ∀ v q, enter v = some q → node q = v) (hseeds : seeds.dedup.length < budget)
    {fuel : Nat} {s : State V Q H} (hs : Inv enter expand far key cap budget node seeds s.queue s)
    {r : State V Q H × Bool} (h : loop enter expand far key cap budget fuel s = some r) :
    Outcome (Leads enter expand) far key cap budget seeds r.1.nodes r.1.met r.2 := by
  induction fuel generalizing s with
  | zero => cases h
  | succ fuel ih =>
    unfold loop at h
    cases hq : s.queue with
    | nil =>
      rw [hq] at h hs
      cases h
      exact hs.outcome_done hseeds
    | cons p rest =>
      obtain ⟨q, d⟩ := p
      rw [hq] at h hs
      dsimp only at h
      have hrest : Inv enter expand far key cap budget node seeds ((q, d) :: rest) { s with queue := rest } :=
        ⟨hs.nodup, hs.length_le, hs.layers, hs.entered, hs.noted⟩
      by_cases hd : cap ≤ d
      · rw [if_pos hd] at h
        exact ih (s := { s with queue := rest }) (hrest.pop (.inl hd)) h
      · rw [if_neg hd] at h
        obtain ⟨hs', -, hcut, hall⟩ :=
          scan_spec (s := { s with queue := rest }) hnode hrest (not_le.mp hd) fun _ hm => hm
        cases hflag : (scan enter far key budget d (expand q) { s with queue := rest }).2 with
        | true =>
          rw [if_pos hflag] at h
          cases h
          obtain ⟨h, hh, hnot⟩ := hcut hflag
          rw [hflag]
          exact hs'.outcome_cut (not_le.mp hd) hh hnot
        | false =>
          rw [if_neg (by rw [hflag]; exact Bool.false_ne_true)] at h
          exact ih (hs'.pop (.inr (hall hflag))) h

/-- **What a search ends with.** -/
theorem search_outcome (hnode : ∀ v q, enter v = some q → node q = v) {r : State V Q H × Bool}
    (h : search enter expand far key cap budget seeds = some r) :
    Outcome (Leads enter expand) far key cap budget seeds r.1.nodes r.1.met r.2 := by
  obtain ⟨hs, hfull, hall⟩ := seed_cases (H := H) enter budget seeds
  unfold search at h
  dsimp only at h
  split at h
  · rename_i hcut
    rw [Bool.or_eq_true, decide_eq_true_eq] at hcut
    cases h
    refine ⟨hs.nodup, hs.length_le, fun v hv => ?_, fun h => (by cases h),
      iff_of_true rfl (.inl (hfull hcut)), ?_, ?_⟩
    · exact ⟨0, Nat.zero_le _, reaches_zero_iff.mpr (hs.sources v hv)⟩
    · rw [hs.met]
      exact List.nodup_nil
    · rw [hs.met]
      exact fun m hm => absurd hm List.not_mem_nil
  · rename_i hroom
    rw [Bool.or_eq_true, decide_eq_true_eq] at hroom
    obtain ⟨hseeds, hmem⟩ := hall hroom
    exact loop_outcome hnode hseeds (Inv.start hnode hs hmem) h

end Loop

end CappedSearch
