import Unimatrix.Graph.Typed

/-!
# Searches for an active terminal

Model of `find_terminal_active`, `dfs_active_reachable` and `bfs_chain_depth` of `graph.rs`.

* Each is a loop over a stack or a queue. A loop takes `fuel`, the passes it may still make, and returns
  `none` when it would need more; `loopFuel` is enough for every graph (`dfsLoop_isSome`, `bfsLoop_isSome`,
  `findLoop_isSome`).
* `next` is the targets of a node's supersession edges and `terminal` the test of a node's entry.

The supersession edges of a graph that was built are a forest, so a walk between two nodes has one length
(`WalkUnique`). There **`dfsActiveReachable_iff`**, **`bfsChainDepth_eq_some`** and
**`findTerminalActive_eq_some`** say how far each search sees, and **`traversals_agree`** what they have in
common: the first two see one edge further than their cap.
-/

namespace Unimatrix

open Digraph TypedRelationGraph

/-- `MAX_TRAVERSAL_DEPTH`. -/
def maxTraversalDepth : Nat := 10

/-! ## The loops -/

section Loops

variable (next : Nat → List Nat) (terminal : Nat → Bool)

/-- The `for` of `dfs_active_reachable`: `none` when a target is terminal, else the new stack. -/
def dfsScan (depth : Nat) : List Nat → List (Nat × Nat) → Option (List (Nat × Nat))
  | [], stack => some stack
  | w :: ws, stack => if terminal w then none else dfsScan depth ws ((w, depth + 1) :: stack)

/-- The `while` of `dfs_active_reachable`. -/
def dfsLoop (maxDepth : Nat) : Nat → List (Nat × Nat) → List Nat → Option Bool
  | 0, _, _ => none
  | _ + 1, [], _ => some false
  | fuel + 1, (current, depth) :: stack, visited =>
    if visited.contains current then dfsLoop maxDepth fuel stack visited
    else if maxDepth < depth then dfsLoop maxDepth fuel stack (current :: visited)
    else
      match dfsScan terminal depth (next current) stack with
      | none => some true
      | some stack' => dfsLoop maxDepth fuel stack' (current :: visited)

/-- The `for` of `bfs_chain_depth`: the depth of a terminal target, else what was visited and the new
queue. -/
def bfsScan (depth : Nat) : List Nat → List Nat → List (Nat × Nat) →
    Nat ⊕ (List Nat × List (Nat × Nat))
  | [], visited, queue => .inr (visited, queue)
  | w :: ws, visited, queue =>
    if visited.contains w then bfsScan depth ws visited queue
    else if terminal w then .inl (depth + 1)
    else bfsScan depth ws (w :: visited) (queue ++ [(w, depth + 1)])

/-- The `while` of `bfs_chain_depth`. -/
def bfsLoop (maxDepth : Nat) : Nat → List (Nat × Nat) → List Nat → Option (Option Nat)
  | 0, _, _ => none
  | _ + 1, [], _ => some none
  | fuel + 1, (current, depth) :: queue, visited =>
    if maxDepth < depth then bfsLoop maxDepth fuel queue visited
    else
      match bfsScan terminal depth (next current) visited queue with
      | .inl d => some (some d)
      | .inr (visited', queue') => bfsLoop maxDepth fuel queue' visited'

/-- The `for` of `find_terminal_active`. -/
def findScan (depth : Nat) : List Nat → List Nat → List (Nat × Nat) → List Nat × List (Nat × Nat)
  | [], visited, stack => (visited, stack)
  | w :: ws, visited, stack =>
    if visited.contains w then findScan depth ws visited stack
    else findScan depth ws (w :: visited) ((w, depth + 1) :: stack)

/-- The `while` of `find_terminal_active`. -/
def findLoop : Nat → List (Nat × Nat) → List Nat → Option (Option Nat)
  | 0, _, _ => none
  | _ + 1, [], _ => some none
  | fuel + 1, (current, depth) :: stack, visited =>
    if terminal current then some (some current)
    else if maxTraversalDepth < depth + 1 then findLoop fuel stack visited
    else
      let (visited', stack') := findScan depth (next current) visited stack
      findLoop fuel stack' visited'

end Loops

namespace TypedRelationGraph

/-- The targets of the supersession edges of a node. -/
def supersedesTargets (g : TypedRelationGraph) (o : EdgeOrder) (idx : Nat) : List Nat :=
  (g.edgesOfType o idx .supersedes .outgoing).map fun e => e.1.2

/-- The entry of a node is Active and not superseded. -/
def isActiveTerminal (g : TypedRelationGraph) (entries : List EntryRecord) (idx : Nat) : Bool :=
  match entryById (g.idAt idx) entries with
  | some e => e.status == .active && e.supersededBy.isNone
  | none => false

/-- The passes a loop makes at most: a node is pushed along an edge or is the start, and the last pass
finds the stack empty. -/
def loopFuel (g : TypedRelationGraph) : Nat := g.edges.length + 2

end TypedRelationGraph

/-- `dfs_active_reachable`. -/
def dfsActiveReachable (startIdx : Nat) (g : TypedRelationGraph) (o : EdgeOrder)
    (entries : List EntryRecord) (maxDepth : Nat) : Bool :=
  (dfsLoop (g.supersedesTargets o) (g.isActiveTerminal entries) maxDepth g.loopFuel
    [(startIdx, 0)] []).getD false

/-- `bfs_chain_depth`. -/
def bfsChainDepth (startIdx : Nat) (g : TypedRelationGraph) (o : EdgeOrder)
    (entries : List EntryRecord) (maxDepth : Nat) : Option Nat :=
  (bfsLoop (g.supersedesTargets o) (g.isActiveTerminal entries) maxDepth g.loopFuel
    [(startIdx, 0)] [startIdx]).getD none

/-- `find_terminal_active`. -/
def findTerminalActive (nodeId : Nat) (g : TypedRelationGraph) (o : EdgeOrder)
    (entries : List EntryRecord) : Option Nat :=
  match g.nodeIndexFor nodeId with
  | none => none
  | some startIdx =>
    ((findLoop (g.supersedesTargets o) (g.isActiveTerminal entries) g.loopFuel
      [(startIdx, 0)] [startIdx]).getD none).map g.idAt

/-! ## Fuel -/

section Fuel

variable {next : Nat → List Nat} {terminal : Nat → Bool} {edges : List (Nat × Nat)}

/-- The edges whose source was not visited. -/
def unspent (edges : List (Nat × Nat)) (visited : List Nat) : Nat :=
  edges.countP fun e => e.1 ∉ visited

/-- The edges whose target was not visited. -/
def unseen (edges : List (Nat × Nat)) (visited : List Nat) : Nat :=
  edges.countP fun e => e.2 ∉ visited

theorem dfsScan_eq_none {depth : Nat} {ws : List Nat} {stack : List (Nat × Nat)} :
    dfsScan terminal depth ws stack = none ↔ ∃ w ∈ ws, terminal w = true := by
  induction ws generalizing stack with
  | nil => simp [dfsScan]
  | cons w ws ih =>
    unfold dfsScan
    split
    · rename_i h
      simp [h]
    · rename_i h
      rw [ih]
      simp [h]

theorem dfsScan_eq_some {depth : Nat} {ws : List Nat} {stack stack' : List (Nat × Nat)}
    (h : dfsScan terminal depth ws stack = some stack') :
    stack' = (ws.map fun w => (w, depth + 1)).reverse ++ stack := by
  induction ws generalizing stack with
  | nil =>
    cases h
    rfl
  | cons w ws ih =>
    unfold dfsScan at h
    split at h
    · cases h
    · rw [ih h]
      simp

theorem countP_add_le {α : Type} {l : List α} {p q r : α → Bool}
    (hp : ∀ x, p x = true → r x = true ∧ q x = false) (hq : ∀ x, q x = true → r x = true) :
    l.countP p + l.countP q ≤ l.countP r := by
  induction l with
  | nil => exact Nat.le_refl 0
  | cons x l ih =>
    have hpx := hp x
    have hqx := hq x
    simp only [List.countP_cons]
    cases hxp : p x <;> cases hxq : q x <;> cases hxr : r x <;> simp_all <;> omega

theorem countP_notMem_cons (side : Nat × Nat → Nat) {visited : List Nat} {v : Nat} (hv : v ∉ visited) :
    edges.countP (fun e => side e ∉ v :: visited) + edges.countP (fun e => side e = v) ≤
      edges.countP (fun e => side e ∉ visited) := by
  refine countP_add_le (fun e he => ?_) fun e he => ?_
  · rw [decide_eq_true_eq, List.mem_cons, not_or] at he
    exact ⟨decide_eq_true he.2, decide_eq_false he.1⟩
  · rw [decide_eq_true_eq] at he
    rw [he]
    exact decide_eq_true hv

/-- A node that is expanded spends its edges. -/
theorem unspent_cons {visited : List Nat} {v : Nat} (hv : v ∉ visited) :
    unspent edges (v :: visited) + edges.countP (fun e => e.1 = v) ≤ unspent edges visited :=
  countP_notMem_cons Prod.fst hv

/-- A node that is pushed is seen along one edge at least. -/
theorem unseen_cons {visited : List Nat} {v w : Nat} (hw : w ∉ visited) (he : (v, w) ∈ edges) :
    unseen edges (w :: visited) + 1 ≤ unseen edges visited := by
  have hone : 1 ≤ edges.countP (fun e => e.2 = w) :=
    List.countP_pos_iff.mpr ⟨(v, w), he, decide_eq_true rfl⟩
  have hadd : unseen edges (w :: visited) + edges.countP (fun e => e.2 = w) ≤ unseen edges visited :=
    countP_notMem_cons Prod.snd hw
  omega

variable (terminal) in
/-- **The fuel of the depth-first loop suffices.** A node is expanded once, and pushes at most its
edges. -/
theorem dfsLoop_isSome (hnext : ∀ v, (next v).length ≤ edges.countP fun e => e.1 = v)
    (maxDepth : Nat) {fuel : Nat} {stack : List (Nat × Nat)} {visited : List Nat}
    (hfuel : stack.length + unspent edges visited < fuel) :
    (dfsLoop next terminal maxDepth fuel stack visited).isSome = true := by
  induction fuel generalizing stack visited with
  | zero => exact absurd hfuel (Nat.not_lt_zero _)
  | succ fuel ih =>
    cases stack with
    | nil => rfl
    | cons p stack =>
      obtain ⟨current, depth⟩ := p
      rw [List.length_cons] at hfuel
      unfold dfsLoop
      split
      · exact ih (by omega)
      · rename_i hseen
        have hv : current ∉ visited := fun h => hseen (List.contains_iff_mem.mpr h)
        have hcount : unspent edges (current :: visited) + _ ≤ _ := unspent_cons hv
        split
        · exact ih (by omega)
        · cases hscan : dfsScan terminal depth (next current) stack with
          | none => rfl
          | some stack' =>
            refine ih ?_
            have hlen := hnext current
            rw [dfsScan_eq_some hscan, List.length_append, List.length_reverse, List.length_map]
            omega

/-- What a scan of the targets `ws` of a node at `depth` does to what was visited and is pending. -/
structure Scanned (edges : List (Nat × Nat)) (depth : Nat) (ws visited : List Nat)
    (pending : List (Nat × Nat)) (visited' : List Nat) (pending' : List (Nat × Nat)) : Prop where
  visited_iff : ∀ v, v ∈ visited' ↔ v ∈ visited ∨ v ∈ ws
  pending_iff : ∀ p, p ∈ pending' ↔ p ∈ pending ∨ (p.1 ∈ ws ∧ p.1 ∉ visited ∧ p.2 = depth + 1)
  measure : pending'.length + unseen edges visited' ≤ pending.length + unseen edges visited

theorem Scanned.nil {depth : Nat} {visited : List Nat} {pending : List (Nat × Nat)} :
    Scanned edges depth [] visited pending visited pending where
  visited_iff v := by simp
  pending_iff p := by simp
  measure := Nat.le_refl _

/-- A target that was visited is passed over. -/
theorem Scanned.skip {depth w : Nat} {ws visited visited' : List Nat}
    {pending pending' : List (Nat × Nat)} (hw : w ∈ visited)
    (h : Scanned edges depth ws visited pending visited' pending') :
    Scanned edges depth (w :: ws) visited pending visited' pending' where
  visited_iff v := by
    rw [h.visited_iff, List.mem_cons]
    constructor
    · tauto
    · rintro (hv | rfl | hv)
      · exact .inl hv
      · exact .inl hw
      · exact .inr hv
  pending_iff p := by
    rw [h.pending_iff, List.mem_cons]
    constructor
    · tauto
    · rintro (hp | ⟨rfl | hp, hn, hd⟩)
      · exact .inl hp
      · exact absurd hw hn
      · exact .inr ⟨hp, hn, hd⟩
  measure := h.measure

/-- A new target is visited and pushed, at either end. -/
theorem Scanned.push {depth v w : Nat} {ws visited visited' : List Nat}
    {pending pushed pending' : List (Nat × Nat)} (hw : w ∉ visited) (he : (v, w) ∈ edges)
    (hperm : pushed.Perm ((w, depth + 1) :: pending))
    (h : Scanned edges depth ws (w :: visited) pushed visited' pending') :
    Scanned edges depth (w :: ws) visited pending visited' pending' where
  visited_iff u := by
    rw [h.visited_iff, List.mem_cons, List.mem_cons]
    tauto
  pending_iff p := by
    rw [h.pending_iff, hperm.mem_iff, List.mem_cons, List.mem_cons, List.mem_cons]
    constructor
    · rintro ((rfl | hp) | ⟨hp, hn, hd⟩)
      · exact .inr ⟨.inl rfl, hw, rfl⟩
      · exact .inl hp
      · exact .inr ⟨.inr hp, fun hv => hn (.inr hv), hd⟩
    · rintro (hp | ⟨hp, hn, hd⟩)
      · exact .inl (.inr hp)
      · by_cases hpw : p.1 = w
        · exact .inl (.inl (Prod.ext hpw hd))
        · exact .inr ⟨hp.resolve_left hpw, fun hv => hv.elim hpw hn, hd⟩
  measure := by
    have hlen := hperm.length_eq
    have hcount := unseen_cons hw he
    have hm := h.measure
    rw [List.length_cons] at hlen
    omega

theorem bfsScan_inl {depth d : Nat} {ws visited : List Nat} {queue : List (Nat × Nat)}
    (h : bfsScan terminal depth ws visited queue = .inl d) :
    d = depth + 1 ∧ ∃ w ∈ ws, terminal w = true := by
  induction ws generalizing visited queue with
  | nil => cases h
  | cons w ws ih =>
    unfold bfsScan at h
    split at h
    · obtain ⟨hd, w', hw', ht⟩ := ih h
      exact ⟨hd, w', List.mem_cons_of_mem _ hw', ht⟩
    · split at h
      · rename_i ht
        cases h
        exact ⟨rfl, w, List.mem_cons_self, ht⟩
      · obtain ⟨hd, w', hw', ht⟩ := ih h
        exact ⟨hd, w', List.mem_cons_of_mem _ hw', ht⟩

theorem bfsScan_inr {depth v : Nat} {ws visited visited' : List Nat} {queue queue' : List (Nat × Nat)}
    (hws : ∀ w ∈ ws, (v, w) ∈ edges)
    (h : bfsScan terminal depth ws visited queue = .inr (visited', queue')) :
    Scanned edges depth ws visited queue visited' queue' ∧
      (∃ tail, queue' = queue ++ tail ∧ ∀ p ∈ tail, p.2 = depth + 1) ∧
      ∀ w ∈ ws, w ∉ visited → terminal w = false := by
  induction ws generalizing visited queue with
  | nil =>
    cases h
    exact ⟨.nil, ⟨[], (List.append_nil _).symm, fun p hp => absurd hp List.not_mem_nil⟩,
      fun w hw => absurd hw List.not_mem_nil⟩
  | cons w ws ih =>
    have hws' : ∀ w ∈ ws, (v, w) ∈ edges := fun u hu => hws u (List.mem_cons_of_mem _ hu)
    unfold bfsScan at h
    split at h
    · rename_i hseen
      have hw := List.contains_iff_mem.mp hseen
      obtain ⟨hs, htail, hclear⟩ := ih hws' h
      refine ⟨hs.skip hw, htail, fun u hu hn => ?_⟩
      rcases List.mem_cons.mp hu with rfl | hu
      · exact absurd hw hn
      · exact hclear u hu hn
    · rename_i hseen
      have hw : w ∉ visited := fun hm => hseen (List.contains_iff_mem.mpr hm)
      split at h
      · cases h
      · rename_i ht
        obtain ⟨hs, ⟨tail, hq, htail⟩, hclear⟩ := ih hws' h
        refine ⟨hs.push hw (hws w List.mem_cons_self) (List.perm_append_singleton _ _),
          ⟨(w, depth + 1) :: tail, ?_, ?_⟩, ?_⟩
        · rw [hq, List.append_assoc]
          rfl
        · intro p hp
          rcases List.mem_cons.mp hp with rfl | hp
          · rfl
          · exact htail p hp
        · intro u hu hn
          by_cases huw : u = w
          · rw [huw]
            exact Bool.not_eq_true _ ▸ ht
          · exact hclear u ((List.mem_cons.mp hu).resolve_left huw) fun hm =>
              (List.mem_cons.mp hm).elim huw hn

theorem findScan_scanned {v : Nat} {ws : List Nat} (hws : ∀ w ∈ ws, (v, w) ∈ edges) (depth : Nat)
    (visited : List Nat) (stack : List (Nat × Nat)) :
    Scanned edges depth ws visited stack (findScan depth ws visited stack).1
      (findScan depth ws visited stack).2 := by
  induction ws generalizing visited stack with
  | nil => exact .nil
  | cons w ws ih =>
    have hws' : ∀ w ∈ ws, (v, w) ∈ edges := fun u hu => hws u (List.mem_cons_of_mem _ hu)
    unfold findScan
    split
    · rename_i hseen
      exact (ih hws' _ _).skip (List.contains_iff_mem.mp hseen)
    · rename_i hseen
      exact (ih hws' _ _).push (fun hm => hseen (List.contains_iff_mem.mpr hm))
        (hws w List.mem_cons_self) (List.Perm.refl _)

variable (terminal) in
/-- **The fuel of the breadth-first loop suffices.** A node is pushed once. -/
theorem bfsLoop_isSome (hnext : ∀ v, ∀ w ∈ next v, (v, w) ∈ edges) (maxDepth : Nat) {fuel : Nat}
    {queue : List (Nat × Nat)} {visited : List Nat}
    (hfuel : queue.length + unseen edges visited < fuel) :
    (bfsLoop next terminal maxDepth fuel queue visited).isSome = true := by
  induction fuel generalizing queue visited with
  | zero => exact absurd hfuel (Nat.not_lt_zero _)
  | succ fuel ih =>
    cases queue with
    | nil => rfl
    | cons p queue =>
      obtain ⟨current, depth⟩ := p
      rw [List.length_cons] at hfuel
      unfold bfsLoop
      split
      · exact ih (by omega)
      · cases hscan : bfsScan terminal depth (next current) visited queue with
        | inl d => rfl
        | inr r =>
          have hm := (bfsScan_inr (hnext current) hscan).1.measure
          exact ih (by omega)

variable (terminal) in
/-- The fuel of the search for a terminal suffices. -/
theorem findLoop_isSome (hnext : ∀ v, ∀ w ∈ next v, (v, w) ∈ edges) {fuel : Nat}
    {stack : List (Nat × Nat)} {visited : List Nat}
    (hfuel : stack.length + unseen edges visited < fuel) :
    (findLoop next terminal fuel stack visited).isSome = true := by
  induction fuel generalizing stack visited with
  | zero => exact absurd hfuel (Nat.not_lt_zero _)
  | succ fuel ih =>
    cases stack with
    | nil => rfl
    | cons p stack =>
      obtain ⟨current, depth⟩ := p
      rw [List.length_cons] at hfuel
      unfold findLoop
      split
      · rfl
      · split
        · exact ih (by omega)
        · have hm := (findScan_scanned (hnext current) depth visited stack).measure
          exact ih (by omega)

end Fuel

/-! ## What the loops find -/

/-- A terminal is `n` edges away. -/
def Hits (E : Nat → Nat → Prop) (terminal : Nat → Bool) (a n : Nat) : Prop :=
  ∃ j, Walk E a n j ∧ terminal j = true

/-- Two walks from `a` with one end have one length. -/
def WalkUnique (E : Nat → Nat → Prop) (a : Nat) : Prop :=
  ∀ v m n, Walk E a m v → Walk E a n v → m = n

section Runs

variable {next : Nat → List Nat} {terminal : Nat → Bool} {a : Nat}

/-- The edges a loop follows. -/
abbrev Leads (next : Nat → List Nat) (v w : Nat) : Prop := w ∈ next v

/-- The state of the depth-first loop: whatever was visited within the cap has no terminal target. -/
structure DfsInv (next : Nat → List Nat) (terminal : Nat → Bool) (a maxDepth : Nat)
    (stack : List (Nat × Nat)) (visited : List Nat) : Prop where
  frontier : Frontier (Leads next) a (maxDepth + 1) stack (· ∈ visited)
  clear : ∀ v ∈ visited, ∀ n ≤ maxDepth, Walk (Leads next) a n v → ∀ w ∈ next v, terminal w = false

section Dfs

variable {maxDepth current depth : Nat} {stack : List (Nat × Nat)} {visited : List Nat}

/-- The node taken is done from now on; nothing is terminal one edge from it. -/
theorem DfsInv.visit {stack' : List (Nat × Nat)}
    (hinv : DfsInv next terminal a maxDepth ((current, depth) :: stack) visited)
    (hf : Frontier (Leads next) a (maxDepth + 1) stack' fun u => u ∈ visited ∨ u = current)
    (hclear : ∀ n ≤ maxDepth, Walk (Leads next) a n current → ∀ w ∈ next current, terminal w = false) :
    DfsInv next terminal a maxDepth stack' (current :: visited) where
  frontier := hf.of_iff fun u => by
    rw [List.mem_cons]
    exact or_comm
  clear v hv := by
    rcases List.mem_cons.mp hv with rfl | hv
    · exact hclear
    · exact hinv.clear v hv

/-- The node taken is past the cap. -/
theorem DfsInv.cut (huniq : WalkUnique (Leads next) a)
    (hinv : DfsInv next terminal a maxDepth ((current, depth) :: stack) visited)
    (hdeep : maxDepth < depth) : DfsInv next terminal a maxDepth stack (current :: visited) := by
  have hfar : ∀ n ≤ maxDepth, ¬ Walk (Leads next) a n current := by
    intro n hn hw
    have := huniq _ _ _ hw (hinv.frontier.walk _ List.mem_cons_self)
    dsimp only at this
    omega
  refine hinv.visit (hinv.frontier.cut fun n hn => hfar n (Nat.lt_succ_iff.mp hn)) fun n hn hw => ?_
  exact absurd hw (hfar n hn)

/-- The node taken is expanded: none of its targets is terminal, and all of them are pushed. -/
theorem DfsInv.advance {stack' : List (Nat × Nat)}
    (hinv : DfsInv next terminal a maxDepth ((current, depth) :: stack) visited)
    (hscan : dfsScan terminal depth (next current) stack = some stack') :
    DfsInv next terminal a maxDepth stack' (current :: visited) := by
  have hclear : ∀ w ∈ next current, terminal w = false := by
    intro w hnext
    by_contra ht
    rw [Bool.not_eq_false] at ht
    rw [dfsScan_eq_none.mpr ⟨w, hnext, ht⟩] at hscan
    cases hscan
  have hmem : ∀ p, p ∈ stack' ↔ p ∈ stack ∨ p ∈ (next current).map fun w => (w, depth + 1) := by
    intro p
    rw [dfsScan_eq_some hscan, List.mem_append, List.mem_reverse]
    exact or_comm
  refine hinv.visit (hinv.frontier.expand hmem ?_ ?_) fun _ _ _ => hclear
  · intro p hp
    obtain ⟨w, hnext, rfl⟩ := List.mem_map.mp hp
    exact ⟨hnext, rfl⟩
  · intro w hnext
    exact .inr ⟨depth + 1, (hmem _).mpr (.inr (List.mem_map.mpr ⟨w, hnext, rfl⟩))⟩

/-- Once the stack is empty no terminal is left within the cap. -/
theorem DfsInv.exhausted (hinv : DfsInv next terminal a maxDepth [] visited) {n : Nat}
    (hn : n ≤ maxDepth) : ¬ Hits (Leads next) terminal a (n + 1) := by
  rintro ⟨j, hw, ht⟩
  obtain ⟨v, hv, he⟩ := walk_succ_iff.mp hw
  have hdone := hinv.frontier.done_of_walk hv (Nat.le_succ_of_le hn)
  rw [hinv.clear v hdone n hn hv j he] at ht
  cases ht

end Dfs

theorem dfsLoop_spec (huniq : WalkUnique (Leads next) a) {maxDepth fuel : Nat}
    {stack : List (Nat × Nat)} {visited : List Nat} {found : Bool}
    (hinv : DfsInv next terminal a maxDepth stack visited)
    (h : dfsLoop next terminal maxDepth fuel stack visited = some found) :
    found = true ↔ ∃ n ≤ maxDepth, Hits (Leads next) terminal a (n + 1) := by
  induction fuel generalizing stack visited with
  | zero => cases h
  | succ fuel ih =>
    cases stack with
    | nil =>
      cases h
      refine ⟨fun hc => absurd hc Bool.false_ne_true, ?_⟩
      rintro ⟨n, hn, hhit⟩
      exact absurd hhit (hinv.exhausted hn)
    | cons p stack =>
      obtain ⟨current, depth⟩ := p
      unfold dfsLoop at h
      split at h
      · rename_i hseen
        exact ih ⟨hinv.frontier.again (List.contains_iff_mem.mp hseen), hinv.clear⟩ h
      · split at h
        · rename_i hdeep
          exact ih (hinv.cut huniq hdeep) h
        · rename_i hdeep
          cases hscan : dfsScan terminal depth (next current) stack with
          | none =>
            rw [hscan] at h
            cases h
            obtain ⟨w, hnext, ht⟩ := dfsScan_eq_none.mp hscan
            have hwalk := hinv.frontier.walk _ List.mem_cons_self
            exact ⟨fun _ => ⟨depth, not_lt.mp hdeep, w, hwalk.snoc hnext, ht⟩, fun _ => rfl⟩
          | some stack' =>
            rw [hscan] at h
            exact ih (hinv.advance hscan) h

/-- A scan of the targets of the node taken moves the search on. -/
theorem Scanned.frontier {edges : List (Nat × Nat)} {bound current depth : Nat}
    {visited visited' : List Nat} {rest pending' : List (Nat × Nat)} {done : Nat → Prop}
    (hs : Scanned edges depth (next current) visited rest visited' pending')
    (hf : Frontier (Leads next) a bound ((current, depth) :: rest) done)
    (hseen : ∀ v, v ∈ visited ↔ done v ∨ ∃ m, (v, m) ∈ (current, depth) :: rest) :
    Frontier (Leads next) a bound pending' (fun u => done u ∨ u = current) ∧
      ∀ v, v ∈ visited' ↔ (done v ∨ v = current) ∨ ∃ m, (v, m) ∈ pending' := by
  have hmem : ∀ p, p ∈ pending' ↔ p ∈ rest ∨ p ∈ ((next current).filter (· ∉ visited)).map
      fun w => (w, depth + 1) := by
    intro p
    rw [hs.pending_iff, List.mem_map]
    refine or_congr_right ⟨?_, ?_⟩
    · rintro ⟨hw, hn, hd⟩
      exact ⟨p.1, List.mem_filter.mpr ⟨hw, decide_eq_true hn⟩, Prod.ext rfl hd.symm⟩
    · rintro ⟨w, hw, rfl⟩
      rw [List.mem_filter, decide_eq_true_eq] at hw
      exact ⟨hw.1, hw.2, rfl⟩
  have hvisited : ∀ v, v ∈ visited → (done v ∨ v = current) ∨ ∃ m, (v, m) ∈ pending' := by
    intro v hv
    rcases done_or_pending_cons_iff.mp ((hseen v).mp hv) with hd | ⟨m, hm⟩
    · exact .inl hd
    · exact .inr ⟨m, (hs.pending_iff _).mpr (.inl hm)⟩
  have hnext : ∀ w ∈ next current, (done w ∨ w = current) ∨ ∃ m, (w, m) ∈ pending' := by
    intro w hw
    by_cases hv : w ∈ visited
    · exact hvisited w hv
    · exact .inr ⟨depth + 1, (hs.pending_iff _).mpr (.inr ⟨hw, hv, rfl⟩)⟩
  refine ⟨hf.expand hmem ?_ hnext, fun v => ?_⟩
  · intro p hp
    obtain ⟨w, hw, rfl⟩ := List.mem_map.mp hp
    exact ⟨(List.mem_filter.mp hw).1, rfl⟩
  · rw [hs.visited_iff]
    constructor
    · rintro (hv | hv)
      · exact hvisited v hv
      · exact hnext v hv
    · rintro ((hd | rfl) | ⟨m, hm⟩)
      · exact .inl ((hseen v).mpr (.inl hd))
      · exact .inl ((hseen _).mpr (.inr ⟨depth, List.mem_cons_self⟩))
      · rcases (hs.pending_iff _).mp hm with hm | ⟨hw, -, -⟩
        · exact .inl ((hseen v).mpr (.inr ⟨m, List.mem_cons_of_mem _ hm⟩))
        · exact .inr hw

/-- The state of the breadth-first loop: nothing visited but the start is terminal, and the queue is in
order of depth. -/
structure BfsInv (next : Nat → List Nat) (terminal : Nat → Bool) (a maxDepth : Nat)
    (queue : List (Nat × Nat)) (visited : List Nat) (done : Nat → Prop) : Prop where
  frontier : Frontier (Leads next) a (maxDepth + 1) queue done
  seen : ∀ v, v ∈ visited ↔ done v ∨ ∃ m, (v, m) ∈ queue
  clear : ∀ v ∈ visited, v ≠ a → terminal v = false
  sorted : queue.Pairwise fun p q => p.2 ≤ q.2
  close : ∀ p ∈ queue, ∀ q ∈ queue, q.2 ≤ p.2 + 1

/-- What is pending is at its shortest distance. -/
theorem WalkUnique.short (huniq : WalkUnique (Leads next) a) {bound : Nat}
    {pending : List (Nat × Nat)} {done : Nat → Prop}
    (hf : Frontier (Leads next) a bound pending done) :
    ∀ p ∈ pending, ∀ n, Walk (Leads next) a n p.1 → p.2 ≤ n :=
  fun p hp _ hw => (huniq _ _ _ (hf.walk p hp) hw).le

/-- The loop has visited whatever is no further than the node it takes. -/
theorem BfsInv.visited_of_walk (huniq : WalkUnique (Leads next) a) {maxDepth current depth : Nat}
    {rest : List (Nat × Nat)} {visited : List Nat} {done : Nat → Prop}
    (hinv : BfsInv next terminal a maxDepth ((current, depth) :: rest) visited done)
    (hd : depth ≤ maxDepth) {n j : Nat} (hw : Walk (Leads next) a n j) (hn : n ≤ depth) :
    j ∈ visited := by
  have hfar : ∀ p ∈ (current, depth) :: rest, depth ≤ p.2 := by
    intro p hp
    rcases List.mem_cons.mp hp with rfl | hp
    · exact Nat.le_refl _
    · exact (List.pairwise_cons.mp hinv.sorted).1 p hp
  rw [hinv.seen]
  cases n with
  | zero =>
    rw [walk_zero_iff.mp hw]
    exact hinv.frontier.start
  | succ n =>
    obtain ⟨v, hv, he⟩ := walk_succ_iff.mp hw
    have hdone := hinv.frontier.done_below (huniq.short hinv.frontier) hfar hv (by omega) (by omega)
    exact hinv.frontier.next v hdone n hv (by omega) j he

section Bfs

variable {edges : List (Nat × Nat)} {maxDepth current depth : Nat} {rest : List (Nat × Nat)}
  {visited : List Nat} {done : Nat → Prop}

/-- No walk of positive length leads back to the start. -/
theorem WalkUnique.ne_start (huniq : WalkUnique (Leads next) a) {k j : Nat} (hk : 1 ≤ k)
    (hw : Walk (Leads next) a k j) : j ≠ a := by
  rintro rfl
  have := huniq _ _ _ hw .refl
  omega

/-- Whatever is at most as far as the node taken is no terminal, but for the start. -/
theorem BfsInv.not_hits (huniq : WalkUnique (Leads next) a)
    (hinv : BfsInv next terminal a maxDepth ((current, depth) :: rest) visited done)
    (hd : depth ≤ maxDepth) {k : Nat} (hk : 1 ≤ k) (hkd : k ≤ depth) :
    ¬ Hits (Leads next) terminal a k := by
  rintro ⟨j, hw, ht⟩
  rw [hinv.clear j (hinv.visited_of_walk huniq hd hw hkd) (huniq.ne_start hk hw)] at ht
  cases ht

/-- Once the queue is empty no terminal is left within the cap. -/
theorem BfsInv.exhausted (huniq : WalkUnique (Leads next) a)
    (hinv : BfsInv next terminal a maxDepth [] visited done) {k : Nat} (hk : 1 ≤ k)
    (hkd : k ≤ maxDepth + 1) : ¬ Hits (Leads next) terminal a k := by
  rintro ⟨j, hw, ht⟩
  have hv := (hinv.seen j).mpr (.inl (hinv.frontier.done_of_walk hw hkd))
  rw [hinv.clear j hv (huniq.ne_start hk hw)] at ht
  cases ht

/-- The node taken is past the cap. -/
theorem BfsInv.cut (huniq : WalkUnique (Leads next) a)
    (hinv : BfsInv next terminal a maxDepth ((current, depth) :: rest) visited done)
    (hdeep : maxDepth < depth) :
    BfsInv next terminal a maxDepth rest visited fun u => done u ∨ u = current where
  frontier := hinv.frontier.cut fun _ _ hw =>
    absurd (huniq _ _ _ hw (hinv.frontier.walk _ List.mem_cons_self)) (by omega)
  seen v := (hinv.seen v).trans done_or_pending_cons_iff
  clear := hinv.clear
  sorted := (List.pairwise_cons.mp hinv.sorted).2
  close p hp q hq := hinv.close p (List.mem_cons_of_mem _ hp) q (List.mem_cons_of_mem _ hq)

/-- The node taken is expanded: none of its new targets is terminal, and all of them are pushed. -/
theorem BfsInv.advance (hnext : ∀ v, ∀ w ∈ next v, (v, w) ∈ edges) {visited' : List Nat}
    {queue' : List (Nat × Nat)}
    (hinv : BfsInv next terminal a maxDepth ((current, depth) :: rest) visited done)
    (hscan : bfsScan terminal depth (next current) visited rest = .inr (visited', queue')) :
    BfsInv next terminal a maxDepth queue' visited' fun u => done u ∨ u = current := by
  obtain ⟨hs, ⟨tail, rfl, htail⟩, hclear⟩ := bfsScan_inr (hnext current) hscan
  obtain ⟨hf, hseen⟩ := hs.frontier hinv.frontier hinv.seen
  obtain ⟨hfirst, hsorted⟩ := List.pairwise_cons.mp hinv.sorted
  have hnear : ∀ p ∈ rest, p.2 ≤ depth + 1 := fun p hp =>
    hinv.close (current, depth) List.mem_cons_self p (List.mem_cons_of_mem _ hp)
  have hlevel : ∀ p ∈ rest ++ tail, depth ≤ p.2 ∧ p.2 ≤ depth + 1 := by
    intro p hp
    rcases List.mem_append.mp hp with hp | hp
    · exact ⟨hfirst p hp, hnear p hp⟩
    · rw [htail p hp]
      exact ⟨Nat.le_succ _, Nat.le_refl _⟩
  refine ⟨hf, hseen, fun v hv hva => ?_, pairwise_append_level hsorted hnear htail,
    fun p hp q hq => ?_⟩
  · rcases (hs.visited_iff v).mp hv with hv | hv
    · exact hinv.clear v hv hva
    · by_cases hold : v ∈ visited
      · exact hinv.clear v hold hva
      · exact hclear v hv hold
  · have := hlevel p hp
    have := hlevel q hq
    omega

end Bfs

theorem bfsLoop_spec {edges : List (Nat × Nat)} (hnext : ∀ v, ∀ w ∈ next v, (v, w) ∈ edges)
    (huniq : WalkUnique (Leads next) a) {maxDepth fuel : Nat} {queue : List (Nat × Nat)}
    {visited : List Nat} {done : Nat → Prop} {found : Option Nat}
    (hinv : BfsInv next terminal a maxDepth queue visited done)
    (h : bfsLoop next terminal maxDepth fuel queue visited = some found) :
    (∀ d, found = some d → 1 ≤ d ∧ d ≤ maxDepth + 1 ∧ Hits (Leads next) terminal a d ∧
        ∀ k, 1 ≤ k → Hits (Leads next) terminal a k → d ≤ k) ∧
      (found = none → ∀ k, 1 ≤ k → k ≤ maxDepth + 1 → ¬ Hits (Leads next) terminal a k) := by
  induction fuel generalizing queue visited done with
  | zero => cases h
  | succ fuel ih =>
    cases queue with
    | nil =>
      cases h
      exact ⟨fun d hd => (by cases hd), fun _ k => hinv.exhausted huniq⟩
    | cons p rest =>
      obtain ⟨current, depth⟩ := p
      unfold bfsLoop at h
      split at h
      · rename_i hdeep
        exact ih (hinv.cut huniq hdeep) h
      · rename_i hdeep
        rw [not_lt] at hdeep
        cases hscan : bfsScan terminal depth (next current) visited rest with
        | inl d =>
          rw [hscan] at h
          cases h
          obtain ⟨rfl, w, hw, ht⟩ := bfsScan_inl hscan
          have hwalk := hinv.frontier.walk _ List.mem_cons_self
          refine ⟨fun d hd => ?_, fun hc => by cases hc⟩
          cases hd
          refine ⟨Nat.le_add_left _ _, Nat.succ_le_succ hdeep, ⟨w, hwalk.snoc hw, ht⟩, ?_⟩
          intro k hk hhit
          by_contra hnear
          exact hinv.not_hits huniq hdeep hk (by omega) hhit
        | inr r =>
          rw [hscan] at h
          exact ih (hinv.advance hnext hscan) h

/-- The state of the search for a terminal: nothing done is terminal. -/
structure FindInv (next : Nat → List Nat) (terminal : Nat → Bool) (a : Nat)
    (stack : List (Nat × Nat)) (visited : List Nat) (done : Nat → Prop) : Prop where
  frontier : Frontier (Leads next) a maxTraversalDepth stack done
  seen : ∀ v, v ∈ visited ↔ done v ∨ ∃ m, (v, m) ∈ stack
  clear : ∀ v, done v → terminal v = false
  near : ∀ p ∈ stack, p.2 ≤ maxTraversalDepth

theorem findLoop_spec {edges : List (Nat × Nat)} (hnext : ∀ v, ∀ w ∈ next v, (v, w) ∈ edges)
    (huniq : WalkUnique (Leads next) a) {fuel : Nat} {stack : List (Nat × Nat)} {visited : List Nat}
    {done : Nat → Prop} {found : Option Nat} (hinv : FindInv next terminal a stack visited done)
    (h : findLoop next terminal fuel stack visited = some found) :
    (∀ t, found = some t → terminal t = true ∧ ∃ k ≤ maxTraversalDepth, Walk (Leads next) a k t) ∧
      (found = none → ∀ k ≤ maxTraversalDepth, ¬ Hits (Leads next) terminal a k) := by
  induction fuel generalizing stack visited done with
  | zero => cases h
  | succ fuel ih =>
    cases stack with
    | nil =>
      cases h
      refine ⟨fun t ht => (by cases ht), fun _ k hk => ?_⟩
      rintro ⟨j, hw, ht⟩
      rw [hinv.clear j (hinv.frontier.done_of_walk hw hk)] at ht
      cases ht
    | cons p rest =>
      obtain ⟨current, depth⟩ := p
      have hwalk := hinv.frontier.walk _ List.mem_cons_self
      have hdepth := hinv.near _ List.mem_cons_self
      unfold findLoop at h
      split at h
      · rename_i ht
        cases h
        refine ⟨fun t hc => ?_, fun hc => by cases hc⟩
        cases hc
        exact ⟨ht, depth, hdepth, hwalk⟩
      · rename_i ht
        have hclear : ∀ v, done v ∨ v = current → terminal v = false := by
          rintro v (hv | rfl)
          · exact hinv.clear v hv
          · exact Bool.not_eq_true _ ▸ ht
        split at h
        · rename_i hdeep
          have hf := hinv.frontier.cut fun n hn hw => absurd (huniq _ _ _ hw hwalk) (by omega)
          exact ih ⟨hf, fun v => (hinv.seen v).trans done_or_pending_cons_iff, hclear, fun p hp =>
            hinv.near p (List.mem_cons_of_mem _ hp)⟩ h
        · rename_i hdeep
          have hs := findScan_scanned (hnext current) depth visited rest
          obtain ⟨hf, hseen⟩ := hs.frontier hinv.frontier hinv.seen
          refine ih ⟨hf, hseen, hclear, fun p hp => ?_⟩ h
          rcases (hs.pending_iff p).mp hp with hp | ⟨-, -, hd⟩
          · exact hinv.near p (List.mem_cons_of_mem _ hp)
          · omega

end Runs

/-! ## The searches of a graph that was built -/

section Built

variable {entries : List EntryRecord} {rows : List GraphEdgeRow} {g : TypedRelationGraph}

theorem leads_eq (g : TypedRelationGraph) (o : EdgeOrder) :
    Leads (g.supersedesTargets o) = g.SupersedesEdge := by
  funext v w
  refine propext ?_
  unfold Leads supersedesTargets SupersedesEdge
  rw [List.mem_map]
  constructor
  · rintro ⟨⟨⟨i, j⟩, weight⟩, he, rfl⟩
    obtain ⟨hmem, htouch, htype⟩ := mem_edgesOfType.mp he
    obtain rfl : i = v := of_decide_eq_true htouch
    exact ⟨weight, hmem, htype⟩
  · rintro ⟨weight, hmem, htype⟩
    exact ⟨((v, w), weight), mem_edgesOfType.mpr ⟨hmem, decide_eq_true rfl, htype⟩, rfl⟩

theorem supersedesTargets_mem (g : TypedRelationGraph) (o : EdgeOrder) (v : Nat) :
    ∀ w ∈ g.supersedesTargets o v, (v, w) ∈ g.edges.map Prod.fst := by
  intro w hw
  have he : g.SupersedesEdge v w := by
    rw [← leads_eq g o]
    exact hw
  obtain ⟨weight, hmem, -⟩ := he
  exact List.mem_map_of_mem hmem

theorem supersedesTargets_length (g : TypedRelationGraph) (o : EdgeOrder) (v : Nat) :
    (g.supersedesTargets o v).length ≤ (g.edges.map Prod.fst).countP fun e => e.1 = v := by
  unfold supersedesTargets edgesOfType
  rw [List.length_map, List.countP_map, List.countP_eq_length_filter]
  refine (List.length_filter_le _ _).trans ?_
  rw [(o.perm _).length_eq]
  exact le_refl _

/-- What is spent at the start of a loop fits in its fuel. -/
theorem start_lt_loopFuel (g : TypedRelationGraph) (p : Nat × Nat) (q : Nat × Nat → Bool) :
    [p].length + (g.edges.map Prod.fst).countP q < g.loopFuel := by
  have hle : (g.edges.map Prod.fst).countP q ≤ (g.edges.map Prod.fst).length := List.countP_le_length
  rw [List.length_map] at hle
  unfold loopFuel
  rw [List.length_singleton]
  omega

theorem walkUnique_of_build (hids : (entries.map EntryRecord.id).Nodup)
    (hg : buildTypedRelationGraph entries rows = .ok g) (o : EdgeOrder) (i : Nat) :
    WalkUnique (Leads (g.supersedesTargets o)) i := by
  rw [leads_eq]
  intro v m n hm hn
  exact Walk.length_unique (supersedesEdge_unique hids hg) (supersedesEdge_acyclic hg) hm hn

/-- A terminal is `k` supersessions away from the node. -/
abbrev TypedRelationGraph.HitsTerminal (g : TypedRelationGraph) (entries : List EntryRecord)
    (i k : Nat) : Prop := Hits g.SupersedesEdge (g.isActiveTerminal entries) i k

/-- **The depth-first search sees one edge further than its cap.** -/
theorem dfsActiveReachable_iff (hids : (entries.map EntryRecord.id).Nodup)
    (hg : buildTypedRelationGraph entries rows = .ok g) (o : EdgeOrder) (i maxDepth : Nat) :
    dfsActiveReachable i g o entries maxDepth = true ↔
      ∃ n ≤ maxDepth, g.HitsTerminal entries i (n + 1) := by
  have hsome := dfsLoop_isSome (g.isActiveTerminal entries)
    (supersedesTargets_length g o) maxDepth (start_lt_loopFuel g (i, 0) fun e => e.1 ∉ [])
  obtain ⟨found, hfound⟩ := Option.isSome_iff_exists.mp hsome
  have hspec := dfsLoop_spec (walkUnique_of_build hids hg o i)
    ⟨(Frontier.initial _ i _).of_iff fun u => iff_of_false id List.not_mem_nil,
      fun v hv => absurd hv List.not_mem_nil⟩ hfound
  rw [leads_eq] at hspec
  unfold dfsActiveReachable
  rw [hfound]
  exact hspec

theorem bfsChainDepth_spec (hids : (entries.map EntryRecord.id).Nodup)
    (hg : buildTypedRelationGraph entries rows = .ok g) (o : EdgeOrder) (i maxDepth : Nat) :
    (∀ d, bfsChainDepth i g o entries maxDepth = some d →
        1 ≤ d ∧ d ≤ maxDepth + 1 ∧ g.HitsTerminal entries i d ∧
          ∀ k, 1 ≤ k → g.HitsTerminal entries i k → d ≤ k) ∧
      (bfsChainDepth i g o entries maxDepth = none →
        ∀ k, 1 ≤ k → k ≤ maxDepth + 1 → ¬ g.HitsTerminal entries i k) := by
  have hsome := bfsLoop_isSome (g.isActiveTerminal entries)
    (supersedesTargets_mem g o) maxDepth (start_lt_loopFuel g (i, 0) fun e => e.2 ∉ [i])
  obtain ⟨found, hfound⟩ := Option.isSome_iff_exists.mp hsome
  have hinv : BfsInv (g.supersedesTargets o) (g.isActiveTerminal entries) i maxDepth [(i, 0)] [i]
      fun _ => False := by
    refine ⟨Frontier.initial _ i _, fun v => ?_, fun v hv hne => ?_, List.pairwise_singleton _ _, ?_⟩
    · simp
    · exact absurd (List.mem_singleton.mp hv) hne
    · intro p hp q hq
      rw [List.mem_singleton.mp hp, List.mem_singleton.mp hq]
      exact Nat.le_succ _
  have hspec := bfsLoop_spec (supersedesTargets_mem g o) (walkUnique_of_build hids hg o i) hinv hfound
  rw [leads_eq] at hspec
  unfold bfsChainDepth
  rw [hfound]
  exact hspec

/-- The search starts with the node itself. -/
theorem findTerminalActive_self (hg : buildTypedRelationGraph entries rows = .ok g) (o : EdgeOrder)
    {n i : Nat} (hn : g.nodeIndexFor n = some i) (ht : g.isActiveTerminal entries i = true) :
    findTerminalActive n g o entries = some n := by
  unfold findTerminalActive loopFuel
  rw [hn]
  unfold findLoop idAt
  simp only [ht, if_true, Option.getD_some, Option.map_some, indexed_of_build hg n i hn]

theorem findTerminalActive_spec (hids : (entries.map EntryRecord.id).Nodup)
    (hg : buildTypedRelationGraph entries rows = .ok g) (o : EdgeOrder) {n i : Nat}
    (hn : g.nodeIndexFor n = some i) :
    (∀ t, findTerminalActive n g o entries = some t → ∃ j, g.idAt j = t ∧
        g.isActiveTerminal entries j = true ∧ ∃ k ≤ maxTraversalDepth, Walk g.SupersedesEdge i k j) ∧
      (findTerminalActive n g o entries = none →
        ∀ k ≤ maxTraversalDepth, ¬ g.HitsTerminal entries i k) := by
  have hsome := findLoop_isSome (g.isActiveTerminal entries)
    (supersedesTargets_mem g o) (start_lt_loopFuel g (i, 0) fun e => e.2 ∉ [i])
  obtain ⟨found, hfound⟩ := Option.isSome_iff_exists.mp hsome
  have hinv : FindInv (g.supersedesTargets o) (g.isActiveTerminal entries) i [(i, 0)] [i]
      fun _ => False := by
    refine ⟨Frontier.initial _ i _, fun v => ?_, fun v hv => hv.elim, fun p hp => ?_⟩
    · simp
    · rw [List.mem_singleton.mp hp]
      exact Nat.zero_le _
  obtain ⟨hfind, hmiss⟩ :=
    findLoop_spec (supersedesTargets_mem g o) (walkUnique_of_build hids hg o i) hinv hfound
  rw [leads_eq] at hfind hmiss
  unfold findTerminalActive
  rw [hn]
  simp only [hfound, Option.getD_some, Option.map_eq_some_iff, Option.map_eq_none_iff]
  refine ⟨?_, hmiss⟩
  rintro t ⟨j, hj, rfl⟩
  exact ⟨j, rfl, hfind j hj⟩

/-- The end of a walk along supersessions is a node with an index of its own. -/
theorem nodeIndexFor_of_walk (hg : buildTypedRelationGraph entries rows = .ok g) {i j k : Nat}
    (hw : Walk g.SupersedesEdge i (k + 1) j) : g.nodeIndexFor (g.idAt j) = some j := by
  obtain ⟨v, -, he⟩ := walk_succ_iff.mp hw
  obtain ⟨e, -, hj, -⟩ := origin_of_supersedesEdge hg he
  have hid : g.idAt j = e.id := by
    unfold idAt
    rw [indexed_of_build hg _ _ hj]
    rfl
  rw [hid, hj]

/-- **The search for a terminal leaves the node exactly when the node is not terminal itself and a terminal
is at most 10 supersessions away.** -/
theorem findTerminalActive_other_iff (hids : (entries.map EntryRecord.id).Nodup)
    (hg : buildTypedRelationGraph entries rows = .ok g) (o : EdgeOrder) {n i : Nat}
    (hn : g.nodeIndexFor n = some i) :
    (∃ t, findTerminalActive n g o entries = some t ∧ t ≠ n) ↔
      g.isActiveTerminal entries i = false ∧
        ∃ k, 1 ≤ k ∧ k ≤ maxTraversalDepth ∧ g.HitsTerminal entries i k := by
  obtain ⟨hfind, hmiss⟩ := findTerminalActive_spec hids hg o hn
  constructor
  · rintro ⟨t, ht, hne⟩
    have hstart : g.isActiveTerminal entries i = false := by
      by_contra hterm
      rw [Bool.not_eq_false] at hterm
      rw [findTerminalActive_self hg o hn hterm] at ht
      exact hne (Option.some.inj ht).symm
    obtain ⟨j, -, hterm, k, hk, hw⟩ := hfind t ht
    refine ⟨hstart, k, ?_, hk, j, hw, hterm⟩
    by_contra hzero
    obtain rfl : k = 0 := by omega
    rw [walk_zero_iff.mp hw, hstart] at hterm
    cases hterm
  · rintro ⟨hstart, k, -, hk, hhit⟩
    cases hres : findTerminalActive n g o entries with
    | none => exact absurd hhit (hmiss hres k hk)
    | some t =>
      refine ⟨t, rfl, ?_⟩
      rintro rfl
      obtain ⟨j, hid, hterm, m, -, hw⟩ := hfind t hres
      have hj : i = j := by
        cases m with
        | zero => exact (walk_zero_iff.mp hw).symm
        | succ m =>
          have hidx := nodeIndexFor_of_walk hg hw
          rw [hid, hn] at hidx
          exact Option.some.inj hidx
      rw [← hj, hstart] at hterm
      cases hterm

/-- **The three searches side by side.** -/
theorem traversals_agree (hids : (entries.map EntryRecord.id).Nodup)
    (hg : buildTypedRelationGraph entries rows = .ok g) (o : EdgeOrder) {n i : Nat}
    (hn : g.nodeIndexFor n = some i) (maxDepth : Nat) :
    (dfsActiveReachable i g o entries maxDepth = true ↔
        (bfsChainDepth i g o entries maxDepth).isSome = true) ∧
      ((∃ k, 1 ≤ k ∧ k ≤ maxDepth ∧ g.HitsTerminal entries i k) →
        dfsActiveReachable i g o entries maxDepth = true) ∧
      (dfsActiveReachable i g o entries maxDepth = true →
        ∃ k, 1 ≤ k ∧ k ≤ maxDepth + 1 ∧ g.HitsTerminal entries i k) ∧
      (∀ d, bfsChainDepth i g o entries maxDepth = some d →
        1 ≤ d ∧ g.HitsTerminal entries i d ∧ ∀ k, 1 ≤ k → g.HitsTerminal entries i k → d ≤ k) ∧
      ((∃ t, findTerminalActive n g o entries = some t ∧ t ≠ n) ↔
        g.isActiveTerminal entries i = false ∧
          ∃ k, 1 ≤ k ∧ k ≤ maxTraversalDepth ∧ g.HitsTerminal entries i k) := by
  have hdfs := dfsActiveReachable_iff hids hg o i maxDepth
  obtain ⟨hsome, hnone⟩ := bfsChainDepth_spec hids hg o i maxDepth
  refine ⟨?_, ?_, ?_, ?_, findTerminalActive_other_iff hids hg o hn⟩
  · rw [hdfs]
    constructor
    · rintro ⟨k, hk, hhit⟩
      by_contra hres
      rw [Bool.not_eq_true, Option.isSome_eq_false_iff, Option.isNone_iff_eq_none] at hres
      exact hnone hres (k + 1) (Nat.le_add_left 1 k) (Nat.succ_le_succ hk) hhit
    · intro hres
      obtain ⟨d, hd⟩ := Option.isSome_iff_exists.mp hres
      obtain ⟨hone, hle, hhit, -⟩ := hsome d hd
      obtain ⟨k, rfl⟩ := Nat.exists_eq_add_of_le' hone
      exact ⟨k, Nat.le_of_succ_le_succ hle, hhit⟩
  · rintro ⟨k, hone, hk, hhit⟩
    obtain ⟨m, rfl⟩ := Nat.exists_eq_add_of_le' hone
    exact hdfs.mpr ⟨m, Nat.le_of_succ_le hk, hhit⟩
  · intro hres
    obtain ⟨k, hk, hhit⟩ := hdfs.mp hres
    exact ⟨k + 1, Nat.le_add_left 1 k, Nat.succ_le_succ hk, hhit⟩
  · intro d hd
    obtain ⟨hone, -, hhit, hmin⟩ := hsome d hd
    exact ⟨hone, hhit, hmin⟩

/-- A version of an entry: its links and its status, and nothing else. -/
def version (id : Nat) (status : Status) (supersedes supersededBy : Option Nat) : EntryRecord where
  id
  title := ""
  content := ""
  topic := ""
  category := ""
  tags := []
  source := ""
  status
  confidence := 0
  createdAt := 0
  updatedAt := 0
  lastAccessedAt := 0
  accessCount := 0
  supersedes
  supersededBy
  correctionCount := 0
  embeddingDim := 0
  createdBy := ""
  modifiedBy := ""
  contentHash := ""
  previousHash := ""
  version := 1
  featureCycle := ""
  trustSource := ""
  helpfulCount := 0
  unhelpfulCount := 0
  preQuarantineStatus := none

/-- Entry 3 supersedes entry 2, which supersedes entry 1. -/
def corrections : List EntryRecord :=
  [version 1 .deprecated none (some 2), version 2 .deprecated (some 1) (some 3),
    version 3 .active (some 2) none]

/-- Entry 2 names entry 1, which does not name it back. -/
def halfLinked : List EntryRecord := [version 1 .active none none, version 2 .active (some 1) none]

theorem traversals_agree_corrections :
    (dfsActiveReachable 0 (assemble corrections []) .stored corrections 2 = true ↔
        (bfsChainDepth 0 (assemble corrections []) .stored corrections 2).isSome = true) ∧
      ((∃ k, 1 ≤ k ∧ k ≤ 2 ∧ (assemble corrections []).HitsTerminal corrections 0 k) →
        dfsActiveReachable 0 (assemble corrections []) .stored corrections 2 = true) ∧
      (dfsActiveReachable 0 (assemble corrections []) .stored corrections 2 = true →
        ∃ k, 1 ≤ k ∧ k ≤ 2 + 1 ∧ (assemble corrections []).HitsTerminal corrections 0 k) ∧
      (∀ d, bfsChainDepth 0 (assemble corrections []) .stored corrections 2 = some d →
        1 ≤ d ∧ (assemble corrections []).HitsTerminal corrections 0 d ∧
          ∀ k, 1 ≤ k → (assemble corrections []).HitsTerminal corrections 0 k → d ≤ k) ∧
      ((∃ t, findTerminalActive 1 (assemble corrections []) .stored corrections = some t ∧ t ≠ 1) ↔
        (assemble corrections []).isActiveTerminal corrections 0 = false ∧
          ∃ k, 1 ≤ k ∧ k ≤ maxTraversalDepth ∧
            (assemble corrections []).HitsTerminal corrections 0 k) :=
  traversals_agree (by decide : (corrections.map EntryRecord.id).Nodup)
    (rfl : buildTypedRelationGraph corrections [] = .ok (assemble corrections [])) .stored rfl 2

/-- With cap 1 the depth-first search finds entry 3 two edges from entry 1. A terminal entry is its own
terminal, though a successor of it is one too. -/
theorem traversals_differ :
    (¬ ∀ (entries : List EntryRecord) (rows : List GraphEdgeRow) (g : TypedRelationGraph)
        (o : EdgeOrder) (n i maxDepth : Nat), (entries.map EntryRecord.id).Nodup →
        buildTypedRelationGraph entries rows = .ok g → g.nodeIndexFor n = some i →
        (dfsActiveReachable i g o entries maxDepth = true ↔
          ∃ k, 1 ≤ k ∧ k ≤ maxDepth ∧ g.HitsTerminal entries i k)) ∧
      ¬ ∀ (entries : List EntryRecord) (rows : List GraphEdgeRow) (g : TypedRelationGraph)
        (o : EdgeOrder) (n i : Nat), (entries.map EntryRecord.id).Nodup →
        buildTypedRelationGraph entries rows = .ok g → g.nodeIndexFor n = some i →
        (dfsActiveReachable i g o entries maxTraversalDepth = true ↔
          ∃ t, findTerminalActive n g o entries = some t ∧ t ≠ n) := by
  constructor
  · intro hclaim
    have hreach : dfsActiveReachable 0 (assemble corrections []) .stored corrections 1 = true := by
      decide +kernel
    obtain ⟨k, hone, hk, j, hw, ht⟩ :=
      (hclaim corrections [] (assemble corrections []) .stored 1 0 1 (by decide) rfl rfl).mp hreach
    obtain rfl : k = 1 := by omega
    have he : (assemble corrections []).SupersedesEdge 0 j := walk_one_iff.mp hw
    rw [← leads_eq _ .stored] at he
    have htargets : (assemble corrections []).supersedesTargets .stored 0 = [1] := by decide +kernel
    unfold Leads at he
    rw [htargets, List.mem_singleton] at he
    rw [he] at ht
    exact absurd ht (by decide +kernel)
  · intro hclaim
    have hreach : dfsActiveReachable 0 (assemble halfLinked []) .stored halfLinked
        maxTraversalDepth = true := by decide +kernel
    obtain ⟨t, ht, hne⟩ :=
      (hclaim halfLinked [] (assemble halfLinked []) .stored 1 0 (by decide) rfl rfl).mp hreach
    have hself : findTerminalActive 1 (assemble halfLinked []) .stored halfLinked = some 1 := by
      decide +kernel
    rw [hself] at ht
    exact hne (Option.some.inj ht).symm

end Built
end Unimatrix
