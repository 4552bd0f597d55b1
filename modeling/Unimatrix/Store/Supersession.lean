import Unimatrix.Lib.Digraph
import Unimatrix.Store.Schema

/-!
# Walking the supersession links

Model of `query_supersession_chain` and `query_current_terminal` of `graph_queries.rs`, and of
`follow_to_current` of `graph_read_neighbors.rs`.

* A read is what the statement returns on the tables as they are; the pool's own failures are outside.
* A recursive CTE queues rows and applies its step to each: after `n` rounds the rows are those of
  `Digraph.level`, and its depth predicate stops the rounds. Rows an `ORDER BY` leaves equal come in any
  order (`HashMap.IterOrder`).

`LinkEdge` is the relation a link column draws. **`mem_chainRows`** gives the rows of a recursion as walks
along it, and **`detectCap_chainRows`** says that the cut of a chain is never seen.
-/

namespace Unimatrix

open Digraph

/-! ## The chain query -/

/-- `ChainDirection`. -/
inductive ChainDirection where
  | forward
  | backward
  | both
  deriving DecidableEq, Repr

/-- The direction walks toward newer entries. -/
def ChainDirection.walksForward (direction : ChainDirection) : Bool := direction ≠ .backward

/-- The direction walks toward older entries. -/
def ChainDirection.walksBackward (direction : ChainDirection) : Bool := direction ≠ .forward

/-- `ChainQueryResult`. -/
structure ChainQueryResult where
  entries : List EntryRecord
  forwardCapped : Bool
  backwardCapped : Bool

namespace Store

/-- `SELECT id FROM entries WHERE id = ?1`: where both recursions start. -/
def seedRow (s : Store) (id : Nat) : List Nat := if (s.entries.lookup id).isSome then [id] else []

/-- `JOIN chain c ON e.<link> = c.id`. -/
def linkedTo (s : Store) (link : EntryRow → Option Nat) (id : Nat) : List Nat :=
  (s.entries.pairs.filter fun e => link e.2 = some id).map Prod.fst

/-- `FROM entries e JOIN chain c ON e.id = c.id`, for the rows of one depth. -/
def joinEntries (s : Store) (o : HashMap.IterOrder Nat EntryRow) (ids : List Nat) :
    List EntryRecord :=
  (o.arrange (ids.filterMap fun id => (s.entries.lookup id).map fun row => (id, row))).map fun e =>
    entryFromRow e.1 e.2 (s.tagsOf e.1)

/-- The rows of the recursion, `ORDER BY c.depth ASC`, with their tags. -/
def chainRows (s : Store) (link : EntryRow → Option Nat) (o : HashMap.IterOrder Nat EntryRow)
    (id depthCap : Nat) : List (EntryRecord × Nat) :=
  (List.range (depthCap + 1)).flatMap fun depth =>
    (s.joinEntries o (level (s.linkedTo link) (s.seedRow id) depth)).map fun e => (e, depth)

/-- `SELECT COUNT(*) FROM entries WHERE <link> IN (..)`, compared with 0. -/
def hasLinked (s : Store) (link : EntryRow → Option Nat) (ids : List Nat) : Bool :=
  s.entries.pairs.any fun e => (link e.2).any fun id => ids.contains id

/-- `max_depth`. -/
def maxDepth (rows : List (EntryRecord × Nat)) : Int :=
  rows.foldl (fun m r => max m (r.2 : Int)) (-1)

/-- Whether a chain was cut: its deepest rows are one short of the cap, and something links to one. -/
def detectCap (s : Store) (link : EntryRow → Option Nat) (depthCap : Nat)
    (rows : List (EntryRecord × Nat)) : Bool :=
  if maxDepth rows = (depthCap : Int) - 1 ∧ rows ≠ [] then
    s.hasLinked link ((rows.filter fun r => (r.2 : Int) = maxDepth rows).map fun r => r.1.id)
  else false

/-- One direction of the query. -/
def runCte (s : Store) (link : EntryRow → Option Nat) (o : HashMap.IterOrder Nat EntryRow)
    (id depthCap : Nat) : List (EntryRecord × Nat) × Bool :=
  let rows := s.chainRows link o id depthCap
  (rows, s.detectCap link depthCap rows)

/-- `run_forward_cte`. -/
def runForwardCte (s : Store) : HashMap.IterOrder Nat EntryRow → Nat → Nat →
    List (EntryRecord × Nat) × Bool := s.runCte EntryRow.supersedes

/-- `run_backward_cte`. -/
def runBackwardCte (s : Store) : HashMap.IterOrder Nat EntryRow → Nat → Nat →
    List (EntryRecord × Nat) × Bool := s.runCte EntryRow.supersededBy

/-- One pass of a loop of `merge_chain_results`: an entry whose id was seen is dropped. -/
def mergeRow (acc : List EntryRecord × List Nat) (r : EntryRecord × Nat) :
    List EntryRecord × List Nat :=
  if acc.2.contains r.1.id then acc else (acc.1 ++ [r.1], r.1.id :: acc.2)

/-- `merge_chain_results`. -/
def mergeChainResults (backward forward : List (EntryRecord × Nat)) : List EntryRecord :=
  (forward.foldl mergeRow (backward.reverse.foldl mergeRow ([], []))).1

/-- `query_supersession_chain`. -/
def querySupersessionChain (s : Store) (oForward oBackward : HashMap.IterOrder Nat EntryRow)
    (id : Nat) (direction : ChainDirection) (depthCap : Nat) : ChainQueryResult :=
  match direction with
  | .forward =>
    let (entries, capped) := s.runForwardCte oForward id depthCap
    ⟨mergeChainResults [] entries, capped, false⟩
  | .backward =>
    let (entries, capped) := s.runBackwardCte oBackward id depthCap
    ⟨mergeChainResults entries [], false, capped⟩
  | .both =>
    let (fwdEntries, fwdCapped) := s.runForwardCte oForward id depthCap
    let (bwdEntries, bwdCapped) := s.runBackwardCte oBackward id depthCap
    ⟨mergeChainResults bwdEntries fwdEntries, fwdCapped, bwdCapped⟩

/-! ## The current terminal -/

/-- The `superseded_by` of an entry, as the recursion of `query_current_terminal` follows it. -/
def successor (s : Store) (id : Nat) : Option Nat := (s.entries.lookup id).bind EntryRow.supersededBy

/-- `superseded_by IS NULL AND status = 0`. -/
def isCurrent (e : EntryRecord) : Bool := e.supersededBy.isNone && e.status == .active

/-- `query_current_terminal`: the first row of the join that is a current terminal. -/
def queryCurrentTerminal (s : Store) (o : HashMap.IterOrder Nat EntryRow) (id : Nat) :
    Option EntryRecord :=
  (s.joinEntries o ((List.range (50 + 1)).flatMap
    (level (fun i => (s.successor i).toList) (s.seedRow id)))).find? isCurrent

/-- The loop of `follow_to_current`, with the passes it has left. -/
def followLoop (s : Store) : Nat → Nat → Option Nat
  | 0, _ => none
  | n + 1, current =>
    match s.find current with
    | none => none
    | some entry =>
      match entry.supersededBy with
      | none => if entry.status = .active then some current else none
      | some nextId => s.followLoop n nextId

/-- `follow_to_current`. -/
def followToCurrent (s : Store) (id : Nat) : Option Nat := s.followLoop 50 id

/-! ## The rows of a recursion -/

/-- Along a link column: the row of `b` names `a`. -/
def LinkEdge (s : Store) (link : EntryRow → Option Nat) (a b : Nat) : Prop :=
  ∃ row, s.entries.lookup b = some row ∧ link row = some a

theorem mem_linkedTo {s : Store} {link : EntryRow → Option Nat} {a b : Nat} :
    b ∈ s.linkedTo link a ↔ s.LinkEdge link a b := by
  unfold linkedTo LinkEdge
  rw [List.mem_map]
  constructor
  · rintro ⟨⟨b', row⟩, hmem, rfl⟩
    rw [List.mem_filter, decide_eq_true_eq] at hmem
    exact ⟨row, HashMap.mem_pairs.mp hmem.1, hmem.2⟩
  · rintro ⟨row, hl, hlink⟩
    refine ⟨(b, row), ?_, rfl⟩
    rw [List.mem_filter, decide_eq_true_eq]
    exact ⟨HashMap.mem_pairs.mpr hl, hlink⟩

theorem mem_seedRow {s : Store} {id v : Nat} :
    v ∈ s.seedRow id ↔ v = id ∧ (s.entries.lookup id).isSome = true := by
  unfold seedRow
  split
  · rename_i h
    rw [List.mem_singleton]
    exact ⟨fun hv => ⟨hv, h⟩, And.left⟩
  · rename_i h
    exact ⟨fun hv => absurd hv List.not_mem_nil, fun hv => absurd hv.2 h⟩

theorem mem_joinEntries {s : Store} {o : HashMap.IterOrder Nat EntryRow} {ids : List Nat}
    {e : EntryRecord} : e ∈ s.joinEntries o ids ↔ e.id ∈ ids ∧ s.find e.id = some e := by
  unfold joinEntries find
  rw [List.mem_map]
  constructor
  · rintro ⟨⟨id, row⟩, hmem, rfl⟩
    obtain ⟨id', hid, hrow⟩ := List.mem_filterMap.mp ((o.perm _).mem_iff.mp hmem)
    obtain ⟨row', hl, heq⟩ := Option.map_eq_some_iff.mp hrow
    cases heq
    exact ⟨hid, Option.map_eq_some_iff.mpr ⟨row, hl, rfl⟩⟩
  · rintro ⟨hid, hfind⟩
    obtain ⟨row, hl, he⟩ := Option.map_eq_some_iff.mp hfind
    refine ⟨(e.id, row), (o.perm _).mem_iff.mpr (List.mem_filterMap.mpr ⟨e.id, hid, ?_⟩), he⟩
    rw [hl]
    rfl

/-- **The rows of a chain query**: what a walk of at most `depthCap` links from a stored seed reaches. -/
theorem mem_chainRows {s : Store} {link : EntryRow → Option Nat}
    {o : HashMap.IterOrder Nat EntryRow} {id depthCap n : Nat} {e : EntryRecord} :
    (e, n) ∈ s.chainRows link o id depthCap ↔
      n ≤ depthCap ∧ (s.entries.lookup id).isSome = true ∧ Walk (s.LinkEdge link) id n e.id ∧
        s.find e.id = some e := by
  unfold chainRows
  rw [List.mem_flatMap]
  have hlevel : ∀ n, e.id ∈ level (s.linkedTo link) (s.seedRow id) n ↔
      id ∈ s.seedRow id ∧ Walk (s.LinkEdge link) id n e.id := fun n =>
    mem_level (fun _ hv => (mem_seedRow.mp hv).1) (fun _ _ => mem_linkedTo) n
  constructor
  · rintro ⟨k, hk, hmem⟩
    obtain ⟨e', he', heq⟩ := List.mem_map.mp hmem
    cases heq
    obtain ⟨hid, hfind⟩ := mem_joinEntries.mp he'
    obtain ⟨hseed, hw⟩ := (hlevel n).mp hid
    exact ⟨Nat.lt_succ_iff.mp (List.mem_range.mp hk), (mem_seedRow.mp hseed).2, hw, hfind⟩
  · rintro ⟨hn, hseed, hw, hfind⟩
    refine ⟨n, List.mem_range.mpr (Nat.lt_succ_of_le hn), List.mem_map.mpr ⟨e, ?_, rfl⟩⟩
    exact mem_joinEntries.mpr ⟨(hlevel n).mpr ⟨mem_seedRow.mpr ⟨rfl, hseed⟩, hw⟩, hfind⟩

theorem chainRows_sorted (s : Store) (link : EntryRow → Option Nat)
    (o : HashMap.IterOrder Nat EntryRow) (id depthCap : Nat) :
    (s.chainRows link o id depthCap).Pairwise fun x y => x.2 ≤ y.2 := by
  unfold chainRows
  rw [List.pairwise_flatMap]
  constructor
  · intro depth _
    rw [List.pairwise_map]
    exact List.pairwise_of_forall fun _ _ => Nat.le_refl _
  · refine List.pairwise_lt_range.imp ?_
    intro m n hmn x hx y hy
    obtain ⟨_, _, rfl⟩ := List.mem_map.mp hx
    obtain ⟨_, _, rfl⟩ := List.mem_map.mp hy
    exact hmn.le

/-! ## The cut that is never seen -/

theorem le_maxDepth {rows : List (EntryRecord × Nat)} {r : EntryRecord × Nat} (h : r ∈ rows) :
    (r.2 : Int) ≤ maxDepth rows := by
  induction rows using List.reverseRecOn with
  | nil => exact absurd h List.not_mem_nil
  | append_singleton rows r' ih =>
    have hmax : maxDepth (rows ++ [r']) = max (maxDepth rows) (r'.2 : Int) := by
      unfold maxDepth
      rw [List.foldl_append]
      rfl
    rw [hmax]
    rcases List.mem_append.mp h with h | h
    · exact le_trans (ih h) (le_max_left _ _)
    · rw [List.mem_singleton.mp h]
      exact le_max_right _ _

theorem hasLinked_eq_true {s : Store} {link : EntryRow → Option Nat} {ids : List Nat} :
    s.hasLinked link ids = true ↔ ∃ a ∈ ids, ∃ b, s.LinkEdge link a b := by
  unfold hasLinked LinkEdge
  rw [List.any_eq_true]
  constructor
  · rintro ⟨⟨b, row⟩, hmem, hany⟩
    cases hlink : link row with
    | none =>
      rw [hlink] at hany
      cases hany
    | some a =>
      rw [hlink] at hany
      exact ⟨a, List.contains_iff_mem.mp hany, b, row, HashMap.mem_pairs.mp hmem, hlink⟩
  · rintro ⟨a, ha, b, row, hl, hlink⟩
    refine ⟨(b, row), HashMap.mem_pairs.mpr hl, ?_⟩
    rw [hlink]
    exact List.contains_iff_mem.mpr ha

/-- **A chain query never reports a cut.** The recursion goes to depth `depthCap`, so a row at depth
`depthCap - 1` that something links to is not among the deepest. -/
theorem detectCap_chainRows (s : Store) (link : EntryRow → Option Nat)
    (o : HashMap.IterOrder Nat EntryRow) (id depthCap : Nat) :
    s.detectCap link depthCap (s.chainRows link o id depthCap) = false := by
  unfold detectCap
  split
  · rename_i h
    rw [← Bool.not_eq_true, hasLinked_eq_true]
    rintro ⟨a, ha, b, row, hl, hlink⟩
    obtain ⟨⟨e, n⟩, hr, rfl⟩ := List.mem_map.mp ha
    rw [List.mem_filter, decide_eq_true_eq] at hr
    obtain ⟨hmem, hn⟩ := hr
    obtain ⟨-, hseed, hw, -⟩ := mem_chainRows.mp hmem
    have hdeeper : (entryFromRow b row (s.tagsOf b), n + 1) ∈ s.chainRows link o id depthCap := by
      refine mem_chainRows.mpr ⟨?_, hseed, hw.snoc ⟨row, hl, hlink⟩, ?_⟩
      · have := h.1
        dsimp only at hn
        omega
      · exact Option.map_eq_some_iff.mpr ⟨row, hl, rfl⟩
    have hle := le_maxDepth hdeeper
    dsimp only at hn hle
    omega
  · rfl

end Store
end Unimatrix
