import Unimatrix.Graph.Build

/-!
# Suppressing contradictions

Model of `suppress_contradicts` of `graph_suppression.rs`.

* **`suppressContradicts_of_no_edge`**: where nothing contradicts, nothing is suppressed.
* **`suppressContradicts_spec`**: a position is suppressed by the first one before it that it clashes with,
  suppressed itself or not; what is kept does not clash.
-/

namespace Unimatrix

open TypedRelationGraph

/-- The `contradicts_neighbors` of a node. -/
def contradictsNeighbors (graph : TypedRelationGraph) (o : EdgeOrder) (nodeIdx : Nat) : List Nat :=
  ((graph.edgesOfType o nodeIdx .contradicts .outgoing).map fun e => graph.idAt e.1.2) ++
    (graph.edgesOfType o nodeIdx .contradicts .incoming).map fun e => graph.idAt e.1.1

/-- The ids an entry contradicts. An entry without a node contradicts none. -/
def contradicts (graph : TypedRelationGraph) (o : EdgeOrder) (entryId : Nat) : List Nat :=
  match graph.nodeIndexFor entryId with
  | none => []
  | some nodeIdx => contradictsNeighbors graph o nodeIdx

/-- The inner loop, for the entry ranked `i`: those after it that are still kept and that it contradicts are
suppressed by it. -/
def suppressBy (graph : TypedRelationGraph) (o : EdgeOrder) (resultIds : List Nat)
    (contradictingIds : List (Option Nat)) (i : Nat) : List (Option Nat) :=
  match resultIds[i]? with
  | none => contradictingIds
  | some entryId =>
    contradictingIds.mapIdx fun j contradicting =>
      if i < j ∧ contradicting.isNone ∧ resultIds[j]?.any (contradicts graph o entryId).contains then
        some entryId
      else contradicting

/-- `suppress_contradicts`: `keep_mask` and `contradicting_ids`. -/
def suppressContradicts (resultIds : List Nat) (graph : TypedRelationGraph) (o : EdgeOrder) :
    List Bool × List (Option Nat) :=
  let contradictingIds := (List.range resultIds.length).foldl (suppressBy graph o resultIds)
    (List.replicate resultIds.length none)
  (contradictingIds.map Option.isNone, contradictingIds)

section

variable {graph : TypedRelationGraph} {o : EdgeOrder} {resultIds : List Nat}

theorem length_suppressBy (contradictingIds : List (Option Nat)) (i : Nat) :
    (suppressBy graph o resultIds contradictingIds i).length = contradictingIds.length := by
  unfold suppressBy
  split
  · rfl
  · exact List.length_mapIdx

theorem length_suppressContradicts :
    (suppressContradicts resultIds graph o).1.length = resultIds.length := by
  have hfold : ∀ (l : List Nat) (c : List (Option Nat)),
      (l.foldl (suppressBy graph o resultIds) c).length = c.length := by
    intro l
    induction l with
    | nil => exact fun _ => rfl
    | cons i l ih => exact fun c => (ih _).trans (length_suppressBy c i)
  unfold suppressContradicts
  rw [List.length_map, hfold, List.length_replicate]

/-- No edge says that an entry contradicts another. -/
def NoContradicts (graph : TypedRelationGraph) : Prop :=
  ∀ e ∈ graph.edges, e.2.relationType ≠ RelationType.contradicts.asStr

theorem contradicts_eq_nil (h : NoContradicts graph) (entryId : Nat) :
    contradicts graph o entryId = [] := by
  have hnone : ∀ idx dir, graph.edgesOfType o idx .contradicts dir = [] := by
    intro idx dir
    refine List.eq_nil_iff_forall_not_mem.mpr fun e he => ?_
    obtain ⟨hmem, -, htype⟩ := mem_edgesOfType.mp he
    exact h e hmem htype
  unfold contradicts
  split
  · rfl
  · unfold contradictsNeighbors
    rw [hnone, hnone]
    rfl

/-- **Where nothing contradicts, nothing is suppressed.** -/
theorem suppressContradicts_of_no_edge (h : NoContradicts graph) :
    (suppressContradicts resultIds graph o).1 = List.replicate resultIds.length true := by
  have hby : ∀ (kept : List (Option Nat)) (i : Nat), suppressBy graph o resultIds kept i = kept := by
    intro kept i
    unfold suppressBy
    split
    · rfl
    · rename_i entryId _
      have hany : ∀ id : Option Nat, id.any (contradicts graph o entryId).contains = false := by
        intro id
        rw [contradicts_eq_nil h]
        cases id <;> rfl
      refine List.ext_getElem? fun j => ?_
      rw [List.getElem?_mapIdx]
      cases kept[j]? <;> simp [hany]
  have hfold : ∀ (l : List Nat) (c : List (Option Nat)),
      l.foldl (suppressBy graph o resultIds) c = c := by
    intro l
    induction l with
    | nil => exact fun _ => rfl
    | cons i l ih =>
      intro c
      rw [List.foldl_cons, hby, ih]
  unfold suppressContradicts
  rw [hfold]
  exact List.map_replicate

end

/-! ## Who suppresses whom -/

/-- A `Contradicts` edge joins the two, in one direction or the other. -/
def Clash (graph : TypedRelationGraph) (a b : Nat) : Prop :=
  ∃ e ∈ graph.edgesById, e.2.relationType = RelationType.contradicts.asStr ∧ (e.1 = (a, b) ∨ e.1 = (b, a))

theorem Clash.symm {graph : TypedRelationGraph} {a b : Nat} (h : Clash graph a b) : Clash graph b a := by
  obtain ⟨e, he, htype, hends⟩ := h
  exact ⟨e, he, htype, hends.symm⟩

/-- An end of a clash is a node. -/
theorem Clash.mem_nodes {graph : TypedRelationGraph} (hg : graph.Keyed) {a b : Nat}
    (h : Clash graph a b) : a ∈ graph.nodes := by
  obtain ⟨e, he, -, hends⟩ := h
  obtain ⟨⟨⟨i, j⟩, w⟩, hmem, rfl⟩ := List.mem_map.mp he
  obtain ⟨hi, hj⟩ := hg.ends _ hmem
  rw [hg.mem_nodes_iff]
  rcases hends with hends | hends
  · obtain ⟨rfl, -⟩ := Prod.mk.inj hends
    exact ⟨i, hg.nodeIndexFor_idAt hi⟩
  · obtain ⟨-, rfl⟩ := Prod.mk.inj hends
    exact ⟨j, hg.nodeIndexFor_idAt hj⟩

theorem mem_contradicts {graph : TypedRelationGraph} {o : EdgeOrder} (hg : graph.Keyed) {a b : Nat} :
    b ∈ contradicts graph o a ↔ Clash graph a b := by
  constructor
  · intro hb
    unfold contradicts at hb
    split at hb
    · cases hb
    · rename_i i hi
      unfold contradictsNeighbors at hb
      rw [List.mem_append, List.mem_map, List.mem_map] at hb
      rcases hb with ⟨e, he, rfl⟩ | ⟨e, he, rfl⟩
      · obtain ⟨hmem, htouch, htype⟩ := mem_edgesOfType.mp he
        have hend : e.1.1 = i := of_decide_eq_true htouch
        refine ⟨_, List.mem_map_of_mem hmem, htype, .inl ?_⟩
        rw [hend, hg.idAt hi]
      · obtain ⟨hmem, htouch, htype⟩ := mem_edgesOfType.mp he
        have hend : e.1.2 = i := of_decide_eq_true htouch
        refine ⟨_, List.mem_map_of_mem hmem, htype, .inr ?_⟩
        rw [hend, hg.idAt hi]
  · rintro ⟨e, he, htype, hends⟩
    obtain ⟨⟨⟨i, j⟩, w⟩, hmem, rfl⟩ := List.mem_map.mp he
    obtain ⟨hi, hj⟩ := hg.ends _ hmem
    unfold contradicts contradictsNeighbors
    rcases hends with hends | hends
    · obtain ⟨rfl, rfl⟩ := Prod.mk.inj hends
      rw [hg.nodeIndexFor_idAt hi]
      refine List.mem_append_left _ (List.mem_map.mpr ⟨((i, j), w), ?_, rfl⟩)
      exact mem_edgesOfType.mpr ⟨hmem, decide_eq_true rfl, htype⟩
    · obtain ⟨rfl, rfl⟩ := Prod.mk.inj hends
      rw [hg.nodeIndexFor_idAt hj]
      refine List.mem_append_right _ (List.mem_map.mpr ⟨((i, j), w), ?_, rfl⟩)
      exact mem_edgesOfType.mpr ⟨hmem, decide_eq_true rfl, htype⟩

section

variable {graph : TypedRelationGraph} {o : EdgeOrder} {resultIds : List Nat}

/-- The entry ranked `i` reaches the one ranked `j`. -/
def suppresses (graph : TypedRelationGraph) (o : EdgeOrder) (resultIds : List Nat) (j i : Nat) : Bool :=
  i < j && resultIds[i]?.any fun entryId => resultIds[j]?.any (contradicts graph o entryId).contains

/-- The first of the `k` highest ranked entries that suppresses the one ranked `j`. -/
def suppressor (graph : TypedRelationGraph) (o : EdgeOrder) (resultIds : List Nat) (k j : Nat) :
    Option Nat :=
  ((List.range k).find? (suppresses graph o resultIds j)).bind (resultIds[·]?)

/-- One turn of the outer loop, whether the entry is suppressed itself or not. -/
theorem suppressor_succ (k j : Nat) :
    suppressor graph o resultIds (k + 1) j =
      (suppressor graph o resultIds k j).or
        (if suppresses graph o resultIds j k then resultIds[k]? else none) := by
  unfold suppressor
  rw [List.range_succ, List.find?_append]
  cases hf : (List.range k).find? (suppresses graph o resultIds j) with
  | none =>
    rw [Option.none_or, List.find?_singleton, Option.bind_none, Option.none_or]
    split <;> rfl
  | some i =>
    have hi := List.find?_some hf
    unfold suppresses at hi
    rw [Bool.and_eq_true] at hi
    cases hr : resultIds[i]? with
    | none =>
      rw [hr] at hi
      cases hi.2
    | some entryId => simp [hr]

/-- The outer loop after `k` turns. -/
def suppressLoop (graph : TypedRelationGraph) (o : EdgeOrder) (resultIds : List Nat) (k : Nat) :
    List (Option Nat) :=
  (List.range k).foldl (suppressBy graph o resultIds) (List.replicate resultIds.length none)

theorem suppressLoop_succ (k : Nat) :
    suppressLoop graph o resultIds (k + 1) =
      suppressBy graph o resultIds (suppressLoop graph o resultIds k) k := by
  unfold suppressLoop
  rw [List.range_succ, List.foldl_append]
  rfl

theorem suppressLoop_getElem? (k j : Nat) (hj : j < resultIds.length) :
    (suppressLoop graph o resultIds k)[j]? = some (suppressor graph o resultIds k j) := by
  induction k with
  | zero =>
    unfold suppressLoop
    rw [List.range_zero, List.foldl_nil, List.getElem?_replicate_of_lt hj]
    rfl
  | succ k ih =>
    rw [suppressLoop_succ, suppressor_succ]
    unfold suppressBy
    cases hk : resultIds[k]? with
    | none =>
      dsimp only
      rw [ih, ite_self, Option.or_none]
    | some entryId =>
      dsimp only
      rw [List.getElem?_mapIdx, ih, Option.map_some]
      unfold suppresses
      rw [hk, Option.any_some]
      cases hs : suppressor graph o resultIds k j with
      | none => simp
      | some c => simp

theorem suppressContradicts_eq :
    suppressContradicts resultIds graph o =
      ((suppressLoop graph o resultIds resultIds.length).map Option.isNone,
        suppressLoop graph o resultIds resultIds.length) := rfl

/-- What is reported about position `j`. -/
theorem contradictingIds_getElem? {j : Nat} (hj : j < resultIds.length) :
    (suppressContradicts resultIds graph o).2[j]? =
      some (suppressor graph o resultIds resultIds.length j) := by
  rw [suppressContradicts_eq]
  exact suppressLoop_getElem? _ j hj

theorem keepMask_getElem? {j : Nat} (hj : j < resultIds.length) :
    (suppressContradicts resultIds graph o).1[j]? =
      some (suppressor graph o resultIds resultIds.length j).isNone := by
  rw [suppressContradicts_eq, List.getElem?_map, suppressLoop_getElem? _ j hj]
  rfl

/-- **Who is reported**: the highest ranked entry above it that it clashes with. -/
theorem suppressor_eq_some_iff (hg : graph.Keyed) {j b c : Nat} (hb : resultIds[j]? = some b) :
    suppressor graph o resultIds resultIds.length j = some c ↔
      ∃ i, i < j ∧ resultIds[i]? = some c ∧ Clash graph c b ∧
        ∀ i' < i, ∀ a, resultIds[i']? = some a → ¬ Clash graph a b := by
  have hlen : j < resultIds.length := (List.getElem?_eq_some_iff.mp hb).1
  have hsup : ∀ i a, resultIds[i]? = some a →
      (suppresses graph o resultIds j i = true ↔ i < j ∧ Clash graph a b) := by
    intro i a ha
    unfold suppresses
    rw [hb, ha, Option.any_some, Option.any_some, Bool.and_eq_true, decide_eq_true_eq,
      List.contains_iff_mem, mem_contradicts hg]
  unfold suppressor
  rw [Option.bind_eq_some_iff]
  constructor
  · rintro ⟨i, hfind, hc⟩
    rw [List.find?_range_eq_some] at hfind
    obtain ⟨hi, -, hbefore⟩ := hfind
    obtain ⟨hij, hclash⟩ := (hsup i c hc).mp hi
    refine ⟨i, hij, hc, hclash, fun i' hi' a ha hclash' => ?_⟩
    have hnot := hbefore i' hi'
    rw [(hsup i' a ha).mpr ⟨by omega, hclash'⟩] at hnot
    cases hnot
  · rintro ⟨i, hij, hc, hclash, hbefore⟩
    refine ⟨i, ?_, hc⟩
    rw [List.find?_range_eq_some]
    refine ⟨(hsup i c hc).mpr ⟨hij, hclash⟩, List.mem_range.mpr (by omega), fun i' hi' => ?_⟩
    have ha := List.getElem?_eq_getElem (show i' < resultIds.length by omega)
    rw [Bool.not_eq_true', ← Bool.not_eq_true, hsup i' _ ha]
    exact fun h => hbefore i' hi' _ ha h.2

/-- Something above it clashes with it, or nothing suppresses it. -/
theorem suppressor_eq_none_iff (hg : graph.Keyed) {j b : Nat} (hb : resultIds[j]? = some b) :
    suppressor graph o resultIds resultIds.length j = none ↔
      ∀ i a, i < j → resultIds[i]? = some a → ¬ Clash graph a b := by
  constructor
  · intro hnone i a hij ha hclash
    -- the first of those that clash is the one that is reported
    have hex : ∃ i, ∃ a, resultIds[i]? = some a ∧ Clash graph a b := ⟨i, a, ha, hclash⟩
    classical
    obtain ⟨a', ha', hclash'⟩ := Nat.find_spec hex
    have hle : Nat.find hex ≤ i := Nat.find_min' hex ⟨a, ha, hclash⟩
    have hsome := (suppressor_eq_some_iff (o := o) hg hb).mpr
      ⟨Nat.find hex, by omega, ha', hclash', fun i' hi' a ha h => Nat.find_min hex hi' ⟨a, ha, h⟩⟩
    rw [hnone] at hsome
    cases hsome
  · intro h
    cases hs : suppressor graph o resultIds resultIds.length j with
    | none => rfl
    | some c =>
      obtain ⟨i, hij, hc, hclash, -⟩ := (suppressor_eq_some_iff hg hb).mp hs
      exact absurd hclash (h i c hij hc)

theorem length_contradictingIds :
    (suppressContradicts resultIds graph o).2.length = resultIds.length := by
  have hkept : (suppressContradicts resultIds graph o).1.length = resultIds.length :=
    length_suppressContradicts
  rw [suppressContradicts_eq, List.length_map] at hkept
  rw [suppressContradicts_eq]
  exact hkept

end

/-- **`suppress_contradicts`, position by position.** -/
theorem suppressContradicts_spec (g : KeyedGraph) (o : EdgeOrder) (resultIds : List Nat) :
    (suppressContradicts resultIds g.graph o).1.length = resultIds.length ∧
    (suppressContradicts resultIds g.graph o).2.length = resultIds.length ∧
    (∀ i j a b : Nat, i ≠ j → resultIds[i]? = some a → resultIds[j]? = some b →
      (suppressContradicts resultIds g.graph o).1[i]? = some true →
      (suppressContradicts resultIds g.graph o).1[j]? = some true → ¬ Clash g.graph a b) ∧
    (∀ keep, (suppressContradicts resultIds g.graph o).1[0]? = some keep → keep = true) ∧
    (∀ j b : Nat, resultIds[j]? = some b →
      ((suppressContradicts resultIds g.graph o).1[j]? = some false ↔
        ∃ i a : Nat, i < j ∧ resultIds[i]? = some a ∧ Clash g.graph a b)) ∧
    (∀ j b c : Nat, resultIds[j]? = some b →
      ((suppressContradicts resultIds g.graph o).2[j]? = some (some c) ↔
        ∃ i : Nat, i < j ∧ resultIds[i]? = some c ∧ Clash g.graph c b ∧
          ∀ i' < i, ∀ a, resultIds[i']? = some a → ¬ Clash g.graph a b)) ∧
    (∀ j b : Nat, resultIds[j]? = some b → b ∉ g.graph.nodes →
      (suppressContradicts resultIds g.graph o).1[j]? = some true) := by
  have hkept : ∀ j b : Nat, resultIds[j]? = some b →
      ((suppressContradicts resultIds g.graph o).1[j]? = some true ↔
        ∀ i a : Nat, i < j → resultIds[i]? = some a → ¬ Clash g.graph a b) := by
    intro j b hb
    rw [keepMask_getElem? (List.getElem?_eq_some_iff.mp hb).1, Option.some.injEq, Option.isNone_iff_eq_none,
      suppressor_eq_none_iff g.keyed hb]
  refine ⟨length_suppressContradicts, length_contradictingIds, ?_, ?_, ?_, ?_, ?_⟩
  · intro i j a b hne ha hb hi hj hclash
    rcases Nat.lt_or_gt_of_ne hne with hlt | hgt
    · exact (hkept j b hb).mp hj i a hlt ha hclash
    · exact (hkept i a ha).mp hi j b hgt hb hclash.symm
  · intro keep hkeep
    have hlt := (List.getElem?_eq_some_iff.mp hkeep).1
    rw [length_suppressContradicts] at hlt
    have htrue := (hkept 0 _ (List.getElem?_eq_getElem hlt)).mpr fun _ _ hi => absurd hi (Nat.not_lt_zero _)
    rw [hkeep] at htrue
    exact Option.some.inj htrue
  · intro j b hb
    have hiff := hkept j b hb
    rw [keepMask_getElem? (List.getElem?_eq_some_iff.mp hb).1, Option.some.injEq] at hiff ⊢
    rw [← Bool.not_eq_true, hiff]
    push Not
    rfl
  · intro j b c hb
    rw [contradictingIds_getElem? (List.getElem?_eq_some_iff.mp hb).1, Option.some.injEq]
    exact suppressor_eq_some_iff g.keyed hb
  · intro j b hb hnot
    exact (hkept j b hb).mpr fun i a _ _ hclash => hnot (hclash.symm.mem_nodes g.keyed)

end Unimatrix
