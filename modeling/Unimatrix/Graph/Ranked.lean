import Unimatrix.Graph.Neighbors
import Unimatrix.Lib.Query
import Mathlib.Data.Prod.Lex

/-!
# The edges shown with an entry

Model of `CANON_CTE`, `query_ranked_neighbors` and `count_neighbors_split` of `graph_queries_ranked.rs`.

* Both queries read the same canonical rows (`canon`), grouped into one row for each symmetric type and
  neighbor, and for each asymmetric type and neighbor. Which row of a group is shown is the engine's choice,
  in each query anew (`Query.Bare`).
* A confidence is compared as a number, `realKey` of its bits.

**`canonicalized`** says what is counted and ranked. Two asymmetric edges of one type, one from the anchor to
an entry and one back, fall into one group, and so do the two ends of a loop: the directions are counted right
where there are none (`OneWay`).
-/

namespace Unimatrix

/-! ## The canonical rows -/

/-- `direction`: of a canonical row, and the `leg` of the row it is made of. -/
inductive EdgeDirection where
  | inbound
  | outbound
  | both
  deriving DecidableEq, Repr

/-- The leg that finds an edge from this end. -/
def Direction.leg : Direction → EdgeDirection
  | .outgoing => .outbound
  | .incoming => .inbound

/-- A row of `nbr`. -/
structure NbrRow where
  sourceId : Nat
  targetId : Nat
  otherId : Nat
  relationType : String
  source : String
  leg : EdgeDirection
  deriving DecidableEq, Repr

/-- A row of `canon`. -/
structure CanonRow where
  relationType : String
  source : String
  otherId : Nat
  direction : EdgeDirection
  pairLo : Nat
  pairHi : Nat
  deriving DecidableEq, Repr

/-- One leg of `nbr`. -/
def nbrLeg (t : EdgeTable) (o : TableOrder) (id : Nat) (dir : Direction) : List NbrRow :=
  ((t.iter o).filter fun e => e.1.near dir = id && e.1.relationType ≠ "Supersedes").map fun e =>
    ⟨e.1.sourceId, e.1.targetId, e.1.far dir, e.1.relationType, e.2.source, dir.leg⟩

/-- `nbr`. -/
def nbr (t : EdgeTable) (o : Direction → TableOrder) (id : Nat) : List NbrRow :=
  nbrLeg t (o .outgoing) id .outgoing ++ nbrLeg t (o .incoming) id .incoming

/-- `relation_type IN ('Contradicts','CoAccess','Informs')`. -/
def isSymmetric (relationType : String) : Bool :=
  ["Contradicts", "CoAccess", "Informs"].contains relationType

/-- A row of `canon`. -/
def canonRow (id : Nat) (r : NbrRow) : CanonRow where
  relationType := r.relationType
  source := r.source
  otherId := r.otherId
  direction := if isSymmetric r.relationType then .both else r.leg
  pairLo := min id r.otherId
  pairHi := max id r.otherId

/-- `canon`. -/
def canon (t : EdgeTable) (o : Direction → TableOrder) (id : Nat) : List CanonRow :=
  (nbr t o id).map (canonRow id)

/-- What `deduped` groups by. -/
def groupKey (r : CanonRow) : String × Nat × Nat × Nat :=
  (r.relationType, r.pairLo, r.pairHi, if r.direction = .both then 1 else r.otherId)

/-- What the engine chooses in one query. -/
structure QueryChoice where
  legs : Direction → TableOrder
  bare : Query.Bare CanonRow

/-- `deduped`. -/
def deduped (t : EdgeTable) (q : QueryChoice) (id : Nat) : List CanonRow :=
  Query.groupBy groupKey q.bare (canon t q.legs id)

/-! ## The two queries -/

/-- `EdgeCountSplit`. -/
structure EdgeCountSplit where
  inbound : Nat
  outbound : Nat
  both : Nat
  authored : Nat
  deriving DecidableEq, Repr

/-- `count_neighbors_split`. -/
def countNeighborsSplit (t : EdgeTable) (q : QueryChoice) (id : Nat) : EdgeCountSplit where
  inbound := (deduped t q id).countP fun r => r.direction = .inbound
  outbound := (deduped t q id).countP fun r => r.direction = .outbound
  both := (deduped t q id).countP fun r => r.direction = .both
  authored := (deduped t q id).countP fun r => r.source = "agent"

/-- `RankedEdge`. -/
structure RankedEdge where
  row : RawEdgeRow
  direction : EdgeDirection
  deriving DecidableEq, Repr

/-- The `LEFT JOIN` with `entries`, and `map_ranked_row`. -/
def rankedEdge (s : Store) (id : Nat) (r : CanonRow) : RankedEdge where
  row := ⟨id, r.otherId, r.relationType, r.source,
    (s.entries.lookup r.otherId).map EntryRow.confidence⟩
  direction := r.direction

/-- The number with these bits, as far as order goes. -/
def realKey (bits : UInt64) : Int :=
  if bits.toNat < 2 ^ 63 then bits.toNat else 2 ^ 63 - bits.toNat

/-- `(source = 'agent') DESC, confidence DESC NULLS LAST, target_id ASC`. -/
def rankKey (e : RankedEdge) : ℕ ×ₗ ℕ ×ₗ ℤ ×ₗ ℕ :=
  toLex (if e.row.source = "agent" then 0 else 1, toLex (match e.row.targetConfidence with
    | some c => (0, toLex (-realKey c, e.row.targetId))
    | none => (1, toLex (0, e.row.targetId))))

/-- `query_ranked_neighbors`, with the cap it binds. -/
def queryRankedNeighbors (s : Store) (t : EdgeTable) (q : QueryChoice)
    (ties : Query.Arrangement RankedEdge) (id : Nat) (cap : Int) : List RankedEdge :=
  Query.limit cap (Query.orderBy ties (fun a b => rankKey a ≤ rankKey b)
    ((deduped t q id).map (rankedEdge s id)))

/-- `GET_EDGE_DISPLAY_LIMIT`. -/
def getEdgeDisplayLimit : Int := 3

/-! ## What the rows are made of -/

/-- An edge the queries read, met from the anchor along `dir`. -/
structure Adjacent (t : EdgeTable) (id : Nat) (dir : Direction) (key : EdgeKey) : Prop where
  stored : ∃ columns, t.lookup key = some columns
  type : key.relationType ≠ "Supersedes"
  near : key.near dir = id

variable {t : EdgeTable} {o : Direction → TableOrder} {id : Nat}

theorem mem_nbr {r : NbrRow} :
    r ∈ nbr t o id ↔ ∃ dir key columns, t.lookup key = some columns ∧ Adjacent t id dir key ∧
      r = ⟨key.sourceId, key.targetId, key.far dir, key.relationType, columns.source, dir.leg⟩ := by
  have hleg : ∀ dir, r ∈ nbrLeg t (o dir) id dir ↔
      ∃ key columns, t.lookup key = some columns ∧ Adjacent t id dir key ∧
        r = ⟨key.sourceId, key.targetId, key.far dir, key.relationType, columns.source, dir.leg⟩ := by
    intro dir
    unfold nbrLeg
    rw [List.mem_map]
    constructor
    · rintro ⟨⟨key, columns⟩, hmem, rfl⟩
      rw [List.mem_filter, Bool.and_eq_true, decide_eq_true_eq, decide_eq_true_eq,
        HashMap.mem_iter] at hmem
      exact ⟨key, columns, hmem.1, ⟨⟨columns, hmem.1⟩, hmem.2.2, hmem.2.1⟩, rfl⟩
    · rintro ⟨key, columns, hkey, hadj, rfl⟩
      refine ⟨(key, columns), ?_, rfl⟩
      rw [List.mem_filter, Bool.and_eq_true, decide_eq_true_eq, decide_eq_true_eq, HashMap.mem_iter]
      exact ⟨hkey, hadj.near, hadj.type⟩
  unfold nbr
  rw [List.mem_append, hleg, hleg]
  constructor
  · rintro (h | h)
    · exact ⟨_, h⟩
    · exact ⟨_, h⟩
  · rintro ⟨dir, h⟩
    cases dir with
    | outgoing => exact .inl h
    | incoming => exact .inr h

/-- **The canonical rows.** -/
theorem mem_canon {r : CanonRow} :
    r ∈ canon t o id ↔ ∃ dir key columns, t.lookup key = some columns ∧ Adjacent t id dir key ∧
      r = ⟨key.relationType, columns.source, key.far dir,
        if isSymmetric key.relationType then .both else dir.leg, min id (key.far dir),
        max id (key.far dir)⟩ := by
  unfold canon
  rw [List.mem_map]
  constructor
  · rintro ⟨n, hn, rfl⟩
    obtain ⟨dir, key, columns, hkey, hadj, rfl⟩ := mem_nbr.mp hn
    exact ⟨dir, key, columns, hkey, hadj, rfl⟩
  · rintro ⟨dir, key, columns, hkey, hadj, rfl⟩
    exact ⟨_, mem_nbr.mpr ⟨dir, key, columns, hkey, hadj, rfl⟩, rfl⟩

/-- What a row is about: its type and the neighbor. -/
def CanonRow.item (r : CanonRow) : String × Nat := (r.relationType, r.otherId)

theorem other_eq_of_pair {a b c : Nat} (hlo : min a b = min a c) (hhi : max a b = max a c) : b = c := by
  omega

/-- **A group is a type and a neighbor.** -/
theorem groupKey_eq_iff {r r' : CanonRow} (h : r ∈ canon t o id) (h' : r' ∈ canon t o id) :
    groupKey r = groupKey r' ↔ r.item = r'.item := by
  obtain ⟨dir, key, columns, -, -, rfl⟩ := mem_canon.mp h
  obtain ⟨dir', key', columns', -, -, rfl⟩ := mem_canon.mp h'
  unfold groupKey CanonRow.item
  simp only [Prod.mk.injEq]
  constructor
  · rintro ⟨htype, hlo, hhi, -⟩
    exact ⟨htype, other_eq_of_pair hlo hhi⟩
  · rintro ⟨htype, hfar⟩
    rw [htype, hfar]
    refine ⟨rfl, rfl, rfl, ?_⟩
    cases hsym : isSymmetric key'.relationType with
    | true => rfl
    | false => cases dir <;> cases dir' <;> rfl

/-- A row of a symmetric type says `both`, and no other does. -/
theorem direction_eq_both_iff {r : CanonRow} (h : r ∈ canon t o id) :
    r.direction = .both ↔ isSymmetric r.relationType = true := by
  obtain ⟨dir, key, columns, -, -, rfl⟩ := mem_canon.mp h
  dsimp only
  cases hsym : isSymmetric key.relationType with
  | true => simp
  | false => cases dir <;> simp [Direction.leg]

/-- **What the rows of a query are about**: each type and neighbor the anchor is joined to by it. -/
theorem mem_canon_items {x : String × Nat} :
    (∃ r ∈ canon t o id, r.item = x) ↔
      ∃ dir key, Adjacent t id dir key ∧ x = (key.relationType, key.far dir) := by
  constructor
  · rintro ⟨r, hr, rfl⟩
    obtain ⟨dir, key, columns, -, hadj, rfl⟩ := mem_canon.mp hr
    exact ⟨dir, key, hadj, rfl⟩
  · rintro ⟨dir, key, hadj, rfl⟩
    obtain ⟨columns, hkey⟩ := hadj.stored
    exact ⟨_, mem_canon.mpr ⟨dir, key, columns, hkey, hadj, rfl⟩, rfl⟩

variable (t id) in
/-- The shown rows are about distinct types and neighbors, all there are. -/
theorem deduped_items (q : QueryChoice) :
    ((deduped t q id).map CanonRow.item).Nodup ∧
      ∀ x, x ∈ (deduped t q id).map CanonRow.item ↔
        ∃ dir key, Adjacent t id dir key ∧ x = (key.relationType, key.far dir) := by
  have hperm := Query.map_groupBy_perm groupKey q.bare (canon t q.legs id)
    (f := CanonRow.item) (p := fun _ => true) (fun a ha b hb => groupKey_eq_iff ha hb)
    (fun _ _ _ _ _ => rfl) (List.nodup_dedup ((canon t q.legs id).map CanonRow.item))
    (fun x => by rw [List.mem_dedup, List.mem_map]; simp)
  rw [List.filter_true] at hperm
  refine ⟨hperm.nodup_iff.mpr (List.nodup_dedup _), fun x => ?_⟩
  rw [← mem_canon_items (o := q.legs), ← List.mem_map]
  exact hperm.mem_iff.trans List.mem_dedup

/-! ## What is counted -/

/-- An asymmetric type the queries read. -/
def isAsymmetric (relationType : String) : Bool :=
  !isSymmetric relationType && relationType ≠ "Supersedes"

/-- The stored edges of asymmetric types with this end at the anchor. -/
def asymmetricEdges (t : EdgeTable) (id : Nat) (dir : Direction) : List EdgeKey :=
  (t.pairs.map Prod.fst).filter fun key => key.near dir = id && isAsymmetric key.relationType

/-- The symmetric types and neighbors the anchor is joined to, in one direction or the other. -/
def symmetricNeighbors (t : EdgeTable) (id : Nat) : List (String × Nat) :=
  (((t.pairs.map Prod.fst).filter fun key => isSymmetric key.relationType &&
      (key.sourceId = id || key.targetId = id)).map fun key =>
    (key.relationType, if key.sourceId = id then key.targetId else key.sourceId)).dedup

/-- No two edges of one asymmetric type join the anchor to an entry and the entry to the anchor. -/
def OneWay (t : EdgeTable) (id : Nat) : Prop :=
  ∀ key key', Adjacent t id .outgoing key → Adjacent t id .incoming key' →
    key.relationType = key'.relationType → key.targetId = key'.sourceId →
    isSymmetric key.relationType = true

theorem mem_keys {key : EdgeKey} :
    key ∈ t.pairs.map Prod.fst ↔ ∃ columns, t.lookup key = some columns := by
  rw [List.mem_map]
  constructor
  · rintro ⟨⟨key, columns⟩, hmem, rfl⟩
    exact ⟨columns, HashMap.mem_pairs.mp hmem⟩
  · rintro ⟨columns, hkey⟩
    exact ⟨(key, columns), HashMap.mem_pairs.mpr hkey, rfl⟩

theorem mem_asymmetricEdges {dir : Direction} {key : EdgeKey} :
    key ∈ asymmetricEdges t id dir ↔
      Adjacent t id dir key ∧ isSymmetric key.relationType = false := by
  unfold asymmetricEdges isAsymmetric
  rw [List.mem_filter, mem_keys, Bool.and_eq_true, decide_eq_true_eq, Bool.and_eq_true,
    Bool.not_eq_true', decide_eq_true_eq]
  constructor
  · rintro ⟨hkey, hnear, hsym, htype⟩
    exact ⟨⟨hkey, htype, hnear⟩, hsym⟩
  · rintro ⟨hadj, hsym⟩
    exact ⟨hadj.stored, hadj.near, hsym, hadj.type⟩

theorem mem_symmetricNeighbors {x : String × Nat} :
    x ∈ symmetricNeighbors t id ↔ ∃ dir key, Adjacent t id dir key ∧
      isSymmetric key.relationType = true ∧ (key.relationType, key.far dir) = x := by
  unfold symmetricNeighbors
  rw [List.mem_dedup, List.mem_map]
  constructor
  · rintro ⟨key, hmem, rfl⟩
    rw [List.mem_filter, mem_keys, Bool.and_eq_true, Bool.or_eq_true, decide_eq_true_eq,
      decide_eq_true_eq] at hmem
    obtain ⟨hkey, hsym, hend⟩ := hmem
    have htype : key.relationType ≠ "Supersedes" := by
      intro heq
      rw [heq] at hsym
      exact absurd hsym (by decide)
    by_cases hsource : key.sourceId = id
    · exact ⟨.outgoing, key, ⟨hkey, htype, hsource⟩, hsym, by rw [if_pos hsource]; rfl⟩
    · exact ⟨.incoming, key, ⟨hkey, htype, hend.resolve_left hsource⟩, hsym,
        by rw [if_neg hsource]; rfl⟩
  · rintro ⟨dir, key, hadj, hsym, rfl⟩
    refine ⟨key, ?_, ?_⟩
    · rw [List.mem_filter, mem_keys, Bool.and_eq_true, Bool.or_eq_true, decide_eq_true_eq,
        decide_eq_true_eq]
      refine ⟨hadj.stored, hsym, ?_⟩
      cases dir with
      | outgoing => exact .inl hadj.near
      | incoming => exact .inr hadj.near
    · have hnear := hadj.near
      cases dir with
      | outgoing =>
        have hsource : key.sourceId = id := hnear
        rw [if_pos hsource]
        rfl
      | incoming =>
        have htarget : key.targetId = id := hnear
        split
        · rename_i hsource
          unfold EdgeKey.far
          rw [htarget, hsource]
        · rfl

/-- **A symmetric edge counts once**, whichever way and however often it is stored. -/
theorem countP_both (q : QueryChoice) :
    ((deduped t q id).countP fun r => r.direction = .both) = (symmetricNeighbors t id).length := by
  refine Query.countP_groupBy (f := CanonRow.item) (fun a ha b hb => groupKey_eq_iff ha hb)
    (fun a ha b hb hkey => ?_) (List.nodup_dedup _) fun x => ?_
  · have htype := congrArg Prod.fst ((groupKey_eq_iff ha hb).mp hkey)
    rw [Bool.eq_iff_iff, decide_eq_true_eq, decide_eq_true_eq, direction_eq_both_iff ha,
      direction_eq_both_iff hb]
    have htype' : a.relationType = b.relationType := htype
    rw [htype']
  · rw [mem_symmetricNeighbors]
    constructor
    · rintro ⟨dir, key, hadj, hsym, rfl⟩
      obtain ⟨columns, hkey⟩ := hadj.stored
      refine ⟨_, mem_canon.mpr ⟨dir, key, columns, hkey, hadj, rfl⟩, ?_, rfl⟩
      simp [hsym]
    · rintro ⟨r, hr, hboth, rfl⟩
      rw [decide_eq_true_eq, direction_eq_both_iff hr] at hboth
      obtain ⟨dir, key, columns, -, hadj, rfl⟩ := mem_canon.mp hr
      exact ⟨dir, key, hadj, hboth, rfl⟩

/-- The edge of a type between the anchor and another entry. -/
def edgeTo (id : Nat) (dir : Direction) (relationType : String) (otherId : Nat) : EdgeKey :=
  match dir with
  | .outgoing => ⟨id, otherId, relationType⟩
  | .incoming => ⟨otherId, id, relationType⟩

theorem edgeTo_eq_iff {dir : Direction} {r r' : CanonRow} :
    edgeTo id dir r.relationType r.otherId = edgeTo id dir r'.relationType r'.otherId ↔
      r.item = r'.item := by
  unfold edgeTo CanonRow.item
  cases dir <;> simp [and_comm]

theorem edgeTo_far {dir : Direction} {key : EdgeKey} (h : Adjacent t id dir key) :
    edgeTo id dir key.relationType (key.far dir) = key := by
  have hnear := h.near
  cases dir <;> subst hnear <;> rfl

theorem leg_inj {dir dir' : Direction} (h : dir.leg = dir'.leg) : dir = dir' := by
  cases dir <;> cases dir' <;> first | rfl | cases h

/-- **The directions are counted right where no two edges of a type run both ways.** -/
theorem countP_leg (q : QueryChoice) (h : OneWay t id) (dir : Direction) :
    ((deduped t q id).countP fun r => r.direction = dir.leg) = (asymmetricEdges t id dir).length := by
  refine Query.countP_groupBy (f := fun r => edgeTo id dir r.relationType r.otherId)
    (fun a ha b hb => (groupKey_eq_iff ha hb).trans edgeTo_eq_iff.symm) (fun a ha b hb hkey => ?_)
    (List.Nodup.filter _ (HashMap.pairs_keys_nodup t)) fun x => ?_
  · have hitem := (groupKey_eq_iff ha hb).mp hkey
    obtain ⟨da, ka, _, -, hadja, rfl⟩ := mem_canon.mp ha
    obtain ⟨db, kb, _, -, hadjb, rfl⟩ := mem_canon.mp hb
    obtain ⟨htype, hfar⟩ := Prod.mk.inj hitem
    dsimp only at htype hfar ⊢
    rw [htype]
    cases hsym : isSymmetric kb.relationType with
    | true => rfl
    | false =>
      have hsame : da = db := by
        cases da with
        | outgoing =>
          cases db with
          | outgoing => rfl
          | incoming =>
            have := h ka kb hadja hadjb htype hfar
            rw [htype, hsym] at this
            cases this
        | incoming =>
          cases db with
          | outgoing =>
            have := h kb ka hadjb hadja htype.symm hfar.symm
            rw [hsym] at this
            cases this
          | incoming => rfl
      rw [hsame]
  · rw [mem_asymmetricEdges]
    constructor
    · rintro ⟨hadj, hsym⟩
      obtain ⟨columns, hkey⟩ := hadj.stored
      refine ⟨_, mem_canon.mpr ⟨dir, x, columns, hkey, hadj, rfl⟩, ?_, edgeTo_far hadj⟩
      simp [hsym]
    · rintro ⟨r, hr, hdir, rfl⟩
      rw [decide_eq_true_eq] at hdir
      have hsym : isSymmetric r.relationType = false := by
        rw [← Bool.not_eq_true, ← direction_eq_both_iff hr, hdir]
        cases dir <;> simp [Direction.leg]
      obtain ⟨dir', key, columns, -, hadj, rfl⟩ := mem_canon.mp hr
      dsimp only at hsym hdir
      rw [hsym, if_neg Bool.false_ne_true] at hdir
      obtain rfl := leg_inj hdir
      rw [edgeTo_far hadj]
      exact ⟨hadj, hsym⟩

/-! ## What is ranked -/

/-- The rows of a direction. -/
def EdgeCountSplit.of (split : EdgeCountSplit) : EdgeDirection → Nat
  | .inbound => split.inbound
  | .outbound => split.outbound
  | .both => split.both

/-- The rows are split by direction. -/
theorem split_total (q : QueryChoice) (id : Nat) :
    (countNeighborsSplit t q id).inbound + (countNeighborsSplit t q id).outbound +
      (countNeighborsSplit t q id).both = (deduped t q id).length := by
  unfold countNeighborsSplit
  dsimp only
  generalize deduped t q id = rows
  induction rows with
  | nil => rfl
  | cons r rows ih =>
    rw [List.countP_cons, List.countP_cons, List.countP_cons, List.length_cons]
    cases hdir : r.direction <;> simp <;> omega

theorem countNeighborsSplit_of (q : QueryChoice) (id : Nat) (direction : EdgeDirection) :
    (countNeighborsSplit t q id).of direction =
      (deduped t q id).countP fun r => r.direction = direction := by
  cases direction <;> rfl

theorem rankKey_trans (a b c : RankedEdge) (h : decide (rankKey a ≤ rankKey b) = true)
    (h' : decide (rankKey b ≤ rankKey c) = true) : decide (rankKey a ≤ rankKey c) = true := by
  rw [decide_eq_true_eq] at h h' ⊢
  exact h.trans h'

theorem rankKey_total (a b : RankedEdge) :
    (decide (rankKey a ≤ rankKey b) || decide (rankKey b ≤ rankKey a)) = true := by
  rw [Bool.or_eq_true, decide_eq_true_eq, decide_eq_true_eq]
  exact le_total _ _

/-- An edge ranked before an authored one is authored. -/
theorem authored_of_rankKey_le {a b : RankedEdge} (h : rankKey a ≤ rankKey b)
    (hb : b.row.source = "agent") : a.row.source = "agent" := by
  by_contra ha
  have hfst := Prod.Lex.monotone_fst _ _ h
  unfold rankKey at hfst
  rw [if_neg ha, if_pos hb] at hfst
  change 1 ≤ 0 at hfst
  omega

section Ranked

variable {s : Store} {q : QueryChoice} {ties : Query.Arrangement RankedEdge} {cap : Int}

/-- A cap shows the first rows of them all. -/
theorem queryRankedNeighbors_prefix (s : Store) (t : EdgeTable) (q : QueryChoice)
    (ties : Query.Arrangement RankedEdge) (id : Nat) (cap : Int) :
    queryRankedNeighbors s t q ties id cap <+: queryRankedNeighbors s t q ties id (-1) :=
  Query.limit_prefix _ _

theorem queryRankedNeighbors_perm (hcap : cap < 0) :
    (queryRankedNeighbors s t q ties id cap).Perm ((deduped t q id).map (rankedEdge s id)) := by
  unfold queryRankedNeighbors
  rw [Query.limit_of_le (.inl hcap)]
  exact Query.orderBy_perm _ _ _

theorem queryRankedNeighbors_authored (hcap : cap < 0) :
    (queryRankedNeighbors s t q ties id cap).Pairwise
      fun a b => b.row.source = "agent" → a.row.source = "agent" := by
  unfold queryRankedNeighbors
  rw [Query.limit_of_le (.inl hcap)]
  refine (Query.orderBy_pairwise rankKey_trans rankKey_total _).imp fun {a b} hab => ?_
  exact authored_of_rankKey_le (of_decide_eq_true hab)

end Ranked

/-- **The edges counted and ranked.** Symmetric types are counted once for each neighbor; as many rows are
ranked as counted, about all types and neighbors the anchor is joined to, authored ones first; and where no two
edges of an asymmetric type run both ways, the two directions count the stored edges, each with its row. -/
theorem canonicalized (s : Store) (t : EdgeTable) (q q' : QueryChoice)
    (ties : Query.Arrangement RankedEdge) (id : Nat) {cap : Int} (hcap : cap < 0) :
    let split := countNeighborsSplit t q id
    let ranked := queryRankedNeighbors s t q' ties id cap
    split.both = (symmetricNeighbors t id).length ∧
      ranked.length = split.inbound + split.outbound + split.both ∧
      (∀ x, x ∈ (ranked.map fun e => (e.row.relationType, e.row.targetId)) ↔
        ∃ dir key, Adjacent t id dir key ∧ x = (key.relationType, key.far dir)) ∧
      ranked.Pairwise (fun a b => b.row.source = "agent" → a.row.source = "agent") ∧
      (OneWay t id →
        split.inbound = (asymmetricEdges t id .incoming).length ∧
        split.outbound = (asymmetricEdges t id .outgoing).length ∧
        (ranked.map fun e => (e.row.relationType, e.row.targetId)).Nodup ∧
        ∀ direction, (ranked.countP fun e => e.direction = direction) = split.of direction) := by
  intro split ranked
  have hperm : ranked.Perm ((deduped t q' id).map (rankedEdge s id)) := queryRankedNeighbors_perm hcap
  have hitems : (ranked.map fun e => (e.row.relationType, e.row.targetId)).Perm
      ((deduped t q' id).map CanonRow.item) := by
    have h := hperm.map fun e => (e.row.relationType, e.row.targetId)
    rw [List.map_map] at h
    exact h
  obtain ⟨hnodup, hmem⟩ := deduped_items t id q'
  obtain ⟨hnodup₀, hmem₀⟩ := deduped_items t id q
  -- the two queries group the same types and neighbors, whatever rows they show of them
  have hlen : ranked.length = (deduped t q id).length := by
    have hsame := (List.perm_ext_iff_of_nodup hnodup hnodup₀).mpr
      fun x => (hmem x).trans (hmem₀ x).symm
    have h := hitems.length_eq.trans hsame.length_eq
    rwa [List.length_map, List.length_map] at h
  have hboth : ∀ q, (countNeighborsSplit t q id).both = (symmetricNeighbors t id).length := countP_both
  refine ⟨hboth q, hlen.trans (split_total q id).symm,
    fun x => hitems.mem_iff.trans (hmem x), queryRankedNeighbors_authored hcap, fun h => ?_⟩
  refine ⟨countP_leg q h .incoming, countP_leg q h .outgoing, hitems.nodup_iff.mpr hnodup,
    fun direction => ?_⟩
  rw [hperm.countP_eq, List.countP_map, countNeighborsSplit_of]
  change ((deduped t q' id).countP fun r => r.direction = direction) = _
  cases direction with
  | inbound => exact (countP_leg q' h .incoming).trans (countP_leg q h .incoming).symm
  | outbound => exact (countP_leg q' h .outgoing).trans (countP_leg q h .outgoing).symm
  | both => exact (countP_both q').trans (countP_both q).symm

/-- The first leg first, and of each group the first row. -/
def firstChoice : QueryChoice := ⟨fun _ => .stored, .first⟩

theorem canonicalized_sample :
    let t := sampleEdges [⟨1, 2, "Supports"⟩, ⟨3, 1, "Supports"⟩, ⟨1, 3, "CoAccess"⟩,
      ⟨3, 1, "CoAccess"⟩]
    (countNeighborsSplit t firstChoice 1).both = (symmetricNeighbors t 1).length ∧
      (queryRankedNeighbors supersededNeighbor t firstChoice .stored 1 (-1)).length = 3 ∧
      (symmetricNeighbors t 1).length = 1 := by
  intro t
  obtain ⟨hboth, hlen, -⟩ :=
    canonicalized supersededNeighbor t firstChoice firstChoice .stored 1 (by decide : (-1 : Int) < 0)
  refine ⟨hboth, hlen.trans ?_, by decide +kernel⟩
  decide +kernel

/-- Opposite edges of one type count once, so does a loop, and `Supersedes` edges do not count. -/
theorem neighbors_miscounted :
    (¬ ∀ (t : EdgeTable) (q : QueryChoice) (id : Nat),
      (countNeighborsSplit t q id).inbound = ((t.pairs.map Prod.fst).filter fun key =>
          key.targetId = id && !isSymmetric key.relationType).length ∧
        (countNeighborsSplit t q id).outbound = ((t.pairs.map Prod.fst).filter fun key =>
          key.sourceId = id && !isSymmetric key.relationType).length) ∧
    countNeighborsSplit (sampleEdges [⟨1, 2, "Supports"⟩, ⟨2, 1, "Supports"⟩]) firstChoice 1 =
      ⟨0, 1, 0, 0⟩ ∧
    countNeighborsSplit (sampleEdges [⟨1, 1, "Supports"⟩]) firstChoice 1 = ⟨0, 1, 0, 0⟩ ∧
    countNeighborsSplit (sampleEdges [⟨2, 1, "Supersedes"⟩]) firstChoice 1 = ⟨0, 0, 0, 0⟩ := by
  have hrun : countNeighborsSplit (sampleEdges [⟨1, 2, "Supports"⟩, ⟨2, 1, "Supports"⟩]) firstChoice 1 =
      ⟨0, 1, 0, 0⟩ := by decide +kernel
  refine ⟨fun hclaim => ?_, hrun, by decide +kernel, by decide +kernel⟩
  have hin := (hclaim (sampleEdges [⟨1, 2, "Supports"⟩, ⟨2, 1, "Supports"⟩]) firstChoice 1).1
  rw [hrun] at hin
  exact absurd hin (by decide +kernel)

end Unimatrix
