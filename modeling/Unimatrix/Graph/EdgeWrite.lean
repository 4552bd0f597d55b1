import Unimatrix.Graph.Neighbors
import Unimatrix.Lib.Rows
import Unimatrix.Store.Lifecycle

/-!
# Edges declared by agents

Model of `edge_write.rs` (`validate_and_write_edges`, `delete_graph_edge`, `delete_agent_edges_for_entry`,
`redirect_graph_edge`), of `write_graph_edge` of `nli_detection.rs` and of the `context_edge` handler of
`tools.rs`.

* `graph_edges` is the list of its rows. Every statement succeeds, so `write_graph_edge` returns whether a row
  was added, and a transaction is its statements one after the other.
* The entries a call validates against are those of a store `s`, which may be another one at every call; a read
  of an entry returns `s.find id`.
* `weight` and `created_at` are written as they come; an id is the same number as `u64` and as `i64`.

The statements that belong together (the two directions of a `Contradicts` edge) are `writeEdge` and
`deleteEdge`. **`edges_sound`** is what every table reached from the empty one satisfies (`SoundEdges`) and what
a call does to it.
-/

namespace Unimatrix

open Rows

/-! ## Validation -/

/-- The rows of `graph_edges`, oldest first. -/
abbrev EdgeRows : Type := List (EdgeKey × EdgeColumns)

/-- `EDGE_SOURCE_AGENT`. -/
def edgeSourceAgent : String := "agent"

/-- `EdgeInput`. -/
structure EdgeInput where
  edgeType : String
  targetId : Nat
  deriving DecidableEq, Repr

/-- `EdgeValidationError`. -/
inductive EdgeValidationError where
  | unknownType (edgeType : String)
  | selfReferential (id : Nat)
  | targetNotFound (targetId : Nat)
  | targetQuarantined (targetId : Nat)
  deriving DecidableEq, Repr

/-- `Display`. -/
def EdgeValidationError.text : EdgeValidationError → String
  | .unknownType edgeType => "unknown edge type '" ++ edgeType ++ "'"
  | .selfReferential id =>
    "self-referential edge: source and target are both entry " ++ toString id
  | .targetNotFound targetId => "target entry " ++ toString targetId ++ " does not exist"
  | .targetQuarantined targetId =>
    "target entry " ++ toString targetId ++ " is quarantined and cannot be referenced"

/-- `validate_target`. -/
def validateTarget (s : Store) (targetId : Nat) : Except EdgeValidationError Unit :=
  match s.find targetId with
  | some entry =>
    if entry.status = .quarantined then .error (.targetQuarantined targetId) else .ok ()
  | none => .error (.targetNotFound targetId)

/-- The checks of one edge in `validate_and_write_edges`. -/
def resolveEdge (s : Store) (sourceId : Nat) (edge : EdgeInput) :
    Except EdgeValidationError (RelationType × Nat) :=
  match RelationType.fromStr edge.edgeType with
  | none => .error (.unknownType edge.edgeType)
  | some relType =>
    if sourceId = edge.targetId then .error (.selfReferential sourceId)
    else (validateTarget s edge.targetId).map fun _ => (relType, edge.targetId)

/-! ## Statements -/

/-- `write_graph_edge`: whether a row was added, and the rows. -/
def writeGraphEdge (t : EdgeRows) (sourceId targetId : Nat) (relationType : String)
    (createdAt : Int) : Bool × EdgeRows :=
  let key : EdgeKey := ⟨sourceId, targetId, relationType⟩
  (decide (key ∉ keys t),
    insertOrIgnore t key ⟨0x3F800000, createdAt, edgeSourceAgent, edgeSourceAgent, false⟩)

/-- The write of an edge, in both directions if it is a `Contradicts` edge. -/
def writeEdge (t : EdgeRows) (sourceId targetId : Nat) (relType : RelationType) (createdAt : Int) :
    EdgeRows :=
  let t' := (writeGraphEdge t sourceId targetId relType.asStr createdAt).2
  if relType = .contradicts then (writeGraphEdge t' targetId sourceId "Contradicts" createdAt).2
  else t'

/-- `DELETE FROM graph_edges WHERE source_id = ?1 AND target_id = ?2 AND relation_type = ?3`. -/
def deleteRow (t : EdgeRows) (sourceId targetId : Nat) (relationType : String) : EdgeRows :=
  delete t fun r => decide (r.1 = ⟨sourceId, targetId, relationType⟩)

/-- `delete_graph_edge`. -/
def deleteGraphEdge (t : EdgeRows) (sourceId targetId : Nat) (relationType : String) : EdgeRows :=
  let t' := deleteRow t sourceId targetId relationType
  if relationType = "Contradicts" then deleteRow t' targetId sourceId "Contradicts" else t'

/-- `redirect_graph_edge`. -/
def redirectGraphEdge (t : EdgeRows) (sourceId oldTargetId newTargetId : Nat)
    (relationType : String) (createdAt : Int) : EdgeRows :=
  if relationType = "Contradicts" then
    let t := deleteRow t sourceId oldTargetId "Contradicts"
    let t := deleteRow t oldTargetId sourceId "Contradicts"
    let t := (writeGraphEdge t sourceId newTargetId "Contradicts" createdAt).2
    (writeGraphEdge t newTargetId sourceId "Contradicts" createdAt).2
  else
    let t := deleteRow t sourceId oldTargetId relationType
    (writeGraphEdge t sourceId newTargetId relationType createdAt).2

/-! ## Calls -/

/-- `validate_and_write_edges`. -/
def validateAndWriteEdges (s : Store) (t : EdgeRows) (sourceId : Nat) (edges : List EdgeInput)
    (createdAt : Int) : Except EdgeValidationError Unit × EdgeRows :=
  match edges.mapM (resolveEdge s sourceId) with
  | .error e => (.error e, t)
  | .ok resolved =>
    (.ok (), resolved.foldl (fun t e => writeEdge t sourceId e.2 e.1 createdAt) t)

/-- The edges of an agent at an entry: what `delete_agent_edges_for_entry` deletes. -/
def agentEdgeAt (entryId : Nat) (r : EdgeKey × EdgeColumns) : Bool :=
  (r.1.sourceId == entryId || r.1.targetId == entryId) && r.2.source == edgeSourceAgent

/-- `delete_agent_edges_for_entry`: the removed edges, and the rows. -/
def deleteAgentEdgesForEntry (t : EdgeRows) (entryId : Nat) : List EdgeKey × EdgeRows :=
  (keys (t.filter (agentEdgeAt entryId)), delete t (agentEdgeAt entryId))

/-- `EdgeParams`, but for the agent and the format. -/
structure EdgeParams where
  mode : String
  sourceId : Nat
  edgeType : String
  targetId : Nat
  newTargetId : Option Nat
  deriving DecidableEq, Repr

/-- Steps 2 to 4 of `context_edge`: the source, and the self-references. -/
def checkSource (s : Store) (p : EdgeParams) : Except ServerError Unit :=
  match s.find p.sourceId with
  | none => .error (.invalidInput "source_id"
      ("source entry " ++ toString p.sourceId ++ " does not exist"))
  | some source =>
    if source.status = .quarantined ∨ source.status = .deprecated then
      .error (.invalidInput "source_id"
        ("source entry " ++ toString p.sourceId ++ " is frozen (quarantined or deprecated)"))
    else if p.sourceId = p.targetId then
      .error (.invalidInput "target_id"
        ("self-referential edge rejected: source_id equals target_id (" ++ toString p.sourceId ++ ")"))
    else if p.mode = "redirect" ∧ p.newTargetId = some p.sourceId then
      .error (.invalidInput "new_target_id"
        ("self-referential edge rejected: source_id equals new_target_id (" ++
          toString p.sourceId ++ ")"))
    else .ok ()

/-- Step 7 of `context_edge`. -/
def checkTarget (s : Store) (p : EdgeParams) : Except ServerError Unit :=
  if p.mode = "add" ∨ p.mode = "remove" then
    (validateTarget s p.targetId).mapError fun e => .invalidInput "target_id" e.text
  else if p.mode = "redirect" then
    match p.newTargetId with
    | none => .error (.invalidInput "new_target_id" "new_target_id is required for redirect mode")
    | some newTarget =>
      (validateTarget s newTarget).mapError fun e => .invalidInput "new_target_id" e.text
  else .ok ()

/-- Steps 2 to 7 of `context_edge`: the type of the edge. -/
def checkEdge (s : Store) (p : EdgeParams) : Except ServerError RelationType := do
  checkSource s p
  if (p.mode = "add" ∨ p.mode = "remove") ∧ p.newTargetId.isSome then
    throw (.invalidInput "new_target_id"
      ("new_target_id is not valid for mode '" ++ p.mode ++ "'"))
  match RelationType.fromStr p.edgeType with
  | none => throw (.invalidInput "edge_type" ("unknown edge type '" ++ p.edgeType ++ "'"))
  | some relType =>
    checkTarget s p
    pure relType

/-- The mode dispatch of `context_edge`. -/
def dispatchEdge (t : EdgeRows) (p : EdgeParams) (relType : RelationType) (createdAt : Int) :
    Except ServerError String × EdgeRows :=
  if p.mode = "add" then
    (.ok "edge added", writeEdge t p.sourceId p.targetId relType createdAt)
  else if p.mode = "remove" then
    (.ok "edge removed", deleteGraphEdge t p.sourceId p.targetId relType.asStr)
  else if p.mode = "redirect" then
    match p.newTargetId with
    | none => (.error (.invalidInput "new_target_id" "required for redirect mode"), t)
    | some newTarget => (.ok "edge redirected",
        redirectGraphEdge t p.sourceId p.targetId newTarget relType.asStr createdAt)
  else
    (.error (.invalidInput "mode"
      ("mode must be one of: add, remove, redirect (got '" ++ p.mode ++ "')")), t)

/-- `context_edge`. -/
def contextEdge (s : Store) (t : EdgeRows) (p : EdgeParams) (createdAt : Int) :
    Except ServerError String × EdgeRows :=
  match checkEdge s p with
  | .error e => (.error e, t)
  | .ok relType => dispatchEdge t p relType createdAt

/-- A call that writes edges; `s` holds the entries at the time. -/
inductive EdgeCall where
  | validateAndWriteEdges (s : Store) (sourceId : Nat) (edges : List EdgeInput) (createdAt : Int)
  | contextEdge (s : Store) (p : EdgeParams) (createdAt : Int)
  | deleteAgentEdgesForEntry (entryId : Nat)

namespace EdgeCall

/-- The call is accepted. -/
def accepted (t : EdgeRows) : EdgeCall → Bool
  | .validateAndWriteEdges s sourceId edges createdAt =>
    (Unimatrix.validateAndWriteEdges s t sourceId edges createdAt).1.isOk
  | .contextEdge s p createdAt => (Unimatrix.contextEdge s t p createdAt).1.isOk
  | .deleteAgentEdgesForEntry _ => true

/-- The rows after a call. -/
def exec (t : EdgeRows) : EdgeCall → EdgeRows
  | .validateAndWriteEdges s sourceId edges createdAt =>
    (Unimatrix.validateAndWriteEdges s t sourceId edges createdAt).2
  | .contextEdge s p createdAt => (Unimatrix.contextEdge s t p createdAt).2
  | .deleteAgentEdgesForEntry entryId => (Unimatrix.deleteAgentEdgesForEntry t entryId).2

/-- The rows after some calls, from an empty table. -/
def run (calls : List EdgeCall) : EdgeRows := calls.foldl exec []

end EdgeCall

/-! ## The rows that make up an edge -/

/-- The keys of an edge: both directions of a `Contradicts` edge. -/
def directions (sourceId targetId : Nat) (relationType : String) : List EdgeKey :=
  if relationType = "Contradicts" then
    [⟨sourceId, targetId, relationType⟩, ⟨targetId, sourceId, relationType⟩]
  else [⟨sourceId, targetId, relationType⟩]

/-- The columns of a row an agent writes. -/
def agentColumns (createdAt : Int) : EdgeColumns :=
  ⟨0x3F800000, createdAt, edgeSourceAgent, edgeSourceAgent, false⟩

/-- Add the rows of some keys that are not there. -/
def addRows (t : EdgeRows) (ks : List EdgeKey) (createdAt : Int) : EdgeRows :=
  ks.foldl (fun t k => insertOrIgnore t k (agentColumns createdAt)) t

theorem asStr_eq_contradicts {relType : RelationType} :
    relType.asStr = "Contradicts" ↔ relType = .contradicts := by
  cases relType <;> simp [RelationType.asStr]

theorem writeEdge_eq (t : EdgeRows) (sourceId targetId : Nat) (relType : RelationType)
    (createdAt : Int) : writeEdge t sourceId targetId relType createdAt =
      addRows t (directions sourceId targetId relType.asStr) createdAt := by
  unfold writeEdge directions
  by_cases h : relType = .contradicts
  · rw [h]
    rfl
  · rw [if_neg h, if_neg fun hs => h (asStr_eq_contradicts.mp hs)]
    rfl

theorem deleteGraphEdge_eq (t : EdgeRows) (sourceId targetId : Nat) (relationType : String) :
    deleteGraphEdge t sourceId targetId relationType =
      delete t fun r => decide (r.1 ∈ directions sourceId targetId relationType) := by
  unfold deleteGraphEdge deleteRow directions delete
  by_cases h : relationType = "Contradicts"
  · rw [if_pos h, if_pos h, h, List.filter_filter]
    refine List.filter_congr fun r _ => ?_
    simp [Bool.and_comm]
  · rw [if_neg h, if_neg h]
    refine List.filter_congr fun r _ => ?_
    simp

/-- **A redirect deletes an edge and adds one.** -/
theorem redirectGraphEdge_eq (t : EdgeRows) (sourceId oldTargetId newTargetId : Nat)
    (relationType : String) (createdAt : Int) :
    redirectGraphEdge t sourceId oldTargetId newTargetId relationType createdAt =
      addRows (deleteGraphEdge t sourceId oldTargetId relationType)
        (directions sourceId newTargetId relationType) createdAt := by
  unfold redirectGraphEdge deleteGraphEdge directions
  by_cases h : relationType = "Contradicts"
  · rw [if_pos h, if_pos h, if_pos h, h]
    rfl
  · rw [if_neg h, if_neg h, if_neg h]
    rfl

theorem mem_directions {a b : Nat} {relationType : String} {k : EdgeKey} :
    k ∈ directions a b relationType ↔ k = ⟨a, b, relationType⟩ ∨
      (relationType = "Contradicts" ∧ k = ⟨b, a, "Contradicts"⟩) := by
  unfold directions
  by_cases h : relationType = "Contradicts"
  · simp [h]
  · simp [h]

theorem directions_loopless {a b : Nat} (hab : a ≠ b) {relationType : String} {k : EdgeKey}
    (h : k ∈ directions a b relationType) : k.sourceId ≠ k.targetId := by
  rcases mem_directions.mp h with rfl | ⟨-, rfl⟩
  · exact hab
  · exact hab.symm

/-- The keys of an edge are symmetric where they must be. -/
theorem directions_symm {a b c d : Nat} {relationType : String} :
    (⟨c, d, "Contradicts"⟩ : EdgeKey) ∈ directions a b relationType ↔
      (⟨d, c, "Contradicts"⟩ : EdgeKey) ∈ directions a b relationType := by
  simp only [mem_directions, EdgeKey.mk.injEq]
  tauto

theorem mem_keys_addRows {t : EdgeRows} {ks : List EdgeKey} {createdAt : Int} {k : EdgeKey} :
    k ∈ keys (addRows t ks createdAt) ↔ k ∈ keys t ∨ k ∈ ks := by
  unfold addRows
  induction ks generalizing t with
  | nil => simp
  | cons k' ks ih =>
    rw [List.foldl_cons, ih, mem_keys_insertOrIgnore, List.mem_cons, or_assoc]

theorem mem_addRows_of_mem {t : EdgeRows} {r : EdgeKey × EdgeColumns} (h : r ∈ t)
    (ks : List EdgeKey) (createdAt : Int) : r ∈ addRows t ks createdAt := by
  unfold addRows
  induction ks generalizing t with
  | nil => exact h
  | cons k ks ih => exact ih (mem_insertOrIgnore.mpr (.inl h))

theorem of_mem_addRows {t : EdgeRows} {ks : List EdgeKey} {createdAt : Int}
    {r : EdgeKey × EdgeColumns} (h : r ∈ addRows t ks createdAt) :
    r ∈ t ∨ (r.1 ∈ ks ∧ r.2 = agentColumns createdAt) := by
  unfold addRows at h
  induction ks generalizing t with
  | nil => exact .inl h
  | cons k ks ih =>
    rcases ih h with hr | ⟨hr, hc⟩
    · rcases mem_insertOrIgnore.mp hr with hr | ⟨-, rfl⟩
      · exact .inl hr
      · exact .inr ⟨List.mem_cons_self, rfl⟩
    · exact .inr ⟨List.mem_cons_of_mem _ hr, hc⟩

theorem keys_nodup_addRows {t : EdgeRows} (h : (keys t).Nodup) (ks : List EdgeKey)
    (createdAt : Int) : (keys (addRows t ks createdAt)).Nodup := by
  unfold addRows
  induction ks generalizing t with
  | nil => exact h
  | cons k ks ih => exact ih (keys_nodup_insertOrIgnore h k _)

/-! ## What every table satisfies -/

/-- No loop, no key twice, every `Contradicts` edge in both directions, all of them an agent's. -/
structure SoundEdges (t : EdgeRows) : Prop where
  loopless : ∀ k ∈ keys t, k.sourceId ≠ k.targetId
  unique : (keys t).Nodup
  symmetric : ∀ a b, (⟨a, b, "Contradicts"⟩ : EdgeKey) ∈ keys t →
    (⟨b, a, "Contradicts"⟩ : EdgeKey) ∈ keys t
  authored : ∀ r ∈ t, r.2.source = edgeSourceAgent

theorem SoundEdges.nil : SoundEdges [] where
  loopless k h := by cases h
  unique := List.nodup_nil
  symmetric a b h := by cases h
  authored r h := by cases h

/-- Adding an edge. -/
theorem SoundEdges.add {t : EdgeRows} (h : SoundEdges t) {a b : Nat} (hab : a ≠ b)
    (relationType : String) (createdAt : Int) :
    SoundEdges (addRows t (directions a b relationType) createdAt) where
  loopless k hk := by
    rcases mem_keys_addRows.mp hk with hk | hk
    · exact h.loopless k hk
    · exact directions_loopless hab hk
  unique := keys_nodup_addRows h.unique _ _
  symmetric c d hk := by
    rw [mem_keys_addRows] at hk ⊢
    exact hk.imp (h.symmetric c d) directions_symm.mp
  authored r hr := by
    rcases of_mem_addRows hr with hr | ⟨-, hc⟩
    · exact h.authored r hr
    · rw [hc]
      rfl

/-- Deleting rows, as long as both directions of a `Contradicts` edge go together. -/
theorem SoundEdges.delete {t : EdgeRows} (h : SoundEdges t) {p : EdgeKey × EdgeColumns → Bool}
    (hp : ∀ a b c d, ((⟨a, b, "Contradicts"⟩ : EdgeKey), c) ∈ t →
      ((⟨b, a, "Contradicts"⟩ : EdgeKey), d) ∈ t →
      p (⟨a, b, "Contradicts"⟩, c) = p (⟨b, a, "Contradicts"⟩, d)) :
    SoundEdges (Rows.delete t p) where
  loopless k hk := by
    obtain ⟨v, hv⟩ := Rows.mem_keys.mp hk
    exact h.loopless k (Rows.mem_keys.mpr ⟨v, (mem_delete.mp hv).1⟩)
  unique := keys_nodup_delete h.unique p
  symmetric a b hk := by
    obtain ⟨c, hc⟩ := Rows.mem_keys.mp hk
    obtain ⟨hc, hkeep⟩ := mem_delete.mp hc
    obtain ⟨d, hd⟩ := Rows.mem_keys.mp (h.symmetric a b (Rows.mem_keys.mpr ⟨c, hc⟩))
    refine Rows.mem_keys.mpr ⟨d, mem_delete.mpr ⟨hd, ?_⟩⟩
    rw [← hp a b c d hc hd]
    exact hkeep
  authored r hr := h.authored r (mem_delete.mp hr).1

theorem SoundEdges.deleteGraphEdge {t : EdgeRows} (h : SoundEdges t) (sourceId targetId : Nat)
    (relationType : String) :
    SoundEdges (deleteGraphEdge t sourceId targetId relationType) := by
  rw [deleteGraphEdge_eq]
  refine h.delete fun a b c d _ _ => ?_
  simp only [decide_eq_decide]
  exact directions_symm

theorem SoundEdges.deleteAgentEdges {t : EdgeRows} (h : SoundEdges t) (entryId : Nat) :
    SoundEdges (deleteAgentEdgesForEntry t entryId).2 := by
  refine h.delete fun a b c d hc hd => ?_
  unfold agentEdgeAt
  rw [h.authored _ hc, h.authored _ hd, Bool.or_comm]

/-! ## What validation ensures -/

theorem resolveEdge_ok {s : Store} {sourceId : Nat} {edge : EdgeInput} {e : RelationType × Nat}
    (h : resolveEdge s sourceId edge = .ok e) : sourceId ≠ e.2 := by
  unfold resolveEdge at h
  split at h
  · cases h
  · split at h
    · cases h
    · rename_i hne
      cases hv : validateTarget s edge.targetId with
      | error err =>
        rw [hv] at h
        cases h
      | ok u =>
        rw [hv] at h
        cases h
        exact hne

theorem resolveEdges_ok {s : Store} {sourceId : Nat} {edges : List EdgeInput}
    {resolved : List (RelationType × Nat)} (h : edges.mapM (resolveEdge s sourceId) = .ok resolved) :
    ∀ e ∈ resolved, sourceId ≠ e.2 := by
  induction edges generalizing resolved with
  | nil =>
    cases h
    exact fun e he => absurd he List.not_mem_nil
  | cons edge edges ih =>
    rw [List.mapM_cons] at h
    cases he : resolveEdge s sourceId edge with
    | error err =>
      rw [he] at h
      cases h
    | ok e =>
      rw [he] at h
      cases hes : edges.mapM (resolveEdge s sourceId) with
      | error err =>
        rw [hes] at h
        cases h
      | ok es =>
        rw [hes] at h
        cases h
        intro e' he'
        rcases List.mem_cons.mp he' with rfl | he'
        · exact resolveEdge_ok he
        · exact ih hes e' he'

theorem checkSource_ok {s : Store} {p : EdgeParams} (h : checkSource s p = .ok ()) :
    p.sourceId ≠ p.targetId ∧ (p.mode = "redirect" → p.newTargetId ≠ some p.sourceId) := by
  unfold checkSource at h
  split at h
  · cases h
  · split at h
    · cases h
    · split at h
      · cases h
      · rename_i hne
        split at h
        · cases h
        · rename_i hnew
          exact ⟨hne, fun hmode hsame => hnew ⟨hmode, hsame⟩⟩

theorem checkEdge_ok {s : Store} {p : EdgeParams} {relType : RelationType}
    (h : checkEdge s p = .ok relType) : p.edgeType = relType.asStr ∧ p.sourceId ≠ p.targetId ∧
      (p.mode = "redirect" → p.newTargetId ≠ some p.sourceId) := by
  unfold checkEdge at h
  cases hs : checkSource s p with
  | error e =>
    rw [hs] at h
    cases h
  | ok u =>
    rw [hs] at h
    obtain ⟨hne, hnew⟩ := checkSource_ok hs
    refine ⟨?_, hne, hnew⟩
    simp only [bind, Except.bind] at h
    split at h
    · cases h
    · split at h
      · cases h
      · rename_i relType' htype
        cases ht : checkTarget s p with
        | error e =>
          rw [ht] at h
          cases h
        | ok u =>
          rw [ht] at h
          cases h
          exact RelationType.eq_asStr_of_fromStr htype

/-! ## Runs -/

theorem SoundEdges.writeAll {t : EdgeRows} (h : SoundEdges t) {sourceId : Nat}
    {resolved : List (RelationType × Nat)} (hne : ∀ e ∈ resolved, sourceId ≠ e.2)
    (createdAt : Int) :
    SoundEdges (resolved.foldl (fun t e => writeEdge t sourceId e.2 e.1 createdAt) t) := by
  induction resolved generalizing t with
  | nil => exact h
  | cons e es ih =>
    rw [List.foldl_cons]
    refine ih ?_ fun e' he' => hne e' (List.mem_cons_of_mem _ he')
    rw [writeEdge_eq]
    exact h.add (hne e List.mem_cons_self) _ _

theorem SoundEdges.dispatch {t : EdgeRows} (h : SoundEdges t) {s : Store} {p : EdgeParams}
    {relType : RelationType} (hcheck : checkEdge s p = .ok relType) (createdAt : Int) :
    SoundEdges (dispatchEdge t p relType createdAt).2 := by
  obtain ⟨-, hne, hnew⟩ := checkEdge_ok hcheck
  unfold dispatchEdge
  split
  · rw [writeEdge_eq]
    exact h.add hne _ _
  · split
    · exact h.deleteGraphEdge _ _ _
    · split
      · rename_i hmode
        cases hp : p.newTargetId with
        | none => exact h
        | some newTarget =>
          have hsource : p.sourceId ≠ newTarget := fun heq => hnew hmode (hp.trans (by rw [heq]))
          dsimp only
          rw [redirectGraphEdge_eq]
          exact (h.deleteGraphEdge _ _ _).add hsource _ _
      · exact h

theorem SoundEdges.validateAndWrite {t : EdgeRows} (h : SoundEdges t) (s : Store) (sourceId : Nat)
    (edges : List EdgeInput) (createdAt : Int) :
    SoundEdges (validateAndWriteEdges s t sourceId edges createdAt).2 := by
  unfold validateAndWriteEdges
  cases hm : edges.mapM (resolveEdge s sourceId) with
  | error e => exact h
  | ok resolved => exact h.writeAll (resolveEdges_ok hm) createdAt

theorem SoundEdges.contextEdge {t : EdgeRows} (h : SoundEdges t) (s : Store) (p : EdgeParams)
    (createdAt : Int) : SoundEdges (contextEdge s t p createdAt).2 := by
  unfold Unimatrix.contextEdge
  cases hcheck : checkEdge s p with
  | error e => exact h
  | ok relType => exact h.dispatch hcheck createdAt

theorem validateAndWriteEdges_of_error {s : Store} {t : EdgeRows} {sourceId : Nat}
    {edges : List EdgeInput} {createdAt : Int}
    (h : (validateAndWriteEdges s t sourceId edges createdAt).1.isOk = false) :
    (validateAndWriteEdges s t sourceId edges createdAt).2 = t := by
  unfold validateAndWriteEdges at h ⊢
  cases hm : edges.mapM (resolveEdge s sourceId) with
  | error e => rfl
  | ok resolved =>
    rw [hm] at h
    cases h

theorem dispatchEdge_of_error {t : EdgeRows} {p : EdgeParams} {relType : RelationType}
    {createdAt : Int} (h : (dispatchEdge t p relType createdAt).1.isOk = false) :
    (dispatchEdge t p relType createdAt).2 = t := by
  unfold dispatchEdge at h ⊢
  by_cases hadd : p.mode = "add"
  · rw [if_pos hadd] at h
    cases h
  · rw [if_neg hadd] at h ⊢
    by_cases hremove : p.mode = "remove"
    · rw [if_pos hremove] at h
      cases h
    · rw [if_neg hremove] at h ⊢
      by_cases hredirect : p.mode = "redirect"
      · rw [if_pos hredirect] at h ⊢
        cases hnew : p.newTargetId with
        | none => rfl
        | some newTarget =>
          rw [hnew] at h
          cases h
      · rw [if_neg hredirect]

theorem contextEdge_of_error {s : Store} {t : EdgeRows} {p : EdgeParams} {createdAt : Int}
    (h : (contextEdge s t p createdAt).1.isOk = false) : (contextEdge s t p createdAt).2 = t := by
  unfold contextEdge at h ⊢
  cases hcheck : checkEdge s p with
  | error e => rfl
  | ok relType =>
    rw [hcheck] at h
    exact dispatchEdge_of_error h

namespace EdgeCall

/-- **Every call keeps the table sound.** -/
theorem exec_sound {t : EdgeRows} (h : SoundEdges t) (c : EdgeCall) : SoundEdges (c.exec t) := by
  cases c with
  | validateAndWriteEdges s sourceId edges createdAt =>
    exact h.validateAndWrite s sourceId edges createdAt
  | contextEdge s p createdAt => exact h.contextEdge s p createdAt
  | deleteAgentEdgesForEntry entryId => exact h.deleteAgentEdges entryId

theorem run_sound (calls : List EdgeCall) : SoundEdges (run calls) :=
  List.foldlRecOn calls exec .nil fun _ h c _ => exec_sound h c

/-- **A call that is rejected changes nothing.** -/
theorem exec_of_rejected {t : EdgeRows} {c : EdgeCall} (h : c.accepted t = false) :
    c.exec t = t := by
  cases c with
  | validateAndWriteEdges s sourceId edges createdAt => exact validateAndWriteEdges_of_error h
  | contextEdge s p createdAt => exact contextEdge_of_error h
  | deleteAgentEdgesForEntry entryId => cases h

end EdgeCall

/-- What a redirect does: the rows of the old edge go, those of the new one are there, and nothing else
changes. -/
structure Redirected (t t' : EdgeRows) (old new : List EdgeKey) : Prop where
  kept : ∀ r ∈ t, r.1 ∉ old → r ∈ t'
  nothingElse : ∀ r ∈ t', (r ∈ t ∧ r.1 ∉ old) ∨ r.1 ∈ new
  present : ∀ k ∈ new, k ∈ keys t'

theorem redirectGraphEdge_redirected (t : EdgeRows) (sourceId oldTargetId newTargetId : Nat)
    (relationType : String) (createdAt : Int) :
    Redirected t (redirectGraphEdge t sourceId oldTargetId newTargetId relationType createdAt)
      (directions sourceId oldTargetId relationType)
      (directions sourceId newTargetId relationType) := by
  rw [redirectGraphEdge_eq, deleteGraphEdge_eq]
  refine ⟨fun r hr hold => ?_, fun r hr => ?_, fun k hk => mem_keys_addRows.mpr (.inr hk)⟩
  · exact mem_addRows_of_mem (mem_delete.mpr ⟨hr, decide_eq_false hold⟩) _ _
  · rcases of_mem_addRows hr with hr | ⟨hr, -⟩
    · obtain ⟨hr, hold⟩ := mem_delete.mp hr
      exact .inl ⟨hr, of_decide_eq_false hold⟩
    · exact .inr hr

theorem contextEdge_redirected {s : Store} {t : EdgeRows} {p : EdgeParams} {createdAt : Int}
    (hmode : p.mode = "redirect") {newTarget : Nat} (hnew : p.newTargetId = some newTarget)
    (hok : (contextEdge s t p createdAt).1.isOk = true) :
    Redirected t (contextEdge s t p createdAt).2 (directions p.sourceId p.targetId p.edgeType)
      (directions p.sourceId newTarget p.edgeType) := by
  unfold contextEdge at hok ⊢
  cases hcheck : checkEdge s p with
  | error e =>
    rw [hcheck] at hok
    cases hok
  | ok relType =>
    rw [(checkEdge_ok hcheck).1]
    unfold dispatchEdge
    dsimp only
    rw [hmode, if_neg (by decide), if_neg (by decide), if_pos rfl, hnew]
    exact redirectGraphEdge_redirected t _ _ _ _ _

/-- **Edges over whole runs.** After any calls from an empty table there is no self-loop, no two rows have one
key and every `Contradicts` edge is there in both directions; a rejected call changes nothing; a redirect
replaces the old edge by the new one and leaves the other rows alone. -/
theorem edges_sound (calls : List EdgeCall) :
    let t := EdgeCall.run calls
    (∀ k ∈ keys t, k.sourceId ≠ k.targetId) ∧
      (keys t).Nodup ∧
      (∀ a b, (⟨a, b, "Contradicts"⟩ : EdgeKey) ∈ keys t →
        (⟨b, a, "Contradicts"⟩ : EdgeKey) ∈ keys t) ∧
      (∀ c : EdgeCall, c.accepted t = false → c.exec t = t) ∧
      ∀ s p createdAt newTarget, p.mode = "redirect" → p.newTargetId = some newTarget →
        (contextEdge s t p createdAt).1.isOk = true →
        Redirected t (contextEdge s t p createdAt).2 (directions p.sourceId p.targetId p.edgeType)
          (directions p.sourceId newTarget p.edgeType) := by
  intro t
  have h := EdgeCall.run_sound calls
  exact ⟨h.loopless, h.unique, h.symmetric, fun c hc => EdgeCall.exec_of_rejected hc,
    fun s p createdAt newTarget hmode hnew hok => contextEdge_redirected hmode hnew hok⟩

end Unimatrix
