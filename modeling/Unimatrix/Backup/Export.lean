import Unimatrix.Backup.Format

/-!
# Exporting

Model of `export.rs`. The store is read in one `BEGIN DEFERRED` transaction, so an export is a function of one
database. Which store is opened, where the lines go and what is printed are left out.

A written file is read back line by line (`readBack`): a line whose number cannot be read is no JSON.

* `mem_exportRows`: what is written; **`exportRows_slots_nodup`**: nothing is written twice.
-/

namespace Unimatrix.Backup

/-! ## Rows -/

/-- The tables, as `do_export` goes through them. -/
def exportedTables : List Table :=
  [.counters, .entries, .entryTags, .coAccess, .featureEntries, .outcomeIndex, .agentRegistry, .auditLog,
    .graphEdges, .observations, .cycleEvents]

/-- `ORDER BY`, on the keys of a table. -/
def Table.keyLe : (t : Table) → t.Key → t.Key → Bool
  | .counters, a, b => a ≤ b
  | .entries, a, b => a ≤ b
  | .entryTags, a, b => a.1 < b.1 ∨ (a.1 = b.1 ∧ a.2 ≤ b.2)
  | .coAccess, a, b => a.1 < b.1 ∨ (a.1 = b.1 ∧ a.2 ≤ b.2)
  | .featureEntries, a, b => a.1 < b.1 ∨ (a.1 = b.1 ∧ a.2 ≤ b.2)
  | .outcomeIndex, a, b => a.1 < b.1 ∨ (a.1 = b.1 ∧ a.2 ≤ b.2)
  | .agentRegistry, a, b => a ≤ b
  | .auditLog, a, b => a ≤ b
  | .graphEdges, a, b => a.1 < b.1 ∨ (a.1 = b.1 ∧
      (a.2.1 < b.2.1 ∨ (a.2.1 = b.2.1 ∧ a.2.2 ≤ b.2.2)))
  | .observations, a, b => a ≤ b
  | .cycleEvents, a, b => a ≤ b

/-- `ORDER BY`, on the rows of a table. -/
def rowLe (r r' : Rec) : Bool :=
  if h : r.table = r'.table then r'.table.keyLe (h ▸ r.key) r'.key else false

/-- The rows of a table, in order. -/
def orderRows (rows : List Rec) : List Rec := rows.insertionSort fun r r' => rowLe r r'

theorem orderRows_perm (rows : List Rec) : (orderRows rows).Perm rows := List.perm_insertionSort _ rows

/-- The entries an exporter looks up in the skip set. -/
def checkedIds : Rec → List Int64
  | ⟨.entries, id, _⟩ => [id]
  | ⟨.entryTags, (entryId, _), _⟩ => [entryId]
  | ⟨.coAccess, (entryIdA, entryIdB), _⟩ => [entryIdA, entryIdB]
  | ⟨.featureEntries, (_, entryId), _⟩ => [entryId]
  | ⟨.graphEdges, (sourceId, targetId, _), _⟩ => [sourceId, targetId]
  | ⟨.counters, _, _⟩ => []
  | ⟨.outcomeIndex, _, _⟩ => []
  | ⟨.agentRegistry, _, _⟩ => []
  | ⟨.auditLog, _, _⟩ => []
  | ⟨.observations, _, _⟩ => []
  | ⟨.cycleEvents, _, _⟩ => []

/-- The row is not skipped. -/
def kept (skipIds : List Int64) (r : Rec) : Bool := (checkedIds r).all fun id => !skipIds.contains id

/-- The rows `do_export` writes. -/
def exportRows (skipIds : List Int64) (db : Db) : List Rec :=
  Tables.dump exportedTables orderRows (kept skipIds) db

/-! ## Files -/

/-- `write_header`. There is no header without a schema version. -/
def writeHeader (now : Int64) (skipQuarantined : Bool) (db : Db) : Option JsonObject :=
  ((db .counters).lookup "schema_version").map fun schemaVersion =>
    [("_header", .bool true),
      ("schema_version", .int schemaVersion),
      ("exported_at", .int now),
      ("entry_count", .int (Int64.ofNat (db .entries).len)),
      ("format_version", .int 2)] ++
    if skipQuarantined then [("skip_quarantined", .bool true)] else []

/-- `ExportCounts`. -/
structure ExportCounts where
  entries : Nat
  auditRows : Nat
  deriving DecidableEq, Repr

/-- `do_export`. -/
def doExport (now : Int64) (skipIds : List Int64) (skipQuarantined : Bool) (db : Db) :
    Option (List JsonObject × ExportCounts) :=
  (writeHeader now skipQuarantined db).map fun header =>
    (header :: (exportRows skipIds db).map exportRow,
      { entries := (db .entries).len - ((db .entries).pairs.filter fun e => skipIds.contains e.1).length
        auditRows := (db .auditLog).len })

/-- `SELECT id FROM entries WHERE status = 3`, where it is asked for. -/
def skipSet (skipQuarantined : Bool) (db : Db) : List Int64 :=
  if skipQuarantined then ((db .entries).pairs.filter fun e => e.2.status = 3).map Prod.fst else []

/-- The errors of `run_export`. -/
inductive ExportError where
  | unconfirmed
  | database
  deriving DecidableEq, Repr

/-- `run_export`. -/
def runExport (now : Int64) (skipQuarantined confirm : Bool) (db : Db) :
    Except ExportError (List JsonObject × ExportCounts) :=
  if skipQuarantined && !confirm then .error .unconfirmed
  else
    match doExport now (skipSet skipQuarantined db) skipQuarantined db with
    | some result => .ok result
    | none => .error .database

/-- A line of a file. An array, which serde reads by position, is the object it stands for. -/
inductive Line where
  | unreadable
  | blank
  | notJson
  | json (o : JsonObject)
  deriving DecidableEq, Repr

/-- A written line, read back. -/
def readBack (read : ReadFloat) (o : JsonObject) : Line :=
  match rereadLine read o with
  | some o => .json o
  | none => .notJson

/-- A written file, read back. -/
def exportedFile (read : ReadFloat) (now : Int64) (skipQuarantined confirm : Bool) (db : Db) :
    Option (List Line) :=
  (runExport now skipQuarantined confirm db).toOption.map fun result => result.1.map (readBack read)

/-! ## What is written -/

theorem exportedTables_nodup : exportedTables.Nodup := by decide

theorem mem_exportedTables (t : Table) : t ∈ exportedTables := by cases t <;> decide

/-- The place of a table in a file. -/
def Table.rank (t : Table) : Nat := exportedTables.idxOf t

theorem exportedTables_sorted : exportedTables.Pairwise fun t t' => t.rank < t'.rank := by decide

theorem kept_iff {skipIds : List Int64} {r : Rec} :
    kept skipIds r = true ↔ ∀ id ∈ checkedIds r, id ∉ skipIds := by
  unfold kept
  rw [List.all_eq_true]
  simp

@[simp] theorem kept_nil (r : Rec) : kept [] r = true := by
  rw [kept_iff]
  simp

/-- **What is written**: the rows that are kept. -/
theorem mem_exportRows {skipIds : List Int64} {db : Db} {r : Rec} :
    r ∈ exportRows skipIds db ↔ Tables.at? db r.slot = some r.row ∧ kept skipIds r = true := by
  unfold exportRows
  rw [Tables.mem_dump orderRows_perm]
  exact and_iff_right (mem_exportedTables r.table)

/-- **Nothing is written twice.** -/
theorem exportRows_slots_nodup (skipIds : List Int64) (db : Db) :
    ((exportRows skipIds db).map Tables.Rec.slot).Nodup :=
  Tables.dump_slots_nodup orderRows_perm exportedTables_nodup

theorem mem_skipSet {db : Db} {id : Int64} :
    id ∈ skipSet true db ↔ ∃ c, (db .entries).lookup id = some c ∧ c.status = 3 := by
  unfold skipSet
  rw [if_pos rfl, List.mem_map]
  constructor
  · rintro ⟨⟨id', c⟩, hmem, rfl⟩
    rw [List.mem_filter, HashMap.mem_pairs] at hmem
    exact ⟨c, hmem.1, of_decide_eq_true hmem.2⟩
  · rintro ⟨c, hc, hs⟩
    refine ⟨(id, c), List.mem_filter.mpr ⟨HashMap.mem_pairs.mpr hc, decide_eq_true hs⟩, rfl⟩

end Unimatrix.Backup
