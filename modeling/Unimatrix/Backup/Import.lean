import Unimatrix.Backup.Export
import Unimatrix.Lib.Except
import Unimatrix.Lib.Transaction
import Unimatrix.Store.ChainVerify

/-!
# Importing

Model of `import/mod.rs` and of `log_audit_event`.

* The target is the database as `SqlxStore::open` leaves it. `observation_metrics` and
  `observation_phase_metrics`, which are only deleted from, are their keys. No other table is touched.
* `prepare` is phases 1 to 4, `restore` what runs in the transaction, `restoreDatabase` everything up to the
  `COMMIT`, `runImport` the whole. The PID warning and what is printed are left out.
* `reconstruct` stands for `embed_reconstruct.rs`: of the database it writes `vector_map` alone.

**`prepare_eq_ok_iff`**: what gets past the checks (`Admits`). **`restoreDatabase_eq_ok_iff`**: which imports
commit, and what they store. **`restoreDatabase_error`**: what one that does not commit leaves.
-/

namespace Unimatrix.Backup

open Except (bind_eq_ok_iff)

/-! ## The target -/

/-- The tables an import reads or writes. -/
structure Database where
  tables : Db
  vectorMap : HashMap Int64 Int64
  observationMetrics : List String
  observationPhaseMetrics : List (String × String)

/-- `CURRENT_SCHEMA_VERSION`. -/
def currentSchemaVersion : Int64 := 32

/-- The counters `create_tables_if_needed` stores where they are missing. -/
def initialCounters : List (String × Int64) :=
  [("schema_version", currentSchemaVersion), ("next_entry_id", 0), ("next_signal_id", 0), ("next_log_id", 0),
    ("next_audit_id", 0)]

/-- The tables of a fresh store. -/
def freshTables : Db
  | .counters => HashMap.collect initialCounters
  | .entries => ∅
  | .entryTags => ∅
  | .coAccess => ∅
  | .featureEntries => ∅
  | .outcomeIndex => ∅
  | .agentRegistry => ∅
  | .auditLog => ∅
  | .graphEdges => ∅
  | .observations => ∅
  | .cycleEvents => ∅

/-- A fresh store. -/
def Database.fresh : Database where
  tables := freshTables
  vectorMap := ∅
  observationMetrics := []
  observationPhaseMetrics := []

/-- The constraints of the schema. Counters are inserted with `INSERT OR REPLACE`. -/
def constraints : Tables.Constraints Table.Key Table.Columns where
  replaces t := t = .counters
  check
    | ⟨.coAccess, (entryIdA, entryIdB), _⟩ => entryIdA < entryIdB
    | _ => true
  refs
    | ⟨.entryTags, (entryId, _), _⟩ => [⟨.entries, entryId⟩]
    | _ => []

/-! ## Errors and arguments -/

/-- The errors of `run_import`. -/
inductive ImportError where
  | slug
  | liveDaemon
  | io
  | emptyFile
  | invalidHeader
  | headerNotTrue
  | database
  | notEmpty (entryCount : Nat)
  | auditRows (auditRows : Nat)
  | formatVersion (v : Int64)
  | schemaVersion (header dbSchemaVersion : Int64)
  | readLine (lineNumber : Nat)
  | parseLine (lineNumber : Nat)
  | hashes (report : ChainReport)
  | embedding
  deriving DecidableEq, Repr

/-- What the gates of slug mode see. -/
structure SlugGates where
  resolves : Bool
  daemonAlive : Bool
  deriving DecidableEq, Repr

/-- The arguments of `run_import`. -/
structure ImportArgs where
  slug : Option SlugGates
  skipHashValidation : Bool
  force : Bool
  deriving DecidableEq, Repr

/-- `ImportCounts`. -/
abbrev ImportCounts : Type := Table → Nat

/-- `counts.t += 1`. -/
def ImportCounts.add (counts : ImportCounts) (t : Table) : ImportCounts :=
  fun t' => if t' = t then counts t' + 1 else counts t'

/-! ## Checks -/

/-- `ExportHeader`. -/
structure ExportHeader where
  header : Bool
  schemaVersion : Int64
  exportedAt : Int64
  entryCount : Int64
  formatVersion : Int64
  deriving DecidableEq, Repr

/-- `ExportHeader::deserialize`. -/
def decodeHeader (o : JsonObject) : Option ExportHeader := do
  let header ← required asBool o "_header"
  let schemaVersion ← required asInt o "schema_version"
  let exportedAt ← required asInt o "exported_at"
  let entryCount ← required asInt o "entry_count"
  let formatVersion ← required asInt o "format_version"
  return { header, schemaVersion, exportedAt, entryCount, formatVersion }

/-- `parse_header`. -/
def parseHeader : Line → Except ImportError ExportHeader
  | .unreadable => .error .io
  | .blank => .error .invalidHeader
  | .notJson => .error .invalidHeader
  | .json o =>
    match decodeHeader o with
    | none => .error .invalidHeader
    | some header => if header.header then .ok header else .error .headerNotTrue

/-- Open the file and parse its header. -/
def openFile : Option (List Line) → Except ImportError (ExportHeader × List Line)
  | none => .error .io
  | some [] => .error .emptyFile
  | some (line :: lines) => (parseHeader line).map fun header => (header, lines)

/-- `resolve_slug_store` and `preflight_live_pid_refusal`. -/
def checkSlug : Option SlugGates → Except ImportError Unit
  | none => .ok ()
  | some gates =>
    if !gates.resolves then .error .slug
    else if gates.daemonAlive then .error .liveDaemon
    else .ok ()

/-- `SELECT value FROM counters WHERE name = 'schema_version'`. -/
def readSchemaVersion (db : Db) : Except ImportError Int64 :=
  match (db .counters).lookup "schema_version" with
  | some v => .ok v
  | none => .error .database

/-- `check_preflight`. -/
def checkPreflight (args : ImportArgs) (db : Db) : Except ImportError Unit :=
  if 0 < (db .entries).len && !args.force then .error (.notEmpty (db .entries).len)
  else if args.slug.isSome && 0 < (db .auditLog).len then .error (.auditRows (db .auditLog).len)
  else .ok ()

/-- Phase 4: the header against the database. -/
def checkVersions (header : ExportHeader) (dbSchemaVersion : Int64) : Except ImportError Unit :=
  if header.formatVersion ≠ 1 ∧ header.formatVersion ≠ 2 then .error (.formatVersion header.formatVersion)
  else if dbSchemaVersion < header.schemaVersion then
    .error (.schemaVersion header.schemaVersion dbSchemaVersion)
  else .ok ()

/-- Phases 1 to 4. Returns the data lines. -/
def prepare (args : ImportArgs) (file : Option (List Line)) (db : Db) : Except ImportError (List Line) :=
  (checkSlug args.slug).bind fun _ =>
    (openFile file).bind fun opened =>
      (readSchemaVersion db).bind fun dbSchemaVersion =>
        (checkPreflight args db).bind fun _ =>
          (checkVersions opened.1 dbSchemaVersion).map fun _ => opened.2

/-- `drop_all_data`. `audit_log` stays. -/
def dropAllData (db : Database) : Database where
  tables
    | .auditLog => db.tables .auditLog
    | .counters => ∅
    | .entries => ∅
    | .entryTags => ∅
    | .coAccess => ∅
    | .featureEntries => ∅
    | .outcomeIndex => ∅
    | .agentRegistry => ∅
    | .graphEdges => ∅
    | .observations => ∅
    | .cycleEvents => ∅
  vectorMap := ∅
  observationMetrics := []
  observationPhaseMetrics := []

/-! ## The transaction -/

/-- `INSERT`. -/
def insertRec (r : Rec) : Txn Db ImportError Unit :=
  Txn.statement fun db =>
    match Tables.insert constraints db r with
    | some db' => .ok ((), db')
    | none => .error .database

/-- The row of a line; an empty line has none. -/
def readRow (lineNumber : Nat) : Line → Except ImportError (Option ExportRow)
  | .unreadable => .error (.readLine lineNumber)
  | .blank => .ok none
  | .notJson => .error (.parseLine lineNumber)
  | .json o =>
    match decode o with
    | some row => .ok (some row)
    | none => .error (.parseLine lineNumber)

/-- `ingest_rows`. -/
def ingestRows : Nat → List Line → ImportCounts → Txn Db ImportError ImportCounts
  | _, [], counts => pure counts
  | lineNumber, line :: lines, counts =>
    match readRow lineNumber line with
    | .error e => throw e
    | .ok none => ingestRows (lineNumber + 1) lines counts
    | .ok (some row) => do
      insertRec (toRec row)
      ingestRows (lineNumber + 1) lines (counts.add (toRec row).table)

/-- `Status::try_from(status as u8)`, or `Active`. -/
def statusOf (status : Int64) : Status :=
  match status.toUInt64.toUInt8 with
  | 1 => .deprecated
  | 2 => .proposed
  | 3 => .quarantined
  | _ => .active

/-- `entry_from_row`. -/
def entryRecord (id : Int64) (c : EntryColumns) : EntryRecord where
  id := id.toUInt64.toNat
  title := c.title
  content := c.content
  topic := c.topic
  category := c.category
  tags := []
  source := c.source
  status := statusOf c.status
  confidence := c.confidence
  createdAt := c.createdAt.toUInt64.toNat
  updatedAt := c.updatedAt.toUInt64.toNat
  lastAccessedAt := c.lastAccessedAt.toUInt64.toNat
  accessCount := c.accessCount.toUInt64.toUInt32
  supersedes := c.supersedes.map fun v => v.toUInt64.toNat
  supersededBy := c.supersededBy.map fun v => v.toUInt64.toNat
  correctionCount := c.correctionCount.toUInt64.toUInt32
  embeddingDim := c.embeddingDim.toUInt64.toUInt16
  createdBy := c.createdBy
  modifiedBy := c.modifiedBy
  contentHash := c.contentHash
  previousHash := c.previousHash
  version := c.version.toUInt64.toUInt32
  featureCycle := c.featureCycle
  trustSource := c.trustSource
  helpfulCount := c.helpfulCount.toUInt64.toUInt32
  unhelpfulCount := c.unhelpfulCount.toUInt64.toUInt32
  preQuarantineStatus := c.preQuarantineStatus.map fun v => v.toUInt64.toUInt8

/-- `SELECT .. FROM entries ORDER BY id`. -/
def loadEntries (db : Db) : List EntryRecord :=
  ((db .entries).pairs.insertionSort fun e e' => e.1 ≤ e'.1).map fun e => entryRecord e.1 e.2

/-- `validate_hashes`. -/
def validateHashes (sha256 : Digest) : Txn Db ImportError Unit := do
  let entries ← Txn.query loadEntries
  let report := verifyEntries sha256 entries
  Txn.reject report.isClean (.hashes report)

/-- Phase 8: validation may be skipped. -/
def checkHashes (sha256 : Digest) (args : ImportArgs) : Txn Db ImportError Unit :=
  if args.skipHashValidation then pure () else validateHashes sha256

/-- What runs between `BEGIN IMMEDIATE` and `COMMIT`. The header was line 1. -/
def restore (sha256 : Digest) (args : ImportArgs) (lines : List Line) :
    Txn Db ImportError ImportCounts := do
  let counts ← ingestRows 2 lines fun _ => 0
  checkHashes sha256 args
  pure counts

/-- Phase 5: what the rows go into. Nothing of it is in the transaction. -/
def target (args : ImportArgs) (db : Database) : Database :=
  if args.force then dropAllData db else db

/-- Phases 1 to 9, everything up to the `COMMIT`. A statement of the transaction may fail (`fault`). -/
def restoreDatabase (sha256 : Digest) (args : ImportArgs) (file : Option (List Line))
    (fault : Option (Nat × ImportError)) (db : Database) : Except ImportError ImportCounts × Database :=
  match prepare args file db.tables with
  | .error e => (.error e, db)
  | .ok lines =>
    let done := Txn.transaction (restore sha256 args lines) ⟨(target args db).tables, fault⟩
    (done.1, { target args db with tables := done.2.db })

/-! ## After the commit -/

/-- What `next_counter` allocates. Past `i64::MAX` the sum is no integer and reading it back fails. -/
def nextValue : Option Int64 → Option Int64
  | none => some 1
  | some v => if v = Int64.maxValue then none else some (v + 1)

/-- `next_counter`: the upsert. -/
def nextCounter (name : String) : Txn Db ImportError Int64 :=
  Txn.statement fun db =>
    match nextValue ((db .counters).lookup name) with
    | some v => .ok (v, Tables.put db ⟨.counters, name, v⟩)
    | none => .error .database

/-- `log_audit_event`, in a transaction of its own. -/
def logAuditEvent (event : AuditColumns) : Txn Db ImportError Int64 := do
  let id ← nextCounter "next_audit_id"
  let metadata := if event.metadata.isEmpty then "\x7b\x7d" else event.metadata
  insertRec ⟨.auditLog, id, { event with metadata }⟩
  pure id

/-- The event of `record_provenance`. -/
def provenance (now : Int64) (input : String) (counts : ImportCounts) : AuditColumns where
  timestamp := now
  sessionId := "import"
  agentId := "system"
  operation := "import"
  targetIds := "[]"
  outcome := 0
  detail := "Imported from '" ++ input ++ "': " ++ toString (counts .entries) ++ " entries, " ++
    toString (counts .entryTags) ++ " tags, " ++ toString (counts .coAccess) ++ " co-access pairs, " ++
    toString (counts .counters) ++ " counters, " ++ toString (counts .graphEdges) ++ " graph_edges, " ++
    toString (counts .observations) ++ " observations, " ++ toString (counts .cycleEvents) ++
    " cycle_events"
  credentialType := "none"
  capabilityUsed := ""
  agentAttribution := ""
  metadata := "\x7b\x7d"

/-- `record_provenance`. -/
def recordProvenance (now : Int64) (input : String) (counts : ImportCounts) (db : Database) :
    Except ImportError Unit × Database :=
  let done := Txn.transaction (logAuditEvent (provenance now input counts)) ⟨db.tables, none⟩
  (done.1.map fun _ => (), { db with tables := done.2.db })

/-- What `reconstruct_embeddings` returns and leaves in `vector_map`. -/
abbrev Reconstruct : Type := Database → Except ImportError Unit × HashMap Int64 Int64

/-- `run_import`. -/
def runImport (sha256 : Digest) (reconstruct : Reconstruct) (now : Int64) (input : String)
    (args : ImportArgs) (file : Option (List Line)) (fault : Option (Nat × ImportError)) (db : Database) :
    Except ImportError Unit × Database :=
  match restoreDatabase sha256 args file fault db with
  | (.error e, db) => (.error e, db)
  | (.ok counts, db) =>
    match reconstruct db with
    | (.error e, vectorMap) => (.error e, { db with vectorMap })
    | (.ok (), vectorMap) => recordProvenance now input counts { db with vectorMap }

/-! ## What gets past the checks -/

/-- What the checks of phases 1 to 4 ask for. -/
structure Admits (args : ImportArgs) (file : Option (List Line)) (db : Db) (lines : List Line) : Prop where
  slug : ∀ gates, args.slug = some gates → gates.resolves = true ∧ gates.daemonAlive = false
  header : ∃ header v, openFile file = .ok (header, lines) ∧
    (db .counters).lookup "schema_version" = some v ∧
    (header.formatVersion = 1 ∨ header.formatVersion = 2) ∧ header.schemaVersion ≤ v
  entries : (db .entries).len = 0 ∨ args.force = true
  audit : args.slug = none ∨ (db .auditLog).len = 0

theorem checkSlug_eq_ok_iff {slug : Option SlugGates} :
    checkSlug slug = .ok () ↔
      ∀ gates, slug = some gates → gates.resolves = true ∧ gates.daemonAlive = false := by
  cases slug with
  | none => exact iff_of_true rfl fun _ h => by cases h
  | some gates =>
    obtain ⟨resolves, daemonAlive⟩ := gates
    cases resolves <;> cases daemonAlive <;> simp [checkSlug]

theorem checkPreflight_eq_ok_iff {args : ImportArgs} {db : Db} :
    checkPreflight args db = .ok () ↔ ((db .entries).len = 0 ∨ args.force = true) ∧
      (args.slug = none ∨ (db .auditLog).len = 0) := by
  unfold checkPreflight
  by_cases he : (0 < (db .entries).len && !args.force) = true
  · rw [if_pos he]
    rw [Bool.and_eq_true, decide_eq_true_eq, Bool.not_eq_true'] at he
    refine iff_of_false (fun h => by cases h) ?_
    rintro ⟨h | h, -⟩
    · omega
    · rw [he.2] at h
      cases h
  · rw [if_neg he]
    have hentries : (db .entries).len = 0 ∨ args.force = true := by
      by_contra hc
      rw [not_or, Bool.not_eq_true] at hc
      exact he (by simp [Nat.pos_of_ne_zero hc.1, hc.2])
    rw [and_iff_right hentries]
    cases args.slug with
    | none => simp
    | some gates =>
      by_cases ha : (db .auditLog).len = 0
      · simp [ha]
      · simp [ha, Nat.pos_of_ne_zero ha]

theorem checkVersions_eq_ok_iff {header : ExportHeader} {v : Int64} :
    checkVersions header v = .ok () ↔
      (header.formatVersion = 1 ∨ header.formatVersion = 2) ∧ header.schemaVersion ≤ v := by
  unfold checkVersions
  by_cases hf : header.formatVersion ≠ 1 ∧ header.formatVersion ≠ 2
  · rw [if_pos hf]
    refine iff_of_false (fun h => by cases h) ?_
    rintro ⟨h | h, -⟩
    · exact hf.1 h
    · exact hf.2 h
  · rw [if_neg hf, and_iff_right (by rwa [← not_or, not_not] at hf)]
    by_cases hv : v < header.schemaVersion
    · rw [if_pos hv]
      exact iff_of_false (fun h => by cases h) (Int64.not_le.mpr hv)
    · rw [if_neg hv]
      exact iff_of_true rfl (Int64.not_lt.mp hv)

/-- **What gets past the checks.** -/
theorem prepare_eq_ok_iff {args : ImportArgs} {file : Option (List Line)} {db : Db} {lines : List Line} :
    prepare args file db = .ok lines ↔ Admits args file db lines := by
  unfold prepare
  constructor
  · intro h
    obtain ⟨_, hslug, h⟩ := bind_eq_ok_iff.mp h
    obtain ⟨⟨header, lines'⟩, hopen, h⟩ := bind_eq_ok_iff.mp h
    obtain ⟨v, hv, h⟩ := bind_eq_ok_iff.mp h
    obtain ⟨_, hpre, h⟩ := bind_eq_ok_iff.mp h
    cases hver : checkVersions header v with
    | error e =>
      rw [hver] at h
      cases h
    | ok u =>
      rw [hver] at h
      cases h
      obtain ⟨hentries, haudit⟩ := checkPreflight_eq_ok_iff.mp hpre
      refine ⟨checkSlug_eq_ok_iff.mp hslug, ⟨header, v, hopen, ?_, checkVersions_eq_ok_iff.mp hver⟩,
        hentries, haudit⟩
      unfold readSchemaVersion at hv
      split at hv
      · rename_i w hw
        cases hv
        exact hw
      · cases hv
  · rintro ⟨hslug, ⟨header, v, hopen, hv, hver⟩, hentries, haudit⟩
    rw [checkSlug_eq_ok_iff.mpr hslug, hopen]
    unfold readSchemaVersion
    rw [hv]
    have hpre := checkPreflight_eq_ok_iff.mpr ⟨hentries, haudit⟩
    have hver := checkVersions_eq_ok_iff.mpr hver
    simp only [Except.bind, hpre, hver, Except.map]

/-! ## What the transaction does -/

/-- The rows of some lines, where each can be read. -/
def rowsOf : List Line → Option (List ExportRow)
  | [] => some []
  | .blank :: lines => rowsOf lines
  | .json o :: lines => (decode o).bind fun row => (rowsOf lines).map (row :: ·)
  | .unreadable :: _ => none
  | .notJson :: _ => none

/-- The counts after some rows. -/
def tally (counts : ImportCounts) (rows : List ExportRow) : ImportCounts :=
  rows.foldl (fun counts row => counts.add (toRec row).table) counts

theorem insertRec_run {r : Rec} {db db' : Db} {u : Unit} (h : Txn.Run (insertRec r) db u db') :
    Tables.insert constraints db r = some db' := by
  have hs := Txn.Run.statement h
  split at hs
  · rename_i db₁ h₁
    cases hs
    exact h₁
  · cases hs

theorem insertRec_passes {r : Rec} {db db' : Db} (h : Tables.insert constraints db r = some db') :
    Txn.Passes (insertRec r) db () db' :=
  Txn.Passes.statement (by rw [h])

theorem ingestRows_run {lines : List Line} {n : Nat} {counts counts' : ImportCounts} {db db' : Db}
    (h : Txn.Run (ingestRows n lines counts) db counts' db') :
    ∃ rows, rowsOf lines = some rows ∧ counts' = tally counts rows ∧
      Tables.insertAll constraints (rows.map toRec) db = some db' := by
  induction lines generalizing n counts db with
  | nil =>
    obtain ⟨rfl, rfl⟩ := Txn.Run.ret h
    exact ⟨[], rfl, rfl, rfl⟩
  | cons line lines ih =>
    unfold ingestRows at h
    cases line with
    | unreadable =>
      obtain ⟨g, g', h⟩ := h
      cases h
    | notJson =>
      obtain ⟨g, g', h⟩ := h
      cases h
    | blank => exact ih h
    | json o =>
      cases hrow : decode o with
      | none =>
        simp only [readRow, hrow] at h
        obtain ⟨g, g', h⟩ := h
        cases h
      | some row =>
        simp only [readRow, hrow] at h
        obtain ⟨_, db₁, hinsert, h⟩ := Txn.Run.bind h
        obtain ⟨rows, hrows, hcounts, hall⟩ := ih h
        refine ⟨row :: rows, ?_, hcounts, ?_⟩
        · simp only [rowsOf, hrow, hrows, Option.bind_some, Option.map_some]
        · rw [List.map_cons, Tables.insertAll, insertRec_run hinsert]
          exact hall

theorem ingestRows_passes {lines : List Line} {n : Nat} {counts : ImportCounts} {rows : List ExportRow}
    {db db' : Db} (hrows : rowsOf lines = some rows)
    (hall : Tables.insertAll constraints (rows.map toRec) db = some db') :
    Txn.Passes (ingestRows n lines counts) db (tally counts rows) db' := by
  induction lines generalizing n counts rows db with
  | nil =>
    cases hrows
    cases hall
    exact Txn.Passes.ret _ _
  | cons line lines ih =>
    unfold ingestRows
    cases line with
    | unreadable => cases hrows
    | notJson => cases hrows
    | blank => exact ih hrows hall
    | json o =>
      obtain ⟨row, hrow, hrest⟩ := Option.bind_eq_some_iff.mp hrows
      obtain ⟨rows', hrows', rfl⟩ := Option.map_eq_some_iff.mp hrest
      obtain ⟨db₁, h₁, h₂⟩ := Option.bind_eq_some_iff.mp hall
      simp only [readRow, hrow]
      exact Txn.Passes.bind (insertRec_passes h₁) (ih hrows' h₂)

/-- What a transaction that commits has done. -/
structure Restores (sha256 : Digest) (args : ImportArgs) (lines : List Line) (db : Db)
    (counts : ImportCounts) (db' : Db) : Prop where
  rows : ∃ rows, rowsOf lines = some rows ∧ counts = tally (fun _ => 0) rows ∧
    Tables.insertAll constraints (rows.map toRec) db = some db'
  hashes : args.skipHashValidation = true ∨ (verifyEntries sha256 (loadEntries db')).isClean = true

theorem checkHashes_run {sha256 : Digest} {args : ImportArgs} {db db' : Db} {u : Unit}
    (h : Txn.Run (checkHashes sha256 args) db u db') : db' = db ∧
      (args.skipHashValidation = true ∨ (verifyEntries sha256 (loadEntries db)).isClean = true) := by
  unfold checkHashes at h
  by_cases hskip : args.skipHashValidation = true
  · rw [if_pos hskip] at h
    exact ⟨(Txn.Run.ret h).2, .inl hskip⟩
  · rw [if_neg hskip] at h
    obtain ⟨entries, db₁, hquery, hreject⟩ := Txn.Run.bind h
    obtain ⟨rfl, rfl⟩ := Txn.Run.query hquery
    obtain ⟨hclean, rfl⟩ := Txn.Run.reject hreject
    exact ⟨rfl, .inr hclean⟩

theorem checkHashes_passes {sha256 : Digest} {args : ImportArgs} {db : Db}
    (h : args.skipHashValidation = true ∨ (verifyEntries sha256 (loadEntries db)).isClean = true) :
    Txn.Passes (checkHashes sha256 args) db () db := by
  unfold checkHashes
  by_cases hskip : args.skipHashValidation = true
  · rw [if_pos hskip]
    exact Txn.Passes.ret db ()
  · rw [if_neg hskip]
    exact Txn.Passes.bind (Txn.Passes.query loadEntries db)
      (Txn.Passes.reject db (h.resolve_left hskip))

theorem restore_run {sha256 : Digest} {args : ImportArgs} {lines : List Line} {db db' : Db}
    {counts : ImportCounts} (h : Txn.Run (restore sha256 args lines) db counts db') :
    Restores sha256 args lines db counts db' := by
  obtain ⟨counts₁, db₁, hingest, h⟩ := Txn.Run.bind h
  obtain ⟨_, db₂, hcheck, h⟩ := Txn.Run.bind h
  obtain ⟨rfl, rfl⟩ := Txn.Run.ret h
  obtain ⟨rfl, hhashes⟩ := checkHashes_run hcheck
  exact ⟨ingestRows_run hingest, hhashes⟩

theorem restore_passes {sha256 : Digest} {args : ImportArgs} {lines : List Line} {db db' : Db}
    {counts : ImportCounts} (h : Restores sha256 args lines db counts db') :
    Txn.Passes (restore sha256 args lines) db counts db' := by
  obtain ⟨⟨rows, hrows, rfl, hall⟩, hhashes⟩ := h
  exact Txn.Passes.bind (ingestRows_passes hrows hall)
    (Txn.Passes.bind (checkHashes_passes hhashes) (Txn.Passes.ret db' _))

/-- Past the checks, an import is its transaction. -/
theorem restoreDatabase_of_admits {sha256 : Digest} {args : ImportArgs} {file : Option (List Line)}
    {fault : Option (Nat × ImportError)} {db : Database} {lines : List Line}
    (h : Admits args file db.tables lines) :
    restoreDatabase sha256 args file fault db =
      ((Txn.transaction (restore sha256 args lines) ⟨(target args db).tables, fault⟩).1,
        { target args db with
          tables := (Txn.transaction (restore sha256 args lines) ⟨(target args db).tables, fault⟩).2.db }) := by
  unfold restoreDatabase
  rw [prepare_eq_ok_iff.mpr h]

/-- What does not get past the checks changes nothing. -/
theorem restoreDatabase_of_not_admits (sha256 : Digest) (fault : Option (Nat × ImportError))
    {args : ImportArgs} {file : Option (List Line)} {db : Database}
    (h : ∀ lines, ¬ Admits args file db.tables lines) :
    ∃ e, restoreDatabase sha256 args file fault db = (.error e, db) := by
  unfold restoreDatabase
  cases hprep : prepare args file db.tables with
  | error e => exact ⟨e, rfl⟩
  | ok lines => exact absurd (prepare_eq_ok_iff.mp hprep) (h lines)

/-- What an import that commits has done. -/
theorem restoreDatabase_ok {sha256 : Digest} {args : ImportArgs} {file : Option (List Line)}
    {fault : Option (Nat × ImportError)} {db db' : Database} {counts : ImportCounts}
    (h : restoreDatabase sha256 args file fault db = (.ok counts, db')) :
    ∃ lines tables, Admits args file db.tables lines ∧
      Restores sha256 args lines (target args db).tables counts tables ∧
      db' = { target args db with tables } := by
  by_cases hadmits : ∃ lines, Admits args file db.tables lines
  · obtain ⟨lines, hlines⟩ := hadmits
    rw [restoreDatabase_of_admits hlines] at h
    have hsettled := Txn.transaction_settled (restore sha256 args lines) ⟨(target args db).tables, fault⟩
    generalize Txn.transaction (restore sha256 args lines) ⟨(target args db).tables, fault⟩ = done
      at h hsettled
    cases hsettled with
    | failed e => cases h
    | committed counts' c' hrun =>
      cases h
      exact ⟨lines, c'.db, hlines, restore_run hrun, rfl⟩
  · obtain ⟨e, he⟩ := restoreDatabase_of_not_admits sha256 fault (not_exists.mp hadmits)
    rw [he] at h
    cases h

/-- **Which imports commit**, where no statement fails by itself, and what they leave. -/
theorem restoreDatabase_eq_ok_iff {sha256 : Digest} {args : ImportArgs} {file : Option (List Line)}
    {db db' : Database} {counts : ImportCounts} :
    restoreDatabase sha256 args file none db = (.ok counts, db') ↔
      ∃ lines tables, Admits args file db.tables lines ∧
        Restores sha256 args lines (target args db).tables counts tables ∧
        db' = { target args db with tables } := by
  constructor
  · exact restoreDatabase_ok
  · rintro ⟨lines, tables, hlines, hrestores, rfl⟩
    rw [restoreDatabase_of_admits hlines, Txn.Passes.transaction (restore_passes hrestores)]

/-- **What an import that does not commit leaves.** -/
theorem restoreDatabase_error {sha256 : Digest} {args : ImportArgs} {file : Option (List Line)}
    {fault : Option (Nat × ImportError)} {db db' : Database} {e : ImportError}
    (h : restoreDatabase sha256 args file fault db = (.error e, db')) :
    ((∀ lines, ¬ Admits args file db.tables lines) ∧ db' = db) ∨
      ((∃ lines, Admits args file db.tables lines) ∧ db' = target args db) := by
  by_cases hadmits : ∃ lines, Admits args file db.tables lines
  · refine .inr ⟨hadmits, ?_⟩
    obtain ⟨lines, hlines⟩ := hadmits
    rw [restoreDatabase_of_admits hlines] at h
    have hsettled := Txn.transaction_settled (restore sha256 args lines) ⟨(target args db).tables, fault⟩
    generalize Txn.transaction (restore sha256 args lines) ⟨(target args db).tables, fault⟩ = done
      at h hsettled
    cases hsettled with
    | failed e =>
      cases h
      rfl
    | committed counts c' hrun => cases h
  · refine .inl ⟨not_exists.mp hadmits, ?_⟩
    obtain ⟨e', he⟩ := restoreDatabase_of_not_admits sha256 fault (not_exists.mp hadmits)
    rw [he] at h
    cases h
    rfl

/-! ## What is verified -/

theorem toNat_toUInt64_inj {id id' : Int64} (h : id.toUInt64.toNat = id'.toUInt64.toNat) : id = id' := by
  obtain ⟨n⟩ := id
  obtain ⟨n'⟩ := id'
  exact congrArg Int64.ofUInt64 (UInt64.toNat_inj.mp h)

/-- The entries that are verified are those of the table. -/
theorem mem_loadEntries {db : Db} {e : EntryRecord} :
    e ∈ loadEntries db ↔ ∃ id c, (db .entries).lookup id = some c ∧ entryRecord id c = e := by
  unfold loadEntries
  rw [List.mem_map]
  constructor
  · rintro ⟨⟨id, c⟩, hmem, rfl⟩
    rw [(List.perm_insertionSort _ _).mem_iff] at hmem
    exact ⟨id, c, HashMap.mem_pairs.mp hmem, rfl⟩
  · rintro ⟨id, c, hc, rfl⟩
    exact ⟨(id, c), (List.perm_insertionSort _ _).mem_iff.mpr (HashMap.mem_pairs.mpr hc), rfl⟩

theorem loadEntries_ids_nodup (db : Db) : ((loadEntries db).map EntryRecord.id).Nodup := by
  have hids : (loadEntries db).map EntryRecord.id =
      (((db .entries).pairs.insertionSort fun e e' => e.1 ≤ e'.1).map Prod.fst).map
        fun id => id.toUInt64.toNat := by
    unfold loadEntries
    rw [List.map_map, List.map_map]
    rfl
  rw [hids]
  refine List.Nodup.map (fun _ _ => toNat_toUInt64_inj) ?_
  exact ((List.perm_insertionSort _ _).map Prod.fst).nodup_iff.mpr (db .entries).pairs_keys_nodup

/-! ## After the commit -/

/-- What an event adds: its row, and the number it takes. -/
def logged (db : Db) (id : Int64) (event : AuditColumns) : Db :=
  Tables.put (Tables.put db ⟨.counters, "next_audit_id", id⟩) ⟨.auditLog, id, event⟩

theorem nextCounter_run {name : String} {db db' : Db} {v : Int64}
    (h : Txn.Run (nextCounter name) db v db') :
    nextValue ((db .counters).lookup name) = some v ∧ db' = Tables.put db ⟨.counters, name, v⟩ := by
  have hs := Txn.Run.statement h
  split at hs
  · rename_i v' hv
    cases hs
    exact ⟨hv, rfl⟩
  · cases hs

/-- The slot of an event is not that of a counter. -/
theorem at?_put_counter (db : Db) (name : String) (v id : Int64) :
    Tables.at? (Tables.put db ⟨.counters, name, v⟩) ⟨.auditLog, id⟩ = Tables.at? db ⟨.auditLog, id⟩ :=
  Tables.at?_put_ne (by simp [Tables.Rec.slot])

theorem logAuditEvent_run {event : AuditColumns} {db db' : Db} {id : Int64}
    (h : Txn.Run (logAuditEvent event) db id db') :
    nextValue ((db .counters).lookup "next_audit_id") = some id ∧
      Tables.at? db ⟨.auditLog, id⟩ = none ∧ ∃ event', db' = logged db id event' := by
  obtain ⟨id', db₁, hnext, h⟩ := Txn.Run.bind h
  obtain ⟨_, db₂, hinsert, h⟩ := Txn.Run.bind h
  obtain ⟨rfl, rfl⟩ := Txn.Run.ret h
  obtain ⟨hvalue, rfl⟩ := nextCounter_run hnext
  obtain ⟨hadmitted, rfl⟩ := Tables.insert_eq_some_iff.mp (insertRec_run hinsert)
  have hfree := (hadmitted.free.resolve_left Bool.false_ne_true).1
  exact ⟨hvalue, (at?_put_counter db _ id id).symm.trans hfree, _, rfl⟩

/-- The number of the next event is free. -/
def NextEventFree (db : Db) : Prop :=
  ∃ id, nextValue ((db .counters).lookup "next_audit_id") = some id ∧
    Tables.at? db ⟨.auditLog, id⟩ = none

theorem logAuditEvent_passes (event : AuditColumns) {db : Db} {id : Int64}
    (hvalue : nextValue ((db .counters).lookup "next_audit_id") = some id)
    (hfree : Tables.at? db ⟨.auditLog, id⟩ = none) :
    ∃ db', Txn.Passes (logAuditEvent event) db id db' := by
  have hnext : Txn.Passes (nextCounter "next_audit_id") db id
      (Tables.put db ⟨.counters, "next_audit_id", id⟩) := Txn.Passes.statement (by rw [hvalue])
  have hadmitted : ∀ event', Tables.Admitted constraints (Tables.put db ⟨.counters, "next_audit_id", id⟩) []
      ⟨.auditLog, id, event'⟩ := fun event' =>
    ⟨.inr ⟨(at?_put_counter db _ id id).trans hfree, fun _ h => absurd h List.not_mem_nil⟩, rfl,
      fun _ h => absurd h List.not_mem_nil⟩
  have hinsert := fun event' => insertRec_passes (Tables.insert_eq_some_iff.mpr ⟨hadmitted event', rfl⟩)
  exact ⟨_, hnext.bind ((hinsert _).bind (Txn.Passes.ret _ id))⟩

/-- Nothing new, or one event under a free number. -/
def Provenanced (db db' : Db) : Prop :=
  db' = db ∨ ∃ id event, Tables.at? db ⟨.auditLog, id⟩ = none ∧ db' = logged db id event

/-- **What `record_provenance` leaves.** -/
theorem recordProvenance_tables (now : Int64) (input : String) (counts : ImportCounts) (db : Database) :
    Provenanced db.tables (recordProvenance now input counts db).2.tables := by
  have hsettled := Txn.transaction_settled (logAuditEvent (provenance now input counts)) ⟨db.tables, none⟩
  unfold recordProvenance
  generalize Txn.transaction (logAuditEvent (provenance now input counts)) ⟨db.tables, none⟩ = done
    at hsettled ⊢
  cases hsettled with
  | failed e => exact .inl rfl
  | committed id c' hrun =>
    obtain ⟨-, hfree, event, hevent⟩ := logAuditEvent_run hrun
    exact .inr ⟨id, event, hfree, hevent⟩

/-- **When the provenance is recorded.** -/
theorem recordProvenance_eq_ok_iff (now : Int64) (input : String) (counts : ImportCounts) (db : Database) :
    (recordProvenance now input counts db).1 = .ok () ↔ NextEventFree db.tables := by
  unfold recordProvenance
  constructor
  · intro h
    have hsettled := Txn.transaction_settled (logAuditEvent (provenance now input counts)) ⟨db.tables, none⟩
    generalize Txn.transaction (logAuditEvent (provenance now input counts)) ⟨db.tables, none⟩ = done
      at hsettled h
    cases hsettled with
    | failed e => cases h
    | committed id c' hrun =>
      obtain ⟨hvalue, hfree, -⟩ := logAuditEvent_run hrun
      exact ⟨id, hvalue, hfree⟩
  · rintro ⟨id, hvalue, hfree⟩
    obtain ⟨db', hpass⟩ := logAuditEvent_passes (provenance now input counts) hvalue hfree
    rw [Txn.Passes.transaction hpass]
    rfl

/-- **After its commit an import changes nothing** but by its provenance. -/
theorem runImport_tables {sha256 : Digest} {args : ImportArgs} {file : Option (List Line)}
    {fault : Option (Nat × ImportError)} {db db₁ : Database} {counts : ImportCounts}
    (h : restoreDatabase sha256 args file fault db = (.ok counts, db₁)) (reconstruct : Reconstruct)
    (now : Int64) (input : String) :
    Provenanced db₁.tables (runImport sha256 reconstruct now input args file fault db).2.tables := by
  unfold runImport
  rw [h]
  dsimp only
  split
  · exact .inl rfl
  · exact recordProvenance_tables now input counts _

theorem at?_logged {db : Db} {id : Int64} {event : AuditColumns} {s : Tables.Slot Table.Key}
    (hcounter : s ≠ ⟨.counters, "next_audit_id"⟩) (haudit : s ≠ ⟨.auditLog, id⟩) :
    Tables.at? (logged db id event) s = Tables.at? db s := by
  unfold logged
  rw [Tables.at?_put_ne haudit, Tables.at?_put_ne hcounter]

/-- What is stored stays, but for the counter. -/
theorem Provenanced.at?_eq {db db' : Db} (h : Provenanced db db') {s : Tables.Slot Table.Key}
    (hcounter : s ≠ ⟨.counters, "next_audit_id"⟩) (hs : (Tables.at? db s).isSome = true) :
    Tables.at? db' s = Tables.at? db s := by
  rcases h with rfl | ⟨id, event, hfree, rfl⟩
  · rfl
  · refine at?_logged hcounter ?_
    rintro rfl
    rw [hfree] at hs
    cases hs

/-- What is new is the counter or an event. -/
theorem Provenanced.new {db db' : Db} (h : Provenanced db db') {s : Tables.Slot Table.Key}
    (hs : Tables.at? db s = none) (hs' : (Tables.at? db' s).isSome = true) :
    s = ⟨.counters, "next_audit_id"⟩ ∨ s.1 = .auditLog := by
  rcases h with rfl | ⟨id, event, -, rfl⟩
  · rw [hs] at hs'
    cases hs'
  · by_cases hcounter : s = ⟨.counters, "next_audit_id"⟩
    · exact .inl hcounter
    · by_cases haudit : s = ⟨.auditLog, id⟩
      · exact .inr (congrArg Sigma.fst haudit)
      · rw [at?_logged hcounter haudit, hs] at hs'
        cases hs'

/-- There is one new event. -/
theorem Provenanced.one {db db' : Db} (h : Provenanced db db') {id id' : Int64}
    (hid : Tables.at? db ⟨.auditLog, id⟩ = none) (hid' : Tables.at? db ⟨.auditLog, id'⟩ = none)
    (hnew : (Tables.at? db' ⟨.auditLog, id⟩).isSome = true)
    (hnew' : (Tables.at? db' ⟨.auditLog, id'⟩).isSome = true) : id = id' := by
  rcases h with rfl | ⟨id₀, event, -, rfl⟩
  · rw [hid] at hnew
    cases hnew
  · have hsame : ∀ id₁, Tables.at? db ⟨.auditLog, id₁⟩ = none →
        (Tables.at? (logged db id₀ event) ⟨.auditLog, id₁⟩).isSome = true → id₁ = id₀ := by
      intro id₁ hfree hsome
      by_contra hne
      have hslot : (⟨.auditLog, id₁⟩ : Tables.Slot Table.Key) ≠ ⟨.auditLog, id₀⟩ := by
        intro heq
        cases heq
        exact hne rfl
      rw [at?_logged (by simp) hslot, hfree] at hsome
      cases hsome
    rw [hsame id hid hnew, hsame id' hid' hnew']

end Unimatrix.Backup
