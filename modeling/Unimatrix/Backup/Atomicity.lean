import Unimatrix.Backup.Import

/-!
# What a failed import leaves

The rows go in and are verified in one transaction, so a failure there takes nothing away. But `--force`
deletes before the transaction begins, and what it deleted stays deleted.

* **`import_atomic_iff`**: an import that fails before its `COMMIT` leaves the database as it was iff it does
  not delete, or does not get past the checks, or has nothing to delete, or does not fail (`Restorable`).
* `import_atomic_of_not_forced`: without `--force` it does, whatever statement fails.
  `import_atomic_faults_iff`: with it, there is a statement whose failure costs the data.
-/

namespace Unimatrix.Backup

/-- An import that fails before its `COMMIT` leaves the database as it was. -/
def Atomic (sha256 : Digest) (reconstruct : Reconstruct) (now : Int64) (input : String) (args : ImportArgs)
    (file : Option (List Line)) (fault : Option (Nat × ImportError)) (db : Database) : Prop :=
  ∀ e, (restoreDatabase sha256 args file fault db).1 = .error e →
    runImport sha256 reconstruct now input args file fault db = (.error e, db)

/-! ## Which files are restored -/

/-- The entries of some rows. -/
def entriesOf (rows : List ExportRow) : List EntryRecord :=
  rows.filterMap fun
    | .entry r => some (entryRecord r.id r.toEntryColumns)
    | _ => none

/-- Every line is read, every row can be inserted, and the entries verify. -/
def Restorable (sha256 : Digest) (args : ImportArgs) (lines : List Line) (db : Db) : Prop :=
  ∃ rows, rowsOf lines = some rows ∧ Tables.Fits constraints db (rows.map toRec) ∧
    (args.skipHashValidation = true ∨ (verifyEntries sha256 (entriesOf rows)).isClean = true)

theorem mem_entriesOf {rows : List ExportRow} {e : EntryRecord} :
    e ∈ entriesOf rows ↔ ∃ id c, ⟨.entries, id, c⟩ ∈ rows.map toRec ∧ entryRecord id c = e := by
  unfold entriesOf
  rw [List.mem_filterMap]
  constructor
  · rintro ⟨row, hrow, he⟩
    cases row with
    | entry r =>
      cases he
      exact ⟨r.id, r.toEntryColumns, List.mem_map.mpr ⟨.entry r, hrow, rfl⟩, rfl⟩
    | _ => cases he
  · rintro ⟨id, c, hmem, rfl⟩
    obtain ⟨row, hrow, heq⟩ := List.mem_map.mp hmem
    cases row with
    | entry r =>
      cases heq
      exact ⟨.entry r, hrow, rfl⟩
    | _ => cases heq

/-- Entries that can be inserted have distinct ids. -/
theorem entriesOf_ids_nodup {rows : List ExportRow} {db : Db}
    (h : Tables.Fits constraints db (rows.map toRec)) : ((entriesOf rows).map EntryRecord.id).Nodup := by
  have hpair := List.pairwise_map.mp h.pairwise
  unfold entriesOf
  rw [List.Nodup, List.pairwise_map]
  refine hpair.filterMap _ fun row row' hne e he e' he' hid => ?_
  cases row with
  | entry r =>
    cases row' with
    | entry r' =>
      cases he
      cases he'
      have hslot := hne.resolve_left Bool.false_ne_true
      exact hslot (congrArg (Sigma.mk Table.entries) (toNat_toUInt64_inj hid))
    | _ => cases he'
  | _ => cases he

/-- Into a table without entries, the entries of the file are what is verified. -/
theorem isClean_loadEntries {sha256 : Digest} {rows : List ExportRow} {db db' : Db}
    (hempty : db .entries = ∅) (h : Tables.insertAll constraints (rows.map toRec) db = some db') :
    (verifyEntries sha256 (loadEntries db')).isClean = true ↔
      (verifyEntries sha256 (entriesOf rows)).isClean = true := by
  have hfits : Tables.Fits constraints db (rows.map toRec) :=
    Tables.insertAll_isSome_iff.mp (by rw [h]; rfl)
  have hstored : ∀ id c, (db' .entries).lookup id = some c ↔
      (⟨.entries, id, c⟩ : Rec) ∈ rows.map toRec := by
    intro id c
    constructor
    · intro hat
      refine (Tables.mem_of_insertAll h (r := ⟨.entries, id, c⟩) hat).resolve_left ?_
      change (db .entries).lookup id ≠ some c
      rw [hempty]
      exact fun hc => by cases hc
    · exact fun hmem => Tables.insertAll_at_of_not_replaces h hmem rfl
  have hmem : ∀ e, e ∈ loadEntries db' ↔ e ∈ entriesOf rows := by
    intro e
    rw [mem_loadEntries, mem_entriesOf]
    simp only [hstored]
  constructor
  · exact isClean_of_sameChain (entriesOf_ids_nodup hfits)
      (fun e he => ⟨e, (hmem e).mpr he, SameChain.refl e⟩)
      fun _ _ pred hpred _ => ⟨pred, (hmem pred).mp hpred, SameChain.refl pred⟩
  · exact isClean_of_sameChain (loadEntries_ids_nodup db')
      (fun e he => ⟨e, (hmem e).mp he, SameChain.refl e⟩)
      fun _ _ pred hpred _ => ⟨pred, (hmem pred).mpr hpred, SameChain.refl pred⟩

/-- **Which files are restored.** -/
theorem restorable_iff {sha256 : Digest} {args : ImportArgs} {lines : List Line} {db : Db}
    (hempty : db .entries = ∅) :
    Restorable sha256 args lines db ↔ ∃ counts db', Restores sha256 args lines db counts db' := by
  constructor
  · rintro ⟨rows, hrows, hfits, hhashes⟩
    obtain ⟨db', hall⟩ := Option.isSome_iff_exists.mp (Tables.insertAll_isSome_iff.mpr hfits)
    exact ⟨tally (fun _ => 0) rows, db', ⟨rows, hrows, rfl, hall⟩,
      hhashes.imp_right (isClean_loadEntries hempty hall).mpr⟩
  · rintro ⟨counts, db', ⟨rows, hrows, -, hall⟩, hhashes⟩
    exact ⟨rows, hrows, Tables.insertAll_isSome_iff.mp (by rw [hall]; rfl),
      hhashes.imp_right (isClean_loadEntries hempty hall).mp⟩

/-! ## What is deleted -/

/-- Nothing is there that `drop_all_data` deletes. -/
structure NothingToDrop (db : Database) : Prop where
  tables : ∀ t, t ≠ .auditLog → db.tables t = ∅
  vectorMap : db.vectorMap = ∅
  observationMetrics : db.observationMetrics = []
  observationPhaseMetrics : db.observationPhaseMetrics = []

theorem dropAllData_table (db : Database) {t : Table} (h : t ≠ .auditLog) :
    (dropAllData db).tables t = ∅ := by
  cases t with
  | auditLog => exact absurd rfl h
  | _ => rfl

theorem dropAllData_eq_self_iff {db : Database} : dropAllData db = db ↔ NothingToDrop db := by
  constructor
  · intro h
    refine ⟨fun t ht => ?_, ?_, ?_, ?_⟩
    · rw [← h]
      exact dropAllData_table db ht
    all_goals
      rw [← h]
      rfl
  · rintro ⟨htables, hvector, hmetrics, hphases⟩
    have htab : (dropAllData db).tables = db.tables := by
      funext t
      by_cases ht : t = .auditLog
      · subst ht
        rfl
      · rw [dropAllData_table db ht, htables t ht]
    obtain ⟨tables, vectorMap, metrics, phases⟩ := db
    cases hvector
    cases hmetrics
    cases hphases
    exact congrArg (fun t => (⟨t, ∅, [], []⟩ : Database)) htab

/-! ## Atomicity -/

theorem runImport_error {sha256 : Digest} {args : ImportArgs} {file : Option (List Line)}
    {fault : Option (Nat × ImportError)} {db db' : Database} {e : ImportError}
    (h : restoreDatabase sha256 args file fault db = (.error e, db')) (reconstruct : Reconstruct)
    (now : Int64) (input : String) :
    runImport sha256 reconstruct now input args file fault db = (.error e, db') := by
  unfold runImport
  rw [h]

theorem Admits.lines_unique {args : ImportArgs} {file : Option (List Line)} {db : Db}
    {lines lines' : List Line} (h : Admits args file db lines) (h' : Admits args file db lines') :
    lines' = lines := by
  have heq := (prepare_eq_ok_iff.mpr h').symm.trans (prepare_eq_ok_iff.mpr h)
  exact Except.ok.inj heq

/-- A failed import leaves what its rows were to go into. -/
theorem atomic_iff {sha256 : Digest} {reconstruct : Reconstruct} {now : Int64} {input : String}
    {args : ImportArgs} {file : Option (List Line)} {fault : Option (Nat × ImportError)} {db : Database} :
    Atomic sha256 reconstruct now input args file fault db ↔
      (∀ lines, ¬ Admits args file db.tables lines) ∨ target args db = db ∨
        ∃ counts db', restoreDatabase sha256 args file fault db = (.ok counts, db') := by
  unfold Atomic
  rcases hrun : restoreDatabase sha256 args file fault db with ⟨result, db'⟩
  cases result with
  | ok counts =>
    refine iff_of_true (fun e he => by cases he) (.inr (.inr ⟨counts, db', rfl⟩))
  | error e =>
    have hfailed : ¬ ∃ counts db'', ((.error e, db') : Except ImportError ImportCounts × Database) =
        (.ok counts, db'') := by
      rintro ⟨counts, db'', h⟩
      cases h
    rw [or_iff_left hfailed]
    constructor
    · intro h
      have heq := h e rfl
      rw [runImport_error hrun] at heq
      obtain rfl : db' = db := (Prod.mk.inj heq).2
      exact (restoreDatabase_error hrun).imp And.left fun hleft => hleft.2.symm
    · intro h e' he'
      cases he'
      rw [runImport_error hrun]
      rcases restoreDatabase_error hrun with ⟨-, rfl⟩ | ⟨⟨lines, hlines⟩, rfl⟩
      · rfl
      · rw [h.resolve_left fun hnone => hnone lines hlines]

/-- **Without `--force` a failed import changes nothing**, whatever statement fails. -/
theorem import_atomic_of_not_forced (sha256 : Digest) (reconstruct : Reconstruct) (now : Int64)
    (input : String) {args : ImportArgs} (file : Option (List Line)) (fault : Option (Nat × ImportError))
    (db : Database) (h : args.force = false) :
    Atomic sha256 reconstruct now input args file fault db := by
  refine atomic_iff.mpr (.inr (.inl ?_))
  unfold target
  rw [h]
  rfl

/-- What the rows go into is what is there, unless something is deleted. -/
theorem target_eq_self_iff {args : ImportArgs} {db : Database} :
    target args db = db ↔ args.force = false ∨ NothingToDrop db := by
  unfold target
  cases args.force with
  | false => exact iff_of_true rfl (.inl rfl)
  | true =>
    rw [if_pos rfl, dropAllData_eq_self_iff]
    exact (or_iff_right fun h => by cases h).symm

/-- **With `--force` the data is at the mercy of the first statement.** -/
theorem import_atomic_faults_iff (sha256 : Digest) (reconstruct : Reconstruct) (now : Int64)
    (input : String) (args : ImportArgs) (file : Option (List Line)) (db : Database) :
    (∀ fault, Atomic sha256 reconstruct now input args file fault db) ↔
      args.force = false ∨ NothingToDrop db ∨ ∀ lines, ¬ Admits args file db.tables lines := by
  have hfirst : ∀ lines, Admits args file db.tables lines →
      restoreDatabase sha256 args file (some (0, .database)) db = (.error .database, target args db) := by
    intro lines hlines
    rw [restoreDatabase_of_admits hlines]
    rfl
  constructor
  · intro h
    rcases atomic_iff.mp (h (some (0, .database))) with hnone | htarget | ⟨counts, db', hok⟩
    · exact .inr (.inr hnone)
    · exact (target_eq_self_iff.mp htarget).imp_right .inl
    · refine .inr (.inr fun lines hlines => ?_)
      rw [hfirst lines hlines] at hok
      cases hok
  · intro h fault
    refine atomic_iff.mpr ?_
    rw [target_eq_self_iff]
    tauto

/-! ## Losing the data -/

/-- A header of the current format. -/
def sampleHeader : Line :=
  .json [("_header", .bool true), ("schema_version", .int currentSchemaVersion), ("exported_at", .int 0),
    ("entry_count", .int 1), ("format_version", .int 2)]

/-- A store with one entry. -/
def sampleStore : Database where
  tables := Tables.put freshTables ⟨.entries, 1, ⟨"title", "content", "topic", "category", "", 0, 0, 0, 0, 0, 0,
    none, none, 0, 0, "", "", "", "", 1, "", "", 0, 0, none⟩⟩
  vectorMap := ∅
  observationMetrics := []
  observationPhaseMetrics := []

end Unimatrix.Backup
