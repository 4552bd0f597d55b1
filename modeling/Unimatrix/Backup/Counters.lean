import Unimatrix.Backup.Import

/-!
# The counters after an import

The counters of the file replace those of the store, whatever the file says of the entries and the events,
and with `--force` those of the store are deleted first. `audit_log` is not.

* `lookup_counters_restored`: a counter after the rows went in (`counterAfter`).
* **`runImport_usable_iff`**: when an import that succeeds leaves the store usable (`Usable`): the counters of
  the file fit the store and the rows (`CountersCover`). `Usable.next_free`: then no number is given twice.
* `forced_import_reuses_ids`: an import whose next events collide with those the store kept.
-/

namespace Unimatrix.Backup

/-! ## A usable store -/

/-- The value of a counter; `next_counter` starts at 0 where there is none. -/
def counterValue (db : Db) (name : String) : Int64 := ((db .counters).lookup name).getD 0

/-- The store is usable as before: its schema is what it was, and its counters are ahead of its rows. -/
structure Usable (db db' : Db) : Prop where
  schema : (db' .counters).lookup "schema_version" = (db .counters).lookup "schema_version"
  entries : ∀ id, ((db' .entries).lookup id).isSome = true → id ≤ counterValue db' "next_entry_id"
  audit : ∀ id, ((db' .auditLog).lookup id).isSome = true → id ≤ counterValue db' "next_audit_id"

theorem toInt_add_one {w : Int64} (h : w ≠ Int64.maxValue) : (w + 1).toInt = w.toInt + 1 := by
  have hmax : w.toInt ≠ 2 ^ 63 - 1 := fun heq =>
    h (Int64.toInt_inj.mp (heq.trans Int64.toInt_maxValue.symm))
  have hlow := w.le_toInt
  have hhigh := w.toInt_lt
  rw [Int64.toInt_add, Int64.toInt_one]
  exact Int.bmod_eq_of_le (by omega) (by omega)

theorem lt_nextValue_iff {v : Option Int64} {next id : Int64} (h : nextValue v = some next) :
    id < next ↔ id ≤ v.getD 0 := by
  have hnext : next.toInt = (v.getD 0).toInt + 1 := by
    unfold nextValue at h
    split at h
    · cases h
      rfl
    · split at h
      · cases h
      · rename_i hmax
        cases h
        exact toInt_add_one hmax
  rw [Int64.lt_iff_toInt_lt, Int64.le_iff_toInt_le, hnext]
  exact Int.lt_add_one_iff

/-- **The next entry and the next event of a usable store have numbers that are free.** -/
theorem Usable.next_free {db db' : Db} (h : Usable db db') :
    (∀ id, nextValue ((db' .counters).lookup "next_entry_id") = some id → (db' .entries).lookup id = none) ∧
    ∀ id, nextValue ((db' .counters).lookup "next_audit_id") = some id →
      (db' .auditLog).lookup id = none := by
  refine ⟨fun id hid => ?_, fun id hid => ?_⟩
  · rw [← Option.not_isSome_iff_eq_none]
    intro hsome
    exact Int64.lt_irrefl ((lt_nextValue_iff hid).mpr (h.entries id hsome))
  · rw [← Option.not_isSome_iff_eq_none]
    intro hsome
    exact Int64.lt_irrefl ((lt_nextValue_iff hid).mpr (h.audit id hsome))

/-! ## What the rows leave -/

/-- What a row leaves of a counter. -/
def counterStep (name : String) (v : Option Int64) : Rec → Option Int64
  | ⟨.counters, name', w⟩ => if name' = name then some w else v
  | _ => v

/-- A counter after some rows: the last of its name, or what it was. -/
def counterAfter (name : String) (v : Option Int64) (rows : List Rec) : Option Int64 :=
  rows.foldl (counterStep name) v

theorem lookup_counters_put (name : String) (db : Db) (r : Rec) :
    (Tables.put db r .counters).lookup name = counterStep name ((db .counters).lookup name) r := by
  obtain ⟨t, k, v⟩ := r
  by_cases ht : t = .counters
  · subst ht
    have hput : Tables.put db ⟨.counters, k, v⟩ .counters = (db .counters).insert k v :=
      Function.update_self _ _ _
    rw [hput, HashMap.lookup_insert_eq]
    unfold counterStep
    simp only [eq_comm]
  · have hput : Tables.put db ⟨t, k, v⟩ .counters = db .counters := Function.update_of_ne (Ne.symm ht) _ _
    rw [hput]
    cases t with
    | counters => exact absurd rfl ht
    | _ => rfl

/-- **A counter after the rows went in.** -/
theorem lookup_counters_restored {name : String} {rows : List Rec} {db db' : Db}
    (h : Tables.insertAll constraints rows db = some db') :
    (db' .counters).lookup name = counterAfter name ((db .counters).lookup name) rows := by
  induction rows generalizing db with
  | nil =>
    cases h
    rfl
  | cons r rows ih =>
    obtain ⟨db₁, h₁, h₂⟩ := Option.bind_eq_some_iff.mp h
    obtain ⟨-, rfl⟩ := Tables.insert_eq_some_iff.mp h₁
    rw [ih h₂, lookup_counters_put]
    rfl

/-- The rows of a file that can be read. -/
def fileRows (file : Option (List Line)) : List Rec :=
  match openFile file with
  | .error _ => []
  | .ok (_, lines) => ((rowsOf lines).getD []).map toRec

/-- A counter as the import finds it: `--force` deletes it. -/
def counterBefore (args : ImportArgs) (db : Db) (name : String) : Option Int64 :=
  if args.force then none else (db .counters).lookup name

/-- The counters of the file, or those it leaves, fit the store, its events and the rows of the file. -/
structure CountersCover (args : ImportArgs) (file : Option (List Line)) (db : Db) : Prop where
  schema : counterAfter "schema_version" (counterBefore args db "schema_version") (fileRows file) =
    (db .counters).lookup "schema_version"
  entries : ∀ r ∈ fileRows file, ∀ id, r.slot = ⟨.entries, id⟩ →
    id ≤ (counterAfter "next_entry_id" (counterBefore args db "next_entry_id") (fileRows file)).getD 0
  events : ∀ r ∈ fileRows file, ∀ id, r.slot = ⟨.auditLog, id⟩ →
    id ≤ (counterAfter "next_audit_id" (counterBefore args db "next_audit_id") (fileRows file)).getD 0
  kept : ∀ id, ((db .auditLog).lookup id).isSome = true →
    id ≤ (counterAfter "next_audit_id" (counterBefore args db "next_audit_id") (fileRows file)).getD 0

/-! ## What the import leaves -/

/-- A run of `run_import` that returns `Ok`. -/
structure SuccessfulImport where
  sha256 : Digest
  reconstruct : Reconstruct
  now : Int64
  input : String
  args : ImportArgs
  file : Option (List Line)
  fault : Option (Nat × ImportError)
  db : Database
  ok : (runImport sha256 reconstruct now input args file fault db).1 = .ok ()

/-- The store after the import. -/
def SuccessfulImport.after (i : SuccessfulImport) : Database :=
  (runImport i.sha256 i.reconstruct i.now i.input i.args i.file i.fault i.db).2

/-- What a successful import has done: the rows of the file went in, and one event under the next number. -/
structure Committed (args : ImportArgs) (file : Option (List Line)) (db : Database) (restored : Db)
    (id : Int64) : Prop where
  entries : (db.tables .entries).len = 0 ∨ args.force = true
  rows : Tables.insertAll constraints (fileRows file) (target args db).tables = some restored
  next : nextValue ((restored .counters).lookup "next_audit_id") = some id
  free : Tables.at? restored ⟨.auditLog, id⟩ = none

theorem recordProvenance_ok {now : Int64} {input : String} {counts : ImportCounts} {db : Database}
    (h : (recordProvenance now input counts db).1 = .ok ()) :
    ∃ id event, nextValue ((db.tables .counters).lookup "next_audit_id") = some id ∧
      Tables.at? db.tables ⟨.auditLog, id⟩ = none ∧
      (recordProvenance now input counts db).2.tables = logged db.tables id event := by
  have hsettled := Txn.transaction_settled (logAuditEvent (provenance now input counts)) ⟨db.tables, none⟩
  unfold recordProvenance at h ⊢
  generalize Txn.transaction (logAuditEvent (provenance now input counts)) ⟨db.tables, none⟩ = done
    at hsettled h ⊢
  cases hsettled with
  | failed e => cases h
  | committed id c' hrun =>
    obtain ⟨hvalue, hfree, event, hevent⟩ := logAuditEvent_run hrun
    exact ⟨id, event, hvalue, hfree, hevent⟩

theorem SuccessfulImport.imported (i : SuccessfulImport) :
    ∃ restored id event, Committed i.args i.file i.db restored id ∧
      i.after.tables = logged restored id event := by
  have h := i.ok
  unfold SuccessfulImport.after
  unfold runImport at h ⊢
  rcases hrun : restoreDatabase i.sha256 i.args i.file i.fault i.db with ⟨result, db₁⟩
  rw [hrun] at h
  cases result with
  | error e => cases h
  | ok counts =>
    dsimp only at h ⊢
    rcases hrec : i.reconstruct db₁ with ⟨result, vectorMap⟩
    rw [hrec] at h
    cases result with
    | error e => cases h
    | ok u =>
      dsimp only at h ⊢
      obtain ⟨lines, tables, hadmits, hrestores, rfl⟩ := restoreDatabase_ok hrun
      obtain ⟨rows, hrows, -, hall⟩ := hrestores.rows
      obtain ⟨header, v, hopen, -⟩ := hadmits.header
      obtain ⟨id, event, hnext, hfree, heq⟩ := recordProvenance_ok h
      have hfile : fileRows i.file = rows.map toRec := by
        unfold fileRows
        rw [hopen]
        dsimp only
        rw [hrows, Option.getD_some]
      exact ⟨tables, id, event, ⟨hadmits.entries, by rwa [hfile], hnext, hfree⟩, heq⟩

theorem logged_entries (db : Db) (id : Int64) (event : AuditColumns) :
    logged db id event .entries = db .entries := by
  unfold logged Tables.put
  rw [Function.update_of_ne (fun h => by cases h), Function.update_of_ne (fun h => by cases h)]

theorem lookup_counters_logged (db : Db) (id : Int64) (event : AuditColumns) (name : String) :
    (logged db id event .counters).lookup name =
      if name = "next_audit_id" then some id else (db .counters).lookup name := by
  unfold logged Tables.put
  rw [Function.update_of_ne (fun h => by cases h), Function.update_self]
  exact HashMap.lookup_insert_eq _ _ _ _

theorem lookup_auditLog_logged (db : Db) (id : Int64) (event : AuditColumns) (id' : Int64) :
    (logged db id event .auditLog).lookup id' = if id' = id then some event else (db .auditLog).lookup id' := by
  unfold logged Tables.put
  rw [Function.update_self, Function.update_of_ne (fun h => by cases h)]
  exact HashMap.lookup_insert_eq _ _ _ _

namespace Committed

variable {args : ImportArgs} {file : Option (List Line)} {db : Database} {restored : Db} {id : Int64}

theorem counter (h : Committed args file db restored id) (name : String) :
    (restored .counters).lookup name = counterAfter name (counterBefore args db.tables name) (fileRows file) := by
  rw [lookup_counters_restored h.rows]
  congr 1
  unfold target counterBefore
  cases args.force <;> rfl

/-- The entries are those of the file. -/
theorem isSome_entries (h : Committed args file db restored id) (id' : Int64) :
    ((restored .entries).lookup id').isSome = true ↔ ∃ r ∈ fileRows file, r.slot = ⟨.entries, id'⟩ := by
  have hempty : ((target args db).tables .entries).lookup id' = none := by
    unfold target
    cases hforce : args.force with
    | true => rfl
    | false =>
      have hnil : (db.tables .entries).entries = [] := by
        refine List.eq_nil_of_length_eq_zero (h.entries.resolve_right ?_)
        rw [hforce]
        exact Bool.false_ne_true
      have hnone : (db.tables .entries).lookup id' = none := by
        rw [AList.lookup, hnil]
        rfl
      exact hnone
  have hiff := Tables.isSome_insertAll h.rows (s := ⟨.entries, id'⟩)
  unfold Tables.at? at hiff
  rw [hiff, hempty]
  simp

/-- The events are those that were kept and those of the file. -/
theorem isSome_audit (h : Committed args file db restored id) (id' : Int64) :
    ((restored .auditLog).lookup id').isSome = true ↔
      ((db.tables .auditLog).lookup id').isSome = true ∨ ∃ r ∈ fileRows file, r.slot = ⟨.auditLog, id'⟩ := by
  have hkept : (target args db).tables .auditLog = db.tables .auditLog := by
    unfold target
    cases args.force <;> rfl
  have hiff := Tables.isSome_insertAll h.rows (s := ⟨.auditLog, id'⟩)
  unfold Tables.at? at hiff
  rw [hiff, hkept]

/-- The event takes a number below which everything lies that was there iff the counter did. -/
theorem audit_iff (h : Committed args file db restored id) (event : AuditColumns) :
    (∀ id', ((logged restored id event .auditLog).lookup id').isSome = true → id' ≤ id) ↔
      ∀ id', ((restored .auditLog).lookup id').isSome = true →
        id' ≤ (counterAfter "next_audit_id" (counterBefore args db.tables "next_audit_id") (fileRows file)).getD 0 := by
  rw [← h.counter]
  constructor
  · intro hle id' hid'
    have hne : id' ≠ id := by
      rintro rfl
      have hfree : (restored .auditLog).lookup id' = none := h.free
      rw [hfree] at hid'
      cases hid'
    rw [← lt_nextValue_iff h.next]
    refine Int64.lt_of_le_of_ne (hle id' ?_) hne
    rwa [lookup_auditLog_logged, if_neg hne]
  · intro hle id' hid'
    rw [lookup_auditLog_logged] at hid'
    by_cases heq : id' = id
    · rw [heq]
      exact Int64.le_refl id
    · rw [if_neg heq] at hid'
      exact Int64.le_of_lt ((lt_nextValue_iff h.next).mpr (hle id' hid'))

theorem usable_iff (h : Committed args file db restored id) (event : AuditColumns) :
    Usable db.tables (logged restored id event) ↔ CountersCover args file db.tables := by
  have hcounter : ∀ name, name ≠ "next_audit_id" → (logged restored id event .counters).lookup name =
      counterAfter name (counterBefore args db.tables name) (fileRows file) := by
    intro name hname
    rw [lookup_counters_logged, if_neg hname, h.counter]
  have hnext : counterValue (logged restored id event) "next_audit_id" = id := by
    unfold counterValue
    rw [lookup_counters_logged, if_pos rfl, Option.getD_some]
  have hvalue : counterValue (logged restored id event) "next_entry_id" =
      (counterAfter "next_entry_id" (counterBefore args db.tables "next_entry_id") (fileRows file)).getD 0 := by
    unfold counterValue
    rw [hcounter _ (by decide)]
  have haudit := h.audit_iff event
  simp only [h.isSome_audit] at haudit
  constructor
  · rintro ⟨hschema, hentries, hevents⟩
    rw [hcounter _ (by decide)] at hschema
    rw [hvalue] at hentries
    rw [hnext, haudit] at hevents
    refine ⟨hschema, fun r hr id' hslot => hentries id' ?_, fun r hr id' hslot => ?_, fun id' hid' => ?_⟩
    · rw [logged_entries, h.isSome_entries]
      exact ⟨r, hr, hslot⟩
    · exact hevents id' (.inr ⟨r, hr, hslot⟩)
    · exact hevents id' (.inl hid')
  · rintro ⟨hschema, hentries, hevents, hkept⟩
    refine ⟨(hcounter _ (by decide)).trans hschema, fun id' hid' => ?_, ?_⟩
    · rw [logged_entries, h.isSome_entries] at hid'
      obtain ⟨r, hr, hslot⟩ := hid'
      rw [hvalue]
      exact hentries r hr id' hslot
    · rw [hnext, haudit]
      rintro id' (hid' | ⟨r, hr, hslot⟩)
      · exact hkept id' hid'
      · exact hevents r hr id' hslot

end Committed

/-- **When an import leaves the store usable**: when the counters of the file fit. Then the next entry and the
next event take numbers that are free. -/
theorem runImport_usable_iff (i : SuccessfulImport) :
    (Usable i.db.tables i.after.tables ↔ CountersCover i.args i.file i.db.tables) ∧
    (Usable i.db.tables i.after.tables →
      (∀ id, nextValue ((i.after.tables .counters).lookup "next_entry_id") = some id →
        (i.after.tables .entries).lookup id = none) ∧
      ∀ id, nextValue ((i.after.tables .counters).lookup "next_audit_id") = some id →
        (i.after.tables .auditLog).lookup id = none) := by
  refine ⟨?_, Usable.next_free⟩
  obtain ⟨restored, id, event, himported, heq⟩ := i.imported
  rw [heq]
  exact himported.usable_iff event

/-! ## A number given twice -/

/-- A store whose first events were pruned. -/
def prunedStore : Database where
  tables := Tables.put (Tables.put freshTables ⟨.counters, "next_audit_id", 5⟩)
    ⟨.auditLog, 5, provenance 0 "backup.jsonl" fun _ => 0⟩
  vectorMap := ∅
  observationMetrics := []
  observationPhaseMetrics := []

theorem usable_prunedStore : Usable prunedStore.tables prunedStore.tables where
  schema := rfl
  entries := by
    intro id h
    cases h
  audit := by
    intro id h
    have hlookup : (prunedStore.tables .auditLog).lookup id =
        if id = 5 then some (provenance 0 "backup.jsonl" fun _ => 0) else none :=
      HashMap.lookup_insert_eq _ _ _ _
    rw [hlookup] at h
    by_cases hid : id = 5
    · subst hid
      decide +kernel
    · rw [if_neg hid] at h
      cases h

/-- The export of a fresh store, forced into that one. -/
def forcedImport : SuccessfulImport where
  sha256 := fun _ => Vector.replicate 32 0
  reconstruct := fun db => (.ok (), db.vectorMap)
  now := 0
  input := "backup.jsonl"
  args := ⟨none, false, true⟩
  file := exportedFile some 0 false false freshTables
  fault := none
  db := prunedStore
  ok := by rfl

/-- The events are numbered from 1 again, and event 5 is there. -/
theorem forced_import_reuses_ids :
    ¬ ∀ i : SuccessfulImport, i.args.skipHashValidation = false → Usable i.db.tables i.db.tables →
      Usable i.db.tables i.after.tables := by
  intro hclaim
  have hle := (hclaim forcedImport rfl usable_prunedStore).audit 5 (by decide +kernel)
  exact absurd hle (by decide +kernel)

end Unimatrix.Backup
