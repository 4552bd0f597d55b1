import Unimatrix.Backup.Atomicity

/-!
# From a store to its backup and back

What an import of an exported file stores, and when it commits.

* The source is a store as `SqlxStore::open` leaves it (`Opened`), and the target a fresh one.
* **`restoreDatabase_exported`**: an import of an exported file commits iff every number that was written is
  read and the entries it stores verify; it then stores the rows that were written (`Imported`).
* **`roundTrip_iff`**: the rows come back as documented iff no column that is not written differs from its
  default, every number is read back as it is, and validation is skipped or passes.
-/

namespace Unimatrix.Backup

/-! ## The source -/

/-- What `SqlxStore::open` leaves: the constraints hold, the counters are there, the schema is current. -/
structure Opened (src : Db) : Prop where
  consistent : Tables.Consistent constraints src
  counters : ∀ name ∈ initialCounters.map Prod.fst, ((src .counters).lookup name).isSome = true
  schemaVersion : (src .counters).lookup "schema_version" = some currentSchemaVersion

/-- A slug, where there is one, resolves to a store no daemon has open. -/
def GatesOpen (args : ImportArgs) : Prop :=
  ∀ gates, args.slug = some gates → gates.resolves = true ∧ gates.daemonAlive = false

theorem gatesOpen_of_no_slug {args : ImportArgs} (h : args.slug = none) : GatesOpen args := by
  intro gates hgates
  rw [h] at hgates
  cases hgates

/-! ## The file -/

/-- The data lines of an exported file. -/
def dataLines (read : ReadFloat) (skipIds : List Int64) (src : Db) : List Line :=
  (exportRows skipIds src).map fun r => readBack read (exportRow r)

/-- The row an import stores for a row that was written. -/
def restoredRec (read : ReadFloat) (r : Rec) : Rec :=
  ⟨r.table, r.key, (restored read r.table r.row).getD r.row⟩

theorem rowsOf_readBack (read : ReadFloat) (r : Rec) (lines : List Line) :
    rowsOf (readBack read (exportRow r) :: lines) =
      ((rereadLine read (exportRow r)).bind decode).bind fun row => (rowsOf lines).map (row :: ·) := by
  unfold readBack
  cases rereadLine read (exportRow r) <;> rfl

/-- **The data lines are read** iff every number in them is; the rows are then those restored. -/
theorem rowsOf_dataLines (read : ReadFloat) (l : List Rec) :
    (rowsOf (l.map fun r => readBack read (exportRow r))).map (List.map toRec) =
      if ∀ r ∈ l, (restored read r.table r.row).isSome then some (l.map (restoredRec read)) else none := by
  induction l with
  | nil => rfl
  | cons r l ih =>
    rw [List.map_cons, rowsOf_readBack]
    have hrow := decode_exportRow read r
    simp only [List.forall_mem_cons]
    cases hdecode : (rereadLine read (exportRow r)).bind decode with
    | none =>
      rw [hdecode] at hrow
      have hnone := Option.map_eq_none_iff.mp hrow.symm
      rw [if_neg]
      · rfl
      · rw [hnone]
        simp
    | some row =>
      rw [hdecode] at hrow
      obtain ⟨c, hc, heq⟩ := Option.map_eq_some_iff.mp hrow.symm
      rw [Option.bind_some]
      by_cases hall : ∀ r ∈ l, (restored read r.table r.row).isSome
      · rw [if_pos hall] at ih
        rw [if_pos ⟨by rw [hc]; rfl, hall⟩]
        obtain ⟨rows, hrows, hmap⟩ := Option.map_eq_some_iff.mp ih
        rw [hrows, Option.map_some, Option.map_some, List.map_cons, hmap, ← heq, List.map_cons]
        unfold restoredRec
        rw [hc]
        rfl
      · rw [if_neg hall] at ih
        rw [if_neg fun h => hall h.2, Option.map_eq_none_iff.mp ih]
        rfl

/-- A written header is read back. -/
theorem openFile_header (read : ReadFloat) (schemaVersion now entryCount : Int64) (skipQuarantined : Bool)
    (lines : List Line) :
    openFile (some (readBack read ([("_header", .bool true), ("schema_version", .int schemaVersion),
      ("exported_at", .int now), ("entry_count", .int entryCount), ("format_version", .int 2)] ++
      if skipQuarantined then [("skip_quarantined", .bool true)] else []) :: lines)) =
      .ok (⟨true, schemaVersion, now, entryCount, 2⟩, lines) := by
  cases skipQuarantined <;>
    simp [openFile, readBack, rereadLine, reread, parseHeader, decodeHeader, required, field, asBool, asInt,
      Except.map]

theorem lookup_freshTables {name : String} {v : Int64} :
    (freshTables .counters).lookup name = some v ↔ (name, v) ∈ initialCounters :=
  HashMap.lookup_collect (by decide)

/-- **A fresh store takes an exported file.** -/
theorem admits_exported {src : Db} (hsrc : Opened src) {args : ImportArgs} (hgates : GatesOpen args)
    (read : ReadFloat) (now : Int64) {skipQuarantined confirm : Bool}
    (hconfirm : (skipQuarantined && !confirm) = false) :
    Admits args (exportedFile read now skipQuarantined confirm src) freshTables
      (dataLines read (skipSet skipQuarantined src) src) := by
  have hopen : openFile (exportedFile read now skipQuarantined confirm src) =
      .ok (⟨true, currentSchemaVersion, now, Int64.ofNat (src .entries).len, 2⟩,
        dataLines read (skipSet skipQuarantined src) src) := by
    rw [← openFile_header read currentSchemaVersion now (Int64.ofNat (src .entries).len) skipQuarantined]
    unfold exportedFile runExport doExport writeHeader dataLines
    rw [hconfirm, hsrc.schemaVersion]
    simp only [Bool.false_eq_true, if_false, Option.map_some, Except.toOption, List.map_cons, List.map_map]
    rfl
  have hversion : (freshTables .counters).lookup "schema_version" = some currentSchemaVersion :=
    lookup_freshTables.mpr List.mem_cons_self
  exact ⟨hgates, ⟨_, _, hopen, hversion, .inr rfl, Int64.le_refl _⟩, .inl rfl, .inr rfl⟩

/-! ## What is stored -/

/-- A store without rows, but for counters. -/
def Bare (base : Db) : Prop := ∀ t, t ≠ .counters → base t = ∅

theorem Bare.at?_eq_none {base : Db} (h : Bare base) {s : Tables.Slot Table.Key} (hs : s.1 ≠ .counters) :
    Tables.at? base s = none := by
  unfold Tables.at?
  rw [h s.1 hs]
  rfl

theorem bare_target (args : ImportArgs) : Bare (target args Database.fresh).tables := by
  intro t ht
  unfold target
  cases args.force with
  | true => cases t <;> rfl
  | false =>
    cases t with
    | counters => exact absurd rfl ht
    | _ => rfl

/-- Every number that was written is read. -/
abbrev AllRead (read : ReadFloat) (skipIds : List Int64) (src : Db) : Prop :=
  ∀ r ∈ exportRows skipIds src, (restored read r.table r.row).isSome

/-- **What was written can be inserted.** A kept tag has its entry before it. -/
theorem fits_exported {src : Db} (hsrc : Opened src) {base : Db} (hbase : Bare base) (read : ReadFloat)
    (skipIds : List Int64) :
    Tables.Fits constraints base ((exportRows skipIds src).map (restoredRec read)) := by
  have hfits : Tables.Fits constraints base (exportRows skipIds src) := by
    refine Tables.fits_dump orderRows_perm exportedTables_sorted ?_ ?_ ?_
    · intro r _
      by_cases ht : r.table = .counters
      · exact .inl (decide_eq_true ht)
      · exact .inr (hbase.at?_eq_none ht)
    · intro r hr
      exact hsrc.consistent.check r (mem_exportRows.mp hr).1
    · intro r hr s hs
      obtain ⟨hat, hkept⟩ := mem_exportRows.mp hr
      have hthere := hsrc.consistent.refs r hat s hs
      obtain ⟨t, k, c⟩ := r
      cases t with
      | entryTags =>
        obtain ⟨entryId, tag⟩ := k
        obtain rfl : s = ⟨.entries, entryId⟩ := List.mem_singleton.mp hs
        obtain ⟨e, he⟩ := Option.isSome_iff_exists.mp hthere
        refine .inr ⟨⟨.entries, entryId, e⟩, mem_exportRows.mpr ⟨he, ?_⟩, rfl,
          (by decide : Table.rank .entries < Table.rank .entryTags)⟩
        -- the entry is looked up in the skip set by the id its tag was looked up by
        exact kept_iff.mpr fun id hid => kept_iff.mp hkept id hid
      | _ => cases hs
  refine hfits.map (fun _ => rfl) (fun r => ?_) fun r => ?_
  all_goals
    obtain ⟨t, k, c⟩ := r
    cases t <;> rfl

/-- What an import has stored of what was written. -/
structure Imported (read : ReadFloat) (skipIds : List Int64) (src base tables : Db) : Prop where
  stored : ∀ r ∈ exportRows skipIds src, Tables.at? tables r.slot = some (restoredRec read r).row
  other : ∀ s, (∀ r ∈ exportRows skipIds src, r.slot ≠ s) → Tables.at? tables s = Tables.at? base s

theorem imported_of_insertAll {read : ReadFloat} {skipIds : List Int64} {src base tables : Db}
    (h : Tables.insertAll constraints ((exportRows skipIds src).map (restoredRec read)) base = some tables) :
    Imported read skipIds src base tables := by
  have hslots : ((exportRows skipIds src).map (restoredRec read)).map Tables.Rec.slot =
      (exportRows skipIds src).map Tables.Rec.slot := by
    rw [List.map_map]
    rfl
  constructor
  · intro r hr
    exact Tables.insertAll_at (by rw [hslots]; exact exportRows_slots_nodup skipIds src) h
      (List.mem_map_of_mem hr)
  · intro s hs
    refine Tables.insertAll_at_ne h fun r hr => ?_
    obtain ⟨r₀, hr₀, rfl⟩ := List.mem_map.mp hr
    exact hs r₀ hr₀

/-- **When the transaction of an exported file commits**, and what it stores. -/
theorem restores_dataLines_iff {sha256 : Digest} {args : ImportArgs} {read : ReadFloat}
    {skipIds : List Int64} {src base tables : Db} :
    (∃ counts, Restores sha256 args (dataLines read skipIds src) base counts tables) ↔
      AllRead read skipIds src ∧
        Tables.insertAll constraints ((exportRows skipIds src).map (restoredRec read)) base = some tables ∧
        (args.skipHashValidation = true ∨ (verifyEntries sha256 (loadEntries tables)).isClean = true) := by
  have hread := rowsOf_dataLines read (exportRows skipIds src)
  constructor
  · rintro ⟨counts, ⟨rows, hrows, -, hall⟩, hhashes⟩
    unfold dataLines at hrows
    rw [hrows] at hread
    by_cases hallRead : AllRead read skipIds src
    · rw [if_pos hallRead] at hread
      obtain hmap : rows.map toRec = _ := Option.some.inj hread
      rw [hmap] at hall
      exact ⟨hallRead, hall, hhashes⟩
    · rw [if_neg hallRead] at hread
      cases hread
  · rintro ⟨hallRead, hall, hhashes⟩
    rw [if_pos hallRead] at hread
    obtain ⟨rows, hrows, hmap⟩ := Option.map_eq_some_iff.mp hread
    exact ⟨tally (fun _ => 0) rows, ⟨rows, hrows, rfl, by rw [hmap]; exact hall⟩, hhashes⟩

/-- **How an import of an exported file into a fresh store ends.** The rows it stores, or would store, are
those that were written; it commits iff every number is read and the entries verify. -/
theorem restoreDatabase_exported {src : Db} (hsrc : Opened src) (sha256 : Digest) {args : ImportArgs}
    (hgates : GatesOpen args) (read : ReadFloat) (now : Int64) (skipQuarantined confirm : Bool)
    (hconfirm : (skipQuarantined && !confirm) = false) :
    ∃ tables, Imported read (skipSet skipQuarantined src) src (target args Database.fresh).tables tables ∧
      (AllRead read (skipSet skipQuarantined src) src ∧ (args.skipHashValidation = true ∨
          (verifyEntries sha256 (loadEntries tables)).isClean = true) →
        ∃ counts, restoreDatabase sha256 args (exportedFile read now skipQuarantined confirm src) none
          Database.fresh = (.ok counts, { target args Database.fresh with tables })) ∧
      (¬ (AllRead read (skipSet skipQuarantined src) src ∧ (args.skipHashValidation = true ∨
          (verifyEntries sha256 (loadEntries tables)).isClean = true)) →
        ∃ e, restoreDatabase sha256 args (exportedFile read now skipQuarantined confirm src) none
          Database.fresh = (.error e, target args Database.fresh)) := by
  have hadmits := admits_exported hsrc hgates read now hconfirm
  have hfits := fits_exported hsrc (bare_target args) read (skipSet skipQuarantined src)
  obtain ⟨tables, hall⟩ := Option.isSome_iff_exists.mp (Tables.insertAll_isSome_iff.mpr hfits)
  refine ⟨tables, imported_of_insertAll hall, fun hcond => ?_, fun hcond => ?_⟩
  · obtain ⟨counts, hrestores⟩ := restores_dataLines_iff.mpr ⟨hcond.1, hall, hcond.2⟩
    exact ⟨counts, restoreDatabase_eq_ok_iff.mpr ⟨_, tables, hadmits, hrestores, rfl⟩⟩
  · rcases hrun : restoreDatabase sha256 args (exportedFile read now skipQuarantined confirm src) none
      Database.fresh with ⟨result, db'⟩
    cases result with
    | error e =>
      rcases restoreDatabase_error hrun with ⟨hnone, -⟩ | ⟨-, rfl⟩
      · exact absurd hadmits (hnone _)
      · exact ⟨e, rfl⟩
    | ok counts =>
      obtain ⟨lines, tables', hlines, hrestores, -⟩ := restoreDatabase_eq_ok_iff.mp hrun
      rw [hadmits.lines_unique hlines] at hrestores
      obtain ⟨hread, hall', hhashes⟩ := restores_dataLines_iff.mp ⟨counts, hrestores⟩
      rw [hall] at hall'
      cases hall'
      exact absurd ⟨hread, hhashes⟩ hcond

/-! ## What is verified -/

/-- The entries that are stored are those that were written. -/
theorem Imported.lookup_entries {read : ReadFloat} {skipIds : List Int64} {src base tables : Db}
    (himp : Imported read skipIds src base tables) (hbase : Bare base) {id : Int64} {c' : EntryColumns} :
    (tables .entries).lookup id = some c' ↔ ∃ c, (src .entries).lookup id = some c ∧ id ∉ skipIds ∧
      (restoredRec read ⟨.entries, id, c⟩).row = c' := by
  have hwritten : ∀ c, (⟨.entries, id, c⟩ : Rec) ∈ exportRows skipIds src ↔
      (src .entries).lookup id = some c ∧ id ∉ skipIds := by
    intro c
    rw [mem_exportRows, kept_iff]
    exact and_congr_right fun _ => List.forall_mem_singleton
  constructor
  · intro hat
    by_cases hrow : ∃ r ∈ exportRows skipIds src, r.slot = ⟨.entries, id⟩
    · obtain ⟨⟨t, k, c⟩, hr, hslot⟩ := hrow
      cases hslot
      obtain ⟨hsrc, hskip⟩ := (hwritten c).mp hr
      refine ⟨c, hsrc, hskip, ?_⟩
      exact Option.some.inj ((himp.stored _ hr).symm.trans hat)
    · have hnone := himp.other ⟨.entries, id⟩ fun r hr hslot => hrow ⟨r, hr, hslot⟩
      rw [hbase.at?_eq_none (by simp)] at hnone
      have hsome := hnone.symm.trans hat
      cases hsome
  · rintro ⟨c, hsrc, hskip, rfl⟩
    exact himp.stored ⟨.entries, id, c⟩ ((hwritten c).mpr ⟨hsrc, hskip⟩)

/-- Only a confidence may come back changed. -/
theorem sameChain_restored (read : ReadFloat) (id : Int64) (c : EntryColumns) :
    SameChain (entryRecord id c) (entryRecord id (restoredRec read ⟨.entries, id, c⟩).row) := by
  have hrow : (restoredRec read ⟨.entries, id, c⟩).row =
      ((readNumber read (.int 0) c.confidence).map fun b => { c with confidence := b }).getD c := rfl
  rw [hrow]
  cases readNumber read (.int 0) c.confidence with
  | none => exact SameChain.refl _
  | some b => exact ⟨rfl, rfl, rfl, rfl, rfl, rfl⟩

theorem supersedes_entryRecord {id p : Int64} {c : EntryColumns} {pred : EntryColumns}
    (h : (entryRecord id c).supersedes = some (entryRecord p pred).id) : c.supersedes = some p := by
  obtain ⟨p', hp', heq⟩ := Option.map_eq_some_iff.mp h
  rw [hp', toNat_toUInt64_inj heq]

/-- **What was written verifies** where the source does and no written entry supersedes a skipped one. -/
theorem isClean_imported {sha256 : Digest} {read : ReadFloat} {skipIds : List Int64} {src base tables : Db}
    (himp : Imported read skipIds src base tables) (hbase : Bare base)
    (hlinks : ∀ id c p, (src .entries).lookup id = some c → id ∉ skipIds → c.supersedes = some p →
      p ∉ skipIds)
    (hclean : (verifyEntries sha256 (loadEntries src)).isClean = true) :
    (verifyEntries sha256 (loadEntries tables)).isClean = true := by
  refine isClean_of_sameChain (loadEntries_ids_nodup tables) ?_ ?_ hclean
  · intro e' he'
    obtain ⟨id, c', hc', rfl⟩ := mem_loadEntries.mp he'
    obtain ⟨c, hc, -, rfl⟩ := (himp.lookup_entries hbase).mp hc'
    exact ⟨entryRecord id c, mem_loadEntries.mpr ⟨id, c, hc, rfl⟩, sameChain_restored read id c⟩
  · intro e' he' pred hpred hs
    obtain ⟨id, c', hc', rfl⟩ := mem_loadEntries.mp he'
    obtain ⟨c, hc, hskip, rfl⟩ := (himp.lookup_entries hbase).mp hc'
    obtain ⟨p, cp, hcp, rfl⟩ := mem_loadEntries.mp hpred
    rw [(sameChain_restored read id c).supersedes] at hs
    have hp := hlinks id c p hc hskip (supersedes_entryRecord hs)
    refine ⟨entryRecord p (restoredRec read ⟨.entries, p, cp⟩).row, ?_, sameChain_restored read p cp⟩
    exact mem_loadEntries.mpr ⟨p, _, (himp.lookup_entries hbase).mpr ⟨cp, hcp, hp, rfl⟩, rfl⟩

/-- **A whole backup verifies** iff the source does. -/
theorem isClean_imported_iff (sha256 : Digest) {read : ReadFloat} {src base tables : Db}
    (himp : Imported read [] src base tables) (hbase : Bare base) :
    (verifyEntries sha256 (loadEntries tables)).isClean = true ↔
      (verifyEntries sha256 (loadEntries src)).isClean = true := by
  have hback : ∀ id c, (src .entries).lookup id = some c →
      ∃ e' ∈ loadEntries tables, SameChain e' (entryRecord id c) := by
    intro id c hc
    refine ⟨entryRecord id (restoredRec read ⟨.entries, id, c⟩).row, ?_,
      (sameChain_restored read id c).symm⟩
    exact mem_loadEntries.mpr ⟨id, _,
      (himp.lookup_entries hbase).mpr ⟨c, hc, List.not_mem_nil, rfl⟩, rfl⟩
  constructor
  · refine isClean_of_sameChain (loadEntries_ids_nodup src) ?_ ?_
    · intro e he
      obtain ⟨id, c, hc, rfl⟩ := mem_loadEntries.mp he
      exact hback id c hc
    · intro e _ pred' hpred' _
      obtain ⟨p, cp', hcp', rfl⟩ := mem_loadEntries.mp hpred'
      obtain ⟨cp, hcp, -, rfl⟩ := (himp.lookup_entries hbase).mp hcp'
      exact ⟨entryRecord p cp, mem_loadEntries.mpr ⟨p, cp, hcp, rfl⟩, (sameChain_restored read p cp).symm⟩
  · exact isClean_imported himp hbase fun _ _ _ _ _ _ => List.not_mem_nil

/-! ## The round trip -/

/-- `dst` has the rows of `src` as documented and no others, but for one audit event and its counter. -/
structure Reproduced (src dst : Db) : Prop where
  rows : ∀ s, s ≠ ⟨.counters, "next_audit_id"⟩ → ∀ row, Tables.at? src s = some row →
    Tables.at? dst s = some (documented s.1 row)
  noOther : ∀ s, Tables.at? src s = none → (Tables.at? dst s).isSome = true → s.1 = .auditLog
  oneEvent : ∀ id id', Tables.at? src ⟨.auditLog, id⟩ = none → Tables.at? src ⟨.auditLog, id'⟩ = none →
    (Tables.at? dst ⟨.auditLog, id⟩).isSome = true → (Tables.at? dst ⟨.auditLog, id'⟩).isSome = true →
      id = id'

/-- Every column that is not written has its default, and every number is read back as it is. -/
def AllWritten (read : ReadFloat) (src : Db) : Prop :=
  ∀ r : Rec, Tables.at? src r.slot = some r.row → Written read r.table r.row

theorem allRead_of_allWritten {read : ReadFloat} {src : Db} (h : AllWritten read src) :
    AllRead read [] src := by
  intro r hr
  rw [(restored_eq_iff read r.row).mpr (h r (mem_exportRows.mp hr).1)]
  rfl

/-- A slot that the source leaves free is free in what was imported, but for a counter. -/
theorem Imported.at?_eq_base {read : ReadFloat} {src base tables : Db}
    (himp : Imported read [] src base tables) {s : Tables.Slot Table.Key} (hs : Tables.at? src s = none) :
    Tables.at? tables s = Tables.at? base s := by
  refine himp.other s ?_
  rintro r hr rfl
  rw [(mem_exportRows.mp hr).1] at hs
  cases hs

/-- A counter of the target is one of the source. -/
theorem bare_target_counter {src : Db} (hsrc : Opened src) (args : ImportArgs)
    {s : Tables.Slot Table.Key} (hs : (Tables.at? (target args Database.fresh).tables s).isSome = true) :
    (Tables.at? src s).isSome = true := by
  by_cases ht : s.1 = .counters
  · obtain ⟨t, name⟩ := s
    obtain rfl : t = .counters := ht
    refine hsrc.counters name ?_
    unfold target at hs
    cases hforce : args.force with
    | true =>
      rw [hforce] at hs
      cases hs
    | false =>
      rw [hforce] at hs
      obtain ⟨v, hv⟩ := Option.isSome_iff_exists.mp hs
      exact List.mem_map_of_mem (lookup_freshTables.mp hv)
  · rw [(bare_target args).at?_eq_none ht] at hs
    cases hs

/-- **What comes back**: the rows of an import that commits are the source's, each as it is read. -/
theorem reproduced_iff_of_imported {read : ReadFloat} {src tables dst : Db} {args : ImportArgs}
    (hsrc : Opened src) (himp : Imported read [] src (target args Database.fresh).tables tables)
    (hread : AllRead read [] src) (hdst : Provenanced tables dst) :
    Reproduced src dst ↔ AllWritten read src := by
  have hstored : ∀ r : Rec, Tables.at? src r.slot = some r.row →
      Tables.at? tables r.slot = restored read r.table r.row := by
    intro r hr
    have hmem : r ∈ exportRows [] src := mem_exportRows.mpr ⟨hr, kept_nil r⟩
    obtain ⟨row, hrow⟩ := Option.isSome_iff_exists.mp (hread r hmem)
    rw [himp.stored r hmem, hrow]
    unfold restoredRec
    rw [hrow]
    rfl
  have hkept : ∀ r : Rec, Tables.at? src r.slot = some r.row →
      r.slot ≠ ⟨.counters, "next_audit_id"⟩ →
        Tables.at? dst r.slot = restored read r.table r.row := by
    intro r hr hcounter
    have hmem : r ∈ exportRows [] src := mem_exportRows.mpr ⟨hr, kept_nil r⟩
    rw [hdst.at?_eq hcounter (by rw [hstored r hr]; exact hread r hmem), hstored r hr]
  constructor
  · intro hrep r hr
    by_cases ht : r.table = .counters
    · obtain ⟨t, k, c⟩ := r
      obtain rfl : t = .counters := ht
      trivial
    · have hcounter : r.slot ≠ ⟨.counters, "next_audit_id"⟩ := fun heq => ht (congrArg Sigma.fst heq)
      rw [← restored_eq_iff, ← hkept r hr hcounter]
      exact hrep.rows r.slot hcounter r.row hr
  · intro hwritten
    refine ⟨?_, ?_, ?_⟩
    · intro s hcounter row hrow
      have hat := hkept ⟨s.1, s.2, row⟩ hrow hcounter
      exact hat.trans ((restored_eq_iff read row).mpr (hwritten ⟨s.1, s.2, row⟩ hrow))
    · intro s hnone hsome
      have hfree : Tables.at? tables s = none := by
        rw [himp.at?_eq_base hnone]
        by_contra hne
        have hthere := bare_target_counter hsrc args (Option.isSome_iff_ne_none.mpr hne)
        rw [hnone] at hthere
        cases hthere
      refine (hdst.new hfree hsome).resolve_left ?_
      rintro rfl
      have hthere := hsrc.counters "next_audit_id" (by decide)
      change (Tables.at? src ⟨.counters, "next_audit_id"⟩).isSome = true at hthere
      rw [hnone] at hthere
      cases hthere
    · intro id id' hid hid' hnew hnew'
      have hfree : ∀ id, Tables.at? src ⟨.auditLog, id⟩ = none →
          Tables.at? tables ⟨.auditLog, id⟩ = none := by
        intro id hnone
        rw [himp.at?_eq_base hnone]
        exact (bare_target args).at?_eq_none (by simp)
      exact hdst.one (hfree id hid) (hfree id' hid') hnew hnew'

/-- **When a backup comes back whole.** -/
theorem roundTrip_iff (sha256 : Digest) (read : ReadFloat) (reconstruct : Reconstruct) (now now' : Int64)
    (input : String) {args : ImportArgs} (hgates : GatesOpen args) (confirm : Bool) {src : Db}
    (hsrc : Opened src) :
    Reproduced src (runImport sha256 reconstruct now' input args (exportedFile read now false confirm src)
        none Database.fresh).2.tables ↔
      AllWritten read src ∧
        (args.skipHashValidation = true ∨ (verifyEntries sha256 (loadEntries src)).isClean = true) := by
  obtain ⟨tables, himp, hok, herror⟩ := restoreDatabase_exported hsrc sha256 hgates read now false
    confirm rfl
  have hclean := isClean_imported_iff sha256 himp (bare_target args)
  by_cases hcommits : AllRead read [] src ∧ (args.skipHashValidation = true ∨
      (verifyEntries sha256 (loadEntries tables)).isClean = true)
  · obtain ⟨counts, hrun⟩ := hok hcommits
    rw [reproduced_iff_of_imported hsrc himp hcommits.1 (runImport_tables hrun reconstruct now' input)]
    exact (and_iff_left (hcommits.2.imp_right hclean.mp)).symm
  · obtain ⟨e, hrun⟩ := herror hcommits
    rw [runImport_error hrun]
    constructor
    · intro hrep
      -- nothing was stored, so there was nothing to store but counters
      have hcounters : ∀ r : Rec, Tables.at? src r.slot = some r.row → r.table = .counters := by
        intro r hr
        by_contra ht
        have hat := hrep.rows r.slot (fun heq => ht (congrArg Sigma.fst heq)) r.row hr
        rw [(bare_target args).at?_eq_none ht] at hat
        cases hat
      refine ⟨fun r hr => ?_, .inr ?_⟩
      · obtain ⟨t, k, c⟩ := r
        obtain rfl : t = .counters := hcounters _ hr
        trivial
      · rw [isClean_iff]
        intro e he
        obtain ⟨id, c, hc, -⟩ := mem_loadEntries.mp he
        have htable := hcounters ⟨.entries, id, c⟩ hc
        cases htable
    · rintro ⟨hwritten, hhashes⟩
      exact absurd ⟨allRead_of_allWritten hwritten, hhashes.imp_right hclean.mpr⟩ hcommits

/-! ## A phase is lost -/

theorem consistent_freshTables : Tables.Consistent constraints freshTables := by
  have hcounters : ∀ r : Rec, Tables.at? freshTables r.slot = some r.row → r.table = .counters := by
    rintro ⟨t, k, c⟩ hr
    cases t with
    | counters => rfl
    | _ => cases hr
  constructor
  · intro r hr
    obtain ⟨t, k, c⟩ := r
    obtain rfl : t = .counters := hcounters _ hr
    rfl
  · intro r hr s hs
    obtain ⟨t, k, c⟩ := r
    obtain rfl : t = .counters := hcounters _ hr
    cases hs

/-- A store with a feature entry of the design phase. -/
def phasedStore : Db := Tables.put freshTables ⟨.featureEntries, ("feature", 1), ⟨some "design"⟩⟩

theorem opened_phasedStore : Opened phasedStore where
  consistent := consistent_freshTables.insert (if_pos (by decide +kernel))
  counters := by decide +kernel
  schemaVersion := by decide +kernel

theorem roundTrip_phasedStore : GatesOpen ⟨none, false, false⟩ ∧ Opened phasedStore ∧
    (Reproduced phasedStore (runImport (fun _ => Vector.replicate 32 0) (fun db => (.ok (), db.vectorMap)) 0
        "backup.jsonl" ⟨none, false, false⟩ (exportedFile some 0 false false phasedStore) none
        Database.fresh).2.tables ↔
      AllWritten some phasedStore ∧ ((⟨none, false, false⟩ : ImportArgs).skipHashValidation = true ∨
        (verifyEntries (fun _ => Vector.replicate 32 0) (loadEntries phasedStore)).isClean = true)) :=
  ⟨gatesOpen_of_no_slug rfl, opened_phasedStore,
    roundTrip_iff (fun _ => Vector.replicate 32 0) some (fun db => (.ok (), db.vectorMap)) 0 0 "backup.jsonl"
      (gatesOpen_of_no_slug rfl) false opened_phasedStore⟩

/-- The phase `record_feature_entries` stored is gone. -/
theorem phase_not_reproduced :
    ¬ Reproduced phasedStore (runImport (fun _ => Vector.replicate 32 0)
      (fun db => (.ok (), db.vectorMap)) 0 "backup.jsonl" ⟨none, false, false⟩
      (exportedFile some 0 false false phasedStore) none Database.fresh).2.tables := by
  intro h
  have hrow := h.rows ⟨.featureEntries, ("feature", 1)⟩ (by simp) ⟨some "design"⟩ (by decide +kernel)
  have hlost : ((runImport (fun _ => Vector.replicate 32 0) (fun db => (.ok (), db.vectorMap)) 0
      "backup.jsonl" ⟨none, false, false⟩ (exportedFile some 0 false false phasedStore) none
      Database.fresh).2.tables .featureEntries).lookup ("feature", 1) = some ⟨none⟩ := by decide +kernel
  have hsame := hlost.symm.trans hrow
  cases hsame

end Unimatrix.Backup
