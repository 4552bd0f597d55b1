import Unimatrix.Backup.RoundTrip

/-!
# Exports without the quarantined entries

`--skip-quarantined` leaves out the entries of status 3 and the rows of `entry_tags`, `co_access`,
`feature_entries` and `graph_edges` that refer to them. It looks neither at `outcome_index` nor at `supersedes`,
and writes the counters as they are.

* `references_iff`, `counters_iff`: when what is written refers to nothing that is skipped, and when the
  counters are those of the entries written.
* **`filtered_iff`**: when a filtered export stands on its own (`SelfContained`), for a store whose entries
  verify.
-/

namespace Unimatrix.Backup

/-! ## What a filtered export should be -/

/-- The entries a row refers to. -/
def mentions : Rec → List Int64
  | ⟨.entries, _, c⟩ => c.supersedes.toList
  | ⟨.entryTags, (entryId, _), _⟩ => [entryId]
  | ⟨.coAccess, (entryIdA, entryIdB), _⟩ => [entryIdA, entryIdB]
  | ⟨.featureEntries, (_, entryId), _⟩ => [entryId]
  | ⟨.outcomeIndex, (_, entryId), _⟩ => [entryId]
  | ⟨.graphEdges, (sourceId, targetId, _), _⟩ => [sourceId, targetId]
  | ⟨.counters, _, _⟩ => []
  | ⟨.agentRegistry, _, _⟩ => []
  | ⟨.auditLog, _, _⟩ => []
  | ⟨.observations, _, _⟩ => []
  | ⟨.cycleEvents, _, _⟩ => []

/-- What a status is stored as. -/
def statusInt : Status → Int64
  | .active => 0
  | .deprecated => 1
  | .proposed => 2
  | .quarantined => 3

/-- The counter of a name among some rows; 0 where there is none. -/
def counterIn (rows : List Rec) (name : String) : Int64 :=
  (rows.findSome? fun
    | ⟨.counters, name', v⟩ => if name' = name then some v else none
    | _ => none).getD 0

/-- The entries among some rows. -/
def entriesIn (rows : List Rec) : List (Int64 × EntryColumns) :=
  rows.filterMap fun
    | ⟨.entries, id, c⟩ => some (id, c)
    | _ => none

/-- How many of some entries have a status. -/
def countStatus (entries : List (Int64 × EntryColumns)) (st : Status) : Nat :=
  entries.countP fun e => e.2.status = statusInt st

/-- Nothing written refers to what is skipped, the counters are those of the entries written, and a fresh store
takes the file. -/
structure SelfContained (sha256 : Digest) (read : ReadFloat) (reconstruct : Reconstruct) (now now' : Int64)
    (input : String) (args : ImportArgs) (src : Db) : Prop where
  references : ∀ r ∈ exportRows (skipSet true src) src, ∀ id ∈ mentions r, id ∉ skipSet true src
  counters : ∀ st, (counterIn (exportRows (skipSet true src) src) (statusCounterKey st)).toInt =
    countStatus (entriesIn (exportRows (skipSet true src) src)) st
  imports : (runImport sha256 reconstruct now' input args (exportedFile read now true true src) none
    Database.fresh).1 = .ok ()

/-! ## References -/

/-- No outcome is that of a quarantined entry. -/
def OutcomesStand (src : Db) : Prop :=
  ∀ cycle id, (src .outcomeIndex).lookup (cycle, id) = some () → id ∉ skipSet true src

/-- No entry that stays supersedes a quarantined one. -/
def LinksStand (src : Db) : Prop :=
  ∀ id c p, (src .entries).lookup id = some c → c.status ≠ 3 → c.supersedes = some p → p ∉ skipSet true src

theorem not_mem_skipSet {src : Db} {id : Int64} {c : EntryColumns}
    (hc : (src .entries).lookup id = some c) : id ∉ skipSet true src ↔ c.status ≠ 3 := by
  rw [mem_skipSet, hc]
  simp

/-- **When nothing written refers to what is skipped.** -/
theorem references_iff {src : Db} :
    (∀ r ∈ exportRows (skipSet true src) src, ∀ id ∈ mentions r, id ∉ skipSet true src) ↔
      OutcomesStand src ∧ LinksStand src := by
  constructor
  · intro h
    constructor
    · intro cycle id hrow
      refine h ⟨.outcomeIndex, (cycle, id), ()⟩ (mem_exportRows.mpr ⟨hrow, rfl⟩) id ?_
      exact List.mem_singleton_self id
    · intro id c p hc hstatus hp
      refine h ⟨.entries, id, c⟩ (mem_exportRows.mpr ⟨hc, kept_iff.mpr ?_⟩) p ?_
      · rintro id' hid'
        rw [List.mem_singleton.mp hid']
        exact (not_mem_skipSet hc).mpr hstatus
      · change p ∈ c.supersedes.toList
        rw [hp]
        exact List.mem_singleton_self p
  · rintro ⟨houtcomes, hlinks⟩ r hr id hid
    obtain ⟨hat, hkept⟩ := mem_exportRows.mp hr
    obtain ⟨t, k, c⟩ := r
    cases t with
    | entries =>
      have hstatus := (not_mem_skipSet hat).mp (kept_iff.mp hkept k (List.mem_singleton_self k))
      exact hlinks k c id hat hstatus (Option.mem_toList.mp hid)
    | outcomeIndex =>
      obtain rfl : id = k.2 := List.mem_singleton.mp hid
      exact houtcomes k.1 k.2 hat
    -- the other exporters look up what their rows refer to
    | entryTags => exact kept_iff.mp hkept id hid
    | coAccess => exact kept_iff.mp hkept id hid
    | featureEntries => exact kept_iff.mp hkept id hid
    | graphEdges => exact kept_iff.mp hkept id hid
    | counters => cases hid
    | agentRegistry => cases hid
    | auditLog => cases hid
    | observations => cases hid
    | cycleEvents => cases hid

/-! ## Counters -/

/-- The counters are written as they are. -/
theorem counterIn_exportRows (skipIds : List Int64) (src : Db) (name : String) :
    counterIn (exportRows skipIds src) name = ((src .counters).lookup name).getD 0 := by
  unfold counterIn
  congr 1
  cases hv : (src .counters).lookup name with
  | none =>
    rw [List.findSome?_eq_none_iff]
    rintro ⟨t, k, c⟩ hr
    cases t with
    | counters =>
      refine if_neg ?_
      rintro rfl
      have hat := (mem_exportRows.mp hr).1
      have hsame := hv.symm.trans hat
      cases hsame
    | _ => rfl
  | some v =>
    have hrow : (⟨.counters, name, v⟩ : Rec) ∈ exportRows skipIds src := mem_exportRows.mpr ⟨hv, rfl⟩
    have hsome : (((exportRows skipIds src).findSome? fun r : Rec =>
        match r with
        | ⟨.counters, name', v⟩ => if name' = name then some v else none
        | _ => none) : Option Int64).isSome := by
      rw [List.findSome?_isSome_iff]
      exact ⟨_, hrow, by simp⟩
    obtain ⟨v', hv'⟩ := Option.isSome_iff_exists.mp hsome
    rw [hv']
    obtain ⟨⟨t, k, c⟩, hr, heq⟩ := List.exists_of_findSome?_eq_some hv'
    cases t with
    | counters =>
      dsimp only at heq
      split at heq
      · rename_i hname
        subst hname
        cases heq
        have hat := (mem_exportRows.mp hr).1
        exact (hat.symm.trans hv)
      · cases heq
    | _ => cases heq

/-- The entries written are those that are not skipped. -/
theorem entriesIn_exportRows_perm (skipIds : List Int64) (src : Db) :
    (entriesIn (exportRows skipIds src)).Perm ((src .entries).pairs.filter fun e => e.1 ∉ skipIds) := by
  have hnodup : (entriesIn (exportRows skipIds src)).Nodup := by
    have hpair := List.pairwise_map.mp (exportRows_slots_nodup skipIds src)
    unfold entriesIn
    refine hpair.filterMap _ ?_
    rintro ⟨t, k, c⟩ ⟨t', k', c'⟩ hne e he e' he' rfl
    cases t with
    | entries =>
      cases t' with
      | entries =>
        cases he
        cases he'
        exact hne rfl
      | _ => cases he'
    | _ => cases he
  refine (List.perm_ext_iff_of_nodup hnodup ?_).mpr ?_
  · exact (List.Nodup.of_map _ (src .entries).pairs_keys_nodup).filter _
  · rintro ⟨id, c⟩
    unfold entriesIn
    rw [List.mem_filterMap, List.mem_filter, HashMap.mem_pairs, decide_eq_true_eq]
    constructor
    · rintro ⟨⟨t, k, c'⟩, hr, heq⟩
      cases t with
      | entries =>
        cases heq
        obtain ⟨hat, hkept⟩ := mem_exportRows.mp hr
        exact ⟨hat, kept_iff.mp hkept id (List.mem_singleton_self id)⟩
      | _ => cases heq
    · rintro ⟨hat, hskip⟩
      refine ⟨⟨.entries, id, c⟩, mem_exportRows.mpr ⟨hat, kept_iff.mpr ?_⟩, rfl⟩
      intro id' hid'
      rwa [List.mem_singleton.mp hid']

/-- The counter of quarantined entries is 0, and each other counter is the number of entries of its status. -/
def CountersStand (src : Db) : Prop :=
  ∀ st, (((src .counters).lookup (statusCounterKey st)).getD 0).toInt =
    if st = .quarantined then 0 else (countStatus (src .entries).pairs st : Int)

/-- Of the entries written none is quarantined, and of each other status none is left out. -/
theorem countStatus_exportRows (src : Db) (st : Status) :
    countStatus (entriesIn (exportRows (skipSet true src) src)) st =
      if st = .quarantined then 0 else countStatus (src .entries).pairs st := by
  have hskip : ∀ e ∈ (src .entries).pairs, (e.1 ∉ skipSet true src ↔ e.2.status ≠ 3) :=
    fun e he => not_mem_skipSet (HashMap.mem_pairs.mp he)
  unfold countStatus
  rw [(entriesIn_exportRows_perm (skipSet true src) src).countP_eq, List.countP_filter]
  by_cases hst : st = .quarantined
  · subst hst
    rw [if_pos rfl, List.countP_eq_zero]
    intro e he
    simp only [Bool.and_eq_true, decide_eq_true_eq, not_and]
    exact fun hstatus hnot => (hskip e he).mp hnot hstatus
  · rw [if_neg hst]
    refine List.countP_congr fun e he => ?_
    simp only [Bool.and_eq_true, decide_eq_true_eq, hskip e he]
    refine and_iff_left_of_imp fun hstatus => ?_
    rw [hstatus]
    cases st with
    | quarantined => exact absurd rfl hst
    | _ => decide

/-- **When the counters are those of the entries written.** -/
theorem counters_iff {src : Db} :
    (∀ st, (counterIn (exportRows (skipSet true src) src) (statusCounterKey st)).toInt =
      countStatus (entriesIn (exportRows (skipSet true src) src)) st) ↔ CountersStand src := by
  refine forall_congr' fun st => ?_
  rw [counterIn_exportRows, countStatus_exportRows]
  by_cases hst : st = .quarantined
  · rw [if_pos hst, if_pos hst]
    rfl
  · rw [if_neg hst, if_neg hst]

/-! ## Importing -/

/-- Every number that is not skipped is read. -/
def NumbersRead (read : ReadFloat) (src : Db) : Prop :=
  ∀ r : Rec, Tables.at? src r.slot = some r.row → kept (skipSet true src) r = true →
    (restored read r.table r.row).isSome

theorem allRead_iff {read : ReadFloat} {src : Db} :
    AllRead read (skipSet true src) src ↔ NumbersRead read src := by
  constructor
  · exact fun h r hr hkept => h r (mem_exportRows.mpr ⟨hr, hkept⟩)
  · exact fun h r hr => h r (mem_exportRows.mp hr).1 (mem_exportRows.mp hr).2

/-- What is not filtered is stored as it was. -/
theorem Imported.at?_unfiltered {read : ReadFloat} {skipIds : List Int64} {src base tables : Db}
    (himp : Imported read skipIds src base tables) {r : Rec} (hids : checkedIds r = [])
    (hr : Tables.at? src r.slot = some r.row) :
    Tables.at? tables r.slot = some (restoredRec read r).row := by
  refine himp.stored r (mem_exportRows.mpr ⟨hr, kept_iff.mpr ?_⟩)
  rw [hids]
  exact fun _ h => absurd h List.not_mem_nil

theorem nextEventFree_imported {read : ReadFloat} {skipIds : List Int64} {src base tables : Db}
    (hsrc : Opened src) (himp : Imported read skipIds src base tables) (hbase : Bare base) :
    NextEventFree tables ↔ NextEventFree src := by
  obtain ⟨v, hv⟩ := Option.isSome_iff_exists.mp (hsrc.counters "next_audit_id" (by decide))
  have hcounter : (tables .counters).lookup "next_audit_id" = (src .counters).lookup "next_audit_id" := by
    rw [hv]
    exact himp.at?_unfiltered (r := ⟨.counters, "next_audit_id", v⟩) rfl hv
  have hevents : ∀ id, Tables.at? tables ⟨.auditLog, id⟩ = none ↔ Tables.at? src ⟨.auditLog, id⟩ = none := by
    intro id
    constructor
    · intro hnone
      by_contra hne
      obtain ⟨c, hc⟩ := Option.ne_none_iff_exists'.mp hne
      have hat := himp.at?_unfiltered (r := ⟨.auditLog, id, c⟩) rfl hc
      have hsame := hnone.symm.trans hat
      cases hsame
    · intro hnone
      refine (himp.other ⟨.auditLog, id⟩ fun r hr hslot => ?_).trans (hbase.at?_eq_none (by simp))
      obtain ⟨t, k, c⟩ := r
      cases hslot
      have hsame := hnone.symm.trans (mem_exportRows.mp hr).1
      cases hsame
  unfold NextEventFree
  simp only [hcounter, hevents]

/-- An import that commits succeeds iff its provenance is recorded. -/
theorem runImport_eq_ok_iff {sha256 : Digest} {reconstruct : Reconstruct}
    (hreconstruct : ∀ db, (reconstruct db).1 = .ok ()) {args : ImportArgs} {file : Option (List Line)}
    {db db₁ : Database} {counts : ImportCounts}
    (h : restoreDatabase sha256 args file none db = (.ok counts, db₁)) (now : Int64) (input : String) :
    (runImport sha256 reconstruct now input args file none db).1 = .ok () ↔ NextEventFree db₁.tables := by
  have hok := hreconstruct db₁
  unfold runImport
  rw [h]
  dsimp only
  rcases hdone : reconstruct db₁ with ⟨result, vectorMap⟩
  rw [hdone] at hok
  cases hok
  exact recordProvenance_eq_ok_iff now input counts { db₁ with vectorMap }

/-- **When a filtered export stands on its own.** -/
theorem filtered_iff (sha256 : Digest) (read : ReadFloat) {reconstruct : Reconstruct}
    (hreconstruct : ∀ db, (reconstruct db).1 = .ok ()) (now now' : Int64) (input : String)
    {args : ImportArgs} (hgates : GatesOpen args) {src : Db} (hsrc : Opened src)
    (hclean : (verifyEntries sha256 (loadEntries src)).isClean = true) :
    SelfContained sha256 read reconstruct now now' input args src ↔
      OutcomesStand src ∧ LinksStand src ∧ CountersStand src ∧ NumbersRead read src ∧ NextEventFree src := by
  obtain ⟨tables, himp, hok, herror⟩ := restoreDatabase_exported hsrc sha256 hgates read now true true rfl
  have hverified : LinksStand src → (verifyEntries sha256 (loadEntries tables)).isClean = true := by
    intro hlinks
    refine isClean_imported himp (bare_target args) (fun id c p hc hskip hp => ?_) hclean
    exact hlinks id c p hc ((not_mem_skipSet hc).mp hskip) hp
  have hevents := nextEventFree_imported hsrc himp (bare_target args)
  rw [← allRead_iff]
  constructor
  · rintro ⟨hrefs, hcounters, himports⟩
    obtain ⟨houtcomes, hlinks⟩ := references_iff.mp hrefs
    by_cases hread : AllRead read (skipSet true src) src
    · obtain ⟨counts, hrun⟩ := hok ⟨hread, .inr (hverified hlinks)⟩
      refine ⟨houtcomes, hlinks, counters_iff.mp hcounters, hread, hevents.mp ?_⟩
      exact (runImport_eq_ok_iff hreconstruct hrun now' input).mp himports
    · obtain ⟨e, hrun⟩ := herror fun hcond => hread hcond.1
      rw [runImport_error hrun] at himports
      cases himports
  · rintro ⟨houtcomes, hlinks, hcounters, hread, hfree⟩
    obtain ⟨counts, hrun⟩ := hok ⟨hread, .inr (hverified hlinks)⟩
    refine ⟨references_iff.mpr ⟨houtcomes, hlinks⟩, counters_iff.mpr hcounters, ?_⟩
    exact (runImport_eq_ok_iff hreconstruct hrun now' input).mpr (hevents.mpr hfree)

theorem filtered_phasedStore : (∀ db : Database, ((.ok (), db.vectorMap) :
      Except ImportError Unit × HashMap Int64 Int64).1 = .ok ()) ∧
    (SelfContained (fun _ => Vector.replicate 32 0) some (fun db => (.ok (), db.vectorMap)) 0 0 "backup.jsonl"
        ⟨none, false, false⟩ phasedStore ↔
      OutcomesStand phasedStore ∧ LinksStand phasedStore ∧ CountersStand phasedStore ∧
        NumbersRead some phasedStore ∧ NextEventFree phasedStore) :=
  ⟨fun _ => rfl, filtered_iff (fun _ => Vector.replicate 32 0) some (fun _ => rfl) 0 0 "backup.jsonl"
    (gatesOpen_of_no_slug rfl) opened_phasedStore (by decide +kernel)⟩

/-! ## A dangling outcome -/

/-- A quarantined entry whose hash is that of its text. -/
def quarantinedEntry : EntryColumns :=
  ⟨"title", "content", "topic", "outcome", "", 3, 0, 0, 0, 0, 0, none, none, 0, 0, "", "",
    computeContentHash (fun _ => Vector.replicate 32 0) "title" "content", "", 1, "", "", 0, 0, none⟩

/-- A store whose one outcome is a quarantined entry. -/
def quarantinedOutcome : Db :=
  Tables.put (Tables.put freshTables ⟨.entries, 1, quarantinedEntry⟩) ⟨.outcomeIndex, ("feature", 1), ()⟩

/-- The outcome is written, its entry is not. -/
theorem outcome_refers_to_skipped :
    (verifyEntries (fun _ => Vector.replicate 32 0) (loadEntries quarantinedOutcome)).isClean = true ∧
      ¬ SelfContained (fun _ => Vector.replicate 32 0) some (fun db => (.ok (), db.vectorMap)) 0 0
        "backup.jsonl" ⟨none, false, false⟩ quarantinedOutcome := by
  refine ⟨by decide +kernel, fun h => ?_⟩
  have hwritten : (⟨.outcomeIndex, ("feature", 1), ()⟩ : Rec) ∈
      exportRows (skipSet true quarantinedOutcome) quarantinedOutcome := by
    refine mem_exportRows.mpr ⟨?_, rfl⟩
    unfold quarantinedOutcome
    exact Tables.at?_put_self _ _
  have hskipped : (1 : Int64) ∈ skipSet true quarantinedOutcome := by decide +kernel
  exact h.references _ hwritten 1 (List.mem_singleton_self 1) hskipped

end Unimatrix.Backup
