import Mathlib.Data.String.Basic
import Unimatrix.Lib.HashMap

/-!
# The entry store: records, rows and counters

Model of `schema.rs`, of the tables `db.rs` creates for them, of `counters.rs` and of the reads of
`read.rs` the writers use.

* A `u64` is a natural number; `u32`, `u16` and `u8` fields have their own type. SQL arithmetic is
  64-bit, so the columns it counts in are natural numbers and reading them back truncates
  (`entryFromRow`).
* A confidence is the bits of an `f64`: the store copies it and refuses a NaN, which SQLite stores as
  NULL.
* `floored` in `Counters` is not in the program: it records that a decrement was ever cut at 0.
-/

namespace Unimatrix

/-! ## Records -/

/-- `Status`. -/
inductive Status where
  | active
  | deprecated
  | proposed
  | quarantined
  deriving DecidableEq, Repr

/-- `status_counter_key`. -/
def statusCounterKey : Status → String
  | .active => "total_active"
  | .deprecated => "total_deprecated"
  | .proposed => "total_proposed"
  | .quarantined => "total_quarantined"

/-- `EntryRecord`. -/
structure EntryRecord where
  id : Nat
  title : String
  content : String
  topic : String
  category : String
  tags : List String
  source : String
  status : Status
  confidence : UInt64
  createdAt : Nat
  updatedAt : Nat
  lastAccessedAt : Nat
  accessCount : UInt32
  supersedes : Option Nat
  supersededBy : Option Nat
  correctionCount : UInt32
  embeddingDim : UInt16
  createdBy : String
  modifiedBy : String
  contentHash : String
  previousHash : String
  version : UInt32
  featureCycle : String
  trustSource : String
  helpfulCount : UInt32
  unhelpfulCount : UInt32
  preQuarantineStatus : Option UInt8
  deriving DecidableEq, Repr

/-- `NewEntry`. -/
structure NewEntry where
  title : String
  content : String
  topic : String
  category : String
  tags : List String
  source : String
  status : Status
  createdBy : String
  featureCycle : String
  trustSource : String
  deriving DecidableEq, Repr

/-- The `StoreError`s these operations return. -/
inductive StoreError where
  | entryNotFound (id : Nat)
  | database
  | poolTimeout
  | invalidInput (field : String) (reason : String)
  deriving DecidableEq, Repr

/-- `f64::is_nan` on the bits. -/
def isNan (bits : UInt64) : Bool :=
  (bits >>> 52) &&& 0x7FF == 0x7FF && bits &&& 0xFFFFFFFFFFFFF != 0

/-! ## Tables -/

/-- A row of `entries`, under its id. -/
structure EntryRow where
  title : String
  content : String
  topic : String
  category : String
  source : String
  status : Status
  confidence : UInt64
  createdAt : Nat
  updatedAt : Nat
  lastAccessedAt : Nat
  accessCount : Nat
  supersedes : Option Nat
  supersededBy : Option Nat
  correctionCount : Nat
  embeddingDim : UInt16
  createdBy : String
  modifiedBy : String
  contentHash : String
  previousHash : String
  version : UInt32
  featureCycle : String
  trustSource : String
  helpfulCount : Nat
  unhelpfulCount : Nat
  preQuarantineStatus : Option UInt8
  deriving DecidableEq, Repr

/-- `entry_from_row`, with the tags the callers then load. -/
def entryFromRow (id : Nat) (row : EntryRow) (tags : List String) : EntryRecord where
  id
  title := row.title
  content := row.content
  topic := row.topic
  category := row.category
  tags
  source := row.source
  status := row.status
  confidence := row.confidence
  createdAt := row.createdAt
  updatedAt := row.updatedAt
  lastAccessedAt := row.lastAccessedAt
  accessCount := row.accessCount.toUInt32
  supersedes := row.supersedes
  supersededBy := row.supersededBy
  correctionCount := row.correctionCount.toUInt32
  embeddingDim := row.embeddingDim
  createdBy := row.createdBy
  modifiedBy := row.modifiedBy
  contentHash := row.contentHash
  previousHash := row.previousHash
  version := row.version
  featureCycle := row.featureCycle
  trustSource := row.trustSource
  helpfulCount := row.helpfulCount.toUInt32
  unhelpfulCount := row.unhelpfulCount.toUInt32
  preQuarantineStatus := row.preQuarantineStatus

/-- The columns the hash chain is made of. -/
structure Links where
  title : String
  content : String
  supersedes : Option Nat
  contentHash : String
  previousHash : String
  version : UInt32
  deriving DecidableEq

/-- The chain columns of a row. -/
def EntryRow.links (row : EntryRow) : Links :=
  ⟨row.title, row.content, row.supersedes, row.contentHash, row.previousHash, row.version⟩

/-! ## Counters -/

/-- The `counters` table. -/
structure Counters where
  values : HashMap String Nat
  floored : Bool

namespace Counters

/-- `i64::MAX`, the largest value of the column. -/
def maxValue : Nat := 9223372036854775807

/-- `read_counter`. -/
def read (c : Counters) (name : String) : Nat := (c.values.lookup name).getD 0

/-- `set_counter`. -/
def set (c : Counters) (name : String) (value : Nat) : Counters :=
  { c with values := c.values.insert name value }

/-- `increment_counter`. The sum stays far below `u64::MAX`. -/
def increment (c : Counters) (name : String) (delta : Nat) : Counters :=
  c.set name (c.read name + delta)

/-- `decrement_counter`, which stops at 0. -/
def decrement (c : Counters) (name : String) (delta : Nat) : Counters :=
  { c with floored := c.floored || c.read name < delta }.set name (c.read name - delta)

/-- `next_counter`: the upsert. Past `i64::MAX` the sum is no integer and reading it back fails. -/
def next (c : Counters) (name : String) : Except StoreError (Nat × Counters) :=
  match c.values.lookup name with
  | none => .ok (1, c.set name 1)
  | some v => if v < maxValue then .ok (v + 1, c.set name (v + 1)) else .error .database

theorem read_set (c : Counters) (name name' : String) (v : Nat) :
    (c.set name v).read name' = if name' = name then v else c.read name' := by
  unfold read set
  rw [HashMap.lookup_insert_eq]
  split <;> rfl

theorem read_increment (c : Counters) (name name' : String) (d : Nat) :
    (c.increment name d).read name' = if name' = name then c.read name + d else c.read name' :=
  read_set c name name' _

@[simp] theorem floored_increment (c : Counters) (name : String) (d : Nat) :
    (c.increment name d).floored = c.floored := rfl

theorem read_decrement (c : Counters) (name name' : String) (d : Nat) :
    (c.decrement name d).read name' = if name' = name then c.read name - d else c.read name' :=
  read_set _ name name' _

theorem floored_decrement (c : Counters) (name : String) (d : Nat) :
    (c.decrement name d).floored = (c.floored || c.read name < d) := rfl

/-- **An allocated value is the next one.** -/
theorem next_eq {c c' : Counters} {name : String} {v : Nat} (h : c.next name = .ok (v, c')) :
    v = c.read name + 1 ∧ v ≤ maxValue ∧ c' = c.set name v := by
  unfold next at h
  cases hl : c.values.lookup name with
  | none =>
    rw [hl] at h
    cases h
    refine ⟨?_, by decide, rfl⟩
    unfold read
    rw [hl]
    rfl
  | some w =>
    simp only [hl] at h
    split at h
    · rename_i hlt
      cases h
      refine ⟨?_, hlt, rfl⟩
      unfold read
      rw [hl]
      rfl
    · cases h

end Counters

/-! ## The store -/

/-- The tables the writers touch. `entry_tags` is keyed by `(entry_id, tag)`. -/
structure Store where
  entries : HashMap Nat EntryRow
  entryTags : List (Nat × String)
  vectorMap : HashMap Nat Nat
  counters : Counters

namespace Store

/-- A freshly created database. -/
def empty : Store where
  entries := ∅
  entryTags := []
  vectorMap := ∅
  counters :=
    { values := HashMap.collect [("schema_version", 32), ("next_entry_id", 0), ("next_signal_id", 0),
        ("next_log_id", 0), ("next_audit_id", 0)]
      floored := false }

/-- The tags of an entry, as `load_tags_for_entries` orders them. -/
def tagsOf (s : Store) (id : Nat) : List String :=
  ((s.entryTags.filter fun t => t.1 = id).map Prod.snd).mergeSort (fun a b => decide (a ≤ b))

/-- `SELECT .. FROM entries WHERE id = ?` with its tags. -/
def find (s : Store) (id : Nat) : Option EntryRecord :=
  (s.entries.lookup id).map fun row => entryFromRow id row (s.tagsOf id)

/-- Every entry, in the order the table is scanned. -/
def allEntries (s : Store) (o : HashMap.IterOrder Nat EntryRow) : List EntryRecord :=
  (s.entries.iter o).map fun e => entryFromRow e.1 e.2 (s.tagsOf e.1)

theorem mem_allEntries {s : Store} {o : HashMap.IterOrder Nat EntryRow} {e : EntryRecord} :
    e ∈ s.allEntries o ↔ s.find e.id = some e := by
  unfold allEntries find
  rw [List.mem_map, Option.map_eq_some_iff]
  constructor
  · rintro ⟨⟨id, row⟩, hmem, rfl⟩
    exact ⟨row, HashMap.mem_iter.mp hmem, rfl⟩
  · rintro ⟨row, hl, he⟩
    exact ⟨(e.id, row), HashMap.mem_iter.mpr hl, he⟩

theorem allEntries_ids (s : Store) (o : HashMap.IterOrder Nat EntryRow) :
    (s.allEntries o).map EntryRecord.id = (s.entries.iter o).map Prod.fst := by
  unfold allEntries
  rw [List.map_map]
  rfl

/-- No two entries have the same id. -/
theorem allEntries_ids_nodup (s : Store) (o : HashMap.IterOrder Nat EntryRow) :
    ((s.allEntries o).map EntryRecord.id).Nodup := by
  rw [allEntries_ids]
  exact HashMap.iter_keys_nodup s.entries o

end Store

end Unimatrix
